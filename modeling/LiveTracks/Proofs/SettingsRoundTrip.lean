import LiveTracks.Proofs.SettingsObjects

/-!
# Writing settings and reading them again

The text of settings is an object of their four members (`toJson_written`), so that reading it gives the settings again
or their defect, and whatever was read once can be written and read again (`parse_toJson`).
-/

namespace LiveTracks.Settings

open Json

/-! ### Members -/

theorem textOf_unescaped {cs : List Char} (h) : textOf (unescaped cs h) = String.ofList cs := by
  rw [textOf, unescaped, List.map_map]
  exact congrArg String.ofList (List.attach_map_val.trans (List.map_id cs))

theorem bytes_unescaped {cs : List Char} (h) :
    (unescaped cs h).flatMap Letter.bytes = cs.flatMap String.utf8EncodeChar := by
  rw [unescaped, List.flatMap_map, List.flatMap_def, List.flatMap_def]
  exact congrArg List.flatten
    (List.attach_map_val : cs.attach.map (fun c => String.utf8EncodeChar c.1) = cs.map String.utf8EncodeChar)

theorem name_unescaped (f : Field) : f.name.toList.all isPlainChar = true := by
  cases f <;> decide +kernel

/-- The word that settings have for a field. -/
def wordIn (s : Settings) : Field → Option UInt64
  | .lostTtlSecs => some s.lostTtlSecs
  | .activeTtlSecs => some s.activeTtlSecs
  | .sweepIntervalMs => some s.sweepIntervalMs
  | .numWorkers => s.numWorkers

theorem exists_value (s : Settings) (f : Field) :
    ∃ v t, f.Fits v ∧ wordOf? v = s.wordIn f ∧ v.tokens = [t] ∧ t.bytes = bytesOf (s.valueText f) := by
  have hword (n : UInt64) : ∃ v t, wordOf? v = some n ∧ v.tokens = [t] ∧ t.bytes = bytesOf (toString n.toNat) := by
    obtain ⟨x, hword, hbytes⟩ := exists_literal n
    exact ⟨.number x, .number x, hword, by rw [Value.tokens], hbytes⟩
  have hfits {n : UInt64} (htext : s.valueText f = toString n.toNat) (hin : s.wordIn f = some n) :
      ∃ v t, f.Fits v ∧ wordOf? v = s.wordIn f ∧ v.tokens = [t] ∧ t.bytes = bytesOf (s.valueText f) := by
    obtain ⟨v, t, hword, htokens, hbytes⟩ := hword n
    exact ⟨v, t, .inl ⟨n, hword⟩, hword.trans hin.symm, htokens, hbytes.trans (congrArg bytesOf htext).symm⟩
  cases f with
  | numWorkers =>
    cases hworkers : s.numWorkers with
    | none =>
      refine ⟨.null, .null, .inr ⟨rfl, rfl⟩, hworkers.symm, by rw [Value.tokens], ?_⟩
      rw [valueText, hworkers]
      decide +kernel
    | some n => exact hfits (by rw [valueText, hworkers]; rfl) hworkers
  | _ => exact hfits rfl rfl

/-- The member that a field is written as. -/
theorem exists_member (s : Settings) (f : Field) :
    ∃ m : Member, m.field? = some f ∧ f.Fits m.value ∧ wordOf? m.value = s.wordIn f ∧
      (Token.string m.entry.1 :: .colon :: m.value.tokens).flatMap Token.bytes = bytesOf (s.memberText f) := by
  obtain ⟨v, t, hfits, hword, htokens, hbytes⟩ := exists_value s f
  refine ⟨⟨unescaped f.name.toList (name_unescaped f), v⟩, ?_, hfits, hword, ?_⟩
  · rw [Member.field?, Member.name, textOf_unescaped, String.ofList_toList]
    cases f <;> decide +kernel
  · rw [htokens, Member.entry, memberText]
    have hkey :
        ((unescaped f.name.toList (name_unescaped f)).map Piece.letter).flatMap Piece.bytes = bytesOf f.name := by
      rw [List.flatMap_map, bytesOf_eq_flatMap]
      exact bytes_unescaped _
    have hquote : bytesOf "\x22" = [quote] := by decide +kernel
    have hcolon : bytesOf "\x22:" = [quote, colon] := by decide +kernel
    rw [bytesOf_append, bytesOf_append, bytesOf_append, hquote, hcolon, ← hbytes]
    simp only [List.flatMap_cons, List.flatMap_nil, Token.bytes, hkey, List.append_nil, List.append_assoc,
      List.cons_append, List.nil_append]

/-- Settings are written as an object of a member for each field. -/
theorem toJson_written (s : Settings) :
    ∃ members, Written (objectTokens members) (bytesOf s.toJson) ∧ WellFormed members ∧ settingsOf members = s := by
  obtain ⟨lost, hlost, hlostFits, hlostWord, hlostBytes⟩ := s.exists_member .lostTtlSecs
  obtain ⟨active, hactive, hactiveFits, hactiveWord, hactiveBytes⟩ := s.exists_member .activeTtlSecs
  obtain ⟨interval, hinterval, hintervalFits, hintervalWord, hintervalBytes⟩ := s.exists_member .sweepIntervalMs
  obtain ⟨workers, hworkers, hworkersFits, hworkersWord, hworkersBytes⟩ := s.exists_member .numWorkers
  refine ⟨[lost, active, interval, workers], ?_, ⟨?_, ?_⟩, ?_⟩
  · have hbytes : bytesOf s.toJson = (objectTokens [lost, active, interval, workers]).flatMap Token.bytes := by
      have htext : s.toJson = "\x7b" ++ (s.memberText .lostTtlSecs ++ "," ++ s.memberText .activeTtlSecs ++ "," ++
          s.memberText .sweepIntervalMs ++ "," ++ s.memberText .numWorkers) ++ "\x7d" := rfl
      have hopen : bytesOf "\x7b" = [openObject] := by decide +kernel
      have hcomma : bytesOf "," = [comma] := by decide +kernel
      have hclose : bytesOf "\x7d" = [closeObject] := by decide +kernel
      simp only [htext, bytesOf_append, hopen, hcomma, hclose, ← hlostBytes, ← hactiveBytes, ← hintervalBytes,
        ← hworkersBytes]
      simp only [objectTokens, List.map_cons, List.map_nil, Value.tokens, furtherMembers, Member.entry,
        List.flatMap_cons, List.flatMap_append, List.flatMap_nil, Token.bytes, List.append_assoc, List.cons_append,
        List.nil_append, List.append_nil]
    have hcompact := written_spaced [] (objectTokens [lost, active, interval, workers])
    simp only [List.map_nil, List.nil_append, List.append_nil] at hcompact
    rw [hbytes]
    exact hcompact
  · simp [fieldsOf, hlost, hactive, hinterval, hworkers]
  · simp [hlost, hactive, hinterval, hworkers, hlostFits, hactiveFits, hintervalFits, hworkersFits]
  · simp [settingsOf, wordFor?, memberFor?, hlost, hactive, hinterval, hworkers, hlostWord, hactiveWord,
      hintervalWord, hworkersWord, wordIn]

/-! ### Reading what was written -/

theorem parse_toJson_eq (s : Settings) :
    parse s.toJson =
      if s.sweepIntervalMs = 0 then .error (.defective .noInterval)
      else if s.numWorkers = some 0 then .error (.defective .noWorkers)
      else .ok s := by
  obtain ⟨members, hwritten, hmembers, hsettings⟩ := s.toJson_written
  rw [parse_of_wellFormed hwritten hmembers, hsettings, defect?]
  by_cases hinterval : s.sweepIntervalMs = 0
  · simp only [if_pos hinterval]
  · by_cases hworkers : s.numWorkers = some 0
    · simp only [if_neg hinterval, if_pos hworkers]
    · simp only [if_neg hinterval, if_neg hworkers]

theorem defect?_of_parse {text : String} {s : Settings} (h : parse text = .ok s) : s.defect? = none := by
  rw [parse] at h
  split at h
  · cases h
  · split at h
    · cases h
    · rename_i hdefect
      cases h
      exact hdefect

theorem toNat_pos {n : UInt64} (h : n ≠ 0) : 1 ≤ n.toNat :=
  Nat.one_le_iff_ne_zero.2 fun hn => h (UInt64.toNat_inj.1 hn)

theorem nanos_sweepInterval {s : Settings} (h : s.sweepIntervalMs ≠ 0) :
    s.sweepInterval.nanos = s.sweepIntervalMs.toNat * 10 ^ 6 := by
  rw [sweepInterval, Nat.max_eq_left (toNat_pos h)]
  rfl

theorem workers_of_some {s : Settings} {n : UInt64} (h : s.numWorkers = some n) (hn : n ≠ 0) (processors : Nat) :
    s.workers processors = n.toNat := by
  rw [workers, chosenWorkers?, h, Option.map_some, Option.getD_some, Nat.max_eq_left (toNat_pos hn)]

/-- Settings that are written and read again are the same, or refused for their first defect. Settings that were read
have no defect, and what follows from them is exact. -/
theorem parse_toJson :
    (∀ s : Settings, parse s.toJson =
      if s.sweepIntervalMs = 0 then .error (.defective .noInterval)
      else if s.numWorkers = some 0 then .error (.defective .noWorkers)
      else .ok s) ∧
    (ParseError.defective .noInterval).message = "invalid track settings: sweep_interval_ms must be >= 1" ∧
    (ParseError.defective .noWorkers).message = "invalid track settings: num_workers must be >= 1" ∧
    ∀ (text : String) (s : Settings), parse text = .ok s →
      s.sweepIntervalMs ≠ 0 ∧ s.numWorkers ≠ some 0 ∧ parse s.toJson = .ok s ∧
      s.policy.lostTtl.nanos = s.lostTtlSecs.toNat * 10 ^ 9 ∧
      s.policy.activeTtl.nanos = s.activeTtlSecs.toNat * 10 ^ 9 ∧
      s.sweepInterval.nanos = s.sweepIntervalMs.toNat * 10 ^ 6 ∧
      ∀ n, s.numWorkers = some n → ∀ processors, s.workers processors = n.toNat := by
  refine ⟨parse_toJson_eq, by decide +kernel, by decide +kernel, fun text s h => ?_⟩
  obtain ⟨hinterval, hworkers⟩ := (defect?_eq_none_iff s).1 (defect?_of_parse h)
  refine ⟨hinterval, hworkers, ?_, rfl, rfl, nanos_sweepInterval hinterval, fun n hn => ?_⟩
  · rw [parse_toJson_eq, if_neg hinterval, if_neg hworkers]
  · exact workers_of_some hn fun hzero => hworkers (hn.trans (congrArg some hzero))

/-- Words beyond any exact floating-point number. -/
def largest : Settings := ⟨18446744073709551615, 18446744073709551614, 9007199254740993, some 18446744073709551615⟩

theorem parse_largest :
    parse largest.toJson = .ok largest ∧ largest.sweepInterval.nanos = 9007199254740993 * 10 ^ 6 ∧
      largest.workers 8 = 18446744073709551615 := by
  have hread : parse largest.toJson = .ok largest := parse_toJson.1 largest
  obtain ⟨-, -, -, -, -, hinterval, hworkers⟩ := parse_toJson.2.2.2 largest.toJson largest hread
  exact ⟨hread, hinterval, hworkers _ rfl 8⟩

end LiveTracks.Settings
