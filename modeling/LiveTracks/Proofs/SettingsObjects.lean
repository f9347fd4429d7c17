import LiveTracks.Proofs.JsonValues
import LiveTracks.Proofs.SettingsFields

/-!
# Settings that are written as an object

Whatever blanks, escapes, members and orders an object is written with, the reader of settings makes of it what its
members say (`parse_object`).
-/

namespace LiveTracks.Settings

open Json

theorem toOption_andThen {α β : Type} (x : Reading α) (f : α → Bytes → Reading β) :
    (x.andThen f).toOption = x.toOption.bind fun p => (f p.1 p.2).toOption := by
  cases x <;> rfl

variable {ts : List Token} {s : Bytes} {v : Value}

/-! ### Values of fields -/

theorem toWord_number (wanted : Wanted) (x : Literal) {r : Bytes} (hr : Ends r) :
    ((readNumber x.negative (x.magnitude ++ r)).andThen (toWord wanted)).toOption = x.word?.map (·, r) := by
  rw [readNumber, x.readNumeral_magnitude _ hr, Reading.andThen_ok]
  cases hword : x.word? with
  | some n =>
    rw [(x.number_eq_natural_iff r n).2 hword]
    rfl
  | none =>
    rcases hnumber : x.numeral.number x.negative r with e | (n | n | y)
    · rfl
    · rw [(x.number_eq_natural_iff r n).1 hnumber] at hword
      cases hword
    · rfl
    · rfl

theorem readWord64_number (wanted : Wanted) (x : Literal) {r : Bytes} (hs : skipBlanks s = x.bytes ++ r)
    (hr : Ends r) : (readWord64 wanted s).toOption = x.word?.map (·, r) := by
  rw [← toWord_number wanted x hr]
  cases hnegative : x.negative with
  | true =>
    rw [Literal.bytes, hnegative, if_pos rfl, List.cons_append] at hs
    simp only [readWord64, hs, if_true]
  | false =>
    have hminus : digitByte x.whole.first ≠ minus := (digitByte_ne_sign _).1
    rw [Literal.bytes, hnegative, if_neg Bool.false_ne_true] at hs
    rw [readWord64, hs, Literal.magnitude, Digits.bytes_eq]
    simp only [List.cons_append, if_neg hminus, isDigit_digitByte, if_true]

theorem readWord64_error (wanted : Wanted) {b : UInt8} {r : Bytes} (hs : skipBlanks s = b :: r) (hminus : b ≠ minus)
    (hdigit : isDigit b = false) : (readWord64 wanted s).toOption = none := by
  simp only [readWord64, hs, if_neg hminus, hdigit, Bool.false_eq_true, if_false]
  rfl

/-- A value that is no number begins with no byte of a number. -/
theorem lead_of_not_number (h : ∀ x, v ≠ .number x) : v.lead ≠ minus ∧ isDigit v.lead = false := by
  cases v with
  | null => decide
  | boolean b => cases b <;> decide
  | number x => exact absurd rfl (h x)
  | string ps => exact (by decide : quote ≠ minus ∧ isDigit quote = false)
  | list vs => exact (by decide : openList ≠ minus ∧ isDigit openList = false)
  | object ms => exact (by decide : openObject ≠ minus ∧ isDigit openObject = false)

theorem readWord64_value (wanted : Wanted) (h : Written (v.tokens ++ ts) s) (hts : Behind ts) :
    ∃ r, Written ts r ∧ (readWord64 wanted s).toOption = (wordOf? v).map (·, r) := by
  by_cases hnumber : ∃ x, v = .number x
  · obtain ⟨x, rfl⟩ := hnumber
    rw [Value.tokens] at h
    obtain ⟨r, hs, h⟩ := h.skipBlanks_eq
    exact ⟨r, h, readWord64_number wanted x hs (h.ends hts)⟩
  · have hne : ∀ x, v ≠ .number x := fun x hx => hnumber ⟨x, hx⟩
    obtain ⟨r, hr⟩ := h.drop
    obtain ⟨r', hs⟩ := h.skipBlanks_value
    obtain ⟨hminus, hdigit⟩ := lead_of_not_number hne
    have hword : wordOf? v = none := by
      cases v with
      | number x => exact absurd rfl (hne x)
      | _ => rfl
    exact ⟨r, hr, by rw [readWord64_error wanted hs hminus hdigit, hword, Option.map_none]⟩

theorem lead_of_ne_null (h : v ≠ .null) : v.lead ≠ lettern := by
  cases v with
  | null => exact absurd rfl h
  | boolean b => cases b <;> decide
  | number x => exact x.lead_of (· ≠ lettern) (by decide) (by decide)
  | string ps => exact (by decide : quote ≠ lettern)
  | list vs => exact (by decide : openList ≠ lettern)
  | object ms => exact (by decide : openObject ≠ lettern)

theorem taken?_of_ne_null {f : Field} (h : v ≠ .null) : f.taken? v = (wordOf? v).map some := by
  cases f <;> cases v <;> first | rfl | exact absurd rfl h

theorem readWorkers_value (h : Written (v.tokens ++ ts) s) (hts : Behind ts) :
    ∃ r, Written ts r ∧ (readWorkers s).toOption = (Field.taken? .numWorkers v).map (·, r) := by
  by_cases hnull : v = .null
  · rw [hnull, Value.tokens] at h
    obtain ⟨r, hs, h⟩ := h.skipBlanks_eq
    have hword : readWord ull (ull ++ r) = .ok ((), r) := readWord_self ull r
    rw [Token.bytes, List.cons_append] at hs
    refine ⟨r, h, ?_⟩
    simp only [readWorkers, hs, if_true, hword, Reading.andThen_ok, hnull]
    rfl
  · obtain ⟨r', hs⟩ := h.skipBlanks_value
    obtain ⟨r, hr, hread⟩ := readWord64_value .size h.trimmed hts
    rw [hs] at hread
    refine ⟨r, hr, ?_⟩
    simp only [readWorkers, hs, if_neg (lead_of_ne_null hnull), toOption_andThen, hread, taken?_of_ne_null hnull]
    cases wordOf? v <;> rfl

theorem readField_value (d : Draft) (f : Field) (h : Written (v.tokens ++ ts) s) (hts : Behind ts) :
    ∃ r, Written ts r ∧ (d.readField f s).toOption = (d.give? f v).map (·, r) := by
  cases f with
  | numWorkers =>
    obtain ⟨r, hr, hread⟩ := readWorkers_value h hts
    refine ⟨r, hr, ?_⟩
    simp only [Draft.readField, toOption_andThen, hread, Draft.give?, Option.map_map, Option.bind_map]
    cases Field.taken? .numWorkers v <;> rfl
  | _ =>
    obtain ⟨r, hr, hread⟩ := readWord64_value .word h hts
    refine ⟨r, hr, ?_⟩
    simp only [Draft.readField, toOption_andThen, hread, Draft.give?]
    cases wordOf? v <;> rfl

/-! ### Members -/

/-- A member as a part of an object. -/
def Member.entry (m : Member) : List Piece × Value := (m.key.map .letter, m.value)

theorem fieldOf?_name (m : Member) : fieldOf? (bytesOf m.name) = m.field? := by
  rw [fieldOf?, Member.field?]
  congr 1
  funext f
  rw [Bool.eq_iff_iff, beq_iff_eq, beq_iff_eq]
  exact ⟨fun h => bytesOf_inj.1 h, fun h => by rw [h]⟩

theorem readColon_written (h : Written (.colon :: ts) s) : ∃ r, Written ts r ∧ readColon s = .ok ((), r) := by
  obtain ⟨r, hs, h⟩ := h.skipBlanks_eq
  rw [Token.bytes, List.singleton_append] at hs
  exact ⟨r, h, by simp only [readColon, hs, if_true]⟩

/-- A member is read from behind the quote in front of its key. -/
theorem readMember_written (d : Draft) (m : Member) (hts : Behind ts)
    (h : Written (.string m.entry.1 :: .colon :: (m.value.tokens ++ ts)) s) :
    ∃ r r', skipBlanks s = quote :: r ∧ Written ts r' ∧ (readMember d r).toOption = (d.put? m).map (·, r') := by
  obtain ⟨r1, hs, h1⟩ := h.skipBlanks_eq
  obtain ⟨r2, h2, hcolon⟩ := readColon_written h1
  have hkey : readString (m.entry.1.flatMap Piece.bytes ++ ([quote] ++ r1)) = .ok (bytesOf m.name, r1) := by
    rw [Member.entry, List.flatMap_map]
    exact readString_letters m.key r1
  rw [Token.bytes, List.cons_append, List.append_assoc] at hs
  cases hfield : m.field? with
  | none =>
    obtain ⟨r3, h3, hskip⟩ := skipValue_written h2 hts
    refine ⟨_, r3, hs, h3, ?_⟩
    simp only [readMember, hkey, Reading.andThen_ok, fieldOf?_name, hfield, hcolon, hskip, Draft.put?_of_none hfield]
    rfl
  | some f =>
    obtain ⟨r3, h3, hread⟩ := readField_value d f h2 hts
    refine ⟨_, r3, hs, h3, ?_⟩
    simp only [readMember, hkey, Reading.andThen_ok, fieldOf?_name, hfield, hcolon, Draft.put?]
    split
    · rfl
    · exact hread

theorem readMembers_of_none {first : Bool} {d : Draft} {r : Bytes} (h : readKeyStart first s = .ok (none, r)) :
    readMembers first d s = .ok (d, r) := by
  rw [readMembers]
  split <;> simp_all

theorem readMembers_of_some {first : Bool} {d : Draft} {r : Bytes} (h : readKeyStart first s = .ok (some (), r)) :
    readMembers first d s = (readMember d r).andThen (readMembers false) := by
  rw [readMembers]
  split
  · simp_all
  · simp_all
  · rename_i s' hkey
    obtain rfl : r = s' := by simp_all
    split
    · rename_i e hmember
      rw [hmember]
      rfl
    · rename_i d' s'' hmember
      simp only [hmember, Reading.andThen_ok]

theorem readKeyStart_close (first : Bool) (h : Written (.closeObject :: ts) s) :
    ∃ r, Written ts r ∧ readKeyStart first s = .ok (none, r) := by
  obtain ⟨r, hs, h⟩ := h.skipBlanks_eq
  rw [Token.bytes, List.singleton_append] at hs
  exact ⟨r, h, by simp only [readKeyStart, hs, if_true]⟩

theorem readKeyStart_first {r : Bytes} (h : skipBlanks s = quote :: r) : readKeyStart true s = .ok (some (), r) := by
  have hne : quote ≠ closeObject := by decide
  simp only [readKeyStart, h, if_neg hne, if_true]

theorem readKeyStart_further {r r' : Bytes} (hcomma : skipBlanks s = comma :: r) (hquote : skipBlanks r = quote :: r') :
    readKeyStart false s = .ok (some (), r') := by
  have hne : comma ≠ closeObject := by decide
  simp only [readKeyStart, hcomma, hquote, if_neg hne, if_true, Bool.false_eq_true, if_false]

/-- What follows a member is read as the draft taken up further. -/
theorem readMembers_further (members : List Member) (d : Draft) {ts : List Token} {s : Bytes}
    (h : Written (furtherMembers (members.map Member.entry) ++ ts) s) :
    ∃ r, Written ts r ∧ (readMembers false d s).toOption = (members.foldlM Draft.put? d).map (·, r) := by
  induction members generalizing d s with
  | nil =>
    rw [List.map_nil, furtherMembers] at h
    obtain ⟨r, h, hkey⟩ := readKeyStart_close false h
    refine ⟨r, h, ?_⟩
    rw [readMembers_of_none hkey]
    rfl
  | cons m members ih =>
    simp only [List.map_cons, Member.entry, furtherMembers, List.cons_append, List.append_assoc] at h
    obtain ⟨r1, hcomma, h1⟩ := h.skipBlanks_eq
    obtain ⟨r2, r3, hquote, h3, hread⟩ := readMember_written d m (behind_furtherMembers _ ts) h1
    rw [readMembers_of_some (readKeyStart_further hcomma hquote), toOption_andThen, hread, List.foldlM_cons]
    cases d.put? m with
    | none =>
      obtain ⟨r, hr⟩ := h3.drop
      exact ⟨r, hr, rfl⟩
    | some d' => exact ih d' h3

/-- The tokens of an object with these members. -/
def objectTokens (members : List Member) : List Token := (Value.object (members.map Member.entry)).tokens

theorem readDraft_written {members : List Member} (h : Written (objectTokens members) s) :
    ∃ r, Written [] r ∧ (readDraft s).toOption = (members.foldlM Draft.put? {}).map (·, r) := by
  cases members with
  | nil =>
    rw [objectTokens, List.map_nil, Value.tokens] at h
    obtain ⟨r, hopen, h⟩ := h.skipBlanks_eq
    obtain ⟨r', h, hkey⟩ := readKeyStart_close true h
    rw [Token.bytes, List.singleton_append] at hopen
    refine ⟨r', h, ?_⟩
    simp only [readDraft, hopen, if_true, readMembers_of_none hkey]
    rfl
  | cons m members =>
    simp only [objectTokens, List.map_cons, Member.entry, Value.tokens] at h
    obtain ⟨r1, hopen, h1⟩ := h.skipBlanks_eq
    rw [← List.append_nil (furtherMembers _)] at h1
    obtain ⟨r2, r3, hquote, h3, hread⟩ := readMember_written {} m (behind_furtherMembers _ []) h1
    rw [Token.bytes, List.singleton_append] at hopen
    simp only [readDraft, hopen, if_true]
    rw [readMembers_of_some (readKeyStart_first hquote), toOption_andThen, hread, List.foldlM_cons]
    cases Draft.put? {} m with
    | none =>
      obtain ⟨r, hr⟩ := h3.drop
      exact ⟨r, hr, rfl⟩
    | some d' => exact readMembers_further members d' h3

/-- A text that is written as an object stands for what its members say. -/
theorem readText_written {members : List Member} (h : Written (objectTokens members) s) :
    (readText s).toOption = (members.foldlM Draft.put? {}).map Draft.complete := by
  obtain ⟨r, hr, hread⟩ := readDraft_written h
  cases hfold : members.foldlM Draft.put? {} with
  | none =>
    rw [hfold, Option.map_none] at hread
    cases hdraft : readDraft s with
    | error e => simp only [readText, hdraft]; rfl
    | ok p => rw [hdraft] at hread; cases hread
  | some d =>
    rw [hfold, Option.map_some] at hread
    cases hdraft : readDraft s with
    | error e => rw [hdraft] at hread; cases hread
    | ok p =>
      obtain rfl : p = (d, r) := by rw [hdraft] at hread; exact Option.some_inj.1 hread
      simp only [readText, hdraft, hr.skipBlanks_eq_nil]
      rfl

theorem readText_eq_ok_iff {members : List Member} (h : Written (objectTokens members) s) (settings : Settings) :
    readText s = .ok settings ↔ WellFormed members ∧ settings = settingsOf members := by
  rw [← complete_members_iff, ← readText_written h]
  cases readText s <;> simp [Except.toOption]

/-! ### What becomes of an object -/

/-- The defect that settings are refused for; there is none if they are not written as settings at all. -/
def ParseError.defect? : ParseError → Option Defect
  | malformed _ _ => none
  | defective d => some d

theorem defect?_eq_none_iff (s : Settings) : s.defect? = none ↔ s.sweepIntervalMs ≠ 0 ∧ s.numWorkers ≠ some 0 := by
  rw [defect?]
  split_ifs <;> simp_all

theorem defect?_eq_noInterval_iff (s : Settings) : s.defect? = some .noInterval ↔ s.sweepIntervalMs = 0 := by
  rw [defect?]
  split_ifs <;> simp_all

theorem defect?_eq_noWorkers_iff (s : Settings) :
    s.defect? = some .noWorkers ↔ s.sweepIntervalMs ≠ 0 ∧ s.numWorkers = some 0 := by
  rw [defect?]
  split_ifs <;> simp_all

section text

variable {members members' : List Member} {text text' : String}

theorem parse_of_not_wellFormed (h : Written (objectTokens members) (bytesOf text)) (hmembers : ¬ WellFormed members) :
    ∃ fault, parse text = .error (.malformed fault (bytesOf text)) := by
  cases hread : readText (bytesOf text) with
  | error fault => exact ⟨fault, by simp only [parse, hread]⟩
  | ok s => exact absurd ((readText_eq_ok_iff h s).1 hread).1 hmembers

theorem parse_of_wellFormed (h : Written (objectTokens members) (bytesOf text)) (hmembers : WellFormed members) :
    parse text = match (settingsOf members).defect? with
      | some d => .error (.defective d)
      | none => .ok (settingsOf members) := by
  have hread := (readText_eq_ok_iff h _).2 ⟨hmembers, rfl⟩
  cases hdefect : (settingsOf members).defect? <;> simp only [parse, hread, hdefect]

theorem parse_eq_ok_iff (h : Written (objectTokens members) (bytesOf text)) (s : Settings) :
    parse text = .ok s ↔
      WellFormed members ∧ s = settingsOf members ∧ s.sweepIntervalMs ≠ 0 ∧ s.numWorkers ≠ some 0 := by
  by_cases hmembers : WellFormed members
  · rw [parse_of_wellFormed h hmembers, ← defect?_eq_none_iff]
    cases hdefect : (settingsOf members).defect? with
    | none =>
      refine ⟨fun hs => ?_, fun hs => by rw [hs.2.1]⟩
      cases hs
      exact ⟨hmembers, rfl, hdefect⟩
    | some d =>
      refine ⟨nofun, fun ⟨_, hs, hnone⟩ => ?_⟩
      rw [hs, hdefect] at hnone
      cases hnone
  · obtain ⟨fault, hfault⟩ := parse_of_not_wellFormed h hmembers
    rw [hfault]
    exact ⟨nofun, fun hs => absurd hs.1 hmembers⟩

theorem parse_eq_malformed_iff (h : Written (objectTokens members) (bytesOf text)) :
    (∃ fault, parse text = .error (.malformed fault (bytesOf text))) ↔ ¬ WellFormed members := by
  refine ⟨fun ⟨fault, hfault⟩ hmembers => ?_, parse_of_not_wellFormed h⟩
  rw [parse_of_wellFormed h hmembers] at hfault
  cases hdefect : (settingsOf members).defect? <;> rw [hdefect] at hfault <;> cases hfault

theorem parse_eq_defective_iff (h : Written (objectTokens members) (bytesOf text)) (d : Defect) :
    parse text = .error (.defective d) ↔ WellFormed members ∧ (settingsOf members).defect? = some d := by
  by_cases hmembers : WellFormed members
  · rw [parse_of_wellFormed h hmembers]
    cases (settingsOf members).defect? <;> simp [hmembers]
  · obtain ⟨fault, hfault⟩ := parse_of_not_wellFormed h hmembers
    rw [hfault]
    exact ⟨nofun, fun hs => absurd hs.1 hmembers⟩

/-- Texts of the same fields are accepted together, and refused for the same reason. -/
theorem parse_congr (h : Written (objectTokens members) (bytesOf text))
    (h' : Written (objectTokens members') (bytesOf text')) (hknown : (known members').Perm (known members)) :
    (parse text').mapError ParseError.defect? = (parse text).mapError ParseError.defect? := by
  by_cases hmembers : WellFormed members
  · rw [parse_of_wellFormed h hmembers, parse_of_wellFormed h' ((wellFormed_congr hknown).2 hmembers),
      settingsOf_congr hknown hmembers]
  · obtain ⟨fault, hfault⟩ := parse_of_not_wellFormed h hmembers
    obtain ⟨fault', hfault'⟩ := parse_of_not_wellFormed h' (mt (wellFormed_congr hknown).1 hmembers)
    rw [hfault, hfault']
    rfl

end text

/-- A text of an object is accepted exactly if its members are well formed and their settings have no defect. -/
theorem parse_object (members : List Member) (text : String) (h : Written (objectTokens members) (bytesOf text)) :
    (∀ s, parse text = .ok s ↔
      WellFormed members ∧ s = settingsOf members ∧ s.sweepIntervalMs ≠ 0 ∧ s.numWorkers ≠ some 0) ∧
    ((∃ fault, parse text = .error (.malformed fault (bytesOf text))) ↔ ¬ WellFormed members) ∧
    (parse text = .error (.defective .noInterval) ↔ WellFormed members ∧ (settingsOf members).sweepIntervalMs = 0) ∧
    (parse text = .error (.defective .noWorkers) ↔
      WellFormed members ∧ (settingsOf members).sweepIntervalMs ≠ 0 ∧ (settingsOf members).numWorkers = some 0) ∧
    ∀ (members' : List Member) (text' : String), Written (objectTokens members') (bytesOf text') →
      (known members').Perm (known members) →
      (parse text').mapError ParseError.defect? = (parse text).mapError ParseError.defect? := by
  refine ⟨parse_eq_ok_iff h, parse_eq_malformed_iff h, ?_, ?_, fun members' text' h' => parse_congr h h'⟩
  · rw [parse_eq_defective_iff h, defect?_eq_noInterval_iff]
  · rw [parse_eq_defective_iff h, defect?_eq_noWorkers_iff]

/-- A member of another name with a value that has no text, the largest word under a name with an escape in it, and
workers that are left open. -/
def sampleMembers : List Member :=
  [⟨unescaped ['x'] (by decide),
    .list [.object [([], .string [.unit (.ofNat 0xD800)])],
      .number (.ofNats true 1 [] (by decide) (some (.ofNats 5 [])) (some ⟨false, some .plus, .ofNats 3 []⟩))]⟩,
  ⟨unescaped ['l', 'o', 's', 't'] (by decide) ++
    .code (.ofNat 0x5F) (by decide) (by decide) ::
      unescaped ['t', 't', 'l', '_', 's', 'e', 'c', 's'] (by decide),
    .number (.ofNats false 1 [8, 4, 4, 6, 7, 4, 4, 0, 7, 3, 7, 0, 9, 5, 5, 1, 6, 1, 5] (by decide) none none)⟩,
  ⟨unescaped ['n', 'u', 'm', '_', 'w', 'o', 'r', 'k', 'e', 'r', 's'] (by decide), .null⟩]

def sampleText : String :=
  " \x7b \x22x\x22 : [ \x7b \x22\x22 : \x22\\ud800\x22 \x7d , -1.5e+3 ] , " ++
  "\x22lost\\u005fttl_secs\x22 : 18446744073709551615 , \x22num_workers\x22 : null \x7d "

theorem sample_written : Written (objectTokens sampleMembers) (bytesOf sampleText) := by
  have hbytes : bytesOf sampleText =
      ((objectTokens sampleMembers).flatMap fun t => [Blank.space].map Blank.byte ++ t.bytes) ++
        [Blank.space].map Blank.byte := by
    decide +kernel
  rw [hbytes]
  exact written_spaced _ _

theorem parse_sample : parse sampleText = .ok ⟨18446744073709551615, 30, 1000, none⟩ := by
  have hmembers : WellFormed sampleMembers := by decide +kernel
  have hsettings : settingsOf sampleMembers = ⟨18446744073709551615, 30, 1000, none⟩ := by decide +kernel
  exact ((parse_object sampleMembers sampleText sample_written).1 _).2 ⟨hmembers, hsettings.symm, by decide, by decide⟩

end LiveTracks.Settings
