import LiveTracks.Proofs.Shift

/-!
# Reports that are refused

A report is refused exactly if its text and its number name no track. The store refuses it, before anything is
written and whatever layers there are, so all that is left of it is one entry in the log. Once the store has taken a
report no layer refuses it any more, whatever is done between the accesses of the report (`refused_iff_unnamed`).
-/

namespace LiveTracks

variable {P : Type}

theorem Key.exists_error_iff {camera : String} {number : Int64} :
    (∃ e, Key.ofRaw camera number = .error e) ↔ camera = "" ∨ number < 0 := by
  simp only [ofRaw_eq_error_iff]
  constructor
  · rintro ⟨e, ⟨hc, -⟩ | ⟨-, hn, -⟩⟩
    · exact .inl hc
    · exact .inr hn
  · intro h
    by_cases hc : camera = ""
    · exact ⟨_, .inl ⟨hc, rfl⟩⟩
    · exact ⟨_, .inr ⟨hc, h.resolve_left hc, rfl⟩⟩

/-- An empty camera is the fault that is named, whatever the number is. -/
theorem Key.fault_of_error {camera : String} {number : Int64} {e : KeyError}
    (h : Key.ofRaw camera number = .error e) :
    e.field = (if camera = "" then "camera_id" else "track_id") ∧
      e.reason = (if camera = "" then "must not be empty"
        else "must be non-negative, got " ++ toString number.toInt) := by
  rcases ofRaw_eq_error_iff.1 h with ⟨hc, rfl⟩ | ⟨hc, -, rfl⟩
  · rw [if_pos hc, if_pos hc]
    exact ⟨rfl, rfl⟩
  · rw [if_neg hc, if_neg hc]
    exact ⟨rfl, rfl⟩

namespace Stack

theorem registerAt_snd_eq_error_iff {s : Stack P} {k : Nat} {r : Report P} {e : KeyError} :
    (s.registerAt k r).2 = .error e ↔ Key.ofRaw r.camera r.number = .error e := by
  cases h : Key.ofRaw r.camera r.number with
  | error e' => rw [registerAt_of_error h, Except.error.injEq, Except.error.injEq]
  | ok key =>
    rw [registerAt_of_ok h]
    exact ⟨nofun, nofun⟩

end Stack

/-! ### While other calls are under way -/

namespace Stage

/-- Not refused unless the report names no track. -/
def Fair (r : Report P) (c : Stage P) : Prop :=
  c.Reports r ∧ ∀ e, c = .done (.refused e) → Key.ofRaw r.camera r.number = .error e

theorem above_ne_refused {i k : Nat} {r : Report P} {e : KeyError} : above i k r ≠ .done (.refused e) := by
  unfold above
  split <;> exact nofun

theorem Fair.advance {r : Report P} {c : Stage P} (h : c.Fair r) (s : Stack P) : (c.advance s).2.Fair r := by
  obtain ⟨hr, hc⟩ := h
  refine ⟨hr.advance s, fun e he => ?_⟩
  cases c with
  | writeEntry k r' =>
    cases hr
    simp only [Stage.advance] at he
    split at he
    · exact absurd he above_ne_refused
    · rename_i s' e' hs
      cases he
      exact Stack.registerAt_snd_eq_error_iff.1 (congrArg Prod.snd hs)
  | writeRow i k r' now firstSeen =>
    cases hr
    simp only [Stage.advance] at he
    split at he
    · exact absurd he above_ne_refused
    · split at he
      · exact absurd he above_ne_refused
      · rename_i hrow
        cases he
        exact Store.register_eq_error_iff.1 hrow
  | readClock | readRow => cases he
  | done a => exact hc e he
  | _ => cases hr

end Stage

theorem Traffic.fair_run {t : Traffic P} {i : Nat} {r : Report P} {c : Stage P} (hi : t.calls[i]? = some c)
    (hc : c.Fair r) (acts : List (Act P)) : ∃ c', (t.run acts).calls[i]? = some c' ∧ c'.Fair r := by
  induction acts generalizing t c with
  | nil => exact ⟨c, hi, hc⟩
  | cons a acts ih =>
    cases a with
    | setClock now => exact ih (t := t.step (.setClock now)) hi hc
    | start k q => exact ih (t := t.step (.start k q)) (getElem?_concat_of_some hi) hc
    | go i' =>
      simp only [run, List.foldl_cons, step]
      cases hi' : t.calls[i']? with
      | none => exact ih hi hc
      | some c' =>
        by_cases h : i' = i
        · subst h
          cases hi.symm.trans hi'
          exact ih (List.getElem?_set_self (List.getElem?_eq_some_iff.1 hi).1) (hc.advance t.stack)
        · exact ih ((List.getElem?_set_ne h).trans hi) hc

/-! ### The law of refusal -/

namespace Stack

/-- A report on any number of any stack is refused exactly if its camera is empty or its number below zero, and
the fault that is named is the camera's if both are at fault. A refusal changes nothing but the log, by one warning.
A report that the store accepts is noted by all layers up to the number, and also while other calls are under way no
report is refused that names a track. -/
theorem refused_iff_unnamed (s : Stack P) (k : Nat) (r : Report P) :
    ((∃ e, (s.registerAt k r).2 = .error e) ↔ r.camera = "" ∨ r.number < 0) ∧
    (∀ e, (s.registerAt k r).2 = .error e →
      (e.field = (if r.camera = "" then "camera_id" else "track_id") ∧
        e.reason = (if r.camera = "" then "must not be empty"
          else "must be non-negative, got " ++ toString r.number.toInt)) ∧
      (s.registerAt k r).1 = { s with log := s.log ++ [.rejected r.camera e] } ∧
      (Event.rejected r.camera e).level = .warn) ∧
    (∀ base, s.base.register r.camera r.number r.payload = .ok base →
      ∃ key, Key.ofRaw r.camera r.number = .ok key ∧
        s.registerAt k r =
          ({ s with
              base
              layers := changeBelow k (·.noted key s.clock) s.layers
              log := s.log ++ creation s.base r.camera }, .ok ())) ∧
    ∀ (t : Traffic P) (i : Nat) (acts : List (Act P)) (e : KeyError),
      t.calls[i]? = some (.ofRequest k (.register r)) →
      (t.run acts).calls[i]? = some (.done (.refused e)) → r.camera = "" ∨ r.number < 0 := by
  refine ⟨?_, fun e he => ?_, fun base hbase => ?_, fun t i acts e hi hrefused => ?_⟩
  · rw [← Key.exists_error_iff]
    exact exists_congr fun e => registerAt_snd_eq_error_iff
  · have hkey := registerAt_snd_eq_error_iff.1 he
    rw [registerAt_of_error hkey]
    exact ⟨Key.fault_of_error hkey, rfl, rfl⟩
  · obtain ⟨key, hkey, rfl⟩ := Store.register_eq_ok_iff.1 hbase
    exact ⟨key, hkey, registerAt_of_ok hkey s k⟩
  · have hfair : (Stage.ofRequest k (.register r)).Fair r := ⟨rfl, fun e he => nomatch he⟩
    obtain ⟨c, hc, -, hfault⟩ := Traffic.fair_run hi hfair acts
    cases hrefused.symm.trans hc
    exact Key.exists_error_iff.1 ⟨e, hfault e rfl⟩

/-- A report is armed, and the upper layer has a row without a track. -/
def guarded : Stack String :=
  (ofPolicies [⟨.ofSeconds 3, .ofSeconds 30⟩, ⟨.ofSeconds 1, .ofSeconds 2⟩]).run
    [.plain 2 (.register ⟨"north", 1, "a"⟩), .plain 1 (.remove "north" 1), .plain 2 (.arm ⟨"north", 2, "b"⟩)]

theorem refused_iff_unnamed_guarded :
    (guarded.registerAt 2 ⟨"", -1, "c"⟩).2 = .error .emptyCamera ∧
      (guarded.registerAt 2 ⟨"", -1, "c"⟩).1 =
        { guarded with log := guarded.log ++ [.rejected "" .emptyCamera] } ∧
      (∃ base, guarded.base.register "north" 1 "d" = .ok base ∧
        (guarded.registerAt 2 ⟨"north", 1, "d"⟩).1.base = base) := by
  have he : (guarded.registerAt 2 ⟨"", -1, "c"⟩).2 = .error .emptyCamera := by decide +kernel
  obtain ⟨-, hrefused, -⟩ := refused_iff_unnamed guarded 2 ⟨"", -1, "c"⟩
  obtain ⟨-, -, haccepted, -⟩ := refused_iff_unnamed guarded 2 ⟨"north", 1, "d"⟩
  obtain ⟨key, -, hd⟩ := haccepted _ rfl
  exact ⟨he, (hrefused _ he).2.1, _, rfl, congrArg (·.1.base) hd⟩

end Stack

end LiveTracks
