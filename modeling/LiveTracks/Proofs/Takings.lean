import Mathlib.Data.List.Induction
import LiveTracks.Proofs.Shift

/-!
# Who takes an entry

A sweep takes an entry before it drops it, so between the two accesses the entry is still there for other sweeps
to find. Whatever is stored afterwards comes from another report. So an entry is only taken again by another
sweeper, while the one that has taken it is still dropping it (`taken_twice`). If only one sweeper looks at its
camera, then this one is busy, and no two takings have the same source (`Accounted.once`). What a sweep gives back
is what it has taken (`Traced.found`).
-/

namespace LiveTracks

variable {P : Type}

namespace Stage

/-! ### What a sweep has found -/

/-- What a sweep has found so far, or has given back at its end. -/
def found : Stage P → List (Expired P)
  | .next round | .visit round _ _ | .fetch round _ _ _ _ _ => round.found
  | .drop _ _ rest | .log _ rest => rest.found
  | .done (.expired found) => found
  | _ => []

theorem found_above (i k : Nat) (r : Report P) : (above i k r).found = [] := by
  unfold above
  split <;> rfl

theorem found_ofRequest (k : Nat) (q : Request P) : (ofRequest k q).found = [] := by
  cases q <;> rfl

theorem found_advance (s : Stack P) (c : Stage P) :
    (c.advance s).2.found = c.found ++ (c.takes? s).toList := by
  cases c with
  | writeEntry k r =>
    simp only [advance]
    split
    · exact found_above ..
    · rfl
  | writeRow i k r now firstSeen =>
    simp only [advance]
    split
    · exact found_above ..
    · split
      · exact found_above ..
      · rfl
  | drop i t rest => cases i <;> exact (List.append_nil _).symm
  | log e rest => exact (List.append_nil _).symm
  | done a => exact (List.append_nil _).symm
  | readClock | readRow | begin => rfl
  | list k w mine now =>
    simp only [advance]
    split <;> rfl
  | next round =>
    simp only [advance]
    split <;> exact (List.append_nil _).symm
  | visit round c rows =>
    cases rows with
    | nil => exact (List.append_nil _).symm
    | cons row rows =>
      simp only [advance]
      split
      · exact (List.append_nil _).symm
      · split <;> exact (List.append_nil _).symm
  | fetch round c rows track number reason =>
    simp only [advance, takes?]
    cases s.get? c.text number with
    | none => exact (List.append_nil _).symm
    | some entry => rfl

theorem takes?_eq_some {s : Stack P} {c : Stage P} {x : Expired P} (h : c.takes? s = some x) :
    ∃ round camera rows track number, c = .fetch round camera rows track number x.reason ∧
      Key.ofRaw camera.text number = .ok x.entry.key ∧ s.base.find? x.entry.key = some x.entry := by
  cases c with
  | fetch round camera rows track number reason =>
    obtain ⟨entry, hentry, rfl⟩ := Option.map_eq_some_iff.1 h
    obtain ⟨hk, hf⟩ := Store.get?_eq_some_iff.1 hentry
    exact ⟨round, camera, rows, track, number, rfl, hk, hf⟩
  | _ => cases h

/-! ### What is stored, and what is about to go -/

/-- A removal that is still to drop the entry of the key. -/
def isDropping (key : Key) : Stage P → Bool
  | .drop _ t _ => t.covers key
  | _ => false

theorem stores?_eq_some {c : Stage P} {key : Key} (h : c.stores? = some key) :
    ∃ k r, c = .writeEntry k r ∧ Key.ofRaw r.camera r.number = .ok key := by
  cases c with
  | writeEntry k r =>
    simp only [stores?] at h
    cases hk : Key.ofRaw r.camera r.number with
    | error e =>
      rw [hk] at h
      cases h
    | ok key' =>
      rw [hk] at h
      cases h
      exact ⟨k, r, rfl, hk⟩
  | _ => cases h

theorem find?_advance_of_stores {s : Stack P} {k : Nat} {r : Report P} {key : Key}
    (hk : Key.ofRaw r.camera r.number = .ok key) :
    ((Stage.writeEntry k r).advance s).1.base.find? key = some (key.entry r.payload) := by
  simp only [advance, Stack.registerAt_of_ok hk, Stack.base_logs]
  rw [Stack.reported, Store.find?_put, Key.key_entry, if_pos rfl]

theorem find?_of_advance {s : Stack P} {c : Stage P} {key : Key} {e : Entry P} (hc : c.stores? ≠ some key)
    (h : (c.advance s).1.base.find? key = some e) : s.base.find? key = some e := by
  cases access s c with
  | entry k r key' hc' _ hk hb _ =>
    have hne : key ≠ key' := by
      rintro rfl
      refine hc ?_
      rw [hc', stores?, hk]
      rfl
    rw [hb, Store.find?_put, Key.key_entry, if_neg hne] at h
    exact h
  | row i k r now firstSeen key' _ _ _ hb _ => exact hb ▸ h
  | dropRows i t rest _ _ hb _ => exact hb ▸ h
  | dropEntries t rest _ _ hb _ =>
    rw [hb] at h
    split at h
    · cases h
    · exact h
  | quiet hb _ _ => exact hb ▸ h

theorem isDropping_advance {s : Stack P} {c : Stage P} {key : Key} {e : Entry P}
    (hc : c.isDropping key = true) (h : (c.advance s).1.base.find? key = some e) :
    (c.advance s).2.isDropping key = true := by
  cases c with
  | drop i t rest =>
    cases i with
    | succ i => exact hc
    | zero =>
      have hcov : t.covers key = true := hc
      simp only [advance, t.find?_dropEntries, hcov, if_true] at h
      cases h
  | _ => cases hc

theorem isDropping_of_takes? {s : Stack P} {c : Stage P} {x : Expired P} (h : c.takes? s = some x) :
    (c.advance s).2.isDropping x.entry.key = true := by
  obtain ⟨round, camera, rows, track, number, rfl, hk, hf⟩ := takes?_eq_some h
  have hget : s.get? camera.text number = some x.entry := Store.get?_eq_some_iff.2 ⟨hk, hf⟩
  simp only [advance, hget]
  exact Key.isNamed_iff.2 hk

end Stage

namespace Shift

variable {reach : Nat → CameraId → Bool} {i : Nat} {s : Shift P} {c : Stage P}

/-- Call `j` is made for a report of this entry. -/
def Reported (s : Shift P) (j : Nat) (e : Entry P) : Prop :=
  ∃ r, s.jobs[j]? = some (.report r) ∧ Key.ofRaw r.camera r.number = .ok e.key ∧ r.payload = e.payload

theorem lt_of_reported {j : Nat} {e : Entry P} (h : s.Reported j e) : j < s.jobs.length := by
  obtain ⟨r, hr, -⟩ := h
  exact (List.getElem?_eq_some_iff.1 hr).1

theorem isDone_of_idle {p : Nat} {w : Walk} (hidle : s.idle p = true) (hj : s.jobs[i]? = some (.sweep p w))
    (hc : s.traffic.calls[i]? = some c) : c.isDone = true := by
  have hzip : (s.jobs.zip s.traffic.calls)[i]? = some (.sweep p w, c) :=
    List.getElem?_zip_eq_some.2 ⟨hj, hc⟩
  have h := List.all_eq_true.1 hidle _ (List.mem_of_getElem? hzip)
  simpa [Job.isSweepOf] using h

/-- What holds between the history of a shift, its calls and what is stored. -/
structure Traced (reach : Nat → CameraId → Bool) (s : Shift P) : Prop where
  length : s.jobs.length = s.traffic.calls.length
  runs : ∀ {i : Nat} {job : Job P} {c : Stage P}, s.jobs[i]? = some job → s.traffic.calls[i]? = some c →
    job.Runs reach c
  /-- A sweeper makes one sweep at a time. -/
  ended : ∀ {i i' p : Nat} {w w' : Walk} {c : Stage P}, i < i' → s.jobs[i]? = some (.sweep p w) →
    s.jobs[i']? = some (.sweep p w') → s.traffic.calls[i]? = some c → c.isDone = true
  found : ∀ {i : Nat} {c : Stage P}, s.traffic.calls[i]? = some c →
    c.found = (s.takings.filter (·.sweep == i)).map (·.found)
  source_lt : ∀ {key : Key} {j : Nat}, s.source key = some j → j < s.jobs.length
  stored : ∀ {key : Key} {e : Entry P}, s.traffic.stack.base.find? key = some e →
    ∃ j, s.source key = some j ∧ s.Reported j e
  taken : ∀ {x : Taking P}, x ∈ s.takings → ∃ j, x.source = some j ∧ s.Reported j x.found.entry
  swept : ∀ {x : Taking P}, x ∈ s.takings → ∃ p w, s.jobs[x.sweep]? = some (.sweep p w)
  /-- A report that has stored nothing yet is the source of nothing. -/
  unused : ∀ {j k : Nat} {r : Report P}, s.traffic.calls[j]? = some (.writeEntry k r) →
    (∀ key, s.source key ≠ some j) ∧ ∀ x ∈ s.takings, x.source ≠ some j
  /-- An entry that has been taken is gone, unless the sweep that took it is still dropping it. -/
  gone : ∀ {x : Taking P} {e : Entry P}, x ∈ s.takings → s.traffic.stack.base.find? x.found.entry.key = some e →
    s.source x.found.entry.key = x.source →
      ∃ c, s.traffic.calls[x.sweep]? = some c ∧ c.isDropping x.found.entry.key = true

theorem traced_ofPolicies (policies : List Policy) : Traced reach (ofPolicies policies : Shift P) where
  length := rfl
  runs h := nomatch h
  ended _ h := nomatch h
  found h := nomatch h
  source_lt h := nomatch h
  stored {key e} h := by
    have hnone : (ofPolicies policies : Shift P).traffic.stack.base.find? key = none := Store.find?_empty key
    rw [hnone] at h
    cases h
  taken h := nomatch h
  swept h := nomatch h
  unused h := nomatch h
  gone h := nomatch h

namespace Traced

theorem setClock (h : Traced reach s) (now : Instant) :
    Traced reach (s.stepBy reach (.setClock now)) where
  length := h.length
  runs := h.runs
  ended := h.ended
  found := h.found
  source_lt := h.source_lt
  stored := h.stored
  taken := h.taken
  swept := h.swept
  unused := h.unused
  gone := h.gone

/-! ### New calls -/

theorem ask (h : Traced reach s) {job : Job P} (ha : s.admits job = true) :
    Traced reach (s.stepBy reach (.ask job)) := by
  have hcalls : ∀ {i : Nat} {c : Stage P},
      (s.traffic.calls ++ [.ofRequest s.traffic.stack.depth (job.requestBy reach)])[i]? = some c →
        s.traffic.calls[i]? = some c ∨
          i = s.jobs.length ∧ c = .ofRequest s.traffic.stack.depth (job.requestBy reach) := by
    intro i c hi
    rw [h.length]
    exact getElem?_concat_cases hi
  have hmore : ∀ {j : Nat} {e : Entry P}, s.Reported j e →
      ∃ r, (s.jobs ++ [job])[j]? = some (.report r) ∧ Key.ofRaw r.camera r.number = .ok e.key ∧
        r.payload = e.payload :=
    fun ⟨r, hr, he⟩ => ⟨r, getElem?_concat_of_some hr, he⟩
  rw [stepBy_ask ha]
  refine
    { length := ?length, runs := ?runs, ended := ?ended, found := ?found, source_lt := ?source_lt,
      stored := ?stored, taken := ?taken, swept := ?swept, unused := ?unused, gone := ?gone }
  case length => simp only [List.length_append, List.length_singleton, h.length]
  case runs =>
    intro i job' c hj hc
    rcases getElem?_concat_cases hj with hj | ⟨rfl, rfl⟩ <;> rcases hcalls hc with hc | ⟨hi, rfl⟩
    · exact h.runs hj hc
    · exact absurd (List.getElem?_eq_some_iff.1 hj).1 (Nat.not_lt.2 (Nat.le_of_eq hi.symm))
    · exact absurd (List.getElem?_eq_some_iff.1 hc).1 (Nat.not_lt.2 (Nat.le_of_eq h.length.symm))
    · exact Job.runs_ofRequest _ _
  case ended =>
    intro i i' p w w' c hlt hjob hj' hcall
    have hi' : i' ≤ s.jobs.length := by
      have hlen := (List.getElem?_eq_some_iff.1 hj').1
      rw [List.length_append, List.length_singleton] at hlen
      omega
    have hj : s.jobs[i]? = some (.sweep p w) := (getElem?_concat_cases hjob).resolve_right (by omega)
    have hc : s.traffic.calls[i]? = some c := (hcalls hcall).resolve_right (by omega)
    rcases getElem?_concat_cases hj' with hj' | ⟨-, rfl⟩
    · exact h.ended hlt hj hj' hc
    · exact isDone_of_idle ha hj hc
  case found =>
    intro i c hc
    rcases hcalls hc with hc | ⟨rfl, rfl⟩
    · exact h.found hc
    · have hnone : s.takings.filter (·.sweep == s.jobs.length) = [] := by
        refine List.filter_eq_nil_iff.2 fun x hx => ?_
        obtain ⟨p, w, hp⟩ := h.swept hx
        have hearlier := (List.getElem?_eq_some_iff.1 hp).1
        rw [beq_iff_eq]
        omega
      rw [Stage.found_ofRequest, hnone, List.map_nil]
  case source_lt =>
    intro key j hj
    have hearlier := h.source_lt hj
    rw [List.length_append]
    omega
  case stored =>
    intro key e he
    obtain ⟨j, hj, hr⟩ := h.stored he
    exact ⟨j, hj, hmore hr⟩
  case taken =>
    intro x hx
    obtain ⟨j, hj, hr⟩ := h.taken hx
    exact ⟨j, hj, hmore hr⟩
  case swept =>
    intro x hx
    obtain ⟨p, w, hp⟩ := h.swept hx
    exact ⟨p, w, getElem?_concat_of_some hp⟩
  case unused =>
    intro j k r hc
    rcases hcalls hc with hc | ⟨rfl, -⟩
    · exact h.unused hc
    · refine ⟨fun key hkey => Nat.lt_irrefl _ (h.source_lt hkey), fun x hx hsource => ?_⟩
      obtain ⟨j, hj, hr⟩ := h.taken hx
      cases hj.symm.trans hsource
      exact Nat.lt_irrefl _ (lt_of_reported hr)
  case gone =>
    intro x e hx he hsource
    obtain ⟨c, hc, hd⟩ := h.gone hx he hsource
    exact ⟨c, getElem?_concat_of_some hc, hd⟩

/-! ### Accesses -/

/-- Entries are only taken by sweepers, and only of cameras that they sweep. -/
theorem sweeper_of_takes? (h : Traced reach s) (hi : s.traffic.calls[i]? = some c) {x : Expired P}
    (hx : c.takes? s.traffic.stack = some x) :
    ∃ p w, s.jobs[i]? = some (.sweep p w) ∧ reach p x.entry.key.camera = true := by
  obtain ⟨round, camera, rows, track, number, rfl, hk, -⟩ := Stage.takes?_eq_some hx
  have hlt : i < s.jobs.length := h.length ▸ (List.getElem?_eq_some_iff.1 hi).1
  have hruns := h.runs (List.getElem?_eq_getElem hlt) hi
  have hcamera : x.entry.key.camera = camera := CameraId.ext (Key.ofRaw_eq_ok_iff.1 hk).1.symm
  cases hj : s.jobs[i] with
  | sweep p w =>
    rw [hj] at hruns
    exact ⟨p, w, hj ▸ List.getElem?_eq_getElem hlt, hcamera ▸ hruns.1⟩
  | _ =>
    rw [hj] at hruns
    cases hruns

theorem mem_takings_go {x : Taking P} (hx : x ∈ s.takings ++
    ((c.takes? s.traffic.stack).map fun y => (⟨i, s.source y.entry.key, y⟩ : Taking P)).toList) :
    x ∈ s.takings ∨ ∃ y, c.takes? s.traffic.stack = some y ∧ x = ⟨i, s.source y.entry.key, y⟩ := by
  rcases List.mem_append.1 hx with hx | hx
  · exact .inl hx
  · obtain ⟨y, hy, rfl⟩ := Option.map_eq_some_iff.1 (Option.mem_toList.1 hx)
    exact .inr ⟨y, hy, rfl⟩

theorem stored_go (h : Traced reach s) (hi : s.traffic.calls[i]? = some c) {key : Key} {e : Entry P}
    (he : (c.advance s.traffic.stack).1.base.find? key = some e) :
    ∃ j, (if c.stores? = some key then some i else s.source key) = some j ∧ s.Reported j e := by
  by_cases hs : c.stores? = some key
  · obtain ⟨k, r, rfl, hk⟩ := Stage.stores?_eq_some hs
    rw [Stage.find?_advance_of_stores hk] at he
    cases he
    refine ⟨i, if_pos hs, r, ?_, hk, rfl⟩
    have hlt : i < s.jobs.length := h.length ▸ (List.getElem?_eq_some_iff.1 hi).1
    have hjob := List.getElem?_eq_getElem hlt
    have hruns := h.runs hjob hi
    cases hr : s.jobs[i] with
    | report r' =>
      rw [hr] at hruns
      cases hruns
      exact hjob.trans (congrArg some hr)
    | _ =>
      rw [hr] at hruns
      cases hruns
  · rw [if_neg hs]
    exact h.stored (Stage.find?_of_advance hs he)

theorem gone_go (h : Traced reach s) (hi : s.traffic.calls[i]? = some c) {x : Taking P} {e : Entry P}
    (hx : x ∈ s.takings) (he : (c.advance s.traffic.stack).1.base.find? x.found.entry.key = some e)
    (hsource : (if c.stores? = some x.found.entry.key then some i else s.source x.found.entry.key) = x.source) :
    ∃ c', (s.traffic.calls.set i (c.advance s.traffic.stack).2)[x.sweep]? = some c' ∧
      c'.isDropping x.found.entry.key = true := by
  by_cases hs : c.stores? = some x.found.entry.key
  · -- a report that stores an entry now has not been the source of a taking
    obtain ⟨k, r, rfl, -⟩ := Stage.stores?_eq_some hs
    rw [if_pos hs] at hsource
    exact absurd hsource.symm ((h.unused hi).2 x hx)
  · rw [if_neg hs] at hsource
    obtain ⟨c', hc', hd⟩ := h.gone hx (Stage.find?_of_advance hs he) hsource
    by_cases hxi : x.sweep = i
    · rw [hxi, hi] at hc'
      cases hc'
      refine ⟨_, ?_, Stage.isDropping_advance hd he⟩
      rw [hxi, List.getElem?_set_self (List.getElem?_eq_some_iff.1 hi).1]
    · exact ⟨c', (List.getElem?_set_ne (Ne.symm hxi)).trans hc', hd⟩

theorem go (h : Traced reach s) (hi : s.traffic.calls[i]? = some c) :
    Traced reach (s.stepBy reach (.go i)) := by
  have hlt : i < s.jobs.length := h.length ▸ (List.getElem?_eq_some_iff.1 hi).1
  have hjob := List.getElem?_eq_getElem hlt
  rw [stepBy_go hi]
  refine
    { length := ?length, runs := ?runs, ended := ?ended, found := ?found, source_lt := ?source_lt,
      stored := ?stored, taken := ?taken, swept := ?swept, unused := ?unused, gone := ?gone }
  case length => rw [List.length_set, h.length]
  case runs =>
    intro i' job c' hj hc'
    rcases getElem?_set_cases hc' with ⟨rfl, rfl⟩ | ⟨-, hc'⟩
    · exact (h.runs hj hi).advance _
    · exact h.runs hj hc'
  case ended =>
    intro i' j p w w' c' hij hj hj' hc'
    rcases getElem?_set_cases hc' with ⟨rfl, rfl⟩ | ⟨-, hc'⟩
    · exact Stage.isDone_advance (h.ended hij hj hj' hi) _
    · exact h.ended hij hj hj' hc'
  case found =>
    intro i' c' hc'
    rw [List.filter_append, List.map_append]
    rcases getElem?_set_cases hc' with ⟨rfl, rfl⟩ | ⟨hne, hc'⟩
    · rw [Stage.found_advance, h.found hi]
      cases c.takes? s.traffic.stack with
      | none => rfl
      | some x => simp
    · rw [h.found hc']
      cases c.takes? s.traffic.stack with
      | none => simp
      | some x => simp [Ne.symm hne]
  case source_lt =>
    intro key j hj
    dsimp only at hj
    split at hj
    · cases hj
      exact hlt
    · exact h.source_lt hj
  case stored => exact h.stored_go hi
  case taken =>
    intro x hx
    rcases mem_takings_go hx with hx | ⟨y, hy, rfl⟩
    · exact h.taken hx
    · obtain ⟨_, _, _, _, _, -, -, hf⟩ := Stage.takes?_eq_some hy
      exact h.stored hf
  case swept =>
    intro x hx
    rcases mem_takings_go hx with hx | ⟨y, hy, rfl⟩
    · exact h.swept hx
    · obtain ⟨p, w, hp, -⟩ := h.sweeper_of_takes? hi hy
      exact ⟨p, w, hp⟩
  case unused =>
    intro j k r hc'
    rcases getElem?_set_cases hc' with ⟨rfl, he⟩ | ⟨hne, hc'⟩
    · exact absurd he.symm ((h.runs hjob hi).advance_ne _ k r)
    · obtain ⟨hsource, htaken⟩ := h.unused hc'
      refine ⟨fun key hkey => ?_, fun x hx => ?_⟩
      · dsimp only at hkey
        split at hkey
        · exact hne (Option.some.inj hkey).symm
        · exact hsource key hkey
      · rcases mem_takings_go hx with hx | ⟨y, -, rfl⟩
        · exact htaken x hx
        · exact hsource _
  case gone =>
    intro x e hmem he hsource
    rcases mem_takings_go hmem with hx | ⟨y, hy, rfl⟩
    · exact h.gone_go hi hx he hsource
    · refine ⟨_, ?_, Stage.isDropping_of_takes? hy⟩
      rw [List.getElem?_set_self (List.getElem?_eq_some_iff.1 hi).1]

/-! ### Taken twice -/

/-- Two sweepers that are at work on one entry: the first is still dropping it, and the second is to take it next. -/
structure Overlap (reach : Nat → CameraId → Bool) (s : Shift P) (first second : Nat) (x : Expired P) : Prop where
  dropping : ∃ c, s.traffic.calls[first]? = some c ∧ c.isDropping x.entry.key = true
  taking : ∃ c, s.traffic.calls[second]? = some c ∧ c.takes? s.traffic.stack = some x
  sweepers : ∃ p w p' w', s.jobs[first]? = some (.sweep p w) ∧ s.jobs[second]? = some (.sweep p' w') ∧ p ≠ p' ∧
    reach p x.entry.camera = true ∧ reach p' x.entry.camera = true

/-- What a sweep takes has not been taken before, unless by a sweep that is still dropping it. -/
theorem overlap_of_takes? (h : Traced reach s) (hi : s.traffic.calls[i]? = some c) {x : Expired P}
    (hx : c.takes? s.traffic.stack = some x) {y : Taking P} (hy : y ∈ s.takings)
    (hsource : y.source = s.source x.entry.key) :
    y.found.entry = x.entry ∧ Overlap reach s y.sweep i x := by
  obtain ⟨round, camera, rows, track, number, hc, -, hf⟩ := Stage.takes?_eq_some hx
  obtain ⟨j, hj, r, hr, hkey, hpayload⟩ := h.stored hf
  obtain ⟨j', hj', r', hr', hkey', hpayload'⟩ := h.taken hy
  -- both have been stored by the same report, so they are the same entry
  have hjj : j' = j := Option.some.inj (hj'.symm.trans (hsource.trans hj))
  rw [hjj] at hr'
  cases hr.symm.trans hr'
  have hsame : y.found.entry = x.entry := by
    have hk : y.found.entry.key = x.entry.key := Except.ok.inj (hkey'.symm.trans hkey)
    have hp : y.found.entry.payload = x.entry.payload := hpayload'.symm.trans hpayload
    calc
      y.found.entry = y.found.entry.key.entry y.found.entry.payload := rfl
      _ = x.entry.key.entry x.entry.payload := by rw [hk, hp]
  -- so the sweep that has taken it is still dropping it
  obtain ⟨c', hc', hd⟩ := h.gone hy (hsame ▸ hf) (hsame ▸ hsource.symm)
  rw [hsame] at hd
  obtain ⟨p', w', hp'⟩ := h.swept hy
  have hreach' : reach p' x.entry.key.camera = true := by
    have hruns := h.runs hp' hc'
    cases c' with
    | drop k t rest => exact hruns.1 _ hd
    | _ => cases hd
  -- and a sweeper that is busy dropping an entry does not take one
  obtain ⟨p, w, hp, hreach⟩ := h.sweeper_of_takes? hi hx
  have hne : p' ≠ p := by
    rintro rfl
    rcases Nat.lt_trichotomy y.sweep i with hlt | heq | hgt
    · have hdone := h.ended hlt hp' hp hc'
      cases c' with
      | drop => cases hdone
      | _ => cases hd
    · rw [heq, hi] at hc'
      cases hc'
      rw [hc] at hd
      cases hd
    · have hdone := h.ended hgt hp hp' hi
      rw [hc] at hdone
      cases hdone
  exact ⟨hsame, ⟨c', hc', hd⟩, ⟨c, hi, hx⟩, p', w', p, w, hp', hp, hne, hreach', hreach⟩

end Traced

theorem traced_runBy (policies : List Policy) (moves : List (Move P)) :
    Traced reach ((ofPolicies policies).runBy reach moves) :=
  runBy_induction (fun _ now h => h.setClock now) (fun _ _ h ha => h.ask ha) (fun _ _ _ h hi => h.go hi)
    (traced_ofPolicies policies) moves

/-- The moment of a taking: the move in which it was made, and the shift before it. -/
theorem taking_at (start : Shift P) (hstart : start.takings = []) (moves : List (Move P)) {b : Nat} {y : Taking P}
    (hy : (start.runBy reach moves).takings[b]? = some y) :
    ∃ before later, moves = before ++ .go y.sweep :: later ∧
      (start.runBy reach before).takings = (start.runBy reach moves).takings.take b ∧
      (∃ c, (start.runBy reach before).traffic.calls[y.sweep]? = some c ∧
        c.takes? (start.runBy reach before).traffic.stack = some y.found) ∧
      y.source = (start.runBy reach before).source y.found.entry.key := by
  induction moves using List.reverseRecOn with
  | nil =>
    rw [runBy, List.foldl_nil, hstart] at hy
    cases hy
  | append_singleton moves m ih =>
    rw [runBy_concat] at hy ⊢
    -- only an access can take something, and then it takes one more at the end
    have hold : ((start.runBy reach moves).stepBy reach m).takings = (start.runBy reach moves).takings →
        ∃ before later, moves ++ [m] = before ++ .go y.sweep :: later ∧
          (start.runBy reach before).takings = ((start.runBy reach moves).stepBy reach m).takings.take b ∧
          (∃ c, (start.runBy reach before).traffic.calls[y.sweep]? = some c ∧
            c.takes? (start.runBy reach before).traffic.stack = some y.found) ∧
          y.source = (start.runBy reach before).source y.found.entry.key := by
      intro hsame
      rw [hsame] at hy ⊢
      obtain ⟨before, later, rfl, hrest⟩ := ih hy
      exact ⟨before, later ++ [m], by rw [List.append_assoc, List.cons_append], hrest⟩
    cases m with
    | setClock now => exact hold rfl
    | ask job =>
      by_cases ha : (start.runBy reach moves).admits job = true
      · exact hold (by rw [stepBy_ask ha])
      · exact hold (by rw [stepBy_ask_of_not ha])
    | go i =>
      cases hi : (start.runBy reach moves).traffic.calls[i]? with
      | none => exact hold (by rw [stepBy_go_of_none hi])
      | some c =>
        cases hx : c.takes? (start.runBy reach moves).traffic.stack with
        | none =>
          refine hold ?_
          rw [stepBy_go hi, hx]
          exact List.append_nil _
        | some x =>
          rw [stepBy_go hi, hx] at hy ⊢
          rcases getElem?_concat_cases hy with hy | ⟨rfl, rfl⟩
          · have hlt := (List.getElem?_eq_some_iff.1 hy).1
            obtain ⟨before, later, rfl, htakings, hrest⟩ := ih hy
            refine ⟨before, later ++ [.go i], by rw [List.append_assoc, List.cons_append], ?_, hrest⟩
            exact htakings.trans (List.take_append_of_le_length (Nat.le_of_lt hlt)).symm
          · exact ⟨moves, [], rfl, (List.take_left).symm, ⟨c, hi, hx⟩, rfl⟩

/-- Two takings of one entry are of two sweeps that overlap. -/
theorem taken_twice (policies : List Policy) (moves : List (Move P)) {a b : Nat} {x y : Taking P} (hab : a < b)
    (hx : ((ofPolicies policies).runBy reach moves).takings[a]? = some x)
    (hy : ((ofPolicies policies).runBy reach moves).takings[b]? = some y) (hsource : x.source = y.source) :
    x.found.entry = y.found.entry ∧ ∃ before later, moves = before ++ .go y.sweep :: later ∧
      Traced.Overlap reach ((ofPolicies policies).runBy reach before) x.sweep y.sweep y.found := by
  obtain ⟨before, later, hmoves, htakings, ⟨c, hc, hfound⟩, hnow⟩ := taking_at (ofPolicies policies) rfl moves hy
  have hearlier : x ∈ ((ofPolicies policies).runBy reach before).takings := by
    rw [htakings]
    refine List.mem_of_getElem? (i := a) ?_
    rwa [List.getElem?_take_of_lt hab]
  have hover := (traced_runBy policies before).overlap_of_takes? hc hfound hearlier (hsource.trans hnow)
  exact ⟨hover.1, before, later, hmoves, hover.2⟩

/-! ### Shares -/

/-- What holds moreover if the sweepers share out the cameras. -/
structure Accounted (sharing : Sharing) (n : Nat) (s : Shift P) : Prop extends Traced (sharing.share n) s where
  once : (s.takings.map (·.source)).Nodup

theorem accounted_run {sharing : Sharing} {n : Nat} (policies : List Policy) (moves : List (Move P)) :
    Accounted sharing n ((ofPolicies policies).run sharing n moves) := by
  rw [← runBy_share]
  refine { traced_runBy policies moves with once := ?_ }
  rw [List.nodup_iff_pairwise_ne, List.pairwise_map, List.pairwise_iff_getElem]
  intro a b ha hb hab heq
  obtain ⟨-, before, later, -, hover⟩ := taken_twice policies moves hab (List.getElem?_eq_getElem ha)
    (List.getElem?_eq_getElem hb) heq
  -- a camera is in the share of one sweeper only
  obtain ⟨p, w, p', w', -, -, hne, hreach, hreach'⟩ := hover.sweepers
  exact hne ((beq_iff_eq.1 hreach).symm.trans (beq_iff_eq.1 hreach'))

end Shift

end LiveTracks
