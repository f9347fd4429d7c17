import Mathlib.Data.List.Basic
import LiveTracks.Proofs.SweepExactness
import LiveTracks.Proofs.Traffic

/-!
# No entry is left without a row

A report writes its entry before its rows and a removal drops its rows before its entry, so when an
entry has no row in some layer then a call that is under way accounts for it: a report that is still to
write this row, or a removal that is still to drop this entry (`Traffic.Covered`). Each single access
keeps this, in whatever order the accesses of the calls are made.
-/

namespace LiveTracks

variable {P : Type}

namespace Stage

/-- A report of the key that has written its entry but not its row in layer `j`. -/
def Notes (j : Nat) (key : Key) : Stage P → Prop
  | .readClock i k r | .readRow i k r _ | .writeRow i k r _ _ =>
    i < j ∧ j ≤ k ∧ Key.ofRaw r.camera r.number = .ok key
  | _ => False

/-- A removal that covers the key and has dropped its row in layer `j` but not its entry. -/
def Drops (j : Nat) (key : Key) : Stage P → Prop
  | .drop i t _ => i < j ∧ t.covers key = true
  | _ => False

def Owes (j : Nat) (key : Key) (c : Stage P) : Prop := c.Notes j key ∨ c.Drops j key

/-- A report that has written nothing yet is going to write all rows up to layer `n`. -/
def Fits (n : Nat) : Stage P → Prop
  | .writeEntry k _ => n ≤ k
  | .drop _ _ rest | .log _ rest => rest.Fits n
  | _ => True

theorem fits_above (n i k : Nat) (r : Report P) : (above i k r).Fits n := by
  unfold above
  split <;> exact trivial

theorem fits_ofRequest {n k : Nat} (h : n ≤ k) (q : Request P) : (ofRequest k q).Fits n := by
  cases q with
  | register r => exact h
  | remove | clear | sweep => exact trivial

theorem fits_advance {n : Nat} (s : Stack P) {c : Stage P} (h : c.Fits n) :
    (c.advance s).2.Fits n := by
  fun_cases advance s c <;> first | exact h | exact trivial | exact fits_above ..

theorem not_owes_of_isDone {c : Stage P} (h : c.isDone = true) {j : Nat} {key : Key} :
    ¬ c.Owes j key := by
  cases c with
  | done a => rintro (ho | ho) <;> cases ho
  | _ => cases h

theorem owes_above {i j k : Nat} {r : Report P} {key : Key} (hi : i < j) (hj : j ≤ k)
    (hk : Key.ofRaw r.camera r.number = .ok key) : (above i k r).Owes j key := by
  have hik : i < k := by omega
  rw [above, if_pos hik]
  exact .inl ⟨hi, hj, hk⟩

end Stage

/-! ### Single accesses -/

namespace Stack

theorem row?_modify {s s' : Stack P} {i : Nat} {f : Layer → Layer}
    (h : s'.layers = s.layers.modify i f) (j : Nat) (key : Key) :
    s'.row? j key = (s.layer? j).bind fun l =>
      ((if j = i + 1 then f l else l).rows.find? key).map (·.payload) := by
  cases j with
  | zero => rfl
  | succ j =>
    simp only [row?, layer?, h, List.getElem?_modify]
    by_cases hj : i = j
    · subst hj
      cases s.layers[i]? <;> simp
    · have hj' : ¬ j = i := fun h => hj h.symm
      cases s.layers[j]? <;> simp [hj, hj']

theorem row?_set {s s' : Stack P} {i : Nat} {l : Layer} {key : Key} {life : Lifetime}
    (hi : s.layers[i]? = some l)
    (h : s'.layers = s.layers.set i { l with rows := l.rows.put (key.entry life) }) (j : Nat)
    (key' : Key) :
    s'.row? j key' = if j = i + 1 ∧ key' = key then some life else s.row? j key' := by
  cases j with
  | zero => rfl
  | succ j =>
    obtain ⟨hlt, rfl⟩ := List.getElem?_eq_some_iff.1 hi
    simp only [row?, layer?, h, List.getElem?_set]
    by_cases hj : i = j
    · subst hj
      by_cases hk : key' = key
      · simp [hlt, hk, Store.find?_put]
        rfl
      · simp [hlt, hk, Store.find?_put]
    · have hj' : ¬ j = i := fun h => hj h.symm
      simp [hj, hj']

end Stack

namespace Target

theorem find?_dropRows (t : Target) (l : Layer) (key : Key) :
    (t.dropRows l).rows.find? key = if t.covers key then none else l.rows.find? key := by
  cases t with
  | track camera number =>
    simp only [dropRows, Layer.drop_eq_without, Layer.rows_without, Store.find?_without]
    rfl
  | all camera => simp only [dropRows, covers, Layer.clear, Store.find?_clear, decide_eq_true_eq]

theorem find?_dropEntries (t : Target) (s : Stack P) (key : Key) :
    (t.dropEntries s).base.find? key = if t.covers key then none else s.base.find? key := by
  cases t with
  | track camera number =>
    have h : (Target.track camera number).dropEntries s = s.dropAt 0 camera number := rfl
    rw [h, Stack.dropAt, Store.remove_eq_without, Store.find?_without]
    rfl
  | all camera =>
    have h : (Target.all camera).dropEntries s = s.forgetAt 0 camera := rfl
    rw [h, Stack.forgetAt, Stack.base_logs, Store.find?_clear]
    simp only [covers, decide_eq_true_eq]

theorem layers_dropEntries (t : Target) (s : Stack P) : (t.dropEntries s).layers = s.layers := by
  cases t <;> rfl

end Target

namespace Stage

/-- What the next access of a call does to the tracks. -/
inductive Access (s s' : Stack P) (c c' : Stage P) : Prop where
  | entry (k : Nat) (r : Report P) (key : Key) (hc : c = .writeEntry k r) (hc' : c' = above 0 k r)
    (hk : Key.ofRaw r.camera r.number = .ok key) (hb : s'.base = s.base.put (key.entry r.payload))
    (hr : ∀ j key', s'.row? j key' = s.row? j key')
  | row (i k : Nat) (r : Report P) (now firstSeen : Instant) (key : Key)
    (hc : c = .writeRow i k r now firstSeen) (hc' : c' = above (i + 1) k r)
    (hk : Key.ofRaw r.camera r.number = .ok key) (hb : s'.base = s.base)
    (hr : ∀ j key', s'.row? j key' =
      if j = i + 1 ∧ j ≤ s.depth ∧ key' = key then some ⟨firstSeen, now⟩ else s.row? j key')
  | dropRows (i : Nat) (t : Target) (rest : Stage P) (hc : c = .drop (i + 1) t rest)
    (hc' : c' = .drop i t rest) (hb : s'.base = s.base)
    (hr : ∀ j key, s'.row? j key = if j = i + 1 ∧ t.covers key then none else s.row? j key)
  | dropEntries (t : Target) (rest : Stage P) (hc : c = .drop 0 t rest) (hc' : c' = rest)
    (hb : ∀ key, s'.base.find? key = if t.covers key then none else s.base.find? key)
    (hr : ∀ j key, s'.row? j key = s.row? j key)
  | quiet (hb : s'.base = s.base) (hr : ∀ j key, s'.row? j key = s.row? j key)
    (ho : ∀ j key, c.Owes j key → c'.Owes j key)

theorem access_of_idle {s s' : Stack P} {c c' : Stage P} (hb : s'.base = s.base)
    (hl : s'.layers = s.layers) (ho : ∀ j key, ¬ c.Owes j key) : Access s s' c c' :=
  .quiet hb (Stack.row?_congr hl) fun j key h => absurd h (ho j key)

theorem access (s : Stack P) (c : Stage P) : Access s (c.advance s).1 c (c.advance s).2 := by
  cases c with
  | writeEntry k r =>
    cases hk : Key.ofRaw r.camera r.number with
    | error e =>
      simp only [advance, Stack.registerAt_of_error hk]
      exact access_of_idle rfl rfl (by simp [Owes, Notes, Drops])
    | ok key =>
      simp only [advance, Stack.registerAt_of_ok hk]
      refine .entry k r key rfl rfl hk rfl fun j key' => ?_
      exact Stack.row?_congr (s := s) rfl j key'
  | readClock i k r => exact .quiet rfl (Stack.row?_congr rfl) fun j key h => h
  | readRow i k r now => exact .quiet rfl (Stack.row?_congr rfl) fun j key h => h
  | writeRow i k r now firstSeen =>
    cases hk : Key.ofRaw r.camera r.number with
    | error e =>
      have ho : ∀ j key, ¬ (Stage.writeRow i k r now firstSeen).Owes j key := by
        simp [Owes, Notes, Drops, hk]
      simp only [advance, Store.register, hk, Except.map]
      split <;> exact access_of_idle rfl rfl ho
    | ok key =>
      cases hl : s.layers[i]? with
      | none =>
        have hd : s.depth ≤ i := List.getElem?_eq_none_iff.1 hl
        simp only [advance, hl]
        refine .row i k r now firstSeen key rfl rfl hk rfl fun j key' => ?_
        rw [if_neg]
        omega
      | some l =>
        have hd : i < s.depth := (List.getElem?_eq_some_iff.1 hl).1
        simp only [advance, hl, Store.register, hk, Except.map]
        refine .row i k r now firstSeen key rfl rfl hk rfl fun j key' => ?_
        rw [Stack.row?_set hl rfl]
        have hj : (j = i + 1 ∧ key' = key) ↔ (j = i + 1 ∧ j ≤ s.depth ∧ key' = key) :=
          ⟨fun h => ⟨h.1, by omega, h.2⟩, fun h => ⟨h.1, h.2.2⟩⟩
        simp only [hj]
  | drop i t rest =>
    cases i with
    | zero =>
      exact .dropEntries t rest rfl rfl (t.find?_dropEntries s)
        fun j key => Stack.row?_congr (t.layers_dropEntries s) j key
    | succ i =>
      refine .dropRows i t rest rfl rfl rfl fun j key => ?_
      rw [Stack.row?_modify (s := s) (f := t.dropRows) rfl, Stack.row?]
      cases s.layer? j with
      | none => simp
      | some l =>
        by_cases hj : j = i + 1
        · cases hc : t.covers key <;> simp [hj, t.find?_dropRows, hc]
        · simp [hj]
  | log | begin | done => exact access_of_idle rfl rfl (by simp [Owes, Notes, Drops])
  | list | next | fetch =>
    simp only [advance]
    split <;> exact access_of_idle rfl rfl (by simp [Owes, Notes, Drops])
  | visit round c rows =>
    have ho : ∀ j key, ¬ (Stage.visit round c rows).Owes j key := by simp [Owes, Notes, Drops]
    cases rows with
    | nil => exact access_of_idle rfl rfl ho
    | cons row rows =>
      simp only [advance]
      split
      · exact access_of_idle rfl rfl ho
      · split <;> exact access_of_idle rfl rfl ho

end Stage

/-! ### Stacks in traffic -/

namespace Stack

structure Tame (policies : List Policy) (s : Stack P) : Prop where
  armed : s.armed = none
  policies : s.layers.map (·.policy) = policies
  named : ∀ l ∈ s.layers, Named l.rows

namespace Tame

variable {policies : List Policy} {s s' : Stack P}

theorem depth (h : s.Tame policies) : s.depth = policies.length := by
  rw [← h.policies, List.length_map, Stack.depth]

theorem layer (h : s.Tame policies) {j : Nat} {policy : Policy} (hp : policies[j]? = some policy) {l : Layer}
    (hl : s.layer? (j + 1) = some l) : l.policy = policy ∧ Named l.rows := by
  have hmap : (s.layers.map (·.policy))[j]? = some policy := by rw [h.policies, hp]
  have hl : s.layers[j]? = some l := hl
  rw [List.getElem?_map, hl] at hmap
  exact ⟨Option.some.inj hmap, h.named l (List.mem_of_getElem? hl)⟩

theorem of_same (h : s.Tame policies) (ha : s'.armed = s.armed) (hl : s'.layers = s.layers) :
    s'.Tame policies := by
  refine ⟨ha.trans h.armed, ?_, ?_⟩
  · rw [hl]
    exact h.policies
  · rw [hl]
    exact h.named

theorem modify (h : s.Tame policies) {i : Nat} {f : Layer → Layer}
    (hf : ∀ l, s.layers[i]? = some l → (f l).policy = l.policy ∧ Named (f l).rows) :
    ({ s with layers := s.layers.modify i f } : Stack P).Tame policies where
  armed := h.armed
  policies := by
    rw [← h.policies]
    apply List.ext_getElem?
    intro n
    simp only [List.getElem?_map, List.getElem?_modify]
    cases hn : s.layers[n]? with
    | none => rfl
    | some l =>
      by_cases hi : i = n
      · subst hi
        simp [(hf l hn).1]
      · simp [hi]
  named l' hl := by
    obtain ⟨n, hn⟩ := List.getElem?_of_mem hl
    rw [List.getElem?_modify] at hn
    obtain ⟨l, hg, rfl⟩ := Option.map_eq_some_iff.1 hn
    by_cases hi : i = n
    · subst hi
      rw [if_pos rfl]
      exact (hf l hg).2
    · rw [if_neg hi]
      exact h.named l (List.mem_of_getElem? hg)

theorem dropRows (h : s.Tame policies) (i : Nat) (t : Target) :
    ({ s with layers := s.layers.modify i t.dropRows } : Stack P).Tame policies := by
  apply h.modify
  intro l hl
  have hn := h.named l (List.mem_of_getElem? hl)
  cases t with
  | track camera number =>
    rw [Target.dropRows, Layer.drop_eq_without]
    exact ⟨rfl, named_without hn _⟩
  | all camera => exact ⟨rfl, named_clear hn camera⟩

theorem writeRow (h : s.Tame policies) (i : Nat) (r : Report P) (life : Lifetime) (l : Layer)
    (hl : s.layers[i]? = some l) (rows : Store Lifetime)
    (hr : l.rows.register r.camera r.number life = .ok rows) :
    ({ s with layers := s.layers.set i { l with rows } } : Stack P).Tame policies := by
  rw [List.set_eq_modify]
  apply h.modify
  intro l' hl'
  rw [hl] at hl'
  cases hl'
  obtain ⟨key, hk, rfl⟩ := Store.register_eq_ok_iff.1 hr
  exact ⟨rfl, named_put (e := key.entry life) (h.named l (List.mem_of_getElem? hl)) hk⟩

theorem advance (h : s.Tame policies) (c : Stage P) : (c.advance s).1.Tame policies := by
  cases c with
  | writeEntry k r =>
    cases hk : Key.ofRaw r.camera r.number with
    | error e =>
      simp only [Stage.advance, registerAt_of_error hk]
      exact h.of_same rfl rfl
    | ok key =>
      simp only [Stage.advance, registerAt_of_ok hk]
      exact h.of_same rfl rfl
  | writeRow i k r now firstSeen =>
    simp only [Stage.advance]
    split
    · exact h
    next l hl =>
      split
      next rows hr => exact h.writeRow i r ⟨firstSeen, now⟩ l hl rows hr
      next => exact h
  | drop i t rest =>
    cases i with
    | zero =>
      refine h.of_same ?_ (t.layers_dropEntries s)
      cases t <;> rfl
    | succ i => exact h.dropRows i t
  | log => exact h.of_same rfl rfl
  | readClock | readRow | begin | done => exact h
  | list | next | fetch =>
    simp only [Stage.advance]
    split <;> exact h
  | visit round c rows =>
    cases rows with
    | nil => exact h
    | cons row rows =>
      simp only [Stage.advance]
      split
      · exact h
      · split <;> exact h

end Tame

end Stack

namespace Stack

theorem sweep_of_late {s : Stack P} (ha : s.armed = none) (hn : ∀ l ∈ s.layers, Named l.rows)
    {j : Nat} {l : Layer} (hl : s.layer? j = some l) {key : Key} {e : Entry P} {life : Lifetime}
    (hb : s.base.find? key = some e) (hr : s.row? j key = some life) {now : Instant}
    (hlate : (life.lastSeen.add l.policy.lostTtl).nanos < now.nanos) (w : Walk) :
    let swept := ({ s with clock := now } : Stack P).sweep j w
    swept.1.base.find? key = none ∧ ⟨e, .inactive⟩ ∈ swept.2 := by
  intro swept
  have hx := exactSweep_of_unarmed (s := { s with clock := now }) ha hn j w
  have hv : ({ s with clock := now } : Stack P).verdict? j key = some .inactive := by
    have h := verdict?_eq_bind_row? (s := { s with clock := now }) hl key
    have hrow : ({ s with clock := now } : Stack P).row? j key = some life :=
      (row?_congr rfl j key).trans hr
    rw [h, hrow, Option.bind_some, Policy.evaluate_eq_inactive_iff]
    show l.policy.lostTtl.nanos < now.nanos - life.lastSeen.nanos
    simp only [Instant.add] at hlate
    omega
  constructor
  · rw [hx.entries, hv]
    rfl
  · have hkey : e.key = key := Store.key_of_find? hb
    subst hkey
    exact (hx.found_iff ⟨e, .inactive⟩).2 ⟨hb, hv⟩

end Stack

/-! ### Traffic -/

namespace Traffic

variable {t : Traffic P}

def Covered (n : Nat) (t : Traffic P) : Prop :=
  ∀ j key, 1 ≤ j → j ≤ n → (t.stack.base.find? key).isSome = true →
    (t.stack.row? j key).isSome = true ∨ ∃ c ∈ t.calls, c.Owes j key

theorem exists_mem_set {q : Stage P → Prop} {calls : List (Stage P)} {i : Nat} {c c' : Stage P}
    (hi : calls[i]? = some c) (hq : q c → q c') (h : ∃ x ∈ calls, q x) :
    ∃ x ∈ calls.set i c', q x := by
  obtain ⟨x, hx, hqx⟩ := h
  obtain ⟨n, hn⟩ := List.getElem?_of_mem hx
  by_cases hni : i = n
  · subst hni
    rw [hi] at hn
    cases hn
    exact ⟨c', List.mem_set (List.getElem?_eq_some_iff.1 hi).1 c', hq hqx⟩
  · have hset : (calls.set i c')[n]? = some x := (List.getElem?_set_ne hni).trans hn
    exact ⟨x, List.mem_of_getElem? hset, hqx⟩

theorem Covered.go {n i : Nat} {c c' : Stage P} {s' : Stack P} (h : t.Covered n)
    (hd : n ≤ t.stack.depth) (hi : t.calls[i]? = some c) (hf : c.Fits n)
    (ha : Stage.Access t.stack s' c c') : Covered n ⟨s', t.calls.set i c'⟩ := by
  intro j key h1 hj hkey
  have hmem : c' ∈ t.calls.set i c' := List.mem_set (List.getElem?_eq_some_iff.1 hi).1 c'
  cases ha with
  | entry k r key' hc hc' hk hb hr =>
    subst hc hc'
    dsimp only at hkey ⊢
    by_cases heq : key = key'
    · subst heq
      exact .inr ⟨_, hmem, Stage.owes_above h1 (Nat.le_trans hj hf) hk⟩
    · rw [hb, Store.find?_put, Key.key_entry, if_neg heq] at hkey
      rw [hr]
      refine (h j key h1 hj hkey).imp_right (exists_mem_set hi ?_)
      rintro (ho | ho) <;> cases ho
  | row i' k r now firstSeen key' hc hc' hk hb hr =>
    subst hc hc'
    dsimp only at hkey ⊢
    rw [hb] at hkey
    rw [hr]
    by_cases hw : j = i' + 1 ∧ key = key'
    · rw [if_pos ⟨hw.1, Nat.le_trans hj hd, hw.2⟩]
      exact .inl rfl
    · rw [if_neg fun h => hw ⟨h.1, h.2.2⟩]
      refine (h j key h1 hj hkey).imp_right (exists_mem_set hi ?_)
      -- a report that owes another row than the one just written goes on to owe it
      intro hh
      rcases hh with ⟨hij, hjk, hk'⟩ | ho
      · have hne : j ≠ i' + 1 := fun h => hw ⟨h, Except.ok.inj (hk'.symm.trans hk)⟩
        exact Stage.owes_above (by omega) hjk hk'
      · cases ho
  | dropRows i' target rest hc hc' hb hr =>
    subst hc hc'
    dsimp only at hkey ⊢
    rw [hb] at hkey
    rw [hr]
    by_cases hw : j = i' + 1 ∧ target.covers key = true
    · exact .inr ⟨_, hmem, .inr ⟨by omega, hw.2⟩⟩
    · rw [if_neg hw]
      refine (h j key h1 hj hkey).imp_right (exists_mem_set hi ?_)
      intro hh
      rcases hh with ho | ⟨hij, hcov⟩
      · cases ho
      · exact .inr ⟨by omega, hcov⟩
  | dropEntries target rest hc hc' hb hr =>
    subst hc
    dsimp only at hkey ⊢
    rw [hb] at hkey
    rw [hr]
    cases hcov : target.covers key with
    | true =>
      rw [hcov] at hkey
      cases hkey
    | false =>
      rw [hcov] at hkey
      refine (h j key h1 hj hkey).imp_right (exists_mem_set hi ?_)
      intro hh
      rcases hh with ho | ⟨hij, ho⟩
      · cases ho
      · rw [hcov] at ho
        cases ho
  | quiet hb hr ho =>
    dsimp only at hkey ⊢
    rw [hb] at hkey
    rw [hr]
    exact (h j key h1 hj hkey).imp_right (exists_mem_set hi (ho j key))

structure Good (policies : List Policy) (t : Traffic P) : Prop where
  tame : t.stack.Tame policies
  fits : ∀ c ∈ t.calls, c.Fits policies.length
  covered : t.Covered policies.length

theorem good_ofPolicies (policies : List Policy) : (ofPolicies policies : Traffic P).Good policies where
  tame := by
    refine ⟨rfl, by simp [ofPolicies, Stack.ofPolicies, Function.comp_def], ?_⟩
    intro l hl k row hrow
    obtain ⟨policy, -, rfl⟩ := List.mem_map.1 hl
    rw [Store.find?_empty] at hrow
    cases hrow
  fits c hc := by cases hc
  covered j key h1 hj hkey := by
    have hnone : (ofPolicies policies : Traffic P).stack.base.find? key = none :=
      Store.find?_empty key
    rw [hnone] at hkey
    cases hkey

theorem Good.step {policies : List Policy} (h : t.Good policies) {a : Act P}
    (ha : a.isOn policies.length = true) : (t.step a).Good policies := by
  cases a with
  | setClock now => exact ⟨h.tame.of_same rfl rfl, h.fits, h.covered⟩
  | start k q =>
    refine ⟨h.tame, ?_, ?_⟩
    · intro c hc
      rcases List.mem_append.1 hc with hc | hc
      · exact h.fits c hc
      · rw [List.mem_singleton.1 hc]
        exact Stage.fits_ofRequest (Nat.le_of_eq (beq_iff_eq.1 ha).symm) q
    · intro j key h1 hj hkey
      refine (h.covered j key h1 hj hkey).imp_right ?_
      intro hh
      obtain ⟨c, hc, ho⟩ := hh
      exact ⟨c, List.mem_append_left _ hc, ho⟩
  | go i =>
    simp only [Traffic.step]
    cases hi : t.calls[i]? with
    | none => exact h
    | some c =>
      have hf := h.fits c (List.mem_of_getElem? hi)
      refine ⟨h.tame.advance c, ?_, ?_⟩
      · intro c' hc'
        rcases List.mem_or_eq_of_mem_set hc' with hc' | rfl
        · exact h.fits c' hc'
        · exact Stage.fits_advance t.stack hf
      · exact h.covered.go (Nat.le_of_eq h.tame.depth.symm) hi hf (Stage.access t.stack c)

theorem good_run (policies : List Policy) (acts : List (Act P))
    (ha : ∀ a ∈ acts, a.isOn policies.length = true) :
    ((ofPolicies policies).run acts).Good policies := by
  apply List.foldlRecOn (motive := fun t : Traffic P => t.Good policies) _ _
    (good_ofPolicies policies)
  intro t ht a hmem
  exact ht.step (ha a hmem)

/-- Whatever calls are made at the same time on the top, and however their accesses are interleaved: an
entry without a row in some layer is accounted for by a report that is still to write this row, or by a
removal that has dropped this row and is still to drop the entry. So once all calls have come to their
end every entry has all its rows, and a sweep that is late enough drops it. -/
theorem entry_has_rows_or_call_under_way (policies : List Policy) (acts : List (Act P))
    (ha : ∀ a ∈ acts, a.isOn policies.length = true) :
    let t := (ofPolicies policies).run acts
    (∀ j key, 1 ≤ j → j ≤ policies.length → (t.stack.base.find? key).isSome = true →
      (t.stack.row? j key).isSome = true ∨
        (∃ c ∈ t.calls, c.Notes j key) ∨ ∃ c ∈ t.calls, c.Drops j key) ∧
    ((∀ c ∈ t.calls, c.isDone = true) →
      ∀ key e, t.stack.base.find? key = some e → ∀ j policy, policies[j]? = some policy →
        ∃ life, t.stack.row? (j + 1) key = some life ∧
          ∀ now w, (life.lastSeen.add policy.lostTtl).nanos < now.nanos →
            let s : Stack P := { t.stack with clock := now }
            let swept := s.sweep (j + 1) w
            Alone (s, .ofRequest (j + 1) (.sweep w fun _ => true)) (swept.1, .done (.expired swept.2)) ∧
              swept.1.base.find? key = none ∧ ⟨e, .inactive⟩ ∈ swept.2) := by
  intro t
  have hg : t.Good policies := good_run policies acts ha
  constructor
  · intro j key h1 hj hkey
    refine (hg.covered j key h1 hj hkey).imp_right ?_
    intro hh
    obtain ⟨c, hc, ho | ho⟩ := hh
    · exact .inl ⟨c, hc, ho⟩
    · exact .inr ⟨c, hc, ho⟩
  · intro hdone key e he j policy hp
    have hj : j + 1 ≤ policies.length := (List.getElem?_eq_some_iff.1 hp).1
    have hrow : (t.stack.row? (j + 1) key).isSome = true := by
      refine (hg.covered (j + 1) key (Nat.le_add_left 1 j) hj (by rw [he]; rfl)).resolve_right ?_
      intro hh
      obtain ⟨c, hc, ho⟩ := hh
      exact Stage.not_owes_of_isDone (hdone c hc) ho
    obtain ⟨life, hlife⟩ := Option.isSome_iff_exists.1 hrow
    have hpolicy : (t.stack.layer? (j + 1)).map (·.policy) = some policy := by
      rw [← hp, ← hg.tame.policies, List.getElem?_map]
      rfl
    obtain ⟨l, hl, rfl⟩ := Option.map_eq_some_iff.1 hpolicy
    refine ⟨life, hlife, ?_⟩
    intro now w hlate s swept
    have hs : s.armed = none := hg.tame.armed
    exact ⟨Alone.sweep hs (j + 1) w _,
      Stack.sweep_of_late hg.tame.armed hg.tame.named hl he hlife hlate w⟩

/-- A removal that has dropped a row when the track is reported anew, and one more report. -/
def crossingActs : List (Act String) :=
  [.start 1 (.register ⟨"north", 1, "a"⟩), .go 0, .go 0, .go 0, .go 0,
    .start 1 (.remove "north" 1), .go 1, .start 1 (.register ⟨"north", 1, "b"⟩), .go 2, .go 1,
    .setClock (.mk 1000000000), .go 2, .go 2, .go 2,
    .start 1 (.register ⟨"north", 1, "c"⟩), .go 3, .go 3, .go 3, .go 3]

def crossing : Traffic String := (ofPolicies [⟨.ofSeconds 3, .ofSeconds 30⟩]).run crossingActs

theorem entry_has_rows_or_call_under_way_crossing :
    (∀ a ∈ crossingActs, a.isOn 1 = true) ∧ (∀ c ∈ crossing.calls, c.isDone = true) ∧
      ∃ life, crossing.stack.row? 1 ⟨⟨"north", by decide⟩, ⟨1⟩⟩ = some life ∧
        ∀ now w, (life.lastSeen.add (.ofSeconds 3)).nanos < now.nanos →
          (({ crossing.stack with clock := now } : Stack String).sweep 1 w).1.base.find?
            ⟨⟨"north", by decide⟩, ⟨1⟩⟩ = none := by
  have ha : ∀ a ∈ crossingActs, a.isOn 1 = true := by decide
  have hd : ∀ c ∈ crossing.calls, c.isDone = true := by decide +kernel
  have he : crossing.stack.base.find? ⟨⟨"north", by decide⟩, ⟨1⟩⟩ =
      some ⟨⟨"north", by decide⟩, ⟨1⟩, "c"⟩ := by decide +kernel
  have h := (entry_has_rows_or_call_under_way [⟨.ofSeconds 3, .ofSeconds 30⟩] crossingActs ha).2 hd
    _ _ he 0 _ rfl
  obtain ⟨life, hlife, hsweep⟩ := h
  exact ⟨ha, hd, life, hlife, fun now w hlate => (hsweep now w hlate).2.1⟩

end Traffic

end LiveTracks
