import LiveTracks.Proofs.Retirement
import Mathlib.Data.Finset.Card
import Mathlib.Tactic.Choose

/-!
# How often a report looks for its shard

A report whose shard refuses it looks for the shard of its camera once more, and nothing in the loop itself says that
this ends. What bounds it is that a shard refuses only when it is retired, and that the report found it in use: in
between, a clearing has taken it out (`Traced`). So the clearings that overlap a report pay for its further passes
(`passes_bounded`).
-/

namespace LiveTracks

variable {P : Type}

/-! ### Counting by places -/

section Places

variable {α : Type}

theorem card_places (l : List α) (f : α → Bool) :
    ((Finset.range l.length).filter fun p => (l[p]?).any f = true).card = l.countP f := by
  induction l using List.reverseRecOn with
  | nil => rfl
  | append_singleton l a ih =>
    have hsame : ((Finset.range l.length).filter fun p => ((l ++ [a])[p]?).any f = true) =
        (Finset.range l.length).filter fun p => (l[p]?).any f = true := by
      apply Finset.filter_congr
      intro p hp
      rw [List.getElem?_append_left (Finset.mem_range.1 hp)]
    have hlast : (l ++ [a])[l.length]? = some a := by simp
    rw [List.length_append, List.length_singleton, Finset.range_add_one, Finset.filter_insert, hlast, hsame,
      List.countP_append, ← ih]
    by_cases ha : f a = true
    · have hnew : l.length ∉ (Finset.range l.length).filter fun p => (l[p]?).any f = true := by simp
      simp [ha, Finset.card_insert_of_notMem hnew]
    · simp [ha]

/-- If every place of the one kind has a place of the other kind to itself, there are at least as many of those. -/
theorem countP_le_countP_of_injective {l : List α} {f g : α → Bool} (partner : Nat → Nat)
    (hpartner : ∀ p a, l[p]? = some a → f a = true → ∃ b, l[partner p]? = some b ∧ g b = true)
    (hinj : ∀ p p' a a', l[p]? = some a → f a = true → l[p']? = some a' → f a' = true → partner p = partner p' → p = p') :
    l.countP f ≤ l.countP g := by
  rw [← card_places l f, ← card_places l g]
  have hplace : ∀ {h : α → Bool} {p}, p ∈ ((Finset.range l.length).filter fun p => (l[p]?).any h = true) ↔
      ∃ a, l[p]? = some a ∧ h a = true := by
    intro h p
    rw [Finset.mem_filter, Finset.mem_range, Option.any_eq_true]
    exact ⟨And.right, fun ⟨a, ha, hh⟩ => ⟨(List.getElem?_eq_some_iff.1 ha).1, a, ha, hh⟩⟩
  apply Finset.card_le_card_of_injOn partner
  · intro p hp
    obtain ⟨a, ha, hf⟩ := hplace.1 hp
    exact hplace.2 (hpartner p a ha hf)
  · intro p hp p' hp' heq
    obtain ⟨a, ha, hf⟩ := hplace.1 hp
    obtain ⟨a', ha', hf'⟩ := hplace.1 hp'
    exact hinj p p' a a' ha hf ha' hf' heq

end Places

namespace Crowd

/-! ### Moments of a run -/

/-- What has come about so far, and what happens next. -/
structure Moment (P : Type) where
  crowd : Crowd P
  move : Move P

def momentsFrom (t : Crowd P) : List (Move P) → List (Moment P)
  | [] => []
  | m :: moves => ⟨t, m⟩ :: momentsFrom (t.step m) moves

def moments (moves : List (Move P)) : List (Moment P) := momentsFrom empty moves

theorem momentsFrom_append (t : Crowd P) (a b : List (Move P)) :
    momentsFrom t (a ++ b) = momentsFrom t a ++ momentsFrom (t.run a) b := by
  induction a generalizing t with
  | nil => rfl
  | cons m a ih => exact congrArg (⟨t, m⟩ :: ·) (ih (t.step m))

theorem moments_concat (moves : List (Move P)) (m : Move P) :
    moments (moves ++ [m]) = moments moves ++ [⟨empty.run moves, m⟩] :=
  momentsFrom_append empty moves [m]

theorem split_of_mem {moves : List (Move P)} {s : Moment P} (h : s ∈ moments moves) :
    ∃ before after, moves = before ++ s.move :: after ∧ s.crowd = empty.run before := by
  induction moves using List.reverseRecOn with
  | nil => cases h
  | append_singleton moves m ih =>
    rw [moments_concat, List.mem_append, List.mem_singleton] at h
    rcases h with h | rfl
    · obtain ⟨before, after, rfl, hs⟩ := ih h
      exact ⟨before, after ++ [m], by simp, hs⟩
    · exact ⟨moves, [], rfl, rfl⟩

namespace Moment

/-- Report `i` begins a pass: it looks for the shard of its camera. A report that names no track makes no pass. -/
def begins (s : Moment P) (i : Nat) : Bool :=
  match s.move, s.crowd.callers[i]? with
  | .go j, some ⟨.register r, .look⟩ => j == i && (Key.ofRaw r.camera r.number).isOk
  | _, _ => false

/-- Report `i` has come to its shard and has to go back. -/
def refused (s : Moment P) (i : Nat) : Bool :=
  match s.move, s.crowd.callers[i]? with
  | .go j, some ⟨.register r, .enter n⟩ =>
    j == i && match (s.crowd.store.advance (.register r) (.enter n)).2 with
      | .look => true
      | _ => false
  | _, _ => false

/-- A clearing takes the shard of the camera out. -/
def detaches (s : Moment P) (camera : String) : Bool :=
  match s.move with
  | .go j =>
    match s.crowd.callers[j]? with
    | some ⟨.clear camera', .look⟩ => camera' == camera && (s.crowd.store.shard? camera).isSome
    | _ => false
  | .ask _ => false

/-- Call `i` has been made and not been answered. -/
def underWay (s : Moment P) (i : Nat) : Bool :=
  match s.crowd.callers[i]? with
  | none => false
  | some ⟨_, .done _⟩ => false
  | some _ => true

variable {s : Moment P} {i : Nat} {camera : String}

theorem begins_iff : s.begins i = true ↔
    s.move = .go i ∧ ∃ r k, s.crowd.At i (.register r) .look ∧ Key.ofRaw r.camera r.number = .ok k := by
  unfold begins At
  constructor
  · intro h
    split at h
    · rename_i j r hm hc
      simp only [Bool.and_eq_true, beq_iff_eq] at h
      cases hk : Key.ofRaw r.camera r.number with
      | error e => simp [hk, Except.isOk, Except.toBool] at h
      | ok k => exact ⟨h.1 ▸ hm, r, k, hc, hk⟩
    · cases h
  · rintro ⟨hm, r, k, hc, hk⟩
    simp [hm, hc, hk, Except.isOk, Except.toBool]

theorem refused_iff : s.refused i = true ↔
    s.move = .go i ∧ ∃ r n, s.crowd.At i (.register r) (.enter n) ∧
      (s.crowd.store.advance (.register r) (.enter n)).2 = .look := by
  unfold refused At
  constructor
  · intro h
    split at h
    · rename_i j r n hm hc
      rw [Bool.and_eq_true, beq_iff_eq] at h
      obtain ⟨rfl, hturn⟩ := h
      refine ⟨hm, r, n, hc, ?_⟩
      split at hturn
      · assumption
      · cases hturn
    · cases h
  · rintro ⟨hm, r, n, hc, hturn⟩
    simp [hm, hc, hturn]

theorem detaches_iff : s.detaches camera = true ↔
    ∃ j n, s.move = .go j ∧ s.crowd.At j (.clear camera) .look ∧ s.crowd.store.shard? camera = some n := by
  unfold detaches At
  constructor
  · intro h
    split at h
    · rename_i j hm
      split at h
      · rename_i camera' hc
        simp only [Bool.and_eq_true, beq_iff_eq] at h
        obtain ⟨rfl, hs⟩ := h
        obtain ⟨n, hn⟩ := Option.isSome_iff_exists.1 hs
        exact ⟨j, n, hm, hc, hn⟩
      · cases h
    · cases h
  · rintro ⟨j, n, hm, hc, hn⟩
    simp [hm, hc, hn]

theorem underWay_of_at {q : Call P} {turn : Turn P} (h : s.crowd.At i q turn) (hturn : ∀ a, turn ≠ .done a) :
    s.underWay i = true := by
  unfold underWay
  rw [h]
  cases turn with
  | done a => exact absurd rfl (hturn a)
  | _ => rfl

theorem at_of_underWay (h : s.underWay i = true) : i < s.crowd.callers.length ∧ ¬ s.crowd.Answered i := by
  unfold underWay at h
  split at h
  · cases h
  · cases h
  · rename_i c hdone hc
    refine ⟨(List.getElem?_eq_some_iff.1 hc).1, fun hh => ?_⟩
    obtain ⟨q, a, hi⟩ := hh
    exact hdone q a (Option.some.inj (hc.symm.trans hi))

theorem begins_of_ne (h : s.move ≠ .go i) : s.begins i = false :=
  Bool.eq_false_iff.2 fun hh => h (begins_iff.1 hh).1

theorem refused_of_ne (h : s.move ≠ .go i) : s.refused i = false :=
  Bool.eq_false_iff.2 fun hh => h (refused_iff.1 hh).1

end Moment

/-! ### What one lock does to a report -/

section Lock

variable {t : Crowd P} {i : Nat} {q : Call P} {turn : Turn P} {r : Report P} {n : Nat} {camera : String}

theorem at_step_go (h : (t.step (.go i)).At i q turn) :
    ∃ turn', t.At i q turn' ∧ turn = (t.store.advance q turn').2 := by
  cases hi : t.callers[i]? with
  | none =>
    simp only [step, hi] at h
    cases hi.symm.trans h
  | some c =>
    rw [step_go hi] at h
    rcases (at_turned hi).1 h with ⟨-, rfl, rfl⟩ | ⟨hne, -⟩
    · exact ⟨c.turn, hi, rfl⟩
    · exact absurd rfl hne

theorem at_step_of_ne {m : Move P} (hm : m ≠ .go i) : (t.step m).At i q turn ↔
    t.At i q turn ∨ (m = .ask q ∧ i = t.callers.length ∧ turn = .look) := by
  cases m with
  | ask q' =>
    rw [at_ask, Move.ask.injEq, eq_comm (a := q'), and_left_comm]
  | go j =>
    have hij : i ≠ j := fun hh => hm (hh ▸ rfl)
    rcases t.step_go_cases j with he | ⟨q', turn', hj, -, he⟩ <;> rw [he]
    · simp
    · rw [at_turned hj]
      simp [hij]

theorem At.run (h : t.At i q turn) (moves : List (Move P)) :
    ∃ turn', (t.run moves).At i q turn' := by
  induction moves generalizing t turn with
  | nil => exact ⟨turn, h⟩
  | cons m moves ih =>
    by_cases hm : m = .go i
    · subst hm
      have hmoved := (at_turned h (r := t.store.advance q turn)).2 (.inl ⟨rfl, rfl, rfl⟩)
      rw [← step_go h] at hmoved
      exact ih hmoved
    · exact ih ((at_step_of_ne hm).2 (.inl h))

/-- A call is the same at all times. -/
theorem at_of_mem {moves : List (Move P)} {s : Moment P} (hs : s ∈ moments moves) (h : s.crowd.At i q turn) :
    ∃ turn', (empty.run moves).At i q turn' := by
  obtain ⟨before, after, rfl, hcrowd⟩ := split_of_mem hs
  rw [run_append]
  rw [hcrowd] at h
  exact h.run (s.move :: after)

/-- A report goes on to the shard that serves its camera at that time. -/
theorem shard?_of_entered (w : t.Wired) (hi : t.At i (.register r) turn)
    (hturn : (t.store.advance (.register r) turn).2 = .enter n) :
    (t.store.advance (.register r) turn).1.shard? r.camera = some n := by
  cases turn with
  | look =>
    have hl := t.store.looks (q := .register r) rfl
    simp only [SharedStore.advance] at hturn ⊢
    generalize t.store.look (.register r) = x at hl hturn
    cases hl with
    | answered | absent | creates => cases hturn
    | enters m hs =>
      cases hturn
      exact hs
    | clears m hs hq => cases hq
  | make c =>
    have hc : r.camera = c.text := Option.some.inj (w.make i _ c hi).1
    simp only [SharedStore.advance] at hturn ⊢
    rw [SharedStore.shard?_make, if_pos hc]
    unfold SharedStore.make at hturn
    split at hturn
    · rename_i m hm
      cases hturn
      rw [hm]
      rfl
    · rename_i hm
      cases hturn
      rw [hm]
      rfl
  | enter m => exact absurd hturn (t.store.advance_enter_ne _ m n)
  | tally rest found => cases w.tally i _ rest found hi
  | done a => cases hturn

/-- Only a clearing of its camera takes a shard out. -/
theorem shard?_advance (h : t.store.shard? camera = some n) (q : Call P) (turn : Turn P) :
    (t.store.advance q turn).1.shard? camera = some n ∨ (q = .clear camera ∧ turn = .look) := by
  cases turn with
  | look =>
    simp only [SharedStore.advance]
    cases hq : q.camera? with
    | none =>
      rw [(t.store.look_of_none hq).1]
      exact .inl h
    | some camera' =>
      have hl := t.store.looks hq
      generalize t.store.look q = x at hl
      cases hl with
      | clears m hs hclear =>
        rw [SharedStore.shard?_detach]
        split
        · rename_i hc
          rw [hc]
          exact .inr ⟨hclear, trivial⟩
        · exact .inl h
      | _ => exact .inl h
  | make c =>
    simp only [SharedStore.advance]
    rw [SharedStore.shard?_make]
    split
    · rename_i hc
      rw [hc, SharedStore.shard?_text] at h
      rw [h]
      exact .inl rfl
    · exact .inl h
  | enter m =>
    simp only [SharedStore.advance]
    split
    · exact .inl h
    · split <;> exact .inl h
  | tally rest found => cases rest <;> exact .inl h
  | done a => exact .inl h

/-- A shard that refuses a report is retired. -/
theorem retired_of_back {shard : Shard P} (hn : t.store.shards[n]? = some shard)
    (hback : (t.store.advance (.register r) (.enter n)).2 = .look) : shard.retired = true := by
  by_contra hr
  obtain ⟨shard', a, hserve⟩ := Shard.serve_of_live (by simpa using hr) (.register r)
  simp only [SharedStore.advance, hn, hserve] at hback
  cases hback

end Lock

/-! ### A shard was taken out in between -/

/-- At place `p` the shard of the camera is taken out while call `i` is under way. -/
def DetachedDuring (l : List (Moment P)) (camera : String) (i p : Nat) : Prop :=
  ∃ s, l[p]? = some s ∧ s.detaches camera = true ∧ s.underWay i = true

def RefusedAt (l : List (Moment P)) (i p : Nat) : Prop := ∃ s, l[p]? = some s ∧ s.refused i = true

/-- Before place `p` and since report `i` was last refused, the shard of its camera has been taken out at `d`. -/
structure Since (l : List (Moment P)) (camera : String) (i d p : Nat) : Prop where
  lt : d < p
  detached : DetachedDuring l camera i d
  last : ∀ p', p' < p → RefusedAt l i p' → p' < d

theorem RefusedAt.of_concat {l : List (Moment P)} {s : Moment P} {i p : Nat} (h : RefusedAt (l ++ [s]) i p)
    (hp : p < l.length) : RefusedAt l i p := by
  obtain ⟨s', hs, hr⟩ := h
  exact ⟨s', (List.getElem?_append_left hp).symm.trans hs, hr⟩

theorem RefusedAt.lt_of_concat {l : List (Moment P)} {s : Moment P} {i p : Nat} (h : RefusedAt (l ++ [s]) i p)
    (hs : s.refused i = false) : p < l.length := by
  obtain ⟨s', hs', hr⟩ := h
  rcases getElem?_concat_cases hs' with hp | ⟨-, rfl⟩
  · exact (List.getElem?_eq_some_iff.1 hp).1
  · rw [hs] at hr
    cases hr

theorem DetachedDuring.concat {l : List (Moment P)} {camera : String} {i d : Nat}
    (h : DetachedDuring l camera i d) (s : Moment P) : DetachedDuring (l ++ [s]) camera i d := by
  obtain ⟨s', hs, hd⟩ := h
  exact ⟨s', getElem?_concat_of_some hs, hd⟩

theorem Since.concat {l : List (Moment P)} {camera : String} {i d p : Nat} (h : Since l camera i d p)
    (hp : p ≤ l.length) (s : Moment P) : Since (l ++ [s]) camera i d p where
  lt := h.lt
  detached := h.detached.concat s
  last p' hlt hr := h.last p' hlt (hr.of_concat (by omega))

theorem Since.later {l : List (Moment P)} {camera : String} {i d : Nat} (h : Since l camera i d l.length)
    {s : Moment P} (hs : s.refused i = false) : Since (l ++ [s]) camera i d (l ++ [s]).length where
  lt := by
    have hd := h.lt
    rw [List.length_append]
    omega
  detached := h.detached.concat s
  last p' _ hr := h.last p' (hr.lt_of_concat hs) (hr.of_concat (hr.lt_of_concat hs))

theorem since_last {l : List (Moment P)} {s : Moment P} {camera : String} {i : Nat}
    (hd : s.detaches camera = true) (hi : s.underWay i = true) (hs : s.refused i = false) :
    Since (l ++ [s]) camera i l.length (l ++ [s]).length where
  lt := by simp
  detached := ⟨s, List.getElem?_concat_length, hd, hi⟩
  last _ _ hr := hr.lt_of_concat hs

/-- Wherever a report goes, the shard is the one in use, or it has been taken out since; and wherever it was
refused, the latter was so. -/
structure Traced (moves : List (Move P)) : Prop where
  bound : ∀ i r n, (empty.run moves).At i (.register r) (.enter n) →
    (empty.run moves).store.shard? r.camera = some n ∨
      ∃ d, Since (moments moves) r.camera i d (moments moves).length
  refused : ∀ (p : Nat) (s : Moment P) (i : Nat) (r : Report P) (n : Nat), (moments moves)[p]? = some s →
    s.refused i = true → s.crowd.At i (.register r) (.enter n) → ∃ d, Since (moments moves) r.camera i d p

theorem traced_nil : Traced ([] : List (Move P)) where
  bound _ _ _ h := nomatch h
  refused _ _ _ _ _ h := nomatch h

section Step

variable {moves : List (Move P)} {m : Move P}

theorem Traced.bound_concat (h : Traced moves) {i : Nat} {r : Report P} {n : Nat}
    (hi : ((empty.run moves).step m).At i (.register r) (.enter n)) :
    ((empty.run moves).step m).store.shard? r.camera = some n ∨
      ∃ d, Since (moments (moves ++ [m])) r.camera i d (moments (moves ++ [m])).length := by
  rw [moments_concat]
  -- unless the report itself has moved, it was in the same place, and it was not refused now
  have hstay : m ≠ .go i → (∃ d, Since (moments moves) r.camera i d (moments moves).length) →
      ∃ d, Since (moments moves ++ [(⟨empty.run moves, m⟩ : Moment P)]) r.camera i d
        (moments moves ++ [(⟨empty.run moves, m⟩ : Moment P)]).length := by
    intro hm hd
    obtain ⟨d, hd⟩ := hd
    exact ⟨d, hd.later (Moment.refused_of_ne hm)⟩
  cases m with
  | ask q =>
    have hold := (at_ask.1 hi).resolve_right fun hh => nomatch hh.2.2
    exact (h.bound i r n hold).imp_right (hstay (by simp))
  | go j =>
    rcases (empty.run moves).step_go_cases j with he | ⟨q, turn, hj, -, he⟩ <;> rw [he] at hi ⊢
    · refine (h.bound i r n hi).imp_right (hstay ?_)
      -- a report that stands at a shard does not stay there when it moves
      rintro ⟨⟩
      obtain ⟨turn, hold, hn⟩ := at_step_go (t := empty.run moves) (by rwa [he])
      obtain ⟨-, rfl⟩ := hi.inj hold
      exact SharedStore.advance_enter_ne _ _ n n hn.symm
    · rcases (at_turned hj).1 hi with ⟨rfl, rfl, hn⟩ | ⟨hij, hold⟩
      · exact .inl (shard?_of_entered (wired_run moves) hj hn.symm)
      · have hm : Move.go j ≠ (Move.go i : Move P) := by simpa using Ne.symm hij
        rcases h.bound i r n hold with hs | hd
        · rcases shard?_advance hs q turn with hs' | ⟨rfl, rfl⟩
          · exact .inl hs'
          · exact .inr ⟨_, since_last (Moment.detaches_iff.2 ⟨j, n, rfl, hj, hs⟩)
              (Moment.underWay_of_at hold (by simp)) (Moment.refused_of_ne hm)⟩
        · exact .inr (hstay hm hd)

theorem Traced.concat (h : Traced moves) : Traced (moves ++ [m]) where
  bound i r n hi := by
    rw [run_append] at hi ⊢
    exact h.bound_concat hi
  refused p s i r n hs hr hi := by
    rw [moments_concat] at hs ⊢
    rcases getElem?_concat_cases hs with hs | ⟨rfl, rfl⟩
    · obtain ⟨d, hd⟩ := h.refused p s i r n hs hr hi
      exact ⟨d, hd.concat (Nat.le_of_lt (List.getElem?_eq_some_iff.1 hs).1) _⟩
    · obtain ⟨-, r', n', hi', hback⟩ := Moment.refused_iff.1 hr
      obtain ⟨hq, hn⟩ := hi.inj hi'
      cases hq
      cases hn
      have hlt := (wired_run moves).bound r.camera n (.inr ⟨i, _, hi, rfl⟩)
      have hget := List.getElem?_eq_getElem hlt
      rcases h.bound i r n hi with hserving | ⟨d, hd⟩
      · -- what is in use does not refuse
        have hlive := (tended_run moves).live r.camera n _ hserving hget
        rw [retired_of_back hget hback] at hlive
        cases hlive
      · exact ⟨d, hd.concat (Nat.le_refl _) _⟩

end Step

theorem traced_run (moves : List (Move P)) : Traced moves := by
  induction moves using List.reverseRecOn with
  | nil => exact traced_nil
  | append_singleton moves m ih => exact ih.concat

/-! ### Passes, refusals and detachments -/

def passes (moves : List (Move P)) (i : Nat) : Nat := (moments moves).countP (·.begins i)

def refusals (moves : List (Move P)) (i : Nat) : Nat := (moments moves).countP (·.refused i)

/-- How often the shard of the camera is taken out while call `i` is under way. -/
def detachments (moves : List (Move P)) (camera : String) (i : Nat) : Nat :=
  (moments moves).countP fun s => s.detaches camera && s.underWay i

theorem passes_concat (moves : List (Move P)) (m : Move P) (i : Nat) :
    passes (moves ++ [m]) i = passes moves i + if (⟨empty.run moves, m⟩ : Moment P).begins i then 1 else 0 := by
  rw [passes, moments_concat, List.countP_append, List.countP_singleton, ← passes]

theorem refusals_concat (moves : List (Move P)) (m : Move P) (i : Nat) :
    refusals (moves ++ [m]) i = refusals moves i + if (⟨empty.run moves, m⟩ : Moment P).refused i then 1 else 0 := by
  rw [refusals, moments_concat, List.countP_append, List.countP_singleton, ← refusals]

theorem length_run (t : Crowd P) (moves : List (Move P)) : t.callers.length ≤ (t.run moves).callers.length := by
  induction moves generalizing t with
  | nil => exact Nat.le_refl _
  | cons m moves ih => exact (t.length_step m).trans (ih (t.step m))

theorem passes_of_not_asked {moves : List (Move P)} {i : Nat} (h : (empty.run moves).callers.length ≤ i) :
    passes moves i = 0 ∧ refusals moves i = 0 := by
  have hearly : ∀ s ∈ moments moves, s.crowd.callers.length ≤ i := by
    intro s hs
    obtain ⟨before, after, rfl, hcrowd⟩ := split_of_mem hs
    rw [run_append] at h
    rw [hcrowd]
    exact (length_run _ _).trans h
  constructor
  · refine List.countP_eq_zero.2 fun s hs hb => ?_
    obtain ⟨-, r, k, hi, -⟩ := Moment.begins_iff.1 hb
    exact absurd hi.lt_length (Nat.not_lt.2 (hearly s hs))
  · refine List.countP_eq_zero.2 fun s hs hr => ?_
    obtain ⟨-, r, n, hi, -⟩ := Moment.refused_iff.1 hr
    exact absurd hi.lt_length (Nat.not_lt.2 (hearly s hs))

/-- The passes of a report that are not over with a refusal. -/
def started : Turn P → Nat
  | .look => 0
  | _ => 1

/-- A lock either begins a pass, or ends one by a refusal, or leaves the number of passes as it is. -/
theorem started_advance {t : Crowd P} {i : Nat} {r : Report P} {k : Key} {turn : Turn P} (w : t.Wired)
    (hk : Key.ofRaw r.camera r.number = .ok k) (hi : t.At i (.register r) turn) :
    started turn + (if (⟨t, .go i⟩ : Moment P).begins i then 1 else 0) =
      (if (⟨t, .go i⟩ : Moment P).refused i then 1 else 0) + started (t.store.advance (.register r) turn).2 := by
  unfold At at hi
  cases turn with
  | look =>
    have hb : (⟨t, .go i⟩ : Moment P).begins i = true := Moment.begins_iff.2 ⟨rfl, r, k, hi, hk⟩
    have hr : (⟨t, .go i⟩ : Moment P).refused i = false := by simp [Moment.refused, hi]
    rw [hb, hr]
    simp only [SharedStore.advance, SharedStore.look, hk, SharedStore.reach]
    cases t.store.shard? r.camera <;> rfl
  | make c =>
    have hb : (⟨t, .go i⟩ : Moment P).begins i = false := by simp [Moment.begins, hi]
    have hr : (⟨t, .go i⟩ : Moment P).refused i = false := by simp [Moment.refused, hi]
    rw [hb, hr]
    simp only [SharedStore.advance, SharedStore.make]
    cases t.store.serving[c]? <;> rfl
  | enter n =>
    have hb : (⟨t, .go i⟩ : Moment P).begins i = false := by simp [Moment.begins, hi]
    have hr : (⟨t, .go i⟩ : Moment P).refused i = true ↔
        (t.store.advance (.register r) (.enter n)).2 = .look := by
      rw [Moment.refused_iff]
      constructor
      · rintro ⟨-, r', n', hi', hback⟩
        cases hi.symm.trans hi'
        exact hback
      · exact fun hback => ⟨rfl, r, n, hi, hback⟩
    rw [hb]
    by_cases hback : (t.store.advance (.register r) (.enter n)).2 = .look
    · rw [if_pos (hr.2 hback), hback]
      rfl
    · rw [if_neg (mt hr.1 hback)]
      cases hturn : (t.store.advance (.register r) (.enter n)).2 with
      | look => exact absurd hturn hback
      | _ => rfl
  | tally rest found => cases w.tally i _ rest found hi
  | done a =>
    have hb : (⟨t, .go i⟩ : Moment P).begins i = false := by simp [Moment.begins, hi]
    have hr : (⟨t, .go i⟩ : Moment P).refused i = false := by simp [Moment.refused, hi]
    rw [hb, hr]
    rfl

theorem passes_eq {moves : List (Move P)} {i : Nat} {r : Report P} {k : Key} {turn : Turn P}
    (hk : Key.ofRaw r.camera r.number = .ok k) (hi : (empty.run moves).At i (.register r) turn) :
    passes moves i = refusals moves i + started turn := by
  induction moves using List.reverseRecOn generalizing turn with
  | nil => cases hi
  | append_singleton moves m ih =>
    rw [run_append] at hi
    rw [passes_concat, refusals_concat]
    by_cases hm : m = .go i
    · subst hm
      obtain ⟨turn', hold, rfl⟩ := at_step_go hi
      have hadvance := started_advance (wired_run moves) hk hold
      rw [ih hold]
      omega
    · rw [Moment.begins_of_ne hm, Moment.refused_of_ne hm]
      rcases (at_step_of_ne hm).1 hi with hold | ⟨-, rfl, rfl⟩
      · exact ih hold
      · obtain ⟨hp, hr⟩ := passes_of_not_asked (Nat.le_refl (empty.run moves).callers.length)
        rw [hp, hr]
        rfl

theorem passes_of_error {moves : List (Move P)} {i : Nat} {r : Report P} {e : KeyError} {turn : Turn P}
    (hk : Key.ofRaw r.camera r.number = .error e) (hi : (empty.run moves).At i (.register r) turn) :
    passes moves i = 0 := by
  refine List.countP_eq_zero.2 fun s hs hb => ?_
  obtain ⟨-, r', k, hi', hk'⟩ := Moment.begins_iff.1 hb
  obtain ⟨turn', hlater⟩ := at_of_mem hs hi'
  obtain ⟨hr, -⟩ := hi.inj hlater
  cases hr
  rw [hk] at hk'
  cases hk'

/-! ### Refusals are paid for -/

/-- Each refusal of call `i` has a detachment to itself, at an earlier place. -/
def Paid (l : List (Moment P)) (camera : String) (i : Nat) (partner : Nat → Nat) : Prop :=
  (∀ p, RefusedAt l i p → partner p < p ∧ DetachedDuring l camera i (partner p)) ∧
    ∀ p p', RefusedAt l i p → RefusedAt l i p' → partner p = partner p' → p = p'

section Payment

variable {moves : List (Move P)} {i : Nat} {r : Report P} {turn : Turn P}

theorem exists_paid (hi : (empty.run moves).At i (.register r) turn) :
    ∃ partner, Paid (moments moves) r.camera i partner := by
  have hsince : ∀ p, RefusedAt (moments moves) i p → ∃ d, Since (moments moves) r.camera i d p := by
    intro p hp
    obtain ⟨s, hs, hrefused⟩ := hp
    obtain ⟨-, r', n, hthen, -⟩ := Moment.refused_iff.1 hrefused
    obtain ⟨turn', hlater⟩ := at_of_mem (List.mem_of_getElem? hs) hthen
    obtain ⟨hr, -⟩ := hi.inj hlater
    cases hr
    exact (traced_run moves).refused p s i r n hs hrefused hthen
  choose! partner hpartner using hsince
  refine ⟨partner, fun p hp => ⟨(hpartner p hp).lt, (hpartner p hp).detached⟩, fun p p' hp hp' heq => ?_⟩
  -- the later of two refusals looks back to the earlier one only
  rcases Nat.lt_trichotomy p p' with hlt | rfl | hlt
  · have hlast := (hpartner p' hp').last p hlt hp
    have hback := (hpartner p hp).lt
    omega
  · rfl
  · have hlast := (hpartner p hp).last p' hlt hp'
    have hback := (hpartner p' hp').lt
    omega

theorem Paid.refusals_le {camera : String} {partner : Nat → Nat} (h : Paid (moments moves) camera i partner) :
    refusals moves i ≤ detachments moves camera i := by
  refine countP_le_countP_of_injective partner (fun p s hs hr => ?_) fun p p' s s' hs hr hs' hr' => ?_
  · obtain ⟨-, d, hd, hdetaches, hunderWay⟩ := h.1 p ⟨s, hs, hr⟩
    exact ⟨d, hd, by rw [hdetaches, hunderWay]; rfl⟩
  · exact h.2 p p' ⟨s, hs, hr⟩ ⟨s', hs', hr'⟩

theorem passes_le (hi : (empty.run moves).At i (.register r) turn) :
    passes moves i ≤ refusals moves i + 1 := by
  cases hk : Key.ofRaw r.camera r.number with
  | error e =>
    rw [passes_of_error hk hi]
    omega
  | ok k =>
    rw [passes_eq hk hi]
    cases turn <;> simp [started]

end Payment

/-- Two calls one of which has been made when the other is still under way do not follow one another. -/
theorem not_precedes {before after : List (Move P)} {i j : Nat} (hj : j < (empty.run before).callers.length)
    (hi : ¬ (empty.run before).Answered i) : ¬ Precedes (before ++ after) i j := by
  intro hh
  obtain ⟨b, a, he, hanswered, hlen⟩ := hh
  rcases List.append_eq_append_iff.1 he with ⟨x, rfl, -⟩ | ⟨x, rfl, -⟩
  · rw [run_append] at hlen
    have hgrown := length_run (empty.run before) x
    omega
  · rw [run_append] at hi
    exact hi (hanswered.run x)

theorem detachments_of_apart {moves : List (Move P)} {camera : String} {i : Nat}
    (hapart : ∀ j turn, (empty.run moves).At j (.clear camera) turn → Precedes moves j i ∨ Precedes moves i j) :
    detachments moves camera i = 0 := by
  refine List.countP_eq_zero.2 fun s hs hboth => ?_
  rw [Bool.and_eq_true] at hboth
  obtain ⟨hdetaches, hunderWay⟩ := hboth
  obtain ⟨j, n, -, hj, -⟩ := Moment.detaches_iff.1 hdetaches
  obtain ⟨hlt, hunanswered⟩ := Moment.at_of_underWay hunderWay
  obtain ⟨turn, hlater⟩ := at_of_mem hs hj
  obtain ⟨before, after, rfl, hcrowd⟩ := split_of_mem hs
  rw [hcrowd] at hj hlt hunanswered
  rcases hapart j turn hlater with hfirst | hfirst
  · exact not_precedes hlt (hj.pending (by simp)) hfirst
  · exact not_precedes hj.lt_length hunanswered hfirst

/-! ### The bound -/

/-- How the shards are kept: the one that serves a camera is in use and holds only what was reported on the camera,
and a retired one is empty. -/
structure InOrder (t : Crowd P) : Prop where
  serving : ∀ camera n, t.store.shard? camera = some n → ∃ shard, t.store.shards[n]? = some shard ∧
    shard.retired = false ∧ ∀ track e, shard.get? track = some e → e.camera.text = camera ∧ e.track = track
  apart : ∀ camera camera' n, t.store.shard? camera = some n → t.store.shard? camera' = some n → camera = camera'
  placed : ∀ (n : Nat) (shard : Shard P), t.store.shards[n]? = some shard →
    ∃ c : CameraId, ∀ track e, shard.get? track = some e → e.camera = c ∧ e.track = track
  retired : ∀ (n : Nat) (shard : Shard P), t.store.shards[n]? = some shard → shard.retired = true →
    shard.entries = []

theorem inOrder_run (moves : List (Move P)) : (empty.run moves).InOrder := by
  have w := wired_run moves
  have h := tended_run moves
  refine ⟨fun camera n hs => ?_, fun camera camera' n hs hs' => w.own camera camera' n (.inl hs) (.inl hs'),
    fun n shard hn => ?_, fun n shard hn hr => ?_⟩
  · have hn := List.getElem?_eq_getElem (w.bound camera n (.inl hs))
    obtain ⟨c, hc, hplaced⟩ := h.placed n _ hn
    obtain rfl := hc camera (.inl hs)
    exact ⟨_, hn, h.live _ n _ hs hn, fun track e he =>
      ⟨congrArg CameraId.text (hplaced track e he).1, (hplaced track e he).2⟩⟩
  · obtain ⟨c, -, hplaced⟩ := h.placed n shard hn
    exact ⟨c, hplaced⟩
  · rw [h.spent n shard hn hr]
    rfl

/-- The shards are in order at any time, and a retired one never changes again. So a report is refused only when a
clearing has taken the shard of its camera out in the meantime, each refusal by a clearing of its own, and it looks
for its shard once more than that at most. If no clearing of the camera is made at the same time, it looks once. -/
theorem passes_bounded (moves : List (Move P)) :
    (empty.run moves).InOrder ∧
    (∀ (n : Nat) (shard : Shard P) (more : List (Move P)), (empty.run moves).store.shards[n]? = some shard →
      shard.retired = true → (empty.run (moves ++ more)).store.shards[n]? = some shard) ∧
    ∀ i r turn, (empty.run moves).At i (.register r) turn →
      (∃ partner, Paid (moments moves) r.camera i partner) ∧
      passes moves i ≤ detachments moves r.camera i + 1 ∧
      ((∀ j turn', (empty.run moves).At j (.clear r.camera) turn' → Precedes moves j i ∨ Precedes moves i j) →
        passes moves i ≤ 1 ∧
        ∀ k a, Key.ofRaw r.camera r.number = .ok k → turn = .done a → passes moves i = 1) := by
  refine ⟨inOrder_run moves, fun n shard more hn hr => ?_, fun i r turn hi => ?_⟩
  · obtain rfl := (tended_run moves).spent n shard hn hr
    exact spent_run moves more hn
  · obtain ⟨partner, hpaid⟩ := exists_paid hi
    have hle := hpaid.refusals_le
    have hpasses := passes_le hi
    refine ⟨⟨partner, hpaid⟩, by omega, fun hapart => ?_⟩
    rw [detachments_of_apart hapart] at hle
    refine ⟨by omega, ?_⟩
    rintro k a hk rfl
    rw [passes_eq hk hi]
    show refusals moves i + 1 = 1
    omega

/-- A report is about to enter its shard when the camera is cleared. -/
def racing : List (Move String) :=
  [.ask (.register ⟨"north", 1, "a"⟩), .go 0, .go 0, .ask (.clear "north"), .go 1, .go 1, .go 0, .go 0, .go 0, .go 0]

/-- The camera is cleared, and then the report is made. -/
def inTurn : List (Move String) :=
  [.ask (.clear "north"), .go 0, .ask (.register ⟨"north", 1, "a"⟩), .go 1, .go 1, .go 1]

theorem passes_bounded_racing :
    ((empty.run racing).At 0 (.register ⟨"north", 1, "a"⟩) (.done .done) ∧ passes racing 0 = 2 ∧
      detachments racing "north" 0 = 1 ∧ passes racing 0 ≤ detachments racing "north" 0 + 1 ∧
      ∃ partner, Paid (moments racing) "north" 0 partner) ∧
    (∀ more, (empty.run (racing ++ more)).store.shards[0]? = some .spent) ∧
    (empty.run inTurn).At 1 (.register ⟨"north", 1, "a"⟩) (.done .done) ∧ passes inTurn 1 = 1 := by
  have hracing : (empty.run racing).At 0 (.register ⟨"north", 1, "a"⟩) (.done .done) := rfl
  have hspent : (empty.run racing).store.shards[0]? = some .spent := rfl
  have hinTurn : (empty.run inTurn).At 1 (.register ⟨"north", 1, "a"⟩) (.done .done) := rfl
  have hapart : ∀ j turn, (empty.run inTurn).At j (.clear "north") turn →
      Precedes inTurn j 1 ∨ Precedes inTurn 1 j := by
    intro j turn hj
    have hlt : j < 2 := hj.lt_length
    obtain rfl | rfl : j = 0 ∨ j = 1 := by omega
    · exact .inl ⟨[.ask (.clear "north"), .go 0], _, rfl, ⟨.clear "north", .done, rfl⟩, Nat.le_refl 1⟩
    · cases (hinTurn.inj hj).1
  obtain ⟨-, hstays, hbound⟩ := passes_bounded racing
  obtain ⟨hpaid, hle, -⟩ := hbound 0 _ _ hracing
  obtain ⟨-, hone⟩ := ((passes_bounded inTurn).2.2 1 _ _ hinTurn).2.2 hapart
  exact ⟨⟨hracing, by decide +kernel, by decide +kernel, hle, hpaid⟩, fun more => hstays 0 _ more hspent rfl,
    hinTurn, hone ⟨⟨"north", by decide⟩, ⟨1⟩⟩ .done rfl rfl⟩

end Crowd

end LiveTracks
