import LiveTracks.Proofs.CameraCalls

/-!
# Callers of a shared store

What one caller does when it takes its next lock: how it goes on when it has looked for the shard of its
camera (`SharedStore.Looks`), and to which shards it can get at all (`Crowd.Refers`). No two cameras ever
have a shard in common (`Crowd.Wired`).
-/

namespace LiveTracks

variable {P : Type}

/-! ### Callers -/

namespace Crowd

def At (t : Crowd P) (i : Nat) (q : Call P) (turn : Turn P) : Prop :=
  t.callers[i]? = some ⟨q, turn⟩

def Answered (t : Crowd P) (i : Nat) : Prop := ∃ q a, t.At i q (.done a)

theorem run_append (t : Crowd P) (a b : List (Move P)) : t.run (a ++ b) = (t.run a).run b :=
  List.foldl_append

def turned (t : Crowd P) (i : Nat) (q : Call P) (r : SharedStore P × Turn P) : Crowd P :=
  ⟨r.1, t.callers.set i ⟨q, r.2⟩⟩

section

variable {t : Crowd P} {i j : Nat} {q q' : Call P} {turn turn' : Turn P}

theorem At.lt_length (h : t.At i q turn) : i < t.callers.length :=
  (List.getElem?_eq_some_iff.1 h).1

theorem At.inj (h : t.At i q turn) (h' : t.At i q' turn') : q' = q ∧ turn' = turn := by
  cases h.symm.trans h'
  exact ⟨rfl, rfl⟩

theorem step_go (h : t.At i q turn) : t.step (.go i) = t.turned i q (t.store.advance q turn) := by
  unfold At at h
  simp only [step, h, turned]

theorem at_turned (h : t.At i q turn) {r : SharedStore P × Turn P} :
    (t.turned i q r).At j q' turn' ↔
      (j = i ∧ q' = q ∧ turn' = r.2) ∨ (j ≠ i ∧ t.At j q' turn') := by
  unfold At turned
  by_cases hj : j = i
  · subst hj
    simp [h.lt_length, eq_comm]
  · simp [List.getElem?_set_ne (Ne.symm hj), hj]

theorem at_ask :
    (t.step (.ask q)).At i q' turn ↔
      t.At i q' turn ∨ (i = t.callers.length ∧ q' = q ∧ turn = .look) := by
  unfold At
  simp only [step]
  rcases Nat.lt_trichotomy i t.callers.length with hi | hi | hi
  · rw [List.getElem?_append_left hi]
    simp [Nat.ne_of_lt hi]
  · subst hi
    simp [eq_comm]
  · have hnone : (t.callers ++ [⟨q, .look⟩])[i]? = none :=
      List.getElem?_eq_none (by rw [List.length_append]; exact hi)
    have hnone' : t.callers[i]? = none := List.getElem?_eq_none (Nat.le_of_lt hi)
    simp [hnone, hnone', Nat.ne_of_gt hi]

/-- A caller that does not exist cannot go on, and one with an answer is not moved any more. -/
theorem step_go_cases (t : Crowd P) (i : Nat) :
    t.step (.go i) = t ∨ ∃ q turn, t.At i q turn ∧ (∀ a, turn ≠ .done a) ∧
      t.step (.go i) = t.turned i q (t.store.advance q turn) := by
  cases hi : t.callers[i]? with
  | none => exact .inl (by simp only [step, hi])
  | some x =>
    obtain ⟨q, turn⟩ := x
    by_cases hd : ∃ a, turn = .done a
    · obtain ⟨a, rfl⟩ := hd
      obtain ⟨hlt, he⟩ := List.getElem?_eq_some_iff.1 hi
      refine .inl ?_
      rw [step_go hi, turned, SharedStore.advance, ← he, List.set_getElem_self]
    · exact .inr ⟨q, turn, hi, fun a ha => hd ⟨a, ha⟩, step_go hi⟩

end

theorem length_step (t : Crowd P) (m : Move P) :
    t.callers.length ≤ (t.step m).callers.length := by
  cases m with
  | ask q => simp [step]
  | go i => cases h : t.callers[i]? <;> simp [step, h]

theorem Answered.step {t : Crowd P} {i : Nat} (h : t.Answered i) (m : Move P) :
    (t.step m).Answered i := by
  obtain ⟨q, a, hi⟩ := h
  cases m with
  | ask q' => exact ⟨q, a, at_ask.2 (.inl hi)⟩
  | go j =>
    rcases t.step_go_cases j with he | ⟨q', turn, hj, hne, he⟩ <;> rw [he]
    · exact ⟨q, a, hi⟩
    · have hij : i ≠ j := by
        rintro rfl
        exact hne a (hj.inj hi).2.symm
      exact ⟨q, a, (at_turned hj).2 (.inr ⟨hij, hi⟩)⟩

theorem Answered.run {t : Crowd P} {i : Nat} (h : t.Answered i) (moves : List (Move P)) :
    (t.run moves).Answered i := by
  induction moves generalizing t with
  | nil => exact h
  | cons m moves ih => exact ih (h.step m)

end Crowd

/-! ### Looking for a shard -/

namespace SharedStore

theorem shard?_text (s : SharedStore P) (c : CameraId) : s.shard? c.text = s.serving[c]? := by
  simp [shard?]

theorem shard?_detach (s : SharedStore P) (camera camera' : String) :
    (s.detach camera).shard? camera' = if camera' = camera then none else s.shard? camera' := by
  unfold detach shard?
  cases hc : CameraId.ofString? camera with
  | none =>
    by_cases h : camera' = camera
    · simp [h, hc]
    · simp [h]
  | some c =>
    cases hc' : CameraId.ofString? camera' with
    | none => simp
    | some c' =>
      have ht := CameraId.ofString?_eq_some_iff.1 hc
      have ht' := CameraId.ofString?_eq_some_iff.1 hc'
      have hcc : compare c c' = .eq ↔ camera' = camera := by
        rw [Std.compare_eq_iff_eq, CameraId.ext_iff, ht, ht', eq_comm]
      simp only [Option.bind_some, Std.ExtTreeMap.getElem?_erase, hcc]

theorem shards_detach (s : SharedStore P) (camera : String) : (s.detach camera).shards = s.shards := by
  unfold detach
  cases CameraId.ofString? camera <;> rfl

theorem detach_of_none {s : SharedStore P} {camera : String} (h : s.shard? camera = none) :
    s.detach camera = s := by
  unfold detach
  cases hc : CameraId.ofString? camera with
  | none => rfl
  | some c =>
    have hn : s.serving[c]? = none := by
      rw [shard?, hc] at h
      exact h
    have he : s.serving.erase c = s.serving := by
      refine Std.ExtTreeMap.ext_getElem? fun c' => ?_
      simp only [Std.ExtTreeMap.getElem?_erase, Std.compare_eq_iff_eq]
      split
      · rename_i hcc
        rw [← hcc, hn]
      · rfl
    simp only [he]

def get? (s : SharedStore P) (camera : String) (number : Int64) : Option (Entry P) :=
  ((s.shard? camera).bind (s.shards[·]?)).bind fun shard => (TrackId.ofRaw? number).bind shard.get?

/-- How a call on a camera goes on when it has looked for the shard of the camera. -/
inductive Looks (s : SharedStore P) (camera : String) (q : Call P) : SharedStore P × Turn P → Prop
  | answered (a : Answer P) :
    (∀ shard : Shard P, shard.retired = false → shard.call q = (shard, a)) → Looks s camera q (s, .done a)
  | absent (a : Answer P) : s.shard? camera = none → (Shard.fresh : Shard P).call q = (.fresh, a) →
    Looks s camera q (s, .done a)
  | creates (c : CameraId) : camera = c.text → s.shard? camera = none → q ≠ .clear camera →
    Looks s camera q (s, .make c)
  | enters (n : Nat) : s.shard? camera = some n → q ≠ .clear camera → Looks s camera q (s, .enter n)
  | clears (n : Nat) : s.shard? camera = some n → q = .clear camera →
    Looks s camera q (s.detach camera, .enter n)

theorem looks_reach (s : SharedStore P) {camera : String} {q : Call P} (hq : q ≠ .clear camera)
    {a : Answer P} (ha : (Shard.fresh : Shard P).call q = (.fresh, a)) :
    Looks s camera q (s, s.reach camera (.done a)) := by
  unfold reach
  cases hs : s.shard? camera with
  | none => exact .absent a hs ha
  | some n => exact .enters n hs hq

theorem looks (s : SharedStore P) {camera : String} {q : Call P} (h : q.camera? = some camera) :
    Looks s camera q (s.look q) := by
  cases q with
  | register r =>
    obtain ⟨camera, number, payload⟩ := r
    cases h
    cases hk : Key.ofRaw camera number with
    | error e =>
      simp only [look, hk]
      exact .answered _ fun shard hr => by simp [Shard.call, Shard.serve, hk]
    | ok k =>
      simp only [look, hk, reach]
      cases hs : s.shard? camera with
      | none => exact .creates k.camera (Key.ofRaw_eq_ok_iff.1 hk).1 hs (by simp)
      | some n => exact .enters n hs (by simp)
  | get camera number =>
    cases h
    cases hn : TrackId.ofRaw? number with
    | none =>
      simp only [look, hn]
      exact .answered _ fun shard hr => by simp [Shard.call, Shard.serve, hn]
    | some t =>
      simp only [look, hn]
      exact s.looks_reach (by simp) (by simp [Shard.call, Shard.serve, hn])
  | getByCamera camera =>
    cases h
    exact s.looks_reach (by simp) rfl
  | remove camera number =>
    cases h
    cases hn : TrackId.ofRaw? number with
    | none =>
      simp only [look, hn]
      exact .answered _ fun shard hr => by simp [Shard.call, Shard.serve, hn]
    | some t =>
      simp only [look, hn]
      exact s.looks_reach (by simp)
        (by simp [Shard.call, Shard.serve, hn, Shard.erase_of_empty Shard.get?_fresh])
  | clear camera =>
    cases h
    simp only [look, reach]
    cases hs : s.shard? camera with
    | none =>
      rw [detach_of_none hs]
      exact .absent _ hs rfl
    | some n => exact .clears n hs rfl
  | count camera =>
    cases h
    exact s.looks_reach (by simp) rfl
  | census => cases h
  | sweep => cases h
  | sweepPart => cases h
  | setClock => cases h
  | arm => cases h

theorem Looks.shards {s : SharedStore P} {camera : String} {q : Call P} {r : SharedStore P × Turn P}
    (h : Looks s camera q r) : r.1.shards = s.shards := by
  cases h with
  | clears n hs hq => exact s.shards_detach camera
  | _ => rfl

theorem Looks.shard?_of_ne {s : SharedStore P} {camera camera' : String} {q : Call P}
    {r : SharedStore P × Turn P} (h : Looks s camera q r) (hne : camera' ≠ camera) :
    r.1.shard? camera' = s.shard? camera' := by
  cases h with
  | clears n hs hq => rw [shard?_detach, if_neg hne]
  | _ => rfl

theorem look_of_none (s : SharedStore P) {q : Call P} (h : q.camera? = none) :
    (s.look q).1 = s ∧
      ((∃ a, (s.look q).2 = .done a) ∨ ∃ rest found, (s.look q).2 = .tally rest found) := by
  cases q with
  | census => exact ⟨rfl, .inr ⟨_, _, rfl⟩⟩
  | sweep | sweepPart | setClock | arm => exact ⟨rfl, .inl ⟨_, rfl⟩⟩
  | _ => cases h

theorem shard?_make (s : SharedStore P) (c : CameraId) (camera : String) :
    (s.make c).1.shard? camera =
      if camera = c.text then some ((s.serving[c]?).getD s.shards.length) else s.shard? camera := by
  unfold make
  cases hs : s.serving[c]? with
  | some n =>
    by_cases h : camera = c.text
    · simp [h, shard?_text, hs]
    · simp [h]
  | none =>
    unfold shard?
    cases hc : CameraId.ofString? camera with
    | none => simp [CameraId.ofString?_eq_none_iff.1 hc, c.text_ne.symm]
    | some c' =>
      have hcc : compare c c' = .eq ↔ camera = c.text := by
        rw [Std.compare_eq_iff_eq, CameraId.ext_iff, CameraId.ofString?_eq_some_iff.1 hc, eq_comm]
      simp only [Option.bind_some, Std.ExtTreeMap.getElem?_insert, hcc, Option.getD_none]

end SharedStore

namespace Crowd

/-! ### Who refers to a shard -/

/-- Somebody can still get to shard `n` on behalf of the camera. -/
def Refers (t : Crowd P) (camera : String) (n : Nat) : Prop :=
  t.store.shard? camera = some n ∨
    ∃ i q, t.At i q (.enter n) ∧ q.camera? = some camera

/-- No two cameras have a shard in common, and every caller stands where its call leads it. -/
structure Wired (t : Crowd P) : Prop where
  bound : ∀ camera n, t.Refers camera n → n < t.store.shards.length
  own : ∀ camera camera' n, t.Refers camera n → t.Refers camera' n → camera = camera'
  enter : ∀ i q n, t.At i q (.enter n) → ∃ camera, q.camera? = some camera
  make : ∀ i q c, t.At i q (.make c) →
    q.camera? = some c.text ∧ q ≠ .clear c.text
  tally : ∀ i q rest found, t.At i q (.tally rest found) →
    q.camera? = none

theorem wired_empty : (empty : Crowd P).Wired where
  bound camera n h := by
    rcases h with h | ⟨i, q, h, -⟩
    · simp [Crowd.empty, SharedStore.empty, SharedStore.shard?] at h
    · cases h
  own camera camera' n h h' := by
    rcases h with h | ⟨i, q, h, -⟩
    · simp [Crowd.empty, SharedStore.empty, SharedStore.shard?] at h
    · cases h
  enter i q n h := nomatch h
  make i q c h := nomatch h
  tally i q rest found h := nomatch h

/-- What one lock can change: a shard for the camera of the call is a new one or the one that served. -/
structure Advances (s : SharedStore P) (q : Call P) (s' : SharedStore P) (turn' : Turn P) : Prop where
  grows : s.shards.length ≤ s'.shards.length
  shard? : ∀ camera n, s'.shard? camera = some n → s.shard? camera = some n ∨
    (q.camera? = some camera ∧ n = s.shards.length ∧ n < s'.shards.length)
  enter : ∀ n, turn' = .enter n → ∃ camera, q.camera? = some camera ∧
    (s.shard? camera = some n ∨ (n = s.shards.length ∧ n < s'.shards.length))
  make : ∀ c, turn' = .make c → q.camera? = some c.text ∧ q ≠ .clear c.text
  tally : ∀ rest found, turn' = .tally rest found → q.camera? = none

theorem Advances.of_looks {s : SharedStore P} {q : Call P} {camera : String}
    (hq : q.camera? = some camera) {r : SharedStore P × Turn P} (h : s.Looks camera q r) :
    Advances s q r.1 r.2 := by
  have hshard : ∀ camera' n, r.1.shard? camera' = some n → s.shard? camera' = some n := by
    intro camera' n hn
    cases h with
    | clears m hs he =>
      rw [SharedStore.shard?_detach] at hn
      split at hn
      · cases hn
      · exact hn
    | _ => exact hn
  refine ⟨h.shards ▸ Nat.le_refl _, fun camera' n hn => .inl (hshard camera' n hn), ?_, ?_, ?_⟩
  · intro n hn
    cases h with
    | enters m hs he =>
      cases hn
      exact ⟨camera, hq, .inl hs⟩
    | clears m hs he =>
      cases hn
      exact ⟨camera, hq, .inl hs⟩
    | _ => cases hn
  · intro c hc
    cases h with
    | creates c' ht hs he =>
      cases hc
      rw [← ht]
      exact ⟨hq, he⟩
    | _ => cases hc
  · intro rest found ht
    cases h <;> cases ht

theorem Advances.of_same {s s' : SharedStore P} {q : Call P} {turn' : Turn P}
    (hl : s'.shards.length = s.shards.length) (hs : s'.serving = s.serving)
    (ht : turn' = .look ∨ (∃ a, turn' = .done a) ∨
      q.camera? = none ∧ ∃ rest found, turn' = .tally rest found) :
    Advances s q s' turn' := by
  have hshard : ∀ camera n, s'.shard? camera = some n → s.shard? camera = some n := by
    intro camera n hn
    rw [SharedStore.shard?, hs] at hn
    exact hn
  refine ⟨Nat.le_of_eq hl.symm, fun camera n hn => .inl (hshard camera n hn), ?_, ?_, ?_⟩ <;>
    rcases ht with rfl | ⟨a, rfl⟩ | ⟨hq, rest, found, rfl⟩ <;> simp [*]

theorem Advances.of_make {s : SharedStore P} {q : Call P} {c : CameraId}
    (hq : q.camera? = some c.text) : Advances s q (s.make c).1 (s.make c).2 := by
  have hshard := s.shard?_make c
  unfold SharedStore.make at hshard ⊢
  cases hs : s.serving[c]? with
  | some n =>
    refine ⟨Nat.le_refl _, fun _ _ h => .inl h, ?_, by simp, by simp⟩
    intro m hm
    cases hm
    exact ⟨c.text, hq, .inl ((s.shard?_text c).trans hs)⟩
  | none =>
    simp only [hs, Option.getD_none] at hshard
    refine ⟨by simp, ?_, ?_, by simp, by simp⟩
    · intro camera n hn
      rw [hshard] at hn
      split at hn
      · rename_i hcc
        cases hn
        rw [hcc]
        exact .inr ⟨hq, rfl, by simp⟩
      · exact .inl hn
    · intro m hm
      cases hm
      exact ⟨c.text, hq, .inr ⟨rfl, by simp⟩⟩

theorem Wired.advances {t : Crowd P} (h : t.Wired) {i : Nat} {q : Call P} {turn : Turn P}
    (hi : t.At i q turn) :
    Advances t.store q (t.store.advance q turn).1 (t.store.advance q turn).2 := by
  cases turn with
  | look =>
    cases hc : q.camera? with
    | some camera => exact .of_looks hc (t.store.looks hc)
    | none =>
      obtain ⟨hs, ht⟩ := t.store.look_of_none hc
      exact .of_same (congrArg (·.shards.length) hs) (congrArg (·.serving) hs)
        (.inr (ht.imp_right fun ht => ⟨hc, ht⟩))
  | make c => exact .of_make (h.make i q c hi).1
  | enter n =>
    simp only [SharedStore.advance]
    cases hn : t.store.shards[n]? with
    | none => exact .of_same rfl rfl (.inl rfl)
    | some shard =>
      cases hsv : shard.serve q with
      | none =>
        simp only [hsv]
        exact .of_same rfl rfl (.inl rfl)
      | some x =>
        simp only [hsv]
        exact .of_same List.length_set rfl (.inr (.inl ⟨x.2, rfl⟩))
  | tally rest found =>
    have hq := h.tally i q rest found hi
    cases rest with
    | nil => exact .of_same rfl rfl (.inr (.inl ⟨_, rfl⟩))
    | cons x rest => exact .of_same rfl rfl (.inr (.inr ⟨hq, _, _, rfl⟩))
  | done a => exact .of_same rfl rfl (.inr (.inl ⟨a, rfl⟩))

theorem Wired.ask {t : Crowd P} (h : t.Wired) (q : Call P) : (t.step (.ask q)).Wired := by
  have hold : ∀ {i q' turn}, (t.step (.ask q)).At i q' turn → turn ≠ .look → t.At i q' turn :=
    fun hi hne => (at_ask.1 hi).resolve_right fun hh => hne hh.2.2
  have hrefers : ∀ camera n, (t.step (.ask q)).Refers camera n → t.Refers camera n := by
    intro camera n hh
    rcases hh with hs | ⟨i, q', hi, hq⟩
    · exact .inl hs
    · exact .inr ⟨i, q', hold hi (by simp), hq⟩
  exact {
    bound := fun camera n hn => h.bound camera n (hrefers camera n hn)
    own := fun camera camera' n hn hn' =>
      h.own camera camera' n (hrefers camera n hn) (hrefers camera' n hn')
    enter := fun i q' n hi => h.enter i q' n (hold hi (by simp))
    make := fun i q' c hi => h.make i q' c (hold hi (by simp))
    tally := fun i q' rest found hi => h.tally i q' rest found (hold hi (by simp)) }

theorem Advances.refers {t : Crowd P} {i : Nat} {q : Call P} {turn : Turn P}
    {r : SharedStore P × Turn P} (ha : Advances t.store q r.1 r.2) (hi : t.At i q turn)
    {camera : String} {n : Nat} (h : (t.turned i q r).Refers camera n) :
    t.Refers camera n ∨
      (q.camera? = some camera ∧ n = t.store.shards.length ∧ n < r.1.shards.length) := by
  rcases h with hs | ⟨j, q', hj, hq⟩
  · exact (ha.shard? camera n hs).imp_left .inl
  · rcases (at_turned hi).1 hj with ⟨-, rfl, hn⟩ | ⟨-, hj⟩
    · obtain ⟨camera', hq', hn⟩ := ha.enter n hn.symm
      cases hq.symm.trans hq'
      exact hn.imp .inl fun hn => ⟨hq, hn⟩
    · exact .inl (.inr ⟨j, q', hj, hq⟩)

theorem Wired.turned {t : Crowd P} (h : t.Wired) {i : Nat} {q : Call P} {turn : Turn P}
    {r : SharedStore P × Turn P} (ha : Advances t.store q r.1 r.2) (hi : t.At i q turn) :
    (t.turned i q r).Wired where
  bound camera n hn := by
    rcases ha.refers hi hn with hn | ⟨-, -, hn⟩
    · exact Nat.lt_of_lt_of_le (h.bound camera n hn) ha.grows
    · exact hn
  own camera camera' n hn hn' := by
    rcases ha.refers hi hn with hn | ⟨hq, hl, -⟩ <;> rcases ha.refers hi hn' with hn' | ⟨hq', hl', -⟩
    · exact h.own camera camera' n hn hn'
    · exact absurd hl' (Nat.ne_of_lt (h.bound camera n hn))
    · exact absurd hl (Nat.ne_of_lt (h.bound camera' n hn'))
    · exact Option.some.inj (hq.symm.trans hq')
  enter j q' n hj := by
    rcases (at_turned hi).1 hj with ⟨-, rfl, hn⟩ | ⟨-, hj⟩
    · obtain ⟨camera, hq, -⟩ := ha.enter n hn.symm
      exact ⟨camera, hq⟩
    · exact h.enter j q' n hj
  make j q' c hj := by
    rcases (at_turned hi).1 hj with ⟨-, rfl, hc⟩ | ⟨-, hj⟩
    · exact ha.make c hc.symm
    · exact h.make j q' c hj
  tally j q' rest found hj := by
    rcases (at_turned hi).1 hj with ⟨-, rfl, ht⟩ | ⟨-, hj⟩
    · exact ha.tally rest found ht.symm
    · exact h.tally j q' rest found hj

theorem Wired.step {t : Crowd P} (h : t.Wired) (m : Move P) : (t.step m).Wired := by
  cases m with
  | ask q => exact h.ask q
  | go i =>
    rcases t.step_go_cases i with he | ⟨q, turn, hi, -, he⟩ <;> rw [he]
    · exact h
    · exact h.turned (h.advances hi) hi

end Crowd

end LiveTracks
