import LiveTracks.Proofs.Linearization

/-!
# Shards that are taken out

A clearing first takes the shard of its camera out, so that nobody finds it any more, and only then retires it. So a
shard that serves a camera is never retired, and a retired one is empty for good (`Crowd.Tended`). Whatever a shard
holds, in use or not, belongs to the one camera that it was made for.
-/

namespace LiveTracks

variable {P : Type}

/-! ### One shard -/

namespace Shard

variable {s s' : Shard P} {q : Call P} {a : Answer P}

/-- The ways in which a call can leave the shard that it goes into. -/
theorem serve_cases (h : s.serve q = some (s', a)) :
    s' = s ∨
      (∃ r k, q = .register r ∧ Key.ofRaw r.camera r.number = .ok k ∧ s.insert? (k.entry r.payload) = some s') ∨
      (∃ t, s' = s.erase t) ∨
      ∃ camera, q = .clear camera ∧ s' = .spent := by
  cases q with
  | register r =>
    cases hk : Key.ofRaw r.camera r.number with
    | error e =>
      simp only [serve, hk, Option.some.injEq, Prod.mk.injEq] at h
      exact .inl h.1.symm
    | ok k =>
      simp only [serve, hk, Option.map_eq_some_iff] at h
      obtain ⟨taken, htaken, he⟩ := h
      cases he
      exact .inr (.inl ⟨r, k, rfl, hk, htaken⟩)
  | remove camera number =>
    simp only [serve, Option.some.injEq, Prod.mk.injEq] at h
    cases hn : TrackId.ofRaw? number with
    | none =>
      rw [hn] at h
      exact .inl h.1.symm
    | some t =>
      rw [hn] at h
      exact .inr (.inr (.inl ⟨t, h.1.symm⟩))
  | clear camera =>
    simp only [serve, Option.some.injEq, Prod.mk.injEq] at h
    exact .inr (.inr (.inr ⟨camera, rfl, h.1.symm⟩))
  | get | getByCamera | count | census | sweep | sweepPart | setClock | arm =>
    simp only [serve, Option.some.injEq, Prod.mk.injEq] at h
    exact .inl h.1.symm

theorem retired_of_serve (h : s.serve q = some (s', a)) (hr : s'.retired = true) :
    s.retired = true ∨ ∃ camera, q = .clear camera ∧ s' = .spent := by
  rcases serve_cases h with rfl | ⟨r, k, -, -, hi⟩ | ⟨t, rfl⟩ | hclear
  · exact .inl hr
  · rw [(retired_of_insert? hi).2] at hr
    cases hr
  · exact .inl hr
  · exact .inr hclear

theorem spent_of_serve (h : (spent : Shard P).serve q = some (s', a)) : s' = spent := by
  rcases serve_cases h with rfl | ⟨r, k, -, -, hi⟩ | ⟨t, rfl⟩ | ⟨camera, -, rfl⟩
  · rfl
  · cases (retired_of_insert? hi).1
  · exact erase_of_empty get?_spent t
  · rfl

/-- What a shard holds after a call was there before, or it is what the call reports. -/
theorem get?_of_serve (h : s.serve q = some (s', a)) {t : TrackId} {e : Entry P} (he : s'.get? t = some e) :
    s.get? t = some e ∨
      ∃ r k, q = .register r ∧ Key.ofRaw r.camera r.number = .ok k ∧ e = k.entry r.payload ∧ t = k.track := by
  rcases serve_cases h with rfl | ⟨r, k, hq, hk, hi⟩ | ⟨t', rfl⟩ | ⟨camera, -, rfl⟩
  · exact .inl he
  · rw [get?_of_insert? hi] at he
    split at he
    · rename_i ht
      cases he
      exact .inr ⟨r, k, hq, hk, rfl, ht⟩
    · exact .inl he
  · rw [get?_erase] at he
    split at he
    · cases he
    · exact .inl he
  · rw [get?_spent] at he
    cases he

end Shard

/-! ### One lock -/

namespace SharedStore

variable {s : SharedStore P} {q : Call P} {turn : Turn P} {n : Nat}

theorem shards_look (s : SharedStore P) (q : Call P) : (s.look q).1.shards = s.shards := by
  cases hq : q.camera? with
  | some camera => exact (s.looks hq).shards
  | none => rw [(s.look_of_none hq).1]

/-- Nobody goes from one shard to the next. -/
theorem advance_enter_ne (s : SharedStore P) (q : Call P) (m n : Nat) : (s.advance q (.enter m)).2 ≠ .enter n := by
  simp only [advance]
  split
  · simp
  · split <;> simp

/-- Where a shard comes from: it was there before, it is new, or the call has gone into it. -/
theorem shards_advance {shard' : Shard P} (h : (s.advance q turn).1.shards[n]? = some shard') :
    s.shards[n]? = some shard' ∨
      (n = s.shards.length ∧ shard' = .fresh ∧ ∃ c, turn = .make c) ∨
      ∃ shard a, turn = .enter n ∧ s.shards[n]? = some shard ∧ shard.serve q = some (shard', a) := by
  cases turn with
  | look =>
    rw [advance, shards_look] at h
    exact .inl h
  | make c =>
    simp only [advance, make] at h
    split at h
    · exact .inl h
    · rcases getElem?_concat_cases h with h | ⟨hn, he⟩
      · exact .inl h
      · exact .inr (.inl ⟨hn, he, c, rfl⟩)
  | enter m =>
    cases hm : s.shards[m]? with
    | none =>
      simp only [advance, hm] at h
      exact .inl h
    | some shard =>
      cases hserve : shard.serve q with
      | none =>
        simp only [advance, hm, hserve] at h
        exact .inl h
      | some x =>
        simp only [advance, hm, hserve] at h
        rcases getElem?_set_cases h with ⟨rfl, rfl⟩ | ⟨-, h⟩
        · exact .inr (.inr ⟨shard, x.2, rfl, hm, hserve⟩)
        · exact .inl h
  | tally rest found => cases rest <;> exact .inl h
  | done a => exact .inl h

end SharedStore

/-! ### All shards -/

namespace Crowd

structure Tended (t : Crowd P) : Prop where
  live : ∀ camera n shard, t.store.shard? camera = some n → t.store.shards[n]? = some shard →
    shard.retired = false
  spent : ∀ (n : Nat) (shard : Shard P), t.store.shards[n]? = some shard → shard.retired = true → shard = .spent
  out : ∀ i camera n, t.At i (.clear camera) (.enter n) → ∀ camera', t.store.shard? camera' ≠ some n
  placed : ∀ (n : Nat) (shard : Shard P), t.store.shards[n]? = some shard →
    ∃ c : CameraId, (∀ camera, t.Refers camera n → camera = c.text) ∧
      ∀ track e, shard.get? track = some e → e.camera = c ∧ e.track = track

theorem tended_empty : (empty : Crowd P).Tended where
  live camera n shard _ h := by cases h
  spent n shard h := by cases h
  out i camera n h := nomatch h
  placed n shard h := by cases h

section Step

variable {t : Crowd P} {i : Nat} {q : Call P} {turn : Turn P}

theorem Wired.lt_of_getElem? {n : Nat} {shard : Shard P} (h : t.store.shards[n]? = some shard) :
    n < t.store.shards.length := (List.getElem?_eq_some_iff.1 h).1

theorem Tended.ask (h : t.Tended) (q : Call P) : (t.step (.ask q)).Tended where
  live := h.live
  spent := h.spent
  out j camera n hj := h.out j camera n ((at_ask.1 hj).resolve_right fun hh => nomatch hh.2.2)
  placed n shard hn := by
    obtain ⟨c, hc, hplaced⟩ := h.placed n shard hn
    refine ⟨c, fun camera hrefers => hc camera ?_, hplaced⟩
    rcases hrefers with hs | ⟨j, q', hj, hq⟩
    · exact .inl hs
    · exact .inr ⟨j, q', (at_ask.1 hj).resolve_right (fun hh => nomatch hh.2.2), hq⟩

theorem Tended.live_turned (h : t.Tended) (w : t.Wired) (hi : t.At i q turn) {camera : String} {n : Nat}
    {shard' : Shard P} (hs : (t.store.advance q turn).1.shard? camera = some n)
    (hn : (t.store.advance q turn).1.shards[n]? = some shard') : shard'.retired = false := by
  have hold : n < t.store.shards.length → t.store.shard? camera = some n := fun hlt =>
    ((w.advances hi).shard? camera n hs).resolve_right fun hh => by omega
  rcases SharedStore.shards_advance hn with hn | ⟨-, rfl, -⟩ | ⟨shard, a, rfl, hn, hserve⟩
  · exact h.live camera n shard' (hold (Wired.lt_of_getElem? hn)) hn
  · rfl
  · have hserving := hold (Wired.lt_of_getElem? hn)
    by_contra hretired
    rcases Shard.retired_of_serve hserve (by simpa using hretired) with hr | ⟨camera', rfl, -⟩
    · rw [h.live camera n shard hserving hn] at hr
      cases hr
    · exact h.out i camera' n hi camera hserving

theorem Tended.spent_turned (h : t.Tended) {n : Nat} {shard' : Shard P}
    (hn : (t.store.advance q turn).1.shards[n]? = some shard') (hr : shard'.retired = true) :
    shard' = .spent := by
  rcases SharedStore.shards_advance hn with hn | ⟨-, rfl, -⟩ | ⟨shard, a, -, hn, hserve⟩
  · exact h.spent n shard' hn hr
  · cases hr
  · rcases Shard.retired_of_serve hserve hr with hretired | ⟨camera, -, hspent⟩
    · rw [h.spent n shard hn hretired] at hserve
      exact Shard.spent_of_serve hserve
    · exact hspent

/-- A clearing leaves the map before it goes into the shard, and no other camera has that shard. -/
theorem Tended.out_look (w : t.Wired) {camera : String} {n : Nat}
    (hturn : (t.store.look (.clear camera)).2 = .enter n) (camera' : String) :
    (t.store.look (.clear camera)).1.shard? camera' ≠ some n := by
  have hl := t.store.looks (q := .clear camera) rfl
  generalize t.store.look (.clear camera) = r at hl hturn
  cases hl with
  | answered | absent | creates => cases hturn
  | enters m hs hne => exact absurd rfl hne
  | clears m hs hq =>
    cases hturn
    intro hs'
    rw [SharedStore.shard?_detach] at hs'
    split at hs'
    · cases hs'
    · rename_i hne
      exact hne (w.own camera' camera n (.inl hs') (.inl hs))

theorem Tended.out_turned (h : t.Tended) (w : t.Wired) (hi : t.At i q turn) {j : Nat} {camera : String} {n : Nat}
    (hj : (t.turned i q (t.store.advance q turn)).At j (.clear camera) (.enter n)) (camera' : String) :
    (t.store.advance q turn).1.shard? camera' ≠ some n := by
  rcases (at_turned hi).1 hj with ⟨-, rfl, hturn⟩ | ⟨-, hj⟩
  · cases turn with
    | look => exact Tended.out_look w hturn.symm camera'
    | make c => exact absurd (Option.some.inj (w.make i _ c hi).1 ▸ rfl) (w.make i _ c hi).2
    | enter m => exact absurd hturn.symm (t.store.advance_enter_ne _ m n)
    | tally rest found => cases w.tally i _ rest found hi
    | done a => cases hturn
  · intro hs
    rcases (w.advances hi).shard? camera' n hs with hs | ⟨-, hn, -⟩
    · exact h.out j camera n hj camera' hs
    · have hlt := w.bound camera n (.inr ⟨j, _, hj, rfl⟩)
      omega

theorem Tended.placed_turned (h : t.Tended) (w : t.Wired) (hi : t.At i q turn) {n : Nat} {shard' : Shard P}
    (hn : (t.store.advance q turn).1.shards[n]? = some shard') :
    ∃ c : CameraId, (∀ camera, (t.turned i q (t.store.advance q turn)).Refers camera n → camera = c.text) ∧
      ∀ track e, shard'.get? track = some e → e.camera = c ∧ e.track = track := by
  have hrefers : n < t.store.shards.length → ∀ camera,
      (t.turned i q (t.store.advance q turn)).Refers camera n → t.Refers camera n := fun hlt camera hr =>
    ((w.advances hi).refers hi hr).resolve_right fun hh => by omega
  rcases SharedStore.shards_advance hn with hn | ⟨hlen, rfl, c, rfl⟩ | ⟨shard, a, rfl, hn, hserve⟩
  · obtain ⟨c, hc, hplaced⟩ := h.placed n shard' hn
    exact ⟨c, fun camera hr => hc camera (hrefers (Wired.lt_of_getElem? hn) camera hr), hplaced⟩
  · -- nobody but the caller who has made it knows of a new shard
    refine ⟨c, fun camera hr => ?_, fun track e he => ?_⟩
    · rcases (w.advances hi).refers hi hr with hold | ⟨hq, -, -⟩
      · have hlt := w.bound camera n hold
        omega
      · exact Option.some.inj (hq.symm.trans (w.make i q c hi).1)
    · rw [Shard.get?_fresh] at he
      cases he
  · obtain ⟨c, hc, hplaced⟩ := h.placed n shard hn
    refine ⟨c, fun camera hr => hc camera (hrefers (Wired.lt_of_getElem? hn) camera hr), fun track e he => ?_⟩
    rcases Shard.get?_of_serve hserve he with hold | ⟨r, k, rfl, hk, rfl, rfl⟩
    · exact hplaced track e hold
    · have hcamera : r.camera = c.text := hc r.camera (.inr ⟨i, _, hi, rfl⟩)
      exact ⟨CameraId.ext ((Key.ofRaw_eq_ok_iff.1 hk).1.symm.trans hcamera), rfl⟩

theorem Tended.step (h : t.Tended) (w : t.Wired) (m : Move P) : (t.step m).Tended := by
  cases m with
  | ask q => exact h.ask q
  | go i =>
    rcases t.step_go_cases i with he | ⟨q, turn, hi, -, he⟩ <;> rw [he]
    · exact h
    · exact {
        live := fun camera n shard => h.live_turned w hi
        spent := fun n shard => h.spent_turned
        out := fun j camera n hj => h.out_turned w hi hj
        placed := fun n shard => h.placed_turned w hi }

/-- A spent shard stays where it is, and stays spent. -/
theorem spent_step (w : t.Wired) {n : Nat} (h : t.store.shards[n]? = some .spent) (m : Move P) :
    (t.step m).store.shards[n]? = some .spent := by
  cases m with
  | ask q => exact h
  | go i =>
    rcases t.step_go_cases i with he | ⟨q, turn, hi, -, he⟩ <;> rw [he]
    · exact h
    have hlt : n < t.store.shards.length := Wired.lt_of_getElem? h
    have hthere : n < (t.store.advance q turn).1.shards.length := Nat.lt_of_lt_of_le hlt (w.advances hi).grows
    have hn := List.getElem?_eq_getElem hthere
    show (t.store.advance q turn).1.shards[n]? = some .spent
    rw [hn]
    rcases SharedStore.shards_advance hn with hs | ⟨hlen, -, -⟩ | ⟨shard, a, -, hs, hserve⟩
    · exact hs.symm.trans h
    · omega
    · cases hs.symm.trans h
      exact congrArg some (Shard.spent_of_serve hserve)

end Step

theorem tended_run (moves : List (Move P)) : (empty.run moves).Tended := by
  induction moves using List.reverseRecOn with
  | nil => exact tended_empty
  | append_singleton moves m ih =>
    rw [run_append]
    exact ih.step (wired_run moves) m

theorem spent_run (moves more : List (Move P)) {n : Nat} (h : (empty.run moves).store.shards[n]? = some .spent) :
    (empty.run (moves ++ more)).store.shards[n]? = some .spent := by
  induction more using List.reverseRecOn with
  | nil => rwa [List.append_nil]
  | append_singleton more m ih =>
    rw [← List.append_assoc, run_append]
    exact spent_step (wired_run (moves ++ more)) ih m

end Crowd

end LiveTracks
