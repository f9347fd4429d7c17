import LiveTracks.Proofs.SharedStore

/-!
# The calls on one camera, one after the other

Calls on one camera have to do with nothing but the shard of that camera (`Store.shardOf_call`). So a list
of such calls can be made on a shard alone (`Shard.Gives`), and it is answered as by a flat store in which
nothing else was ever reported (`Shard.Gives.flat`).
-/

namespace LiveTracks

variable {P : Type}

/-! ### The shard of a camera -/

/-- Makes a call on a store that nobody else uses. -/
def Store.call (s : Store P) (q : Call P) : Store P × Answer P :=
  let (t, a) := (⟨s, [], ⟨0⟩, none, []⟩ : Stack P).call .ascending .byName 0 q
  (t.base, a)

/-- Makes a call on a shard that nobody else uses. A clearing leaves the shard that the camera will have
next. -/
def Shard.call (s : Shard P) : Call P → Shard P × Answer P
  | .clear _ => (.fresh, .done)
  | q => (s.serve q).getD (s, .done)

theorem Store.agrees_call {s : Store P} {m : FlatStore P} (h : s.Agrees m) (q : Call P) :
    (s.call q).2.flat = (m.call q).2 ∧ (s.call q).1.Agrees (m.call q).1 :=
  Stack.agrees_call (s := ⟨s, [], ⟨0⟩, none, []⟩) h .ascending .byName q

namespace Store

def shardOf (s : Store P) (camera : String) : Shard P :=
  ((CameraId.ofString? camera).bind (s.shards[·]?)).getD .fresh

theorem get?_shardOf (s : Store P) (camera : String) (t : TrackId) :
    (s.shardOf camera).get? t = (CameraId.ofString? camera).bind fun c => s.find? ⟨c, t⟩ := by
  unfold shardOf find?
  cases CameraId.ofString? camera with
  | none => simp
  | some c => cases hs : s.shards[c]? <;> simp [hs]

theorem get?_eq_bind_shardOf (s : Store P) (camera : String) (number : Int64) :
    s.get? camera number = (TrackId.ofRaw? number).bind (s.shardOf camera).get? := by
  unfold get? Key.ofRaw CameraId.ofString TrackId.ofRaw
  cases hn : TrackId.ofRaw? number with
  | none => cases CameraId.ofString? camera <;> rfl
  | some t =>
    rw [Option.bind_some, get?_shardOf]
    cases CameraId.ofString? camera <;> rfl

theorem retired_shardOf (s : Store P) (camera : String) : (s.shardOf camera).retired = false := by
  unfold shardOf
  cases CameraId.ofString? camera with
  | none => rfl
  | some c =>
    cases hs : s.shards[c]? with
    | none => simp [hs]
    | some shard => simp [hs, (s.serves c shard hs).live]

theorem entries_shardOf (s : Store P) (camera : String) :
    (s.shardOf camera).entries = s.getByCamera camera := by
  have hf : (Shard.fresh : Shard P).entries = [] := by simp [Shard.entries, Shard.fresh]
  unfold shardOf getByCamera entriesOf
  cases CameraId.ofString? camera with
  | none => exact hf
  | some c => cases hs : s.shards[c]? <;> simp [hs, hf]

theorem size_shardOf (s : Store P) (camera : String) : (s.shardOf camera).size = s.count camera := by
  rw [count_eq_length, ← entries_shardOf, Shard.length_entries]

theorem shardOf_eq_iff {s : Store P} {camera : String} {shard : Shard P}
    (hr : shard.retired = false) :
    s.shardOf camera = shard ↔
      ∀ t, shard.get? t = (CameraId.ofString? camera).bind fun c => s.find? ⟨c, t⟩ := by
  constructor
  · rintro rfl
    exact s.get?_shardOf camera
  · intro h
    refine Shard.ext (fun t => ?_) ((s.retired_shardOf camera).trans hr.symm)
    rw [h, get?_shardOf]

theorem shardOf_put {s : Store P} {camera : String} {number : Int64} {k : Key}
    (hk : Key.ofRaw camera number = .ok k) (payload : P) {shard : Shard P}
    (hi : (s.shardOf camera).insert? (k.entry payload) = some shard) :
    (s.put (k.entry payload)).shardOf camera = shard := by
  rw [shardOf_eq_iff (Shard.retired_of_insert? hi).2]
  intro t
  have hc : camera = k.camera.text := (Key.ofRaw_eq_ok_iff.1 hk).1
  rw [Shard.get?_of_insert? hi, get?_shardOf, hc, CameraId.ofString?_text]
  simp only [Option.bind_some, find?_put, Key.key_entry]
  have ht : (⟨k.camera, t⟩ : Key) = k ↔ t = (k.entry payload).track := by
    constructor
    · intro h
      rw [← h]
      rfl
    · rintro rfl
      rfl
  simp only [ht]

theorem shardOf_remove (s : Store P) (camera : String) (number : Int64) :
    (s.remove camera number).shardOf camera =
      ((TrackId.ofRaw? number).map (s.shardOf camera).erase).getD (s.shardOf camera) := by
  have hr : (((TrackId.ofRaw? number).map (s.shardOf camera).erase).getD
      (s.shardOf camera)).retired = false := by
    cases TrackId.ofRaw? number <;> exact s.retired_shardOf camera
  rw [shardOf_eq_iff hr]
  intro t
  cases hc : CameraId.ofString? camera with
  | none =>
    cases TrackId.ofRaw? number <;> simp [Shard.get?_erase, get?_shardOf, hc]
  | some c =>
    have ht : camera = c.text := CameraId.ofString?_eq_some_iff.1 hc
    cases hn : TrackId.ofRaw? number with
    | none => simp [get?_shardOf, hc, find?_remove, hn]
    | some t' => simp [Shard.get?_erase, get?_shardOf, find?_remove, hn, ht, eq_comm]

theorem shardOf_clear (s : Store P) (camera : String) :
    (s.clear camera).1.shardOf camera = .fresh := by
  rw [shardOf_eq_iff Shard.retired_fresh]
  intro t
  cases hc : CameraId.ofString? camera with
  | none => simp
  | some c => simp [find?_clear, CameraId.ofString?_eq_some_iff.1 hc]

/-- What a call does to the shard of its camera, and its answer, can be seen from that shard alone. -/
theorem shardOf_call (s : Store P) {q : Call P} {camera : String} (h : q.camera? = some camera) :
    (s.shardOf camera).call q = ((s.call q).1.shardOf camera, (s.call q).2) := by
  cases q with
  | register r =>
    obtain ⟨camera, number, payload⟩ := r
    cases h
    cases hk : Key.ofRaw camera number with
    | error e => simp [Shard.call, Shard.serve, call, Stack.call, Stack.registerAt_of_error, hk,
        Stack.logs]
    | ok k =>
      have hi : (s.shardOf camera).insert? (k.entry payload) ≠ none := by
        rw [ne_eq, Shard.insert?_eq_none_iff, retired_shardOf]
        exact Bool.false_ne_true
      obtain ⟨shard, hi⟩ := Option.ne_none_iff_exists'.1 hi
      have hp := shardOf_put hk payload hi
      have hr := Stack.registerAt_of_ok (r := ⟨camera, number, payload⟩) hk
      simp only [Shard.call, Shard.serve, call, Stack.call, hr, hk, hi, Option.map_some, Option.getD_some]
      exact Prod.ext hp.symm rfl
  | get camera number =>
    cases h
    simp [Shard.call, Shard.serve, call, Stack.call, Stack.get?, get?_eq_bind_shardOf]
  | getByCamera camera =>
    cases h
    simp [Shard.call, Shard.serve, call, Stack.call, Stack.getByCamera, entries_shardOf]
  | remove camera number =>
    cases h
    simp [Shard.call, Shard.serve, call, Stack.call, Stack.removeAt, Stack.fireAbove, shardOf_remove]
  | clear camera =>
    cases h
    simp [Shard.call, call, Stack.call, Stack.clearAt, Stack.fireAbove, Stack.logs, shardOf_clear]
  | count camera =>
    cases h
    simp [Shard.call, Shard.serve, call, Stack.call, Stack.count, size_shardOf]
  | census => cases h
  | sweep => cases h
  | sweepPart => cases h
  | setClock => cases h
  | arm => cases h

end Store

/-! ### Calls in a shard -/

namespace Shard

variable {s : Shard P} {q : Call P} {camera : String}

theorem call_of_serve {s' : Shard P} {a : Answer P} (hq : q ≠ .clear camera)
    (hc : q.camera? = some camera) (h : s.serve q = some (s', a)) : s.call q = (s', a) := by
  cases q with
  | clear camera' =>
    cases hc
    exact absurd rfl hq
  | _ => simp [call, h]

theorem serve_of_live (hr : s.retired = false) (q : Call P) : ∃ s' a, s.serve q = some (s', a) := by
  cases q with
  | register r =>
    cases hk : Key.ofRaw r.camera r.number with
    | error e => simp [serve, hk]
    | ok k =>
      have hi : s.insert? (k.entry r.payload) ≠ none := by
        rw [ne_eq, insert?_eq_none_iff, hr]
        exact Bool.false_ne_true
      obtain ⟨s', hi⟩ := Option.ne_none_iff_exists'.1 hi
      simp [serve, hk, hi]
  | _ => simp [serve]

theorem retired_call (hr : s.retired = false) (q : Call P) : (s.call q).1.retired = false := by
  cases q with
  | register r =>
    obtain ⟨s', a, h⟩ := serve_of_live hr (.register r)
    simp only [call, h, Option.getD_some]
    cases hk : Key.ofRaw r.camera r.number with
    | error e =>
      simp only [serve, hk, Option.some.injEq, Prod.mk.injEq] at h
      rw [← h.1]
      exact hr
    | ok k =>
      simp only [serve, hk, Option.map_eq_some_iff] at h
      obtain ⟨x, hx, he⟩ := h
      cases he
      exact (retired_of_insert? hx).2
  | remove camera number => cases hn : TrackId.ofRaw? number <;> simp [call, serve, hn, hr]
  | clear camera => rfl
  | _ => exact hr

/-- What a clearing leaves of the shard that it takes out. -/
def spent : Shard P := ⟨∅, true⟩

theorem erase_of_empty (h : ∀ t, s.get? t = none) (t : TrackId) : s.erase t = s := by
  refine Shard.ext (fun t' => ?_) rfl
  rw [get?_erase, h t', ite_self]

theorem get?_spent (t : TrackId) : (spent : Shard P).get? t = none := get?_retire fresh t

/-- A spent shard is left as it is, and what it answers is what a fresh one would answer. -/
theorem serve_of_spent {s' : Shard P} {a : Answer P} (hq : q ≠ .clear camera)
    (hc : q.camera? = some camera) (h : (spent : Shard P).serve q = some (s', a)) :
    s' = spent ∧ (fresh : Shard P).call q = (fresh, a) := by
  cases q with
  | register r =>
    cases hk : Key.ofRaw r.camera r.number with
    | error e =>
      simp only [serve, hk, Option.some.injEq, Prod.mk.injEq] at h
      obtain ⟨rfl, rfl⟩ := h
      simp [call, serve, hk]
    | ok k => simp [serve, hk, insert?, spent] at h
  | remove camera number =>
    simp only [serve, Option.some.injEq, Prod.mk.injEq] at h
    obtain ⟨rfl, rfl⟩ := h
    cases hn : TrackId.ofRaw? number <;>
      simp [call, serve, hn, erase_of_empty get?_spent, erase_of_empty get?_fresh]
  | clear camera' =>
    cases hc
    exact absurd rfl hq
  | get | getByCamera | count | census | sweep | sweepPart | setClock | arm =>
    simp only [serve, Option.some.injEq, Prod.mk.injEq] at h
    obtain ⟨rfl, rfl⟩ := h
    exact ⟨rfl, rfl⟩

end Shard

/-! ### Lists of calls -/

/-- A call that has its place in an order, with the caller who makes it and the answer it has there. -/
structure Placed (P : Type) where
  caller : Nat
  call : Call P
  answer : Answer P

namespace Shard

def after (s : Shard P) (order : List (Placed P)) : Shard P :=
  order.foldl (fun s o => (s.call o.call).1) s

/-- Every call is answered as it says. -/
def Gives (s : Shard P) : List (Placed P) → Prop
  | [] => True
  | o :: order => (s.call o.call).2 = o.answer ∧ (s.call o.call).1.Gives order

@[simp] theorem after_nil (s : Shard P) : s.after [] = s := rfl

@[simp] theorem after_cons (s : Shard P) (o : Placed P) (order : List (Placed P)) :
    s.after (o :: order) = (s.call o.call).1.after order := rfl

theorem after_append (s : Shard P) (a b : List (Placed P)) :
    s.after (a ++ b) = (s.after a).after b := List.foldl_append

theorem gives_append {s : Shard P} {a b : List (Placed P)} :
    s.Gives (a ++ b) ↔ s.Gives a ∧ (s.after a).Gives b := by
  induction a generalizing s with
  | nil => simp [Gives]
  | cons o a ih => simp only [List.cons_append, Gives, ih, after_cons, and_assoc]

theorem retired_after {s : Shard P} (hr : s.retired = false) (order : List (Placed P)) :
    (s.after order).retired = false := by
  induction order generalizing s with
  | nil => exact hr
  | cons o order ih => exact ih (retired_call hr o.call)

theorem after_clear {camera : String} {o : Placed P} (ho : o.call = .clear camera) (s s' : Shard P)
    (order : List (Placed P)) : s.after (o :: order) = s'.after (o :: order) := by
  simp [ho, call]

theorem gives_clear {camera : String} {o : Placed P} (ho : o.call = .clear camera) (s s' : Shard P)
    {order : List (Placed P)} : s.Gives (o :: order) ↔ s'.Gives (o :: order) := by
  simp [ho, call, Gives]

end Shard

def FlatStore.run (m : FlatStore P) (calls : List (Call P)) : FlatStore P :=
  calls.foldl (fun m q => (m.call q).1) m

theorem Store.Agrees.of_gives {s : Store P} {m : FlatStore P} (h : s.Agrees m) {camera : String}
    {order : List (Placed P)} (ho : ∀ o ∈ order, o.call.camera? = some camera)
    (hg : (s.shardOf camera).Gives order) :
    order.map (·.answer.flat) = m.answers (order.map (·.call)) ∧
      ∃ s' : Store P, s'.Agrees (m.run (order.map (·.call))) ∧
        s'.shardOf camera = (s.shardOf camera).after order := by
  induction order generalizing s m with
  | nil => exact ⟨rfl, s, h, rfl⟩
  | cons o order ih =>
    obtain ⟨ha, hrest⟩ := hg
    obtain ⟨hflat, hagrees⟩ := Store.agrees_call h o.call
    have hcall := s.shardOf_call (ho o (List.mem_cons_self ..))
    rw [hcall] at ha hrest
    obtain ⟨htail, hend⟩ := ih hagrees (fun o' h' => ho o' (List.mem_cons_of_mem _ h')) hrest
    refine ⟨?_, ?_⟩
    · rw [List.map_cons, List.map_cons, FlatStore.answers, htail, ← hflat, ha]
    · rw [Shard.after_cons, hcall]
      exact hend

theorem Shard.shardOf_empty (camera : String) : (∅ : Store P).shardOf camera = .fresh := by
  rw [Store.shardOf_eq_iff retired_fresh]
  intro t
  cases CameraId.ofString? camera <;> simp

/-- Calls on one camera that a fresh shard answers as they say are answered so by the flat store. -/
theorem Shard.Gives.flat {camera : String} {order : List (Placed P)}
    (hg : (fresh : Shard P).Gives order) (ho : ∀ o ∈ order, o.call.camera? = some camera) :
    order.map (·.answer.flat) = FlatStore.answers ∅ (order.map (·.call)) := by
  rw [← shardOf_empty camera] at hg
  exact (Store.Agrees.empty.of_gives ho hg).1

theorem Shard.Gives.flat_call {camera : String} {order : List (Placed P)}
    (hg : (fresh : Shard P).Gives order) (ho : ∀ o ∈ order, o.call.camera? = some camera)
    {q : Call P} (hq : q.camera? = some camera) :
    ((fresh.after order).call q).2.flat = (((∅ : FlatStore P).run (order.map (·.call))).call q).2 := by
  rw [← shardOf_empty camera] at hg
  obtain ⟨s, hs, hshard⟩ := (Store.Agrees.empty.of_gives ho hg).2
  rw [← shardOf_empty camera, ← hshard, s.shardOf_call hq]
  exact (Store.agrees_call hs q).1

/-- And what they leave in the shard is what they leave in the flat store. -/
theorem Shard.Gives.lookup {camera : String} {order : List (Placed P)}
    (hg : (fresh : Shard P).Gives order) (ho : ∀ o ∈ order, o.call.camera? = some camera)
    (number : Int64) :
    ((TrackId.ofRaw? number).bind ((fresh : Shard P).after order).get?).map (·.payload) =
      (((∅ : FlatStore P).run (order.map (·.call))).tracks camera).lookup number := by
  rw [← shardOf_empty camera] at hg
  obtain ⟨s, hs, hshard⟩ := (Store.Agrees.empty.of_gives ho hg).2
  rw [← shardOf_empty camera, ← hshard, ← Store.get?_eq_bind_shardOf]
  exact hs.payload camera number

end LiveTracks
