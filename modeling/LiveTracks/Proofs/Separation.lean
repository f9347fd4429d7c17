import LiveTracks.Proofs.CameraCalls
import LiveTracks.Proofs.Lifetimes

/-!
# Cameras by themselves

Two runs are compared, of which the second leaves out all reports, removals and clearings of other cameras than
one. The two stacks stay the same on that camera (`Stack.SameOn`): its entries, whether it is known, its rows and
its events in the log. So whatever is asked about it is answered the same, and the same of its tracks expire
(`same_without_others`). No order of visits is assumed, so the two runs may visit in different orders.
-/

namespace LiveTracks

variable {P : Type} {camera : String}

/-! ### Stores -/

namespace Store

/-- The same entries on a camera, which is known to both stores or to none. -/
structure SameOn (camera : String) (a b : Store P) : Prop where
  find? : ∀ key : Key, key.camera.text = camera → a.find? key = b.find? key
  knows : ∀ c : CameraId, c.text = camera → a.knows c = b.knows c

variable {a b : Store P}

theorem SameOn.shardOf (h : a.SameOn camera b) : a.shardOf camera = b.shardOf camera := by
  rw [shardOf_eq_iff (b.retired_shardOf camera)]
  intro t
  rw [get?_shardOf]
  cases hc : CameraId.ofString? camera with
  | none => rfl
  | some c => exact (h.find? ⟨c, t⟩ (CameraId.ofString?_eq_some_iff.1 hc).symm).symm

theorem SameOn.get? (h : a.SameOn camera b) (number : Int64) : a.get? camera number = b.get? camera number := by
  rw [get?_eq_bind_shardOf, get?_eq_bind_shardOf, h.shardOf]

theorem SameOn.getByCamera (h : a.SameOn camera b) : a.getByCamera camera = b.getByCamera camera := by
  rw [← entries_shardOf, ← entries_shardOf, h.shardOf]

theorem SameOn.count (h : a.SameOn camera b) : a.count camera = b.count camera := by
  rw [← size_shardOf, ← size_shardOf, h.shardOf]

theorem SameOn.knowsText (h : a.SameOn camera b) : a.knowsText camera = b.knowsText camera := by
  unfold Store.knowsText
  cases hc : CameraId.ofString? camera with
  | none => rfl
  | some c => exact h.knows c (CameraId.ofString?_eq_some_iff.1 hc).symm

theorem SameOn.census (h : a.SameOn camera b) (n : Nat) :
    (camera, n) ∈ a.census.pairs ↔ (camera, n) ∈ b.census.pairs := by
  rw [mem_census, mem_census, h.knowsText, h.count]

theorem SameOn.put (h : a.SameOn camera b) (e : Entry P) : (a.put e).SameOn camera (b.put e) where
  find? key hkey := by rw [find?_put, find?_put, h.find? key hkey]
  knows c hc := by rw [knows_put, knows_put, h.knows c hc]

theorem sameOn_put (s : Store P) {e : Entry P} (he : e.camera.text ≠ camera) : (s.put e).SameOn camera s where
  find? key hkey := by
    rw [find?_put, if_neg]
    rintro rfl
    exact he hkey
  knows c hc := by
    have hne : c ≠ e.camera := by
      rintro rfl
      exact he hc
    rw [knows_put, decide_eq_false hne, Bool.false_or]

theorem SameOn.without (h : a.SameOn camera b) {gone gone' : Key → Bool}
    (hg : ∀ key, key.camera.text = camera → gone key = gone' key) :
    (a.without gone).SameOn camera (b.without gone') where
  find? key hkey := by rw [find?_without, find?_without, h.find? key hkey, hg key hkey]
  knows c hc := by rw [knows_without, knows_without, h.knows c hc]

theorem SameOn.clear (h : a.SameOn camera b) (camera' : String) :
    (a.clear camera').1.SameOn camera (b.clear camera').1 where
  find? key hkey := by rw [find?_clear, find?_clear, h.find? key hkey]
  knows c hc := by rw [knows_clear, knows_clear, h.knows c hc]

theorem sameOn_clear (s : Store P) {camera' : String} (hc : camera' ≠ camera) :
    (s.clear camera').1.SameOn camera s where
  find? key hkey := by rw [find?_clear, if_neg (hkey ▸ hc)]
  knows c hc' := by rw [knows_clear, decide_eq_false (hc' ▸ hc), Bool.not_false, Bool.true_and]

end Store

/-! ### Events -/

def Event.isOn (camera : String) : Event → Bool
  | .created c | .cleared c _ => decide (c.text = camera)
  | .rejected c _ => decide (c = camera)
  | .expired key _ | .finished key _ | .handoverFailed key _ => decide (key.camera.text = camera)
  | .started _ _ _ | .stopped | .workerPanicked | .summary _ => false

def Expired.isOn (camera : String) (x : Expired P) : Bool := decide (x.entry.camera.text = camera)

theorem filter_map_event (found : List (Expired P)) :
    (found.map Expired.event).filter (·.isOn camera) = (found.filter (·.isOn camera)).map Expired.event := by
  rw [List.filter_map]
  rfl

/-! ### Stacks -/

namespace Stack

/-- Two stacks that cannot be told apart by what they do with a camera. -/
structure SameOn (camera : String) (s t : Stack P) : Prop where
  clock : s.clock = t.clock
  policies : s.layers.map (·.policy) = t.layers.map (·.policy)
  base : s.base.SameOn camera t.base
  rows : ∀ j (key : Key), key.camera.text = camera → s.row? j key = t.row? j key
  events : (s.log.filter (·.isOn camera)).Perm (t.log.filter (·.isOn camera))

variable {s t u : Stack P} {k : Nat}

theorem SameOn.refl (s : Stack P) : s.SameOn camera s where
  clock := rfl
  policies := rfl
  base := ⟨fun _ _ => rfl, fun _ _ => rfl⟩
  rows _ _ _ := rfl
  events := .refl _

theorem SameOn.trans (h : s.SameOn camera t) (h' : t.SameOn camera u) : s.SameOn camera u where
  clock := h.clock.trans h'.clock
  policies := h.policies.trans h'.policies
  base := ⟨fun key hkey => (h.base.find? key hkey).trans (h'.base.find? key hkey),
    fun c hc => (h.base.knows c hc).trans (h'.base.knows c hc)⟩
  rows j key hkey := (h.rows j key hkey).trans (h'.rows j key hkey)
  events := h.events.trans h'.events

theorem SameOn.depth (h : s.SameOn camera t) : s.depth = t.depth := by
  have hlength := congrArg List.length h.policies
  rwa [List.length_map, List.length_map] at hlength

theorem policy?_layer? (s : Stack P) (j : Nat) :
    (s.layer? (j + 1)).map (·.policy) = (s.layers.map (·.policy))[j]? := List.getElem?_map.symm

theorem row?_eq_none_of_depth (s : Stack P) {j : Nat} (h : ¬ (1 ≤ j ∧ j ≤ s.depth)) (key : Key) :
    s.row? j key = none := by
  cases j with
  | zero => rfl
  | succ j =>
    have hj : s.layer? (j + 1) = none := List.getElem?_eq_none (by unfold Stack.depth at h; omega)
    rw [row?, hj]
    rfl

theorem SameOn.verdict? (h : s.SameOn camera t) (k : Nat) {key : Key} (hkey : key.camera.text = camera) :
    s.verdict? k key = t.verdict? k key := by
  cases k with
  | zero => rfl
  | succ k =>
    have hpolicy : (s.layer? (k + 1)).map (·.policy) = (t.layer? (k + 1)).map (·.policy) := by
      rw [policy?_layer?, policy?_layer?, h.policies]
    cases hs : s.layer? (k + 1) with
    | none =>
      rw [hs] at hpolicy
      have ht := Option.map_eq_none_iff.1 hpolicy.symm
      rw [Stack.verdict?, Stack.verdict?, hs, ht]
      rfl
    | some l =>
      rw [hs] at hpolicy
      obtain ⟨l', ht, hl⟩ := Option.map_eq_some_iff.1 hpolicy.symm
      rw [verdict?_eq_bind_row? hs, verdict?_eq_bind_row? ht, h.rows _ key hkey, h.clock, hl]

theorem SameOn.expired? (h : s.SameOn camera t) (k : Nat) {key : Key} (hkey : key.camera.text = camera) :
    s.expired? k key = t.expired? k key := by
  rw [Stack.expired?, Stack.expired?, h.verdict? k hkey, h.base.find? key hkey]

/-! ### What calls are made of -/

theorem SameOn.logs (h : s.SameOn camera t) {events events' : List Event}
    (he : (events.filter (·.isOn camera)).Perm (events'.filter (·.isOn camera))) :
    (s.logs events).SameOn camera (t.logs events') where
  clock := h.clock
  policies := h.policies
  base := h.base
  rows j key hkey := by rw [row?_logs, row?_logs, h.rows j key hkey]
  events := by
    simp only [Stack.logs, List.filter_append]
    exact h.events.append he

theorem sameOn_logs (s : Stack P) {events : List Event} (he : events.filter (·.isOn camera) = []) :
    (s.logs events).SameOn camera s := by
  have hnone : (events.filter (·.isOn camera)).Perm (([] : List Event).filter (·.isOn camera)) := by
    rw [he]
    exact .refl _
  have h := (SameOn.refl s).logs hnone
  rwa [logs_nil] at h

theorem SameOn.without (h : s.SameOn camera t) (k : Nat) {gone gone' : Key → Bool}
    (hg : ∀ key, key.camera.text = camera → gone key = gone' key) :
    (s.without k gone).SameOn camera (t.without k gone') where
  clock := h.clock
  policies := by
    simp only [Stack.without, map_policy_changeBelow (fun l => Layer.policy_without l _), h.policies]
  base := h.base.without hg
  rows j key hkey := by rw [row?_without, row?_without, h.rows j key hkey, hg key hkey]
  events := h.events

theorem sameOn_dropAt (s : Stack P) (k : Nat) {camera' : String} (hc : camera' ≠ camera) (number : Int64) :
    (s.dropAt k camera' number).SameOn camera s := by
  have hnone : s.without k (fun _ => false) = s := by apply without_eq_self <;> simp
  rw [dropAt_eq_without]
  conv => rhs; rw [← hnone]
  refine (SameOn.refl s).without k fun key hkey => ?_
  rw [Bool.eq_false_iff, ne_eq, Key.isNamed_iff, Key.ofRaw_eq_ok_iff, hkey]
  exact fun hh => hc hh.1

theorem SameOn.forgetAt (h : s.SameOn camera t) (k : Nat) :
    (s.forgetAt k camera).SameOn camera (t.forgetAt k camera) := by
  have hdropped : clearing camera (s.base.clear camera).2 = clearing camera (t.base.clear camera).2 := by
    unfold clearing
    cases hc : CameraId.ofString? camera with
    | none => rfl
    | some c =>
      have htext := CameraId.ofString?_eq_some_iff.1 hc
      have hcount := h.base.count
      subst htext
      rw [Store.clear_snd, Store.clear_snd, h.base.knows c rfl, hcount]
  refine ⟨h.clock, ?_, h.base.clear camera, fun j key hkey => ?_, ?_⟩
  · simp only [Stack.forgetAt, Stack.logs, map_policy_changeBelow (fun l => Layer.policy_clear l _), h.policies]
  · rw [row?_forgetAt, row?_forgetAt, h.rows j key hkey]
  · simp only [Stack.forgetAt, Stack.logs, List.filter_append, hdropped]
    exact h.events.append_right _

theorem sameOn_forgetAt (s : Stack P) (k : Nat) {camera' : String} (hc : camera' ≠ camera) :
    (s.forgetAt k camera').SameOn camera s := by
  have hother : (clearing camera' (s.base.clear camera').2).filter (·.isOn camera) = [] := by
    unfold clearing
    split
    · rename_i c n hc' hn
      have htext := CameraId.ofString?_eq_some_iff.1 hc'
      simp [Event.isOn, ← htext, hc]
    · rfl
  refine ⟨rfl, ?_, s.base.sameOn_clear hc, fun j key hkey => ?_, ?_⟩
  · simp only [Stack.forgetAt, Stack.logs, map_policy_changeBelow (fun l => Layer.policy_clear l _)]
  · rw [row?_forgetAt, hkey, decide_eq_false hc]
    simp
  · simp only [Stack.forgetAt, Stack.logs, List.filter_append, hother, List.append_nil]
    exact .refl _

theorem SameOn.registerAt (h : s.SameOn camera t) (k : Nat) {r : Report P} (hr : r.camera = camera) :
    (s.registerAt k r).1.SameOn camera (t.registerAt k r).1 := by
  cases hkey : Key.ofRaw r.camera r.number with
  | error e =>
    rw [registerAt_of_error hkey, registerAt_of_error hkey]
    exact h.logs (.refl _)
  | ok key =>
    have hcreation : creation s.base r.camera = creation t.base r.camera := by
      unfold creation
      cases hc : CameraId.ofString? r.camera with
      | none => rfl
      | some c =>
        have htext := CameraId.ofString?_eq_some_iff.1 hc
        simp only [h.base.knows c (htext.symm.trans hr)]
    have hrows : ∀ j (key : Key), key.camera.text = camera →
        (s.registerAt k r).1.row? j key = (t.registerAt k r).1.row? j key := by
      intro j key hk
      have hds : (s.registerAt k r).1.depth = s.depth := depth_after s [.report k r]
      have hdt : (t.registerAt k r).1.depth = t.depth := depth_after t [.report k r]
      by_cases hj : 1 ≤ j ∧ j ≤ s.depth
      · rw [row?_report k r hj.2 hj.1, row?_report k r (h.depth ▸ hj.2) hj.1, h.rows j key hk, h.clock]
      · rw [row?_eq_none_of_depth _ (hds.symm ▸ hj), row?_eq_none_of_depth _ (hdt.symm ▸ h.depth ▸ hj)]
    have hpolicies : (s.registerAt k r).1.layers.map (·.policy) = (t.registerAt k r).1.layers.map (·.policy) := by
      rw [(inductive_policies _).register s k r rfl, (inductive_policies _).register t k r rfl, h.policies]
    rw [registerAt_of_ok hkey, registerAt_of_ok hkey] at hrows hpolicies ⊢
    refine ⟨h.clock, hpolicies, h.base.put _, hrows, ?_⟩
    simp only [Stack.logs, List.filter_append, hcreation]
    exact h.events.append_right _

theorem sameOn_registerAt (s : Stack P) (k : Nat) {r : Report P} (hr : r.camera ≠ camera) :
    (s.registerAt k r).1.SameOn camera s := by
  cases hkey : Key.ofRaw r.camera r.number with
  | error e =>
    rw [registerAt_of_error hkey]
    exact s.sameOn_logs (by simp [Event.isOn, hr])
  | ok key =>
    have htext : key.camera.text ≠ camera := (Key.ofRaw_eq_ok_iff.1 hkey).1 ▸ hr
    have hcreation : (creation s.base r.camera).filter (·.isOn camera) = [] := by
      unfold creation
      split
      · rename_i c hc
        have hne : c.text ≠ camera := CameraId.ofString?_eq_some_iff.1 hc ▸ hr
        split <;> simp [Event.isOn, hne]
      · rfl
    have hpolicies := (inductive_policies _).register s k r rfl
    rw [registerAt_of_ok hkey] at hpolicies ⊢
    refine ⟨rfl, hpolicies, s.base.sameOn_put (e := key.entry r.payload) htext, fun j key' hk => ?_, ?_⟩
    · have hlayers : (s.reported k key r.payload).layers = changeBelow k (·.noted key s.clock) s.layers := rfl
      rw [row?_logs, row?_noted_of_ne hlayers]
      rintro rfl
      exact htext hk
    · simp only [Stack.logs, List.filter_append, hcreation, List.append_nil]
      exact .refl _

end Stack

/-! ### Calls -/

/-- A report, a removal or a clearing of another camera. -/
def Call.changesOther (camera : String) : Call P → Bool
  | .register r => decide (r.camera ≠ camera)
  | .remove camera' _ | .clear camera' => decide (camera' ≠ camera)
  | _ => false

inductive Answer.SameOn (camera : String) : Answer P → Answer P → Prop where
  | refl (a : Answer P) : SameOn camera a a
  | census {c c' : Census} (h : ∀ n, (camera, n) ∈ c.pairs ↔ (camera, n) ∈ c'.pairs) :
    SameOn camera (.census c) (.census c')
  | expired {l l' : List (Expired P)} (h : (l.filter (·.isOn camera)).Perm (l'.filter (·.isOn camera))) :
    SameOn camera (.expired l) (.expired l')

namespace Stack

structure Steady (s : Stack P) : Prop where
  armed : s.armed = none
  named : ∀ l ∈ s.layers, Named l.rows

variable {s t : Stack P}

theorem Steady.call (hs : s.Steady) (w : Walk) (sharing : Sharing) (k : Nat) {q : Call P}
    (hq : q.arms = false) : (s.call w sharing k q).1.Steady where
  armed := (effect_of_unarmed hs.armed hs.named w sharing k hq).2
  named := inductive_named.call w sharing k q hs.named

theorem call_register_snd (s : Stack P) (w : Walk) (sharing : Sharing) (k : Nat) (r : Report P) :
    (s.call w sharing k (.register r)).2 =
      match Key.ofRaw r.camera r.number with
      | .ok _ => .done
      | .error e => .refused e := by
  cases h : Key.ofRaw r.camera r.number with
  | error e => simp only [call, registerAt_of_error h]
  | ok key => simp only [call, registerAt_of_ok h]

theorem sameOn_call (hs : s.Steady) (w : Walk) (sharing : Sharing) (k : Nat) {q : Call P}
    (hq : q.changesOther camera = true) : (s.call w sharing k q).1.SameOn camera s := by
  cases q with
  | register r =>
    rw [call_register_fst]
    exact s.sameOn_registerAt k (of_decide_eq_true hq)
  | remove camera' number =>
    rw [call, removeAt_eq, fireAbove_of_unarmed (s := s.dropAt k camera' number) hs.armed]
    exact s.sameOn_dropAt k (of_decide_eq_true hq) number
  | clear camera' =>
    rw [call, clearAt_eq, fireAbove_of_unarmed (s := s.forgetAt k camera') hs.armed]
    exact s.sameOn_forgetAt k (of_decide_eq_true hq)
  | _ => cases hq

theorem SameOn.sweepWhere (h : s.SameOn camera t) (hs : s.Steady) (ht : t.Steady) (k : Nat) (w w' : Walk)
    (mine : CameraId → Bool) :
    (s.sweepWhere k w mine).1.SameOn camera (t.sweepWhere k w' mine).1 ∧
      ((s.sweepWhere k w mine).2.filter (·.isOn camera)).Perm
        ((t.sweepWhere k w' mine).2.filter (·.isOn camera)) := by
  obtain ⟨found, hsweep, hnodup, hfound⟩ := sweepWhere_of_unarmed hs.armed hs.named k w mine
  obtain ⟨found', hsweep', hnodup', hfound'⟩ := sweepWhere_of_unarmed ht.armed ht.named k w' mine
  have hperm : (found.filter (·.isOn camera)).Perm (found'.filter (·.isOn camera)) := by
    -- the orders of the visits need not agree, so the lists are compared by what they have
    rw [List.perm_ext_iff_of_nodup (hnodup.of_map.filter _) (hnodup'.of_map.filter _)]
    intro x
    simp only [List.mem_filter, hfound, hfound', Expired.isOn, decide_eq_true_eq]
    refine and_congr_left fun hx => ?_
    have hexpired : s.expired? k x.entry.key = t.expired? k x.entry.key := h.expired? k hx
    rw [hexpired]
  rw [hsweep, hsweep']
  refine ⟨(h.without k fun key hkey => ?_).logs ?_, hperm⟩
  · rw [h.verdict? k hkey]
  · rw [filter_map_event, filter_map_event]
    exact hperm.map _

theorem SameOn.call (h : s.SameOn camera t) (hs : s.Steady) (ht : t.Steady) (w w' : Walk) (sharing : Sharing)
    (k : Nat) {q : Call P} (hq : q.arms = false) (hk : q.changesOther camera = false) :
    (s.call w sharing k q).1.SameOn camera (t.call w' sharing k q).1 ∧
      ((∀ camera', q.camera? = some camera' → camera' = camera) →
        (s.call w sharing k q).2.SameOn camera (t.call w' sharing k q).2) := by
  cases q with
  | register r =>
    have hr : r.camera = camera := by simpa [Call.changesOther] using hk
    rw [call_register_fst, call_register_fst, call_register_snd, call_register_snd]
    exact ⟨h.registerAt k hr, fun _ => .refl _⟩
  | remove camera' number =>
    simp only [Stack.call, removeAt_eq_without hs.armed, removeAt_eq_without ht.armed]
    exact ⟨h.without k fun key _ => rfl, fun _ => .refl _⟩
  | clear camera' =>
    have hc : camera' = camera := by simpa [Call.changesOther] using hk
    subst hc
    have hfs := fireAbove_of_unarmed (s := s.forgetAt k camera') hs.armed k
    have hft := fireAbove_of_unarmed (s := t.forgetAt k camera') ht.armed k
    simp only [Stack.call, clearAt_eq, hfs, hft]
    exact ⟨h.forgetAt k, fun _ => .refl _⟩
  | get camera' number =>
    refine ⟨h, fun hc => ?_⟩
    obtain rfl := hc camera' rfl
    simp only [Stack.call, Stack.get?, h.base.get?]
    exact .refl _
  | getByCamera camera' =>
    refine ⟨h, fun hc => ?_⟩
    obtain rfl := hc camera' rfl
    simp only [Stack.call, Stack.getByCamera, h.base.getByCamera]
    exact .refl _
  | count camera' =>
    refine ⟨h, fun hc => ?_⟩
    obtain rfl := hc camera' rfl
    simp only [Stack.call, Stack.count, h.base.count]
    exact .refl _
  | census => exact ⟨h, fun _ => .census h.base.census⟩
  | sweep =>
    obtain ⟨hsame, hfound⟩ := h.sweepWhere hs ht k w w' fun _ => true
    exact ⟨hsame, fun _ => .expired hfound⟩
  | sweepPart part parts =>
    obtain ⟨hsame, hfound⟩ := h.sweepWhere hs ht k w w' fun c => sharing.part (max parts 1) c == part
    exact ⟨hsame, fun _ => .expired hfound⟩
  | setClock now => exact ⟨⟨rfl, h.policies, h.base, h.rows, h.events⟩, fun _ => .refl _⟩
  | arm r => cases hq

end Stack

/-! ### Runs -/

structure Stack.LooksSame (camera : String) (s t : Stack P) : Prop where
  get? : ∀ number, s.get? camera number = t.get? camera number
  getByCamera : s.getByCamera camera = t.getByCamera camera
  count : s.count camera = t.count camera
  census : ∀ n, (camera, n) ∈ s.census.pairs ↔ (camera, n) ∈ t.census.pairs
  rows : ∀ j (key : Key), key.camera.text = camera → s.row? j key = t.row? j key
  events : (s.log.filter (·.isOn camera)).Perm (t.log.filter (·.isOn camera))

theorem Stack.SameOn.looksSame {s t : Stack P} (h : s.SameOn camera t) : s.LooksSame camera t where
  get? := h.base.get?
  getByCamera := h.base.getByCamera
  count := h.base.count
  census := h.base.census
  rows := h.rows
  events := h.events

namespace Step

/-- The same call on the same number, with the cameras shared out alike. A sweep may visit in another order. -/
def Repeats (st st' : Step P) : Prop :=
  st'.number = st.number ∧ st'.sharing = st.sharing ∧ st'.call = st.call

def changesOther (camera : String) (st : Step P) : Bool := st.call.changesOther camera

end Step

/-- Two calls before which and after which a camera looks the same, with the same answer about it. -/
structure Moment.SameOn (camera : String) (m m' : Moment P) : Prop where
  before : m.before.LooksSame camera m'.before
  after : m.after.LooksSame camera m'.after
  answer : (∀ camera', m.step.call.camera? = some camera' → camera' = camera) →
    m.answer.SameOn camera m'.answer

namespace Stack

theorem SameOn.run {s t : Stack P} (h : s.SameOn camera t) (hs : s.Steady) (ht : t.Steady)
    {steps trimmed : List (Step P)} (harms : ∀ st ∈ steps, st.call.arms = false)
    (htrimmed : List.Forall₂ Step.Repeats (steps.filter (!·.changesOther camera)) trimmed) :
    List.Forall₂ (Moment.SameOn camera) ((s.history steps).filter (!·.step.changesOther camera))
        (t.history trimmed) ∧
      (s.run steps).SameOn camera (t.run trimmed) := by
  induction steps generalizing s t trimmed with
  | nil =>
    cases htrimmed
    exact ⟨.nil, h⟩
  | cons st steps ih =>
    have hq := harms st List.mem_cons_self
    have hsteps : ∀ st' ∈ steps, st'.call.arms = false := fun st' hst' => harms st' (List.mem_cons_of_mem st hst')
    have hs' : (s.step st).Steady := hs.call st.walk st.sharing st.number hq
    cases hother : st.changesOther camera with
    | true =>
      -- the second run does nothing while the first one is with another camera
      have hskip : (s.step st).SameOn camera s := sameOn_call hs st.walk st.sharing st.number hother
      rw [List.filter_cons_of_neg (by simp [hother])] at htrimmed
      rw [history, List.filter_cons_of_neg (by simp [hother])]
      exact ih (hskip.trans h) hs' ht hsteps htrimmed
    | false =>
      rw [List.filter_cons_of_pos (by simp [hother])] at htrimmed
      rw [history, List.filter_cons_of_pos (by simp [hother])]
      cases htrimmed with
      | cons hrepeats hrest =>
        rename_i st' trimmed
        obtain ⟨k, w, sharing, q⟩ := st
        obtain ⟨k', w', sharing', q'⟩ := st'
        obtain ⟨rfl, rfl, rfl⟩ := hrepeats
        obtain ⟨hsame, hanswer⟩ := h.call hs ht w w' sharing' k' hq hother
        obtain ⟨hmoments, hend⟩ := ih hsame hs' (ht.call w' sharing' k' hq) hsteps hrest
        exact ⟨.cons ⟨h.looksSame, hsame.looksSame, hanswer⟩ hmoments, hend⟩

/-- Cameras have no influence on one another. While no report is armed, a run without the reports, removals and
clearings of all other cameras gives the same answers about a camera, by every call that is left, and the camera
looks the same before and after each of these calls and at the end. -/
theorem same_without_others (policies : List Policy) (camera : String) {steps trimmed : List (Step P)}
    (harms : ∀ st ∈ steps, st.call.arms = false)
    (htrimmed : List.Forall₂ Step.Repeats (steps.filter (!·.changesOther camera)) trimmed) :
    let s : Stack P := ofPolicies policies
    List.Forall₂ (Moment.SameOn camera) ((s.history steps).filter (!·.step.changesOther camera))
        (s.history trimmed) ∧
      (s.run steps).LooksSame camera (s.run trimmed) := by
  intro s
  have hsteady : s.Steady := by
    refine ⟨rfl, fun l hl key row hrow => ?_⟩
    obtain ⟨policy, -, rfl⟩ := List.mem_map.1 hl
    rw [Store.find?_empty] at hrow
    cases hrow
  obtain ⟨hmoments, hend⟩ := (SameOn.refl s).run hsteady hsteady harms htrimmed
  exact ⟨hmoments, hend.looksSame⟩

def descending : Walk where
  cameras l := l.reverse
  rows _ l := l.reverse
  cameras_perm l := l.reverse_perm
  rows_perm _ l := l.reverse_perm

def mixedRun : List (Step String) :=
  [.plain 2 (.register ⟨"north", 1, "a"⟩), .plain 2 (.register ⟨"south", 1, "b"⟩),
    .plain 2 (.register ⟨"north", 2, "c"⟩), .plain 2 (.register ⟨"north", -1, "d"⟩), .plain 1 (.clear "south"),
    .plain 0 (.register ⟨"south", 2, "e"⟩), .plain 2 (.setClock (.mk 5000000000)), .plain 2 .census, .plain 2 .sweep]

/-- Only what regards the northern camera, with all visits the other way round. -/
def northernRun : List (Step String) :=
  (mixedRun.filter (!·.changesOther "north")).map ({ · with walk := descending })

def twoLimits : List Policy := [⟨.ofSeconds 3, .ofSeconds 30⟩, ⟨.ofSeconds 4, .ofSeconds 9⟩]

theorem same_without_others_north :
    (∀ st ∈ mixedRun, st.call.arms = false) ∧
      List.Forall₂ Step.Repeats (mixedRun.filter (!·.changesOther "north")) northernRun ∧
      ((ofPolicies twoLimits).run mixedRun).log.filter (·.isOn "north") =
        [.created ⟨"north", by decide⟩, .rejected "north" (.negativeTrack (-1)),
          .expired ⟨⟨"north", by decide⟩, ⟨1⟩⟩ .inactive, .expired ⟨⟨"north", by decide⟩, ⟨2⟩⟩ .inactive] ∧
      ((ofPolicies twoLimits).run northernRun).log =
        [.created ⟨"north", by decide⟩, .rejected "north" (.negativeTrack (-1)),
          .expired ⟨⟨"north", by decide⟩, ⟨2⟩⟩ .inactive, .expired ⟨⟨"north", by decide⟩, ⟨1⟩⟩ .inactive] ∧
      ((ofPolicies twoLimits).run mixedRun).LooksSame "north" ((ofPolicies twoLimits).run northernRun) := by
  have harms : ∀ st ∈ mixedRun, st.call.arms = false := by decide
  have htrimmed : List.Forall₂ Step.Repeats (mixedRun.filter (!·.changesOther "north")) northernRun :=
    List.forall₂_map_right_iff.2 (List.forall₂_same.2 fun st _ => ⟨rfl, rfl, rfl⟩)
  exact ⟨harms, htrimmed, by decide +kernel, by decide +kernel,
    (same_without_others twoLimits "north" harms htrimmed).2⟩

end Stack

end LiveTracks
