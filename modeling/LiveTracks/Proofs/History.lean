import Mathlib.Data.List.DropRight
import LiveTracks.Proofs.CallEffect

/-!
# Rows and the history of a run

The history of a run lists its calls with the stack that each one met. It alone says when a stored key
was first reported since it was last absent, and when and with what payload it was reported last. While
all calls are made on the top and no report is armed, every row of every layer says just this of its
key, and a key has a row as long as it is stored (`row?_eq_lifetime?`). So what a sweep of the top
reports can be read off the history (`sweep_top_eq_history`).
-/

namespace LiveTracks

variable {P : Type}

structure Moment (P : Type) where
  before : Stack P
  step : Step P

namespace Moment

def after (m : Moment P) : Stack P := m.before.step m.step

def answer (m : Moment P) : Answer P :=
  (m.before.call m.step.walk m.step.sharing m.step.number m.step.call).2

def time (m : Moment P) : Instant := m.before.clock

def report? (m : Moment P) : Option (Report P) :=
  match m.step.call, m.answer with
  | .register r, .done => some r
  | _, _ => none

/-- Whether a report of this key was made and accepted. -/
def reports (key : Key) (m : Moment P) : Bool :=
  m.report?.any fun r => key.isNamed r.camera r.number

def stores (key : Key) (m : Moment P) : Bool := (m.after.base.find? key).isSome

theorem report?_eq_some_iff {m : Moment P} {r : Report P} :
    m.report? = some r ↔ m.step.call = .register r ∧ m.answer = .done := by
  unfold report?
  split
  · rename_i r' hc ha
    rw [hc, ha, Option.some.injEq, Call.register.injEq]
    exact ⟨fun h => ⟨h, rfl⟩, fun h => h.1⟩
  · rename_i hno
    constructor
    · intro h
      cases h
    · intro hh
      obtain ⟨hc, ha⟩ := hh
      exact absurd ha (hno r hc)

end Moment

namespace Stack

def history (s : Stack P) : List (Step P) → List (Moment P)
  | [] => []
  | st :: steps => ⟨s, st⟩ :: history (s.step st) steps

theorem history_append_singleton (s : Stack P) (steps : List (Step P)) (st : Step P) :
    s.history (steps ++ [st]) = s.history steps ++ [⟨s.run steps, st⟩] := by
  induction steps generalizing s with
  | nil => rfl
  | cons st' steps ih =>
    simp only [List.cons_append, history, ih]
    rfl

theorem run_append_singleton (s : Stack P) (steps : List (Step P)) (st : Step P) :
    s.run (steps ++ [st]) = (s.run steps).step st := by
  simp only [run, List.foldl_append, List.foldl_cons, List.foldl_nil]

end Stack

/-! ### What a history says of a key -/

def sinceAbsent (key : Key) (h : List (Moment P)) : List (Moment P) := h.rtakeWhile (·.stores key)

/-- The first report of a key since it was last absent. -/
def firstReport? (key : Key) (h : List (Moment P)) : Option (Moment P) :=
  (sinceAbsent key h).find? (·.reports key)

/-- The latest report of a key. -/
def lastReport? (key : Key) (h : List (Moment P)) : Option (Moment P) :=
  h.reverse.find? (·.reports key)

/-- When a key was first reported since it was last absent, and when it was reported last. -/
def lifetimeTold? (key : Key) (h : List (Moment P)) : Option Lifetime :=
  (firstReport? key h).bind fun first => (lastReport? key h).map fun last => ⟨first.time, last.time⟩

def payloadTold? (key : Key) (h : List (Moment P)) : Option P :=
  ((lastReport? key h).bind (·.report?)).map (·.payload)

section Moments

variable {key : Key} {h : List (Moment P)} {m : Moment P}

theorem sinceAbsent_of_absent (hs : m.stores key = false) : sinceAbsent key (h ++ [m]) = [] := by
  rw [sinceAbsent, List.rtakeWhile_concat, hs]
  rfl

theorem sinceAbsent_of_stored (hs : m.stores key = true) :
    sinceAbsent key (h ++ [m]) = sinceAbsent key h ++ [m] := by
  rw [sinceAbsent, List.rtakeWhile_concat, if_pos hs]
  rfl

theorem firstReport?_of_some {first : Moment P} (hf : firstReport? key h = some first)
    (hs : m.stores key = true) : firstReport? key (h ++ [m]) = some first := by
  unfold firstReport? at hf ⊢
  rw [sinceAbsent_of_stored hs, List.find?_append, hf]
  rfl

theorem firstReport?_of_absent (hf : sinceAbsent key h = []) (hs : m.stores key = true)
    (hr : m.reports key = true) : firstReport? key (h ++ [m]) = some m := by
  unfold firstReport?
  rw [sinceAbsent_of_stored hs, hf, List.nil_append, List.find?_singleton, if_pos hr]

theorem lastReport?_append (h : List (Moment P)) (m : Moment P) :
    lastReport? key (h ++ [m]) = if m.reports key then some m else lastReport? key h := by
  unfold lastReport?
  rw [List.reverse_append, List.reverse_singleton, List.singleton_append, List.find?_cons]
  cases m.reports key <;> rfl

end Moments

/-! ### Rows follow the history -/

namespace Stack

theorem row?_noted {s s' : Stack P} {k : Nat} {key : Key} {now : Instant}
    (h : s'.layers = changeBelow k (·.noted key now) s.layers) {j : Nat} (h1 : 1 ≤ j)
    (hd : j ≤ s.depth) (hk : j ≤ k) :
    s'.row? j key = some ⟨((s.row? j key).map (·.firstSeen)).getD now, now⟩ := by
  have hl : ∃ l, s.layer? j = some l := by
    cases j with
    | zero => omega
    | succ j => exact ⟨_, List.getElem?_eq_getElem hd⟩
  obtain ⟨l, hl⟩ := hl
  rw [row?_changeBelow h, row?, hl]
  simp [hk, Layer.find?_noted, Layer.extended, Function.comp_def]
  rfl

theorem row?_noted_of_ne {s s' : Stack P} {k : Nat} {key key' : Key} {now : Instant}
    (h : s'.layers = changeBelow k (·.noted key now) s.layers) (hne : key' ≠ key) (j : Nat) :
    s'.row? j key' = s.row? j key' := by
  rw [row?_changeBelow h, row?]
  cases s.layer? j with
  | none => rfl
  | some l =>
    by_cases hj : j ≤ k <;> simp [hj, Layer.find?_noted, hne]

inductive Told (n : Nat) (h : List (Moment P)) (s : Stack P) (key : Key) : Prop where
  | absent (hb : s.base.find? key = none) (hr : ∀ j, j ≤ n → s.row? j key = none)
    (hh : sinceAbsent key h = [])
  | stored (first last : Moment P) (r : Report P)
    (hb : s.base.find? key = some (key.entry r.payload))
    (hr : ∀ j, 1 ≤ j → j ≤ n → s.row? j key = some ⟨first.time, last.time⟩)
    (hf : firstReport? key h = some first) (hl : lastReport? key h = some last)
    (hp : last.report? = some r)

section Told

variable {n : Nat} {h : List (Moment P)} {m : Moment P} {key : Key}

theorem told_of_same (ht : Told n h m.before key)
    (hb : m.after.base.find? key = m.before.base.find? key)
    (hr : ∀ j, m.after.row? j key = m.before.row? j key) (hm : m.reports key = false) :
    Told n (h ++ [m]) m.after key := by
  cases ht with
  | absent hb' hr' hh =>
    have hs : m.stores key = false := by rw [Moment.stores, hb, hb']; rfl
    exact .absent (hb.trans hb') (fun j hj => (hr j).trans (hr' j hj)) (sinceAbsent_of_absent hs)
  | stored first last r hb' hr' hf hl hp =>
    have hs : m.stores key = true := by rw [Moment.stores, hb, hb']; rfl
    refine .stored first last r (hb.trans hb') (fun j h1 hj => (hr j).trans (hr' j h1 hj))
      (firstReport?_of_some hf hs) ?_ hp
    rw [lastReport?_append, hm]
    exact hl

theorem told_of_gone (hb : m.after.base.find? key = none)
    (hr : ∀ j, j ≤ n → m.after.row? j key = none) : Told n (h ++ [m]) m.after key := by
  have hs : m.stores key = false := by rw [Moment.stores, hb]; rfl
  exact .absent hb hr (sinceAbsent_of_absent hs)

/-- The first report since the key was absent starts a lifetime, every other one extends it. -/
theorem told_of_report (ht : Told n h m.before key) {r : Report P} (hm : m.reports key = true)
    (hp : m.report? = some r) (hb : m.after.base.find? key = some (key.entry r.payload))
    (hr : ∀ j, 1 ≤ j → j ≤ n → m.after.row? j key =
      some ⟨((m.before.row? j key).map (·.firstSeen)).getD m.time, m.time⟩) :
    Told n (h ++ [m]) m.after key := by
  have hs : m.stores key = true := by rw [Moment.stores, hb]; rfl
  have hl : lastReport? key (h ++ [m]) = some m := by rw [lastReport?_append, hm]; rfl
  cases ht with
  | absent hb' hr' hh =>
    refine .stored m m r hb ?_ (firstReport?_of_absent hh hs hm) hl hp
    intro j h1 hj
    rw [hr j h1 hj, hr' j hj]
    rfl
  | stored first last r' hb' hr' hf hl' hp' =>
    refine .stored first m r hb ?_ (firstReport?_of_some hf hs) hl hp
    intro j h1 hj
    rw [hr j h1 hj, hr' j h1 hj]
    rfl

theorem not_reports {m : Moment P} (hc : ∀ r, m.step.call = .register r → m.answer ≠ .done)
    (key : Key) : m.reports key = false := by
  unfold Moment.reports
  cases hr : m.report? with
  | none => rfl
  | some r =>
    obtain ⟨hcall, ha⟩ := Moment.report?_eq_some_iff.1 hr
    exact absurd ha (hc r hcall)

theorem told_of_effect (ht : ∀ key, Told n h m.before key) (hd : n ≤ m.before.depth)
    (he : Effect m.before m.after n m.step.call m.answer) (key : Key) :
    Told n (h ++ [m]) m.after key := by
  cases he with
  | report r key' hc hk ha hb hl =>
    have hp : m.report? = some r := Moment.report?_eq_some_iff.2 ⟨hc, ha⟩
    have hm : m.reports key = key.isNamed r.camera r.number := by
      rw [Moment.reports, hp]
      rfl
    by_cases heq : key = key'
    · subst heq
      apply told_of_report (ht key) (hm.trans (Key.isNamed_iff.2 hk)) hp
      · rw [hb, Store.find?_put, Key.key_entry, if_pos rfl]
      · intro j h1 hj
        exact row?_noted hl h1 (hj.trans hd) hj
    · apply told_of_same (ht key)
      · rw [hb, Store.find?_put, Key.key_entry, if_neg heq]
      · exact row?_noted_of_ne hl heq
      · rw [hm, Bool.eq_false_iff, Ne, Key.isNamed_iff, hk, Except.ok.injEq]
        exact fun h => heq h.symm
  | drop gone hc hb hr =>
    cases hg : gone key with
    | true =>
      apply told_of_gone
      · rw [hb, hg, if_pos rfl]
      · intro j hj
        rw [hr, if_pos ⟨hj, hg⟩]
    | false =>
      apply told_of_same (ht key)
      · rw [hb, hg]
        rfl
      · intro j
        rw [hr, hg]
        simp
      · exact not_reports hc key

end Told

def CallsOn (n : Nat) (steps : List (Step P)) : Prop :=
  ∀ st ∈ steps, st.number = n ∧ st.call.arms = false

instance (n : Nat) (steps : List (Step P)) : Decidable (CallsOn n steps) :=
  inferInstanceAs (Decidable (∀ st ∈ steps, st.number = n ∧ st.call.arms = false))

theorem told_run (policies : List Policy) (steps : List (Step P))
    (hs : CallsOn policies.length steps) :
    ((ofPolicies policies : Stack P).run steps).armed = none ∧
      ∀ key, Told policies.length (history (ofPolicies policies) steps)
        ((ofPolicies policies).run steps) key := by
  induction steps using List.reverseRecOn with
  | nil =>
    refine ⟨rfl, fun key => .absent (Store.find?_empty key) ?_ rfl⟩
    intro j hj
    cases j with
    | zero => rfl
    | succ j =>
      simp [run, ofPolicies, row?, layer?, Store.find?_empty]
  | append_singleton steps st ih =>
    obtain ⟨ha, ht⟩ := ih fun st' h => hs st' (List.mem_append_left _ h)
    obtain ⟨hk, hc⟩ := hs st (by simp)
    obtain ⟨k, w, sharing, c⟩ := st
    dsimp only at hk hc
    subst hk
    have hn := named_of_reachable ⟨policies, steps, rfl⟩
    have hd := (depth_run policies steps).ge
    obtain ⟨he, ha'⟩ := effect_of_unarmed ha hn w sharing policies.length hc
    rw [run_append_singleton, history_append_singleton]
    exact ⟨ha', told_of_effect ht hd he⟩

theorem Told.find?_isSome {n : Nat} {h : List (Moment P)} {s : Stack P} {key : Key}
    (ht : Told n h s key) : (s.base.find? key).isSome = (lifetimeTold? key h).isSome := by
  cases ht with
  | absent hb hr hh => simp [hb, lifetimeTold?, firstReport?, hh]
  | stored first last r hb hr hf hl hp => simp [hb, lifetimeTold?, hf, hl]

theorem Told.row?_eq {n : Nat} {h : List (Moment P)} {s : Stack P} {key : Key}
    (ht : Told n h s key) {j : Nat} (h1 : 1 ≤ j) (hj : j ≤ n) :
    s.row? j key = lifetimeTold? key h := by
  cases ht with
  | absent hb hr hh => simp [hr j hj, lifetimeTold?, firstReport?, hh]
  | stored first last r hb hr hf hl hp => simp [hr j h1 hj, lifetimeTold?, hf, hl]

theorem Told.find?_eq_some_iff {n : Nat} {h : List (Moment P)} {s : Stack P} {e : Entry P}
    (ht : Told n h s e.key) :
    s.base.find? e.key = some e ↔
      (s.base.find? e.key).isSome = true ∧ payloadTold? e.key h = some e.payload := by
  cases ht with
  | absent hb hr hh => simp [hb]
  | stored first last r hb hr hf hl hp =>
    have he : e.key.entry r.payload = e ↔ r.payload = e.payload :=
      ⟨fun h => h ▸ rfl, fun h => h ▸ rfl⟩
    simp [hb, payloadTold?, hl, hp, he]

/-! ### Sweeps of the top -/

theorem layer?_top (lower : List Policy) (top : Policy) (steps : List (Step P)) :
    ∃ l, ((ofPolicies (lower ++ [top]) : Stack P).run steps).layer? (lower.length + 1) = some l ∧
      l.policy = top := by
  have h := congrArg (·[lower.length]?) (map_policy_run (P := P) (lower ++ [top]) steps)
  simp only [List.getElem?_map, List.getElem?_concat_length] at h
  exact Option.map_eq_some_iff.1 h

/-- Every layer has a row of just the stored keys, the row says what the history says of its key, and
a sweep of the top finds just the keys that the top policy gives up on these grounds, each with the
payload that it was reported with last. -/
theorem sweep_top_eq_history (lower : List Policy) (top : Policy) (steps : List (Step P))
    (hs : CallsOn (lower.length + 1) steps) :
    let s := (ofPolicies (lower ++ [top]) : Stack P).run steps
    let h := (ofPolicies (lower ++ [top]) : Stack P).history steps
    (∀ key j, 1 ≤ j → j ≤ lower.length + 1 →
      (s.row? j key).isSome = (s.base.find? key).isSome ∧ s.row? j key = lifetimeTold? key h) ∧
    ∀ now w,
      let found := (({ s with clock := now } : Stack P).sweep (lower.length + 1) w).2
      (found.map (·.entry.key)).Nodup ∧
        ∀ x, x ∈ found ↔ (s.base.find? x.entry.key).isSome = true ∧
          (lifetimeTold? x.entry.key h).bind (top.evaluate · now) = some x.reason ∧
          payloadTold? x.entry.key h = some x.entry.payload := by
  intro s h
  have hlen : lower.length + 1 = (lower ++ [top]).length := by simp
  rw [hlen] at hs ⊢
  obtain ⟨ha, ht⟩ := told_run (P := P) (lower ++ [top]) steps hs
  have hrow : ∀ key j, 1 ≤ j → j ≤ (lower ++ [top]).length → s.row? j key = lifetimeTold? key h :=
    fun key j h1 hj => (ht key).row?_eq h1 hj
  constructor
  · intro key j h1 hj
    rw [hrow key j h1 hj]
    exact ⟨(ht key).find?_isSome.symm, rfl⟩
  · intro now w found
    obtain ⟨l, hl, hp⟩ := layer?_top (P := P) lower top steps
    rw [hlen] at hl
    have hn : ∀ l ∈ s.layers, Named l.rows := named_of_reachable ⟨lower ++ [top], steps, rfl⟩
    have hv : ∀ key, ({ s with clock := now } : Stack P).verdict? (lower ++ [top]).length key =
        (lifetimeTold? key h).bind (top.evaluate · now) := by
      intro key
      have hv := verdict?_eq_bind_row? (s := { s with clock := now }) hl key
      rw [hp] at hv
      rw [← hrow key _ (by simp) (Nat.le_refl _)]
      exact hv
    have he := exactSweep_of_unarmed (s := { s with clock := now }) ha hn (lower ++ [top]).length w
    refine ⟨he.once, fun x => ?_⟩
    rw [he.found_iff, hv, (ht x.entry.key).find?_eq_some_iff]
    constructor
    · intro hh
      obtain ⟨⟨hb, hy⟩, hr⟩ := hh
      exact ⟨hb, hr, hy⟩
    · intro hh
      obtain ⟨hb, hr, hy⟩ := hh
      exact ⟨⟨hb, hy⟩, hr⟩

/-- A track that is removed and comes back, with a clock that goes back while it is there. -/
def revivedRun : List (Step String) :=
  [.plain 2 (.register ⟨"north", 1, "a"⟩), .plain 2 (.remove "north" 1),
    .plain 2 (.setClock (.mk 5000000000)), .plain 2 (.register ⟨"north", 1, "b"⟩),
    .plain 2 (.setClock (.mk 3000000000)), .plain 2 (.register ⟨"north", 1, "c"⟩)]

def revived : Stack String :=
  (ofPolicies ([⟨.ofSeconds 3, .ofSeconds 30⟩] ++ [⟨.ofSeconds 4, .ofSeconds 4⟩])).run revivedRun

theorem sweep_top_eq_history_revived :
    CallsOn 2 revivedRun ∧
      revived.row? 2 ⟨⟨"north", by decide⟩, ⟨1⟩⟩ = some ⟨.mk 5000000000, .mk 3000000000⟩ ∧
      (({ revived with clock := .mk 9000000000 } : Stack String).sweep 2 .ascending).2.map
          (fun x => (x.entry.payload, x.reason)) = [("c", .inactive)] ∧
      ((({ revived with clock := .mk 9000000000 } : Stack String).sweep 2 .ascending).2.map
        (·.entry.key)).Nodup := by
  have hs : CallsOn 2 revivedRun := by decide
  have h := sweep_top_eq_history [⟨.ofSeconds 3, .ofSeconds 30⟩] ⟨.ofSeconds 4, .ofSeconds 4⟩
    revivedRun hs
  refine ⟨hs, ?_, by decide +kernel, (h.2 (.mk 9000000000) .ascending).1⟩
  have hl := (h.1 ⟨⟨"north", by decide⟩, ⟨1⟩⟩ 2 (by decide) (by decide)).2
  exact hl.trans (by decide +kernel)

end Stack

end LiveTracks
