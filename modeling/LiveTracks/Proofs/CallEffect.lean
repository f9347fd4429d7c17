import LiveTracks.Proofs.SweepExactness

/-!
# What a call comes to

While no report is armed and none gets armed, a call either puts one reported track into the store and
into all layers up to its number, or it drops some tracks from the store and from these layers
(`effect_of_unarmed`). No call changes the policies.
-/

namespace LiveTracks

variable {P : Type}

def Call.arms : Call P → Bool
  | .arm _ => true
  | _ => false

namespace Stack

/-! ### Policies -/

theorem map_policy_changeBelow {k : Nat} {f : Layer → Layer} (hf : ∀ l, (f l).policy = l.policy)
    (layers : List Layer) :
    (changeBelow k f layers).map (·.policy) = layers.map (·.policy) := by
  unfold changeBelow
  rw [List.map_append, List.map_map]
  have hc : (fun l : Layer => l.policy) ∘ f = fun l => l.policy := funext hf
  rw [hc, ← List.map_append, List.take_append_drop]

theorem inductive_policies (policies : List Policy) :
    Inductive fun s : Stack P => s.layers.map (·.policy) = policies where
  register s k r hs := by
    cases h : Key.ofRaw r.camera r.number with
    | error e =>
      rw [registerAt_of_error h]
      exact hs
    | ok key =>
      rw [registerAt_of_ok h]
      exact (map_policy_changeBelow (f := (·.noted key s.clock)) (fun l => rfl) s.layers).trans hs
  drop s k camera number hs :=
    (map_policy_changeBelow (f := (·.drop camera number)) (fun l => rfl) s.layers).trans hs
  forget s k camera hs :=
    (map_policy_changeBelow (f := (·.clear camera)) (fun l => rfl) s.layers).trans hs
  logs s events hs := hs
  clock s now hs := hs
  arm s armed hs := hs

theorem map_policy_run (policies : List Policy) (steps : List (Step P)) :
    ((ofPolicies policies : Stack P).run steps).layers.map (·.policy) = policies := by
  apply (inductive_policies policies).run steps
  simp [ofPolicies, Function.comp_def]

theorem depth_run (policies : List Policy) (steps : List (Step P)) :
    ((ofPolicies policies : Stack P).run steps).depth = policies.length := by
  have h := congrArg List.length (map_policy_run policies steps)
  rw [List.length_map] at h
  exact h

/-! ### Tracks -/

theorem call_register_fst (s : Stack P) (w : Walk) (sharing : Sharing) (k : Nat) (r : Report P) :
    (s.call w sharing k (.register r)).1 = (s.registerAt k r).1 := by
  rw [call]
  split <;> simp_all

/-- The two ways in which the tracks of a stack can change by a call on number `k`. -/
inductive Effect (s s' : Stack P) (k : Nat) (c : Call P) (a : Answer P) : Prop where
  | report (r : Report P) (key : Key) (hc : c = .register r)
    (hk : Key.ofRaw r.camera r.number = .ok key) (ha : a = .done)
    (hb : s'.base = s.base.put (key.entry r.payload))
    (hl : s'.layers = changeBelow k (·.noted key s.clock) s.layers)
  | drop (gone : Key → Bool) (hc : ∀ r, c = .register r → a ≠ .done)
    (hb : ∀ key, s'.base.find? key = if gone key then none else s.base.find? key)
    (hr : ∀ j key, s'.row? j key = if j ≤ k ∧ gone key then none else s.row? j key)

theorem row?_changeBelow {s s' : Stack P} {k : Nat} {f : Layer → Layer}
    (h : s'.layers = changeBelow k f s.layers) (j : Nat) (key : Key) :
    s'.row? j key =
      (s.layer? j).bind fun l =>
        ((if j ≤ k then f l else l).rows.find? key).map (·.payload) := by
  have hl : s'.layer? j = _ := (layer?_congr h j).trans (layer?_changeBelow s s.base k f j)
  rw [row?, hl]
  cases s.layer? j <;> rfl

theorem row?_forgetAt (s : Stack P) (k : Nat) (camera : String) (j : Nat) (key : Key) :
    (s.forgetAt k camera).row? j key =
      if j ≤ k ∧ decide (camera = key.camera.text) then none else s.row? j key := by
  have hl : (s.forgetAt k camera).layers = changeBelow k (·.clear camera) s.layers := rfl
  rw [row?_changeBelow hl, row?]
  cases s.layer? j with
  | none => simp
  | some l =>
    by_cases hj : j ≤ k
    · by_cases hc : camera = key.camera.text <;> simp [hj, hc, Layer.clear, Store.find?_clear]
    · simp [hj]

theorem effect_of_same {s s' : Stack P} (hb : s'.base = s.base) (hl : s'.layers = s.layers)
    {k : Nat} {c : Call P} {a : Answer P} (hc : ∀ r, c = .register r → a ≠ .done) :
    Effect s s' k c a := by
  refine .drop (fun _ => false) hc ?_ ?_
  · intro key
    rw [hb]
    rfl
  · intro j key
    simp [row?_congr hl]

theorem effect_of_sweep {s : Stack P} (ha : s.armed = none) (hn : ∀ l ∈ s.layers, Named l.rows)
    (k : Nat) (w : Walk) (mine : CameraId → Bool) {c : Call P} {a : Answer P}
    (hc : ∀ r, c = .register r → a ≠ .done) :
    Effect s (s.sweepWhere k w mine).1 k c a ∧ (s.sweepWhere k w mine).1.armed = none := by
  obtain ⟨found, hs, -, -⟩ := sweepWhere_of_unarmed ha hn k w mine
  rw [hs]
  refine ⟨.drop (fun key => mine key.camera && (s.verdict? k key).isSome) hc ?_ ?_, ha⟩
  · intro key
    rw [base_logs, base_without, Store.find?_without]
  · intro j key
    rw [row?_logs, row?_without]

theorem effect_of_unarmed {s : Stack P} (ha : s.armed = none) (hn : ∀ l ∈ s.layers, Named l.rows)
    (w : Walk) (sharing : Sharing) (k : Nat) {c : Call P} (hc : c.arms = false) :
    Effect s (s.call w sharing k c).1 k c (s.call w sharing k c).2 ∧
      (s.call w sharing k c).1.armed = none := by
  cases c with
  | register r =>
    cases hk : Key.ofRaw r.camera r.number with
    | error e =>
      simp only [call, registerAt_of_error hk]
      refine ⟨?_, ha⟩
      apply effect_of_same
      · rfl
      · rfl
      · intro r' hr h
        cases h
    | ok key =>
      simp only [call, registerAt_of_ok hk]
      exact ⟨.report r key rfl hk rfl rfl rfl, ha⟩
  | remove camera number =>
    simp only [call, removeAt_eq_without ha]
    refine ⟨.drop (Key.isNamed camera number) ?_ ?_ ?_, ha⟩
    · intro r hr
      cases hr
    · intro key
      exact Store.find?_without _ _ _
    · intro j key
      exact row?_without _ _ _ _ _
  | clear camera =>
    have hf := fireAbove_of_unarmed (s := s.forgetAt k camera) ha k
    simp only [call, clearAt_eq, hf]
    refine ⟨.drop (fun key => decide (camera = key.camera.text)) ?_ ?_ ?_, ha⟩
    · intro r hr
      cases hr
    · intro key
      rw [forgetAt, base_logs]
      simp [Store.find?_clear]
    · intro j key
      exact row?_forgetAt s k camera j key
  | sweep =>
    apply effect_of_sweep ha hn k w
    intro r hr
    cases hr
  | sweepPart part parts =>
    apply effect_of_sweep ha hn k w
    intro r hr
    cases hr
  | arm r => cases hc
  | setClock | get | getByCamera | count | census =>
    refine ⟨?_, ha⟩
    apply effect_of_same
    · rfl
    · rfl
    · intro r hr
      cases hr

end Stack

end LiveTracks
