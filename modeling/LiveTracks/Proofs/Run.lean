import LiveTracks.Proofs.Reporting
import LiveTracks.Stack.Call

/-!
# Runs

A run is a list of calls, each on a number of its own and with its own order of visits. Sweeps and
armed reports are made of reports, droppings and entries in the log, so what these keep is kept by
every call (`Inductive.call`) and by every run (`Inductive.run`).
-/

namespace LiveTracks

variable {P : Type}

/-- A call, the number that it is made on, and how a sweep would visit and share out. -/
structure Step (P : Type) where
  number : Nat
  walk : Walk
  sharing : Sharing
  call : Call P

def Step.plain (number : Nat) (call : Call P) : Step P := ⟨number, .ascending, .byName, call⟩

namespace Stack

def step (s : Stack P) (st : Step P) : Stack P := (s.call st.walk st.sharing st.number st.call).1

def run (s : Stack P) (steps : List (Step P)) : Stack P := steps.foldl step s

def Reachable (s : Stack P) : Prop := ∃ policies steps, s = (ofPolicies policies).run steps

/-! ### What every sweep keeps -/

section Sweep

variable {p : Stack P → Prop} {k : Nat}
  (hremove : ∀ s camera number, p s → p (s.removeAt k camera number))
  (hlogs : ∀ s events, p s → p (s.logs events))
include hremove hlogs

theorem visitRow_keeps (policy : Policy) (now : Instant) (c : CameraId)
    (acc : Stack P × List (Expired P)) (row : Entry Lifetime) (hs : p acc.1) :
    p (visitRow k policy now c acc row).1 := by
  unfold visitRow
  split
  · exact hs
  · split
    · exact hs
    · split
      · exact hs
      · dsimp only
        split
        · exact hremove _ c.text _ hs
        · exact hlogs _ _ (hremove _ c.text _ hs)

theorem visitCamera_keeps (w : Walk) (policy : Policy) (now : Instant)
    (acc : Stack P × List (Expired P)) (c : CameraId) (hs : p acc.1) :
    p (visitCamera k w policy now acc c).1 := by
  unfold visitCamera
  apply List.foldlRecOn (motive := fun acc : Stack P × List (Expired P) => p acc.1) _ _ hs
  intro acc ha row hrow
  exact visitRow_keeps hremove hlogs policy now c acc row ha

theorem sweepWhere_keeps {s : Stack P} (w : Walk) (mine : CameraId → Bool) (hs : p s) :
    p (s.sweepWhere k w mine).1 := by
  unfold sweepWhere
  split
  · exact hs
  · apply List.foldlRecOn (motive := fun acc : Stack P × List (Expired P) => p acc.1) _ _ hs
    intro acc ha c hc
    exact visitCamera_keeps hremove hlogs w _ _ acc c ha

end Sweep

/-! ### What every call keeps -/

def dropAt (s : Stack P) (k : Nat) (camera : String) (number : Int64) : Stack P :=
  { s with
    layers := changeBelow k (·.drop camera number) s.layers
    base := s.base.remove camera number }

def forgetAt (s : Stack P) (k : Nat) (camera : String) : Stack P :=
  { s with
    layers := changeBelow k (·.clear camera) s.layers
    base := (s.base.clear camera).1 }.logs (clearing camera (s.base.clear camera).2)

theorem removeAt_eq (s : Stack P) (k : Nat) (camera : String) (number : Int64) :
    s.removeAt k camera number = (s.dropAt k camera number).fireAbove k := rfl

theorem clearAt_eq (s : Stack P) (k : Nat) (camera : String) :
    s.clearAt k camera = (s.forgetAt k camera).fireAbove k := rfl

/-- Kept by everything that calls are made of. -/
structure Inductive (p : Stack P → Prop) : Prop where
  register : ∀ s k r, p s → p (s.registerAt k r).1
  drop : ∀ s k camera number, p s → p (s.dropAt k camera number)
  forget : ∀ s k camera, p s → p (s.forgetAt k camera)
  logs : ∀ s events, p s → p (s.logs events)
  clock : ∀ s now, p s → p { s with clock := now }
  arm : ∀ s armed, p s → p { s with armed }

namespace Inductive

variable {p : Stack P → Prop}

theorem fireAbove (hp : Inductive p) {s : Stack P} (k : Nat) (hs : p s) : p (s.fireAbove k) := by
  unfold Stack.fireAbove
  split
  · exact hs
  · unfold fire
    split
    · exact hp.register _ _ _ (hp.arm s none hs)
    · exact hs

theorem removeAt (hp : Inductive p) {s : Stack P} (k : Nat) (camera : String) (number : Int64)
    (hs : p s) : p (s.removeAt k camera number) := by
  rw [removeAt_eq]
  exact hp.fireAbove k (hp.drop s k camera number hs)

theorem clearAt (hp : Inductive p) {s : Stack P} (k : Nat) (camera : String) (hs : p s) :
    p (s.clearAt k camera) := by
  rw [clearAt_eq]
  exact hp.fireAbove k (hp.forget s k camera hs)

theorem visitRow (hp : Inductive p) (k : Nat) (policy : Policy) (now : Instant) (c : CameraId)
    (acc : Stack P × List (Expired P)) (row : Entry Lifetime) (hs : p acc.1) :
    p (Stack.visitRow k policy now c acc row).1 :=
  visitRow_keeps (fun _ camera number => hp.removeAt k camera number) hp.logs policy now c acc row hs

theorem visitCamera (hp : Inductive p) (k : Nat) (w : Walk) (policy : Policy) (now : Instant)
    (acc : Stack P × List (Expired P)) (c : CameraId) (hs : p acc.1) :
    p (Stack.visitCamera k w policy now acc c).1 :=
  visitCamera_keeps (fun _ camera number => hp.removeAt k camera number) hp.logs w policy now acc c hs

theorem sweepWhere (hp : Inductive p) {s : Stack P} (k : Nat) (w : Walk) (mine : CameraId → Bool)
    (hs : p s) : p (s.sweepWhere k w mine).1 :=
  sweepWhere_keeps (fun _ camera number => hp.removeAt k camera number) hp.logs w mine hs

theorem call (hp : Inductive p) {s : Stack P} (w : Walk) (sharing : Sharing) (k : Nat)
    (c : Call P) (hs : p s) : p (s.call w sharing k c).1 := by
  cases c with
  | register r =>
    have hr := hp.register s k r hs
    simp only [Stack.call]
    split <;> simp_all
  | remove camera number => exact hp.removeAt k camera number hs
  | clear camera => exact hp.clearAt k camera hs
  | sweep => exact hp.sweepWhere k w _ hs
  | sweepPart part parts => exact hp.sweepWhere k w _ hs
  | setClock now => exact hp.clock s now hs
  | arm r => exact hp.arm s (some r) hs
  | get | getByCamera | count | census => exact hs

theorem run (hp : Inductive p) {s : Stack P} (steps : List (Step P)) (hs : p s) :
    p (s.run steps) := by
  apply List.foldlRecOn (motive := p) _ _ hs
  intro s hs st hst
  exact hp.call st.walk st.sharing st.number st.call hs

end Inductive

/-! ### What single layers keep -/

theorem noteBelow_keeps {q : Layer → Prop} {camera : String} {number : Int64} {now : Instant}
    (hq : ∀ l l', q l → l.note camera number now = .ok l' → q l') (k : Nat) (layers : List Layer)
    (h : ∀ l ∈ layers, q l) : ∀ l ∈ (noteBelow camera number now k layers).1, q l := by
  induction layers generalizing k with
  | nil =>
    intro l hl
    cases k <;> simp [noteBelow] at hl
  | cons l layers ih =>
    cases k with
    | zero => exact h
    | succ k =>
      simp only [noteBelow]
      cases hn : l.note camera number now with
      | error e => exact h
      | ok l' =>
        have hl := hq l l' (h l List.mem_cons_self) hn
        have hr := ih k fun l hl => h l (List.mem_cons_of_mem _ hl)
        intro x hx
        rcases List.mem_cons.1 hx with rfl | hx
        · exact hl
        · exact hr x hx

theorem mem_changeBelow {k : Nat} {f : Layer → Layer} {layers : List Layer} {l : Layer}
    (h : l ∈ changeBelow k f layers) : l ∈ layers ∨ ∃ l' ∈ layers, l = f l' := by
  rcases List.mem_append.1 h with h | h
  · obtain ⟨l', hl, rfl⟩ := List.mem_map.1 h
    exact .inr ⟨l', List.mem_of_mem_take hl, rfl⟩
  · exact .inl (List.mem_of_mem_drop h)

/-- What a layer keeps at each of its changes, all layers keep at each call. -/
theorem inductive_layers {q : Layer → Prop}
    (note : ∀ l camera number now l', q l → l.note camera number now = .ok l' → q l')
    (drop : ∀ l camera number, q l → q (l.drop camera number))
    (clear : ∀ l camera, q l → q (l.clear camera)) :
    Inductive fun s : Stack P => ∀ l ∈ s.layers, q l where
  register s k r hs := by
    unfold registerAt
    split
    · exact hs
    · exact noteBelow_keeps (fun l l' => note l r.camera r.number s.clock l') k s.layers hs
  drop s k camera number hs l hl := by
    rcases mem_changeBelow hl with hl | ⟨l', hl', rfl⟩
    · exact hs l hl
    · exact drop l' camera number (hs l' hl')
  forget s k camera hs l hl := by
    rcases mem_changeBelow hl with hl | ⟨l', hl', rfl⟩
    · exact hs l hl
    · exact clear l' camera (hs l' hl')
  logs s events hs := hs
  clock s now hs := hs
  arm s armed hs := hs

/-! ### Rows have signed numbers -/

/-- Every row belongs to a track that some signed number names. -/
def Named (s : Store P) : Prop :=
  ∀ k e, s.find? k = some e → ∃ number, k.track.toRaw? = some number

theorem named_put {s : Store P} {e : Entry P} {camera : String} {number : Int64} (hs : Named s)
    (he : Key.ofRaw camera number = .ok e.key) : Named (s.put e) := by
  intro k e' h
  rw [Store.find?_put] at h
  split at h
  · rename_i hk
    subst hk
    exact ⟨number, TrackId.toRaw?_eq_some_iff.2 (Key.ofRaw_eq_ok_iff.1 he).2⟩
  · exact hs k e' h

theorem named_without {s : Store P} (hs : Named s) (gone : Key → Bool) :
    Named (s.without gone) := by
  intro k e h
  rw [Store.find?_without] at h
  split at h
  · cases h
  · exact hs k e h

theorem named_clear {s : Store P} (hs : Named s) (camera : String) :
    Named (s.clear camera).1 := by
  intro k e h
  rw [Store.find?_clear] at h
  split at h
  · cases h
  · exact hs k e h

theorem inductive_named :
    Inductive fun s : Stack P => ∀ l ∈ s.layers, Named l.rows := by
  apply inductive_layers
  · intro l camera number now l' hl hn
    obtain ⟨k, hk, rfl⟩ := Layer.note_eq_ok_iff.1 hn
    exact named_put hl hk
  · intro l camera number hl
    rw [Layer.drop_eq_without]
    exact named_without hl _
  · intro l camera hl
    exact named_clear hl camera

theorem named_of_reachable {s : Stack P} (hs : s.Reachable) : ∀ l ∈ s.layers, Named l.rows := by
  obtain ⟨policies, steps, rfl⟩ := hs
  apply inductive_named.run steps
  intro l hl k row hrow
  obtain ⟨policy, -, rfl⟩ := List.mem_map.1 hl
  rw [Store.find?_empty] at hrow
  cases hrow

end Stack

end LiveTracks
