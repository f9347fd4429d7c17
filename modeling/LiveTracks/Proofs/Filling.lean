import Mathlib.Data.List.Induction
import LiveTracks.Proofs.CallEffect

/-!
# Many reports at one reading of the clock

As long as the clock stands still, a row says the same however often it is written, and an entry is the one that was
reported last. So a stack that has taken many reports is known (`Stack.filled`), also if its numbers have not
all taken the same ones: nothing matters but which reports of each key every number has taken, in which order
(`Stack.filled_congr`). How often an event is logged does not depend on the order at all (`Store.eventCount`).
-/

namespace LiveTracks

variable {P Q : Type}

/-! ### Reports -/

namespace Report

def names (key : Key) (r : Report P) : Bool := key.isNamed r.camera r.number

def isFor (c : CameraId) (r : Report P) : Bool :=
  match Key.ofRaw r.camera r.number with
  | .ok key => decide (key.camera = c)
  | .error _ => false

def fault? (r : Report P) : Option KeyError :=
  match Key.ofRaw r.camera r.number with
  | .ok _ => none
  | .error e => some e

def isValid (r : Report P) : Bool := r.fault?.isNone

def answer (r : Report P) : Answer P :=
  match r.fault? with
  | none => .done
  | some e => .refused e

variable {r : Report P} {key : Key} {e : KeyError}

theorem names_iff : r.names key = true ↔ Key.ofRaw r.camera r.number = .ok key := Key.isNamed_iff

theorem names_of_ok (h : Key.ofRaw r.camera r.number = .ok key) (key' : Key) :
    r.names key' = decide (key = key') := by
  rw [Bool.eq_iff_iff, names_iff, h, Except.ok.injEq, decide_eq_true_eq]

theorem names_of_error (h : Key.ofRaw r.camera r.number = .error e) (key' : Key) : r.names key' = false := by
  rw [Bool.eq_false_iff, ne_eq, names_iff, h]
  exact nofun

theorem fault?_eq_none_iff : r.fault? = none ↔ ∃ key, Key.ofRaw r.camera r.number = .ok key := by
  unfold fault?
  cases Key.ofRaw r.camera r.number <;> simp

theorem isFor_iff {c : CameraId} : r.isFor c = true ↔ ∃ key : Key, r.names key = true ∧ key.camera = c := by
  unfold isFor
  cases h : Key.ofRaw r.camera r.number with
  | ok key => simp [names_of_ok h]
  | error e => simp [names_of_error h]

end Report

theorem filter_names_eq_nil {reports : List (Report P)} {key : Key} (h : ∀ r ∈ reports, r.names key = false) :
    reports.filter (·.names key) = [] :=
  List.filter_eq_nil_iff.2 fun r hr => by rw [h r hr]; exact Bool.false_ne_true

/-- For every key the same reports in the same order. -/
def SameByKey (a b : List (Report P)) : Prop := ∀ key, a.filter (·.names key) = b.filter (·.names key)

theorem sameByKey_concat_of_error {r : Report P} {e : KeyError} (h : Key.ofRaw r.camera r.number = .error e)
    (a : List (Report P)) : SameByKey (a ++ [r]) a := by
  intro key
  rw [List.filter_append, List.filter_cons_of_neg (by simp [Report.names_of_error h]), List.filter_nil,
    List.append_nil]

theorem SameByKey.any_isFor {a b : List (Report P)} (h : SameByKey a b) (c : CameraId) :
    a.any (·.isFor c) = b.any (·.isFor c) := by
  have hmem : ∀ l : List (Report P), l.any (·.isFor c) = true ↔
      ∃ key : Key, key.camera = c ∧ ∃ r, r ∈ l.filter (·.names key) := by
    intro l
    simp only [List.any_eq_true, Report.isFor_iff, List.mem_filter]
    constructor
    · rintro ⟨r, hr, key, hnames, hc⟩
      exact ⟨key, hc, r, hr, hnames⟩
    · rintro ⟨key, hc, r, hr, hnames⟩
      exact ⟨r, hr, key, hnames, hc⟩
  rw [Bool.eq_iff_iff, hmem, hmem]
  simp only [h _]

/-- No report of the second list names a key that one of the first names. -/
def Apart (a b : List (Report P)) : Prop :=
  ∀ key, ∀ r ∈ a, ∀ r' ∈ b, r.names key = true → r'.names key = false

section Apart

variable {a b : List (Report P)} {lists order : List (List (Report P))}

theorem Apart.symm (h : Apart a b) : Apart b a := by
  intro key r hr r' hr' hnames
  rw [Bool.eq_false_iff]
  intro hnames'
  rw [h key r' hr' r hr hnames'] at hnames
  cases hnames

theorem filter_eq_nil_of_apart (h : Apart a b) {key : Key} (ha : a.filter (·.names key) ≠ []) :
    b.filter (·.names key) = [] := by
  obtain ⟨r, hr⟩ := List.exists_mem_of_ne_nil _ ha
  obtain ⟨hmem, hnames⟩ := List.mem_filter.1 hr
  rw [List.filter_eq_nil_iff]
  intro r' hr'
  rw [h key r hmem r' hr' hnames]
  exact Bool.false_ne_true

/-- Of each key, at most one of the lists has reports, so the order of the lists does not matter. -/
theorem sameByKey_flatten (hd : lists.Pairwise Apart) (ho : order.Perm lists) :
    SameByKey order.flatten lists.flatten := by
  induction ho with
  | nil => exact fun _ => rfl
  | cons list _ ih =>
    intro key
    rw [List.flatten_cons, List.flatten_cons, List.filter_append, List.filter_append, ih hd.of_cons key]
  | swap a b rest =>
    intro key
    have hab : Apart a b := List.rel_of_pairwise_cons hd List.mem_cons_self
    simp only [List.flatten_cons, List.filter_append, ← List.append_assoc]
    by_cases ha : a.filter (·.names key) = []
    · rw [ha, List.append_nil, List.nil_append]
    · rw [filter_eq_nil_of_apart hab ha, List.append_nil, List.nil_append]
  | trans _ hperm ih ih' =>
    have hmiddle := (hperm.pairwise_iff fun h => Apart.symm h).2 hd
    exact fun key => (ih hmiddle key).trans (ih' hd key)

end Apart

/-! ### Stores -/

namespace Store

/-- Takes the reports that name a track, each with what `value` makes of it. -/
def fill (s : Store Q) (value : Key → Report P → Q) (reports : List (Report P)) : Store Q :=
  reports.foldl (fun s r =>
    match Key.ofRaw r.camera r.number with
    | .ok key => s.put (key.entry (value key r))
    | .error _ => s) s

variable {s : Store Q} {value : Key → Report P → Q} {reports : List (Report P)} {r : Report P}

theorem fill_concat_of_ok {key : Key} (h : Key.ofRaw r.camera r.number = .ok key) :
    s.fill value (reports ++ [r]) = (s.fill value reports).put (key.entry (value key r)) := by
  simp only [fill, List.foldl_append, List.foldl_cons, List.foldl_nil, h]

theorem fill_concat_of_error {e : KeyError} (h : Key.ofRaw r.camera r.number = .error e) :
    s.fill value (reports ++ [r]) = s.fill value reports := by
  simp only [fill, List.foldl_append, List.foldl_cons, List.foldl_nil, h]

theorem find?_fill (s : Store Q) (value : Key → Report P → Q) (reports : List (Report P)) (key : Key) :
    (s.fill value reports).find? key =
      ((reports.filter (·.names key)).getLast?.map fun r => key.entry (value key r)).or (s.find? key) := by
  induction reports using List.reverseRecOn with
  | nil => rfl
  | append_singleton reports r ih =>
    cases h : Key.ofRaw r.camera r.number with
    | error e => rw [fill_concat_of_error h, sameByKey_concat_of_error h, ih]
    | ok key' =>
      rw [fill_concat_of_ok h, find?_put, Key.key_entry, List.filter_append]
      by_cases hk : key = key'
      · subst hk
        simp [Report.names_of_ok h]
      · simp [Report.names_of_ok h, hk, Ne.symm hk, ih]

theorem knows_fill (s : Store Q) (value : Key → Report P → Q) (reports : List (Report P)) (c : CameraId) :
    (s.fill value reports).knows c = (s.knows c || reports.any (·.isFor c)) := by
  induction reports using List.reverseRecOn with
  | nil => simp [fill]
  | append_singleton reports r ih =>
    rw [List.any_append, List.any_cons, List.any_nil, Bool.or_false]
    cases h : Key.ofRaw r.camera r.number with
    | error e => rw [fill_concat_of_error h, ih, Report.isFor, h, Bool.or_false]
    | ok key =>
      have hcamera : decide (c = key.camera) = decide (key.camera = c) := decide_eq_decide.2 eq_comm
      rw [fill_concat_of_ok h, knows_put, ih, Report.isFor, h, Key.entry, hcamera, Bool.or_comm, Bool.or_assoc]

theorem fill_congr {a b : List (Report P)} (h : SameByKey a b) (s : Store Q) (value : Key → Report P → Q) :
    s.fill value a = s.fill value b := by
  apply ext
  · intro key
    rw [find?_fill, find?_fill, h key]
  · intro c
    rw [knows_fill, knows_fill, h.any_isFor c]

/-! ### Events -/

def announced (s : Store P) (r : Report P) : List Event :=
  match r.fault? with
  | none => Stack.creation s r.camera
  | some e => [.rejected r.camera e]

/-- How often the store logs an event while it takes these reports, in whatever order. -/
def eventCount (s : Store P) (reports : List (Report P)) : Event → Nat
  | .created c => if !s.knows c && reports.any (·.isFor c) then 1 else 0
  | .rejected camera e => reports.countP fun r => decide (r.camera = camera ∧ r.fault? = some e)
  | _ => 0

theorem eventCount_perm {a b : List (Report P)} (h : a.Perm b) (s : Store P) (e : Event) :
    s.eventCount a e = s.eventCount b e := by
  cases e with
  | created c => rw [eventCount, eventCount, h.any_eq]
  | rejected camera e => exact h.countP_eq _
  | _ => rfl

theorem creation_of_ok {s : Store P} {key : Key} (h : Key.ofRaw r.camera r.number = .ok key) :
    Stack.creation s r.camera = if s.knows key.camera then [] else [.created key.camera] := by
  rw [Stack.creation, (Key.ofRaw_eq_ok_iff.1 h).1, CameraId.ofString?_text]

theorem eventCount_concat (s : Store P) (value : Key → Report P → P) (reports : List (Report P)) (r : Report P)
    (e : Event) :
    s.eventCount (reports ++ [r]) e =
      s.eventCount reports e + ((s.fill value reports).announced r).count e := by
  cases h : Key.ofRaw r.camera r.number with
  | error fault =>
    have hfault : r.fault? = some fault := by rw [Report.fault?, h]
    have hfor : ∀ c, r.isFor c = false := fun c => by rw [Report.isFor, h]
    cases e with
    | created c => simp [eventCount, announced, hfault, hfor]
    | rejected camera e =>
      by_cases hr : r.camera = camera ∧ fault = e
      · simp [eventCount, announced, hfault, List.countP_append, hr]
      · simp [eventCount, announced, hfault, List.countP_append, hr]
    | _ => simp [eventCount, announced, hfault]
  | ok key =>
    have hfault : r.fault? = none := by rw [Report.fault?, h]
    have hfor : ∀ c, r.isFor c = decide (key.camera = c) := fun c => by rw [Report.isFor, h]
    simp only [announced, hfault, creation_of_ok h, knows_fill]
    cases e with
    | created c =>
      -- only the first report on a camera that is not known creates it
      by_cases hc : key.camera = c
      · subst hc
        cases hknows : s.knows key.camera <;> cases hany : reports.any (·.isFor key.camera) <;>
          simp [eventCount, hknows, hany, hfor]
      · have hother : (if s.knows key.camera || reports.any (·.isFor key.camera) then ([] : List Event)
            else [.created key.camera]).count (.created c) = 0 := by
          split <;> simp [hc]
        simp only [eventCount, List.any_append, List.any_cons, List.any_nil, hfor, hc, decide_false,
          Bool.or_false, hother, Nat.add_zero]
    | rejected camera e =>
      simp only [eventCount, List.countP_append]
      split <;> simp [hfault]
    | _ =>
      simp only [eventCount]
      split <;> simp

end Store

/-! ### Layers -/

namespace Layer

def filled (l : Layer) (now : Instant) (reports : List (Report P)) : Layer :=
  { l with rows := l.rows.fill (fun key _ => l.extended key now) reports }

theorem find?_filled (l : Layer) (now : Instant) (reports : List (Report P)) (key : Key) :
    (l.filled now reports).rows.find? key =
      ((reports.filter (·.names key)).getLast?.map fun _ => key.entry (l.extended key now)).or (l.rows.find? key) :=
  l.rows.find?_fill _ reports key

/-- What is noted once more at the same time is noted as before. -/
theorem extended_filled (l : Layer) (now : Instant) (reports : List (Report P)) (key : Key) :
    (l.filled now reports).extended key now = l.extended key now := by
  rw [extended, find?_filled]
  cases (reports.filter (·.names key)).getLast? with
  | none => rfl
  | some r => rfl

theorem filled_concat_of_ok {r : Report P} {key : Key} (h : Key.ofRaw r.camera r.number = .ok key) (l : Layer)
    (now : Instant) (reports : List (Report P)) :
    l.filled now (reports ++ [r]) = (l.filled now reports).noted key now := by
  rw [noted, extended_filled, filled, Store.fill_concat_of_ok h]
  rfl

theorem filled_congr {a b : List (Report P)} (h : SameByKey a b) (l : Layer) (now : Instant) :
    l.filled now a = l.filled now b := by
  rw [filled, filled, Store.fill_congr h]

end Layer

/-! ### Stacks -/

namespace Stack

/-- The stack once each number up to `k` has taken its reports, at one reading of the clock. -/
def filled (s : Stack P) (k : Nat) (reports : Nat → List (Report P)) (log : List Event) : Stack P :=
  { s with
    base := s.base.fill (fun _ r => r.payload) (reports 0)
    layers := s.layers.mapIdx fun i l => if i < k then l.filled s.clock (reports (i + 1)) else l
    log }

variable {s : Stack P} {k : Nat}

theorem getElem?_filled (reports : Nat → List (Report P)) (log : List Event) (i : Nat) :
    (s.filled k reports log).layers[i]? =
      s.layers[i]?.map fun l => if i < k then l.filled s.clock (reports (i + 1)) else l := List.getElem?_mapIdx

theorem find?_filled (s : Stack P) (k : Nat) (reports : Nat → List (Report P)) (log : List Event) (key : Key) :
    (s.filled k reports log).base.find? key =
      (((reports 0).filter (·.names key)).getLast?.map fun r => key.entry r.payload).or (s.base.find? key) :=
  s.base.find?_fill _ (reports 0) key

theorem filled_of_layers {a b : Nat → List (Report P)} (h : SameByKey (a 0) (b 0)) {log : List Event}
    {layers : List Layer} (hlayers : (s.filled k a log).layers = layers) :
    s.filled k a log = { s.filled k b log with layers } := by
  subst hlayers
  simp only [filled, Store.fill_congr h]

theorem filled_congr {a b : Nat → List (Report P)} (h : ∀ j, j ≤ k → SameByKey (a j) (b j)) (log : List Event) :
    s.filled k a log = s.filled k b log := by
  have hlayers : (s.filled k a log).layers = (s.filled k b log).layers := by
    apply List.ext_getElem?
    intro i
    rw [getElem?_filled, getElem?_filled]
    by_cases hi : i < k
    · simp only [if_pos hi, Layer.filled_congr (h (i + 1) hi)]
    · simp only [if_neg hi]
  exact filled_of_layers (h 0 (Nat.zero_le k)) hlayers

theorem filled_nil (s : Stack P) (k : Nat) : s.filled k (fun _ => []) s.log = s := by
  have hlayers : (s.filled k (fun _ => ([] : List (Report P))) s.log).layers = s.layers := by
    apply List.ext_getElem?
    intro i
    rw [getElem?_filled]
    cases s.layers[i]? with
    | none => rfl
    | some l => cases decide (i < k) <;> simp [Layer.filled, Store.fill]
  simp only [filled] at hlayers ⊢
  rw [hlayers]
  rfl

/-- A report on a lower number leaves out the layers above it. -/
theorem registerAt_filled {j : Nat} (hj : j ≤ k) (reports : Nat → List (Report P)) (log : List Event)
    (r : Report P) :
    ((s.filled k reports log).registerAt j r).1 =
      s.filled k (fun i => if i ≤ j then reports i ++ [r] else reports i)
        (log ++ (s.base.fill (fun _ r => r.payload) (reports 0)).announced r) := by
  cases h : Key.ofRaw r.camera r.number with
  | error e =>
    have hsame : ∀ i, i ≤ k → SameByKey (if i ≤ j then reports i ++ [r] else reports i) (reports i) := by
      intro i _
      split
      · exact sameByKey_concat_of_error h _
      · exact fun _ => rfl
    rw [filled_congr hsame, registerAt_of_error h, Store.announced, Report.fault?, h]
    rfl
  | ok key =>
    have hlayers : changeBelow j (·.noted key s.clock) (s.filled k reports log).layers =
        (s.filled k (fun i => if i ≤ j then reports i ++ [r] else reports i) log).layers := by
      apply List.ext_getElem?
      intro i
      rw [getElem?_changeBelow, getElem?_filled, getElem?_filled]
      by_cases hi : i < j
      · have hik : i < k := Nat.lt_of_lt_of_le hi hj
        have hij : i + 1 ≤ j := hi
        simp only [if_pos hi, if_pos hik, if_pos hij, Option.map_map, Function.comp_def,
          Layer.filled_concat_of_ok h]
      · have hij : ¬ i + 1 ≤ j := hi
        simp only [if_neg hi, if_neg hij]
    rw [registerAt_of_ok h, Store.announced, Report.fault?, h]
    simp only [filled, reported, logs] at hlayers ⊢
    rw [hlayers, if_pos (Nat.zero_le j), Store.fill_concat_of_ok h]

/-- The reports with one more for the layer above `i` others. -/
def withOneMore (reports : Nat → List (Report P)) (i : Nat) (r : Report P) (j : Nat) : List (Report P) :=
  if j = i + 1 then reports j ++ [r] else reports j

theorem withOneMore_of_ne {i j : Nat} (hj : j ≠ i + 1) (reports : Nat → List (Report P)) (r : Report P) :
    withOneMore reports i r j = reports j := if_neg hj

theorem withOneMore_self (reports : Nat → List (Report P)) (i : Nat) (r : Report P) :
    withOneMore reports i r (i + 1) = reports (i + 1) ++ [r] := if_pos rfl

section OneMore

variable (reports : Nat → List (Report P)) (log : List Event) {i : Nat} (r : Report P)

theorem filled_withOneMore {layers : List Layer} (hself : (s.filled k (withOneMore reports i r) log).layers[i]? =
      layers[i]?) (hother : ∀ j, j ≠ i → (s.filled k reports log).layers[j]? = layers[j]?) :
    s.filled k (withOneMore reports i r) log = { s.filled k reports log with layers } := by
  refine filled_of_layers ?_ (List.ext_getElem? fun j => ?_)
  · rw [withOneMore_of_ne (Nat.succ_ne_zero i).symm]
    exact fun _ => rfl
  · by_cases hj : j = i
    · subst hj
      exact hself
    · have hji : j + 1 ≠ i + 1 := by omega
      rw [← hother j hj, getElem?_filled, getElem?_filled, withOneMore_of_ne hji]

theorem filled_withOneMore_of_none (hl : s.layers[i]? = none) :
    s.filled k (withOneMore reports i r) log = s.filled k reports log := by
  have hself : (s.filled k (withOneMore reports i r) log).layers[i]? = (s.filled k reports log).layers[i]? := by
    rw [getElem?_filled, getElem?_filled, hl, Option.map_none, Option.map_none]
  exact filled_withOneMore reports log r hself fun j _ => rfl

theorem filled_withOneMore_of_some {key : Key} (h : Key.ofRaw r.camera r.number = .ok key) (hi : i < k) {l : Layer}
    (hl : s.layers[i]? = some l) :
    s.filled k (withOneMore reports i r) log =
      { s.filled k reports log with
        layers := (s.filled k reports log).layers.set i
          ((l.filled s.clock (reports (i + 1))).noted key s.clock) } := by
  have hlt : i < (s.filled k reports log).layers.length := by
    simp only [filled, List.length_mapIdx]
    exact (List.getElem?_eq_some_iff.1 hl).1
  refine filled_withOneMore reports log r ?_ fun j hj => (List.getElem?_set_ne (Ne.symm hj)).symm
  rw [List.getElem?_set_self hlt, getElem?_filled, hl, Option.map_some, if_pos hi, withOneMore_self,
    Layer.filled_concat_of_ok h]

end OneMore

def reporting (k : Nat) (reports : List (Report P)) : List (Step P) :=
  reports.map fun r => .plain k (.register r)

theorem run_reporting (s : Stack P) (k : Nat) (reports : List (Report P)) :
    ∃ log, s.run (reporting k reports) = s.filled k (fun _ => reports) log ∧
      ∀ e, log.count e = s.log.count e + s.base.eventCount reports e := by
  induction reports using List.reverseRecOn with
  | nil =>
    refine ⟨s.log, (s.filled_nil k).symm, fun e => ?_⟩
    cases e <;> simp [Store.eventCount]
  | append_singleton reports r ih =>
    obtain ⟨log, hrun, hcount⟩ := ih
    have hrest : s.run (reporting k (reports ++ [r])) = ((s.run (reporting k reports)).registerAt k r).1 := by
      simp only [reporting, List.map_append, List.map_cons, List.map_nil, run, List.foldl_append,
        List.foldl_cons, List.foldl_nil]
      exact call_register_fst ..
    refine ⟨log ++ (s.base.fill (fun _ r => r.payload) reports).announced r, ?_, fun e => ?_⟩
    · rw [hrest, hrun, registerAt_filled (Nat.le_refl k)]
      apply filled_congr
      intro j hj
      rw [if_pos hj]
      exact fun _ => rfl
    · rw [List.count_append, hcount, Store.eventCount_concat, Nat.add_assoc]

end Stack

end LiveTracks
