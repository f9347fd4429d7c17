import LiveTracks.Proofs.Filling
import LiveTracks.Proofs.Shares
import LiveTracks.Finisher.Outlet
import LiveTracks.Proofs.Underway

/-!
# Workers in the background

As long as the clock stands still, what is reported again after it was dropped does not expire again, and dropping
some tracks does not get in the way of reports of others (`Stack.without_filled`). So the stack with the workers at
work is known at any moment from the shares that have been swept and the tracks that have been handed over
(`Stack.handled`, `Underway.Progress`). Once every worker has ended a round, it is the stack after one sweep of all
cameras with the same finisher (`background_eq_sweepOnce`).
-/

namespace LiveTracks

variable {σ P Q : Type}

/-! ### Dropping and reporting -/

namespace Store

theorem fill_value_congr {value value' : Key → Report P → Q} {reports : List (Report P)}
    (h : ∀ key, ∀ r ∈ reports, r.names key = true → value key r = value' key r) (s : Store Q) :
    s.fill value reports = s.fill value' reports := by
  apply ext
  · intro key
    rw [find?_fill, find?_fill]
    cases hr : (reports.filter (·.names key)).getLast? with
    | none => rfl
    | some r =>
      obtain ⟨hmem, hnames⟩ := List.mem_filter.1 (List.mem_of_getLast? hr)
      rw [Option.map_some, Option.map_some, h key r hmem hnames]
  · intro c
    rw [knows_fill, knows_fill]

theorem without_fill {reports : List (Report P)} {gone : Key → Bool}
    (h : ∀ key, gone key = true → ∀ r ∈ reports, r.names key = false) (s : Store Q) (value : Key → Report P → Q) :
    (s.fill value reports).without gone = (s.without gone).fill value reports := by
  apply ext
  · intro key
    rw [find?_without, find?_fill, find?_fill, find?_without]
    cases hg : gone key with
    | false => rfl
    | true =>
      simp [filter_names_eq_nil (h key hg)]
  · intro c
    rw [knows_without, knows_fill, knows_fill, knows_without]

end Store

/-- What is reported for the first time has passed no limit yet. -/
theorem Policy.evaluate_of_fresh (p : Policy) (now : Instant) : p.evaluate ⟨now, now⟩ now = none :=
  evaluate_eq_none_iff.2 (by simp)

theorem Layer.without_filled {reports : List (Report P)} {gone : Key → Bool}
    (h : ∀ key, gone key = true → ∀ r ∈ reports, r.names key = false) (l : Layer) (now : Instant) :
    (l.filled now reports).without gone = (l.without gone).filled now reports := by
  have hrows : (l.rows.fill (fun key _ => l.extended key now) reports).without gone =
      (l.rows.without gone).fill (fun key _ => (l.without gone).extended key now) reports := by
    rw [Store.without_fill h]
    refine Store.fill_value_congr (fun key r hr hnames => ?_) _
    have hkept : gone key = false := by
      rw [Bool.eq_false_iff]
      intro hg
      rw [h key hg r hr] at hnames
      cases hnames
    rw [extended, extended, Layer.rows_without, Store.find?_without, hkept]
    rfl
  simp only [filled, Layer.without, hrows]

namespace Stack

variable {s : Stack P} {k : Nat} {reports : List (Report P)} {log : List Event} {key : Key}

theorem without_filled {gone : Key → Bool} (h : ∀ key, gone key = true → ∀ r ∈ reports, r.names key = false) :
    (s.filled k (fun _ => reports) log).without k gone = (s.without k gone).filled k (fun _ => reports) log := by
  have hlayers : changeBelow k (·.without gone) (s.filled k (fun _ => reports) log).layers =
      ((s.without k gone).filled k (fun _ => reports) log).layers := by
    apply List.ext_getElem?
    intro i
    rw [getElem?_changeBelow, getElem?_filled, getElem?_filled, without, getElem?_changeBelow]
    by_cases hi : i < k
    · simp only [if_pos hi, Option.map_map, Function.comp_def, Layer.without_filled h]
    · simp only [if_neg hi]
  rw [without, hlayers]
  simp only [filled, without, Store.without_fill h]

theorem depth_filled (reports : Nat → List (Report P)) : (s.filled k reports log).depth = s.depth := by
  simp only [depth, filled, List.length_mapIdx]

theorem depth_left (mine : CameraId → Bool) : (s.left k mine).depth = s.depth := by
  simp only [depth, left, without, length_changeBelow]

theorem layer?_filled {j : Nat} (hj : 0 < j) (hjk : j ≤ k) :
    (s.filled k (fun _ => reports) log).layer? j = (s.layer? j).map (·.filled s.clock reports) := by
  obtain ⟨i, rfl⟩ := Nat.exists_eq_succ_of_ne_zero (Nat.ne_of_gt hj)
  have hl := getElem?_filled (s := s) (k := k) (fun _ => reports) log i
  simp only [if_pos (Nat.lt_of_succ_le hjk)] at hl
  exact hl

theorem row?_filled_of_unnamed (h : ∀ r ∈ reports, r.names key = false) {j : Nat} (hjk : j ≤ k) :
    (s.filled k (fun _ => reports) log).row? j key = s.row? j key := by
  rcases Nat.eq_zero_or_pos j with rfl | hj
  · rfl
  · rw [row?, row?, layer?_filled hj hjk]
    cases s.layer? j with
    | none => rfl
    | some l =>
      simp only [Option.map_some, Option.bind_some, Layer.find?_filled, filter_names_eq_nil h]
      rfl

theorem verdict?_filled_of_unnamed (h : ∀ r ∈ reports, r.names key = false) :
    (s.filled k (fun _ => reports) log).verdict? k key = s.verdict? k key := by
  rcases Nat.eq_zero_or_pos k with rfl | hk
  · rfl
  · have hlayer : (s.filled k (fun _ => reports) log).layer? k = (s.layer? k).map (·.filled s.clock reports) :=
      layer?_filled hk (Nat.le_refl k)
    cases hl : s.layer? k with
    | none =>
      rw [verdict?, verdict?, hlayer, hl]
      rfl
    | some l =>
      rw [hl, Option.map_some] at hlayer
      rw [verdict?_eq_bind_row? hlayer, verdict?_eq_bind_row? hl, row?_filled_of_unnamed h (Nat.le_refl k)]
      rfl

theorem expired?_filled_of_unnamed (h : ∀ r ∈ reports, r.names key = false) :
    (s.filled k (fun _ => reports) log).expired? k key = s.expired? k key := by
  rw [expired?, expired?, verdict?_filled_of_unnamed h, find?_filled, filter_names_eq_nil h]
  rfl

/-- No report names a track that layer `k` has a row of. -/
def Fresh (s : Stack P) (k : Nat) (reports : List (Report P)) : Prop :=
  ∀ key, ∀ r ∈ reports, r.names key = true → s.row? k key = none

theorem Fresh.filter_eq_nil (h : s.Fresh k reports) (hrow : (s.row? k key).isSome = true) :
    reports.filter (·.names key) = [] := by
  refine List.filter_eq_nil_iff.2 fun r hr hnames => ?_
  rw [h key r hr hnames] at hrow
  cases hrow

theorem isSome_row?_of_isSome_verdict? (h : (s.verdict? k key).isSome = true) : (s.row? k key).isSome = true := by
  obtain ⟨l, row, hl, hrow⟩ := isSome_row?_of_verdict? h
  rw [row?, hl, Option.bind_some, hrow]
  rfl

theorem verdict?_filled (h : s.Fresh k reports) :
    (s.filled k (fun _ => reports) log).verdict? k key = s.verdict? k key := by
  rcases Nat.eq_zero_or_pos k with rfl | hk
  · rfl
  · rw [verdict?, verdict?, layer?_filled hk (Nat.le_refl k)]
    cases hl : s.layer? k with
    | none => rfl
    | some l =>
      simp only [Option.map_some, Option.bind_some, Layer.find?_filled]
      cases hr : (reports.filter (·.names key)).getLast? with
      | none => rfl
      | some r =>
        obtain ⟨hmem, hnames⟩ := List.mem_filter.1 (List.mem_of_getLast? hr)
        have hrow : l.rows.find? key = none := by
          have hnone := h key r hmem hnames
          rwa [row?, hl, Option.bind_some, Option.map_eq_none_iff] at hnone
        rw [hrow]
        simp only [Option.map_some, Option.some_or, Option.bind_some, Option.bind_none, Layer.extended, hrow]
        exact l.policy.evaluate_of_fresh s.clock

theorem expired?_filled (h : s.Fresh k reports) :
    (s.filled k (fun _ => reports) log).expired? k key = s.expired? k key := by
  rw [expired?, expired?, verdict?_filled h]
  cases hv : s.verdict? k key with
  | none => rfl
  | some reason =>
    have hrow : (s.row? k key).isSome = true := isSome_row?_of_isSome_verdict? (by rw [hv]; rfl)
    rw [find?_filled, h.filter_eq_nil hrow]
    rfl

theorem left_filled (h : s.Fresh k reports) (mine : CameraId → Bool) :
    (s.filled k (fun _ => reports) log).left k mine = (s.left k mine).filled k (fun _ => reports) log := by
  simp only [left, verdict?_filled h]
  refine without_filled fun key hgone r hr => ?_
  rw [Bool.eq_false_iff]
  intro hnames
  have hrow := isSome_row?_of_isSome_verdict? (Bool.and_eq_true_iff.1 hgone).2
  rw [h key r hr hnames] at hrow
  cases hrow

theorem named_filled (hn : ∀ l ∈ s.layers, Named l.rows) (k : Nat) (reports : Nat → List (Report P))
    (log : List Event) : ∀ l ∈ (s.filled k reports log).layers, Named l.rows := by
  intro l hl
  obtain ⟨i, hi⟩ := List.getElem?_of_mem hl
  rw [getElem?_filled] at hi
  obtain ⟨l', hl', rfl⟩ := Option.map_eq_some_iff.1 hi
  have hn' := hn l' (List.mem_of_getElem? hl')
  split
  · intro key row hrow
    rw [Layer.find?_filled] at hrow
    cases hr : ((reports (i + 1)).filter (·.names key)).getLast? with
    | none =>
      rw [hr] at hrow
      exact hn' key row hrow
    | some r =>
      have hnames := (List.mem_filter.1 (List.mem_of_getLast? hr)).2
      exact ⟨r.number, TrackId.toRaw?_eq_some_iff.2 (Key.ofRaw_eq_ok_iff.1 (Report.names_iff.1 hnames)).2⟩
  · exact hn'

theorem registerAll_filled (s : Stack P) (a b : List (Report P)) (log : List Event) :
    ∃ log', (s.filled s.depth (fun _ => a) log).registerAll b = s.filled s.depth (fun _ => a ++ b) log' := by
  induction b generalizing a log with
  | nil => exact ⟨log, by rw [List.append_nil]; rfl⟩
  | cons r b ih =>
    have hfirst : ((s.filled s.depth (fun _ => a) log).register r).1 =
        s.filled s.depth (fun _ => a ++ [r]) (log ++ (s.base.fill (fun _ r => r.payload) a).announced r) := by
      rw [register, depth_filled, registerAt_filled (Nat.le_refl _)]
      refine filled_congr (fun j hj => ?_) _
      rw [if_pos hj]
      exact fun _ => rfl
    obtain ⟨log', hrest⟩ := ih (a ++ [r]) (log ++ (s.base.fill (fun _ r => r.payload) a).announced r)
    refine ⟨log', ?_⟩
    rw [registerAll, List.foldl_cons, hfirst, List.append_cons a r b]
    exact hrest

theorem registerAll_eq_filled (s : Stack P) (reports : List (Report P)) :
    ∃ log, s.registerAll reports = s.filled s.depth (fun _ => reports) log := by
  obtain ⟨log, hall⟩ := s.registerAll_filled [] reports s.log
  rw [s.filled_nil s.depth, List.nil_append] at hall
  exact ⟨log, hall⟩

theorem absorb_eq_filled (s : Stack P) (h : Handling P) :
    ∃ log, s.absorb h = s.filled s.depth (fun _ => h.reports) log := by
  obtain ⟨log, hall⟩ := s.registerAll_eq_filled h.reports
  exact ⟨log ++ h.events, by rw [absorb, hall]; rfl⟩

end Stack

/-! ### Finishers that go by the track -/

/-- Keeps what the finisher is called with. -/
def Finisher.kept (f : Finisher σ P) : Finisher (σ × List (Expired P)) P := fun state x =>
  let (state', h) := f state.1 x
  ((state', state.2 ++ [x]), h)

/-- A call does what the track that it is made for calls for: it does not panic, and it reports no other track. -/
structure Finisher.GoesBy (f : Finisher σ P) (handling : Expired P → Handling P) : Prop where
  handles : ∀ state x, (f state x).2 = handling x
  lasts : ∀ x, (handling x).outcome ≠ .panicked
  own : ∀ x, ∀ r ∈ (handling x).reports, ∀ key, r.names key = true → key = x.entry.key

/-- What a recorder is told to do goes by the track, unless it is told to panic. -/
theorem goesBy_respond {response : Response P} (h : response ≠ .panic) :
    Finisher.GoesBy (fun (state : σ) x => (state, Outlet.respond response x)) (Outlet.respond response) where
  handles state x := rfl
  lasts x := by
    cases response with
    | panic => exact absurd rfl h
    | accept | refuse | reregister => exact nofun
  own x r hr key hnames := by
    cases response with
    | panic => exact absurd rfl h
    | accept | refuse => cases hr
    | reregister payload =>
      obtain rfl := List.mem_singleton.1 hr
      obtain ⟨hcamera, htrack⟩ := Key.ofRaw_eq_ok_iff.1 (Report.names_iff.1 hnames)
      have hvalue : x.entry.track = key.track := by
        unfold TrackId.ofRaw? at htrack
        split at htrack
        · cases htrack
        · rw [UInt64.toUInt64_toInt64] at htrack
          exact Option.some.inj htrack
      obtain ⟨camera, track⟩ := key
      exact (Key.mk.injEq ..).mpr ⟨CameraId.ext hcamera.symm, hvalue.symm⟩

/-- What the calls for these tracks report. -/
def returned (handling : Expired P → Handling P) (calls : List (Expired P)) : List (Report P) :=
  calls.flatMap fun x => (handling x).reports

theorem returned_append (handling : Expired P → Handling P) (a b : List (Expired P)) :
    returned handling (a ++ b) = returned handling a ++ returned handling b := List.flatMap_append

section GoesBy

variable {f : Finisher σ P} {handling : Expired P → Handling P} {s : Stack P}

theorem absorb_filled (s : Stack P) (reports : List (Report P)) (log : List Event) (h : Handling P) :
    ∃ log', (s.filled s.depth (fun _ => reports) log).absorb h =
      s.filled s.depth (fun _ => reports ++ h.reports) log' := by
  obtain ⟨log', hall⟩ := s.registerAll_filled reports h.reports log
  exact ⟨log' ++ h.events, by rw [Stack.absorb, hall]; rfl⟩

theorem handOver_filled (hf : f.GoesBy handling) (s : Stack P) (reports : List (Report P)) (log : List Event)
    (state : σ × List (Expired P)) (found : List (Expired P)) :
    ∃ state' log', (s.filled s.depth (fun _ => reports) log).handOver f.kept state found =
      ((state', state.2 ++ found), s.filled s.depth (fun _ => reports ++ returned handling found) log', true) := by
  induction found generalizing state reports log with
  | nil => exact ⟨state.1, log, by simp only [Stack.handOver, returned, List.flatMap_nil, List.append_nil]⟩
  | cons x rest ih =>
    obtain ⟨log₁, habsorbed⟩ := absorb_filled s reports log (handling x)
    have hcall : f.kept state x = (((f state.1 x).1, state.2 ++ [x]), handling x) := by
      rw [← hf.handles state.1 x]
      rfl
    have hreturned : reports ++ returned handling (x :: rest) =
        reports ++ (handling x).reports ++ returned handling rest := by
      rw [returned, List.flatMap_cons, ← List.append_assoc]
      rfl
    have hcalls : state.2 ++ x :: rest = state.2 ++ [x] ++ rest := List.append_cons ..
    cases ho : (handling x).outcome with
    | accepted =>
      obtain ⟨state', log', hrest⟩ := ih (reports ++ (handling x).reports) log₁ ((f state.1 x).1, state.2 ++ [x])
      exact ⟨state', log', by simp only [Stack.handOver, hcall, habsorbed, ho, hrest, hreturned, hcalls]⟩
    | refused text =>
      obtain ⟨state', log', hrest⟩ := ih (reports ++ (handling x).reports)
        (log₁ ++ [.handoverFailed x.entry.key text]) ((f state.1 x).1, state.2 ++ [x])
      refine ⟨state', log', ?_⟩
      simp only [Stack.handOver, hcall, habsorbed, ho, hreturned, hcalls]
      exact hrest
    | panicked => exact absurd ho (hf.lasts x)

end GoesBy

/-! ### How far the sweepers have come -/

/-- Sweeper `i` of `n`, which has nothing in hand but tracks of its own share. -/
structure Sweeper.Serves (part : CameraId → Nat) (n i : Nat) (sweeper : Sweeper P) : Prop where
  part_eq : sweeper.part = i
  parts_eq : sweeper.parts = n
  steady : sweeper.lost = false
  own : ∀ x ∈ sweeper.batch, part x.entry.camera = i

theorem serves_set {part : CameraId → Nat} {n i : Nat} {sweepers : List (Sweeper P)} {sweeper : Sweeper P}
    (h : ∀ j (other : Sweeper P), sweepers[j]? = some other → other.Serves part n j)
    (hs : sweeper.Serves part n i) :
    ∀ j (other : Sweeper P), (sweepers.set i sweeper)[j]? = some other → other.Serves part n j := by
  intro j other hj
  rcases getElem?_set_cases hj with ⟨rfl, rfl⟩ | ⟨-, hj⟩
  · exact hs
  · exact h j other hj

namespace Underway

/-- How far `n` sweepers have come from `s`, once the shares in `swept` have been swept. -/
structure Progress (s : Stack P) (handling : Expired P → Handling P) (part : CameraId → Nat) (n : Nat)
    (swept : List Nat) (u : Underway (σ × List (Expired P)) P) : Prop where
  stack : ∃ log, u.stack = (s.left s.depth fun c => swept.contains (part c)).filled s.depth
    (fun _ => returned handling u.finisher.2) log
  once : ((u.finisher.2 ++ u.inHand).map (·.entry.key)).Nodup
  found_iff : ∀ x, x ∈ u.finisher.2 ++ u.inHand ↔
    part x.entry.camera ∈ swept ∧ s.expired? s.depth x.entry.key = some x
  length : u.sweepers.length = n
  serves : ∀ i (sweeper : Sweeper P), u.sweepers[i]? = some sweeper → sweeper.Serves part n i

section Progress

variable {f : Finisher σ P} {handling : Expired P → Handling P} {s : Stack P} {sharing : Sharing} {n i : Nat}
variable {part : CameraId → Nat} {swept : List Nat} {u : Underway (σ × List (Expired P)) P}

theorem Progress.of_mem_iff {swept' : List Nat} (h : Progress s handling part n swept u)
    (hmem : ∀ c, part c ∈ swept' ↔ part c ∈ swept) : Progress s handling part n swept' u where
  stack := by
    have hsame : (fun c => swept'.contains (part c)) = fun c => swept.contains (part c) := by
      funext c
      rw [Bool.eq_iff_iff, List.contains_iff_mem, List.contains_iff_mem, hmem]
    rw [hsame]
    exact h.stack
  once := h.once
  found_iff x := by rw [h.found_iff, hmem]
  length := h.length
  serves := h.serves

/-- What the finisher reports has been dropped from every layer. -/
theorem Progress.fresh (hf : f.GoesBy handling) (h : Progress s handling part n swept u) :
    (s.left s.depth fun c => swept.contains (part c)).Fresh s.depth (returned handling u.finisher.2) := by
  intro key r hr hnames
  obtain ⟨x, hx, hr⟩ := List.mem_flatMap.1 hr
  obtain rfl := hf.own x r hr key hnames
  obtain ⟨hpart, hexpired⟩ := (h.found_iff x).1 (List.mem_append_left _ hx)
  have hgone : (swept.contains (part x.entry.key.camera) && (s.verdict? s.depth x.entry.key).isSome) = true := by
    rw [(Stack.expired?_eq_some_iff.1 hexpired).2.2, Bool.and_eq_true]
    exact ⟨List.contains_iff_mem.2 hpart, rfl⟩
  rw [Stack.left, Stack.row?_without, if_pos ⟨Nat.le_refl _, hgone⟩]

theorem Progress.handed_turn (hf : f.GoesBy handling) (h : Progress s handling part n swept u)
    {sweeper : Sweeper P} {x : Expired P} {rest : List (Expired P)} {finisher : σ × List (Expired P)}
    {stack : Stack P} {lasted : Bool} (hi : u.sweepers[i]? = some sweeper) (hbatch : sweeper.batch = x :: rest)
    (hhanded : u.stack.handOver f.kept u.finisher [x] = (finisher, stack, lasted)) :
    Progress s handling part n (swept ++ [i])
      ⟨stack, finisher, u.sweepers.set i { sweeper with batch := if lasted then rest else [], lost := !lasted }⟩ := by
  obtain ⟨log, hstack⟩ := h.stack
  have hserves := h.serves i sweeper hi
  have hdepth : (s.left s.depth fun c => swept.contains (part c)).depth = s.depth := Stack.depth_left _
  obtain ⟨state', log', hcall⟩ := handOver_filled hf (s.left s.depth fun c => swept.contains (part c))
    (returned handling u.finisher.2) log u.finisher [x]
  rw [hdepth, ← hstack, hhanded] at hcall
  cases hcall
  have hown : part x.entry.camera = i := hserves.own x (hbatch ▸ List.mem_cons_self)
  have hrest : ∀ y ∈ rest, part y.entry.camera = i := fun y hy =>
    hserves.own y (hbatch ▸ List.mem_cons_of_mem x hy)
  have hseen : (u.finisher.2 ++ [x] ++
      (u.sweepers.set i { sweeper with batch := rest, lost := false }).flatMap (·.batch)).Perm
        (u.finisher.2 ++ u.inHand) := by
    rw [List.append_assoc]
    refine List.Perm.append_left _ (List.perm_append_comm.trans ?_)
    exact (perm_batches_of_handed hi hbatch rfl).symm
  have hswept : i ∈ swept := by
    have hx : x ∈ u.inHand := List.mem_flatMap.2 ⟨sweeper, List.mem_of_getElem? hi, hbatch ▸ List.mem_cons_self⟩
    exact hown ▸ ((h.found_iff x).1 (List.mem_append_right _ hx)).1
  have hmem : ∀ c, part c ∈ swept ++ [i] ↔ part c ∈ swept := by
    intro c
    rw [List.mem_append, List.mem_singleton, or_iff_left_iff_imp]
    rintro rfl
    exact hswept
  refine Progress.of_mem_iff ?_ hmem
  exact
    { stack := ⟨log', by rw [returned_append]⟩
      once := (hseen.map _).nodup_iff.2 h.once
      found_iff := fun y => hseen.mem_iff.trans (h.found_iff y)
      length := by rw [List.length_set, h.length]
      serves := serves_set h.serves ⟨hserves.part_eq, hserves.parts_eq, rfl, hrest⟩ }

section Turn

variable (hf : f.GoesBy handling) (ha : s.armed = none) (hnamed : ∀ l ∈ s.layers, Stack.Named l.rows) (hn : 0 < n)
include hf ha hnamed hn

/-- A sweep finds what has expired of its share, if nobody has swept it before. -/
theorem Progress.sweepPart (h : Progress s handling (sharing.part n) n swept u) (i : Nat) (w : Walk) :
    ∃ found log,
      u.stack.sweepPart u.stack.depth w sharing i n =
        ((s.left s.depth fun c => (swept ++ [i]).contains (sharing.part n c)).filled s.depth
          (fun _ => returned handling u.finisher.2) log, found) ∧
      (found.map (·.entry.key)).Nodup ∧
      ∀ x, x ∈ found ↔ sharing.part n x.entry.camera = i ∧ sharing.part n x.entry.camera ∉ swept ∧
        s.expired? s.depth x.entry.key = some x := by
  obtain ⟨log, hstack⟩ := h.stack
  have hfresh := h.fresh hf
  have hdepth : u.stack.depth = s.depth := by rw [hstack, Stack.depth_filled, Stack.depth_left]
  have harmed : u.stack.armed = none := by
    rw [hstack]
    exact ha
  have hleft := Stack.named_left hnamed s.depth (fun c => swept.contains (sharing.part n c)) []
  rw [Stack.layers_logs] at hleft
  have hrows : ∀ l ∈ u.stack.layers, Stack.Named l.rows := by
    rw [hstack]
    exact Stack.named_filled hleft _ _ _
  obtain ⟨found, hsweep, honce, hfound⟩ := Stack.sweepPart_of_unarmed harmed hrows s.depth w sharing i n
  have hshares : (fun c => (swept ++ [i]).contains (sharing.part n c)) =
      fun c => swept.contains (sharing.part n c) || sharing.part n c == i := by
    funext c
    rw [Bool.eq_iff_iff]
    simp
  rw [Nat.max_eq_left hn] at hsweep hfound
  refine ⟨found, log ++ found.map Expired.event, ?_, honce, fun x => ?_⟩
  · rw [hdepth, hsweep, hstack, Stack.left_filled hfresh, Stack.left_left, hshares]
    rfl
  · rw [hfound, beq_iff_eq, hstack, Stack.expired?_filled hfresh, Stack.expired?_left]
    refine and_congr_right fun _ => ?_
    by_cases hold : sharing.part n x.entry.camera ∈ swept
    · simp [hold, Entry.key]
    · simp [hold, Entry.key]

theorem Progress.swept_turn (h : Progress s handling (sharing.part n) n swept u) {w : Walk} {sweeper : Sweeper P}
    {stack : Stack P} {found : List (Expired P)} (hi : u.sweepers[i]? = some sweeper) (hbatch : sweeper.batch = [])
    (hsweep : u.stack.sweepPart u.stack.depth w sharing sweeper.part sweeper.parts = (stack, found)) :
    Progress s handling (sharing.part n) n (swept ++ [i])
      { u with stack, sweepers := u.sweepers.set i { sweeper with batch := found } } := by
  have hserves := h.serves i sweeper hi
  obtain ⟨found', log, hswept, honce, hfound⟩ := h.sweepPart hf ha hnamed hn i w
  rw [hserves.part_eq, hserves.parts_eq, hswept] at hsweep
  obtain ⟨rfl, rfl⟩ := Prod.mk.inj hsweep
  have hseen : (u.finisher.2 ++ (u.sweepers.set i { sweeper with batch := found' }).flatMap (·.batch)).Perm
      (u.finisher.2 ++ u.inHand ++ found') := by
    rw [List.append_assoc]
    exact (perm_batches_of_swept hi hbatch rfl).append_left _
  refine
    { stack := ⟨log, rfl⟩, once := (hseen.map _).nodup_iff.2 ?once,
      found_iff := fun x => hseen.mem_iff.trans ?found_iff, length := by rw [List.length_set, h.length],
      serves := serves_set h.serves { hserves with own := fun x hx => ((hfound x).1 hx).1 } }
  case once =>
    rw [List.map_append, List.nodup_append]
    refine ⟨h.once, honce, fun key hkey key' hkey' heq => ?_⟩
    obtain ⟨x, hx, rfl⟩ := List.mem_map.1 hkey
    obtain ⟨y, hy, rfl⟩ := List.mem_map.1 hkey'
    have hcamera : x.entry.camera = y.entry.camera := congrArg Key.camera heq
    exact ((hfound y).1 hy).2.1 (hcamera ▸ ((h.found_iff x).1 hx).1)
  case found_iff =>
    rw [List.mem_append, h.found_iff, hfound, List.mem_append, List.mem_singleton]
    by_cases hold : sharing.part n x.entry.camera ∈ swept
    · simp only [hold, not_true, true_and, false_and, and_false, or_false, true_or]
    · simp only [hold, not_false_iff, true_and, false_and, false_or]

theorem Progress.turn (h : Progress s handling (sharing.part n) n swept u) (i : Nat) (w : Walk) :
    Progress s handling (sharing.part n) n (swept ++ [i]) (u.turn f.kept sharing i w) := by
  have hturned := turned f.kept sharing u i w
  generalize u.turn f.kept sharing i w = u' at hturned ⊢
  cases hturned with
  | idle hidle =>
    -- no sweeper is lost, so there is none of this number, and no camera is in its share
    have hlt : n ≤ i := by
      rw [← h.length]
      refine Nat.le_of_not_lt fun hlt => ?_
      have hsweeper := List.getElem?_eq_getElem hlt
      have hlost := (h.serves i _ hsweeper).steady
      rw [hidle _ hsweeper] at hlost
      cases hlost
    refine h.of_mem_iff fun c => ?_
    have hpart := sharing.part_lt n c hn
    rw [List.mem_append, List.mem_singleton, or_iff_left (by omega)]
  | swept hi hlost hbatch hsweep => exact h.swept_turn hf ha hnamed hn hi hbatch hsweep
  | handed hi hlost hbatch hhanded => exact h.handed_turn hf hi hbatch hhanded

theorem Progress.run (h : Progress s handling (sharing.part n) n swept u) (turns : List (Nat × Walk)) :
    Progress s handling (sharing.part n) n (swept ++ turns.map (·.1)) (u.run f.kept sharing turns) := by
  induction turns generalizing swept u with
  | nil => rwa [List.map_nil, List.append_nil]
  | cons t turns ih =>
    rw [List.map_cons, List.append_cons]
    exact ih (h.turn hf ha hnamed hn t.1 t.2)

end Turn

end Progress

end Underway

/-! ### The crew and the one sweep -/

namespace Service

variable {f : Finisher σ P} {handling : Expired P → Handling P} {s : Stack P} {sharing : Sharing} {n : Nat}

theorem logs_eq_filled (s : Stack P) (k : Nat) (events : List Event) :
    s.logs events = s.filled k (fun _ => []) (s.log ++ events) :=
  congrArg (·.logs events) (s.filled_nil k).symm

theorem sweepers_start {v : Service (σ × List (Expired P)) P} {interval : Duration}
    (hcrew : v.crew = .ofSize n interval) :
    (Underway.ofService v.start).sweepers = (List.range n).map fun i => ⟨i, n, [], false⟩ := by
  apply List.ext_getElem?
  intro i
  simp only [Underway.ofService, start, logs, Crew.start, hcrew, Crew.ofSize, Crew.isRunning, Bool.false_eq_true,
    if_false, List.nil_append, List.getElem?_mapIdx, List.getElem?_map, List.getElem?_replicate]
  by_cases hi : i < n
  · simp [hi]
  · simp [hi]

theorem progress_start {v : Service (σ × List (Expired P)) P} {interval : Duration}
    (hcrew : v.crew = .ofSize n interval) (hcalls : v.finisher.2 = []) (handling : Expired P → Handling P)
    (part : CameraId → Nat) : Underway.Progress v.stack handling part n [] (Underway.ofService v.start) := by
  have hsweepers := sweepers_start hcrew
  have hhand : (Underway.ofService v.start).inHand = [] := by
    rw [Underway.inHand, hsweepers]
    simp
  have hfinisher : (Underway.ofService v.start).finisher.2 = [] := hcalls
  refine { stack := ?stack, once := ?once, found_iff := ?found_iff, length := ?length, serves := ?serves }
  case stack =>
    have hleft : (v.stack.left v.stack.depth fun c => ([] : List Nat).contains (part c)) = v.stack := by
      rw [Stack.left, Stack.without_eq_self] <;> simp
    rw [hleft, hfinisher]
    exact ⟨_, logs_eq_filled v.stack v.stack.depth _⟩
  case once =>
    rw [hfinisher, hhand]
    exact List.nodup_nil
  case found_iff =>
    intro x
    rw [hfinisher, hhand]
    simp
  case length => rw [hsweepers, List.length_map, List.length_range]
  case serves =>
    intro i sweeper hi
    rw [hsweepers, List.getElem?_map] at hi
    obtain ⟨j, hj, rfl⟩ := Option.map_eq_some_iff.1 hi
    obtain ⟨hlt, rfl⟩ := List.getElem?_eq_some_iff.1 hj
    exact ⟨List.getElem_range hlt, rfl, rfl, fun x hx => absurd hx List.not_mem_nil⟩

/-- Since no track is handed over twice, it does not matter in which order the calls report the tracks again. -/
theorem sameByKey_returned (hf : f.GoesBy handling) {calls found : List (Expired P)} (hperm : calls.Perm found)
    (honce : (found.map (·.entry.key)).Nodup) : SameByKey (returned handling calls) (returned handling found) := by
  rw [returned, returned, List.flatMap_def, List.flatMap_def]
  refine sameByKey_flatten ?_ (hperm.map _)
  rw [List.pairwise_map]
  refine (List.pairwise_map.1 honce).imp fun hne key r hr r' hr' hnames => ?_
  rw [Bool.eq_false_iff]
  intro hnames'
  exact hne ((hf.own _ r hr key hnames).symm.trans (hf.own _ r' hr' key hnames'))

theorem sweepOnce_of_goesBy (hf : f.GoesBy handling) (ha : s.armed = none)
    (hnamed : ∀ l ∈ s.layers, Stack.Named l.rows) (state : σ) (crew : Crew) (w : Walk) :
    ∃ log, (sweepOnce ⟨s, (state, []), crew⟩ f.kept w).1.finisher.2 = (s.sweep s.depth w).2 ∧
      (sweepOnce ⟨s, (state, []), crew⟩ f.kept w).1.stack =
        (s.left s.depth fun _ => true).filled s.depth (fun _ => returned handling (s.sweep s.depth w).2) log := by
  obtain ⟨found, hsweep, -, -⟩ := Stack.sweep_of_unarmed ha hnamed s.depth w
  have hdepth : (s.left s.depth fun _ => true).depth = s.depth := Stack.depth_left _
  obtain ⟨state', log, hhanded⟩ := handOver_filled hf (s.left s.depth fun _ => true) []
    ((s.left s.depth fun _ => true).log ++ found.map Expired.event) (state, []) found
  rw [hdepth, ← logs_eq_filled] at hhanded
  refine ⟨log, ?_, ?_⟩
  · simp only [sweepOnce, hsweep, hhanded, List.nil_append]
  · simp only [sweepOnce, hsweep, hhanded, List.nil_append]

/-- A crew is started, and its workers have turns in whatever order, in each of which a worker sweeps its share of
the cameras or makes one call of the finisher. No track is handed over twice, and only those are that one sweep of
all cameras hands over. Once every worker has swept and nothing is left to hand over, the others have been handed
over as well, and the stack is as after the one sweep, but for what was logged. -/
theorem background_eq_sweepOnce (hf : f.GoesBy handling) (ha : s.armed = none)
    (hnamed : ∀ l ∈ s.layers, Stack.Named l.rows) (state : σ) (sharing : Sharing) (hn : 0 < n) (interval : Duration)
    (turns : List (Nat × Walk)) (w : Walk) :
    let v : Service (σ × List (Expired P)) P := ⟨s, (state, []), .ofSize n interval⟩
    let u := (Underway.ofService v.start).run f.kept sharing turns
    let once := (v.sweepOnce f.kept w).1
    once.finisher.2 = (s.sweep s.depth w).2 ∧
      (u.finisher.2.map (·.entry.key)).Nodup ∧ (∀ x ∈ u.finisher.2, x ∈ once.finisher.2) ∧
      ((∀ i, i < n → i ∈ turns.map (·.1)) → (∀ sweeper ∈ u.sweepers, sweeper.batch = []) →
        u.finisher.2.Perm once.finisher.2 ∧ { u.stack with log := once.stack.log } = once.stack) := by
  intro v u once
  have hprogress : u.Progress s handling (sharing.part n) n (turns.map (·.1)) :=
    (progress_start (v := v) rfl rfl handling (sharing.part n)).run hf ha hnamed hn turns
  obtain ⟨found, hsweep, honce, hfound⟩ := Stack.sweep_of_unarmed ha hnamed s.depth w
  obtain ⟨log, hcalls, hstack⟩ := sweepOnce_of_goesBy hf ha hnamed state (.ofSize n interval) w
  rw [hsweep] at hcalls hstack
  have hnodup := hprogress.once
  rw [List.map_append] at hnodup
  have hsub : ∀ x ∈ u.finisher.2, x ∈ found := fun x hx =>
    (hfound x).2 ((hprogress.found_iff x).1 (List.mem_append_left _ hx)).2
  refine ⟨by rw [hsweep]; exact hcalls, (List.nodup_append.1 hnodup).1, fun x hx => hcalls ▸ hsub x hx, ?_⟩
  intro hall hdone
  have hswept : ∀ c, sharing.part n c ∈ turns.map (·.1) := fun c => hall _ (sharing.part_lt n c hn)
  have hhand : u.inHand = [] := List.flatMap_eq_nil_iff.2 hdone
  have hperm : u.finisher.2.Perm found := by
    refine (List.perm_ext_iff_of_nodup (List.Nodup.of_map _ (List.nodup_append.1 hnodup).1)
      (List.Nodup.of_map _ honce)).2 fun x => ?_
    have hx := hprogress.found_iff x
    rw [hhand, List.append_nil] at hx
    rw [hx, hfound, and_iff_right (hswept x.entry.camera)]
  refine ⟨hcalls ▸ hperm, ?_⟩
  obtain ⟨log', hleft⟩ := hprogress.stack
  have hmine : (fun c => (turns.map (·.1)).contains (sharing.part n c)) = fun _ => true :=
    funext fun c => List.contains_iff_mem.2 (hswept c)
  have hsame := Stack.filled_congr (s := s.left s.depth fun _ => true) (k := s.depth)
    (fun _ _ => sameByKey_returned hf hperm honce) once.stack.log
  rw [hmine] at hleft
  rw [hleft]
  refine hsame.trans ?_
  have hlog : once.stack.log = log := congrArg Stack.log hstack
  rw [hlog]
  exact hstack.symm

/-- Reports again what it is called with, in another spelling. -/
def marking : Finisher Unit String := fun state x => (state, Outlet.respond (.reregister fun p => p ++ "'") x)

/-- Worker 1 sweeps, then worker 0 does all it has to do, sweeps again, and worker 1 hands over. -/
def crossing : List (Nat × Walk) := [1, 0, 0, 0, 5, 1].map fun i => (i, .ascending)

theorem background_eq_sweepOnce_crossing :
    let v : Service (Unit × List (Expired String)) String := ⟨Stack.sharedOut, ((), []), .ofSize 2 (.ofSeconds 1)⟩
    let u := (Underway.ofService v.start).run marking.kept .byName crossing
    let once := (v.sweepOnce marking.kept .ascending).1
    u.finisher.2.map (·.entry.payload) = ["y", "x"] ∧ once.finisher.2.map (·.entry.payload) = ["x", "y"] ∧
      u.finisher.2.Perm once.finisher.2 ∧ { u.stack with log := once.stack.log } = once.stack ∧
      (once.stack.getByCamera "a").map (·.payload) = ["x'", "z"] := by
  have hf : marking.GoesBy (Outlet.respond (.reregister fun p => p ++ "'")) := goesBy_respond nofun
  have hreachable : Stack.sharedOut.Reachable := ⟨_, _, rfl⟩
  have hnamed := Stack.named_of_reachable hreachable
  obtain ⟨-, -, -, hdone⟩ := background_eq_sweepOnce hf (s := Stack.sharedOut) rfl hnamed () .byName
    (by decide : 0 < 2) (.ofSeconds 1) crossing .ascending
  obtain ⟨hperm, hstack⟩ := hdone (by decide) (by decide +kernel)
  exact ⟨by decide +kernel, by decide +kernel, hperm, hstack, by decide +kernel⟩

end Service

end LiveTracks
