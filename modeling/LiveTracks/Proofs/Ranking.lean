import LiveTracks.Census
import LiveTracks.Proofs.TextBytes
import Mathlib.Algebra.Ring.Nat
import Mathlib.Data.List.Nodup

/-!
# What a census tells

A census is a map from cameras to counts, listed in some order. Its cameras are told in the order of the bytes of
their names (`Census.pairwise_cameras`), and the busiest of them is the one that outranks all others
(`Census.busiest?_eq_some_iff`). All answers agree with the pairs of the map, and none depends on the order in which
they are listed (`Census.answers_of_pairs`).
-/

namespace LiveTracks.Census

open Json

variable {c c' : Census} {p q r : String × Nat} {camera : String} {n : Nat}

/-! ### The cameras in order -/

theorem perm_cameras (c : Census) : c.cameras.Perm c.pairs := List.mergeSort_perm ..

theorem mem_cameras_iff : p ∈ c.cameras ↔ p ∈ c.pairs := c.perm_cameras.mem_iff

/-- A map has one count for a camera. -/
theorem eq_of_mem_pairs (hp : p ∈ c.pairs) (hq : q ∈ c.pairs) (h : p.1 = q.1) : p = q :=
  List.inj_on_of_nodup_map c.distinct hp hq h

theorem isLE_compare_iff {s t : String} : (compare s t).isLE = true ↔ s ≤ t := Std.LawfulBCmp.isLE_iff_le

theorem pairwise_cameras (c : Census) : c.cameras.Pairwise fun p q => p.1 < q.1 := by
  have htrans : ∀ p q r : String × Nat,
      (compare p.1 q.1).isLE = true → (compare q.1 r.1).isLE = true → (compare p.1 r.1).isLE = true :=
    fun p q r => Std.TransOrd.isLE_trans
  have htotal : ∀ p q : String × Nat, ((compare p.1 q.1).isLE || (compare q.1 p.1).isLE) = true := fun p q => by
    rw [Bool.or_eq_true, isLE_compare_iff, isLE_compare_iff]
    exact le_total p.1 q.1
  have hsorted : c.cameras.Pairwise fun p q => (compare p.1 q.1).isLE = true :=
    List.pairwise_mergeSort htrans htotal c.pairs
  have hdistinct : c.cameras.Pairwise fun p q => p.1 ≠ q.1 :=
    List.pairwise_map.1 ((c.perm_cameras.map _).nodup_iff.2 c.distinct)
  exact hsorted.imp₂ (fun p q hle hne => lt_of_le_of_ne (isLE_compare_iff.1 hle) hne) hdistinct

theorem cameras_eq_of_perm (h : c'.pairs.Perm c.pairs) : c'.cameras = c.cameras :=
  List.Perm.eq_of_pairwise (fun _ _ _ _ hpq hqp => absurd hqp (lt_asymm hpq)) c'.pairwise_cameras c.pairwise_cameras
    (c'.perm_cameras.trans (h.trans c.perm_cameras.symm))

/-! ### Counts -/

theorem countFor_of_mem (h : (camera, n) ∈ c.pairs) : c.countFor camera = n := by
  obtain ⟨m, hm⟩ := Option.isSome_iff_exists.1 (List.lookup_isSome_iff.2 ⟨_, h, beq_self_eq_true camera⟩)
  obtain ⟨before, after, hsplit, -⟩ := List.lookup_eq_some_iff.1 hm
  have hpair : (camera, m) ∈ c.pairs := by
    rw [hsplit]
    exact List.mem_append_right _ List.mem_cons_self
  have heq := eq_of_mem_pairs h hpair rfl
  rw [countFor, hm, Option.getD_some]
  exact (congrArg Prod.snd heq).symm

theorem countFor_of_not_mem (h : ∀ p ∈ c.pairs, p.1 ≠ camera) : c.countFor camera = 0 := by
  have hnone : c.pairs.lookup camera = none :=
    List.lookup_eq_none_iff.2 fun p hp => bne_iff_ne.2 (h p hp).symm
  rw [countFor, hnone, Option.getD_none]

theorem countFor_eq_of_perm (h : c'.pairs.Perm c.pairs) (camera : String) : c'.countFor camera = c.countFor camera := by
  by_cases hc : ∃ n, (camera, n) ∈ c.pairs
  · obtain ⟨n, hn⟩ := hc
    rw [countFor_of_mem hn, countFor_of_mem (h.mem_iff.2 hn)]
  · have hnone : ∀ p ∈ c.pairs, p.1 ≠ camera := fun p hp hpc => hc ⟨p.2, hpc ▸ hp⟩
    rw [countFor_of_not_mem hnone, countFor_of_not_mem fun p hp => hnone p (h.mem_iff.1 hp)]

theorem total_eq_sum (c : Census) : c.total = (c.pairs.map (·.2)).sum := by
  rw [total]
  induction c.pairs with
  | nil => rfl
  | cons p l ih => rw [List.foldr_cons, ih, List.map_cons, List.sum_cons]

theorem total_eq_sum_cameras (c : Census) : c.total = (c.cameras.map (·.2)).sum := by
  rw [total_eq_sum, (c.perm_cameras.map _).sum_nat]

/-! ### The busiest camera -/

/-- A camera outranks those with smaller counts and, among equal counts, those with greater names. -/
def Outranks (p q : String × Nat) : Prop := q.2 < p.2 ∨ p.2 = q.2 ∧ p.1 ≤ q.1

theorem Outranks.refl (p : String × Nat) : Outranks p p := .inr ⟨rfl, le_refl _⟩

theorem Outranks.trans (hpq : Outranks p q) (hqr : Outranks q r) : Outranks p r := by
  rcases hpq with hpq | ⟨hpq, hname⟩ <;> rcases hqr with hqr | ⟨hqr, hname'⟩
  · exact .inl (lt_trans hqr hpq)
  · exact .inl (hqr ▸ hpq)
  · exact .inl (hpq ▸ hqr)
  · exact .inr ⟨hpq.trans hqr, le_trans hname hname'⟩

theorem Outranks.antisymm (hpq : Outranks p q) (hqp : Outranks q p) : p = q := by
  rcases hpq with hpq | ⟨hpq, hname⟩ <;> rcases hqp with hqp | ⟨hqp, hname'⟩
  · exact absurd hqp (lt_asymm hpq)
  · exact absurd hqp (ne_of_lt hpq)
  · exact absurd hpq (ne_of_lt hqp)
  · exact Prod.ext (le_antisymm hname hname') hpq

theorem outranks_of_rank (h : rank p q = .gt) : Outranks p q := by
  rcases Ordering.then_eq_gt.1 h with hcount | ⟨hcount, hname⟩
  · exact .inl (Nat.compare_eq_gt.1 hcount)
  · exact .inr ⟨Nat.compare_eq_eq.1 hcount, le_of_lt (compare_gt_iff_gt.1 hname)⟩

theorem outranks_of_not_rank (h : rank p q ≠ .gt) : Outranks q p := by
  rcases lt_trichotomy p.2 q.2 with hcount | hcount | hcount
  · exact .inl hcount
  · refine .inr ⟨hcount.symm, not_lt.1 fun hname => h ?_⟩
    exact Ordering.then_eq_gt.2 (.inr ⟨Nat.compare_eq_eq.2 hcount, compare_gt_iff_gt.2 hname⟩)
  · exact absurd (Ordering.then_eq_gt.2 (.inl (Nat.compare_eq_gt.2 hcount))) h

/-- The better one of the best so far and the next. -/
def better (best : Option (String × Nat)) (p : String × Nat) : Option (String × Nat) :=
  match best with
  | none => some p
  | some b => if rank b p = .gt then some b else some p

theorem better_some (b p : String × Nat) :
    ∃ b', better (some b) p = some b' ∧ b' ∈ [b, p] ∧ Outranks b' b ∧ Outranks b' p := by
  by_cases h : rank b p = .gt
  · exact ⟨b, if_pos h, List.mem_cons_self, .refl b, outranks_of_rank h⟩
  · exact ⟨p, if_neg h, List.mem_cons_of_mem b (List.mem_singleton_self p), outranks_of_not_rank h, .refl p⟩

/-- The best of all that have been seen is one of them and outranks each of them. -/
theorem foldl_better (b : String × Nat) (l : List (String × Nat)) :
    ∃ b', l.foldl better (some b) = some b' ∧ b' ∈ b :: l ∧ ∀ q ∈ b :: l, Outranks b' q := by
  induction l generalizing b with
  | nil =>
    refine ⟨b, rfl, List.mem_singleton_self b, fun q hq => ?_⟩
    rw [List.mem_singleton.1 hq]
    exact .refl b
  | cons p l ih =>
    obtain ⟨next, hnext, hmem, hb, hp⟩ := better_some b p
    obtain ⟨b', hb', hmem', houtranks⟩ := ih next
    have hnextmem := houtranks next List.mem_cons_self
    refine ⟨b', by rw [List.foldl_cons, hnext, hb'], ?_, fun q hq => ?_⟩
    · rcases List.mem_cons.1 hmem' with rfl | hmem'
      · exact List.mem_append_left l hmem
      · exact List.mem_cons_of_mem b (List.mem_cons_of_mem p hmem')
    · rcases List.mem_cons.1 hq with rfl | hq
      · exact hnextmem.trans hb
      · rcases List.mem_cons.1 hq with rfl | hq
        · exact hnextmem.trans hp
        · exact houtranks q (List.mem_cons_of_mem next hq)

theorem busiest?_eq_foldl (c : Census) : c.busiest? = c.cameras.foldl better none := rfl

/-- Either there is no camera, or the busiest one outranks all. -/
theorem busiest?_cases (c : Census) :
    (c.pairs = [] ∧ c.busiest? = none) ∨
      ∃ p, c.busiest? = some p ∧ p ∈ c.pairs ∧ ∀ q ∈ c.pairs, Outranks p q := by
  rw [busiest?_eq_foldl]
  cases hcameras : c.cameras with
  | nil => exact .inl ⟨List.nil_perm.1 (hcameras ▸ c.perm_cameras), rfl⟩
  | cons b l =>
    obtain ⟨p, hp, hmem, houtranks⟩ := foldl_better b l
    rw [← hcameras] at hmem houtranks
    exact .inr ⟨p, hp, mem_cameras_iff.1 hmem, fun q hq => houtranks q (mem_cameras_iff.2 hq)⟩

theorem busiest?_eq_none_iff : c.busiest? = none ↔ c.pairs = [] := by
  rcases c.busiest?_cases with ⟨hpairs, hnone⟩ | ⟨p, hp, hmem, -⟩
  · exact iff_of_true hnone hpairs
  · refine iff_of_false (by simp [hp]) fun hpairs => ?_
    rw [hpairs] at hmem
    cases hmem

theorem busiest?_eq_some_iff : c.busiest? = some p ↔ p ∈ c.pairs ∧ ∀ q ∈ c.pairs, Outranks p q := by
  rcases c.busiest?_cases with ⟨hpairs, hnone⟩ | ⟨b, hb, hmem, houtranks⟩
  · simp [hpairs, hnone]
  · rw [hb, Option.some.injEq]
    constructor
    · rintro rfl
      exact ⟨hmem, houtranks⟩
    · rintro ⟨hp, hall⟩
      exact (houtranks p hp).antisymm (hall b hmem)

theorem busiest?_eq_of_perm (h : c'.pairs.Perm c.pairs) : c'.busiest? = c.busiest? := by
  rw [busiest?_eq_foldl, busiest?_eq_foldl, cameras_eq_of_perm h]

/-! ### All answers -/

/-- The cameras are told in the order of the bytes of their names, each with its count; the size of the census and
the total are those of the cameras, and the count of a camera is the one that is told with it. The busiest camera is
missing without cameras only. No other has more tracks, and none with as many has a name before its own. All this is
the same in whatever order the map is listed. -/
theorem answers_of_pairs (c : Census) :
    (c.cameras.Pairwise fun p q => bytesOf p.1 < bytesOf q.1) ∧
      (∀ p, p ∈ c.cameras ↔ p ∈ c.pairs) ∧
      c.size = c.cameras.length ∧ c.total = (c.cameras.map (·.2)).sum ∧
      (∀ camera n, (camera, n) ∈ c.cameras → c.countFor camera = n) ∧
      (∀ camera, camera ∉ c.cameras.map (·.1) → c.countFor camera = 0) ∧
      (c.busiest? = none ↔ c.pairs = []) ∧
      (∀ p, c.busiest? = some p ↔
        p ∈ c.pairs ∧ (∀ q ∈ c.pairs, q.2 ≤ p.2) ∧
          ∀ q ∈ c.pairs, q ≠ p → q.2 = p.2 → bytesOf p.1 < bytesOf q.1) ∧
      ∀ c' : Census, c'.pairs.Perm c.pairs →
        c'.cameras = c.cameras ∧ c'.size = c.size ∧ c'.total = c.total ∧ c'.countFor = c.countFor ∧
          c'.busiest? = c.busiest? := by
  refine ⟨?ordered, fun p => mem_cameras_iff, c.perm_cameras.length_eq.symm, c.total_eq_sum_cameras, ?counted,
    ?uncounted, busiest?_eq_none_iff, fun p => ?busiest, fun c' h => ⟨cameras_eq_of_perm h, h.length_eq, ?_,
      funext (countFor_eq_of_perm h), busiest?_eq_of_perm h⟩⟩
  case ordered => exact c.pairwise_cameras.imp lt_iff_bytesOf_lt.1
  case counted => exact fun camera n hn => countFor_of_mem (mem_cameras_iff.1 hn)
  case uncounted =>
    exact fun camera hc => countFor_of_not_mem fun p hp hpc =>
      hc (List.mem_map.2 ⟨p, mem_cameras_iff.2 hp, hpc⟩)
  case busiest =>
    rw [busiest?_eq_some_iff]
    refine and_congr_right fun hp => ⟨fun h => ⟨fun q hq => ?_, fun q hq hne heq => ?_⟩, fun ⟨hle, hname⟩ q hq => ?_⟩
    · rcases h q hq with hlt | ⟨heq, -⟩
      · exact le_of_lt hlt
      · exact le_of_eq heq.symm
    · rcases h q hq with hlt | ⟨-, hle⟩
      · exact absurd heq (ne_of_lt hlt)
      · exact lt_iff_bytesOf_lt.1 (lt_of_le_of_ne hle fun hpq => hne (eq_of_mem_pairs hq hp hpq.symm))
    · by_cases hne : q = p
      · rw [hne]
        exact .refl p
      · rcases lt_or_eq_of_le (hle q hq) with hlt | heq
        · exact .inl hlt
        · exact .inr ⟨heq.symm, le_of_lt (lt_iff_bytesOf_lt.2 (hname q hq hne heq))⟩
  · rw [total_eq_sum, total_eq_sum, (h.map _).sum_nat]

/-- Two cameras with as many tracks, in one listing and in another. -/
def tied : Census := ⟨[("south", 2), ("gate", 1), ("north", 2)], by decide⟩

def tiedAgain : Census := ⟨[("north", 2), ("south", 2), ("gate", 1)], by decide⟩

theorem answers_of_pairs_tied :
    tied.busiest? = some ("north", 2) ∧ tied.countFor "gate" = 1 ∧ tied.countFor "east" = 0 ∧
      tiedAgain.cameras = tied.cameras ∧ tiedAgain.busiest? = some ("north", 2) := by
  obtain ⟨-, hmem, -, -, hcounted, huncounted, -, hbusiest, hlisting⟩ := answers_of_pairs tied
  have hnorth : tied.busiest? = some ("north", 2) := (hbusiest _).2 (by decide +kernel)
  have hgate : ("gate", 1) ∈ tied.cameras := (hmem _).2 (by decide)
  have heast : "east" ∉ tied.cameras.map (·.1) := fun h => by
    obtain ⟨p, hp, he⟩ := List.mem_map.1 h
    have hno : ∀ p ∈ tied.pairs, p.1 ≠ "east" := by decide
    exact hno p ((hmem p).1 hp) he
  obtain ⟨hcameras, -, -, -, hagain⟩ := hlisting tiedAgain (by decide)
  exact ⟨hnorth, hcounted _ _ hgate, huncounted _ heast, hcameras, hagain.trans hnorth⟩

end LiveTracks.Census
