import LiveTracks.Store

/-!
# Census

The number of live tracks on every camera at one moment, in whatever order it was taken: the totals,
the busiest camera and the table that monitoring prints. None of these depends on the order.
-/

namespace LiveTracks

/-- A count for every camera, in any order and no camera twice. -/
structure Census where
  pairs : List (String × Nat)
  distinct : (pairs.map (·.1)).Nodup

namespace Census

def empty : Census := ⟨[], List.nodup_nil⟩

def set (c : Census) (camera : String) (count : Nat) : Census where
  pairs := c.pairs.filter (fun p => p.1 ≠ camera) ++ [(camera, count)]
  distinct := by
    rw [List.map_append, List.nodup_append]
    refine ⟨(c.distinct).sublist (List.filter_sublist.map _), by simp, ?_⟩
    intro a ha b hb
    simp only [List.map_cons, List.map_nil, List.mem_singleton] at hb
    obtain ⟨p, hp, rfl⟩ := List.mem_map.1 ha
    have := (List.mem_filter.1 hp).2
    simp_all

def ofList (pairs : List (String × Nat)) : Census :=
  pairs.foldl (fun c p => c.set p.1 p.2) empty

/-- The count of a camera; a camera that is not in the census has none. -/
def countFor (c : Census) (camera : String) : Nat :=
  (c.pairs.lookup camera).getD 0

def total (c : Census) : Nat := c.pairs.foldr (fun p n => p.2 + n) 0

def size (c : Census) : Nat := c.pairs.length

def cameras (c : Census) : List (String × Nat) :=
  c.pairs.mergeSort fun a b => (compare a.1 b.1).isLE

/-- Cameras rank by their counts, and among equal counts the smaller name ranks higher. -/
def rank (a b : String × Nat) : Ordering :=
  (compare a.2 b.2).then (compare b.1 a.1)

def busiest? (c : Census) : Option (String × Nat) :=
  c.cameras.foldl (fun best p =>
    match best with
    | none => some p
    | some b => if rank b p = .gt then some b else some p) none

/-! ### The printed table -/

/-- A text and blanks behind it up to a width in code points; a longer text is left as it is. -/
def padRight (width : Nat) (s : String) : String :=
  s ++ String.ofList (List.replicate (width - s.length) ' ')

/-- A text and blanks before it up to a width in code points; a longer text is left as it is. -/
def padLeft (width : Nat) (s : String) : String :=
  String.ofList (List.replicate (width - s.length) ' ') ++ s

def row (p : String × Nat) : String :=
  "  " ++ padRight 16 p.1 ++ ": " ++ padLeft 5 (toString p.2) ++ " tracks"

def heading (c : Census) : String :=
  "Track registry (" ++ toString c.size ++ " cameras, " ++ toString c.total ++ " tracks):"

/-- The table of all cameras; there is none without a camera. -/
def summary? (c : Census) : Option String :=
  if c.pairs.isEmpty then none
  else some ("\n".intercalate (c.heading :: c.cameras.map row))

end Census

/-! ### The census of a store -/

namespace Store

variable {P : Type}

theorem nodup_counts (s : Store P) : (s.counts.map (·.1.text)).Nodup := by
  have hk : (s.shards.toList.map (·.1)).Nodup := by
    rw [List.nodup_iff_pairwise_ne, List.pairwise_map]
    refine s.shards.distinct_keys_toList.imp fun h => ?_
    simpa using h
  have hs : (s.counts.map (·.1)).Sublist (s.shards.toList.map (·.1)) := by
    unfold counts
    induction s.shards.toList with
    | nil => simp
    | cons p l ih =>
      obtain ⟨c, shard⟩ := p
      simp only [List.filterMap_cons, List.map_cons]
      cases shard.liveSize? with
      | none => exact ih.cons _
      | some n => simpa using ih.cons_cons c
  rw [show (fun x : CameraId × Nat => x.1.text) = CameraId.text ∘ Prod.fst from rfl,
    ← List.map_map, List.nodup_iff_pairwise_ne, List.pairwise_map]
  exact (hk.sublist hs).imp fun h ht => h (CameraId.ext ht)

def census (s : Store P) : Census where
  pairs := s.counts.map fun p => (p.1.text, p.2)
  distinct := by simpa [Function.comp_def] using s.nodup_counts

end Store

end LiveTracks
