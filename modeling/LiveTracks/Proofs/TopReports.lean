import LiveTracks.Proofs.History
import LiveTracks.Proofs.SessionDeeds

/-!
# Reports that go through the top

Removals and sweeps may be made on any number, also from within a sweep by way of an armed report, and they
leave the layers out of step. Still no layer loses the row of a stored track, as long as every accepted
report goes through the top: a removal takes the entry along whatever rows it leaves behind, and a report
writes the rows of all layers. So all rows of a stored track say when it was reported last
(`rows_of_stored`).
-/

namespace LiveTracks

variable {P : Type}

namespace Deed

/-- An accepted report that leaves out a layer of a stack of `n` layers. -/
def bypasses (n : Nat) : Deed P → Bool
  | .report k r => (Key.ofRaw r.camera r.number).isOk && decide (k < n)
  | _ => false

/-- What the clock shows, and what it showed when the key was reported last. -/
def tell (key : Key) (told : Instant × Option Instant) : Deed P → Instant × Option Instant
  | .setClock now => (now, told.2)
  | .report _ r => if key.isNamed r.camera r.number then (told.1, some told.1) else told
  | _ => told

end Deed

def lastTold (key : Key) (deeds : List (Deed P)) : Option Instant :=
  (deeds.foldl (Deed.tell key) (⟨0⟩, none)).2

namespace Stack

/-! ### One deed -/

theorem dropAt_eq_without (s : Stack P) (k : Nat) (camera : String) (track : Int64) :
    s.dropAt k camera track = s.without k (Key.isNamed camera track) := by
  simp only [dropAt, without, Store.remove_eq_without, Layer.drop_eq_without]

theorem row?_dropAt (s : Stack P) (k : Nat) (camera : String) (track : Int64) (j : Nat) (key : Key) :
    (s.dropAt k camera track).row? j key =
      if j ≤ k ∧ key.isNamed camera track then none else s.row? j key := by
  rw [dropAt_eq_without, row?_without]

structure Covered (n : Nat) (s : Stack P) (told : Key → Instant × Option Instant) : Prop where
  depth : s.depth = n
  clock : ∀ key, (told key).1 = s.clock
  rows : ∀ key e, s.base.find? key = some e → ∀ j, 1 ≤ j → j ≤ n →
    ∃ life, s.row? j key = some life ∧ (told key).2 = some life.lastSeen

section Covered

variable {n : Nat} {s : Stack P} {told : Key → Instant × Option Instant}

/-- A key of which nothing changes stays covered, and so does one that is not stored any more. -/
theorem Covered.of_gone (h : Covered n s told) {s' : Stack P} (gone : Key → Bool)
    (hd : s'.depth = n) (hc : s'.clock = s.clock)
    (hb : ∀ key e, s'.base.find? key = some e → gone key = false ∧ s.base.find? key = some e)
    (hr : ∀ j key, gone key = false → s'.row? j key = s.row? j key) : Covered n s' told where
  depth := hd
  clock key := (h.clock key).trans hc.symm
  rows key e he j h1 hj := by
    obtain ⟨hg, he⟩ := hb key e he
    rw [hr j key hg]
    exact h.rows key e he j h1 hj

theorem Covered.report (h : Covered n s told) {k : Nat} {r : Report P}
    (hk : (Deed.report k r).bypasses n = false) :
    Covered n (s.perform (.report k r)) fun key => Deed.tell key (told key) (.report k r) := by
  simp only [Deed.bypasses, Bool.and_eq_false_iff, decide_eq_false_iff_not] at hk
  cases hkey : Key.ofRaw r.camera r.number with
  | error e =>
    have hnamed : ∀ key, Key.isNamed r.camera r.number key = false := fun key => by
      rw [Bool.eq_false_iff, ne_eq, Key.isNamed_iff, hkey]
      exact nofun
    have hsame : (fun key => Deed.tell key (told key) (.report k r)) = told := by
      funext key
      simp only [Deed.tell, hnamed, Bool.false_eq_true, if_false]
    rw [hsame, perform, registerAt_of_error hkey]
    exact ⟨h.depth, h.clock, fun key e he j h1 hj => by rw [row?_logs]; exact h.rows key e he j h1 hj⟩
  | ok key₀ =>
    have hnk : n ≤ k := by
      rcases hk with hk | hk
      · rw [hkey] at hk
        cases hk
      · exact Nat.not_lt.1 hk
    have hnamed : ∀ key, Key.isNamed r.camera r.number key = true ↔ key = key₀ := fun key => by
      rw [Key.isNamed_iff, hkey, Except.ok.injEq, eq_comm]
    rw [perform, registerAt_of_ok hkey]
    have hlayers : (s.reported k key₀ r.payload).layers = changeBelow k (·.noted key₀ s.clock) s.layers :=
      rfl
    refine ⟨(length_changeBelow k _ s.layers).trans h.depth, fun key => ?_, fun key e he j h1 hj => ?_⟩
    · simp only [Deed.tell]
      split <;> exact h.clock key
    · rw [base_logs] at he
      rw [row?_logs]
      by_cases hkk : key = key₀
      · subst hkk
        refine ⟨_, row?_noted hlayers h1 (h.depth ▸ hj) (Nat.le_trans hj hnk), ?_⟩
        simp only [Deed.tell, (hnamed key).2 rfl, if_true, h.clock key]
      · have hb := s.base.find?_put (key₀.entry r.payload) key
        rw [Key.key_entry, if_neg hkk] at hb
        have he : s.base.find? key = some e := hb.symm.trans he
        have hn : Key.isNamed r.camera r.number key = false :=
          Bool.eq_false_iff.2 fun hh => hkk ((hnamed key).1 hh)
        simp only [Deed.tell, hn, Bool.false_eq_true, if_false]
        rw [row?_noted_of_ne hlayers hkk]
        exact h.rows key e he j h1 hj

theorem Covered.drop (h : Covered n s told) (k : Nat) (camera : String) (track : Int64) :
    Covered n (s.dropAt k camera track) told := by
  refine h.of_gone (Key.isNamed camera track) ?_ rfl (fun key e he => ?_) fun j key hg => ?_
  · exact (length_changeBelow k _ s.layers).trans h.depth
  · simp only [dropAt, Store.remove_eq_without, Store.find?_without] at he
    split at he
    · cases he
    · rename_i hn
      exact ⟨Bool.eq_false_iff.2 hn, he⟩
  · rw [row?_dropAt, hg]
    simp

theorem Covered.forget (h : Covered n s told) (k : Nat) (camera : String) :
    Covered n (s.forgetAt k camera) told := by
  refine h.of_gone (fun key => decide (camera = key.camera.text)) ?_ rfl (fun key e he => ?_)
    fun j key hg => ?_
  · exact (length_changeBelow k _ s.layers).trans h.depth
  · simp only [forgetAt, base_logs, Store.find?_clear] at he
    split at he
    · cases he
    · rename_i hn
      exact ⟨decide_eq_false hn, he⟩
  · rw [row?_forgetAt, hg]
    simp

theorem Covered.perform (h : Covered n s told) {d : Deed P} (hd : d.bypasses n = false) :
    Covered n (s.perform d) fun key => d.tell key (told key) := by
  cases d with
  | report k r => exact h.report hd
  | drop k camera track => exact h.drop k camera track
  | reap k camera track found => exact h.drop k camera track
  | forget k camera => exact h.forget k camera
  | log events =>
    exact ⟨h.depth, h.clock, fun key e he j h1 hj => by
      rw [Stack.perform, row?_logs]; exact h.rows key e he j h1 hj⟩
  | setClock now => exact ⟨h.depth, fun key => rfl, h.rows⟩
  | setLog events | setArmed armed => exact ⟨h.depth, h.clock, h.rows⟩

/-! ### All deeds -/

theorem Covered.after (h : Covered n s told) {deeds : List (Deed P)}
    (hd : ∀ d ∈ deeds, d.bypasses n = false) :
    Covered n (s.after deeds) fun key => deeds.foldl (Deed.tell key) (told key) := by
  induction deeds generalizing s told with
  | nil => exact h
  | cons d deeds ih =>
    exact ih (h.perform (hd d List.mem_cons_self)) fun d' hd' => hd d' (List.mem_cons_of_mem d hd')

theorem covered_ofPolicies (policies : List Policy) :
    Covered policies.length (ofPolicies policies : Stack P) fun _ => (⟨0⟩, none) where
  depth := List.length_map _
  clock key := rfl
  rows key e he := by
    simp only [ofPolicies, Store.find?_empty] at he
    cases he

end Covered

end Stack

namespace Session

/-- In every session in which no accepted report leaves out a layer, every layer has a row of every stored
track, and the row says when the track was reported last. -/
theorem rows_of_stored (settings : Settings) (processors : Nat) (policies : List Policy)
    (outlet : Option (Outlet String)) (source : TimeSource) (moves : List Move)
    (htop : ∀ d ∈ (ofSettings settings processors policies outlet source).deeds moves,
      d.bypasses policies.length = false) :
    let s := ofSettings settings processors policies outlet source
    ∀ key e, (s.proceedAll moves).stack.base.find? key = some e →
      ∀ j, 1 ≤ j → j ≤ policies.length → ∃ life, (s.proceedAll moves).stack.row? j key = some life ∧
        lastTold key (s.deeds moves) = some life.lastSeen := by
  intro s key e he j h1 hj
  have hcovered := (Stack.covered_ofPolicies policies).after htop
  have hstack : (s.proceedAll moves).stack = (Stack.ofPolicies policies).after (s.deeds moves) :=
    s.proceedAll_eq_after moves
  rw [hstack] at he ⊢
  exact hcovered.rows key e he j h1 hj

/-- Both layers get out of step, an armed report is made in the midst of a sweep of the lower layer, and the
finisher reports again what it is handed. -/
def relayedMoves : List Move :=
  [.plain none (.call (.register ⟨"north", 1, "a"⟩)), .plain none (.call (.register ⟨"north", 2, "b"⟩)),
    .plain (some 0) (.call (.remove "north" 2)), .plain none (.call (.arm ⟨"north", 2, "c"⟩)),
    .plain none (.advance (.ofSeconds 5)), .plain (some 1) (.call .sweep),
    .plain none (.advance (.ofSeconds 5)), .plain none .sweepOnce]

def relayed : Session :=
  .ofSettings .default 1 [⟨.ofSeconds 3, .ofSeconds 30⟩, ⟨.ofSeconds 4, .ofSeconds 9⟩]
    (some (.recorder (.reregister fun payload => payload) [])) .dial

theorem rows_of_stored_relayed :
    (∀ d ∈ relayed.deeds relayedMoves, d.bypasses 2 = false) ∧
      ∃ life, (relayed.proceedAll relayedMoves).stack.row? 1 ⟨⟨"north", by decide⟩, ⟨2⟩⟩ = some life ∧
        life.lastSeen = .mk 10000000000 := by
  have htop : ∀ d ∈ relayed.deeds relayedMoves, d.bypasses 2 = false := by decide +kernel
  have he : (relayed.proceedAll relayedMoves).stack.base.find? ⟨⟨"north", by decide⟩, ⟨2⟩⟩ =
      some ⟨⟨"north", by decide⟩, ⟨2⟩, "c"⟩ := by decide +kernel
  obtain ⟨life, hrow, hlast⟩ := rows_of_stored .default 1
    [⟨.ofSeconds 3, .ofSeconds 30⟩, ⟨.ofSeconds 4, .ofSeconds 9⟩]
    (some (.recorder (.reregister fun payload => payload) [])) .dial relayedMoves htop _ _ he 1
    (by decide) (by decide)
  have htold : lastTold ⟨⟨"north", by decide⟩, ⟨2⟩⟩ (relayed.deeds relayedMoves) =
      some (.mk 10000000000) := by decide +kernel
  exact ⟨htop, life, hrow, Option.some.inj (hlast.symm.trans htold)⟩

end Session

end LiveTracks
