import LiveTracks.Proofs.History
import LiveTracks.Proofs.Reaping
import LiveTracks.Proofs.TopReports

/-!
# How long a lifetime lasts

A lifetime is as old as its row. A report extends the row that a layer has of a track, if there is one, whether
or not the track is stored. So what drops a track behind a layer, from below it, leaves its age behind for the
next track of the same key (`leftover_age`). Where nothing does, a report of a track that is not stored begins
a new lifetime, and a track that is given up for its age has been stored all that time (`lifetime_of_row`).
-/

namespace LiveTracks

variable {P : Type}

namespace Deed

/-- A report of the key that layer `j` takes note of. -/
def notes (j : Nat) (key : Key) : Deed P → Bool
  | .report k r => decide (j ≤ k) && key.isNamed r.camera r.number
  | _ => false

/-- A dropping of the key below layer `j`, which keeps its row. -/
def dropsBehind (j : Nat) (key : Key) : Deed P → Bool
  | .drop k camera track => decide (k < j) && key.isNamed camera track
  | .reap k camera track _ => decide (k < j) && key.isNamed camera track
  | .forget k camera => decide (k < j) && decide (camera = key.camera.text)
  | _ => false

end Deed

namespace Stack

/-- Holds before the deeds, between any two of them and after them. -/
def Throughout (p : Stack P → Prop) (s : Stack P) (deeds : List (Deed P)) : Prop :=
  ∀ done, done <+: deeds → p (s.after done)

def HasRow (j : Nat) (key : Key) (s : Stack P) : Prop := (s.row? j key).isSome = true

def Stores (key : Key) (s : Stack P) : Prop := (s.base.find? key).isSome = true

theorem throughout_nil {p : Stack P → Prop} {s : Stack P} : Throughout p s [] ↔ p s := by
  simp [Throughout]

theorem throughout_append_singleton {p : Stack P → Prop} {s : Stack P} {deeds : List (Deed P)}
    {d : Deed P} : Throughout p s (deeds ++ [d]) ↔ Throughout p s deeds ∧ p (s.after (deeds ++ [d])) := by
  simp only [Throughout, List.prefix_concat_iff]
  constructor
  · intro h
    exact ⟨fun done hd => h done (.inr hd), h _ (.inl rfl)⟩
  · intro hh done hd
    obtain ⟨h, hlast⟩ := hh
    rcases hd with rfl | hd
    · exact hlast
    · exact h done hd

theorem after_append_singleton (s : Stack P) (deeds : List (Deed P)) (d : Deed P) :
    s.after (deeds ++ [d]) = (s.after deeds).perform d := by
  rw [after_append, after_cons, after_nil]

/-! ### One deed -/

section Perform

variable {s : Stack P} {d : Deed P} {j : Nat} {key : Key}

theorem row?_report (k : Nat) (r : Report P) (hj : j ≤ s.depth) (h1 : 1 ≤ j) :
    (s.registerAt k r).1.row? j key =
      if (Deed.report k r).notes j key then
        some ⟨((s.row? j key).map (·.firstSeen)).getD s.clock, s.clock⟩
      else s.row? j key := by
  simp only [Deed.notes, Bool.and_eq_true, decide_eq_true_eq]
  cases hr : Key.ofRaw r.camera r.number with
  | error e =>
    have hn : ¬ (j ≤ k ∧ key.isNamed r.camera r.number = true) := by
      rw [Key.isNamed_iff, hr]
      exact fun hh => nomatch hh.2
    rw [if_neg hn, registerAt_of_error hr, row?_logs]
  | ok key' =>
    have hl : (s.reported k key' r.payload).layers = changeBelow k (·.noted key' s.clock) s.layers := rfl
    have hn : key.isNamed r.camera r.number = true ↔ key' = key := by
      rw [Key.isNamed_iff, hr, Except.ok.injEq]
    rw [registerAt_of_ok hr, row?_logs]
    by_cases hkey : key' = key
    · subst hkey
      by_cases hk : j ≤ k
      · rw [if_pos ⟨hk, hn.2 rfl⟩, row?_noted hl h1 hj hk]
      · rw [if_neg fun hh => hk hh.1, row?_changeBelow hl]
        simp only [hk, if_false, row?]
    · rw [if_neg fun hh => hkey (hn.1 hh.2), row?_noted_of_ne hl (Ne.symm hkey)]

theorem row?_of_notes (h1 : 1 ≤ j) (hj : j ≤ s.depth) (h : d.notes j key = true) :
    (s.perform d).row? j key = some ⟨((s.row? j key).map (·.firstSeen)).getD s.clock, s.clock⟩ := by
  cases d with
  | report k r => rw [perform, row?_report k r hj h1, if_pos h]
  | drop | reap | forget | log | setLog | setClock | setArmed => cases h

theorem row?_perform {life : Lifetime} (h1 : 1 ≤ j) (hj : j ≤ s.depth)
    (h : (s.perform d).row? j key = some life) :
    (d.notes j key = true ∧ life = ⟨((s.row? j key).map (·.firstSeen)).getD s.clock, s.clock⟩) ∨
      (d.notes j key = false ∧ s.row? j key = some life) := by
  cases d with
  | report k r =>
    rw [perform, row?_report k r hj h1] at h
    split at h
    · rename_i hn
      exact .inl ⟨hn, (Option.some.inj h).symm⟩
    · rename_i hn
      exact .inr ⟨Bool.eq_false_iff.2 hn, h⟩
  | drop k camera track =>
    rw [perform, row?_dropAt] at h
    split at h
    · cases h
    · exact .inr ⟨rfl, h⟩
  | reap k camera track x =>
    rw [perform, row?_dropAt] at h
    split at h
    · cases h
    · exact .inr ⟨rfl, h⟩
  | forget k camera =>
    rw [perform, row?_forgetAt] at h
    split at h
    · cases h
    · exact .inr ⟨rfl, h⟩
  | log events =>
    rw [perform, row?_logs] at h
    exact .inr ⟨rfl, h⟩
  | setLog | setClock | setArmed => exact .inr ⟨rfl, h⟩

theorem map_policy_perform (s : Stack P) (d : Deed P) :
    (s.perform d).layers.map (·.policy) = s.layers.map (·.policy) := by
  have hp : Inductive fun s' : Stack P => s'.layers.map (·.policy) = s.layers.map (·.policy) :=
    inductive_policies _
  cases d with
  | report k r => exact hp.register s k r rfl
  | drop k camera track => exact hp.drop s k camera track rfl
  | reap k camera track x => exact hp.drop s k camera track rfl
  | forget k camera => exact hp.forget s k camera rfl
  | log | setLog | setClock | setArmed => rfl

theorem stores_of_notes (h : d.notes j key = true) : Stores key (s.perform d) := by
  cases d with
  | report k r =>
    simp only [Deed.notes, Bool.and_eq_true, Key.isNamed_iff] at h
    rw [Stores, perform, registerAt_of_ok h.2]
    have hb := s.base.find?_put (key.entry r.payload) key
    rw [Key.key_entry, if_pos rfl] at hb
    exact congrArg Option.isSome hb
  | drop | reap | forget | log | setLog | setClock | setArmed => cases h

/-- Where nothing drops a track behind a layer, the track is not lost unless its row is. -/
theorem stores_perform (hd : d.dropsBehind j key = false) (hs : Stores key s)
    (hr : HasRow j key (s.perform d)) : Stores key (s.perform d) := by
  have hdrop : ∀ k camera track, (decide (k < j) && key.isNamed camera track) = false →
      HasRow j key (s.dropAt k camera track) → Stores key (s.dropAt k camera track) := by
    intro k camera track hd hr
    rw [HasRow, row?_dropAt] at hr
    simp only [Bool.and_eq_false_iff, decide_eq_false_iff_not, Nat.not_lt] at hd
    have hn : key.isNamed camera track = false := by
      rcases hd with hk | hn
      · by_contra hn
        rw [if_pos ⟨hk, Bool.of_not_eq_false hn⟩] at hr
        cases hr
      · exact hn
    rw [Stores, dropAt, Store.remove_eq_without, Store.find?_without, hn]
    exact hs
  cases d with
  | report k r =>
    cases hkey : Key.ofRaw r.camera r.number with
    | error e =>
      rw [perform, registerAt_of_error hkey]
      exact hs
    | ok key' =>
      have hb := s.base.find?_put (key'.entry r.payload) key
      rw [Key.key_entry] at hb
      rw [Stores, perform, registerAt_of_ok hkey, base_logs, reported, hb]
      split
      · rfl
      · exact hs
  | drop k camera track => exact hdrop k camera track hd hr
  | reap k camera track x => exact hdrop k camera track hd hr
  | forget k camera =>
    simp only [Deed.dropsBehind, Bool.and_eq_false_iff, decide_eq_false_iff_not, Nat.not_lt] at hd
    rw [HasRow, perform, row?_forgetAt] at hr
    rw [Stores, perform, forgetAt, base_logs, Store.find?_clear]
    rcases hd with hk | hn
    · split at hr
      · cases hr
      · rename_i hh
        rw [if_neg fun hn => hh ⟨hk, decide_eq_true hn⟩]
        exact hs
    · rw [if_neg hn]
      exact hs
  | log | setLog | setClock | setArmed => exact hs

end Perform

/-! ### All deeds -/

section After

variable {s : Stack P} {deeds : List (Deed P)} {j : Nat} {key : Key}

theorem map_policy_after (s : Stack P) (deeds : List (Deed P)) :
    (s.after deeds).layers.map (·.policy) = s.layers.map (·.policy) := by
  induction deeds generalizing s with
  | nil => rfl
  | cons d deeds ih => rw [after_cons, ih, map_policy_perform]

theorem depth_after (s : Stack P) (deeds : List (Deed P)) : (s.after deeds).depth = s.depth := by
  have h := congrArg List.length (s.map_policy_after deeds)
  rwa [List.length_map, List.length_map] at h

theorem stores_of_noted {d : Deed P} (h : d.notes j key = true) (first : List (Deed P)) :
    Stores key (s.after (first ++ [d])) := by
  rw [after_append_singleton]
  exact stores_of_notes h

/-- A row says when the key was noted first since the layer had no row of it. -/
theorem noted_of_row? (h1 : 1 ≤ j) (hj : j ≤ s.depth) (hnone : s.row? j key = none) {life : Lifetime}
    (h : (s.after deeds).row? j key = some life) :
    ∃ first d within, deeds = first ++ d :: within ∧ d.notes j key = true ∧
      life.firstSeen = (s.after first).clock ∧ (s.after (first ++ [d])).Throughout (HasRow j key) within := by
  induction deeds using List.reverseRecOn generalizing life with
  | nil => exact nomatch hnone.symm.trans h
  | append_singleton deeds d ih =>
    -- what was found of the row before the last deed goes on beyond it
    have hlater : ∀ {old : Lifetime}, (s.after deeds).row? j key = some old → life.firstSeen = old.firstSeen →
        ∃ first d' within, deeds ++ [d] = first ++ d' :: within ∧ d'.notes j key = true ∧
          life.firstSeen = (s.after first).clock ∧
          (s.after (first ++ [d'])).Throughout (HasRow j key) within := by
      intro old hold hsame
      obtain ⟨first, d', within, rfl, hnotes, hfirst, hall⟩ := ih hold
      refine ⟨first, d', within ++ [d], by simp, hnotes, hsame.trans hfirst, ?_⟩
      have hlast : (s.after (first ++ [d'])).after (within ++ [d]) =
          (s.after (first ++ d' :: within)).perform d := by simp [after_append]
      refine throughout_append_singleton.2 ⟨hall, ?_⟩
      rw [HasRow, hlast, ← after_append_singleton, h]
      rfl
    have hdepth : j ≤ (s.after deeds).depth := by rw [depth_after]; exact hj
    rw [after_append_singleton] at h
    rcases row?_perform h1 hdepth h with ⟨hnotes, hlife⟩ | ⟨-, hrow⟩
    · cases hrow : (s.after deeds).row? j key with
      | none =>
        refine ⟨deeds, d, [], rfl, hnotes, by rw [hlife, hrow]; rfl, throughout_nil.2 ?_⟩
        rw [HasRow, after_append_singleton, h]
        rfl
      | some old => exact hlater hrow (by rw [hlife, hrow]; rfl)
    · exact hlater hrow rfl

theorem stores_throughout (hs : Stores key s) (hrow : s.Throughout (HasRow j key) deeds)
    (hd : ∀ d ∈ deeds, d.dropsBehind j key = false) : s.Throughout (Stores key) deeds := by
  induction deeds using List.reverseRecOn with
  | nil => exact throughout_nil.2 hs
  | append_singleton deeds d ih =>
    obtain ⟨hrow, hlast⟩ := throughout_append_singleton.1 hrow
    have hall := ih hrow fun d' hd' => hd d' (List.mem_append_left _ hd')
    refine throughout_append_singleton.2 ⟨hall, ?_⟩
    rw [after_append_singleton] at hlast ⊢
    exact stores_perform (hd d (by simp)) (hall deeds (List.prefix_refl deeds)) hlast

/-- Nothing but what drops a track behind a layer leaves a row without a track. -/
theorem stores_of_hasRow (h1 : 1 ≤ j) (hj : j ≤ s.depth) (hnone : s.row? j key = none)
    (hd : ∀ d ∈ deeds, d.dropsBehind j key = false) (h : HasRow j key (s.after deeds)) :
    Stores key (s.after deeds) := by
  obtain ⟨life, hlife⟩ := Option.isSome_iff_exists.1 h
  obtain ⟨first, d, within, rfl, hnotes, -, hall⟩ := noted_of_row? h1 hj hnone hlife
  have hstored := stores_of_noted (s := s) hnotes first
  have hwithin := stores_throughout hstored hall fun d' hd' => hd d' (by simp [hd'])
  have hlast := hwithin within (List.prefix_refl within)
  rw [← after_append, List.append_assoc, List.singleton_append] at hlast
  exact hlast

theorem row?_eq_none_of_absent (h1 : 1 ≤ j) (hj : j ≤ s.depth) (hnone : s.row? j key = none)
    (hd : ∀ d ∈ deeds, d.dropsBehind j key = false) (habsent : (s.after deeds).base.find? key = none) :
    (s.after deeds).row? j key = none := by
  by_contra hrow
  have hstored := stores_of_hasRow h1 hj hnone hd (Option.isSome_iff_ne_none.2 hrow)
  rw [Stores, habsent] at hstored
  cases hstored

end After

theorem row?_ofPolicies (policies : List Policy) (j : Nat) (key : Key) :
    (ofPolicies policies : Stack P).row? j key = none := by
  cases j with
  | zero => rfl
  | succ j => simp [ofPolicies, row?, layer?, Store.find?_empty]

theorem policy_after_ofPolicies {policies : List Policy} {j : Nat} {policy : Policy}
    (hpolicy : policies[j]? = some policy) (deeds : List (Deed P)) :
    ∃ l, ((ofPolicies policies : Stack P).after deeds).layer? (j + 1) = some l ∧ l.policy = policy := by
  have h := (ofPolicies policies : Stack P).map_policy_after deeds
  have hp : (ofPolicies policies : Stack P).layers.map (·.policy) = policies := by
    simp [ofPolicies, Function.comp_def]
  have hj := congrArg (·[j]?) (h.trans hp)
  simp only [List.getElem?_map, hpolicy] at hj
  exact Option.map_eq_some_iff.1 hj

theorem older_of_finds {s : Stack P} {j : Nat} {l : Layer} (hl : s.layer? j = some l) {camera : String}
    {track : Int64} {entry : Entry P} (h : s.Finds (.reap j camera track ⟨entry, .maxAge⟩)) :
    ∃ life, s.row? j entry.key = some life ∧
      life.firstSeen.nanos + l.policy.activeTtl.nanos < s.clock.nanos := by
  have hverdict := (expired?_eq_some_iff.1 h.2).2.2
  rw [verdict?_eq_bind_row? hl] at hverdict
  obtain ⟨life, hlife, hage⟩ := Option.bind_eq_some_iff.1 hverdict
  have hage := (Policy.evaluate_eq_maxAge_iff.1 hage).2
  exact ⟨life, hlife, by omega⟩

end Stack

namespace Session

open Stack

/-- In every session, whatever drops tracks on whatever number: a report of a track that is not stored begins
a new lifetime in a layer, unless something has dropped the track behind the layer since the layer had no row
of it. And a track is given up for its age only if the layer has had a row of it for longer than the limit
without a break, and then the track was stored all that time, unless something has dropped it behind the
layer. -/
theorem lifetime_of_row (settings : Settings) (processors : Nat) (policies : List Policy)
    (outlet : Option (Outlet String)) (source : TimeSource) (moves : List Move) {j : Nat}
    {policy : Policy} (hpolicy : policies[j]? = some policy) :
    let s : Stack String := ofPolicies policies
    let deeds := (ofSettings settings processors policies outlet source).deeds moves
    (∀ key first later d rest, deeds = first ++ later ++ d :: rest → d.notes (j + 1) key = true →
      (s.after first).row? (j + 1) key = none → (∀ d' ∈ later, d'.dropsBehind (j + 1) key = false) →
      (s.after (first ++ later)).base.find? key = none →
        (s.after (first ++ later ++ [d])).row? (j + 1) key =
          some ⟨(s.after (first ++ later)).clock, (s.after (first ++ later)).clock⟩) ∧
    ∀ before camera track entry rest,
      deeds = before ++ .reap (j + 1) camera track ⟨entry, .maxAge⟩ :: rest →
        ∃ first d within, before = first ++ d :: within ∧ d.notes (j + 1) entry.key = true ∧
          (s.after first).clock.nanos + policy.activeTtl.nanos < (s.after before).clock.nanos ∧
          (s.after (first ++ [d])).Throughout (HasRow (j + 1) entry.key) within ∧
          ((∀ d' ∈ within, d'.dropsBehind (j + 1) entry.key = false) →
            (s.after (first ++ [d])).Throughout (Stores entry.key) within) := by
  intro s deeds
  have hj : j + 1 ≤ s.depth := by
    have hlt : j < policies.length := (List.getElem?_eq_some_iff.1 hpolicy).1
    have hs : s.depth = policies.length := List.length_map _
    omega
  constructor
  · intro key first later d rest hdeeds hnotes hnone hlater habsent
    have hdepth : ∀ done, j + 1 ≤ (s.after done).depth := fun done => by rwa [depth_after]
    -- had a row begun after `first`, its track would still be stored
    have hrow : (s.after (first ++ later)).row? (j + 1) key = none := by
      rw [after_append] at habsent ⊢
      exact row?_eq_none_of_absent (Nat.le_add_left 1 j) (hdepth first) hnone hlater habsent
    rw [after_append_singleton, row?_of_notes (Nat.le_add_left 1 j) (hdepth _) hnotes, hrow]
    rfl
  · intro before camera track entry rest hdeeds
    have htruthful : s.Truthful deeds :=
      (ofSettings settings processors policies outlet source).truthful_deeds moves
    rw [hdeeds] at htruthful
    have hfinds := (truthful_append.1 htruthful).2.1
    obtain ⟨l, hl, rfl⟩ := policy_after_ofPolicies hpolicy before
    obtain ⟨life, hlife, hage⟩ := older_of_finds hl hfinds
    obtain ⟨first, d, within, rfl, hnotes, hfirst, hrows⟩ :=
      noted_of_row? (Nat.le_add_left 1 j) hj (row?_ofPolicies policies (j + 1) entry.key) hlife
    have hstored := stores_of_noted (s := s) hnotes first
    exact ⟨first, d, within, rfl, hnotes, hfirst ▸ hage, hrows, stores_throughout hstored hrows⟩

/-- A track that is removed and comes back, and is then kept for longer than its limit. -/
def renewedMoves : List Move :=
  [.plain none (.call (.register ⟨"north", 1, "a"⟩)), .plain none (.call (.remove "north" 1)),
    .plain none (.advance (.ofSeconds 29)), .plain none (.call (.register ⟨"north", 1, "b"⟩)),
    .plain none (.advance (.ofSeconds 31)), .plain none (.call .sweep)]

def renewed : Session := .ofSettings .default 1 [⟨.ofSeconds 100, .ofSeconds 30⟩] none .dial

/-- The deeds up to the second report. The first track is dropped among them, together with its row. -/
def untilRenewed : List (Deed String) :=
  [.setLog [], .report 1 ⟨"north", 1, "a"⟩, .setLog [], .drop 1 "north" 1, .setLog [],
    .setClock (.mk 29000000000), .setLog []]

def untilSwept : List (Deed String) :=
  untilRenewed ++ [.report 1 ⟨"north", 1, "b"⟩, .setLog [], .setClock (.mk 60000000000), .setLog []]

theorem lifetime_of_row_renewed :
    ((ofPolicies [⟨.ofSeconds 100, .ofSeconds 30⟩]).after
        (untilRenewed ++ [.report 1 ⟨"north", 1, "b"⟩])).row? 1 ⟨⟨"north", by decide⟩, ⟨1⟩⟩ =
        some ⟨.mk 29000000000, .mk 29000000000⟩ ∧
      ∃ first d within, untilSwept = first ++ d :: within ∧
        ((ofPolicies [⟨.ofSeconds 100, .ofSeconds 30⟩]).after first).clock.nanos + 30000000000 <
          60000000000 := by
  obtain ⟨hnew, hold⟩ := lifetime_of_row .default 1 [⟨.ofSeconds 100, .ofSeconds 30⟩] none .dial
    renewedMoves (j := 0) rfl
  have hdeeds : renewed.deeds renewedMoves = untilSwept ++
      .reap 1 "north" 1 ⟨⟨⟨"north", by decide⟩, ⟨1⟩, "b"⟩, .maxAge⟩ ::
        [.log [.expired ⟨⟨"north", by decide⟩, ⟨1⟩⟩ .maxAge]] := by decide +kernel
  constructor
  · exact hnew _ [] untilRenewed (.report 1 ⟨"north", 1, "b"⟩) _ hdeeds (by decide) rfl (by decide)
      (by decide +kernel)
  · obtain ⟨first, d, within, hsplit, -, hage, -⟩ := hold untilSwept _ _ _ _ hdeeds
    exact ⟨first, d, within, hsplit, hage⟩

end Session

namespace Stack

/-- A track that is dropped from the store alone, so that the layer keeps its row. -/
def leftoverRun : List (Step String) :=
  [.plain 1 (.register ⟨"north", 1, "a"⟩), .plain 0 (.remove "north" 1),
    .plain 1 (.setClock (.mk 29000000000))]

def leftover : Stack String := (ofPolicies [⟨.ofSeconds 3, .ofSeconds 30⟩]).run leftoverRun

def returned : Stack String :=
  leftover.run [.plain 1 (.register ⟨"north", 1, "b"⟩), .plain 1 (.setClock (.mk 31000000000))]

/-- The track is not stored when it is reported again at 29 s. Its row says all the same that it was first
reported at 0 s, and a sweep gives the track up for its age 2 s later. -/
theorem leftover_age :
    leftover.base.find? ⟨⟨"north", by decide⟩, ⟨1⟩⟩ = none ∧ leftover.clock = .mk 29000000000 ∧
      returned.row? 1 ⟨⟨"north", by decide⟩, ⟨1⟩⟩ = some ⟨.mk 0, .mk 29000000000⟩ ∧
      (returned.sweep 1 .ascending).2 = [⟨⟨⟨"north", by decide⟩, ⟨1⟩, "b"⟩, .maxAge⟩] :=
  ⟨by decide +kernel, rfl, by decide +kernel, by decide +kernel⟩

end Stack

end LiveTracks
