import Mathlib.Data.List.Induction
import LiveTracks.Proofs.Reaping

/-!
# Where the reported tracks come from

What is stored of a key is what its last accepted report said, unless the key has been dropped since
(`stored_since`). A sweep finds its tracks in the store and drops them, so between two findings of one key, by
whatever layers, and between a removal and a finding there is always an accepted report (`reaped_since`). What
sweeps answer, and what they give to a finisher, is what they found (`found?_runDeeds`).
-/

namespace LiveTracks

variable {σ P : Type}

namespace Deed

/-- An accepted report of the key, on whatever number. -/
def stores (key : Key) : Deed P → Bool
  | .report _ r => key.isNamed r.camera r.number
  | _ => false

/-- A dropping of the key, on whatever number: alone, by a sweep, or with its camera. -/
def takes (key : Key) : Deed P → Bool
  | .drop _ camera track | .reap _ camera track _ => key.isNamed camera track
  | .forget _ camera => decide (camera = key.camera.text)
  | _ => false

end Deed

namespace Stack

/-! ### One deed -/

section Perform

variable {s : Stack P} {d : Deed P} {key : Key}

theorem find?_of_stores (h : d.stores key = true) :
    ∃ k r, d = .report k r ∧ Key.ofRaw r.camera r.number = .ok key ∧
      (s.perform d).base.find? key = some (key.entry r.payload) := by
  cases d with
  | report k r =>
    have hkey : Key.ofRaw r.camera r.number = .ok key := Key.isNamed_iff.1 h
    refine ⟨k, r, rfl, hkey, ?_⟩
    rw [perform, registerAt_of_ok hkey, base_logs, reported, Store.find?_put, Key.key_entry, if_pos rfl]
  | drop | reap | forget | log | setLog | setClock | setArmed => cases h

theorem find?_dropAt (s : Stack P) (k : Nat) (camera : String) (track : Int64) (key : Key) :
    (s.dropAt k camera track).base.find? key =
      if key.isNamed camera track then none else s.base.find? key := by
  rw [dropAt, Store.remove_eq_without, Store.find?_without]

theorem find?_forgetAt (s : Stack P) (k : Nat) (camera : String) (key : Key) :
    (s.forgetAt k camera).base.find? key =
      if camera = key.camera.text then none else s.base.find? key := by
  rw [forgetAt, base_logs, Store.find?_clear]

theorem find?_of_takes (h : d.takes key = true) : (s.perform d).base.find? key = none := by
  cases d with
  | drop k camera track => exact (find?_dropAt s k camera track key).trans (if_pos h)
  | reap k camera track x => exact (find?_dropAt s k camera track key).trans (if_pos h)
  | forget k camera => rw [perform, find?_forgetAt, if_pos (of_decide_eq_true h)]
  | report | log | setLog | setClock | setArmed => cases h

theorem find?_of_idle (hs : d.stores key = false) (ht : d.takes key = false) :
    (s.perform d).base.find? key = s.base.find? key := by
  cases d with
  | report k r =>
    cases hr : Key.ofRaw r.camera r.number with
    | error e => rw [perform, registerAt_of_error hr, base_logs]
    | ok key' =>
      have hne : key ≠ key' := Key.ne_of_isNamed_eq_false hs hr
      rw [perform, registerAt_of_ok hr, base_logs, reported, Store.find?_put, Key.key_entry, if_neg hne]
  | drop k camera track =>
    exact (find?_dropAt s k camera track key).trans (if_neg (Bool.eq_false_iff.1 ht))
  | reap k camera track x =>
    exact (find?_dropAt s k camera track key).trans (if_neg (Bool.eq_false_iff.1 ht))
  | forget k camera => rw [perform, find?_forgetAt, if_neg (of_decide_eq_false ht)]
  | log | setLog | setClock | setArmed => rfl

end Perform

/-! ### All deeds -/

/-- A track that was not stored at first and is stored after the deeds is there as its last report among them
said, and nothing has dropped it since. -/
theorem stored_since {s : Stack P} {deeds : List (Deed P)} {key : Key} {e : Entry P}
    (hnone : s.base.find? key = none) (h : (s.after deeds).base.find? key = some e) :
    ∃ early k r since, deeds = early ++ .report k r :: since ∧
      Key.ofRaw r.camera r.number = .ok key ∧ e = key.entry r.payload ∧
      ∀ d ∈ since, d.stores key = false ∧ d.takes key = false := by
  induction deeds using List.reverseRecOn generalizing e with
  | nil => exact nomatch hnone.symm.trans h
  | append_singleton deeds d ih =>
    rw [after_append, after_cons, after_nil] at h
    cases hs : d.stores key with
    | true =>
      obtain ⟨k, r, rfl, hkey, hfind⟩ := find?_of_stores (s := s.after deeds) hs
      exact ⟨deeds, k, r, [], rfl, hkey, Option.some.inj (h.symm.trans hfind), nofun⟩
    | false =>
      cases ht : d.takes key with
      | true => exact nomatch (find?_of_takes ht).symm.trans h
      | false =>
        rw [find?_of_idle hs ht] at h
        obtain ⟨early, k, r, since, rfl, hkey, he, hsince⟩ := ih h
        refine ⟨early, k, r, since ++ [d], by simp, hkey, he, fun d' hd' => ?_⟩
        rcases List.mem_append.1 hd' with hd' | hd'
        · exact hsince d' hd'
        · rw [List.mem_singleton.1 hd']
          exact ⟨hs, ht⟩

theorem takes_of_finds {s : Stack P} {k : Nat} {camera : String} {track : Int64} {x : Expired P}
    (h : s.Finds (.reap k camera track x)) :
    (Deed.reap k camera track x).takes x.entry.key = true :=
  Key.isNamed_iff.2 h.1

/-- Whatever a sweep finds is as it was reported last, and has not been dropped since. -/
theorem reaped_since {s : Stack P} {before rest : List (Deed P)} {k : Nat} {camera : String}
    {track : Int64} {x : Expired P} (hnone : s.base.find? x.entry.key = none)
    (h : s.Truthful (before ++ .reap k camera track x :: rest)) :
    ∃ early k' r since, before = early ++ .report k' r :: since ∧
      Key.ofRaw r.camera r.number = .ok x.entry.key ∧ x.entry = x.entry.key.entry r.payload ∧
      ∀ d ∈ since, d.stores x.entry.key = false ∧ d.takes x.entry.key = false :=
  stored_since hnone (expired?_eq_some_iff.1 (truthful_append.1 h).2.1.2).2.1

end Stack

open Stack

/-! ### What sweeps answer -/

def Answer.found : Answer P → List (Expired P)
  | .expired l => l
  | _ => []

theorem Stack.found?_callDeeds (s : Stack P) (w : Walk) (sharing : Sharing) (k : Nat) (c : Call P) :
    (s.callDeeds w sharing k c).filterMap Deed.found? = (s.call w sharing k c).2.found := by
  cases c with
  | sweep => exact (sweepWhere_snd _ _ _ _).symm
  | sweepPart part parts => exact (sweepWhere_snd _ _ _ _).symm
  | remove camera track => exact filterMap_found? (s.found?_removeDeeds k camera track)
  | clear camera => exact filterMap_found? (s.found?_clearDeeds k camera)
  | register r =>
    simp only [call]
    split <;> rfl
  | setClock | arm | get | getByCamera | count | census => rfl

namespace Service

/-- What a worker finds in one round, and hands over. -/
def roundSwept (v : Service σ P) (w : Walk) (sharing : Sharing) (i : Nat) : List (Expired P) :=
  match v.crew.workers[i]? with
  | some .working => (v.stack.sweepPart v.stack.depth w sharing i v.crew.size).2
  | _ => []

def roundsSwept (v : Service σ P) (f : Finisher σ P) (w : Walk) (sharing : Sharing) :
    List Nat → List (Expired P)
  | [] => []
  | i :: workers =>
    v.roundSwept w sharing i ++ (v.round f w sharing i).roundsSwept f w sharing workers

theorem found?_roundDeeds (v : Service σ P) (f : Finisher σ P) (w : Walk) (sharing : Sharing) (i : Nat) :
    (v.roundDeeds f w sharing i).filterMap Deed.found? = v.roundSwept w sharing i := by
  unfold roundDeeds roundSwept
  cases v.crew.workers[i]? with
  | none => rfl
  | some worker =>
    cases worker with
    | panicked => rfl
    | working =>
      dsimp only
      rw [List.filterMap_append, filterMap_found? (found?_handOverDeeds _ _ _ _), List.append_nil]
      exact (sweepWhere_snd _ _ _ _).symm

theorem found?_roundsDeeds (v : Service σ P) (f : Finisher σ P) (w : Walk) (sharing : Sharing)
    (workers : List Nat) :
    (loopDeeds (fun v i => v.round f w sharing i) (roundDeeds f w sharing) v workers).filterMap
      Deed.found? = v.roundsSwept f w sharing workers := by
  induction workers generalizing v with
  | nil => rfl
  | cons i workers ih => rw [loopDeeds, List.filterMap_append, found?_roundDeeds, ih, roundsSwept]

theorem found?_sweepOnceDeeds (v : Service σ P) (f : Finisher σ P) (w : Walk) :
    (v.sweepOnceDeeds f w).filterMap Deed.found? = (v.stack.sweep v.stack.depth w).2 := by
  unfold sweepOnceDeeds
  rw [List.filterMap_append, filterMap_found? (found?_handOverDeeds _ _ _ _), List.append_nil]
  exact (sweepWhere_snd _ _ _ _).symm

end Service

namespace Session

/-- What the sweeps of a command found, in this order, for the caller or for the outlet. -/
def swept (w : Walk) (sharing : Sharing) (s : Session) (k : Nat) : Command → List (Expired String)
  | .call c => (s.stack.call w sharing k c).2.found
  | .sweepParts parts => (sweepParts w sharing s.stack k parts 0 parts).2.flatten
  | .sweepOnce =>
    match s.outlet with
    | some _ => (s.stack.sweep s.stack.depth w).2
    | none => []
  | .background expected =>
    match s.outlet with
    | some o =>
      let started := (s.service o).start
      if expected = 0 then []
      else started.roundsSwept Outlet.finish w sharing (List.range started.crew.workers.length)
    | none => []
  | _ => []

def sweptAll (s : Session) : List Move → List (Expired String)
  | [] => []
  | m :: moves =>
    s.quiet.swept m.walk m.sharing (m.number.getD s.stack.depth) m.command ++ (s.proceed m).sweptAll moves

theorem found?_sweepPartsDeeds (w : Walk) (sharing : Sharing) (s : Stack String)
    (k parts p left : Nat) :
    (sweepPartsDeeds w sharing s k parts p left).filterMap Deed.found? =
      (sweepParts w sharing s k parts p left).2.flatten := by
  induction left generalizing s p with
  | zero => rfl
  | succ left ih =>
    rw [sweepPartsDeeds, List.filterMap_append, ih, sweepParts, List.flatten_cons]
    exact congrArg (· ++ _) (sweepWhere_snd _ _ _ _).symm

theorem found?_backgroundDeeds (w : Walk) (sharing : Sharing) (expected : Nat)
    (v : Service (Outlet String) String) :
    (backgroundDeeds w sharing expected v).filterMap Deed.found? =
      if expected = 0 then []
      else v.start.roundsSwept Outlet.finish w sharing (List.range v.start.crew.workers.length) := by
  unfold backgroundDeeds
  by_cases he : expected = 0
  · simp only [he, if_true]
    rfl
  · simp only [he, if_false, List.filterMap_append]
    exact (List.append_nil _).trans (Service.found?_roundsDeeds _ _ _ _ _)

/-- The droppings of sweeps among the deeds of a command tell what its sweeps found. -/
theorem found?_runDeeds (w : Walk) (sharing : Sharing) (s : Session) (k : Nat) (c : Command) :
    (s.runDeeds w sharing k c).filterMap Deed.found? = s.swept w sharing k c := by
  cases c with
  | call c => exact s.stack.found?_callDeeds w sharing k c
  | sweepParts parts => exact found?_sweepPartsDeeds w sharing s.stack k parts 0 parts
  | registerLists lists => exact filterMap_found? (found?_registerListsDeeds k lists)
  | contend camera writers each clears =>
    exact filterMap_found? (found?_contendDeeds k s.stack camera writers each clears)
  | sweepOnce =>
    simp only [runDeeds, serveDeeds, swept]
    cases s.outlet with
    | none => rfl
    | some o => exact (s.service o).found?_sweepOnceDeeds Outlet.finish w
  | background expected =>
    simp only [runDeeds, serveDeeds, swept]
    cases s.outlet with
    | none => rfl
    | some o => exact found?_backgroundDeeds w sharing expected (s.service o)
  | advance | setDial =>
    simp only [runDeeds, turnDeeds]
    cases s.source <;> rfl
  | start | stop | release =>
    simp only [runDeeds, serveDeeds]
    cases s.outlet <;> rfl
  | _ => rfl

theorem found?_deeds (s : Session) (moves : List Move) :
    (s.deeds moves).filterMap Deed.found? = s.sweptAll moves := by
  induction moves generalizing s with
  | nil => rfl
  | cons m moves ih =>
    have hquiet : s.quietDeeds.filterMap Deed.found? = [] := by
      unfold quietDeeds
      cases s.source <;> rfl
    rw [deeds, loopDeeds, List.filterMap_append, proceedDeeds, List.filterMap_append, hquiet,
      List.nil_append, found?_runDeeds, sweptAll]
    exact congrArg _ (ih (s.proceed m))

/-- In every session, whatever is called on whatever number, with armed reports and with finishers that report
again: what sweeps find is as it was reported last, before it is dropped, and between this report and the
finding the key has not been dropped in any way. So a key that has been dropped, by a sweep or otherwise, is
found again only after another accepted report of it. -/
theorem reaped_after_report (settings : Settings) (processors : Nat) (policies : List Policy)
    (outlet : Option (Outlet String)) (source : TimeSource) (moves : List Move) :
    let s := ofSettings settings processors policies outlet source
    (s.proceedAll moves).stack = s.stack.after (s.deeds moves) ∧
    s.sweptAll moves = (s.deeds moves).filterMap Deed.found? ∧
    (∀ before k camera track x rest, s.deeds moves = before ++ .reap k camera track x :: rest →
      (Deed.reap k camera track x).takes x.entry.key = true ∧
      ∃ early k' r since, before = early ++ .report k' r :: since ∧
        Key.ofRaw r.camera r.number = .ok x.entry.key ∧ x.entry.payload = r.payload ∧
        ∀ d ∈ since, d.stores x.entry.key = false ∧ d.takes x.entry.key = false) ∧
    ∀ before d between k camera track x rest,
      s.deeds moves = before ++ d :: (between ++ .reap k camera track x :: rest) →
      d.takes x.entry.key = true → ∃ d' ∈ between, d'.stores x.entry.key = true := by
  intro s
  have htruthful : s.stack.Truthful (s.deeds moves) := s.truthful_deeds moves
  have hempty : ∀ key, s.stack.base.find? key = none := fun key => Store.find?_empty key
  refine ⟨s.proceedAll_eq_after moves, (s.found?_deeds moves).symm, ?_, ?_⟩
  · intro before k camera track x rest hdeeds
    rw [hdeeds] at htruthful
    obtain ⟨early, k', r, since, hbefore, hkey, hentry, hsince⟩ := reaped_since (hempty _) htruthful
    exact ⟨takes_of_finds (truthful_append.1 htruthful).2.1, early, k', r, since, hbefore, hkey,
      congrArg Entry.payload hentry, hsince⟩
  · intro before d between k camera track x rest hdeeds htakes
    rw [hdeeds] at htruthful
    -- the dropping leaves nothing of the key, so what is found later has been reported since
    obtain ⟨early, k', r, since, hbetween, hkey, -, -⟩ :=
      reaped_since (find?_of_takes htakes) (truthful_append.1 htruthful).2.2
    exact ⟨.report k' r, by simp [hbetween], Key.isNamed_iff.2 hkey⟩

/-- A track that both layers give up: the lower one first, and the upper one once an armed report has brought
it back in the midst of that sweep. -/
def returningMoves : List Move :=
  [.plain none (.call (.register ⟨"north", 1, "a"⟩)), .plain none (.call (.arm ⟨"north", 1, "b"⟩)),
    .plain none (.advance (.ofSeconds 5)), .plain (some 1) (.call .sweep),
    .plain none (.advance (.ofSeconds 5)), .plain none .sweepOnce]

def returning : Session :=
  .ofSettings .default 1 [⟨.ofSeconds 3, .ofSeconds 30⟩, ⟨.ofSeconds 4, .ofSeconds 9⟩]
    (some (.recorder .accept [])) .dial

theorem reaped_after_report_returning :
    (returning.sweptAll returningMoves).map (·.entry.payload) = ["a", "b"] ∧
      ∃ before between rest,
        returning.deeds returningMoves =
          before ++ .reap 1 "north" 1 ⟨⟨⟨"north", by decide⟩, ⟨1⟩, "a"⟩, .inactive⟩ ::
            (between ++ .reap 2 "north" 1 ⟨⟨⟨"north", by decide⟩, ⟨1⟩, "b"⟩, .inactive⟩ :: rest) ∧
        ∃ d ∈ between, d.stores ⟨⟨"north", by decide⟩, ⟨1⟩⟩ = true := by
  have h := reaped_after_report .default 1
    [⟨.ofSeconds 3, .ofSeconds 30⟩, ⟨.ofSeconds 4, .ofSeconds 9⟩] (some (.recorder .accept [])) .dial
    returningMoves
  have hdeeds : returning.deeds returningMoves =
      [.setLog [], .report 2 ⟨"north", 1, "a"⟩, .setLog [], .setArmed (some ⟨"north", 1, "b"⟩), .setLog [],
        .setClock (.mk 5000000000), .setLog []] ++
        .reap 1 "north" 1 ⟨⟨⟨"north", by decide⟩, ⟨1⟩, "a"⟩, .inactive⟩ ::
          ([.setArmed none, .report 2 ⟨"north", 1, "b"⟩, .log [.expired ⟨⟨"north", by decide⟩, ⟨1⟩⟩ .inactive],
            .setLog [], .setClock (.mk 10000000000), .setLog []] ++
            .reap 2 "north" 1 ⟨⟨⟨"north", by decide⟩, ⟨1⟩, "b"⟩, .inactive⟩ ::
              [.log [.expired ⟨⟨"north", by decide⟩, ⟨1⟩⟩ .inactive], .log []]) := by
    decide +kernel
  exact ⟨by decide +kernel, _, _, _, hdeeds, h.2.2.2 _ _ _ _ _ _ _ _ hdeeds (by decide)⟩

end Session

end LiveTracks
