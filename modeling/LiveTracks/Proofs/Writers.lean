import LiveTracks.Proofs.Filling
import LiveTracks.Proofs.FlatStore
import LiveTracks.Proofs.Traffic

/-!
# Writers on keys of their own

Several writers share a stack. Each of them makes the reports of its own list, one after the other, and the
accesses of all of them come in any order while the clock stands still. As long as no two writers report the same
key, what each number of the stack has taken is known from what each writer has done so far, and it does not
matter whose part comes first (`Writers.Consistent`). So in the end the stack is as if one list had been made after
the other, whatever the order (`writers_commute`).
-/

namespace LiveTracks

variable {P : Type}

/-- What a writer has made, with the answers, what it is making, and what it is still to make. -/
structure Writer (P : Type) where
  made : List (Report P × Answer P)
  underway : Option (Report P × Stage P)
  todo : List (Report P)

structure Writers (P : Type) where
  stack : Stack P
  writers : List (Writer P)

namespace Writer

def ofList (reports : List (Report P)) : Writer P := ⟨[], none, reports⟩

/-- Starts the next report on number `k`, makes the next access of the one under way, or takes its answer. -/
def turn (s : Stack P) (k : Nat) (w : Writer P) : Stack P × Writer P :=
  match w.underway with
  | none =>
    match w.todo with
    | [] => (s, w)
    | r :: todo => (s, { w with underway := some (r, .ofRequest k (.register r)), todo })
  | some (r, .done a) => (s, { w with made := w.made ++ [(r, a)], underway := none })
  | some (r, c) => ((c.advance s).1, { w with underway := some (r, (c.advance s).2) })

def isDone (w : Writer P) : Bool := w.underway.isNone && w.todo.isEmpty

def accepted (w : Writer P) : Nat :=
  w.made.countP fun p =>
    match p.2 with
    | .done => true
    | _ => false

end Writer

namespace Writers

def start (s : Stack P) (lists : List (List (Report P))) : Writers P := ⟨s, lists.map .ofList⟩

def turn (k : Nat) (t : Writers P) (i : Nat) : Writers P :=
  match t.writers[i]? with
  | none => t
  | some w => ⟨(w.turn t.stack k).1, t.writers.set i (w.turn t.stack k).2⟩

def run (k : Nat) (t : Writers P) (schedule : List Nat) : Writers P := schedule.foldl (turn k) t

def isDone (t : Writers P) : Bool := t.writers.all (·.isDone)

end Writers

/-! ### What a report under way has done -/

namespace Stage

def hasWritten (j : Nat) : Stage P → Bool
  | .readClock i _ _ | .readRow i _ _ _ | .writeRow i _ _ _ _ => decide (j ≤ i)
  | .done _ => true
  | _ => false

/-- Makes this report on number `k` of a stack that has taken others at the same reading of the clock. What was read
of a row is what the first one to write it would have read. -/
def Makes (s : Stack P) (k : Nat) (r : Report P) : Stage P → Prop
  | .writeEntry k' r' => k' = k ∧ r' = r
  | .readClock i k' r' => (k' = k ∧ r' = r) ∧ i < k ∧ r.fault? = none
  | .readRow i k' r' now => (k' = k ∧ r' = r) ∧ i < k ∧ r.fault? = none ∧ now = s.clock
  | .writeRow i k' r' now firstSeen => (k' = k ∧ r' = r) ∧ i < k ∧
    ∃ key, Key.ofRaw r.camera r.number = .ok key ∧
      ∀ l, s.layers[i]? = some l → ⟨firstSeen, now⟩ = l.extended key s.clock
  | .done a => a = r.answer
  | _ => False

def gained (c c' : Stage P) (r : Report P) (j : Nat) : List (Report P) :=
  if c'.hasWritten j && !c.hasWritten j then [r] else []

theorem hasWritten_above {i j k : Nat} (hi : i ≤ k) (hj : j ≤ k) (r : Report P) :
    (above i k r).hasWritten j = decide (j ≤ i) := by
  unfold above
  split
  · rfl
  · have hji : j ≤ i := by omega
    rw [hasWritten, decide_eq_true hji]

theorem makes_above {s : Stack P} {i k : Nat} {r : Report P} (h : r.fault? = none) : (above i k r).Makes s k r := by
  unfold above
  split
  · rename_i hi
    exact ⟨⟨rfl, rfl⟩, hi, h⟩
  · rw [Makes, Report.answer, h]

theorem lifetime?_filled {s : Stack P} {k i : Nat} (hi : i < k) {r : Report P} {key : Key}
    (hkey : Key.ofRaw r.camera r.number = .ok key) (reports : Nat → List (Report P)) (log : List Event) {l : Layer}
    (hl : s.layers[i]? = some l) :
    ((((s.filled k reports log).layer? (i + 1)).bind (·.lifetime? r.camera r.number)).map (·.firstSeen)).getD
      s.clock = (l.extended key s.clock).firstSeen := by
  have hlayer : (s.filled k reports log).layer? (i + 1) = some (l.filled s.clock (reports (i + 1))) := by
    rw [Stack.layer?, Stack.getElem?_filled, hl, Option.map_some, if_pos hi]
  rw [hlayer, Option.bind_some, Layer.lifetime?_of_ok hkey, Option.map_map,
    ← l.extended_filled s.clock (reports (i + 1))]
  rfl

theorem gained_above {i k j : Nat} (hi : i ≤ k) (hj : j ≤ k) (c : Stage P) (r : Report P) :
    c.gained (above i k r) r j = if j ≤ i ∧ c.hasWritten j = false then [r] else [] := by
  simp only [gained, hasWritten_above hi hj, Bool.and_eq_true, decide_eq_true_eq, Bool.not_eq_true']

theorem gained_of_same {c c' : Stage P} (h : ∀ j, c'.hasWritten j = c.hasWritten j) (r : Report P) (j : Nat) :
    c.gained c' r j = [] := by
  rw [gained, h, Bool.and_not_self]
  rfl

section Advance

variable {s : Stack P} {k : Nat} {r : Report P} (reports : Nat → List (Report P)) (log : List Event)

def Advances (s : Stack P) (k : Nat) (r : Report P) (reports : Nat → List (Report P)) (log : List Event)
    (c : Stage P) : Prop :=
  ∃ log' c', c.advance (s.filled k reports log) = (s.filled k (fun j => reports j ++ c.gained c' r j) log', c') ∧
    c'.Makes s k r ∧ (∀ j, j ≤ k → c.hasWritten j = true → c'.hasWritten j = true) ∧
    ∀ e, log'.count e + s.base.eventCount (reports 0) e =
      log.count e + s.base.eventCount (reports 0 ++ c.gained c' r 0) e

theorem advances_of_same {c c' : Stage P} (hadvance : c.advance (s.filled k reports log) = (s.filled k reports log, c'))
    (hmakes : c'.Makes s k r) (hsame : ∀ j, c'.hasWritten j = c.hasWritten j) :
    Advances s k r reports log c := by
  have hnone : ∀ j, reports j ++ c.gained c' r j = reports j := fun j => by
    rw [gained_of_same hsame, List.append_nil]
  refine ⟨log, c', ?_, hmakes, fun j _ hj => (hsame j).trans hj, fun e => ?_⟩
  · simp only [hnone, hadvance]
  · rw [hnone]

theorem advances_writeEntry : Advances s k r reports log (.writeEntry k r) := by
  let log' := log ++ (s.base.fill (fun _ r => r.payload) (reports 0)).announced r
  have htaken : ((s.filled k reports log).registerAt 0 r).1 =
      s.filled k (fun j => if j ≤ 0 then reports j ++ [r] else reports j) log' :=
    Stack.registerAt_filled (Nat.zero_le k) reports log r
  have hcount : ∀ e, log'.count e + s.base.eventCount (reports 0) e =
      log.count e + s.base.eventCount (reports 0 ++ [r]) e := by
    intro e
    rw [List.count_append, Store.eventCount_concat s.base fun _ r => r.payload]
    omega
  cases h : Key.ofRaw r.camera r.number with
  | ok key =>
    have hfault : r.fault? = none := by rw [Report.fault?, h]
    have hadvance : (writeEntry k r).advance (s.filled k reports log) =
        (((s.filled k reports log).registerAt 0 r).1, above 0 k r) := by
      simp only [Stage.advance, Stack.registerAt_of_ok h]
    have hgained : ∀ j, j ≤ k → (writeEntry k r).gained (above 0 k r) r j = if j ≤ 0 then [r] else [] := by
      intro j hj
      simp [gained_above (Nat.zero_le k) hj, hasWritten]
    refine ⟨log', above 0 k r, ?_, makes_above hfault, fun _ _ h => absurd h Bool.false_ne_true, fun e => ?_⟩
    · rw [hadvance, htaken]
      refine congrArg (·, _) (Stack.filled_congr (fun j hj => ?_) _)
      rw [hgained j hj, apply_ite (reports j ++ ·), List.append_nil]
      exact fun _ => rfl
    · rw [hgained 0 (Nat.zero_le k), if_pos (Nat.le_refl 0)]
      exact hcount e
  | error fault =>
    have hfault : r.fault? = some fault := by rw [Report.fault?, h]
    have hadvance : (writeEntry k r).advance (s.filled k reports log) =
        (((s.filled k reports log).registerAt 0 r).1, .done (.refused fault)) := by
      simp only [Stage.advance, Stack.registerAt_of_error h]
    -- a report without a key is taken by all numbers at once, since none of them has anything to write
    have hgained : ∀ j, (writeEntry k r).gained (.done (.refused fault)) r j = [r] := fun j => rfl
    refine ⟨log', .done (.refused fault), ?_, by rw [Makes, Report.answer, hfault], fun _ _ _ => rfl, fun e => ?_⟩
    · rw [hadvance, htaken]
      refine congrArg (·, _) (Stack.filled_congr (fun j hj => ?_) _)
      rw [hgained]
      split
      · exact fun _ => rfl
      · exact fun key => (sameByKey_concat_of_error h _ key).symm
    · rw [hgained]
      exact hcount e

theorem advances_writeRow {i : Nat} {now firstSeen : Instant} (hi : i < k) {key : Key}
    (h : Key.ofRaw r.camera r.number = .ok key)
    (hread : ∀ l, s.layers[i]? = some l → ⟨firstSeen, now⟩ = l.extended key s.clock) :
    Advances s k r reports log (.writeRow i k r now firstSeen) := by
  have hfault : r.fault? = none := by rw [Report.fault?, h]
  have hgained : ∀ j, j ≤ k →
      (writeRow i k r now firstSeen).gained (above (i + 1) k r) r j = if j = i + 1 then [r] else [] := by
    intro j hj
    rw [gained_above hi hj]
    refine if_congr ?_ rfl rfl
    simp only [hasWritten, decide_eq_false_iff_not]
    omega
  have hzero : (writeRow i k r now firstSeen).gained (above (i + 1) k r) r 0 = [] := by
    rw [hgained 0 (Nat.zero_le k), if_neg (Nat.succ_ne_zero i).symm]
  have hadvance : (writeRow i k r now firstSeen).advance (s.filled k reports log) =
      (s.filled k (Stack.withOneMore reports i r) log, above (i + 1) k r) := by
    have hlayer := Stack.getElem?_filled (s := s) (k := k) reports log i
    cases hl : s.layers[i]? with
    | none =>
      rw [hl, Option.map_none] at hlayer
      rw [Stack.filled_withOneMore_of_none reports log r hl]
      simp only [Stage.advance, hlayer]
    | some l =>
      rw [hl, Option.map_some, if_pos hi] at hlayer
      rw [Stack.filled_withOneMore_of_some reports log r h hi hl]
      simp only [Stage.advance, hlayer, Store.register, h, Except.map, hread l hl, Layer.noted,
        Layer.extended_filled]
  refine ⟨log, above (i + 1) k r, ?_, makes_above hfault, fun j hj hw => ?_, fun e => ?_⟩
  · rw [hadvance]
    refine congrArg (·, _) (Stack.filled_congr (fun j hj => ?_) _)
    rw [hgained j hj, apply_ite (reports j ++ ·), List.append_nil]
    exact fun _ => rfl
  · rw [hasWritten_above hi hj]
    have hji : j ≤ i := of_decide_eq_true hw
    exact decide_eq_true (Nat.le_succ_of_le hji)
  · rw [hzero, List.append_nil]

theorem Makes.advances {c : Stage P} (h : c.Makes s k r) : Advances s k r reports log c := by
  cases c with
  | writeEntry k' r' =>
    obtain ⟨rfl, rfl⟩ := h
    exact advances_writeEntry reports log
  | readClock i k' r' =>
    obtain ⟨⟨rfl, rfl⟩, hi, hfault⟩ := h
    exact advances_of_same reports log rfl ⟨⟨rfl, rfl⟩, hi, hfault, rfl⟩ fun _ => rfl
  | readRow i k' r' now =>
    obtain ⟨⟨rfl, rfl⟩, hi, hfault, rfl⟩ := h
    obtain ⟨key, hkey⟩ := Report.fault?_eq_none_iff.1 hfault
    refine advances_of_same reports log rfl ⟨⟨rfl, rfl⟩, hi, key, hkey, fun l hl => ?_⟩ fun _ => rfl
    rw [lifetime?_filled hi hkey reports log hl]
    rfl
  | writeRow i k' r' now firstSeen =>
    obtain ⟨⟨rfl, rfl⟩, hi, key, hkey, hread⟩ := h
    exact advances_writeRow reports log hi hkey hread
  | done a => exact advances_of_same reports log rfl h fun _ => rfl
  | _ => cases h

end Advance

def left (k : Nat) : Stage P → Nat
  | .writeEntry _ _ => 3 * k + 2
  | .readClock i _ _ => 3 * (k - i) + 1
  | .readRow i _ _ _ => 3 * (k - i)
  | .writeRow i _ _ _ _ => 3 * (k - i) - 1
  | .done _ => 1
  | _ => 0

theorem left_above_le (i k : Nat) (r : Report P) : (above i k r).left k ≤ 3 * (k - i) + 1 := by
  unfold above
  split
  · exact Nat.le_refl _
  · exact Nat.le_add_left 1 _

theorem Makes.left_pos {s : Stack P} {k : Nat} {r : Report P} {c : Stage P} (h : c.Makes s k r) : 0 < c.left k := by
  cases c with
  | readRow i k' r' now =>
    have hi : i < k := h.2.1
    simp only [left]
    omega
  | writeRow i k' r' now firstSeen =>
    have hi : i < k := h.2.1
    simp only [left]
    omega
  | writeEntry | readClock | done => exact Nat.succ_pos _
  | _ => cases h

theorem Makes.left_advance {s : Stack P} {k : Nat} {r : Report P} {c : Stage P} (h : c.Makes s k r)
    (hc : c.isDone = false) (u : Stack P) : (c.advance u).2.left k < c.left k := by
  cases c with
  | writeEntry k' r' =>
    obtain ⟨rfl, rfl⟩ := h
    have habove := left_above_le 0 k' r'
    have hleft : (writeEntry k' r').left k' = 3 * k' + 2 := rfl
    rw [hleft, Stage.advance]
    split
    · dsimp only
      omega
    · exact Nat.succ_lt_succ (Nat.succ_pos _)
  | readClock i k' r' => exact Nat.lt_succ_self _
  | readRow i k' r' now =>
    have hi : i < k := h.2.1
    simp only [Stage.advance, left]
    omega
  | writeRow i k' r' now firstSeen =>
    obtain ⟨⟨rfl, rfl⟩, hi, -⟩ := h
    have habove := left_above_le (i + 1) k' r'
    have hleft : (writeRow i k' r' now firstSeen).left k' = 3 * (k' - i) - 1 := rfl
    have hdone : ∀ a : Answer P, (done a).left k' = 1 := fun _ => rfl
    rw [hleft, Stage.advance]
    split
    · dsimp only
      omega
    · split
      · dsimp only
        omega
      · rw [hdone]
        omega
  | done a => cases hc
  | _ => cases h

end Stage

/-! ### One writer -/

namespace Writer

def written (j : Nat) (w : Writer P) : List (Report P) :=
  w.made.map (·.1) ++ (w.underway.toList.filter (·.2.hasWritten j)).map (·.1)

structure Sound (s : Stack P) (k : Nat) (list : List (Report P)) (w : Writer P) : Prop where
  reports : w.made.map (·.1) ++ w.underway.toList.map (·.1) ++ w.todo = list
  answers : ∀ p ∈ w.made, p.2 = p.1.answer
  makes : ∀ p, w.underway = some p → p.2.Makes s k p.1

def left (k : Nat) (w : Writer P) : Nat :=
  w.underway.elim 0 (·.2.left k) + (3 * k + 3) * w.todo.length

variable {s : Stack P} {k : Nat} {list : List (Report P)} {w : Writer P}

theorem sound_ofList (s : Stack P) (k : Nat) (list : List (Report P)) : (ofList list).Sound s k list where
  reports := rfl
  answers := nofun
  makes := nofun

theorem Sound.mem_of_written (h : w.Sound s k list) {j : Nat} {r : Report P} (hr : r ∈ w.written j) : r ∈ list := by
  rw [← h.reports]
  rcases List.mem_append.1 hr with hr | hr
  · exact List.mem_append_left _ (List.mem_append_left _ hr)
  · obtain ⟨p, hp, rfl⟩ := List.mem_map.1 hr
    exact List.mem_append_left _ (List.mem_append_right _ (List.mem_map_of_mem (List.mem_filter.1 hp).1))

theorem turn_of_underway {r : Report P} {c : Stage P} (hw : w.underway = some (r, c)) (hc : c.isDone = false)
    (u : Stack P) :
    w.turn u k = ((c.advance u).1, { w with underway := some (r, (c.advance u).2) }) := by
  unfold turn
  rw [hw]
  cases c with
  | done a => cases hc
  | _ => rfl

/-- What a turn of a writer comes to, for a stack that has taken these reports so far: each number takes what it
gains. -/
structure Turned (s : Stack P) (k : Nat) (list : List (Report P)) (reports : Nat → List (Report P))
    (log : List Event) (w w' : Writer P) (gained : Nat → List (Report P)) (log' : List Event) : Prop where
  turn : w.turn (s.filled k reports log) k = (s.filled k (fun j => reports j ++ gained j) log', w')
  sound : w'.Sound s k list
  written : ∀ j, j ≤ k → w'.written j = w.written j ++ gained j
  left : w'.left k ≤ w.left k - 1
  count : ∀ e, log'.count e + s.base.eventCount (reports 0) e =
    log.count e + s.base.eventCount (reports 0 ++ gained 0) e

section Turn

variable (reports : Nat → List (Report P)) (log : List Event)

theorem turned_of_same {w w' : Writer P} (hturn : w.turn (s.filled k reports log) k = (s.filled k reports log, w'))
    (hsound : w'.Sound s k list) (hwritten : ∀ j, w'.written j = w.written j) (hleft : w'.left k ≤ w.left k - 1) :
    Turned s k list reports log w w' (fun _ => []) log where
  turn := by simpa only [List.append_nil] using hturn
  sound := hsound
  written j _ := by rw [hwritten, List.append_nil]
  left := hleft
  count e := by rw [List.append_nil]

theorem turned_start {made : List (Report P × Answer P)} {r : Report P} {todo : List (Report P)}
    (h : Sound s k list ⟨made, none, r :: todo⟩) :
    Turned s k list reports log ⟨made, none, r :: todo⟩ ⟨made, some (r, .writeEntry k r), todo⟩ (fun _ => []) log := by
  refine turned_of_same reports log rfl ⟨?_, h.answers, ?_⟩ (fun j => ?_) ?_
  · rw [← h.reports]
    simp
  · rintro p ⟨⟩
    exact ⟨rfl, rfl⟩
  · simp [Writer.written, Stage.hasWritten]
  · simp only [Writer.left, Option.elim_some, Option.elim_none, Stage.left, List.length_cons, Nat.mul_succ]
    omega

theorem turned_answer {made : List (Report P × Answer P)} {r : Report P} {a : Answer P} {todo : List (Report P)}
    (h : Sound s k list ⟨made, some (r, .done a), todo⟩) :
    Turned s k list reports log ⟨made, some (r, .done a), todo⟩ ⟨made ++ [(r, a)], none, todo⟩ (fun _ => []) log := by
  refine turned_of_same reports log rfl ⟨?_, fun p hp => ?_, nofun⟩ (fun j => ?_) ?_
  · rw [← h.reports]
    simp
  · rcases List.mem_append.1 hp with hp | hp
    · exact h.answers p hp
    · rw [List.mem_singleton.1 hp]
      exact h.makes _ rfl
  · simp [Writer.written, Stage.hasWritten]
  · simp [Writer.left, Stage.left]

theorem written_underway (made : List (Report P × Answer P)) (r : Report P) (c : Stage P) (todo : List (Report P))
    (j : Nat) :
    (Writer.mk made (some (r, c)) todo).written j = made.map (·.1) ++ if c.hasWritten j then [r] else [] := by
  cases hw : c.hasWritten j <;> simp [Writer.written, hw]

theorem turned_advance {made : List (Report P × Answer P)} {r : Report P} {c : Stage P} {todo : List (Report P)}
    (h : Sound s k list ⟨made, some (r, c), todo⟩) (hc : c.isDone = false) :
    ∃ w' gained log', Turned s k list reports log ⟨made, some (r, c), todo⟩ w' gained log' := by
  have hmakes : c.Makes s k r := h.makes _ rfl
  obtain ⟨log', c', hadvance, hmakes', hmono, hcount⟩ := hmakes.advances reports log
  refine ⟨⟨made, some (r, c'), todo⟩, c.gained c' r, log', ?_, ⟨h.reports, h.answers, ?_⟩, fun j hj => ?_, ?_, hcount⟩
  · rw [turn_of_underway rfl hc, hadvance]
  · rintro p ⟨⟩
    exact hmakes'
  · have hj := hmono j hj
    rw [written_underway, written_underway, Stage.gained]
    cases hw : c.hasWritten j <;> cases hw' : c'.hasWritten j <;> simp_all
  · have hlt := hmakes.left_advance hc (s.filled k reports log)
    rw [hadvance] at hlt
    exact Nat.le_sub_one_of_lt (Nat.add_lt_add_right hlt _)

theorem Sound.turned (h : w.Sound s k list) :
    ∃ w' gained log', Turned s k list reports log w w' gained log' := by
  obtain ⟨made, underway, todo⟩ := w
  match underway, todo with
  | none, [] => exact ⟨_, _, _, turned_of_same reports log rfl h (fun _ => rfl) (Nat.zero_le _)⟩
  | none, r :: todo => exact ⟨_, _, _, turned_start reports log h⟩
  | some (r, c), todo =>
    cases hc : c.isDone with
    | false => exact turned_advance reports log h hc
    | true =>
      cases c with
      | done a => exact ⟨_, _, _, turned_answer reports log h⟩
      | _ => cases hc

end Turn

theorem isDone_iff : w.isDone = true ↔ w.underway = none ∧ w.todo = [] := by
  rw [isDone, Bool.and_eq_true, Option.isNone_iff_eq_none, List.isEmpty_iff]

theorem Sound.map_made_of_isDone (h : w.Sound s k list) (hw : w.isDone = true) : w.made.map (·.1) = list := by
  obtain ⟨hunderway, htodo⟩ := isDone_iff.1 hw
  rw [← h.reports, hunderway, htodo, Option.toList_none, List.map_nil, List.append_nil, List.append_nil]

theorem Sound.written_of_isDone (h : w.Sound s k list) (hw : w.isDone = true) (j : Nat) : w.written j = list := by
  rw [written, (isDone_iff.1 hw).1, h.map_made_of_isDone hw, Option.toList_none, List.filter_nil, List.map_nil,
    List.append_nil]

theorem Sound.accepted_of_isDone (h : w.Sound s k list) (hw : w.isDone = true) :
    w.accepted = list.countP (·.isValid) := by
  rw [← h.map_made_of_isDone hw, List.countP_map, accepted]
  apply List.countP_congr
  intro p hp
  rw [h.answers p hp, Function.comp_apply, Report.isValid, Report.answer]
  cases p.1.fault? <;> simp

theorem Sound.isDone_of_left (h : w.Sound s k list) (hleft : w.left k = 0) : w.isDone = true := by
  obtain ⟨hunderway, htodo⟩ := Nat.add_eq_zero_iff.1 hleft
  rw [isDone_iff]
  constructor
  · cases hp : w.underway with
    | none => rfl
    | some p =>
      have hpos := (h.makes p hp).left_pos
      rw [hp] at hunderway
      exact absurd hunderway (Nat.ne_of_gt hpos)
  · have hlength := (Nat.mul_eq_zero.1 htodo).resolve_left (Nat.succ_ne_zero _)
    exact List.eq_nil_of_length_eq_zero hlength

end Writer

/-! ### All writers -/

section Apart

variable {a b : List (Report P)} {lists : List (List (Report P))}

theorem apart_of_ne (h : ∀ r ∈ a, ∀ r' ∈ b, ¬ (r'.camera = r.camera ∧ r'.number = r.number)) : Apart a b := by
  intro key r hr r' hr' hnames
  rw [Bool.eq_false_iff]
  intro hnames'
  have hkey := Key.ofRaw_eq_ok_iff_of_ok (Report.names_iff.1 hnames) r'.camera r'.number
  exact h r hr r' hr' (hkey.1 (Report.names_iff.1 hnames'))

theorem apart_of_getElem? (hd : lists.Pairwise Apart) {i j : Nat} (hij : i ≠ j) (hi : lists[i]? = some a)
    (hj : lists[j]? = some b) : Apart a b := by
  obtain ⟨hilt, rfl⟩ := List.getElem?_eq_some_iff.1 hi
  obtain ⟨hjlt, rfl⟩ := List.getElem?_eq_some_iff.1 hj
  rw [List.pairwise_iff_getElem] at hd
  rcases Nat.lt_or_gt_of_ne hij with hlt | hlt
  · exact hd i j hilt hjlt hlt
  · exact (hd j i hjlt hilt hlt).symm

end Apart

namespace Writers

/-- What every number of the stack has taken is what the writers have done, one after the other. -/
structure Consistent (s : Stack P) (k : Nat) (lists : List (List (Report P))) (t : Writers P) : Prop where
  length : t.writers.length = lists.length
  sound : ∀ (i : Nat) list w, lists[i]? = some list → t.writers[i]? = some w → w.Sound s k list
  stack : t.stack = s.filled k (fun j => t.writers.flatMap (·.written j)) t.stack.log
  count : ∀ e, t.stack.log.count e = s.log.count e + s.base.eventCount (t.writers.flatMap (·.written 0)) e

variable {s : Stack P} {k : Nat} {lists : List (List (Report P))} {t : Writers P}

theorem consistent_start (s : Stack P) (k : Nat) (lists : List (List (Report P))) :
    Consistent s k lists (start s lists) := by
  have hnone : ∀ j, (lists.map Writer.ofList).flatMap (·.written j) = [] := by
    intro j
    simp [Writer.written, Writer.ofList]
  refine ⟨List.length_map _, fun i list w hi hw => ?_, ?_, fun e => ?_⟩
  · rw [start, List.getElem?_map, hi] at hw
    cases hw
    exact Writer.sound_ofList s k list
  · simp only [start, hnone]
    exact (s.filled_nil k).symm
  · simp only [start, hnone]
    cases e <;> simp [Store.eventCount]

theorem Consistent.list_of_writer (h : Consistent s k lists t) {i : Nat} {w : Writer P}
    (hw : t.writers[i]? = some w) : ∃ list, lists[i]? = some list ∧ w.Sound s k list := by
  have hi := (List.getElem?_eq_some_iff.1 hw).1
  rw [h.length] at hi
  exact ⟨lists[i], List.getElem?_eq_getElem hi, h.sound i _ w (List.getElem?_eq_getElem hi) hw⟩

theorem Consistent.turn (hd : lists.Pairwise Apart) (h : Consistent s k lists t) (i : Nat) :
    Consistent s k lists (t.turn k i) ∧
      ∀ w, t.writers[i]? = some w → ∃ w', (t.turn k i).writers[i]? = some w' ∧ w'.left k ≤ w.left k - 1 := by
  unfold Writers.turn
  cases hw : t.writers[i]? with
  | none => exact ⟨h, nofun⟩
  | some w =>
    obtain ⟨list, hlist, hsound⟩ := h.list_of_writer hw
    obtain ⟨w', gained, log', hturned⟩ := hsound.turned (fun j => t.writers.flatMap (·.written j)) t.stack.log
    have hself : (t.writers.set i w')[i]? = some w' := List.getElem?_set_self (List.getElem?_eq_some_iff.1 hw).1
    have hnext : Consistent s k lists
        ⟨s.filled k (fun j => t.writers.flatMap (·.written j) ++ gained j) log', t.writers.set i w'⟩ := by
      refine ⟨?_, fun j list' w₂ hj hw₂ => ?_, ?_, fun e => ?_⟩
      · exact (List.length_set ..).trans h.length
      · rcases getElem?_set_cases hw₂ with ⟨rfl, rfl⟩ | ⟨-, hw₂⟩
        · cases hlist.symm.trans hj
          exact hturned.sound
        · exact h.sound j list' w₂ hj hw₂
      · show s.filled k (fun j => t.writers.flatMap (·.written j) ++ gained j) log' =
          s.filled k (fun j => (t.writers.set i w').flatMap (·.written j)) log'
        refine Stack.filled_congr (fun j hj key => ?_) log'
        refine (filter_flatMap_set hw (hturned.written j hj) _ fun hnew n w₂ hn hw₂ => ?_).symm
        -- what the writer gains is on its own list, so no other writer has anything of the key
        obtain ⟨list₂, hlist₂, hsound₂⟩ := h.list_of_writer hw₂
        have hlists := apart_of_getElem? hd (Ne.symm hn) hlist hlist₂
        have hapart : Apart (gained j) (w₂.written j) := by
          intro key r hr r₂ hr₂
          have hwritten : r ∈ w'.written j := by
            rw [hturned.written j hj]
            exact List.mem_append_right _ hr
          exact hlists key r (hturned.sound.mem_of_written hwritten) r₂ (hsound₂.mem_of_written hr₂)
        exact filter_eq_nil_of_apart hapart hnew
      · have hperm := perm_flatMap_set (f := fun w => w.written 0) hw (.of_eq (hturned.written 0 (Nat.zero_le k)))
        have hcount := hturned.count e
        have hbefore := h.count e
        rw [← Store.eventCount_perm hperm] at hcount
        simp only [Stack.filled]
        omega
    have hturn : w.turn t.stack k = _ := (congrArg (w.turn · k) h.stack).trans hturned.turn
    simp only [hturn]
    refine ⟨hnext, ?_⟩
    rintro w₂ ⟨⟩
    exact ⟨w', hself, hturned.left⟩

theorem Consistent.run (hd : lists.Pairwise Apart) (h : Consistent s k lists t) (schedule : List Nat) :
    Consistent s k lists (t.run k schedule) :=
  List.foldlRecOn schedule (Writers.turn k) h fun _ h i _ => (h.turn hd i).1

theorem writers_turn_of_ne {i j : Nat} (hij : j ≠ i) (k : Nat) (t : Writers P) :
    (t.turn k j).writers[i]? = t.writers[i]? := by
  unfold turn
  split
  · rfl
  · exact List.getElem?_set_ne hij

/-- Each turn of a writer brings it closer to its end, whatever the others do. -/
theorem Consistent.left_run (hd : lists.Pairwise Apart) (h : Consistent s k lists t) (schedule : List Nat) {i : Nat}
    {w : Writer P} (hw : t.writers[i]? = some w) :
    ∃ w', (t.run k schedule).writers[i]? = some w' ∧ w'.left k ≤ w.left k - schedule.count i := by
  induction schedule generalizing t w with
  | nil => exact ⟨w, hw, Nat.le_refl _⟩
  | cons j schedule ih =>
    obtain ⟨hnext, hself⟩ := h.turn hd j
    by_cases hij : j = i
    · subst hij
      obtain ⟨w₁, hw₁, hleft₁⟩ := hself w hw
      obtain ⟨w', hw', hleft⟩ := ih hnext hw₁
      refine ⟨w', hw', ?_⟩
      rw [List.count_cons_self]
      omega
    · obtain ⟨w', hw', hleft⟩ := ih hnext ((writers_turn_of_ne hij k t).trans hw)
      refine ⟨w', hw', ?_⟩
      rwa [List.count_cons_of_ne hij]

theorem Consistent.isDone_of_turns (hd : lists.Pairwise Apart) (schedule : List Nat)
    (hturns : ∀ i list, lists[i]? = some list → (3 * k + 3) * list.length ≤ schedule.count i) :
    ((start s lists).run k schedule).isDone = true := by
  have hstart := consistent_start s k lists
  rw [isDone, List.all_eq_true]
  intro w' hw'
  obtain ⟨i, hi⟩ := List.getElem?_of_mem hw'
  obtain ⟨list, hlist, hsound⟩ := (hstart.run hd schedule).list_of_writer hi
  have hw : (start s lists).writers[i]? = some (.ofList list) := by rw [start, List.getElem?_map, hlist]; rfl
  obtain ⟨w, hend, hleft⟩ := hstart.left_run hd schedule hw
  cases hi.symm.trans hend
  have hall : (Writer.ofList list).left k = (3 * k + 3) * list.length := Nat.zero_add _
  refine hsound.isDone_of_left ?_
  have hcount := hturns i list hlist
  omega

theorem Consistent.map_of_isDone (h : Consistent s k lists t) (hdone : t.isDone = true) {α : Type}
    {f : Writer P → α} {g : List (Report P) → α}
    (hfg : ∀ w list, w.Sound s k list → w.isDone = true → f w = g list) : t.writers.map f = lists.map g := by
  apply List.ext_getElem?
  intro i
  rw [List.getElem?_map, List.getElem?_map]
  cases hw : t.writers[i]? with
  | none =>
    have hi := List.getElem?_eq_none_iff.1 hw
    rw [h.length] at hi
    rw [List.getElem?_eq_none hi]
    rfl
  | some w =>
    obtain ⟨list, hlist, hsound⟩ := h.list_of_writer hw
    have hwdone := List.all_eq_true.1 hdone w (List.mem_of_getElem? hw)
    rw [hlist, Option.map_some, Option.map_some, hfg w list hsound hwdone]

theorem Consistent.written_of_isDone (h : Consistent s k lists t) (hdone : t.isDone = true) (j : Nat) :
    t.writers.flatMap (·.written j) = lists.flatten := by
  have hmap := h.map_of_isDone hdone (g := id) fun w list hsound hw => hsound.written_of_isDone hw j
  rw [List.map_id] at hmap
  rw [List.flatMap_def, hmap]

end Writers

/-- Writers on keys of their own lose nothing, in whatever order their accesses come. They end after so many turns of
each of them. Then the stack is what it is if the lists are made one after the other, in any order, and the same
events have been logged, each camera that was not known among them once; each writer has had its valid reports
accepted and no others. -/
theorem writers_commute (s : Stack P) (k : Nat) {lists : List (List (Report P))} (hd : lists.Pairwise Apart)
    (schedule : List Nat) :
    let t := (Writers.start s lists).run k schedule
    ((∀ i list, lists[i]? = some list → (3 * k + 3) * list.length ≤ schedule.count i) → t.isDone = true) ∧
    (t.isDone = true →
      (∀ order : List (List (Report P)), order.Perm lists →
        let u := s.run (Stack.reporting k order.flatten)
        { t.stack with log := u.log } = u ∧ t.stack.log.Perm u.log) ∧
      t.writers.map (·.accepted) = lists.map (·.countP (·.isValid)) ∧
      ∀ c, t.stack.log.count (.created c) = s.log.count (.created c) +
        if !s.base.knows c && lists.flatten.any (·.isFor c) then 1 else 0) := by
  intro t
  have hconsistent : Writers.Consistent s k lists t := (Writers.consistent_start s k lists).run hd schedule
  refine ⟨Writers.Consistent.isDone_of_turns hd schedule, fun hdone => ⟨fun order horder => ?_, ?_, fun c => ?_⟩⟩
  · intro u
    obtain ⟨log, hrun, hcount⟩ := s.run_reporting k order.flatten
    have hwritten := hconsistent.written_of_isDone hdone
    have hsame := sameByKey_flatten hd horder
    have hlog : u.log = log := congrArg Stack.log hrun
    constructor
    · have hu : u = s.filled k (fun _ => lists.flatten) log :=
        hrun.trans (Stack.filled_congr (fun _ _ => hsame) log)
      have hstack := hconsistent.stack
      simp only [hwritten] at hstack
      rw [hlog, hu, hstack]
      rfl
    · rw [List.perm_iff_count]
      intro e
      rw [hlog, hcount, hconsistent.count, hwritten, Store.eventCount_perm horder.flatten]
  · exact hconsistent.map_of_isDone hdone fun w list hsound hw => hsound.accepted_of_isDone hw
  · rw [hconsistent.count, hconsistent.written_of_isDone hdone]
    rfl

/-- The northern camera is known, and both layers have a row of a track that is gone. -/
def revisited : Stack String :=
  (Stack.ofPolicies [⟨.ofSeconds 3, .ofSeconds 30⟩, ⟨.ofSeconds 4, .ofSeconds 9⟩]).run
    [.plain 2 (.register ⟨"north", 1, "z"⟩), .plain 0 (.remove "north" 1), .plain 2 (.setClock (.mk 2000000000))]

/-- The second and the third writer both report on a camera that is not known. -/
def rivals : List (List (Report String)) :=
  [[⟨"north", 1, "a"⟩, ⟨"north", -1, "b"⟩, ⟨"north", 1, "c"⟩], [⟨"north", 2, "d"⟩, ⟨"south", 1, "e"⟩],
    [⟨"", 1, "f"⟩, ⟨"south", 2, "g"⟩]]

def inRounds : List Nat := (List.replicate 27 [0, 1, 2]).flatten

theorem writers_commute_rivals :
    rivals.Pairwise Apart ∧
      (∀ i list, rivals[i]? = some list → (3 * 2 + 3) * list.length ≤ inRounds.count i) ∧
      ((Writers.start revisited rivals).run 2 inRounds).isDone = true ∧
      ((Writers.start revisited rivals).run 2 inRounds).stack.log =
        [.created ⟨"north", by decide⟩, .rejected "" .emptyCamera, .created ⟨"south", by decide⟩,
          .rejected "north" (.negativeTrack (-1))] ∧
      (revisited.run (Stack.reporting 2 rivals.flatten)).log =
        [.created ⟨"north", by decide⟩, .rejected "north" (.negativeTrack (-1)), .created ⟨"south", by decide⟩,
          .rejected "" .emptyCamera] ∧
      ((Writers.start revisited rivals).run 2 inRounds).stack.base =
        (revisited.run (Stack.reporting 2 rivals.reverse.flatten)).base ∧
      ((Writers.start revisited rivals).run 2 inRounds).writers.map (·.accepted) = [2, 2, 1] := by
  have hd : rivals.Pairwise Apart :=
    List.Pairwise.imp apart_of_ne (by decide : rivals.Pairwise fun a b =>
      ∀ r ∈ a, ∀ r' ∈ b, ¬ (r'.camera = r.camera ∧ r'.number = r.number))
  have hturns : ∀ i list, rivals[i]? = some list → (3 * 2 + 3) * list.length ≤ inRounds.count i := by
    intro i list hi
    match i with
    | 0 | 1 | 2 =>
      cases hi
      decide +kernel
    | i + 3 => cases hi
  obtain ⟨hends, hend⟩ := writers_commute revisited 2 hd inRounds
  obtain ⟨horders, haccepted, -⟩ := hend (hends hturns)
  have hvalid : rivals.map (·.countP (·.isValid)) = [2, 2, 1] := by decide +kernel
  have hbase := congrArg Stack.base (horders rivals.reverse (List.reverse_perm rivals)).1
  dsimp only at hbase
  exact ⟨hd, hturns, hends hturns, by decide +kernel, by decide +kernel, hbase, haccepted.trans hvalid⟩

end LiveTracks
