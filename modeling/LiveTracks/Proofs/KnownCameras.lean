import LiveTracks.Proofs.CallDeeds
import LiveTracks.Proofs.Filling
import LiveTracks.Proofs.FlatStore

/-!
# The log tells which cameras are known

The marks of a camera are the creations and clearings of its shard that have been logged. They take turns, and the
camera is known if there is an odd number of them (`Stack.Marked`). What a single call adds to them is said by what
is known and stored right before and right after it, whatever layers there are and whatever a sweep or an armed
report does meanwhile (`marks_call`).
-/

namespace LiveTracks

variable {P : Type}

namespace Event

def isMarkOf (c : CameraId) : Event → Bool
  | .created c' | .cleared c' _ => decide (c' = c)
  | _ => false

theorem isMarkOf_of_isExpiry {e : Event} (h : e.isExpiry = true) (c : CameraId) : e.isMarkOf c = false := by
  cases e with
  | expired key reason => rfl
  | _ => cases h

end Event

namespace Stack

def marks (s : Stack P) (c : CameraId) : List Event := s.log.filter (Event.isMarkOf c)

theorem marks_logs (s : Stack P) (events : List Event) (c : CameraId) :
    (s.logs events).marks c = s.marks c ++ events.filter (Event.isMarkOf c) := List.filter_append ..

end Stack

/-! ### The marks of one deed -/

namespace Deed

variable (s : Stack P) (c : CameraId)

/-- What a deed adds to the marks of a camera. -/
def marks : Deed P → List Event
  | .report _ r => if r.isFor c && !s.base.knows c then [.created c] else []
  | .forget _ camera => if decide (camera = c.text) && s.base.knows c then [.cleared c (s.count c.text)] else []
  | _ => []

/-- Whether a camera is known after a deed. -/
def leavesKnown : Deed P → Bool
  | .report _ r => r.isFor c || s.base.knows c
  | .forget _ camera => !decide (camera = c.text) && s.base.knows c
  | _ => s.base.knows c

end Deed

namespace Stack

theorem filter_creation {r : Report P} {key : Key} (h : Key.ofRaw r.camera r.number = .ok key) (s : Stack P)
    (c : CameraId) :
    (creation s.base r.camera).filter (Event.isMarkOf c) = (Deed.report 0 r).marks s c := by
  rw [Store.creation_of_ok h, Deed.marks, Report.isFor, h]
  by_cases hc : key.camera = c
  · subst hc
    cases s.base.knows key.camera <;> simp [Event.isMarkOf]
  · cases s.base.knows key.camera <;> simp [Event.isMarkOf, hc]

theorem filter_clearing (s : Stack P) (camera : String) (c : CameraId) :
    (clearing camera (s.base.clear camera).2).filter (Event.isMarkOf c) = (Deed.forget 0 camera).marks s c := by
  unfold clearing
  cases hcamera : CameraId.ofString? camera with
  | none =>
    have hne : camera ≠ c.text := by
      rintro rfl
      rw [CameraId.ofString?_text] at hcamera
      cases hcamera
    simp [Deed.marks, hne]
  | some c' =>
    obtain rfl := CameraId.ofString?_eq_some_iff.1 hcamera
    rw [Store.clear_snd]
    by_cases hc : c' = c
    · subst hc
      cases hknows : s.base.knows c' <;> simp [Deed.marks, Event.isMarkOf, Stack.count, hknows]
    · have hne : c'.text ≠ c.text := fun ht => hc (CameraId.ext ht)
      cases s.base.knows c' <;> simp [Deed.marks, Event.isMarkOf, hc, hne]

/-- A deed that takes nothing back from the log and makes up no marks. -/
def Honest : Deed P → Prop
  | .setLog _ => False
  | .log events => ∀ e ∈ events, ∀ c, e.isMarkOf c = false
  | _ => True

theorem honest_of_modest {d : Deed P} (h : d.Modest) : Honest d := by
  cases d with
  | log events => exact fun e he c => Event.isMarkOf_of_isExpiry (h e he) c
  | forget | setLog => cases h
  | _ => trivial

theorem marks_perform {d : Deed P} (h : Honest d) (s : Stack P) (c : CameraId) :
    (s.perform d).marks c = s.marks c ++ d.marks s c := by
  cases d with
  | report k r =>
    cases hr : Key.ofRaw r.camera r.number with
    | error e =>
      rw [perform, registerAt_of_error hr, marks_logs, Deed.marks, Report.isFor, hr]
      rfl
    | ok key =>
      rw [perform, registerAt_of_ok hr, marks_logs, filter_creation hr]
      rfl
  | forget k camera =>
    rw [perform, forgetAt, marks_logs, filter_clearing]
    rfl
  | log events =>
    have hnone : events.filter (Event.isMarkOf c) = [] :=
      List.filter_eq_nil_iff.2 fun e he => by rw [h e he c]; exact Bool.false_ne_true
    rw [perform, marks_logs, hnone]
    rfl
  | setLog => cases h
  | drop | reap | setClock | setArmed => exact (List.append_nil _).symm

theorem knows_perform (d : Deed P) (s : Stack P) (c : CameraId) :
    (s.perform d).base.knows c = d.leavesKnown s c := by
  cases d with
  | report k r =>
    cases hr : Key.ofRaw r.camera r.number with
    | error e =>
      rw [perform, registerAt_of_error hr, base_logs, Deed.leavesKnown, Report.isFor, hr, Bool.false_or]
    | ok key =>
      have hcamera : decide (c = key.camera) = decide (key.camera = c) := decide_eq_decide.2 eq_comm
      rw [perform, registerAt_of_ok hr, base_logs, reported, Store.knows_put, Deed.leavesKnown, Report.isFor, hr,
        Key.entry, hcamera]
  | forget k camera => rw [perform, forgetAt, base_logs, Store.knows_clear, Deed.leavesKnown]
  | drop | reap => exact Store.knows_remove ..
  | log | setLog | setClock | setArmed => rfl

/-! ### By turns -/

/-- A camera is created and cleared by turns, created first, and it is known if it was created last. -/
structure Marked (s : Stack P) (c : CameraId) : Prop where
  turns : ∀ i e, (s.marks c)[i]? = some e → if i % 2 = 0 then e = .created c else ∃ n, e = .cleared c n
  known : s.base.knows c = decide ((s.marks c).length % 2 = 1)

theorem marked_ofPolicies (policies : List Policy) (c : CameraId) : (ofPolicies policies : Stack P).Marked c where
  turns _ _ h := nomatch h
  known := Store.knows_empty c

theorem Marked.of_same {s s' : Stack P} {c : CameraId} (h : s.Marked c) (hm : s'.marks c = s.marks c)
    (hk : s'.base.knows c = s.base.knows c) : s'.Marked c where
  turns := hm ▸ h.turns
  known := by rw [hk, hm, h.known]

theorem Marked.concat {s s' : Stack P} {c : CameraId} {e : Event} (h : s.Marked c)
    (hm : s'.marks c = s.marks c ++ [e]) (hk : s'.base.knows c = !s.base.knows c)
    (he : if s.base.knows c then ∃ n, e = .cleared c n else e = .created c) : s'.Marked c := by
  have hknown := h.known
  refine ⟨fun i e' hi => ?_, ?_⟩
  · rw [hm] at hi
    rcases getElem?_concat_cases hi with hi | ⟨rfl, rfl⟩
    · exact h.turns i e' hi
    · cases hs : s.base.knows c with
      | true =>
        rw [hs] at hknown he
        have hodd : (s.marks c).length % 2 = 1 := of_decide_eq_true hknown.symm
        rw [if_neg (by omega)]
        exact he
      | false =>
        rw [hs] at hknown he
        have heven : ¬ (s.marks c).length % 2 = 1 := of_decide_eq_false hknown.symm
        rw [if_pos (by omega)]
        simpa using he
  · rw [hk, hm, List.length_append, List.length_singleton, hknown, Bool.eq_iff_iff]
    simp only [Bool.not_eq_true', decide_eq_false_iff_not, decide_eq_true_eq]
    omega

theorem Marked.perform {s : Stack P} {c : CameraId} (h : s.Marked c) {d : Deed P} (hd : Honest d) :
    (s.perform d).Marked c := by
  have hm := marks_perform hd s c
  have hk := knows_perform d s c
  cases d with
  | report k r =>
    simp only [Deed.marks, Deed.leavesKnown] at hm hk
    cases hfor : r.isFor c <;> cases hs : s.base.knows c <;> simp only [hfor, hs] at hm hk
    case true.false => exact h.concat hm (by rw [hk, hs]; rfl) (by rw [hs]; rfl)
    all_goals exact h.of_same (by simpa using hm) (by rw [hk, hs]; rfl)
  | forget k camera =>
    simp only [Deed.marks, Deed.leavesKnown] at hm hk
    cases hcamera : decide (camera = c.text) <;> cases hs : s.base.knows c <;> simp only [hcamera, hs] at hm hk
    case true.true => exact h.concat hm (by rw [hk, hs]; rfl) (by rw [hs]; exact ⟨_, rfl⟩)
    all_goals exact h.of_same (by simpa using hm) (by rw [hk, hs]; rfl)
  | drop | reap | log | setClock | setArmed => exact h.of_same (by simpa [Deed.marks] using hm) hk
  | setLog => cases hd

theorem Marked.after {s : Stack P} {c : CameraId} (h : s.Marked c) {deeds : List (Deed P)}
    (hd : ∀ d ∈ deeds, Honest d) : (s.after deeds).Marked c := by
  induction deeds generalizing s with
  | nil => exact h
  | cons d deeds ih =>
    exact ih (h.perform (hd d List.mem_cons_self)) fun d' hd' => hd d' (List.mem_cons_of_mem d hd')

theorem Marked.getLast? {s : Stack P} {c : CameraId} (h : s.Marked c) :
    s.base.knows c = true ↔ (s.marks c).getLast? = some (.created c) := by
  rw [h.known, decide_eq_true_eq, List.getLast?_eq_getElem?]
  constructor
  · intro hodd
    have hlt : (s.marks c).length - 1 < (s.marks c).length := by omega
    have hget := List.getElem?_eq_getElem hlt
    have hturn := h.turns _ _ hget
    rw [if_pos (by omega)] at hturn
    rw [hget, hturn]
  · intro hget
    have hturn := h.turns _ _ hget
    have hlt := (List.getElem?_eq_some_iff.1 hget).1
    by_contra heven
    rw [if_neg (by omega)] at hturn
    obtain ⟨n, hn⟩ := hturn
    cases hn

/-! ### The marks of one call -/

/-- Without a forgetting there is no mark but a creation, and only if the camera becomes known. -/
theorem marks_after_of_modest {deeds : List (Deed P)} (hd : ∀ d ∈ deeds, d.Modest) (s : Stack P) (c : CameraId) :
    (s.after deeds).marks c =
        s.marks c ++ (if !s.base.knows c && (s.after deeds).base.knows c then [.created c] else []) ∧
      (s.base.knows c = true → (s.after deeds).base.knows c = true) := by
  induction deeds generalizing s with
  | nil => cases hs : s.base.knows c <;> simp [hs]
  | cons d deeds ih =>
    have hfirst := hd d List.mem_cons_self
    obtain ⟨hm, hk⟩ := ih (fun d' hd' => hd d' (List.mem_cons_of_mem d hd')) (s.perform d)
    have hmark := marks_perform (honest_of_modest hfirst) s c
    have hknown := knows_perform d s c
    rw [after_cons, hm, hmark]
    cases d with
    | report k r =>
      simp only [Deed.marks, Deed.leavesKnown] at hknown ⊢
      cases hfor : r.isFor c <;> cases hs : s.base.knows c <;> simp_all
    | forget | setLog => cases hfirst
    | drop | reap | log | setClock | setArmed =>
      simp only [Deed.marks, Deed.leavesKnown] at hknown ⊢
      rw [hknown] at hk ⊢
      exact ⟨by rw [List.append_nil], hk⟩

end Stack

def Call.clears (c : CameraId) : Call P → Bool
  | .clear camera => decide (camera = c.text)
  | _ => false

/-- An armed report may be made right after such a call. -/
def Call.fires : Call P → Bool
  | .remove _ _ | .clear _ | .sweep | .sweepPart _ _ => true
  | _ => false

namespace Stack

/-- Whatever a call does, it clears a camera once at most, before everything else, and creates it once at most. -/
theorem marks_call (s : Stack P) (w : Walk) (sharing : Sharing) (k : Nat) (call : Call P) (c : CameraId) :
    let s' := (s.call w sharing k call).1
    let cleared := call.clears c && s.base.knows c
    s'.marks c = s.marks c ++ (if cleared then [.cleared c (s.count c.text)] else []) ++
      if (cleared || !s.base.knows c) && s'.base.knows c then [.created c] else [] := by
  intro s' cleared
  have hdeeds : s' = s.after (s.callDeeds w sharing k call) := s.call_eq_after w sharing k call
  by_cases hclear : ∃ camera, call = .clear camera
  · obtain ⟨camera, rfl⟩ := hclear
    have hfirst := marks_perform (d := .forget k camera) trivial s c
    have hknown := knows_perform (.forget k camera) s c
    obtain ⟨hrest, -⟩ := marks_after_of_modest (modest_fireDeeds (s.forgetAt k camera) k) (s.forgetAt k camera) c
    have hs' : s' = (s.forgetAt k camera).after ((s.forgetAt k camera).fireDeeds k) := hdeeds
    simp only [perform, Deed.marks, Deed.leavesKnown] at hfirst hknown
    have hlost : (!(!decide (camera = c.text) && s.base.knows c)) = (cleared || !s.base.knows c) := by
      simp only [cleared, Call.clears]
      cases decide (camera = c.text) <;> cases s.base.knows c <;> rfl
    rw [hs', hrest, hfirst, hknown, hlost]
    rfl
  · have hmodest := modest_callDeeds (fun camera h => hclear ⟨camera, h⟩) s w sharing k
    have hno : call.clears c = false := by
      cases call with
      | clear camera => exact absurd ⟨camera, rfl⟩ hclear
      | _ => rfl
    obtain ⟨hrest, -⟩ := marks_after_of_modest hmodest s c
    rw [← hdeeds] at hrest
    simp only [cleared, hno, Bool.false_and, Bool.false_or, Bool.false_eq_true, if_false, List.append_nil]
    exact hrest

/-! ### Calls without a mark -/

/-- The camera is known or not, and no report on it is armed. -/
def Unaffected (c : CameraId) (known : Bool) (s : Stack P) : Prop :=
  s.base.knows c = known ∧ ∀ r, s.armed = some r → r.isFor c = false

namespace Unaffected

variable {s : Stack P} {c : CameraId} {known : Bool}

theorem fireAbove (h : s.Unaffected c known) (k : Nat) : (s.fireAbove k).Unaffected c known := by
  unfold Stack.fireAbove
  split
  · exact h
  · unfold fire
    split
    next r hr =>
      have hknown := knows_perform (.report s.depth r) { s with armed := none } c
      refine ⟨hknown.trans ?_, fun r' hr' => ?_⟩
      · rw [Deed.leavesKnown, h.2 r hr, Bool.false_or]
        exact h.1
      · have harmed : (({ s with armed := none } : Stack P).register r).1.armed = none := by
          unfold register registerAt
          split <;> rfl
        rw [harmed] at hr'
        cases hr'
    · exact h

theorem removeAt (h : s.Unaffected c known) (k : Nat) (camera : String) (track : Int64) :
    (s.removeAt k camera track).Unaffected c known := by
  rw [removeAt_eq]
  exact fireAbove (s := s.dropAt k camera track) ⟨(Store.knows_remove ..).trans h.1, h.2⟩ k

theorem sweepWhere (h : s.Unaffected c known) (k : Nat) (w : Walk) (mine : CameraId → Bool) :
    (s.sweepWhere k w mine).1.Unaffected c known :=
  sweepWhere_keeps (fun _ camera track hs => hs.removeAt k camera track) (fun _ _ hs => hs) w mine h

end Unaffected

theorem knows_call_of_unaffected {s : Stack P} {c : CameraId} {call : Call P}
    (hregister : ∀ r, call = .register r → r.isFor c = false) (hclear : (call.clears c && s.base.knows c) = false)
    (harmed : call.fires = true → ∀ r, s.armed = some r → r.isFor c = false) (w : Walk) (sharing : Sharing)
    (k : Nat) : (s.call w sharing k call).1.base.knows c = s.base.knows c := by
  cases call with
  | register r =>
    rw [call_register_fst]
    have hknown := knows_perform (.report k r) s c
    rw [Deed.leavesKnown, hregister r rfl, Bool.false_or] at hknown
    exact hknown
  | remove camera track => exact (Unaffected.removeAt ⟨rfl, harmed rfl⟩ k camera track).1
  | clear camera =>
    have hknown := knows_perform (.forget k camera) s c
    have hsame : (s.forgetAt k camera).base.knows c = s.base.knows c := by
      simp only [Call.clears] at hclear
      simp only [perform, Deed.leavesKnown] at hknown
      rw [hknown]
      cases hcamera : decide (camera = c.text) with
      | false => rfl
      | true =>
        rw [hcamera, Bool.true_and] at hclear
        rw [hclear]
        rfl
    exact (Unaffected.fireAbove (s := s.forgetAt k camera) ⟨hsame, harmed rfl⟩ k).1
  | sweep => exact (Unaffected.sweepWhere ⟨rfl, harmed rfl⟩ k w _).1
  | sweepPart part parts => exact (Unaffected.sweepWhere ⟨rfl, harmed rfl⟩ k w _).1
  | setClock | arm | get | getByCamera | count | census => rfl

/-! ### The whole log -/

theorem marked_run (policies : List Policy) (steps : List (Step P)) (c : CameraId) :
    ((ofPolicies policies : Stack P).run steps).Marked c := by
  refine List.foldlRecOn (motive := fun s : Stack P => s.Marked c) _ _ (marked_ofPolicies policies c) fun s hs st _ => ?_
  rw [step, call_eq_after]
  refine hs.after fun d hd => ?_
  rcases modest_or_forget hd with hmodest | ⟨camera, rfl⟩
  · exact honest_of_modest hmodest
  · trivial

/-- In the log of any run, on however many layers, the creations and clearings of a camera take turns, and the camera
is in the census if it was created last. A call clears it only if it was told to, and then the log has the number of
tracks that there were right before; it is created if it becomes known, be it in the midst of its own clearing. A call
that neither is an accepted report of the camera nor clears it, and after which no report of the camera fires, leaves
no mark of it. -/
theorem marks_tell_known (policies : List Policy) (steps : List (Step P)) (c : CameraId) :
    let s := (ofPolicies policies : Stack P).run steps
    (∀ i e, (s.marks c)[i]? = some e → if i % 2 = 0 then e = .created c else ∃ n, e = .cleared c n) ∧
      ((∃ n, (c.text, n) ∈ s.census.pairs) ↔ (s.marks c).getLast? = some (.created c)) ∧
      ∀ st : Step P,
        let s' := s.step st
        let cleared := st.call.clears c && s.base.knows c
        s'.marks c = s.marks c ++ (if cleared then [.cleared c (s.count c.text)] else []) ++
            (if (cleared || !s.base.knows c) && s'.base.knows c then [.created c] else []) ∧
          ((∀ r, st.call = .register r → r.isFor c = false) → cleared = false →
            (st.call.fires = true → ∀ r, s.armed = some r → r.isFor c = false) → s'.marks c = s.marks c) := by
  intro s
  have hmarked : s.Marked c := marked_run policies steps c
  refine ⟨hmarked.turns, ?_, fun st => ?_⟩
  · rw [← hmarked.getLast?]
    simp [census, Store.mem_census, Store.knowsText, CameraId.ofString?_text]
  · intro s' cleared
    have hmarks := s.marks_call st.walk st.sharing st.number st.call c
    refine ⟨hmarks, fun hregister hclear harmed => ?_⟩
    have hknown := knows_call_of_unaffected hregister hclear harmed st.walk st.sharing st.number
    have hmarks' : s'.marks c = _ := hmarks
    have hno : (st.call.clears c && s.base.knows c) = false := hclear
    rw [hmarks', hknown, hno]
    cases s.base.knows c <;> simp

/-- A camera is emptied by a sweep, cleared, and known again by the end of its clearing. -/
def relitRun : List (Step String) :=
  [.plain 2 (.register ⟨"north", 1, "a"⟩), .plain 2 (.setClock (.mk 5000000000)), .plain 1 .sweep,
    .plain 2 (.arm ⟨"north", 2, "b"⟩), .plain 2 (.clear "north"), .plain 0 (.clear "south")]

def relit : Stack String := (ofPolicies [⟨.ofSeconds 3, .ofSeconds 30⟩, ⟨.ofSeconds 9, .ofSeconds 30⟩]).run relitRun

theorem marks_tell_known_relit :
    let north : CameraId := ⟨"north", by decide⟩
    relit.marks north = [.created north, .cleared north 0, .created north] ∧
      (∃ n, ("north", n) ∈ relit.census.pairs) ∧
      (relit.step (.plain 0 (.clear "south"))).marks north = relit.marks north ∧
      (relit.step (.plain 0 (.clear "north"))).marks north = relit.marks north ++ [.cleared north 1] := by
  intro north
  have hmarks : relit.marks north = [.created north, .cleared north 0, .created north] := by decide +kernel
  obtain ⟨-, hknown, hstep⟩ :=
    marks_tell_known [⟨.ofSeconds 3, .ofSeconds 30⟩, ⟨.ofSeconds 9, .ofSeconds 30⟩] relitRun north
  have hlast : (relit.marks north).getLast? = some (.created north) := by rw [hmarks]; rfl
  have harmed : relit.armed = none := by decide +kernel
  have hother := (hstep (.plain 0 (.clear "south"))).2 (fun r h => nomatch h) (by decide +kernel)
    fun _ r hr => nomatch harmed.symm.trans hr
  have hclear := (hstep (.plain 0 (.clear "north"))).1
  refine ⟨hmarks, hknown.2 hlast, hother, hclear.trans ?_⟩
  decide +kernel

end Stack

end LiveTracks
