import LiveTracks.Proofs.Reaping

/-!
# What calls are made of

Only a clearing forgets a camera, and what a sweep logs by itself is that a track has expired. Whatever else is
logged, a report or a forgetting logs it, and nothing is ever taken back from the log (`modest_callDeeds`). So events
of any other kind are in the log as they were before the call (`filter_log_step`).
-/

namespace LiveTracks

variable {P : Type}

def Event.isExpiry : Event → Bool
  | .expired _ _ => true
  | _ => false

def Deed.Modest : Deed P → Prop
  | .forget _ _ | .setLog _ => False
  | .log events => ∀ e ∈ events, e.isExpiry = true
  | _ => True

namespace Stack

theorem modest_fireDeeds (s : Stack P) (k : Nat) : ∀ d ∈ s.fireDeeds k, d.Modest := by
  intro d hd
  unfold fireDeeds at hd
  split at hd
  · cases hd
  · split at hd
    · simp only [List.mem_cons, List.not_mem_nil, or_false] at hd
      rcases hd with rfl | rfl <;> trivial
    · cases hd

theorem modest_removeDeeds (s : Stack P) (k : Nat) (camera : String) (track : Int64) :
    ∀ d ∈ s.removeDeeds k camera track, d.Modest := by
  intro d hd
  rcases List.mem_cons.1 hd with rfl | hd
  · trivial
  · exact modest_fireDeeds _ k d hd

theorem modest_visitDeeds (k : Nat) (policy : Policy) (now : Instant) (c : CameraId)
    (acc : Stack P × List (Expired P)) (row : Entry Lifetime) :
    ∀ d ∈ visitDeeds k policy now c acc row, d.Modest := by
  intro d hd
  unfold visitDeeds at hd
  split at hd
  · cases hd
  · split at hd
    · exact modest_removeDeeds _ _ _ _ d hd
    · rcases List.mem_cons.1 hd with rfl | hd
      · trivial
      · rcases List.mem_append.1 hd with hd | hd
        · exact modest_fireDeeds _ k d hd
        · rw [List.mem_singleton.1 hd]
          intro e he
          rw [List.mem_singleton.1 he]
          rfl

theorem modest_sweepDeeds (s : Stack P) (k : Nat) (w : Walk) (mine : CameraId → Bool) :
    ∀ d ∈ s.sweepDeeds k w mine, d.Modest := by
  intro d hd
  unfold sweepDeeds at hd
  split at hd
  · cases hd
  · obtain ⟨acc, c, hd⟩ := mem_loopDeeds _ _ hd
    obtain ⟨acc, row, hd⟩ := mem_loopDeeds _ _ hd
    exact modest_visitDeeds _ _ _ c acc row d hd

theorem modest_callDeeds {c : Call P} (hc : ∀ camera, c ≠ .clear camera) (s : Stack P) (w : Walk)
    (sharing : Sharing) (k : Nat) : ∀ d ∈ s.callDeeds w sharing k c, d.Modest := by
  cases c with
  | remove camera track => exact s.modest_removeDeeds k camera track
  | clear camera => exact absurd rfl (hc camera)
  | sweep => exact s.modest_sweepDeeds k w _
  | sweepPart part parts => exact s.modest_sweepDeeds k w _
  | register | setClock | arm =>
    intro d hd
    rw [List.mem_singleton.1 hd]
    trivial
  | get | getByCamera | count | census => exact fun d hd => nomatch hd

theorem modest_or_forget {s : Stack P} {w : Walk} {sharing : Sharing} {k : Nat} {c : Call P} {d : Deed P}
    (hd : d ∈ s.callDeeds w sharing k c) : d.Modest ∨ ∃ camera, d = .forget k camera := by
  by_cases hclear : ∃ camera, c = .clear camera
  · obtain ⟨camera, rfl⟩ := hclear
    rcases List.mem_cons.1 hd with rfl | hd
    · exact .inr ⟨camera, rfl⟩
    · exact .inl (modest_fireDeeds _ k d hd)
  · exact .inl (modest_callDeeds (fun camera h => hclear ⟨camera, h⟩) s w sharing k d hd)

end Stack

/-! ### Events of another kind -/

/-- A kind of event that no call logs. -/
structure Event.Alien (kind : Event → Bool) : Prop where
  created : ∀ camera, kind (.created camera) = false
  cleared : ∀ camera dropped, kind (.cleared camera dropped) = false
  rejected : ∀ camera fault, kind (.rejected camera fault) = false
  expired : ∀ key reason, kind (.expired key reason) = false

/-- Logs no event of this kind and erases none. -/
def Deed.Omits (kind : Event → Bool) : Deed P → Prop
  | .log events => events.filter kind = []
  | .setLog _ => False
  | _ => True

namespace Stack

theorem filter_log_logs (kind : Event → Bool) (s : Stack P) (events : List Event) :
    (s.logs events).log.filter kind = s.log.filter kind ++ events.filter kind := List.filter_append ..

theorem filter_log_logs_of_nil {kind : Event → Bool} {events : List Event} (h : events.filter kind = []) (s : Stack P) :
    (s.logs events).log.filter kind = s.log.filter kind := by rw [filter_log_logs, h, List.append_nil]

section alien

variable {kind : Event → Bool} (hkind : Event.Alien kind)
include hkind

theorem filter_log_registerAt (s : Stack P) (k : Nat) (r : Report P) :
    (s.registerAt k r).1.log.filter kind = s.log.filter kind := by
  cases h : Key.ofRaw r.camera r.number with
  | error e =>
    rw [registerAt_of_error h]
    exact filter_log_logs_of_nil (by simp [hkind.rejected]) s
  | ok key =>
    have hcreation : (creation s.base r.camera).filter kind = [] := by
      unfold creation
      split
      · split
        · rfl
        · simp [hkind.created]
      · rfl
    rw [registerAt_of_ok h]
    exact filter_log_logs_of_nil hcreation (s.reported k key r.payload)

theorem filter_log_forgetAt (s : Stack P) (k : Nat) (camera : String) :
    (s.forgetAt k camera).log.filter kind = s.log.filter kind := by
  have hclearing : (clearing camera (s.base.clear camera).2).filter kind = [] := by
    unfold clearing
    split
    · simp [hkind.cleared]
    · rfl
  exact filter_log_logs_of_nil hclearing _

theorem filter_log_perform {d : Deed P} (h : d.Omits kind) (s : Stack P) :
    (s.perform d).log.filter kind = s.log.filter kind := by
  cases d with
  | report k r => exact s.filter_log_registerAt hkind k r
  | forget k camera => exact s.filter_log_forgetAt hkind k camera
  | log events => exact filter_log_logs_of_nil h s
  | setLog events => exact h.elim
  | drop | reap | setClock | setArmed => rfl

theorem filter_log_after {deeds : List (Deed P)} (h : ∀ d ∈ deeds, d.Omits kind) (s : Stack P) :
    (s.after deeds).log.filter kind = s.log.filter kind := by
  induction deeds generalizing s with
  | nil => rfl
  | cons d deeds ih =>
    rw [after_cons, ih (fun d' hd => h d' (List.mem_cons_of_mem d hd)),
      filter_log_perform hkind (h d List.mem_cons_self)]

theorem omits_of_modest {d : Deed P} (h : d.Modest) : d.Omits kind := by
  cases d with
  | log events =>
    refine List.filter_eq_nil_iff.2 fun e he => ?_
    have hexpiry := h e he
    cases e with
    | expired key reason =>
      rw [hkind.expired]
      exact Bool.false_ne_true
    | _ => cases hexpiry
  | forget | setLog => cases h
  | _ => trivial

theorem filter_log_step (s : Stack P) (st : Step P) : (s.step st).log.filter kind = s.log.filter kind := by
  rw [step, call_eq_after]
  refine filter_log_after hkind (fun d hd => ?_) s
  rcases modest_or_forget hd with hmodest | ⟨camera, rfl⟩
  · exact omits_of_modest hkind hmodest
  · trivial

theorem filter_log_sweepWhere (s : Stack P) (k : Nat) (w : Walk) (mine : CameraId → Bool) :
    (s.sweepWhere k w mine).1.log.filter kind = s.log.filter kind := by
  rw [sweepWhere_eq_after]
  exact filter_log_after hkind (fun d hd => omits_of_modest hkind (s.modest_sweepDeeds k w _ d hd)) s

end alien

end Stack

end LiveTracks
