import LiveTracks.Proofs.Callers

/-!
# Linearization

Whatever the callers of a shared store do at the same time, the calls on one camera can be put in an order
in which each of them, made alone, has the answer that it had, and in which no call stands before one that
had been answered when it was made (`linearizable`).

The place of a call is found when it is answered, that of a clearing when it takes the shard out. While a
shard serves its camera, calls go to the end of the order. A shard that has been taken out is still used by
those who had found it before. Until it is retired, they go right before the clearing that took it out, and
later, when they can only find nothing, right behind it. They were all made before the clearing had its
place, so nothing that stands there had been answered by then.
-/

namespace LiveTracks

variable {P : Type}

namespace Crowd

/-! ### Orders -/

/-- The call of `i` was answered before the one of `j` was made. -/
def Precedes (moves : List (Move P)) (i j : Nat) : Prop :=
  ∃ before after, moves = before ++ after ∧
    (empty.run before).Answered i ∧ (empty.run before).callers.length ≤ j

/-- An order of the calls on one camera: of all that were answered, and of some that are still under way. -/
structure Linearizes (moves : List (Move P)) (camera : String) (order : List (Placed P)) : Prop where
  once : (order.map (·.caller)).Nodup
  asked : ∀ o ∈ order, o.call.camera? = some camera ∧
    ∃ turn, (empty.run moves).At o.caller o.call turn
  complete : ∀ i q a, (empty.run moves).At i q (.done a) → q.camera? = some camera →
    ⟨i, q, a⟩ ∈ order
  answers : order.map (·.answer.flat) = FlatStore.answers ∅ (order.map (·.call))
  inTime : order.Pairwise fun o o' => ¬ Precedes moves o'.caller o.caller

theorem Precedes.answered {moves : List (Move P)} {i j : Nat} (h : Precedes moves i j) :
    (empty.run moves).Answered i := by
  obtain ⟨before, after, rfl, hi, -⟩ := h
  rw [run_append]
  exact hi.run after

theorem irrefl_precedes (moves : List (Move P)) (i : Nat) : ¬ Precedes moves i i := by
  intro hh
  obtain ⟨before, after, -, ⟨q, a, hi⟩, hl⟩ := hh
  exact Nat.not_lt.2 hl hi.lt_length

/-- What preceded a call is settled when the call is made. -/
theorem precedes_append_singleton {moves : List (Move P)} {m : Move P} {i j : Nat}
    (hj : j < (empty.run moves).callers.length) :
    Precedes (moves ++ [m]) i j ↔ Precedes moves i j := by
  constructor
  · intro hh
    obtain ⟨before, after, he, hi, hl⟩ := hh
    rcases List.eq_nil_or_concat after with rfl | ⟨after', m', rfl⟩
    · rw [List.append_nil] at he
      subst he
      have hlen := length_step (empty.run moves) m
      rw [run_append] at hl
      exact absurd hl (Nat.not_le.2 (Nat.lt_of_lt_of_le hj hlen))
    · rw [List.concat_eq_append, ← List.append_assoc] at he
      obtain ⟨rfl, -⟩ := List.append_inj' he rfl
      exact ⟨before, after', rfl, hi, hl⟩
  · intro hh
    obtain ⟨before, after, rfl, hi, hl⟩ := hh
    exact ⟨before, after ++ [m], List.append_assoc .., hi, hl⟩

/-! ### The order so far -/

/-- The shard that serves the camera: it holds what the whole order leaves. -/
structure Serving (camera : String) (t : Crowd P) (order : List (Placed P)) (n : Nat)
    (shard : Shard P) : Prop where
  serves : t.store.shard? camera = some n
  holds : shard = .after .fresh order
  calls : ∀ i, ¬ t.At i (.clear camera) (.enter n)

/-- A shard that the clearing `o` took out: it holds what was there right before, or it is spent. -/
structure Past (camera : String) (t : Crowd P) (pre : Nat → Nat → Prop) (order : List (Placed P))
    (n : Nat) (shard : Shard P) (before : List (Placed P)) (o : Placed P) (later : List (Placed P)) :
    Prop where
  gone : t.store.shard? camera ≠ some n
  split : order = before ++ o :: later
  clears : o.call = .clear camera
  holds : (shard = .after .fresh before ∧ t.At o.caller (.clear camera) (.enter n)) ∨
    (shard = .spent ∧ ∀ i, ¬ t.At i (.clear camera) (.enter n))
  sole : ∀ i, t.At i (.clear camera) (.enter n) → i = o.caller
  calls : ∀ i q, t.At i q (.enter n) → q ≠ .clear camera → ∀ b ∈ o :: later, ¬ pre b.caller i

def Standing (camera : String) (t : Crowd P) (pre : Nat → Nat → Prop) (order : List (Placed P))
    (n : Nat) (shard : Shard P) : Prop :=
  Serving camera t order n shard ∨
    ∃ before o later, Past camera t pre order n shard before o later

/-- The order of the calls on the camera that have a place: those answered, and the clearings that have
taken a shard out. -/
structure Ordered (camera : String) (t : Crowd P) (pre : Nat → Nat → Prop)
    (order : List (Placed P)) : Prop where
  once : (order.map (·.caller)).Nodup
  asked : ∀ o ∈ order, o.call.camera? = some camera ∧ (t.At o.caller o.call (.done o.answer) ∨
    (o.call = .clear camera ∧ o.answer = .done ∧ ∃ n, t.At o.caller o.call (.enter n)))
  complete : ∀ i q a, t.At i q (.done a) → q.camera? = some camera → ⟨i, q, a⟩ ∈ order
  gives : (Shard.fresh : Shard P).Gives order
  inTime : order.Pairwise fun o o' => ¬ pre o'.caller o.caller

structure Sound (camera : String) (t : Crowd P) (pre : Nat → Nat → Prop)
    (order : List (Placed P)) : Prop where
  ordered : Ordered camera t pre order
  standing : ∀ n shard, t.Refers camera n → t.store.shards[n]? = some shard →
    Standing camera t pre order n shard
  vacant : t.store.shard? camera = none → Shard.after .fresh order = (.fresh : Shard P)

/-- `pre'` is `pre` as far as calls have been made, and only answered calls precede others. -/
structure Extends (t : Crowd P) (pre pre' : Nat → Nat → Prop) : Prop where
  iff : ∀ i j, j < t.callers.length → (pre' i j ↔ pre i j)
  answered : ∀ i j, pre i j → t.Answered i

section Order

variable {camera : String} {t t' : Crowd P} {pre pre' : Nat → Nat → Prop} {n : Nat} {shard : Shard P}
  {order a new b : List (Placed P)} {i : Nat} {q : Call P} {turn : Turn P}
  {r : SharedStore P × Turn P}

theorem split_cases {x y : List (Placed P)} {o : Placed P} (h : a ++ b = x ++ o :: y) :
    (∃ c, x = a ++ c ∧ b = c ++ o :: y) ∨ ∃ c, a = x ++ o :: c ∧ y = c ++ b := by
  rcases List.append_eq_append_iff.1 h with ⟨c, hx, hb⟩ | ⟨c, ha, hy⟩
  · exact .inl ⟨c, hx, hb⟩
  · cases c with
    | nil => exact .inl ⟨[], by simpa using ha.symm, by simpa using hy.symm⟩
    | cons o' c =>
      obtain ⟨rfl, rfl⟩ := List.cons.inj hy
      exact .inr ⟨c, ha, rfl⟩

/-- What is known of a shard stays so when a call is put anywhere between `a` and `b` that makes no
difference to the shard. -/
theorem Standing.insert (h : Standing camera t pre (a ++ b) n shard) (hext : Extends t pre pre')
    (hserves : t'.store.shard? camera = some n ↔ t.store.shard? camera = some n)
    (henter : ∀ j q', t'.At j q' (.enter n) →
      t.At j q' (.enter n) ∨ (t.store.shard? camera = some n ∧ q' ≠ .clear camera))
    (hclear : ∀ j, t.At j (.clear camera) (.enter n) → t'.At j (.clear camera) (.enter n))
    (hnew : ∀ z ∈ new, ¬ t.Answered z.caller)
    (hafter : t.store.shard? camera = some n →
      Shard.after .fresh (a ++ new ++ b) = .after .fresh (a ++ b))
    (hneutral : ∀ c o d, b = c ++ o :: d → t.At o.caller (.clear camera) (.enter n) →
      Shard.after .fresh (a ++ new ++ c) = .after .fresh (a ++ c)) :
    Standing camera t' pre' (a ++ new ++ b) n shard := by
  rcases h with h | ⟨before, o, later, h⟩
  · refine .inl ⟨hserves.2 h.serves, by rw [h.holds, hafter h.serves], fun j hj => ?_⟩
    rcases henter j _ hj with hj | ⟨-, hne⟩
    · exact h.calls j hj
    · exact hne rfl
  have hold : ∀ j q', t'.At j q' (.enter n) → t.At j q' (.enter n) :=
    fun j q' hj => (henter j q' hj).resolve_right fun hh => h.gone hh.1
  have hspent : (∀ j, ¬ t.At j (.clear camera) (.enter n)) →
      ∀ j, ¬ t'.At j (.clear camera) (.enter n) := fun hh j hj => hh j (hold j _ hj)
  have hcalls : ∀ later' : List (Placed P), (∀ x ∈ o :: later', x ∈ o :: later ∨ x ∈ new) →
      ∀ j q', t'.At j q' (.enter n) → q' ≠ .clear camera → ∀ x ∈ o :: later', ¬ pre' x.caller j := by
    intro later' hsub j q' hj hq x hx hpre
    have hj := hold j q' hj
    rw [hext.iff _ _ hj.lt_length] at hpre
    rcases hsub x hx with hx | hx
    · exact h.calls j q' hj hq x hx hpre
    · exact hnew x hx (hext.answered _ _ hpre)
  have hgone : t'.store.shard? camera ≠ some n := fun hh => h.gone (hserves.1 hh)
  have hsole : ∀ j, t'.At j (.clear camera) (.enter n) → j = o.caller :=
    fun j hj => h.sole j (hold j _ hj)
  rcases split_cases h.split with ⟨c, hb, hc⟩ | ⟨c, ha, hc⟩
  · -- in front of the clearing that took the shard out
    subst hb hc
    refine .inr ⟨a ++ new ++ c, o, later, hgone, by simp, h.clears, ?_, hsole,
      hcalls _ fun x hx => .inl hx⟩
    rcases h.holds with ⟨he, ho⟩ | ⟨he, ho⟩
    · exact .inl ⟨by rw [he, hneutral c o later rfl ho], hclear _ ho⟩
    · exact .inr ⟨he, hspent ho⟩
  · -- behind it
    subst ha hc
    refine .inr ⟨before, o, c ++ new ++ b, hgone, by simp, h.clears, ?_, hsole, hcalls _ ?_⟩
    · exact h.holds.imp (fun hh => ⟨hh.1, hclear _ hh.2⟩) fun hh => ⟨hh.1, hspent hh.2⟩
    · intro x hx
      simp only [List.mem_cons, List.mem_append] at hx ⊢
      tauto

theorem Standing.keep (h : Standing camera t pre order n shard) (hext : Extends t pre pre')
    (hserves : t'.store.shard? camera = some n ↔ t.store.shard? camera = some n)
    (henter : ∀ j q', t'.At j q' (.enter n) →
      t.At j q' (.enter n) ∨ (t.store.shard? camera = some n ∧ q' ≠ .clear camera))
    (hclear : ∀ j, t.At j (.clear camera) (.enter n) → t'.At j (.clear camera) (.enter n)) :
    Standing camera t' pre' order n shard := by
  rw [← List.append_nil order] at h
  have hs : Standing camera t' pre' (order ++ [] ++ []) n shard :=
    h.insert hext hserves henter hclear (by simp) (by simp) (by simp)
  simpa using hs

theorem Standing.push {o : Placed P} (h : Standing camera t pre order n shard)
    (hext : Extends t pre pre')
    (hserves : t'.store.shard? camera = some n ↔ t.store.shard? camera = some n)
    (henter : ∀ j q', t'.At j q' (.enter n) →
      t.At j q' (.enter n) ∨ (t.store.shard? camera = some n ∧ q' ≠ .clear camera))
    (hclear : ∀ j, t.At j (.clear camera) (.enter n) → t'.At j (.clear camera) (.enter n))
    (ho : ¬ t.Answered o.caller)
    (hafter : t.store.shard? camera = some n →
      Shard.after .fresh (order ++ [o]) = .after .fresh order) :
    Standing camera t' pre' (order ++ [o]) n shard := by
  rw [← List.append_nil order] at h
  have hs : Standing camera t' pre' (order ++ [o] ++ []) n shard :=
    h.insert hext hserves henter hclear (by simpa using ho) (fun hn => by simpa using hafter hn) (by simp)
  simpa using hs

theorem refers_turned (hi : t.At i q turn) (h : (t.turned i q r).Refers camera n)
    (hserves : r.1.shard? camera = some n → t.Refers camera n)
    (henter : r.2 = .enter n → t.Refers camera n) : t.Refers camera n := by
  rcases h with hn | ⟨j, q', hj, hq'⟩
  · exact hserves hn
  · rcases (at_turned hi).1 hj with ⟨-, -, hr⟩ | ⟨-, hj⟩
    · exact henter hr.symm
    · exact .inr ⟨j, q', hj, hq'⟩

theorem enter_turned (hi : t.At i q turn)
    (henter : r.2 = .enter n → t.store.shard? camera = some n ∧ q ≠ .clear camera) :
    ∀ j q', (t.turned i q r).At j q' (.enter n) →
      t.At j q' (.enter n) ∨ (t.store.shard? camera = some n ∧ q' ≠ .clear camera) := by
  intro j q' hj
  rcases (at_turned hi).1 hj with ⟨-, rfl, hr⟩ | ⟨-, hj⟩
  · exact .inr (henter hr.symm)
  · exact .inl hj

theorem clear_turned (hi : t.At i q turn) (hleaves : turn = .enter n → q ≠ .clear camera) :
    ∀ j, t.At j (.clear camera) (.enter n) → (t.turned i q r).At j (.clear camera) (.enter n) := by
  intro j hj
  refine (at_turned hi).2 (.inr ⟨?_, hj⟩)
  rintro rfl
  obtain ⟨rfl, rfl⟩ := hj.inj hi
  exact hleaves rfl rfl

theorem Ordered.ne_caller (h : Ordered camera t pre order) (hi : t.At i q turn)
    (hturn : ∀ a, turn ≠ .done a) (hclear : ∀ n, turn = .enter n → q ≠ .clear camera) :
    ∀ o ∈ order, o.caller ≠ i := by
  rintro o ho rfl
  rcases (h.asked o ho).2 with hd | ⟨hc, -, n, hn⟩
  · exact hturn _ (hi.inj hd).2.symm
  · obtain ⟨rfl, rfl⟩ := hi.inj hn
    exact hclear n rfl hc

theorem Ordered.lt_length (h : Ordered camera t pre order) {o : Placed P} (ho : o ∈ order) :
    o.caller < t.callers.length := by
  rcases (h.asked o ho).2 with hd | ⟨-, -, n, hn⟩
  · exact hd.lt_length
  · exact hn.lt_length

theorem Ordered.asked_turned (h : Ordered camera t pre order) (hi : t.At i q turn) {o : Placed P}
    (ho : o ∈ order) (hne : o.caller ≠ i) :
    (t.turned i q r).At o.caller o.call (.done o.answer) ∨
      (o.call = .clear camera ∧ o.answer = .done ∧ ∃ n, (t.turned i q r).At o.caller o.call (.enter n)) := by
  have hkeep : ∀ {q' turn'}, t.At o.caller q' turn' → (t.turned i q r).At o.caller q' turn' :=
    fun hh => (at_turned hi).2 (.inr ⟨hne, hh⟩)
  exact (h.asked o ho).2.imp hkeep fun hh => ⟨hh.1, hh.2.1, hh.2.2.imp fun n hn => hkeep hn⟩

theorem Ordered.keep (h : Ordered camera t pre order) (hext : Extends t pre pre')
    (hasked : ∀ o ∈ order, t'.At o.caller o.call (.done o.answer) ∨
      (o.call = .clear camera ∧ o.answer = .done ∧ ∃ n, t'.At o.caller o.call (.enter n)))
    (hcomplete : ∀ j q' ans, t'.At j q' (.done ans) → q'.camera? = some camera →
      t.At j q' (.done ans) ∨ ⟨j, q', ans⟩ ∈ order) :
    Ordered camera t' pre' order where
  once := h.once
  asked o ho := ⟨(h.asked o ho).1, hasked o ho⟩
  complete j q' ans hj hq := (hcomplete j q' ans hj hq).elim (fun hj => h.complete j q' ans hj hq) id
  gives := h.gives
  inTime := by
    refine h.inTime.imp_of_mem fun {o o'} ho ho' hpre => ?_
    rwa [hext.iff _ _ (h.lt_length ho)]

/-- A call that has no place yet moves on without getting one. -/
theorem Ordered.turned (h : Ordered camera t pre order) (hext : Extends t pre pre')
    (hi : t.At i q turn) (hne : ∀ o ∈ order, o.caller ≠ i)
    (hr : ∀ a, r.2 = .done a → q.camera? ≠ some camera) :
    Ordered camera (t.turned i q r) pre' order := by
  refine h.keep hext (fun o ho => h.asked_turned hi ho (hne o ho)) fun j q' ans hj hq => ?_
  rcases (at_turned hi).1 hj with ⟨-, rfl, hd⟩ | ⟨-, hj⟩
  · exact absurd hq (hr ans hd.symm)
  · exact .inl hj

/-- A call gets a place between `a` and `b`. -/
theorem Ordered.place (h : Ordered camera t pre (a ++ b)) (hext : Extends t pre pre')
    (hi : t.At i q turn) (hne : ∀ o ∈ a ++ b, o.caller ≠ i) (hpending : ¬ t.Answered i)
    (hq : q.camera? = some camera) {ans : Answer P}
    (hr : r.2 = .done ans ∨ (q = .clear camera ∧ ans = .done ∧ ∃ n, r.2 = .enter n))
    (hans : ((Shard.after .fresh a).call q).2 = ans)
    (hgives : ((Shard.after .fresh a).call q).1.Gives b) (hlate : ∀ o ∈ b, ¬ pre o.caller i) :
    Ordered camera (t.turned i q r) pre' (a ++ ⟨i, q, ans⟩ :: b) := by
  have hmem : ∀ {o : Placed P}, o ∈ a ++ ⟨i, q, ans⟩ :: b ↔ o = ⟨i, q, ans⟩ ∨ o ∈ a ++ b := by
    intro o
    simp only [List.mem_append, List.mem_cons]
    tauto
  have hlt : ∀ o ∈ a ++ b, o.caller < t.callers.length := fun o ho => h.lt_length ho
  constructor
  · have hp : (a ++ ⟨i, q, ans⟩ :: b).Perm (⟨i, q, ans⟩ :: (a ++ b)) := List.perm_middle
    rw [(hp.map (·.caller)).nodup_iff, List.map_cons, List.nodup_cons]
    refine ⟨fun hh => ?_, h.once⟩
    obtain ⟨o, ho, he⟩ := List.mem_map.1 hh
    exact hne o ho he
  · intro o ho
    rcases hmem.1 ho with rfl | ho
    · refine ⟨hq, ?_⟩
      have hturned : ∀ {turn'}, turn' = r.2 → (t.turned i q r).At i q turn' :=
        fun hh => (at_turned hi).2 (.inl ⟨rfl, rfl, hh⟩)
      exact hr.imp (fun hd => hturned hd.symm) fun ⟨hc, hd, n, hn⟩ => ⟨hc, hd, n, hturned hn.symm⟩
    · exact ⟨(h.asked o ho).1, h.asked_turned hi ho (hne o ho)⟩
  · intro j q' ans' hj hq'
    refine hmem.2 ?_
    rcases (at_turned hi).1 hj with ⟨rfl, rfl, hd⟩ | ⟨-, hj⟩
    · rcases hr with hr | ⟨-, -, n, hr⟩
      · rw [hr] at hd
        cases hd
        exact .inl rfl
      · rw [hr] at hd
        cases hd
    · exact .inr (h.complete j q' ans' hj hq')
  · obtain ⟨ha, -⟩ := Shard.gives_append.1 h.gives
    exact Shard.gives_append.2 ⟨ha, hans, hgives⟩
  · have hpre : ∀ x y, y < t.callers.length → ¬ pre x y → ¬ pre' x y :=
      fun x y hy hh => by rwa [hext.iff _ _ hy]
    have hin : (a ++ b).Pairwise fun o o' => ¬ pre' o'.caller o.caller :=
      h.inTime.imp_of_mem fun {o o'} ho _ hh => hpre _ _ (hlt o ho) hh
    obtain ⟨hina, hinb, hinab⟩ := List.pairwise_append.1 hin
    refine List.pairwise_append.2 ⟨hina, List.pairwise_cons.2 ⟨fun o ho => ?_, hinb⟩, ?_⟩
    · exact hpre _ _ hi.lt_length (hlate o ho)
    · intro o ho o' ho'
      rcases List.mem_cons.1 ho' with rfl | ho'
      · exact hpre _ _ (hlt o (List.mem_append_left b ho)) fun hh => hpending (hext.answered _ _ hh)
      · exact hinab o ho o' ho'

theorem Ordered.push (h : Ordered camera t pre order) (hext : Extends t pre pre') (hi : t.At i q turn)
    (hne : ∀ o ∈ order, o.caller ≠ i) (hpending : ¬ t.Answered i) (hq : q.camera? = some camera)
    {ans : Answer P} (hr : r.2 = .done ans ∨ (q = .clear camera ∧ ans = .done ∧ ∃ n, r.2 = .enter n))
    (hans : ((Shard.after .fresh order).call q).2 = ans) :
    Ordered camera (t.turned i q r) pre' (order ++ [⟨i, q, ans⟩]) := by
  rw [← List.append_nil order] at h
  exact h.place hext hi (by simpa using hne) hpending hq hr hans trivial (by simp)

/-! ### One move -/

theorem Sound.ask (h : Sound camera t pre order) (hext : Extends t pre pre') (q : Call P) :
    Sound camera (t.step (.ask q)) pre' order where
  ordered := by
    refine h.ordered.keep hext (fun o ho => ?_) fun j q' ans hj hq => ?_
    · exact (h.ordered.asked o ho).2.imp (fun hh => at_ask.2 (.inl hh)) fun hh =>
        ⟨hh.1, hh.2.1, hh.2.2.imp fun n hn => at_ask.2 (.inl hn)⟩
    · exact .inl ((at_ask.1 hj).resolve_right (by simp))
  standing n shard hn hshard := by
    have henter : ∀ j q', (t.step (.ask q)).At j q' (.enter n) → t.At j q' (.enter n) :=
      fun j q' hj => (at_ask.1 hj).resolve_right (by simp)
    have hrefers : t.Refers camera n := hn.imp_right fun ⟨j, q', hj, hq⟩ => ⟨j, q', henter j q' hj, hq⟩
    exact (h.standing n shard hrefers hshard).keep hext Iff.rfl (fun j q' hj => .inl (henter j q' hj))
      fun j hj => at_ask.2 (.inl hj)
  vacant := h.vacant

theorem advance_foreign (w : t.Wired) (hi : t.At i q turn) (hq : q.camera? ≠ some camera) :
    (t.store.advance q turn).1.shard? camera = t.store.shard? camera ∧
      ∀ n, t.Refers camera n → (t.store.advance q turn).1.shards[n]? = t.store.shards[n]? := by
  cases turn with
  | look =>
    simp only [SharedStore.advance]
    cases hc : q.camera? with
    | none => simp [(t.store.look_of_none hc).1]
    | some camera' =>
      have hl := t.store.looks hc
      have hne : camera ≠ camera' := fun hh => hq (hh ▸ hc)
      exact ⟨hl.shard?_of_ne hne, fun n hn => by rw [hl.shards]⟩
  | make c =>
    have hne : camera ≠ c.text := fun hh => hq (hh ▸ (w.make i q c hi).1)
    refine ⟨by rw [SharedStore.advance, SharedStore.shard?_make, if_neg hne], fun n hn => ?_⟩
    simp only [SharedStore.advance, SharedStore.make]
    cases t.store.serving[c]? with
    | some m => rfl
    | none => exact List.getElem?_append_left (w.bound camera n hn)
  | enter m =>
    have hother : ∀ n, t.Refers camera n → m ≠ n := by
      rintro n hn rfl
      obtain ⟨camera', hc⟩ := w.enter i q m hi
      exact hq (w.own camera camera' m hn (.inr ⟨i, q, hi, hc⟩) ▸ hc)
    simp only [SharedStore.advance]
    split
    · exact ⟨rfl, fun _ _ => rfl⟩
    · split
      · exact ⟨rfl, fun n hn => List.getElem?_set_ne (hother n hn)⟩
      · exact ⟨rfl, fun _ _ => rfl⟩
  | tally rest found => cases rest <;> exact ⟨rfl, fun _ _ => rfl⟩
  | done a => exact ⟨rfl, fun _ _ => rfl⟩

/-- A call on another camera, or on none, moves on. -/
theorem Sound.foreign (h : Sound camera t pre order) (w : t.Wired) (hext : Extends t pre pre')
    (hi : t.At i q turn) (hturn : ∀ a, turn ≠ .done a) (hq : q.camera? ≠ some camera) :
    Sound camera (t.turned i q (t.store.advance q turn)) pre' order := by
  have ha := w.advances hi
  have hw := w.turned ha hi
  obtain ⟨hshard?, hshards⟩ := advance_foreign w hi hq
  have hclear : q ≠ .clear camera := fun hh => hq (hh ▸ rfl)
  refine ⟨?_, fun n shard hn hs => ?_, fun hs => h.vacant (hshard? ▸ hs)⟩
  · exact h.ordered.turned hext hi (h.ordered.ne_caller hi hturn fun _ _ => hclear) fun _ _ => hq
  · have hrefers : t.Refers camera n := (ha.refers hi hn).resolve_right fun hh => hq hh.1
    have hs : t.store.shards[n]? = some shard := (hshards n hrefers) ▸ hs
    refine (h.standing n shard hrefers hs).keep hext (by rw [← hshard?]; rfl) ?_
      (clear_turned hi fun _ => hclear)
    refine enter_turned hi fun hr => ?_
    -- no call on another camera can get to this shard
    obtain ⟨camera', hc⟩ := w.turned ha hi |>.enter i q n ((at_turned hi).2 (.inl ⟨rfl, rfl, hr.symm⟩))
    have hc' := hw.own camera camera' n hn
      (.inr ⟨i, q, (at_turned hi).2 (.inl ⟨rfl, rfl, hr.symm⟩), hc⟩)
    exact absurd (hc' ▸ hc) hq

theorem At.pending (hi : t.At i q turn) (hturn : ∀ a, turn ≠ .done a) : ¬ t.Answered i :=
  fun ⟨_, a, hd⟩ => hturn a (hi.inj hd).2.symm

/-- A call that does not change the shard of its camera is answered. -/
theorem Sound.answer (h : Sound camera t pre order) (hext : Extends t pre pre')
    (hi : t.At i q .look) (hq : q.camera? = some camera) {ans : Answer P}
    (hcall : (Shard.after .fresh order).call q = (.after .fresh order, ans)) :
    Sound camera (t.turned i q (t.store, .done ans)) pre' (order ++ [⟨i, q, ans⟩]) := by
  have hpending := hi.pending (by simp)
  have hafter : Shard.after .fresh (order ++ [⟨i, q, ans⟩]) = .after .fresh order := by
    rw [Shard.after_append, Shard.after_cons, Shard.after_nil, hcall]
  refine ⟨?_, fun n shard hn hs => ?_, fun hs => hafter.trans (h.vacant hs)⟩
  · have hne := h.ordered.ne_caller hi (by simp) (by simp)
    exact h.ordered.push hext hi hne hpending hq (.inl rfl) (by rw [hcall])
  · have hrefers : t.Refers camera n := refers_turned hi hn .inl (by simp)
    exact (h.standing n shard hrefers hs).push hext Iff.rfl (enter_turned hi (by simp))
      (clear_turned hi (by simp)) hpending fun _ => hafter

/-- A call that found a shard, or no shard, is on its way to the next lock. -/
theorem Sound.pass (h : Sound camera t pre order) (hext : Extends t pre pre')
    (hi : t.At i q turn) (hturn : ∀ a, turn ≠ .done a) (hclear : q ≠ .clear camera)
    {turn' : Turn P} (hne : ∀ a, turn' ≠ .done a)
    (henter : ∀ n, turn' = .enter n → t.store.shard? camera = some n) :
    Sound camera (t.turned i q (t.store, turn')) pre' order := by
  refine ⟨?_, fun n shard hn hs => ?_, h.vacant⟩
  · exact h.ordered.turned hext hi (h.ordered.ne_caller hi hturn fun _ _ => hclear) fun a ha =>
      absurd ha (hne a)
  · have hrefers : t.Refers camera n := refers_turned hi hn .inl fun hr => .inl (henter n hr)
    exact (h.standing n shard hrefers hs).keep hext Iff.rfl
      (enter_turned hi fun hr => ⟨henter n hr, hclear⟩) (clear_turned hi fun _ => hclear)

/-- A clearing takes the shard out, and has its place from then on. -/
theorem Sound.detach (h : Sound camera t pre order) (hext : Extends t pre pre')
    (hi : t.At i (.clear camera) .look) {m : Nat} (hm : t.store.shard? camera = some m) :
    Sound camera (t.turned i (.clear camera) (t.store.detach camera, .enter m)) pre'
      (order ++ [⟨i, .clear camera, .done⟩]) := by
  have hpending := hi.pending (by simp)
  have hgone : (t.store.detach camera).shard? camera = none := by
    rw [SharedStore.shard?_detach, if_pos rfl]
  refine ⟨?_, fun n shard hn hs => ?_, fun _ => ?_⟩
  · have hne := h.ordered.ne_caller hi (by simp) (by simp)
    exact h.ordered.push hext hi hne hpending rfl (.inr ⟨rfl, rfl, m, rfl⟩) rfl
  · have hrefers : t.Refers camera n := by
      refine refers_turned hi hn (fun hn => absurd (hgone.symm.trans hn) (by simp)) fun hr => ?_
      cases hr
      exact .inl hm
    have hs' : t.store.shards[n]? = some shard := t.store.shards_detach camera ▸ hs
    have hstand := h.standing n shard hrefers hs'
    by_cases hnm : n = m
    · subst hnm
      rcases hstand with hserving | ⟨before, o, later, hpast⟩
      · have hold : ∀ j q', (t.turned i (.clear camera) (t.store.detach camera, .enter n)).At j q'
            (.enter n) → (j = i ∧ q' = .clear camera) ∨ t.At j q' (.enter n) := by
          intro j q' hj
          exact ((at_turned hi).1 hj).imp (fun hh => ⟨hh.1, hh.2.1⟩) And.right
        refine .inr ⟨order, ⟨i, .clear camera, .done⟩, [], ?_, rfl, rfl, ?_, ?_, ?_⟩
        · rw [turned, hgone]
          simp
        · exact .inl ⟨hserving.holds, (at_turned hi).2 (.inl ⟨rfl, rfl, rfl⟩)⟩
        · exact fun j hj => (hold j _ hj).elim And.left fun hj => absurd hj (hserving.calls j)
        · intro j q' hj hne b hb hpre
          cases List.mem_singleton.1 hb
          have hj := (hold j q' hj).resolve_left fun hh => hne hh.2
          exact hpending (hext.answered _ _ ((hext.iff _ _ hj.lt_length).1 hpre))
      · exact absurd hm hpast.gone
    · refine hstand.push hext ?_ (enter_turned hi ?_) (clear_turned hi (by simp)) hpending ?_
      · rw [turned, hgone, hm]
        simp [Ne.symm hnm]
      · intro hr
        cases hr
        exact absurd rfl hnm
      · intro hn
        exact absurd (Option.some.inj (hm.symm.trans hn)) (Ne.symm hnm)
  · rw [Shard.after_append]
    rfl

theorem Sound.look (h : Sound camera t pre order) (hext : Extends t pre pre')
    (hi : t.At i q .look) (hq : q.camera? = some camera) :
    ∃ order', Sound camera (t.turned i q (t.store.look q)) pre' order' := by
  have hlooks := t.store.looks hq
  generalize t.store.look q = r at hlooks
  cases hlooks with
  | answered ans ha =>
    have hlive := Shard.retired_after (Shard.retired_fresh (P := P)) order
    exact ⟨_, h.answer hext hi hq (ha _ hlive)⟩
  | absent ans hs ha =>
    have hv := h.vacant hs
    exact ⟨_, h.answer hext hi hq (by rw [hv, ha])⟩
  | creates c hc hs hne => exact ⟨order, h.pass hext hi (by simp) hne (by simp) (by simp)⟩
  | enters n hs hne =>
    refine ⟨order, h.pass hext hi (by simp) hne (by simp) fun m hm => ?_⟩
    cases hm
    exact hs
  | clears n hs hc =>
    subst hc
    exact ⟨_, h.detach hext hi hs⟩

/-- A call makes the shard that its camera lacks. -/
theorem Sound.create (h : Sound camera t pre order) (w : t.Wired) (hext : Extends t pre pre')
    {c : CameraId} (hi : t.At i q (.make c)) (hc : camera = c.text) (hclear : q ≠ .clear camera)
    (hs : t.store.serving[c]? = none) :
    Sound camera (t.turned i q (t.store.make c)) pre' order := by
  have hnone : t.store.shard? camera = none := by rw [hc, SharedStore.shard?_text, hs]
  have hsome : (t.store.make c).1.shard? camera = some t.store.shards.length := by
    rw [SharedStore.shard?_make, if_pos hc, hs, Option.getD_none]
  have hmake : t.store.make c = (⟨t.store.shards ++ [.fresh],
      t.store.serving.insert c t.store.shards.length⟩, .enter t.store.shards.length) := by
    simp only [SharedStore.make, hs]
  have hturn : (t.store.make c).2 = .enter t.store.shards.length := by rw [hmake]
  have hshards : (t.store.make c).1.shards = t.store.shards ++ [.fresh] := by rw [hmake]
  refine ⟨?_, fun n shard hn hshard => ?_, fun hv => absurd (hsome.symm.trans hv) (by simp)⟩
  · refine h.ordered.turned hext hi (h.ordered.ne_caller hi (by simp) (by simp)) ?_
    simp [hturn]
  · rw [turned, hshards] at hshard
    by_cases hnl : n = t.store.shards.length
    · subst hnl
      rw [List.getElem?_append_right (Nat.le_refl _), Nat.sub_self] at hshard
      refine .inl ⟨hsome, ?_, fun j hj => ?_⟩
      · rw [h.vacant hnone]
        exact (Option.some.inj hshard).symm
      · rcases (at_turned hi).1 hj with ⟨-, hq, -⟩ | ⟨-, hj⟩
        · exact hclear hq.symm
        · exact absurd (w.bound camera _ (.inr ⟨j, _, hj, rfl⟩)) (Nat.lt_irrefl _)
    · have hother : (t.store.make c).2 ≠ .enter n := by
        rw [hturn]
        exact fun hr => hnl (Turn.enter.inj hr).symm
      have hrefers : t.Refers camera n :=
        refers_turned hi hn (fun hn => absurd (Option.some.inj (hsome.symm.trans hn)).symm hnl)
          fun hr => absurd hr hother
      rw [List.getElem?_append_left (w.bound camera n hrefers)] at hshard
      refine (h.standing n shard hrefers hshard).keep hext ?_
        (enter_turned hi fun hr => absurd hr hother) (clear_turned hi (by simp))
      rw [turned, hsome, hnone]
      simp [Ne.symm hnl]

theorem Sound.make (h : Sound camera t pre order) (w : t.Wired) (hext : Extends t pre pre')
    {c : CameraId} (hi : t.At i q (.make c)) (hq : q.camera? = some camera) :
    Sound camera (t.turned i q (t.store.make c)) pre' order := by
  obtain ⟨hc, hclear⟩ := w.make i q c hi
  cases hq.symm.trans hc
  cases hs : t.store.serving[c]? with
  | none => exact h.create w hext hi rfl hclear hs
  | some n =>
    have hmake : t.store.make c = (t.store, .enter n) := by simp only [SharedStore.make, hs]
    rw [hmake]
    refine h.pass hext hi (by simp) hclear (by simp) fun m hm => ?_
    cases hm
    rw [SharedStore.shard?_text, hs]

/-! ### In a shard -/

theorem advance_enter {m : Nat} {s s' : Shard P} {ans : Answer P} {store : SharedStore P}
    (hm : store.shards[m]? = some s) (hs : s.serve q = some (s', ans)) :
    store.advance q (.enter m) = ({ store with shards := store.shards.set m s' }, .done ans) := by
  simp only [SharedStore.advance, hm, hs]

/-- A call in the shard that serves its camera. -/
theorem Sound.serve (h : Sound camera t pre order) (hext : Extends t pre pre') {m : Nat}
    {s s' : Shard P} {ans : Answer P} (hi : t.At i q (.enter m)) (hq : q.camera? = some camera)
    (hm : t.store.shards[m]? = some s) (hserving : Serving camera t order m s)
    (hs : s.serve q = some (s', ans)) :
    Sound camera (t.turned i q (t.store.advance q (.enter m))) pre' (order ++ [⟨i, q, ans⟩]) := by
  have hclear : q ≠ .clear camera := fun hh => hserving.calls i (hh ▸ hi)
  have hpending := hi.pending (by simp)
  have hcall : (Shard.after .fresh order).call q = (s', ans) := by
    rw [← hserving.holds]
    exact Shard.call_of_serve hclear hq hs
  have hafter : Shard.after .fresh (order ++ [⟨i, q, ans⟩]) = s' := by
    rw [Shard.after_append, Shard.after_cons, Shard.after_nil, hcall]
  rw [advance_enter hm hs]
  refine ⟨?_, fun n shard hn hshard => ?_, fun hv => absurd (hserving.serves.symm.trans hv) (by simp)⟩
  · have hne := h.ordered.ne_caller hi (by simp) fun _ _ => hclear
    exact h.ordered.push hext hi hne hpending hq (.inl rfl) (by rw [hcall])
  · have hrefers : t.Refers camera n := refers_turned hi hn .inl (by simp)
    rcases getElem?_set_cases hshard with ⟨rfl, rfl⟩ | ⟨hnm, hshard⟩
    · refine .inl ⟨hserving.serves, hafter.symm, fun j hj => ?_⟩
      exact ((at_turned hi).1 hj).elim (by simp) fun hj => hserving.calls j hj.2
    · refine (h.standing n shard hrefers hshard).push hext Iff.rfl (enter_turned hi (by simp))
        (clear_turned hi fun _ => hclear) hpending fun hh => ?_
      exact absurd (Option.some.inj (hserving.serves.symm.trans hh)) (Ne.symm hnm)

/-- A call in a shard that has been taken out and not yet been retired: it goes right before the
clearing. -/
theorem Sound.serve_before (h : Sound camera t pre order) (hext : Extends t pre pre') {m : Nat}
    {s s' : Shard P} {ans : Answer P} (hi : t.At i q (.enter m)) (hq : q.camera? = some camera)
    (hm : t.store.shards[m]? = some s) (hclear : q ≠ .clear camera)
    {before : List (Placed P)} {o : Placed P} {later : List (Placed P)}
    (hpast : Past camera t pre order m s before o later)
    (hholds : s = .after .fresh before) (ho : t.At o.caller (.clear camera) (.enter m))
    (hs : s.serve q = some (s', ans)) :
    Sound camera (t.turned i q (t.store.advance q (.enter m))) pre'
      (before ++ ⟨i, q, ans⟩ :: o :: later) := by
  have hpending := hi.pending (by simp)
  have hcall : (Shard.after .fresh before).call q = (s', ans) := by
    rw [← hholds]
    exact Shard.call_of_serve hclear hq hs
  have hreset : ∀ c, Shard.after .fresh (before ++ [⟨i, q, ans⟩] ++ o :: c) =
      .after .fresh (before ++ o :: c) := fun c => by
    rw [Shard.after_append, Shard.after_append _ before (o :: c)]
    exact Shard.after_clear hpast.clears _ _ c
  have hmem : o ∈ order := by simp [hpast.split]
  have hne : ∀ x ∈ order, x.caller ≠ i := h.ordered.ne_caller hi (by simp) fun _ _ => hclear
  have hordered := h.ordered
  rw [hpast.split] at hordered
  rw [advance_enter hm hs]
  refine ⟨?_, fun n shard hn hshard => ?_, fun hv => ?_⟩
  · refine hordered.place hext hi (hpast.split ▸ hne) hpending hq (.inl rfl) (by rw [hcall]) ?_
      (hpast.calls i q hi hclear)
    exact (Shard.gives_clear hpast.clears _ _).1 (Shard.gives_append.1 hordered.gives).2
  · have hrefers : t.Refers camera n := refers_turned hi hn .inl (by simp)
    rcases getElem?_set_cases hshard with ⟨rfl, rfl⟩ | ⟨hnm, hshard⟩
    · have hold : ∀ j q', (t.turned i q ({ t.store with shards := t.store.shards.set n shard },
          .done ans)).At j q' (.enter n) → t.At j q' (.enter n) :=
        fun j q' hj => ((at_turned hi).1 hj).elim (by simp) And.right
      refine .inr ⟨before ++ [⟨i, q, ans⟩], o, later, hpast.gone, by simp, hpast.clears,
        .inl ⟨?_, (at_turned hi).2 (.inr ⟨hne o hmem, ho⟩)⟩,
        fun j hj => hpast.sole j (hold j _ hj), fun j q' hj hq' b hb hpre => ?_⟩
      · rw [Shard.after_append, Shard.after_cons, Shard.after_nil, hcall]
      · have hj := hold j q' hj
        exact hpast.calls j q' hj hq' b hb ((hext.iff _ _ hj.lt_length).1 hpre)
    · have hstand := h.standing n shard hrefers hshard
      rw [hpast.split] at hstand
      have hnew : Standing camera (t.turned i q ({ t.store with shards := t.store.shards.set m s' },
          .done ans)) pre' (before ++ [⟨i, q, ans⟩] ++ o :: later) n shard := by
        refine hstand.insert hext Iff.rfl (enter_turned hi (by simp)) (clear_turned hi fun _ => hclear)
          (by simpa using hpending) (fun _ => hreset later) fun c o' d hsplit ho' => ?_
        cases c with
        | nil =>
          obtain ⟨rfl, -⟩ := List.cons.inj hsplit
          exact absurd (ho.inj ho').2 (by simp [hnm])
        | cons x c =>
          obtain ⟨rfl, -⟩ := List.cons.inj hsplit
          exact hreset c
      simpa using hnew
  · have hsplit : order = before ++ o :: later := hpast.split
    have hr := hreset later
    rw [List.append_assoc] at hr
    exact hr.trans (hsplit ▸ h.vacant hv)

/-- A call in a spent shard: it finds nothing, and goes right behind the clearing. -/
theorem Sound.serve_behind (h : Sound camera t pre order) (hext : Extends t pre pre') {m : Nat}
    {s' : Shard P} {ans : Answer P} (hi : t.At i q (.enter m)) (hq : q.camera? = some camera)
    (hm : t.store.shards[m]? = some .spent) (hclear : q ≠ .clear camera)
    {before : List (Placed P)} {o : Placed P} {later : List (Placed P)}
    (hpast : Past camera t pre order m .spent before o later)
    (hs : (Shard.spent : Shard P).serve q = some (s', ans)) :
    Sound camera (t.turned i q (t.store.advance q (.enter m))) pre'
      (before ++ [o] ++ ⟨i, q, ans⟩ :: later) := by
  have hpending := hi.pending (by simp)
  obtain ⟨rfl, hcall⟩ := Shard.serve_of_spent hclear hq hs
  have hsplit : order = before ++ [o] ++ later := by simp [hpast.split]
  have hfresh : Shard.after .fresh (before ++ [o]) = (.fresh : Shard P) := by
    rw [Shard.after_append, Shard.after_cons, hpast.clears]
    rfl
  have hsame : ∀ c, Shard.after .fresh (before ++ [o] ++ [⟨i, q, ans⟩] ++ c) =
      .after .fresh (before ++ [o] ++ c) := fun c => by
    rw [Shard.after_append, Shard.after_append _ (before ++ [o]), hfresh,
      Shard.after_append _ (before ++ [o]), hfresh, Shard.after_cons, Shard.after_nil, hcall]
  have hne : ∀ x ∈ order, x.caller ≠ i := h.ordered.ne_caller hi (by simp) fun _ _ => hclear
  have hordered := h.ordered
  rw [hsplit] at hordered
  rw [advance_enter hm hs]
  refine ⟨?_, fun n shard hn hshard => ?_, fun hv => ?_⟩
  · refine hordered.place hext hi (hsplit ▸ hne) hpending hq (.inl rfl) (by rw [hfresh, hcall]) ?_
      fun x hx => hpast.calls i q hi hclear x (List.mem_cons_of_mem _ hx)
    rw [hfresh, hcall]
    have hg := (Shard.gives_append.1 hordered.gives).2
    rwa [hfresh] at hg
  · have hrefers : t.Refers camera n := refers_turned hi hn .inl (by simp)
    have hset : t.store.shards.set m .spent = t.store.shards := by
      obtain ⟨hlt, he⟩ := List.getElem?_eq_some_iff.1 hm
      rw [← he, List.set_getElem_self]
    rw [turned, hset] at hshard
    have hstand := h.standing n shard hrefers hshard
    rw [hsplit] at hstand
    have hnew : Standing camera (t.turned i q ({ t.store with shards := t.store.shards.set m .spent },
        .done ans)) pre' (before ++ [o] ++ [⟨i, q, ans⟩] ++ later) n shard :=
      hstand.insert hext Iff.rfl (enter_turned hi (by simp)) (clear_turned hi fun _ => hclear)
        (by simpa using hpending) (fun _ => hsame later) fun c _ _ _ _ => hsame c
    simpa using hnew
  · have hr := hsame later
    rw [List.append_assoc _ [_]] at hr
    exact hr.trans (hsplit ▸ h.vacant hv)

/-- The clearing that took a shard out retires it. -/
theorem Sound.retire (h : Sound camera t pre order) (hext : Extends t pre pre') {m : Nat}
    {s : Shard P} (hi : t.At i (.clear camera) (.enter m)) (hm : t.store.shards[m]? = some s)
    {before : List (Placed P)} {o : Placed P} {later : List (Placed P)}
    (hpast : Past camera t pre order m s before o later) :
    Sound camera (t.turned i (.clear camera) (t.store.advance (.clear camera) (.enter m))) pre'
      order := by
  have hoi : o.caller = i := (hpast.sole i hi).symm
  have hdone : ∀ x ∈ order, x.caller = i → x.call = .clear camera ∧ x.answer = .done := by
    intro x hx he
    rcases (h.ordered.asked x hx).2 with hd | ⟨hc, hans, -⟩
    · rw [he] at hd
      exact absurd (hi.inj hd).2 (by simp)
    · exact ⟨hc, hans⟩
  have hmem : o ∈ order := by simp [hpast.split]
  rw [advance_enter hm (rfl : s.serve (.clear camera) = some (.spent, .done))]
  refine ⟨?_, fun n shard hn hshard => ?_, h.vacant⟩
  · refine h.ordered.keep hext (fun x hx => ?_) fun j q' ans hj hq' => ?_
    · by_cases hx' : x.caller = i
      · obtain ⟨hc, hans⟩ := hdone x hx hx'
        exact .inl ((at_turned hi).2 (.inl ⟨hx', hc, by rw [hans]⟩))
      · exact h.ordered.asked_turned hi hx hx'
    · rcases (at_turned hi).1 hj with ⟨rfl, rfl, hd⟩ | ⟨-, hj⟩
      · cases hd
        obtain ⟨hc, hans⟩ := hdone o hmem hoi
        right
        rw [← hoi, ← hc, ← hans]
        exact hmem
      · exact .inl hj
  · have hrefers : t.Refers camera n := refers_turned hi hn .inl (by simp)
    have hold : ∀ j q', (t.turned i (.clear camera) ({ t.store with shards := t.store.shards.set m .spent },
        .done .done)).At j q' (.enter n) → j ≠ i ∧ t.At j q' (.enter n) :=
      fun j q' hj => ((at_turned hi).1 hj).elim (by simp) id
    rcases getElem?_set_cases hshard with ⟨rfl, rfl⟩ | ⟨hnm, hshard⟩
    · refine .inr ⟨before, o, later, hpast.gone, hpast.split, hpast.clears, .inr ⟨rfl, fun j hj => ?_⟩,
        fun j hj => hpast.sole j (hold j _ hj).2, fun j q' hj hq' b hb hpre => ?_⟩
      · exact (hold j _ hj).1 ((hpast.sole j (hold j _ hj).2).trans hoi)
      · have hj := (hold j q' hj).2
        exact hpast.calls j q' hj hq' b hb ((hext.iff _ _ hj.lt_length).1 hpre)
    · exact (h.standing n shard hrefers hshard).keep hext Iff.rfl
        (fun j q' hj => .inl (hold j q' hj).2) (clear_turned hi fun hr => by simp_all)

theorem Sound.enter (h : Sound camera t pre order) (w : t.Wired) (hext : Extends t pre pre')
    {m : Nat} (hi : t.At i q (.enter m)) (hq : q.camera? = some camera) :
    ∃ order', Sound camera (t.turned i q (t.store.advance q (.enter m))) pre' order' := by
  have hrefers : t.Refers camera m := .inr ⟨i, q, hi, hq⟩
  obtain ⟨s, hm⟩ : ∃ s, t.store.shards[m]? = some s :=
    ⟨_, List.getElem?_eq_getElem (w.bound camera m hrefers)⟩
  rcases h.standing m s hrefers hm with hserving | ⟨before, o, later, hpast⟩
  · have hlive : s.retired = false := by
      rw [hserving.holds]
      exact Shard.retired_after Shard.retired_fresh order
    obtain ⟨s', ans, hs⟩ := Shard.serve_of_live hlive q
    exact ⟨_, h.serve hext hi hq hm hserving hs⟩
  by_cases hclear : q = .clear camera
  · subst hclear
    exact ⟨_, h.retire hext hi hm hpast⟩
  rcases hpast.holds with ⟨hholds, ho⟩ | ⟨rfl, -⟩
  · have hlive : s.retired = false := by
      rw [hholds]
      exact Shard.retired_after Shard.retired_fresh before
    obtain ⟨s', ans, hs⟩ := Shard.serve_of_live hlive q
    exact ⟨_, h.serve_before hext hi hq hm hclear hpast hholds ho hs⟩
  · cases hs : (Shard.spent : Shard P).serve q with
    | some x => exact ⟨_, h.serve_behind hext hi hq hm hclear hpast hs⟩
    | none =>
      have hback : t.store.advance q (.enter m) = (t.store, .look) := by
        simp only [SharedStore.advance, hm, hs]
      rw [hback]
      exact ⟨order, h.pass hext hi (by simp) hclear (by simp) (by simp)⟩

theorem Sound.step (h : Sound camera t pre order) (w : t.Wired) (hext : Extends t pre pre')
    (m : Move P) : ∃ order', Sound camera (t.step m) pre' order' := by
  cases m with
  | ask q => exact ⟨order, h.ask hext q⟩
  | go i =>
    rcases t.step_go_cases i with he | ⟨q, turn, hi, hturn, he⟩ <;> rw [he]
    · refine ⟨order, h.ordered.keep hext (fun o ho => (h.ordered.asked o ho).2) fun _ _ _ hj _ => .inl hj,
        fun n shard hn hs => ?_, h.vacant⟩
      exact (h.standing n shard hn hs).keep hext Iff.rfl (fun _ _ hj => .inl hj) fun _ hj => hj
    by_cases hq : q.camera? = some camera
    · cases turn with
      | look => exact h.look hext hi hq
      | make c => exact ⟨order, h.make w hext hi hq⟩
      | enter m => exact h.enter w hext hi hq
      | tally rest found =>
        rw [w.tally i q rest found hi] at hq
        cases hq
      | done a => exact absurd rfl (hturn a)
    · exact ⟨order, h.foreign w hext hi hturn hq⟩

end Order

/-! ### Runs -/

theorem wired_run (moves : List (Move P)) : (empty.run moves).Wired := by
  induction moves using List.reverseRecOn with
  | nil => exact wired_empty
  | append_singleton moves m ih =>
    rw [run_append]
    exact ih.step m

theorem sound_empty (camera : String) :
    Sound camera (empty : Crowd P) (Precedes ([] : List (Move P))) [] where
  ordered := by
    refine ⟨List.nodup_nil, by simp, fun i q a hi => ?_, trivial, .nil⟩
    cases hi
  standing n shard hn hs := by cases hs
  vacant _ := rfl

theorem exists_sound (moves : List (Move P)) (camera : String) :
    ∃ order, Sound camera (empty.run moves) (Precedes moves) order := by
  induction moves using List.reverseRecOn with
  | nil => exact ⟨[], sound_empty camera⟩
  | append_singleton moves m ih =>
    obtain ⟨order, h⟩ := ih
    rw [run_append]
    have hext : Extends (empty.run moves) (Precedes moves) (Precedes (moves ++ [m])) :=
      ⟨fun i j hj => precedes_append_singleton hj, fun i j => Precedes.answered⟩
    exact h.step (wired_run moves) hext m

theorem Sound.linearizes {moves : List (Move P)} {camera : String} {order : List (Placed P)}
    (h : Sound camera (empty.run moves) (Precedes moves) order) : Linearizes moves camera order where
  once := h.ordered.once
  asked o ho := by
    obtain ⟨hc, hturn⟩ := h.ordered.asked o ho
    exact ⟨hc, hturn.elim (fun hd => ⟨_, hd⟩) fun hh => hh.2.2.imp' Turn.enter fun _ hn => hn⟩
  complete := h.ordered.complete
  answers := h.ordered.gives.flat fun o ho => (h.ordered.asked o ho).1
  inTime := h.ordered.inTime

theorem Sound.visible {moves : List (Move P)} {camera : String} {order : List (Placed P)}
    (h : Sound camera (empty.run moves) (Precedes moves) order) (number : Int64) :
    ((empty.run moves).store.get? camera number).map (·.payload) =
      (((∅ : FlatStore P).run (order.map (·.call))).tracks camera).lookup number := by
  rw [← h.ordered.gives.lookup fun o ho => (h.ordered.asked o ho).1]
  cases hs : (empty.run moves).store.shard? camera with
  | none => simp [SharedStore.get?, hs, h.vacant hs]
  | some n =>
    have hrefers : (empty.run moves).Refers camera n := .inl hs
    have hn := List.getElem?_eq_getElem ((wired_run moves).bound camera n hrefers)
    rcases h.standing n _ hrefers hn with hserving | ⟨before, o, later, hpast⟩
    · simp [SharedStore.get?, hs, hn, hserving.holds]
    · exact absurd hs hpast.gone

theorem Linearizes.after_of_precedes {moves : List (Move P)} {camera : String}
    {order : List (Placed P)} (h : Linearizes moves camera order) {k o : Placed P} (hk : k ∈ order)
    (ho : o ∈ order) (hpre : Precedes moves k.caller o.caller) :
    ∃ a b c, order = a ++ k :: (b ++ o :: c) := by
  obtain ⟨a, rest, rfl⟩ := List.append_of_mem hk
  obtain ⟨-, hrest, hcross⟩ := List.pairwise_append.1 h.inTime
  rcases List.mem_append.1 ho with ho | ho
  · exact absurd hpre (hcross o ho k (List.mem_cons_self ..))
  · rcases List.mem_cons.1 ho with rfl | ho
    · exact absurd hpre (irrefl_precedes moves o.caller)
    · obtain ⟨b, c, rfl⟩ := List.append_of_mem ho
      exact ⟨a, b, c, rfl⟩

theorem Sound.afresh {moves : List (Move P)} {camera : String} {a b c : List (Placed P)}
    {k o : Placed P}
    (h : Sound camera (empty.run moves) (Precedes moves) (a ++ k :: (b ++ o :: c)))
    (hk : k.call = .clear camera) :
    o.answer.flat = (((∅ : FlatStore P).run (b.map (·.call))).call o.call).2 := by
  obtain ⟨-, -, hg⟩ := Shard.gives_append.1 h.ordered.gives
  rw [hk] at hg
  obtain ⟨hb, hans, -⟩ := Shard.gives_append.1 hg
  have hcamera : ∀ x ∈ a ++ k :: (b ++ o :: c), x.call.camera? = some camera :=
    fun x hx => (h.ordered.asked x hx).1
  rw [← hans]
  exact Shard.Gives.flat_call hb (fun x hx => hcamera x (by simp [hx])) (hcamera o (by simp))

/-- Whatever the callers do at the same time, the calls on a camera are answered as if each was made alone, in
an order that respects which call was answered before which was made. What the store holds of the camera
is what this order leaves. Behind a clearing nothing is left of what was reported before it, and a call
that was made when the clearing had been answered stands behind it. -/
theorem linearizable (moves : List (Move P)) (camera : String) :
    ∃ order : List (Placed P), Linearizes moves camera order ∧
      (∀ number, ((empty.run moves).store.get? camera number).map (·.payload) =
        (((∅ : FlatStore P).run (order.map (·.call))).tracks camera).lookup number) ∧
      (∀ a k b o c, order = a ++ k :: (b ++ o :: c) → k.call = .clear camera →
        o.answer.flat = (((∅ : FlatStore P).run (b.map (·.call))).call o.call).2) ∧
      ∀ k o, k ∈ order → o ∈ order → Precedes moves k.caller o.caller →
        ∃ a b c, order = a ++ k :: (b ++ o :: c) := by
  obtain ⟨order, h⟩ := exists_sound moves camera
  refine ⟨order, h.linearizes, h.visible, ?_, fun k o => h.linearizes.after_of_precedes⟩
  rintro a k b o c rfl hk
  exact h.afresh hk

/-- A report finds its shard retired while the camera is cleared, and the track is looked for when it has been
cleared once more. -/
def renewed : List (Move String) :=
  [.ask (.register ⟨"north", 1, "a"⟩), .go 0, .go 0, .ask (.clear "north"), .go 1, .go 1, .go 0, .go 0, .go 0, .go 0,
    .ask (.clear "north"), .go 2, .go 2, .ask (.get "north" 1), .go 3]

theorem linearizable_renewed :
    ∃ order : List (Placed String), Linearizes renewed "north" order ∧
      ((empty.run renewed).store.get? "north" 1).map (·.payload) =
        (((∅ : FlatStore String).run (order.map (·.call))).tracks "north").lookup 1 ∧
      ∃ a b c, order = a ++ ⟨2, .clear "north", .done⟩ :: (b ++ ⟨3, .get "north" 1, .entry none⟩ :: c) ∧
        (Answer.entry none : Answer String).flat =
          (((∅ : FlatStore String).run (b.map (·.call))).call (.get "north" 1)).2 := by
  obtain ⟨order, h, hholds, hafresh, hbehind⟩ := linearizable renewed "north"
  have hclear : ⟨2, .clear "north", .done⟩ ∈ order := h.complete 2 _ _ rfl rfl
  have hget : ⟨3, .get "north" 1, .entry none⟩ ∈ order := h.complete 3 _ _ rfl rfl
  have hprecedes : Precedes renewed 2 3 :=
    ⟨renewed.take 13, renewed.drop 13, (List.take_append_drop 13 renewed).symm, ⟨.clear "north", .done, rfl⟩,
      Nat.le_refl 3⟩
  obtain ⟨a, b, c, horder⟩ := hbehind _ _ hclear hget hprecedes
  exact ⟨order, h, hholds 1, a, b, c, horder, hafresh a _ b _ c horder rfl⟩

end Crowd

end LiveTracks
