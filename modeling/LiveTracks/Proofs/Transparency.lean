import LiveTracks.Proofs.Traffic

/-!
# Layers cannot be seen from above

As long as nothing is swept, a caller at the top of a stack cannot tell how many layers lie below, nor what
their policies are, nor what the clock shows: all answers and all log entries are those of the store alone
(`errands_unseen`). A layer writes its rows into a table of the same make as the store, which only differs in
that it logs nothing, and this write never fails once the store has accepted a report (`noteEach_of_ok`).

An `Errand` says what the clock shows each layer while the call is carried out, and `attend` spells out what
every table does and logs meanwhile. While the clock stands still, it is the call (`attend_eq_call`). If the
clock is set while a report is made, it is what the accesses of the report come to (`registerEach_of_turns`).
-/

namespace LiveTracks

variable {P : Type}

/-! ### Tables -/

/-- A store, and whether it logs what it does. -/
structure Table (P : Type) where
  store : Store P
  logging : Bool

namespace Table

def entering (t : Table P) (events : List Event) : List Event := if t.logging then events else []

/-- Puts an entry in place of the one of the same key, or says why the pair names no track, and what is logged
of it. -/
def register (t : Table P) (camera : String) (number : Int64) (payload : P) :
    Except KeyError (Table P) × List Event :=
  match t.store.register camera number payload with
  | .error e => (.error e, t.entering [.rejected camera e])
  | .ok store => (.ok { t with store }, t.entering (Stack.creation t.store camera))

def clear (t : Table P) (camera : String) : Table P × List Event :=
  let (store, dropped) := t.store.clear camera
  ({ t with store }, t.entering (Stack.clearing camera dropped))

theorem snd_register_of_silent {t : Table P} (h : t.logging = false) (camera : String) (number : Int64)
    (payload : P) : (t.register camera number payload).2 = [] := by
  unfold register entering
  rw [h]
  split <;> rfl

theorem snd_clear_of_silent {t : Table P} (h : t.logging = false) (camera : String) :
    (t.clear camera).2 = [] := by
  simp only [clear, entering, h, Bool.false_eq_true, if_false]

end Table

def Layer.table (l : Layer) : Table Lifetime := ⟨l.rows, false⟩

def Layer.withTable (l : Layer) (t : Table Lifetime) : Layer := { l with rows := t.store }

def Stack.table (s : Stack P) : Table P := ⟨s.base, true⟩

/-! ### Errands -/

/-- A call that any store of tracks takes, whether or not it has layers. -/
inductive Port (P : Type) where
  | register (report : Report P)
  | get (camera : String) (number : Int64)
  | getByCamera (camera : String)
  | remove (camera : String) (number : Int64)
  | clear (camera : String)
  | count (camera : String)
  | census
deriving DecidableEq

def Port.call : Port P → Call P
  | register r => .register r
  | get camera number => .get camera number
  | getByCamera camera => .getByCamera camera
  | remove camera number => .remove camera number
  | clear camera => .clear camera
  | count camera => .count camera
  | census => .census

/-- A call, and what the clock shows each layer if it reads it meanwhile, the lowest one first. -/
structure Errand (P : Type) where
  port : Port P
  readings : Nat → Instant

namespace Stack

/-- Notes a report in all layers, upwards from the one of index `i` to the first that fails, and what the
tables log of it. -/
def noteEach (camera : String) (number : Int64) (readings : Nat → Instant) :
    Nat → List Layer → List Layer × Except KeyError Unit × List Event
  | _, [] => ([], .ok (), [])
  | i, l :: layers =>
    let firstSeen := ((l.lifetime? camera number).map (·.firstSeen)).getD (readings i)
    match l.table.register camera number ⟨firstSeen, readings i⟩ with
    | (.error e, events) => (l :: layers, .error e, events)
    | (.ok table, events) =>
      let (layers', result, more) := noteEach camera number readings (i + 1) layers
      (l.withTable table :: layers', result, events ++ more)

def registerEach (s : Stack P) (readings : Nat → Instant) (r : Report P) : Stack P × Answer P :=
  match s.table.register r.camera r.number r.payload with
  | (.error e, events) => (s.logs events, .refused e)
  | (.ok table, events) =>
    let (layers, result, more) := noteEach r.camera r.number readings 0 s.layers
    ({ s with base := table.store, layers }.logs (events ++ more),
      match result with
      | .ok () => .done
      | .error e => .refused e)

/-- Forgets a camera in all tables, downwards from the topmost one. -/
def clearEach (s : Stack P) (camera : String) : Stack P :=
  { s with
    layers := s.layers.map fun l : Layer => l.withTable (l.table.clear camera).1
    base := (s.table.clear camera).1.store }.logs
      (s.layers.reverse.flatMap (fun l : Layer => (l.table.clear camera).2) ++ (s.table.clear camera).2)

/-- Does an errand at the top. Only a report reads the clock, and only reports and clearings are logged. -/
def attend (s : Stack P) (e : Errand P) : Stack P × Answer P :=
  match e.port with
  | .register r => s.registerEach e.readings r
  | .clear camera => (s.clearEach camera, .done)
  | port => s.call .ascending .byName s.depth port.call

def attendAll (s : Stack P) : List (Errand P) → Stack P × List (Answer P)
  | [] => (s, [])
  | e :: errands =>
    let (s, a) := s.attend e
    let (s, answers) := attendAll s errands
    (s, a :: answers)

/-! ### What the layers add -/

/-- Once the key is known to be sound no layer can fail, and no layer logs anything. -/
theorem noteEach_of_ok {camera : String} {number : Int64} {key : Key}
    (h : Key.ofRaw camera number = .ok key) (readings : Nat → Instant) (i : Nat) (layers : List Layer) :
    (noteEach camera number readings i layers).2 = (.ok (), []) := by
  induction layers generalizing i with
  | nil => rfl
  | cons l layers ih =>
    have hs := Table.snd_register_of_silent (t := l.table) rfl camera number
      ⟨((l.lifetime? camera number).map (·.firstSeen)).getD (readings i), readings i⟩
    simp only [noteEach]
    split
    · rename_i e events hr
      simp only [Table.register, Layer.table, Store.register, h, Except.map] at hr
      cases hr
    · rename_i table events hr
      rw [hr] at hs
      have hs : events = [] := hs
      have hresult := congrArg Prod.fst (ih (i + 1))
      have hmore := congrArg Prod.snd (ih (i + 1))
      simp only [hresult, hmore, hs, List.nil_append]

theorem noteEach_cons {camera : String} {number : Int64} {key : Key}
    (h : Key.ofRaw camera number = .ok key) (readings : Nat → Instant) (i : Nat) (l : Layer)
    (layers : List Layer) :
    (noteEach camera number readings i (l :: layers)).1 =
      l.noted key (readings i) :: (noteEach camera number readings (i + 1) layers).1 := by
  simp only [noteEach, Table.register, Layer.table, Store.register, h, Except.map, Layer.withTable, Layer.noted,
    Layer.extended, Layer.lifetime?_of_ok h, Option.map_map, Function.comp_def]

theorem noteEach_fst {camera : String} {number : Int64} {key : Key}
    (h : Key.ofRaw camera number = .ok key) (now : Instant) (i : Nat) (layers : List Layer) :
    (noteEach camera number (fun _ => now) i layers).1 = layers.map (·.noted key now) := by
  induction layers generalizing i with
  | nil => rfl
  | cons l layers ih => rw [noteEach_cons h, ih, List.map_cons]

theorem changeBelow_length (f : Layer → Layer) (layers : List Layer) :
    changeBelow layers.length f layers = layers.map f := by
  simp [changeBelow]

theorem registerEach_of_error {r : Report P} {e : KeyError} (h : Key.ofRaw r.camera r.number = .error e)
    (s : Stack P) (readings : Nat → Instant) :
    s.registerEach readings r = (s.logs [.rejected r.camera e], .refused e) := by
  simp only [registerEach, Table.register, Store.register, Stack.table, h, Except.map, Table.entering, if_true]

theorem registerEach_of_ok {r : Report P} {key : Key} (h : Key.ofRaw r.camera r.number = .ok key)
    (s : Stack P) (readings : Nat → Instant) :
    s.registerEach readings r =
      ({ s with
          base := s.base.put (key.entry r.payload)
          layers := (noteEach r.camera r.number readings 0 s.layers).1 }.logs (creation s.base r.camera),
        .done) := by
  have hn := noteEach_of_ok h readings 0 s.layers
  simp only [registerEach, Table.register, Store.register, Stack.table, h, Except.map, Table.entering, if_true, hn,
    List.append_nil]

theorem clearEach_eq (s : Stack P) (camera : String) :
    s.clearEach camera =
      { s with
        layers := s.layers.map fun l : Layer => l.clear camera
        base := (s.base.clear camera).1 }.logs (clearing camera (s.base.clear camera).2) := by
  have hsilent : s.layers.reverse.flatMap (fun l : Layer => (l.table.clear camera).2) = [] :=
    List.flatMap_eq_nil_iff.2 fun l _ => Table.snd_clear_of_silent rfl camera
  simp only [clearEach, hsilent, List.nil_append]
  rfl

theorem attend_eq_call {s : Stack P} (ha : s.armed = none) (w : Walk) (sharing : Sharing) (port : Port P) :
    s.attend ⟨port, fun _ => s.clock⟩ = s.call w sharing s.depth port.call := by
  cases port with
  | register r =>
    cases h : Key.ofRaw r.camera r.number with
    | error e => simp only [attend, registerEach_of_error h, Port.call, call, registerAt_of_error h]
    | ok key =>
      simp only [attend, registerEach_of_ok h, Port.call, call, registerAt_of_ok h, noteEach_fst h, reported,
        depth, changeBelow_length]
  | clear camera =>
    have hf := fireAbove_of_unarmed (s := s.forgetAt s.depth camera) ha s.depth
    simp only [attend, clearEach_eq, Port.call, call, clearAt_eq, hf]
    simp only [forgetAt, depth, changeBelow_length]
  | get | getByCamera | remove | count | census => rfl

/-! ### A clock that moves while a report is made -/

/-- The turns of a report in `left` layers from the one of index `i` on, with the clock set before each reading. -/
def turns (readings : Nat → Instant) (i : Nat) : Nat → List (Act P)
  | 0 => []
  | left + 1 => [.setClock (readings i), .go 0, .go 0, .go 0] ++ turns readings (i + 1) left

theorem run_turns {r : Report P} {key : Key} (h : Key.ofRaw r.camera r.number = .ok key)
    (readings : Nat → Instant) {s : Stack P} (below above : List Layer) (hs : s.layers = below ++ above) :
    ∃ now, (⟨s, [.above below.length s.depth r]⟩ : Traffic P).run (turns readings below.length above.length) =
      ⟨{ s with
          layers := below ++ (noteEach r.camera r.number readings below.length above).1
          clock := now }, [.done .done]⟩ := by
  -- the layers below have noted the report already, and the next turns are those of the first one above
  induction above generalizing s below with
  | nil =>
    have hdepth : s.depth = below.length := by rw [depth, hs, List.append_nil]
    refine ⟨s.clock, ?_⟩
    rw [Stage.above, if_neg (by omega), noteEach, ← hs]
    rfl
  | cons l above ih =>
    have hdepth : below.length < s.depth := by
      rw [depth, hs, List.length_append, List.length_cons]
      omega
    have hl : s.layers[below.length]? = some l := by
      rw [hs, List.getElem?_append_right (Nat.le_refl _), Nat.sub_self, List.getElem?_cons_zero]
    let l' : Layer := l.noted key (readings below.length)
    let s' : Stack P := { s with layers := s.layers.set below.length l', clock := readings below.length }
    have hs' : s'.layers = (below ++ [l']) ++ above := by
      simp only [s', hs, List.set_append_right _ _ (Nat.le_refl _), Nat.sub_self, List.set_cons_zero,
        List.append_assoc, List.singleton_append]
    have hdepth' : s'.depth = s.depth := List.length_set
    obtain ⟨now, hnow⟩ := ih (s := s') (below ++ [l']) hs'
    refine ⟨now, ?_⟩
    have hfirst : (⟨s, [.above below.length s.depth r]⟩ : Traffic P).run
        [.setClock (readings below.length), .go 0, .go 0, .go 0] =
          ⟨s', [.above (below.length + 1) s.depth r]⟩ := by
      rw [Stage.above, if_pos hdepth]
      simp only [Traffic.run, List.foldl_cons, List.foldl_nil, Traffic.step, Stage.advance,
        List.getElem?_cons_zero, List.set_cons_zero, layer?, hl, Option.bind_some, Store.register, h, Except.map,
        s', l', Layer.noted, Layer.extended, Layer.lifetime?_of_ok h, Option.map_map, Function.comp_def]
    rw [List.length_cons, turns, Traffic.run, List.foldl_append]
    rw [Traffic.run] at hfirst
    rw [hfirst, noteEach_cons h]
    rw [hdepth', List.length_append, List.length_singleton, Traffic.run, List.append_assoc] at hnow
    exact hnow

/-- A report whose turns come one after the other, while the clock is set anew before each layer reads it. -/
theorem registerEach_of_turns {r : Report P} {key : Key} (h : Key.ofRaw r.camera r.number = .ok key)
    (readings : Nat → Instant) (s : Stack P) :
    ∃ now, (⟨s, [.ofRequest s.depth (.register r)]⟩ : Traffic P).run (.go 0 :: turns readings 0 s.depth) =
      ⟨{ (s.registerEach readings r).1 with clock := now }, [.done (s.registerEach readings r).2]⟩ := by
  let stored : Stack P := { s with base := s.base.put (key.entry r.payload) }.logs (creation s.base r.camera)
  have hfirst : (⟨s, [.ofRequest s.depth (.register r)]⟩ : Traffic P).step (.go 0) =
      ⟨stored, [.above 0 s.depth r]⟩ := by
    simp only [Traffic.step, Stage.ofRequest, List.getElem?_cons_zero, Stage.advance, registerAt_of_ok h,
      List.set_cons_zero]
    rfl
  obtain ⟨now, hnow⟩ := run_turns (s := stored) h readings [] s.layers rfl
  refine ⟨now, ?_⟩
  rw [Traffic.run, List.foldl_cons, hfirst, registerEach_of_ok h]
  exact hnow

/-! ### Callers at the top -/

/-- Two stacks that differ in nothing but their layers and in what their clocks show. -/
structure Alike (s s' : Stack P) : Prop where
  base : s.base = s'.base
  log : s.log = s'.log
  unarmed : s.armed = none
  unarmed' : s'.armed = none

namespace Alike

variable {s s' : Stack P}

theorem logs (h : Alike s s') {events events' : List Event} (he : events = events') :
    Alike (s.logs events) (s'.logs events') where
  base := h.base
  log := by rw [Stack.logs, Stack.logs, h.log, he]
  unarmed := h.unarmed
  unarmed' := h.unarmed'

theorem withBase (h : Alike s s') {base base' : Store P} (hb : base = base') (layers layers' : List Layer) :
    Alike { s with base, layers } { s' with base := base', layers := layers' } where
  base := hb
  log := h.log
  unarmed := h.unarmed
  unarmed' := h.unarmed'

theorem register (h : Alike s s') (readings readings' : Nat → Instant) (r : Report P) :
    (s.registerEach readings r).2 = (s'.registerEach readings' r).2 ∧
      Alike (s.registerEach readings r).1 (s'.registerEach readings' r).1 := by
  cases hk : Key.ofRaw r.camera r.number with
  | error e =>
    rw [registerEach_of_error hk, registerEach_of_error hk]
    exact ⟨rfl, h.logs rfl⟩
  | ok key =>
    rw [registerEach_of_ok hk, registerEach_of_ok hk]
    exact ⟨rfl, (h.withBase (congrArg (·.put (key.entry r.payload)) h.base) _ _).logs
      (congrArg (creation · r.camera) h.base)⟩

theorem clear (h : Alike s s') (camera : String) : Alike (s.clearEach camera) (s'.clearEach camera) := by
  simp only [clearEach_eq]
  exact (h.withBase (congrArg (fun base => (base.clear camera).1) h.base) _ _).logs
    (congrArg (fun base => clearing camera (base.clear camera).2) h.base)

theorem remove (h : Alike s s') (k k' : Nat) (camera : String) (number : Int64) :
    Alike (s.removeAt k camera number) (s'.removeAt k' camera number) := by
  rw [removeAt_eq, removeAt_eq, fireAbove_of_unarmed (s := s.dropAt k camera number) h.unarmed,
    fireAbove_of_unarmed (s := s'.dropAt k' camera number) h.unarmed']
  exact h.withBase (congrArg (·.remove camera number) h.base) _ _

theorem attend (h : Alike s s') {e e' : Errand P} (hport : e.port = e'.port) :
    (s.attend e).2 = (s'.attend e').2 ∧ Alike (s.attend e).1 (s'.attend e').1 := by
  obtain ⟨port, readings⟩ := e
  obtain ⟨port', readings'⟩ := e'
  cases hport
  cases port with
  | register r => exact h.register readings readings' r
  | clear camera => exact ⟨rfl, h.clear camera⟩
  | remove camera number => exact ⟨rfl, h.remove _ _ camera number⟩
  | get camera number => exact ⟨congrArg (fun base : Store P => Answer.entry (base.get? camera number)) h.base, h⟩
  | getByCamera camera => exact ⟨congrArg (fun base : Store P => Answer.entries (base.getByCamera camera)) h.base, h⟩
  | count camera => exact ⟨congrArg (fun base : Store P => Answer.number (base.count camera)) h.base, h⟩
  | census => exact ⟨congrArg (fun base : Store P => Answer.census base.census) h.base, h⟩

theorem attendAll (h : Alike s s') {errands errands' : List (Errand P)}
    (hports : errands.map (·.port) = errands'.map (·.port)) :
    (s.attendAll errands).2 = (s'.attendAll errands').2 ∧
      Alike (s.attendAll errands).1 (s'.attendAll errands').1 := by
  induction errands generalizing s s' errands' with
  | nil =>
    obtain rfl := List.map_eq_nil_iff.1 hports.symm
    exact ⟨rfl, h⟩
  | cons e errands ih =>
    obtain ⟨e', errands', rfl, hport, hports⟩ := List.map_eq_cons_iff.1 hports.symm
    obtain ⟨hanswer, hnext⟩ := h.attend hport.symm
    obtain ⟨hanswers, hend⟩ := ih hnext hports.symm
    simp only [Stack.attendAll]
    exact ⟨by rw [hanswer, hanswers], hend⟩

end Alike

theorem alike_ofPolicies (policies policies' : List Policy) :
    Alike (ofPolicies policies : Stack P) (ofPolicies policies') := ⟨rfl, rfl, rfl, rfl⟩

/-- The answers, the log and the stored entries are those of a store without layers, whatever the layers are
and whatever the clock shows them. After the store has accepted a report no layer refuses it or logs anything,
and the report comes to what its accesses come to while the clock is set in between. While the clock stands still
an errand is a call. -/
theorem errands_unseen (policies : List Policy) (errands : List (Errand P)) :
    let s := (ofPolicies policies : Stack P).attendAll errands
    let bare := (ofPolicies [] : Stack P).attendAll (errands.map fun e => ⟨e.port, fun _ => ⟨0⟩⟩)
    s.2 = bare.2 ∧ s.1.log = bare.1.log ∧ s.1.base = bare.1.base ∧
      (∀ (s : Stack P) (readings : Nat → Instant) (r : Report P) (base : Store P),
        s.base.register r.camera r.number r.payload = .ok base →
          (noteEach r.camera r.number readings 0 s.layers).2 = (.ok (), []) ∧
          ∃ now, (⟨s, [.ofRequest s.depth (.register r)]⟩ : Traffic P).run (.go 0 :: turns readings 0 s.depth) =
            ⟨{ (s.attend ⟨.register r, readings⟩).1 with clock := now },
              [.done (s.attend ⟨.register r, readings⟩).2]⟩) ∧
      ∀ (s : Stack P) (w : Walk) (sharing : Sharing) (port : Port P), s.armed = none →
        s.attend ⟨port, fun _ => s.clock⟩ = s.call w sharing s.depth port.call := by
  intro s bare
  have hports : errands.map (·.port) =
      (errands.map fun e => (⟨e.port, fun _ => ⟨0⟩⟩ : Errand P)).map (·.port) := by
    rw [List.map_map]
    rfl
  obtain ⟨hanswers, hend⟩ := (alike_ofPolicies policies []).attendAll hports
  refine ⟨hanswers, hend.log, hend.base, ?_, fun s w sharing port ha => attend_eq_call ha w sharing port⟩
  intro s readings r base hbase
  obtain ⟨key, hk, -⟩ := Store.register_eq_ok_iff.1 hbase
  exact ⟨noteEach_of_ok hk readings 0 s.layers, registerEach_of_turns hk readings s⟩

/-- Reports, two of which name no track, and a clearing, while the clock shows the upper layers earlier
instants than the lower ones. -/
def crookedErrands : List (Errand String) :=
  [.register ⟨"a", 1, "x"⟩, .register ⟨"", 2, "y"⟩, .register ⟨"a", -1, "z"⟩, .clear "a"].map
    fun port => ⟨port, fun i => .mk (9 - i)⟩

def crookedPolicies : List Policy := [⟨.ofSeconds 3, .ofSeconds 30⟩, ⟨.ofSeconds 1, .ofSeconds 2⟩]

theorem errands_unseen_crooked :
    ((ofPolicies crookedPolicies).attendAll crookedErrands).1.log =
        [.created ⟨"a", by decide⟩, .rejected "" .emptyCamera, .rejected "a" (.negativeTrack (-1)),
          .cleared ⟨"a", by decide⟩ 1] ∧
      ((ofPolicies crookedPolicies).attendAll crookedErrands).1.log =
        ((ofPolicies []).attendAll (crookedErrands.map fun e => ⟨e.port, fun _ => ⟨0⟩⟩)).1.log ∧
      (noteEach "a" 1 (fun i => .mk (9 - i)) 0 (ofPolicies crookedPolicies : Stack String).layers).2 =
        (.ok (), []) ∧
      (∃ now, (⟨.ofPolicies crookedPolicies, [.ofRequest 2 (.register ⟨"a", 1, "x"⟩)]⟩ : Traffic String).run
          (.go 0 :: turns (fun i => .mk (9 - i)) 0 2) =
        ⟨{ ((ofPolicies crookedPolicies).attend ⟨.register ⟨"a", 1, "x"⟩, fun i => .mk (9 - i)⟩).1 with
            clock := now }, [.done .done]⟩) ∧
      (ofPolicies crookedPolicies).attend ⟨.register ⟨"a", 1, "x"⟩, fun _ => ⟨0⟩⟩ =
        (ofPolicies crookedPolicies).call .ascending .byName 2 (.register ⟨"a", 1, "x"⟩) := by
  obtain ⟨-, hlog, -, hnote, hcall⟩ := errands_unseen crookedPolicies crookedErrands
  have hbase : (∅ : Store String).register "a" 1 "x" =
      .ok ((∅ : Store String).put (Key.entry ⟨⟨"a", by decide⟩, ⟨1⟩⟩ "x")) := by rfl
  obtain ⟨hsilent, hturns⟩ := hnote (ofPolicies crookedPolicies) (fun i => .mk (9 - i)) ⟨"a", 1, "x"⟩ _ hbase
  exact ⟨by decide +kernel, hlog, hsilent, hturns,
    hcall (ofPolicies crookedPolicies) .ascending .byName (.register ⟨"a", 1, "x"⟩) rfl⟩

end Stack

end LiveTracks
