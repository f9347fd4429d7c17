/-!
# Bounded queues

A queue that holds no more than so many items, first in, first out. Sending never waits: a queue
without room refuses the item, and so does one whose receiver is gone. A queue of capacity 0 never
has room.
-/

namespace LiveTracks

/-- Why a queue takes no item. -/
inductive SendError where
  | full
  | closed
deriving DecidableEq, Repr

/-- What comes of receiving from a queue. -/
inductive Reception (α : Type) where
  | item (x : α)
  | empty
  | closed
deriving DecidableEq, Repr

/-- A queue with the items that have not been received yet, oldest first. -/
structure Queue (α : Type) where
  capacity : Nat
  items : List α := []
  receiving : Bool := true

namespace Queue

variable {α : Type}

def send (q : Queue α) (x : α) : Except SendError (Queue α) :=
  if !q.receiving then .error .closed
  else if q.items.length < q.capacity then .ok { q with items := q.items ++ [x] }
  else .error .full

def receive (q : Queue α) : Reception α × Queue α :=
  if !q.receiving then (.closed, q)
  else
    match q.items with
    | [] => (.empty, q)
    | x :: rest => (.item x, { q with items := rest })

def drain (q : Queue α) : List α × Queue α := (q.items, { q with items := [] })

def close (q : Queue α) : Queue α := { q with items := [], receiving := false }

theorem send_eq_ok_iff {q q' : Queue α} {x : α} :
    q.send x = .ok q' ↔ q.receiving = true ∧ q.items.length < q.capacity ∧
      q' = { q with items := q.items ++ [x] } := by
  unfold send
  cases hr : q.receiving <;> by_cases hl : q.items.length < q.capacity <;>
    simp [hl, eq_comm]

theorem send_eq_closed_iff {q : Queue α} {x : α} :
    q.send x = .error .closed ↔ q.receiving = false := by
  unfold send
  cases hr : q.receiving <;> by_cases hl : q.items.length < q.capacity <;> simp [hl]

theorem send_eq_full_iff {q : Queue α} {x : α} :
    q.send x = .error .full ↔ q.receiving = true ∧ q.capacity ≤ q.items.length := by
  unfold send
  cases hr : q.receiving with
  | false => simp
  | true =>
    by_cases hl : q.items.length < q.capacity
    · simp [hl]
    · simp [hl]
      omega

theorem receive_eq_item_iff {q q' : Queue α} {x : α} :
    q.receive = (.item x, q') ↔
      q.receiving = true ∧ q.items = x :: q'.items ∧ q' = { q with items := q'.items } := by
  obtain ⟨capacity, items, receiving⟩ := q
  obtain ⟨capacity', items', receiving'⟩ := q'
  cases receiving <;> cases items <;> simp [receive]
  constructor
  · rintro ⟨rfl, rfl, rfl, rfl⟩
    simp
  · rintro ⟨⟨rfl, rfl⟩, rfl, rfl⟩
    simp

theorem length_le_capacity_of_send {q q' : Queue α} {x : α} (h : q.send x = .ok q') :
    q'.items.length ≤ q'.capacity := by
  obtain ⟨-, hl, rfl⟩ := send_eq_ok_iff.1 h
  simp
  omega

end Queue

end LiveTracks
