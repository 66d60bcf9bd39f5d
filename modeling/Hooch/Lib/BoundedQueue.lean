import Mathlib.Tactic

/-!
# Bounded first-in first-out queues and bounded channels

`BoundedQueue α` is the abstract queue: a list that never outgrows its bound. `push` is refused
when the queue is full, `pop` takes the oldest element.

`SyncChannel α` is a bounded channel seen from its senders: a queue and whether the receiver
still exists. A send is accepted, would have to wait, or finds the receiver gone.
-/

/-- A queue of at most `bound` elements, oldest first. -/
@[ext] structure BoundedQueue (α : Type*) where
  bound : ℕ
  items : List α
  length_le : items.length ≤ bound

namespace BoundedQueue

variable {α : Type*}

/-- The empty queue. -/
def empty (bound : ℕ) : BoundedQueue α := ⟨bound, [], Nat.zero_le _⟩

/-- Append an element, unless the queue is full. -/
def push (q : BoundedQueue α) (x : α) : Option (BoundedQueue α) :=
  if h : q.items.length < q.bound then
    some ⟨q.bound, q.items ++ [x], by simpa using h⟩
  else none

/-- The queue without its oldest element. -/
def tail (q : BoundedQueue α) : BoundedQueue α :=
  ⟨q.bound, q.items.tail, by have := q.length_le; simp; omega⟩

/-- Take the oldest element. -/
def pop (q : BoundedQueue α) : Option (α × BoundedQueue α) :=
  q.items.head?.map fun x => (x, q.tail)

/-- Discard all elements. -/
def clear (q : BoundedQueue α) : BoundedQueue α := empty q.bound

@[simp] theorem empty_items (n : ℕ) : (empty n : BoundedQueue α).items = [] := rfl
@[simp] theorem empty_bound (n : ℕ) : (empty n : BoundedQueue α).bound = n := rfl
@[simp] theorem tail_items (q : BoundedQueue α) : q.tail.items = q.items.tail := rfl
@[simp] theorem tail_bound (q : BoundedQueue α) : q.tail.bound = q.bound := rfl
@[simp] theorem clear_items (q : BoundedQueue α) : q.clear.items = [] := rfl
@[simp] theorem clear_bound (q : BoundedQueue α) : q.clear.bound = q.bound := rfl

theorem push_eq_some {q q' : BoundedQueue α} {x : α} (h : q.push x = some q') :
    q.items.length < q.bound ∧ q'.bound = q.bound ∧ q'.items = q.items ++ [x] := by
  unfold push at h
  split at h
  · rename_i hlt
    cases h
    exact ⟨hlt, rfl, rfl⟩
  · cases h

theorem push_eq_none_iff {q : BoundedQueue α} {x : α} :
    q.push x = none ↔ q.items.length = q.bound := by
  have := q.length_le
  unfold push
  split <;> simp <;> omega

theorem pop_eq_none_iff {q : BoundedQueue α} : q.pop = none ↔ q.items = [] := by
  simp [pop]

theorem pop_eq_some {q q' : BoundedQueue α} {x : α} (h : q.pop = some (x, q')) :
    q.items = x :: q'.items ∧ q'.bound = q.bound := by
  simp only [pop, Option.map_eq_some_iff, Prod.mk.injEq] at h
  obtain ⟨y, hy, rfl, rfl⟩ := h
  obtain ⟨ys, hys⟩ := List.head?_eq_some_iff.1 hy
  exact ⟨by simp [hys], rfl⟩

end BoundedQueue

/-- A bounded channel: what was sent and not yet received, and whether the receiver exists. -/
@[ext] structure SyncChannel (α : Type*) where
  queue : BoundedQueue α
  receiver : Bool

namespace SyncChannel

variable {α : Type*}

/-- The three things that can happen to a send. -/
inductive SendError
  /-- The receiver was dropped. -/
  | disconnected
  /-- The channel is full, so the sender has to wait. -/
  | wouldBlock
  deriving DecidableEq, Repr

/-- A new channel of the given capacity. -/
def new (bound : ℕ) : SyncChannel α := ⟨.empty bound, true⟩

/-- What was sent and not yet received, oldest first. -/
def items (c : SyncChannel α) : List α := c.queue.items

/-- Send a value, if the receiver exists and there is room. -/
def send (c : SyncChannel α) (x : α) : Except SendError (SyncChannel α) :=
  if c.receiver then
    match c.queue.push x with
    | some q => .ok { c with queue := q }
    | none => .error .wouldBlock
  else .error .disconnected

/-- Receive the oldest value, if there is one. -/
def recv (c : SyncChannel α) : Option (α × SyncChannel α) :=
  c.queue.pop.map fun p => (p.1, { c with queue := p.2 })

/-- Drop the receiver, and with it everything that was not received. -/
def close (c : SyncChannel α) : SyncChannel α := ⟨c.queue.clear, false⟩

@[simp] theorem new_items (n : ℕ) : (new n : SyncChannel α).items = [] := rfl
@[simp] theorem new_receiver (n : ℕ) : (new n : SyncChannel α).receiver = true := rfl
@[simp] theorem close_items (c : SyncChannel α) : c.close.items = [] := rfl
@[simp] theorem close_receiver (c : SyncChannel α) : c.close.receiver = false := rfl

theorem send_eq_ok {c c' : SyncChannel α} {x : α} (h : c.send x = .ok c') :
    c.receiver = true ∧ c'.receiver = true ∧ c'.queue.bound = c.queue.bound ∧
      c'.items = c.items ++ [x] := by
  unfold send at h
  split at h
  · rename_i hr
    split at h
    · rename_i q hq
      cases h
      obtain ⟨-, hb, hi⟩ := BoundedQueue.push_eq_some hq
      exact ⟨hr, hr, hb, hi⟩
    · cases h
  · cases h

/-- A send to a live receiver fails only because the channel is full. -/
theorem send_ne_error {c : SyncChannel α} (x : α) (hr : c.receiver = true)
    (hroom : c.items.length < c.queue.bound) : ∃ c', c.send x = .ok c' := by
  unfold send
  rw [if_pos hr]
  split
  · exact ⟨_, rfl⟩
  · rename_i hq
    have := BoundedQueue.push_eq_none_iff.1 hq
    unfold items at hroom
    omega

theorem recv_eq_some {c c' : SyncChannel α} {x : α} (h : c.recv = some (x, c')) :
    c.items = x :: c'.items ∧ c'.receiver = c.receiver ∧ c'.queue.bound = c.queue.bound := by
  simp only [recv, Option.map_eq_some_iff, Prod.mk.injEq, Prod.exists] at h
  obtain ⟨y, q, hq, rfl, rfl⟩ := h
  obtain ⟨hi, hb⟩ := BoundedQueue.pop_eq_some hq
  exact ⟨hi, rfl, hb⟩

theorem recv_eq_none_iff {c : SyncChannel α} : c.recv = none ↔ c.items = [] := by
  simp [recv, items, BoundedQueue.pop_eq_none_iff]

end SyncChannel
