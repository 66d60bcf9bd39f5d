import Hooch.Lib.Sequential
import Hooch.Utils.RingBuffer

/-!
# The ring buffer used by one thread

The calls of `utils/ring_buffer.rs` one after another, on the ring buffer and on the bounded queue
it stands for.

* `Call`, `Result`, `call`, `fifoCall`: the calls, what they return, and the two objects;
* `Represents`, `refines`: the ring buffer holds what the queue holds, and answers as it does;
* `sequential_fifo`: the main result, for every list of calls on a new buffer.
-/

namespace Hooch

namespace LockFreeBoundedRingBuffer

open Circular Sequential

variable {T : Type*}

/-- A call on the buffer. -/
inductive Call (T : Type*)
  | push (value : T)
  | pop
  | len
  | isEmpty

/-- What a call returns; `popped (some none)` is a pop that returned an uninitialised slot. -/
inductive Result (T : Type*)
  | pushed (result : Except String Unit)
  | popped (value : Option (Option T))
  | len (n : ℕ)
  | isEmpty (b : Bool)

/-- A call on the ring buffer. -/
def call (r : LockFreeBoundedRingBuffer T) : Call T → Result T × LockFreeBoundedRingBuffer T
  | .push value => (.pushed (r.push value).1, (r.push value).2)
  | .pop => (.popped r.pop.1, r.pop.2)
  | .len => (.len r.len, r)
  | .isEmpty => (.isEmpty r.isEmpty, r)

/-- The same call on a first-in first-out queue: a push is refused when the queue is full, a pop
takes the oldest element. -/
def fifoCall (q : BoundedQueue T) : Call T → Result T × BoundedQueue T
  | .push value =>
      match q.push value with
      | some q' => (.pushed (.ok ()), q')
      | none => (.pushed (.error "Buffer is full"), q)
  | .pop =>
      match q.pop with
      | some (value, q') => (.popped (some (some value)), q')
      | none => (.popped none, q)
  | .len => (.len q.items.length, q)
  | .isEmpty => (.isEmpty q.items.isEmpty, q)

/-- The buffer is at rest and holds what the queue holds. -/
structure Represents (r : LockFreeBoundedRingBuffer T) (q : BoundedQueue T) : Prop where
  holds : Holds r q.items
  capacity_eq : r.capacity = q.bound

variable {r : LockFreeBoundedRingBuffer T} {q : BoundedQueue T}

@[simp] theorem push_capacity (r : LockFreeBoundedRingBuffer T) (v : T) :
    (r.push v).2.capacity = r.capacity := by
  unfold push
  split <;> rfl

@[simp] theorem pop_capacity (r : LockFreeBoundedRingBuffer T) :
    r.pop.2.capacity = r.capacity := by
  unfold pop
  simp only
  split <;> rfl

theorem Represents.new {bound : ℕ} (h : bound < usizeSize) :
    Represents (new bound : LockFreeBoundedRingBuffer T) (.empty bound) :=
  ⟨Holds.new h, rfl⟩

/-- A push answers as the queue does and keeps the representation. -/
theorem Represents.push (h : Represents r q) (v : T) :
    (r.call (.push v)).1 = (fifoCall q (.push v)).1 ∧
      Represents (r.call (.push v)).2 (fifoCall q (.push v)).2 := by
  cases hq : q.push v with
  | none =>
    have hfull := BoundedQueue.push_eq_none_iff.1 hq
    have hpush := h.holds.push_full (hfull.trans h.capacity_eq.symm) v
    simp only [call, fifoCall, hq, hpush]
    exact ⟨trivial, h⟩
  | some q' =>
    obtain ⟨hlt, hbound, hitems⟩ := BoundedQueue.push_eq_some hq
    obtain ⟨hok, hholds⟩ := h.holds.push (h.capacity_eq ▸ hlt) v
    simp only [call, fifoCall, hq, hok]
    refine ⟨trivial, ?_, ?_⟩
    · rw [hitems]
      exact hholds
    · rw [push_capacity, hbound]
      exact h.capacity_eq

/-- A pop answers as the queue does and keeps the representation. -/
theorem Represents.pop (h : Represents r q) :
    (r.call .pop).1 = (fifoCall q .pop).1 ∧
      Represents (r.call .pop).2 (fifoCall q .pop).2 := by
  cases hq : q.pop with
  | none =>
    have hpop := (BoundedQueue.pop_eq_none_iff.1 hq ▸ h.holds).pop_nil
    simp only [call, fifoCall, hq, hpop]
    exact ⟨trivial, h⟩
  | some p =>
    obtain ⟨x, q'⟩ := p
    obtain ⟨hitems, hbound⟩ := BoundedQueue.pop_eq_some hq
    obtain ⟨hx, hholds⟩ := (hitems ▸ h.holds).pop
    simp only [call, fifoCall, hq, hx]
    refine ⟨trivial, hholds, ?_⟩
    rw [pop_capacity, hbound]
    exact h.capacity_eq

/-- The ring buffer refines the bounded queue. -/
theorem refines : Refines call fifoCall (Represents (T := T)) where
  result r q a h := by
    cases a with
    | push v => exact (h.push v).1
    | pop => exact h.pop.1
    | len => exact congrArg Result.len h.holds.count_eq
    | isEmpty =>
      have hcount : r.len = q.items.length := h.holds.count_eq
      simp only [call, fifoCall, isEmpty, hcount]
      cases q.items <;> simp
  next r q a h := by
    cases a with
    | push v => exact (h.push v).2
    | pop => exact h.pop.2
    | len => exact h
    | isEmpty => exact h

/-! ### What the slots hold -/

/-- The slots that hold a value are the `count` ones from `start` on, round the end. -/
theorem Holds.isSome_iff {q : List T} (h : Holds r q) {i : ℕ} (hi : i < r.capacity) :
    (r.buffer i).isSome ↔ ∃ k < r.count, i = (r.start + k) % r.capacity := by
  have hstart := Mid.start_lt_capacity h (by omega)
  have hle : q.length ≤ r.capacity := h.length_le
  have hslot : r.buffer i = q[dist r.capacity r.start i]? := h.window i hi
  rw [hslot, Option.isSome_iff_ne_none, Ne, List.getElem?_eq_none_iff, not_le, h.count_eq]
  constructor
  · intro hd
    refine ⟨dist r.capacity r.start i, hd, ?_⟩
    rw [← shift_eq_mod hstart (dist_lt hstart hi).le, shift_dist hstart hi]
  · rintro ⟨k, hk, rfl⟩
    rw [← shift_eq_mod hstart (by omega), dist_shift hstart (by omega)]
    exact hk

/-- A push that succeeds writes a slot of the buffer, and an empty one. -/
theorem Holds.push_slot {q : List T} (h : Holds r q) {v : T} (hok : (r.push v).1 = .ok ()) :
    r.end_ < r.capacity ∧ r.buffer r.end_ = none := by
  have hlen : q.length ≤ r.capacity := h.length_le
  have hne : q.length ≠ r.capacity := by
    intro hfull
    rw [h.push_full hfull v] at hok
    cases hok
  exact ⟨Mid.end_lt_capacity h (by omega), (Mid.write h (by show _ + 0 < _; omega) v).1⟩

/-- A pop that takes a slot takes a written one of the buffer. -/
theorem Holds.pop_slot {q : List T} (h : Holds r q) {x : Option T} (hx : r.pop.1 = some x) :
    r.start < r.capacity ∧ (r.buffer r.start).isSome ∧ x = r.buffer r.start := by
  cases q with
  | nil =>
    rw [h.pop_nil] at hx
    cases hx
  | cons y q =>
    have hlen : q.length + 1 ≤ r.capacity := h.length_le
    have hslot := (Mid.take h).1
    have hpop := h.pop.1
    rw [hpop, Option.some.injEq] at hx
    exact ⟨Mid.start_lt_capacity h (by omega), by simp [hslot], by rw [← hx, hslot]⟩

/-- Every list of calls on a new buffer is answered as a first-in first-out queue of that capacity
answers it. In the state after it the slots that hold a value are the `count` ones from `start`
on, a push writes only an empty slot, a pop takes only a written one, and both are slots of the
buffer. -/
theorem sequential_fifo (bound : ℕ) (hbound : bound < usizeSize) (calls : List (Call T)) :
    results call (new bound) calls = results fifoCall (.empty bound) calls ∧
      ∃ r : LockFreeBoundedRingBuffer T, r = final call (new bound) calls ∧
        r.capacity = bound ∧
        r.count = (final fifoCall (.empty bound) calls).items.length ∧
        (∀ i < bound, (r.buffer i).isSome ↔ ∃ k < r.count, i = (r.start + k) % bound) ∧
        (∀ v, (r.push v).1 = .ok () → r.end_ < bound ∧ r.buffer r.end_ = none) ∧
        ∀ x, r.pop.1 = some x →
          r.start < bound ∧ (r.buffer r.start).isSome ∧ x = r.buffer r.start := by
  have hnew : Represents (new bound : LockFreeBoundedRingBuffer T) (.empty bound) := .new hbound
  have hfinal := refines.final hnew calls
  have hcap : (final call (new bound : LockFreeBoundedRingBuffer T) calls).capacity = bound := by
    refine final_induction (I := fun r : LockFreeBoundedRingBuffer T => r.capacity = bound) ?_
      rfl calls
    intro r a hr
    cases a <;> simpa [call] using hr
  refine ⟨refines.results_eq hnew calls, _, rfl, hcap, hfinal.holds.count_eq, ?_, ?_, ?_⟩
  · intro i hi
    have hslots := hfinal.holds.isSome_iff (i := i) (by omega)
    rw [hcap] at hslots
    exact hslots
  · intro v hok
    have hslot := hfinal.holds.push_slot hok
    rw [hcap] at hslot
    exact hslot
  · intro x hx
    have hslot := hfinal.holds.pop_slot hx
    rw [hcap] at hslot
    exact hslot

/-- Three pushes on a buffer of bound 2, and the pop after them. -/
theorem sequential_fifo_two :
    results call (new 2) [.push 7, .push 8, .push 9, .pop] =
      results fifoCall (.empty 2) [.push 7, .push 8, .push 9, .pop] :=
  (sequential_fifo (T := ℕ) 2 (by decide) _).1

end LockFreeBoundedRingBuffer

end Hooch
