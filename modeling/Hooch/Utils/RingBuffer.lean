import Hooch.Lib.BoundedQueue
import Hooch.Lib.Circular

/-!
# The lock-free bounded ring buffer

`LockFreeBoundedRingBuffer` of `utils/ring_buffer.rs`: a buffer of slots that may be
uninitialised (`none`), the indices `start` and `end`, and an element counter.

* `push`, `pop`, `len`, `isEmpty`: the functions as one thread executes them alone;
* `Pc`, `Pc.exec`: the same functions cut at every atomic load, store, `fetch_add`, `fetch_sub`,
  slot write and slot take, for the interleavings;
* `push_eq_runAlone`, `pop_eq_runAlone`: the two agree when nobody else runs;
* `Mid`: the shape of a buffer holding the list `q` while at most one push and at most one pop
  are under way, with a lemma for each of their six steps; `Holds` is the shape at rest;
* `Holds.push`, `Holds.pop`: at rest the buffer is a bounded first-in first-out queue.
-/

namespace Hooch

open Circular

/-- The number of values of a `usize`. -/
def usizeSize : ℕ := 2 ^ 64

/-- `fetch_add` on an `AtomicUsize`, for operands below `usizeSize`. -/
def wrappingAdd (a b : ℕ) : ℕ := if a + b < usizeSize then a + b else a + b - usizeSize

/-- `fetch_sub` on an `AtomicUsize`, for operands below `usizeSize`. -/
def wrappingSub (a b : ℕ) : ℕ := if b ≤ a then a - b else a + usizeSize - b

theorem wrappingAdd_eq {a b : ℕ} (h : a + b < usizeSize) : wrappingAdd a b = a + b := if_pos h

theorem wrappingSub_eq {a b : ℕ} (h : b ≤ a) : wrappingSub a b = a - b := if_pos h

/-- The ring buffer. A slot of `buffer` is `none` while it is uninitialised. -/
structure LockFreeBoundedRingBuffer (T : Type*) where
  capacity : ℕ
  buffer : ℕ → Option T
  start : ℕ
  end_ : ℕ
  count : ℕ

namespace LockFreeBoundedRingBuffer

variable {T : Type*}

/-- A new buffer of the given bound, which is also the capacity of its vector. -/
def new (bound : ℕ) : LockFreeBoundedRingBuffer T where
  capacity := bound
  buffer := fun _ => none
  start := 0
  end_ := 0
  count := 0

/-- Overwrite the slot at `idx`. Dropping the old `MaybeUninit` in place does nothing. -/
def insertValue (r : LockFreeBoundedRingBuffer T) (idx : ℕ) (value : T) :
    LockFreeBoundedRingBuffer T :=
  { r with buffer := Function.update r.buffer idx (some value) }

/-- Take the slot at `idx` and leave it uninitialised; `none` is an uninitialised read. -/
def getValue (r : LockFreeBoundedRingBuffer T) (idx : ℕ) :
    Option T × LockFreeBoundedRingBuffer T :=
  (r.buffer idx, { r with buffer := Function.update r.buffer idx none })

/-- `count.fetch_add(1)`, which wraps around. -/
def fetchAddCount (r : LockFreeBoundedRingBuffer T) : LockFreeBoundedRingBuffer T :=
  { r with count := wrappingAdd r.count 1 }

/-- `count.fetch_sub(1)`, which wraps around. -/
def fetchSubCount (r : LockFreeBoundedRingBuffer T) : LockFreeBoundedRingBuffer T :=
  { r with count := wrappingSub r.count 1 }

/-- `end.store(v)`. -/
def storeEnd (r : LockFreeBoundedRingBuffer T) (v : ℕ) : LockFreeBoundedRingBuffer T :=
  { r with end_ := v }

/-- `start.store(v)`. -/
def storeStart (r : LockFreeBoundedRingBuffer T) (v : ℕ) : LockFreeBoundedRingBuffer T :=
  { r with start := v }

/-- The end index after a push at `current_end`. -/
def newEnd (r : LockFreeBoundedRingBuffer T) (current_end : ℕ) : ℕ :=
  if current_end + 1 < r.capacity then current_end + 1 else 0

/-- The start index after a pop at `current_start`. -/
def newStart (r : LockFreeBoundedRingBuffer T) (current_start : ℕ) : ℕ :=
  if current_start + 1 ≥ r.capacity then 0 else current_start + 1

def len (r : LockFreeBoundedRingBuffer T) : ℕ := r.count

def isEmpty (r : LockFreeBoundedRingBuffer T) : Bool := r.len = 0

/-- `push`, executed alone. -/
def push (r : LockFreeBoundedRingBuffer T) (value : T) :
    Except String Unit × LockFreeBoundedRingBuffer T :=
  if r.len = r.capacity then (.error "Buffer is full", r)
  else
    let current_end := r.end_
    let new_end := r.newEnd current_end
    (.ok (), ((r.insertValue current_end value).fetchAddCount).storeEnd new_end)

/-- `pop`, executed alone; `some none` is a pop that returned an uninitialised slot. -/
def pop (r : LockFreeBoundedRingBuffer T) : Option (Option T) × LockFreeBoundedRingBuffer T :=
  let current_start := r.start
  let current_end := r.end_
  if current_start = current_end ∧ r.count = 0 then (none, r)
  else
    let (value, r) := r.getValue current_start
    (some value, r.fetchSubCount.storeStart (r.newStart current_start))

/-! ### The atomic steps -/

/-- What a finished call returned; a push also says which value it was called with. -/
inductive Ret (T : Type*)
  | ok (value : T)
  | full (value : T)
  | empty
  | popped (value : Option T)

/-- What a step did to a slot, or the result it returned. -/
inductive Event (T : Type*)
  /-- A push wrote `value` into the slot `idx`, which held `old`. -/
  | wrote (idx : ℕ) (old : Option T) (value : T)
  /-- A pop took the slot `idx` and found `value` in it. -/
  | took (idx : ℕ) (value : Option T)
  | returned (ret : Ret T)

/-- Where a call stands: the atomic step it executes next, with the locals it has read. -/
inductive Pc (T : Type*)
  | pushLen (value : T)
  | pushLoadEnd (value : T)
  | pushWrite (value : T) (current_end : ℕ)
  | pushAdd (value : T) (current_end : ℕ)
  | pushStoreEnd (value : T) (current_end : ℕ)
  | popLoadStart
  | popLoadEnd (current_start : ℕ)
  | popLoadCount (current_start : ℕ)
  | popTake (current_start : ℕ)
  | popSub (current_start : ℕ) (value : Option T)
  | popStoreStart (current_start : ℕ) (value : Option T)

/-- One atomic step of a call: the buffer after it, what it did, and where the call stands now
(`none` when it has returned). -/
def Pc.exec (r : LockFreeBoundedRingBuffer T) :
    Pc T → LockFreeBoundedRingBuffer T × Option (Event T) × Option (Pc T)
  | .pushLen v =>
      if r.len = r.capacity then (r, some (.returned (.full v)), none)
      else (r, none, some (.pushLoadEnd v))
  | .pushLoadEnd v => (r, none, some (.pushWrite v r.end_))
  | .pushWrite v e => (r.insertValue e v, some (.wrote e (r.buffer e) v), some (.pushAdd v e))
  | .pushAdd v e => (r.fetchAddCount, none, some (.pushStoreEnd v e))
  | .pushStoreEnd v e => (r.storeEnd (r.newEnd e), some (.returned (.ok v)), none)
  | .popLoadStart => (r, none, some (.popLoadEnd r.start))
  | .popLoadEnd s =>
      -- `count` is only loaded when the two indices agree
      if s = r.end_ then (r, none, some (.popLoadCount s)) else (r, none, some (.popTake s))
  | .popLoadCount s =>
      if r.count = 0 then (r, some (.returned .empty), none) else (r, none, some (.popTake s))
  | .popTake s =>
      let (value, r') := r.getValue s
      (r', some (.took s value), some (.popSub s value))
  | .popSub s v => (r.fetchSubCount, none, some (.popStoreStart s v))
  | .popStoreStart s v => (r.storeStart (r.newStart s), some (.returned (.popped v)), none)

/-- Execute a call alone until it returns, for at most `fuel` steps. -/
def runAlone : ℕ → LockFreeBoundedRingBuffer T → Pc T → Option (Ret T × LockFreeBoundedRingBuffer T)
  | 0, _, _ => none
  | fuel + 1, r, pc =>
      match pc.exec r with
      | (r', _, some pc') => runAlone fuel r' pc'
      | (r', some (.returned ret), none) => some (ret, r')
      | (_, _, none) => none

/-- The result of a push as its call returns it. -/
def Ret.ofPush (value : T) : Except String Unit → Ret T
  | .ok () => .ok value
  | .error _ => .full value

/-- The result of a pop as its call returns it. -/
def Ret.ofPop : Option (Option T) → Ret T
  | none => .empty
  | some v => .popped v

/-- A push that nobody interrupts is `push`. -/
theorem push_eq_runAlone (r : LockFreeBoundedRingBuffer T) (value : T) :
    runAlone 5 r (.pushLen value) = some (Ret.ofPush value (r.push value).1, (r.push value).2) := by
  by_cases h : r.len = r.capacity
  · simp [runAlone, Pc.exec, push, h, Ret.ofPush]
  · simp [runAlone, Pc.exec, push, h, Ret.ofPush, fetchAddCount, insertValue, storeEnd, newEnd]

/-- A pop that nobody interrupts is `pop`. -/
theorem pop_eq_runAlone (r : LockFreeBoundedRingBuffer T) :
    runAlone 6 r .popLoadStart = some (Ret.ofPop r.pop.1, r.pop.2) := by
  by_cases hse : r.start = r.end_
  · by_cases hc : r.count = 0
    · simp [runAlone, Pc.exec, pop, hse, hc, Ret.ofPop]
    · simp [runAlone, Pc.exec, pop, hse, hc, Ret.ofPop, getValue, fetchSubCount, storeStart,
        newStart]
  · simp [runAlone, Pc.exec, pop, hse, Ret.ofPop, getValue, fetchSubCount, storeStart, newStart]

/-! ### The shape of the buffer -/

/-- How far the push under way has got; `rest` when it has not written its slot. -/
inductive PushPhase
  | rest
  | written
  | counted

/-- How far the pop under way has got; `rest` when it has not taken its slot. -/
inductive PopPhase
  | rest
  | taken
  | counted

/-- One element is in the buffer and not in `count`. -/
def PushPhase.uncounted : PushPhase → ℕ
  | .written => 1
  | _ => 0

/-- One element has left the buffer and is still in `count`. -/
def PopPhase.uncounted : PopPhase → ℕ
  | .taken => 1
  | _ => 0

/-- Where `end` will be once the push under way has stored it. -/
def PushPhase.endOf (capacity end_ : ℕ) : PushPhase → ℕ
  | .rest => end_
  | _ => succ capacity end_

/-- Where `start` will be once the pop under way has stored it. -/
def PopPhase.startOf (capacity start : ℕ) : PopPhase → ℕ
  | .rest => start
  | _ => succ capacity start

/-- The buffer holds `q`, with at most one push in phase `p` and at most one pop in phase `c`. -/
structure Mid (r : LockFreeBoundedRingBuffer T) (p : PushPhase) (c : PopPhase) (q : List T) :
    Prop where
  capacity_lt : r.capacity < usizeSize
  start_lt : r.start < max r.capacity 1
  end_lt : r.end_ < max r.capacity 1
  length_le : q.length + c.uncounted ≤ r.capacity
  count_eq : r.count + p.uncounted = q.length + c.uncounted
  end_eq : p.endOf r.capacity r.end_ = shift r.capacity (c.startOf r.capacity r.start) q.length
  window : Window r.capacity r.buffer (c.startOf r.capacity r.start) q

/-- The buffer is at rest and holds `q`. -/
def Holds (r : LockFreeBoundedRingBuffer T) (q : List T) : Prop := Mid r .rest .rest q

variable {r : LockFreeBoundedRingBuffer T} {p : PushPhase} {c : PopPhase} {q : List T}

theorem newStart_eq (r : LockFreeBoundedRingBuffer T) (s : ℕ) :
    r.newStart s = succ r.capacity s := by
  unfold newStart succ
  split_ifs <;> omega

theorem PopPhase.startOf_lt (c : PopPhase) (h : r.start < r.capacity) :
    c.startOf r.capacity r.start < r.capacity := by
  cases c with
  | rest => exact h
  | taken => exact succ_lt (by omega)
  | counted => exact succ_lt (by omega)

theorem Holds.new {bound : ℕ} (h : bound < usizeSize) :
    Holds (new bound : LockFreeBoundedRingBuffer T) [] where
  capacity_lt := h
  start_lt := by simp [LockFreeBoundedRingBuffer.new]
  end_lt := by simp [LockFreeBoundedRingBuffer.new]
  length_le := Nat.zero_le _
  count_eq := rfl
  end_eq := by
    simp only [PushPhase.endOf, PopPhase.startOf, LockFreeBoundedRingBuffer.new, shift]
    split_ifs <;> simp
  window := Window.nil

theorem Mid.start_lt_capacity (h : Mid r p c q) (hr : 0 < r.capacity) : r.start < r.capacity := by
  have := h.start_lt
  omega

theorem Mid.end_lt_capacity (h : Mid r p c q) (hr : 0 < r.capacity) : r.end_ < r.capacity := by
  have := h.end_lt
  omega

theorem Mid.count_le (h : Mid r p c q) : r.count ≤ r.capacity := by
  have := h.count_eq
  have := h.length_le
  omega

/-- A push writes its slot: the slot was empty, and the value is appended. -/
theorem Mid.write (h : Mid r .rest c q) (hroom : q.length + c.uncounted < r.capacity) (v : T) :
    r.buffer r.end_ = none ∧ Mid (r.insertValue r.end_ v) .written c (q ++ [v]) := by
  have hstart := c.startOf_lt (h.start_lt_capacity (by omega))
  have hend : r.end_ = shift r.capacity (c.startOf r.capacity r.start) q.length := h.end_eq
  have hlen : q.length < r.capacity := by omega
  refine ⟨by rw [hend]; exact h.window.free hstart hlen, ?_⟩
  exact
    { capacity_lt := h.capacity_lt
      start_lt := h.start_lt
      end_lt := h.end_lt
      length_le := by
        rw [List.length_append, List.length_singleton]
        simp only [insertValue]
        omega
      count_eq := by
        have := h.count_eq
        simp only [insertValue, PushPhase.uncounted, List.length_append,
          List.length_singleton] at this ⊢
        omega
      end_eq := by
        show succ r.capacity r.end_ =
          shift r.capacity (c.startOf r.capacity r.start) (q ++ [v]).length
        rw [hend, succ_shift hstart hlen, List.length_append, List.length_singleton]
      window := by
        show Window r.capacity (Function.update r.buffer r.end_ (some v))
          (c.startOf r.capacity r.start) (q ++ [v])
        rw [hend]
        exact h.window.push hstart hlen v }

/-- The push counts its element. -/
theorem Mid.add (h : Mid r .written c q) :
    r.fetchAddCount.count = r.count + 1 ∧ Mid r.fetchAddCount .counted c q := by
  have hcount : r.count + 1 = q.length + c.uncounted := h.count_eq
  have hadd : r.fetchAddCount.count = r.count + 1 := by
    have := h.length_le
    have := h.capacity_lt
    exact wrappingAdd_eq (by omega)
  refine ⟨hadd, ?_⟩
  exact
    { capacity_lt := h.capacity_lt
      start_lt := h.start_lt
      end_lt := h.end_lt
      length_le := h.length_le
      count_eq := by
        rw [hadd]
        exact hcount
      end_eq := h.end_eq
      window := h.window }

/-- The push stores `end`. -/
theorem Mid.storeEnd (h : Mid r .counted c q) :
    Mid (r.storeEnd (r.newEnd r.end_)) .rest c q where
  capacity_lt := h.capacity_lt
  start_lt := h.start_lt
  end_lt := by
    show succ r.capacity r.end_ < max r.capacity 1
    unfold succ
    split_ifs <;> omega
  length_le := h.length_le
  count_eq := h.count_eq
  end_eq := h.end_eq
  window := h.window

/-- A pop takes its slot: it finds the oldest element there. -/
theorem Mid.take {x : T} (h : Mid r p .rest (x :: q)) :
    r.buffer r.start = some x ∧ Mid (r.getValue r.start).2 p .taken q := by
  have hlen : q.length + 1 ≤ r.capacity := h.length_le
  have hstart := h.start_lt_capacity (by omega)
  refine ⟨h.window.head hstart, ?_⟩
  exact
    { capacity_lt := h.capacity_lt
      start_lt := h.start_lt
      end_lt := h.end_lt
      length_le := hlen
      count_eq := h.count_eq
      end_eq := by
        show p.endOf r.capacity r.end_ = shift r.capacity (succ r.capacity r.start) q.length
        rw [shift_succ hstart (by omega)]
        exact h.end_eq
      window := h.window.pop hstart (by omega) }

/-- The pop discounts its element. -/
theorem Mid.sub (h : Mid r p .taken q) (hpos : 0 < r.count) :
    r.fetchSubCount.count + 1 = r.count ∧ Mid r.fetchSubCount p .counted q := by
  have hcount : r.count + p.uncounted = q.length + 1 := h.count_eq
  have hsub : r.fetchSubCount.count + 1 = r.count := by
    show wrappingSub r.count 1 + 1 = r.count
    rw [wrappingSub_eq hpos]
    omega
  refine ⟨hsub, ?_⟩
  exact
    { capacity_lt := h.capacity_lt
      start_lt := h.start_lt
      end_lt := h.end_lt
      length_le := by
        have : q.length + 1 ≤ r.capacity := h.length_le
        simp only [PopPhase.uncounted, fetchSubCount]
        omega
      count_eq := by
        simp only [PopPhase.uncounted]
        omega
      end_eq := h.end_eq
      window := h.window }

/-- The pop stores `start`. -/
theorem Mid.storeStart (h : Mid r p .counted q) :
    Mid (r.storeStart (r.newStart r.start)) p .rest q := by
  rw [newStart_eq]
  exact
    { capacity_lt := h.capacity_lt
      start_lt := by
        show succ r.capacity r.start < max r.capacity 1
        unfold succ
        split_ifs <;> omega
      end_lt := h.end_lt
      length_le := h.length_le
      count_eq := h.count_eq
      end_eq := h.end_eq
      window := h.window }

/-! ### The buffer at rest -/

theorem Holds.count_eq (h : Holds r q) : r.count = q.length := Mid.count_eq h

/-- At rest the indices and the counter together tell emptiness. -/
theorem Holds.empty_iff (h : Holds r q) : (r.start = r.end_ ∧ r.count = 0) ↔ q = [] := by
  constructor
  · rintro ⟨-, hc⟩
    rw [h.count_eq] at hc
    exact List.eq_nil_of_length_eq_zero hc
  · rintro rfl
    have hend : r.end_ = shift r.capacity r.start 0 := h.end_eq
    refine ⟨?_, h.count_eq⟩
    have := h.start_lt
    unfold shift at hend
    split_ifs at hend <;> omega

/-- A push on a full buffer fails and changes nothing. -/
theorem Holds.push_full (h : Holds r q) (hfull : q.length = r.capacity) (v : T) :
    r.push v = (.error "Buffer is full", r) := by
  rw [push, if_pos]
  exact h.count_eq.trans hfull

/-- A push on a buffer with room appends. -/
theorem Holds.push (h : Holds r q) (hroom : q.length < r.capacity) (v : T) :
    (r.push v).1 = .ok () ∧ Holds (r.push v).2 (q ++ [v]) := by
  have hne : ¬ r.len = r.capacity := by
    have : r.len = q.length := h.count_eq
    omega
  rw [LockFreeBoundedRingBuffer.push, if_neg hne]
  exact ⟨rfl, (Mid.write h hroom v).2.add.2.storeEnd⟩

theorem Holds.pop_nil (h : Holds r []) : r.pop = (none, r) := by
  rw [LockFreeBoundedRingBuffer.pop]
  exact if_pos (h.empty_iff.2 rfl)

/-- A pop takes the oldest element. -/
theorem Holds.pop {x : T} (h : Holds r (x :: q)) :
    r.pop.1 = some (some x) ∧ Holds r.pop.2 q := by
  have hne : ¬ (r.start = r.end_ ∧ r.count = 0) := fun he => by cases h.empty_iff.1 he
  obtain ⟨hx, htake⟩ := Mid.take h
  have hpos : 0 < (r.getValue r.start).2.count := by
    show 0 < r.count
    rw [h.count_eq]
    exact Nat.succ_pos _
  rw [LockFreeBoundedRingBuffer.pop]
  simp only [if_neg hne]
  exact ⟨congrArg some hx, (htake.sub hpos).2.storeStart⟩

end LockFreeBoundedRingBuffer

end Hooch
