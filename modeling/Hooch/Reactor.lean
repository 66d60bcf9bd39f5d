import Hooch.Lib.BoundedQueue

/-!
# The reactor

`Reactor` of `reactor.rs`: the buffer of pending tags, the wakers stored under tags, the statuses
of the I/O tokens, and the loop of the reactor thread. Each call is one atomic step: the tables are
behind mutexes, and the tag buffer is a bounded first-in first-out queue, which is what the ring
buffer is when its calls do not overlap.

The type `W` of wakers is a parameter; `will_wake` is equality on it.

* `storeWakerChannel`, `registerReactorTag`, `removeTag`, `mioWake`: the tag side;
* `statusStore`, `hasTokenProgressed`, `poll`, `event`: the status side;
* `threadStep`: the tag part of the loop of `run`, cut into taking a wake, popping a tag and
  looking it up; `ThreadNext` says what such a step does, one case each.
-/

namespace Hooch

/-- `ReactorTag`. -/
abbrev ReactorTag := ℕ

/-- `mio::Token`. -/
abbrev Token := ℕ

/-- `Status`. -/
inductive Status (W : Type*)
  | awaited (waker : W)
  | happened
  deriving DecidableEq

/-- `Poll`, what a future returns when it is polled. -/
inductive Poll (α : Type*)
  | pending
  | ready (value : α)
  deriving DecidableEq

/-- The poll is to be repeated. -/
def Poll.isPending {α : Type*} : Poll α → Bool
  | .pending => true
  | .ready _ => false

/-- Where the reactor thread stands in `run`. -/
inductive ReactorPc
  /-- In `poll.poll`, waiting for an event. -/
  | polling
  /-- Between two rounds of the `while let` that empties the tag buffer. -/
  | draining
  /-- A tag was popped and is to be looked up. -/
  | popped (tag : ReactorTag)
  deriving DecidableEq

/-- The reactor. `wakePending` is the event of the mio waker: wakes that were requested since the
thread took the last one count as one. -/
structure Reactor (W : Type*) where
  reactorTagBuffer : BoundedQueue ReactorTag
  reactorTags : ReactorTag → Option W
  statuses : Token → Option (Status W)
  wakePending : Bool
  pc : ReactorPc

namespace Reactor

variable {W : Type*}

/-- The bound of the tag buffer. -/
def tagBound : ℕ := 1024 * 1024

/-- The reactor that `get` creates. -/
def new : Reactor W where
  reactorTagBuffer := .empty tagBound
  reactorTags := fun _ => none
  statuses := fun _ => none
  wakePending := false
  pc := .polling

/-- `store_waker_channel`. -/
def storeWakerChannel (r : Reactor W) (reactor_tag : ReactorTag) (waker : W) : Reactor W :=
  { r with reactorTags := Function.update r.reactorTags reactor_tag (some waker) }

/-- `register_reactor_tag`; `none` is the failing `unwrap` on a full buffer. -/
def registerReactorTag (r : Reactor W) (tag : ReactorTag) : Option (Reactor W) :=
  (r.reactorTagBuffer.push tag).map fun q => { r with reactorTagBuffer := q }

/-- `remove_tag`. -/
def removeTag (r : Reactor W) (reactor_tag : ReactorTag) : Reactor W :=
  { r with reactorTags := Function.update r.reactorTags reactor_tag none }

/-- `status_store`. -/
def statusStore (r : Reactor W) (token : Token) (waker : W) : Reactor W :=
  { r with statuses := Function.update r.statuses token (some (.awaited waker)) }

/-- `has_token_progressed`. -/
def hasTokenProgressed (r : Reactor W) (token : Token) : Bool :=
  match r.statuses token with
  | some .happened => true
  | _ => false

/-- `mio_waker().wake()`. -/
def mioWake (r : Reactor W) : Reactor W := { r with wakePending := true }

/-- `Reactor::poll`. A `Ready` of it is never an error. -/
def poll [DecidableEq W] (r : Reactor W) (token : Token) (waker : W) : Poll Unit × Reactor W :=
  match r.statuses token with
  | none => (.pending, { r with
      statuses := Function.update r.statuses token (some (.awaited waker)) })
  | some (.awaited old) =>
      -- the entry is replaced only when the wakers differ
      if old ≠ waker then
        (.pending, { r with
          statuses := Function.update r.statuses token (some (.awaited waker)) })
      else (.pending, r)
  | some .happened =>
      (.ready (), { r with statuses := Function.update r.statuses token none })

/-- The reactor thread handles an event of an I/O token: the waker it wakes, and the reactor after
it. -/
def event (r : Reactor W) (token : Token) : Option W × Reactor W :=
  let previous := r.statuses token
  (match previous with
    | some (.awaited waker) => some waker
    | _ => none,
    { r with statuses := Function.update r.statuses token (some .happened) })

/-- One step of the tag part of `run`: the waker that was woken, if any, and the reactor after it.
The thread is stuck only in `poll.poll` with no wake pending. -/
def threadStep (r : Reactor W) : Option (Option W × Reactor W) :=
  match r.pc with
  | .polling =>
      if r.wakePending then some (none, { r with wakePending := false, pc := .draining })
      else none
  | .draining =>
      match r.reactorTagBuffer.pop with
      | some (tag, q) => some (none, { r with reactorTagBuffer := q, pc := .popped tag })
      | none => some (none, { r with pc := .polling })
  | .popped tag => some (r.reactorTags tag, { r with pc := .draining })

/-- The thread has handled every wake requested so far. -/
def Idle (r : Reactor W) : Prop := r.pc = .polling ∧ r.wakePending = false

instance (r : Reactor W) : Decidable r.Idle := inferInstanceAs (Decidable (_ ∧ _))

/-! ### What a step does -/

variable {r r' : Reactor W}

theorem registerReactorTag_eq_some {tag : ReactorTag} (h : r.registerReactorTag tag = some r') :
    ∃ q, r' = { r with reactorTagBuffer := q } ∧
      r.reactorTagBuffer.items.length < r.reactorTagBuffer.bound ∧
      q.bound = r.reactorTagBuffer.bound ∧ q.items = r.reactorTagBuffer.items ++ [tag] := by
  simp only [registerReactorTag, Option.map_eq_some_iff] at h
  obtain ⟨q, hq, rfl⟩ := h
  exact ⟨q, rfl, BoundedQueue.push_eq_some hq⟩

theorem registerReactorTag_eq_none {tag : ReactorTag} :
    r.registerReactorTag tag = none ↔
      r.reactorTagBuffer.items.length = r.reactorTagBuffer.bound := by
  rw [registerReactorTag, Option.map_eq_none_iff, BoundedQueue.push_eq_none_iff]

section Status

variable [DecidableEq W] {token : Token} {waker : W}

/-- A poll that returns `Pending` leaves its waker in the status. -/
theorem poll_eq_pending (h : r.poll token waker = (.pending, r')) :
    r.statuses token ≠ some .happened ∧ r'.statuses token = some (.awaited waker) := by
  unfold poll at h
  split at h
  · rename_i hs
    cases h
    exact ⟨by simp [hs], by simp⟩
  · rename_i old hs
    split at h
    · cases h
      exact ⟨by simp [hs], by simp⟩
    · rename_i hsame
      cases h
      rw [not_not] at hsame
      exact ⟨by simp [hs], by rw [hs, hsame]⟩
  · cases h

/-- A poll that returns `Ready` removes the status. -/
theorem poll_eq_ready (h : r.poll token waker = (.ready (), r')) :
    r.statuses token = some .happened ∧ r'.statuses token = none := by
  unfold poll at h
  split at h
  · cases h
  · split at h <;> cases h
  · rename_i hs
    cases h
    exact ⟨hs, by simp⟩

end Status

/-- The steps of the tag part of the loop. -/
inductive ThreadNext (r : Reactor W) : Option W → Reactor W → Prop
  /-- `poll.poll` returns with the event of the mio waker. -/
  | take (hpc : r.pc = .polling) (hw : r.wakePending = true) :
      ThreadNext r none { r with wakePending := false, pc := .draining }
  | pop {tag : ReactorTag} {q : BoundedQueue ReactorTag} (hpc : r.pc = .draining)
      (hitems : r.reactorTagBuffer.items = tag :: q.items)
      (hbound : q.bound = r.reactorTagBuffer.bound) :
      ThreadNext r none { r with reactorTagBuffer := q, pc := .popped tag }
  /-- The buffer is empty, so the thread polls again. -/
  | emptied (hpc : r.pc = .draining) (hitems : r.reactorTagBuffer.items = []) :
      ThreadNext r none { r with pc := .polling }
  | found {tag : ReactorTag} {w : W} (hpc : r.pc = .popped tag)
      (hw : r.reactorTags tag = some w) : ThreadNext r (some w) { r with pc := .draining }
  /-- No waker is stored under the tag. -/
  | missed {tag : ReactorTag} (hpc : r.pc = .popped tag) (hw : r.reactorTags tag = none) :
      ThreadNext r none { r with pc := .draining }

theorem threadNext_of_step {w : Option W} (h : r.threadStep = some (w, r')) :
    ThreadNext r w r' := by
  unfold threadStep at h
  split at h
  · rename_i hpc
    split at h
    · rename_i hw
      cases h
      exact .take hpc hw
    · cases h
  · rename_i hpc
    split at h
    · rename_i tag q hpop
      cases h
      obtain ⟨hitems, hbound⟩ := BoundedQueue.pop_eq_some hpop
      exact .pop hpc hitems hbound
    · rename_i hpop
      cases h
      exact .emptied hpc (BoundedQueue.pop_eq_none_iff.1 hpop)
  · rename_i tag hpc
    cases h
    cases hw : r.reactorTags tag with
    | some w => exact .found hpc hw
    | none => exact .missed hpc hw

/-- The thread only reads the wakers. -/
theorem ThreadNext.reactorTags {w : Option W} (h : ThreadNext r w r') :
    r'.reactorTags = r.reactorTags := by
  cases h <;> rfl

end Reactor

end Hooch
