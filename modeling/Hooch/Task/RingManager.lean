import Hooch.Utils.Sequential
import Hooch.Task.Manager

/-!
# The task manager on its ring buffers

`TaskManager` of `task/manager.rs` with the queues it really has: `waiting_tasks` and
`waiting_executors` are ring buffers, and the loop of `executor_ready` pops until the ring buffer
answers that it is empty.

* `RingTaskManager`: the manager and its calls, with the two ways in which a ring buffer could
  betray it;
* `Represents`: the manager's ring buffers hold what the queues of a `TaskManager` hold;
* `Agrees`: what a call returns against what it returns on the queues.
-/

namespace Hooch

namespace LockFreeBoundedRingBuffer

open Circular

variable {T : Type*} {r : LockFreeBoundedRingBuffer T} {q q' : BoundedQueue T} {v : T}

theorem Represents.push_ok (h : r.Represents q) (hq : q.push v = some q') :
    (r.push v).1 = .ok () ∧ (r.push v).2.Represents q' := by
  obtain ⟨hresult, hrep⟩ := h.push v
  simp only [call, fifoCall, hq, Result.pushed.injEq] at hresult hrep
  exact ⟨hresult, hrep⟩

theorem Represents.push_full (h : r.Represents q) (hq : q.push v = none) :
    r.push v = (.error "Buffer is full", r) :=
  h.holds.push_full ((BoundedQueue.push_eq_none_iff.1 hq).trans h.capacity_eq.symm) v

theorem Represents.pop_some (h : r.Represents q) (hq : q.pop = some (v, q')) :
    r.pop.1 = some (some v) ∧ r.pop.2.Represents q' := by
  obtain ⟨hresult, hrep⟩ := h.pop
  simp only [call, fifoCall, hq, Result.popped.injEq] at hresult hrep
  exact ⟨hresult, hrep⟩

/-- What the buffer holds is in a slot between `start` and `end`. -/
theorem Holds.exists_slot {l : List T} (h : Holds r l) (hv : v ∈ l) :
    ∃ k < r.count, r.buffer ((r.start + k) % r.capacity) = some v := by
  obtain ⟨k, hk, rfl⟩ := List.getElem_of_mem hv
  have hle : l.length ≤ r.capacity := h.length_le
  have hstart := Mid.start_lt_capacity h (by omega)
  refine ⟨k, h.count_eq ▸ hk, ?_⟩
  have hslot : r.buffer ((r.start + k) % r.capacity) =
      l[dist r.capacity r.start ((r.start + k) % r.capacity)]? :=
    h.window _ (Nat.mod_lt _ (by omega))
  rw [hslot, ← shift_eq_mod hstart (by omega), dist_shift hstart (by omega)]
  exact List.getElem?_eq_getElem hk

theorem Represents.pop_none (h : r.Represents q) (hq : q.pop = none) : r.pop = (none, r) :=
  (BoundedQueue.pop_eq_none_iff.1 hq ▸ h.holds).pop_nil

end LockFreeBoundedRingBuffer

/-- What keeps a call from returning. -/
inductive RingFault
  | fault (f : Fault)
  /-- A pop returned a slot that is uninitialised. -/
  | uninitialised
  /-- The loop of `executor_ready` has not ended in the rounds it was given. -/
  | unfinished
  deriving DecidableEq

structure RingTaskManager (ι : Type*) where
  waitingTasks : LockFreeBoundedRingBuffer ι
  waitingExecutors : LockFreeBoundedRingBuffer ExecutorId
  executors : ExecutorId → Option (SyncChannel (ExecutorTask ι))

namespace RingTaskManager

variable {ι : Type*}

/-- The manager that `get` creates. -/
def new : RingTaskManager ι where
  waitingTasks := .new TaskManager.queueBound
  waitingExecutors := .new TaskManager.queueBound
  executors := fun _ => none

/-- `register_executor`. If the push fails, the sender has been inserted all the same. -/
def registerExecutor (tm : RingTaskManager ι) (executor_id : ExecutorId)
    (executor_sender : SyncChannel (ExecutorTask ι)) :
    Except (RingFault × RingTaskManager ι) (RingTaskManager ι) :=
  let tm :=
    { tm with executors := Function.update tm.executors executor_id (some executor_sender) }
  match tm.waitingExecutors.push executor_id with
  | (.error _, _) => .error (.fault .executorsFull, tm)
  | (.ok _, q) => .ok { tm with waitingExecutors := q }

/-- `executors.get(&executor_id).unwrap().send(ExecutorTask::Task(task)).unwrap()`. -/
def sendTask (tm : RingTaskManager ι) (executor_id : ExecutorId) (task : ι) :
    Except RingFault (RingTaskManager ι) :=
  match tm.executors executor_id with
  | none => .error (.fault .noExecutor)
  | some sender =>
      match sender.send (.task task) with
      | .ok sender' =>
          .ok { tm with executors := Function.update tm.executors executor_id (some sender') }
      | .error .disconnected => .error (.fault .disconnected)
      | .error .wouldBlock => .error (.fault .blocked)

/-- The `while let` loop of `executor_ready`, for at most so many rounds: the aborted tasks, the
first live one, and the ring buffer after it. -/
def popLive (has_aborted : ι → Bool) : ℕ → LockFreeBoundedRingBuffer ι →
    Except RingFault (List ι × Option ι × LockFreeBoundedRingBuffer ι)
  | 0, _ => .error .unfinished
  | rounds + 1, r =>
      match r.pop with
      | (none, r') => .ok ([], none, r')
      | (some none, _) => .error .uninitialised
      | (some (some task), r') =>
          if has_aborted task then
            match popLive has_aborted rounds r' with
            | .ok (skipped, live, rest) => .ok (task :: skipped, live, rest)
            | .error f => .error f
          else .ok ([], some task, r')

/-- `executor_ready`, with one round more than there are tasks. -/
def executorReady (has_aborted : ι → Bool) (tm : RingTaskManager ι) (executor_id : ExecutorId) :
    Except RingFault (RingTaskManager ι × List (Action ι)) :=
  match popLive has_aborted (tm.waitingTasks.len + 1) tm.waitingTasks with
  | .error f => .error f
  | .ok (skipped, some task, rest) =>
      match sendTask { tm with waitingTasks := rest } executor_id task with
      | .ok tm' => .ok (tm', skipped.map .skipped ++ [.sent executor_id task])
      | .error f => .error f
  | .ok (skipped, none, rest) =>
      match tm.waitingExecutors.push executor_id with
      | (.ok _, q) =>
          .ok ({ tm with waitingTasks := rest, waitingExecutors := q },
            skipped.map .skipped ++ [.parked executor_id])
      | (.error _, _) => .error (.fault .executorsFull)

/-- `register_or_execute_non_blocking_task`. -/
def registerOrExecute (has_aborted : ι → Bool) (tm : RingTaskManager ι) (task : ι) :
    Except RingFault (RingTaskManager ι × List (Action ι)) :=
  if has_aborted task then .ok (tm, [.skipped task])
  else
    match tm.waitingExecutors.pop with
    | (some none, _) => .error .uninitialised
    | (some (some exec), q) =>
        match sendTask { tm with waitingExecutors := q } exec task with
        | .ok tm' => .ok (tm', [.sent exec task])
        | .error f => .error f
    | (none, q) =>
        match tm.waitingTasks.push task with
        | (.ok _, q') =>
            .ok ({ tm with waitingTasks := q', waitingExecutors := q }, [.queued task])
        | (.error _, _) => .error (.fault .tasksFull)

/-- `ready_queue.recv()`, at the other end of an executor's channel. -/
def recvTask (tm : RingTaskManager ι) (executor_id : ExecutorId) :
    Option (ExecutorTask ι × RingTaskManager ι) :=
  match tm.executors executor_id with
  | none => none
  | some ch =>
      ch.recv.map fun p =>
        (p.1, { tm with executors := Function.update tm.executors executor_id (some p.2) })

/-- The drop of `ready_queue`, when the executor's thread ends. -/
def closeChannel (tm : RingTaskManager ι) (executor_id : ExecutorId) : RingTaskManager ι :=
  { tm with
    executors := Function.update tm.executors executor_id
      ((tm.executors executor_id).map SyncChannel.close) }

/-- The loop of `build` over the executor ids. -/
def registerExecutors :
    List ExecutorId → RingTaskManager ι → Except (RingFault × RingTaskManager ι) (RingTaskManager ι)
  | [], tm => .ok tm
  | i :: is, tm =>
      match tm.registerExecutor i (.new TaskManager.maxQueuedTasks) with
      | .ok tm' => registerExecutors is tm'
      | .error f => .error f

/-! ### Against the queues -/

/-- The ring buffers hold what the queues hold. -/
structure Represents (r : RingTaskManager ι) (tm : TaskManager ι) : Prop where
  tasks : r.waitingTasks.Represents tm.waitingTasks
  execs : r.waitingExecutors.Represents tm.waitingExecutors
  executors : r.executors = tm.executors

/-- A call returns what it returns on the queues, or fails as it does there. -/
inductive Agrees {α β : Type*} (R : α → β → Prop) : Except RingFault α → Except Fault β → Prop
  | ok {a : α} {b : β} (h : R a b) : Agrees R (.ok a) (.ok b)
  | error {f : Fault} : Agrees R (.error (.fault f)) (.error f)

/-- The managers, and the same log. -/
def RepresentsLog (p : RingTaskManager ι × List (Action ι)) (q : TaskManager ι × List (Action ι)) :
    Prop := Represents p.1 q.1 ∧ p.2 = q.2

/-- A registration returns what it returns on the queues, or fails and leaves what it leaves
there. -/
inductive Registered : Except (RingFault × RingTaskManager ι) (RingTaskManager ι) →
    Except (Fault × TaskManager ι) (TaskManager ι) → Prop
  | ok {r : RingTaskManager ι} {tm : TaskManager ι} (h : Represents r tm) :
      Registered (.ok r) (.ok tm)
  | error {r : RingTaskManager ι} {tm : TaskManager ι} {f : Fault} (h : Represents r tm) :
      Registered (.error (.fault f, r)) (.error (f, tm))

/-- A send that is the last thing a call does. -/
theorem Agrees.withLog {x : Except RingFault (RingTaskManager ι)} {y : Except Fault (TaskManager ι)}
    (log : List (Action ι)) : Agrees Represents x y → Agrees RepresentsLog
      (match x with | .ok tm' => .ok (tm', log) | .error f => .error f)
      (match y with | .ok tm' => .ok (tm', log) | .error f => .error f)
  | .ok h => .ok ⟨h, rfl⟩
  | .error => .error

variable {r : RingTaskManager ι} {tm : TaskManager ι}

theorem Represents.new : Represents (new : RingTaskManager ι) .new :=
  ⟨.new (by decide), .new (by decide), rfl⟩

theorem Represents.registerExecutor (h : Represents r tm) (e : ExecutorId)
    (sender : SyncChannel (ExecutorTask ι)) :
    Registered (r.registerExecutor e sender) (tm.registerExecutor e sender) := by
  simp only [RingTaskManager.registerExecutor, TaskManager.registerExecutor]
  cases hq : tm.waitingExecutors.push e with
  | none =>
    rw [h.execs.push_full hq]
    exact .error ⟨h.tasks, h.execs, by rw [h.executors]⟩
  | some q =>
    obtain ⟨hok, hrep⟩ := h.execs.push_ok hq
    rw [show r.waitingExecutors.push e = (.ok (), (r.waitingExecutors.push e).2) from
      Prod.ext hok rfl]
    exact .ok ⟨h.tasks, hrep, by rw [h.executors]⟩

theorem Represents.registerExecutors (h : Represents r tm) (ids : List ExecutorId) :
    Registered (RingTaskManager.registerExecutors ids r)
      (TaskManager.registerExecutors ids tm) := by
  induction ids generalizing r tm with
  | nil => exact .ok h
  | cons i is ih =>
    have hreg := h.registerExecutor i (.new TaskManager.maxQueuedTasks)
    unfold RingTaskManager.registerExecutors TaskManager.registerExecutors
    revert hreg
    generalize r.registerExecutor i (.new TaskManager.maxQueuedTasks) = x
    generalize tm.registerExecutor i (.new TaskManager.maxQueuedTasks) = y
    rintro (hreg | hreg)
    · exact ih hreg
    · exact .error hreg

theorem Represents.sendTask (h : Represents r tm) (e : ExecutorId) (t : ι) :
    Agrees Represents (r.sendTask e t) (tm.sendTask e t) := by
  unfold RingTaskManager.sendTask TaskManager.sendTask
  rw [h.executors]
  cases hch : tm.executors e with
  | none => exact .error
  | some ch =>
    simp only
    cases hsend : ch.send (.task t) with
    | ok ch' => exact .ok ⟨h.tasks, h.execs, rfl⟩
    | error f => cases f <;> exact .error

/-- With one round more than there are tasks the loop ends, as it does on the queue. -/
theorem popLive_eq (has_aborted : ι → Bool) {r : LockFreeBoundedRingBuffer ι} {q : BoundedQueue ι}
    (h : r.Represents q) : ∃ rest, rest.Represents
        (TaskManager.popLive has_aborted q.items.length q).rest ∧
      popLive has_aborted (q.items.length + 1) r =
        .ok ((TaskManager.popLive has_aborted q.items.length q).skipped,
          (TaskManager.popLive has_aborted q.items.length q).task, rest) := by
  obtain ⟨n, hn⟩ : ∃ n, q.items.length = n := ⟨_, rfl⟩
  rw [hn]
  induction n generalizing q r with
  | zero =>
    have hq : q.pop = none := BoundedQueue.pop_eq_none_iff.2 (List.eq_nil_of_length_eq_zero hn)
    exact ⟨r, h, by simp only [popLive, TaskManager.popLive, h.pop_none hq]⟩
  | succ n ih =>
    cases hq : q.pop with
    | none =>
      rw [BoundedQueue.pop_eq_none_iff.1 hq] at hn
      cases hn
    | some p =>
      obtain ⟨t, q'⟩ := p
      obtain ⟨hitems, -⟩ := BoundedQueue.pop_eq_some hq
      obtain ⟨hpop, hrep⟩ := h.pop_some hq
      have hpop' : r.pop = (some (some t), r.pop.2) := Prod.ext hpop rfl
      obtain ⟨rest, hrest, heq⟩ := ih hrep (by simpa [hitems] using hn)
      rw [popLive, hpop', TaskManager.popLive, hq]
      by_cases ha : has_aborted t = true
      · simp only [if_pos ha, heq]
        exact ⟨rest, hrest, rfl⟩
      · simp only [if_neg ha]
        exact ⟨r.pop.2, hrep, rfl⟩

theorem Represents.executorReady (h : Represents r tm) (has_aborted : ι → Bool) (e : ExecutorId) :
    Agrees RepresentsLog (r.executorReady has_aborted e) (tm.executorReady has_aborted e) := by
  obtain ⟨rest, hrest, heq⟩ := popLive_eq has_aborted h.tasks
  have hlen : r.waitingTasks.len = tm.waitingTasks.items.length := h.tasks.holds.count_eq
  unfold RingTaskManager.executorReady TaskManager.executorReady
  rw [hlen, heq]
  clear heq
  revert hrest
  generalize TaskManager.popLive has_aborted tm.waitingTasks.items.length tm.waitingTasks = p
  obtain ⟨skipped, live, q⟩ := p
  intro hrest
  cases live with
  | some t =>
    have hpopped : Represents { r with waitingTasks := rest } { tm with waitingTasks := q } :=
      ⟨hrest, h.execs, h.executors⟩
    exact .withLog _ (hpopped.sendTask e t)
  | none =>
    simp only
    cases hq : tm.waitingExecutors.push e with
    | none =>
      rw [h.execs.push_full hq]
      exact .error
    | some q' =>
      obtain ⟨hok, hrep⟩ := h.execs.push_ok hq
      rw [show r.waitingExecutors.push e = (.ok (), (r.waitingExecutors.push e).2) from
        Prod.ext hok rfl]
      exact .ok ⟨⟨hrest, hrep, h.executors⟩, rfl⟩

theorem Represents.registerOrExecute (h : Represents r tm) (has_aborted : ι → Bool) (t : ι) :
    Agrees RepresentsLog (r.registerOrExecute has_aborted t)
      (tm.registerOrExecute has_aborted t) := by
  unfold RingTaskManager.registerOrExecute TaskManager.registerOrExecute
  by_cases ha : has_aborted t = true
  · rw [if_pos ha, if_pos ha]
    exact .ok ⟨h, rfl⟩
  rw [if_neg ha, if_neg ha]
  cases hpop : tm.waitingExecutors.pop with
  | some p =>
    obtain ⟨exec, q⟩ := p
    obtain ⟨hslot, hrep⟩ := h.execs.pop_some hpop
    rw [show r.waitingExecutors.pop = (some (some exec), r.waitingExecutors.pop.2) from
      Prod.ext hslot rfl]
    have htaken : Represents { r with waitingExecutors := r.waitingExecutors.pop.2 }
        { tm with waitingExecutors := q } := ⟨h.tasks, hrep, h.executors⟩
    exact .withLog _ (htaken.sendTask exec t)
  | none =>
    rw [h.execs.pop_none hpop]
    simp only
    cases hq : tm.waitingTasks.push t with
    | none =>
      rw [h.tasks.push_full hq]
      exact .error
    | some q =>
      obtain ⟨hok, hrep⟩ := h.tasks.push_ok hq
      rw [show r.waitingTasks.push t = (.ok (), (r.waitingTasks.push t).2) from Prod.ext hok rfl]
      exact .ok ⟨⟨hrep, h.execs, h.executors⟩, rfl⟩

theorem Represents.recvTask (h : Represents r tm) (e : ExecutorId) :
    Option.Rel (fun p q => p.1 = q.1 ∧ Represents p.2 q.2) (r.recvTask e) (tm.recvTask e) := by
  unfold RingTaskManager.recvTask TaskManager.recvTask
  rw [h.executors]
  cases tm.executors e with
  | none => exact .none
  | some ch =>
    simp only
    cases ch.recv with
    | none => exact .none
    | some p => exact .some ⟨rfl, h.tasks, h.execs, rfl⟩

theorem Represents.closeChannel (h : Represents r tm) (e : ExecutorId) :
    Represents (r.closeChannel e) (tm.closeChannel e) :=
  ⟨h.tasks, h.execs, by rw [RingTaskManager.closeChannel, TaskManager.closeChannel, h.executors]⟩

end RingTaskManager

end Hooch
