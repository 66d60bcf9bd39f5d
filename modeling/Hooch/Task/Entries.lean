import Hooch.Lib.Census
import Hooch.Lib.Table
import Hooch.Task.Manager

/-!
# The entries of the task manager

How often a task is in the queue of the task manager and in the channels of its executors, and what
each call does to that. A call that takes a task in either lets it go or has one entry more; what
leaves the queue is let go or goes to a channel.

* `entries`: the count, over the executors below a bound;
* `Registration.entries`, `Readying.entries`, `entries_recvTask`, `entries_closeChannel`: the calls
  that return; `entries_unwound`, `entries_popLive`: the calls that panic;
* `registers`: when a registration does not panic.
-/

namespace Hooch

open Census Table

/-- A count, with the head apart. -/
theorem count_head {α : Type*} [DecidableEq α] (a : α) (l : List α) (b : α) :
    (a :: l).count b = [a].count b + l.count b := by
  rw [← List.count_append]
  rfl

theorem count_task {τ : Type*} [DecidableEq τ] (t u : τ) :
    [ExecutorTask.task t].count (.task u) = [t].count u := by
  simp [List.count_singleton]

namespace TaskManager

variable {τ : Type*}

/-- The tasks that a call has let go because their abort flag was set. -/
def skippedTasks (log : List (Action τ)) : List τ :=
  log.filterMap fun
    | .skipped t => some t
    | _ => none

/-- The tasks among the messages of a channel. -/
def tasksOf (messages : List (ExecutorTask τ)) : List τ :=
  messages.filterMap fun
    | .task t => some t
    | .finished => none

/-- What a call of `register_or_execute_non_blocking_task` that panics leaves: the executor that
was popped is gone. -/
def unwound (tm : TaskManager τ) : TaskManager τ :=
  match tm.waitingExecutors.pop with
  | some (_, q) => { tm with waitingExecutors := q }
  | none => tm

variable [DecidableEq τ]

theorem count_tasksOf (messages : List (ExecutorTask τ)) (t : τ) :
    (tasksOf messages).count t = messages.count (.task t) := by
  induction messages with
  | nil => rfl
  | cons x messages ih =>
    cases x with
    | task u =>
      show (u :: tasksOf messages).count t = _
      simp [List.count_cons, ih]
    | finished =>
      show (tasksOf messages).count t = _
      simp [ih]

/-- How often a task is in the channels of the first `workers` executors. -/
def channelEntries (inbox : ExecutorId → List (ExecutorTask τ)) (workers : ℕ) (t : τ) : ℕ :=
  ∑ e ∈ Finset.range workers, (inbox e).count (.task t)

/-- How often a task is in the queue and in the channels. -/
def entries (tm : TaskManager τ) (workers : ℕ) (t : τ) : ℕ :=
  tm.waitingTasks.items.count t + channelEntries tm.inbox workers t

variable {tm tm' : TaskManager τ} {workers : ℕ} {has_aborted : τ → Bool} {log : List (Action τ)}
  {e : ExecutorId} {t u : τ}

/-- The queues are replaced by other ones. -/
theorem entries_queues (tm : TaskManager τ) (workers : ℕ) (w : BoundedQueue τ)
    (q : BoundedQueue ExecutorId) (t : τ) :
    entries ⟨w, q, tm.executors⟩ workers t + tm.waitingTasks.items.count t =
      tm.entries workers t + w.items.count t := by
  simp only [entries, inbox_queues]
  omega

/-- A channel is replaced as well. -/
theorem entries_update (h : Below workers tm.executors) {ch : SyncChannel (ExecutorTask τ)}
    (he : tm.executors e = some ch) (w : BoundedQueue τ) (q : BoundedQueue ExecutorId)
    (ch' : SyncChannel (ExecutorTask τ)) (t : τ) :
    entries ⟨w, q, Function.update tm.executors e (some ch')⟩ workers t +
        tm.waitingTasks.items.count t + ch.items.count (.task t) =
      tm.entries workers t + w.items.count t + ch'.items.count (.task t) := by
  have hsum : channelEntries (Function.update tm.inbox e ch'.items) workers t +
        (tm.inbox e).count (.task t) =
      channelEntries tm.inbox workers t + ch'.items.count (.task t) :=
    sum_update (List.count (ExecutorTask.task t)) tm.inbox (Finset.mem_range.2 (h.lt he)) ch'.items
  rw [inbox_eq he] at hsum
  simp only [entries, inbox_setChannel]
  omega

/-- A registration takes one `Arc`, and lets it go or keeps it. -/
theorem Registration.entries (h : Below workers tm.executors)
    (hreg : Registration has_aborted tm t tm' log) :
    Below workers tm'.executors ∧ ∀ u, tm'.entries workers u + (skippedTasks log).count u =
      tm.entries workers u + [t].count u := by
  cases hreg with
  | skipped => exact ⟨h, fun u => rfl⟩
  | sent _ exec q ch ch' hpop hch hsend =>
    refine ⟨h.update hch ch', fun u => ?_⟩
    have hentries := entries_update h hch tm.waitingTasks q ch' u
    rw [(SyncChannel.send_eq_ok hsend).2.2.2, List.count_append, count_task] at hentries
    simp only [skippedTasks, List.filterMap_cons_none, List.filterMap_nil, List.count_nil]
    omega
  | queued _ q hnone hpush =>
    refine ⟨h, fun u => ?_⟩
    have hentries := entries_queues tm workers q tm.waitingExecutors u
    rw [(BoundedQueue.push_eq_some hpush).2.2, List.count_append] at hentries
    simp only [skippedTasks, List.filterMap_cons_none, List.filterMap_nil, List.count_nil]
    omega

theorem entries_unwound (h : Below workers tm.executors) :
    Below workers tm.unwound.executors ∧
      ∀ u, tm.unwound.entries workers u = tm.entries workers u := by
  unfold unwound
  split
  · exact ⟨h, fun _ => rfl⟩
  · exact ⟨h, fun _ => rfl⟩

omit [DecidableEq τ] in
theorem skippedTasks_append (l : List τ) (log : List (Action τ)) :
    skippedTasks (l.map .skipped ++ log) = l ++ skippedTasks log := by
  induction l with
  | nil => rfl
  | cons t l ih => exact congrArg (t :: ·) ih

/-- `executor_ready` lets go what it skips, and what it takes from the queue goes to the channel. -/
theorem Readying.entries (h : Below workers tm.executors)
    (hready : Readying has_aborted tm e tm' log) :
    Below workers tm'.executors ∧ ∀ u, tm'.entries workers u + (skippedTasks log).count u =
      tm.entries workers u := by
  cases hready with
  | sent skipped t q ch ch' hskipped ha hitems hbound hch hsend =>
    refine ⟨h.update hch ch', fun u => ?_⟩
    have hentries := entries_update h hch q tm.waitingExecutors ch' u
    rw [(SyncChannel.send_eq_ok hsend).2.2.2, List.count_append, count_task, hitems,
      List.count_append, count_head] at hentries
    rw [skippedTasks_append, List.count_append]
    simp only [skippedTasks, List.filterMap_cons_none, List.filterMap_nil, List.count_nil]
    omega
  | parked skipped q q' hskipped hitems hempty hbound hpush =>
    refine ⟨h, fun u => ?_⟩
    have hentries := entries_queues tm workers q q' u
    rw [hitems, hempty, List.count_nil] at hentries
    rw [skippedTasks_append, List.count_append]
    simp only [skippedTasks, List.filterMap_cons_none, List.filterMap_nil, List.count_nil]
    omega

/-- What was taken out of the queue by an `executor_ready` that then fails. -/
theorem entries_popLive (has_aborted : τ → Bool) (tm : TaskManager τ) (workers : ℕ) :
    let p := popLive has_aborted tm.waitingTasks.items.length tm.waitingTasks
    ∀ u, TaskManager.entries { tm with waitingTasks := p.rest } workers u +
      (p.skipped ++ p.task.toList).count u = tm.entries workers u := by
  intro p u
  have hentries := entries_queues tm workers p.rest tm.waitingExecutors u
  obtain ⟨-, -, hitems⟩ := popLive_spec has_aborted tm.waitingTasks
  have hcount : tm.waitingTasks.items.count u =
      (p.skipped ++ p.task.toList).count u + p.rest.items.count u := by
    rw [← List.count_append]
    split at hitems
    · rename_i t ht
      rw [hitems.2, show p.task = some t from ht]
      simp [p]
    · rename_i ht
      rw [show p.task = none from ht, show p.rest.items = [] from hitems.2]
      simpa [p] using congrArg (List.count u) hitems.1
  omega

theorem entries_recvTask (h : Below workers tm.executors) {x : ExecutorTask τ}
    (hrecv : tm.recvTask e = some (x, tm')) :
    Below workers tm'.executors ∧
      ∀ u, tm'.entries workers u + [x].count (.task u) = tm.entries workers u := by
  obtain ⟨ch, ch', hch, hr, rfl⟩ := recvTask_eq_some hrecv
  refine ⟨h.update hch ch', fun u => ?_⟩
  have hentries := entries_update h hch tm.waitingTasks tm.waitingExecutors ch' u
  rw [(SyncChannel.recv_eq_some hr).1, count_head] at hentries
  omega

theorem entries_closeChannel (h : Below workers tm.executors) (e : ExecutorId) :
    Below workers (tm.closeChannel e).executors ∧
      ∀ u, (tm.closeChannel e).entries workers u + (tm.inbox e).count (.task u) =
        tm.entries workers u := by
  cases hch : tm.executors e with
  | none =>
    have hsame : tm.closeChannel e = tm := by
      simp only [closeChannel, hch, Option.map_none]
      rw [← hch, Function.update_eq_self]
    rw [hsame]
    exact ⟨h, fun u => by simp [inbox, hch]⟩
  | some ch =>
    simp only [closeChannel, hch, Option.map_some, inbox_eq hch]
    refine ⟨h.update hch ch.close, fun u => ?_⟩
    have hentries := entries_update h hch tm.waitingTasks tm.waitingExecutors ch.close u
    rw [SyncChannel.close_items, List.count_nil] at hentries
    omega

/-- The registration returns, or waits for room in a channel. -/
def registers (has_aborted : τ → Bool) (tm : TaskManager τ) (task : τ) : Bool :=
  has_aborted task ||
    match tm.waitingExecutors.pop with
    | some (exec, _) => (tm.executors exec).any SyncChannel.receiver
    | none => tm.waitingTasks.items.length < tm.waitingTasks.bound

omit [DecidableEq τ] in
theorem registers_of_ok (h : tm.registerOrExecute has_aborted t = .ok (tm', log)) :
    tm.registers has_aborted t = true := by
  cases registration h with
  | skipped ha => simp [registers, ha]
  | sent ha exec q ch ch' hpop hch hsend =>
    simp [registers, hpop, hch, (SyncChannel.send_eq_ok hsend).1]
  | queued ha q hnone hpush =>
    simp [registers, BoundedQueue.pop_eq_none_iff.2 hnone, (BoundedQueue.push_eq_some hpush).1]

omit [DecidableEq τ] in
/-- A registration that fails does so because of a panic, or because it waits for room. -/
theorem registers_of_error {f : Fault} (h : tm.registerOrExecute has_aborted t = .error f)
    (hf : f ≠ .blocked) : tm.registers has_aborted t = false := by
  unfold TaskManager.registerOrExecute at h
  split at h
  · cases h
  · rename_i ha
    rw [Bool.not_eq_true] at ha
    split at h
    · rename_i exec q hpop
      simp only [registers, ha, hpop, Bool.false_or]
      unfold sendTask at h
      cases hch : tm.executors exec with
      | none => rfl
      | some ch =>
        simp only [hch, SyncChannel.send] at h
        cases hr : ch.receiver with
        | false => simp [hr]
        | true =>
          -- the only fault of a connected channel is a full one
          rw [hr, if_pos rfl] at h
          cases hpush : ch.queue.push (.task t) with
          | none =>
            simp only [hpush] at h
            cases h
            exact absurd rfl hf
          | some q =>
            simp only [hpush] at h
            cases h
    · rename_i hpop
      split at h
      · cases h
      · rename_i hpush
        simp [registers, ha, hpop, BoundedQueue.push_eq_none_iff.1 hpush]

end TaskManager

end Hooch
