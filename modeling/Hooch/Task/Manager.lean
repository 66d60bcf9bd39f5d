import Hooch.Lib.BoundedQueue

/-!
# The task manager

`TaskManager` of `task/manager.rs`: the queue of waiting tasks, the queue of waiting executors
and the channel to each executor. The calls are functions on it; each of them is one atomic step
here, and its two queues are bounded first-in first-out queues, which is what the ring buffer is
when its calls do not overlap.

A call returns the log of what it did, or the fault it ran into: a failing `unwrap`, or a send
that has to wait. The type `ι` of queue entries is a parameter: an entry stands for an
`Arc<Task>`, of which the manager reads nothing but `has_aborted`.

* `registerExecutor`, `executorReady`, `registerOrExecute`: the three calls;
* `Registration`, `Readying`: what a call that returns can have done, one case each.
-/

namespace Hooch

/-- `ExecutorId`. -/
abbrev ExecutorId := ℕ

/-- `ExecutorTask`: what travels on an executor's channel. -/
inductive ExecutorTask (ι : Type*)
  | task (t : ι)
  | finished
  deriving DecidableEq

/-- What keeps a call of the task manager from returning. -/
inductive Fault
  /-- `executors.get(..).unwrap()` on `None`. -/
  | noExecutor
  /-- `send(..).unwrap()` on a channel whose receiver is gone. -/
  | disconnected
  /-- The send waits for room in the channel. -/
  | blocked
  /-- `waiting_tasks.push(..).unwrap()` on a full queue. -/
  | tasksFull
  /-- `waiting_executors.push(..).unwrap()` on a full queue. -/
  | executorsFull
  deriving DecidableEq

/-- One thing a call did, in the order of the log. -/
inductive Action (ι : Type*)
  /-- The abort flag of the task was found set, and the task was let go. -/
  | skipped (t : ι)
  | sent (e : ExecutorId) (t : ι)
  | queued (t : ι)
  | parked (e : ExecutorId)
  deriving DecidableEq

/-- The task manager, without its debugging id. -/
structure TaskManager (ι : Type*) where
  waitingTasks : BoundedQueue ι
  waitingExecutors : BoundedQueue ExecutorId
  executors : ExecutorId → Option (SyncChannel (ExecutorTask ι))

namespace TaskManager

variable {ι : Type*}

/-- The bound of both queues. -/
def queueBound : ℕ := 128 * 1000

/-- `MAX_QUEUED_TASKS`, the capacity of an executor's channel. -/
def maxQueuedTasks : ℕ := 10000

theorem maxQueuedTasks_pos : 0 < maxQueuedTasks := by decide

/-- The manager that `get` creates. -/
def new : TaskManager ι where
  waitingTasks := .empty queueBound
  waitingExecutors := .empty queueBound
  executors := fun _ => none

/-- `register_executor`. If the push fails, the sender has been inserted all the same. -/
def registerExecutor (tm : TaskManager ι) (executor_id : ExecutorId)
    (executor_sender : SyncChannel (ExecutorTask ι)) :
    Except (Fault × TaskManager ι) (TaskManager ι) :=
  let tm :=
    { tm with executors := Function.update tm.executors executor_id (some executor_sender) }
  match tm.waitingExecutors.push executor_id with
  | none => .error (.executorsFull, tm)
  | some q => .ok { tm with waitingExecutors := q }

/-- `executors.get(&executor_id).unwrap().send(ExecutorTask::Task(task)).unwrap()`. -/
def sendTask (tm : TaskManager ι) (executor_id : ExecutorId) (task : ι) :
    Except Fault (TaskManager ι) :=
  match tm.executors executor_id with
  | none => .error .noExecutor
  | some sender =>
      match sender.send (.task task) with
      | .ok sender' =>
          .ok { tm with executors := Function.update tm.executors executor_id (some sender') }
      | .error .disconnected => .error .disconnected
      | .error .wouldBlock => .error .blocked

/-- What popping past the aborted tasks yields: those skipped, the first live one, the rest. -/
structure Popped (ι : Type*) where
  skipped : List ι
  task : Option ι
  rest : BoundedQueue ι

/-- The `while let` loop of `executor_ready`, for at most `fuel` rounds. -/
def popLive (has_aborted : ι → Bool) : ℕ → BoundedQueue ι → Popped ι
  | 0, q => ⟨[], none, q⟩
  | fuel + 1, q =>
      match q.pop with
      | none => ⟨[], none, q⟩
      | some (t, q') =>
          if has_aborted t then
            let p := popLive has_aborted fuel q'
            { p with skipped := t :: p.skipped }
          else ⟨[], some t, q'⟩

/-- `executor_ready`. The loop ends because every round takes a task out of the queue. -/
def executorReady (has_aborted : ι → Bool) (tm : TaskManager ι) (executor_id : ExecutorId) :
    Except Fault (TaskManager ι × List (Action ι)) :=
  let p := popLive has_aborted tm.waitingTasks.items.length tm.waitingTasks
  match p.task with
  | some task =>
      match sendTask { tm with waitingTasks := p.rest } executor_id task with
      | .ok tm' => .ok (tm', p.skipped.map .skipped ++ [.sent executor_id task])
      | .error f => .error f
  | none =>
      match tm.waitingExecutors.push executor_id with
      | some q =>
          .ok ({ tm with waitingTasks := p.rest, waitingExecutors := q },
            p.skipped.map .skipped ++ [.parked executor_id])
      | none => .error .executorsFull

/-- `register_or_execute_non_blocking_task`. -/
def registerOrExecute (has_aborted : ι → Bool) (tm : TaskManager ι) (task : ι) :
    Except Fault (TaskManager ι × List (Action ι)) :=
  if has_aborted task then .ok (tm, [.skipped task])
  else
    match tm.waitingExecutors.pop with
    | some (exec, q) =>
        match sendTask { tm with waitingExecutors := q } exec task with
        | .ok tm' => .ok (tm', [.sent exec task])
        | .error f => .error f
    | none =>
        match tm.waitingTasks.push task with
        | some q => .ok ({ tm with waitingTasks := q }, [.queued task])
        | none => .error .tasksFull

/-- `ready_queue.recv()`, at the other end of an executor's channel. -/
def recvTask (tm : TaskManager ι) (executor_id : ExecutorId) :
    Option (ExecutorTask ι × TaskManager ι) :=
  match tm.executors executor_id with
  | none => none
  | some ch =>
      ch.recv.map fun p =>
        (p.1, { tm with executors := Function.update tm.executors executor_id (some p.2) })

/-- The drop of `ready_queue`, when the executor's thread ends. -/
def closeChannel (tm : TaskManager ι) (executor_id : ExecutorId) : TaskManager ι :=
  { tm with
    executors := Function.update tm.executors executor_id
      ((tm.executors executor_id).map SyncChannel.close) }

/-- What an executor's channel holds. -/
def inbox (tm : TaskManager ι) (executor_id : ExecutorId) : List (ExecutorTask ι) :=
  match tm.executors executor_id with
  | none => []
  | some ch => ch.items

/-! ### What a call that returns has done -/

variable {has_aborted : ι → Bool} {tm tm' : TaskManager ι} {log : List (Action ι)}

theorem sendTask_eq_ok {e : ExecutorId} {t : ι} (h : tm.sendTask e t = .ok tm') :
    ∃ ch ch', tm.executors e = some ch ∧ ch.send (.task t) = .ok ch' ∧
      tm' = { tm with executors := Function.update tm.executors e (some ch') } := by
  unfold sendTask at h
  split at h
  · cases h
  · rename_i ch hch
    split at h
    · rename_i ch' hsend
      cases h
      exact ⟨ch, ch', hch, hsend, rfl⟩
    · cases h
    · cases h

/-- A send to a live executor with room in its channel returns. -/
theorem sendTask_ok {e : ExecutorId} {ch : SyncChannel (ExecutorTask ι)}
    (hch : tm.executors e = some ch) (hr : ch.receiver = true)
    (hroom : ch.items.length < ch.queue.bound) (t : ι) : ∃ tm', tm.sendTask e t = .ok tm' := by
  obtain ⟨ch', hsend⟩ := SyncChannel.send_ne_error (.task t) hr hroom
  exact ⟨{ tm with executors := Function.update tm.executors e (some ch') }, by
    simp only [sendTask, hch, hsend]⟩

theorem sendTask_of_send {e : ExecutorId} {t : ι} {ch ch' : SyncChannel (ExecutorTask ι)}
    (hch : tm.executors e = some ch) (hsend : ch.send (.task t) = .ok ch') : tm.sendTask e t =
      .ok { tm with executors := Function.update tm.executors e (some ch') } := by
  simp only [sendTask, hch, hsend]

theorem recvTask_eq_some {e : ExecutorId} {x : ExecutorTask ι}
    (h : tm.recvTask e = some (x, tm')) :
    ∃ ch ch', tm.executors e = some ch ∧ ch.recv = some (x, ch') ∧
      tm' = { tm with executors := Function.update tm.executors e (some ch') } := by
  unfold recvTask at h
  split at h
  · cases h
  · rename_i ch hch
    simp only [Option.map_eq_some_iff, Prod.mk.injEq, Prod.exists] at h
    obtain ⟨x', ch', hrecv, rfl, rfl⟩ := h
    exact ⟨ch, ch', hch, hrecv, rfl⟩

theorem inbox_eq {e : ExecutorId} {ch : SyncChannel (ExecutorTask ι)}
    (h : tm.executors e = some ch) : tm.inbox e = ch.items := by
  simp [inbox, h]

/-- The queues do not matter for the channels. -/
theorem inbox_queues {w : BoundedQueue ι} {q : BoundedQueue ExecutorId} :
    inbox ⟨w, q, tm.executors⟩ = tm.inbox := rfl

/-- Replacing the channel of one executor changes the inbox of that one only. -/
theorem inbox_setChannel {w : BoundedQueue ι} {q : BoundedQueue ExecutorId} {e : ExecutorId}
    {ch : SyncChannel (ExecutorTask ι)} :
    inbox ⟨w, q, Function.update tm.executors e (some ch)⟩ =
      Function.update tm.inbox e ch.items := by
  funext e'
  by_cases he : e' = e
  · subst he
    simp [inbox]
  · simp [inbox, he]

/-- A message that is received was in the channel, and so was what is left. -/
theorem inbox_recvTask {e : ExecutorId} {x : ExecutorTask ι} (h : tm.recvTask e = some (x, tm')) :
    x ∈ tm.inbox e ∧ ∀ e', tm'.inbox e' ⊆ tm.inbox e' := by
  obtain ⟨ch, ch', hch, hrecv, rfl⟩ := recvTask_eq_some h
  obtain ⟨hitems, -⟩ := SyncChannel.recv_eq_some hrecv
  refine ⟨by rw [inbox_eq hch, hitems]; exact List.mem_cons_self, fun e' => ?_⟩
  rw [inbox_setChannel]
  by_cases he : e' = e
  · subst he
    rw [Function.update_self, inbox_eq hch, hitems]
    exact List.subset_cons_self _ _
  · rw [Function.update_of_ne he]
    exact List.Subset.refl _

theorem inbox_closeChannel (e e' : ExecutorId) : (tm.closeChannel e).inbox e' ⊆ tm.inbox e' := by
  by_cases he : e' = e
  · subst he
    cases hch : tm.executors e' <;> simp [inbox, closeChannel, hch]
  · simp [inbox, closeChannel, he]

/-- With as much fuel as there are tasks, the loop of `executor_ready` stops at the first live
task or at the end of the queue. -/
theorem popLive_spec (has_aborted : ι → Bool) (q : BoundedQueue ι) :
    (∀ t ∈ (popLive has_aborted q.items.length q).skipped, has_aborted t = true) ∧
      (popLive has_aborted q.items.length q).rest.bound = q.bound ∧
      match (popLive has_aborted q.items.length q).task with
      | some t => has_aborted t = false ∧ q.items =
          (popLive has_aborted q.items.length q).skipped ++
            t :: (popLive has_aborted q.items.length q).rest.items
      | none => q.items = (popLive has_aborted q.items.length q).skipped ∧
          (popLive has_aborted q.items.length q).rest.items = [] := by
  obtain ⟨n, hn⟩ : ∃ n, q.items.length = n := ⟨_, rfl⟩
  rw [hn]
  induction n generalizing q with
  | zero => simp [popLive, List.eq_nil_of_length_eq_zero hn]
  | succ n ih =>
    cases hp : q.pop with
    | none =>
      rw [BoundedQueue.pop_eq_none_iff.1 hp] at hn
      cases hn
    | some p =>
      obtain ⟨t, q'⟩ := p
      obtain ⟨hitems, hbound⟩ := BoundedQueue.pop_eq_some hp
      have hn' : q'.items.length = n := by
        rw [hitems, List.length_cons] at hn
        omega
      obtain ⟨hskip, hrest, htask⟩ := ih q' hn'
      by_cases ha : has_aborted t = true
      · simp only [popLive, hp, if_pos ha]
        refine ⟨by simpa [ha] using hskip, hrest.trans hbound, ?_⟩
        rw [hitems]
        split
        · rename_i u hu
          rw [hu] at htask
          exact ⟨htask.1, by rw [htask.2]; rfl⟩
        · rename_i hu
          rw [hu] at htask
          exact ⟨by rw [htask.1], htask.2⟩
      · simp only [popLive, hp, if_neg ha]
        exact ⟨by simp, hbound, by simpa using ha, hitems⟩

/-- The three ways `register_or_execute_non_blocking_task` returns. -/
inductive Registration (has_aborted : ι → Bool) (tm : TaskManager ι) (task : ι) :
    TaskManager ι → List (Action ι) → Prop
  | skipped (ha : has_aborted task = true) : Registration has_aborted tm task tm [.skipped task]
  | sent (ha : has_aborted task = false) (exec : ExecutorId) (q : BoundedQueue ExecutorId)
      (ch ch' : SyncChannel (ExecutorTask ι)) (hpop : tm.waitingExecutors.pop = some (exec, q))
      (hch : tm.executors exec = some ch) (hsend : ch.send (.task task) = .ok ch') :
      Registration has_aborted tm task
        { tm with
          waitingExecutors := q
          executors := Function.update tm.executors exec (some ch') } [.sent exec task]
  | queued (ha : has_aborted task = false) (q : BoundedQueue ι)
      (hnone : tm.waitingExecutors.items = []) (hpush : tm.waitingTasks.push task = some q) :
      Registration has_aborted tm task { tm with waitingTasks := q } [.queued task]

theorem registration {task : ι} (h : tm.registerOrExecute has_aborted task = .ok (tm', log)) :
    Registration has_aborted tm task tm' log := by
  unfold registerOrExecute at h
  split at h
  · rename_i ha
    cases h
    exact .skipped ha
  · rename_i ha
    rw [Bool.not_eq_true] at ha
    split at h
    · rename_i exec q hpop
      split at h
      · rename_i tm₁ hsend
        cases h
        obtain ⟨ch, ch', hch, hs, rfl⟩ := sendTask_eq_ok hsend
        exact .sent ha exec q ch ch' hpop hch hs
      · cases h
    · rename_i hpop
      split at h
      · rename_i q hpush
        cases h
        exact .queued ha q (BoundedQueue.pop_eq_none_iff.1 hpop) hpush
      · cases h

/-- The two ways `executor_ready` returns. -/
inductive Readying (has_aborted : ι → Bool) (tm : TaskManager ι) (executor_id : ExecutorId) :
    TaskManager ι → List (Action ι) → Prop
  | sent (skipped : List ι) (task : ι) (q : BoundedQueue ι) (ch ch' : SyncChannel (ExecutorTask ι))
      (hskipped : ∀ t ∈ skipped, has_aborted t = true) (ha : has_aborted task = false)
      (hitems : tm.waitingTasks.items = skipped ++ task :: q.items)
      (hbound : q.bound = tm.waitingTasks.bound)
      (hch : tm.executors executor_id = some ch) (hsend : ch.send (.task task) = .ok ch') :
      Readying has_aborted tm executor_id
        { tm with
          waitingTasks := q
          executors := Function.update tm.executors executor_id (some ch') }
        (skipped.map .skipped ++ [.sent executor_id task])
  | parked (skipped : List ι) (q : BoundedQueue ι) (q' : BoundedQueue ExecutorId)
      (hskipped : ∀ t ∈ skipped, has_aborted t = true)
      (hitems : tm.waitingTasks.items = skipped) (hempty : q.items = [])
      (hbound : q.bound = tm.waitingTasks.bound)
      (hpush : tm.waitingExecutors.push executor_id = some q') :
      Readying has_aborted tm executor_id
        { tm with waitingTasks := q, waitingExecutors := q' }
        (skipped.map .skipped ++ [.parked executor_id])

theorem readying {e : ExecutorId} (h : tm.executorReady has_aborted e = .ok (tm', log)) :
    Readying has_aborted tm e tm' log := by
  obtain ⟨hskip, hbound, htask⟩ := popLive_spec has_aborted tm.waitingTasks
  unfold executorReady at h
  simp only at h
  split at h
  · rename_i task hp
    rw [hp] at htask
    split at h
    · rename_i tm₁ hsend
      cases h
      obtain ⟨ch, ch', hch, hs, rfl⟩ := sendTask_eq_ok hsend
      exact .sent _ task _ ch ch' hskip htask.1 htask.2 hbound hch hs
    · cases h
  · rename_i hp
    rw [hp] at htask
    split at h
    · rename_i q' hpush
      cases h
      exact .parked _ _ q' hskip htask.1 htask.2 hbound hpush
    · cases h

/-- A task that was registered waits or is in a channel, unless its abort flag was set. -/
theorem Registration.placed {t : ι} (h : Registration has_aborted tm t tm' log)
    (ha : has_aborted t = false) :
    t ∈ tm'.waitingTasks.items ∨ ∃ e, .task t ∈ tm'.inbox e := by
  cases h with
  | skipped ha' =>
    rw [ha] at ha'
    cases ha'
  | sent _ exec q ch ch' hpop hch hsend =>
    refine .inr ⟨exec, ?_⟩
    rw [inbox_setChannel, Function.update_self, (SyncChannel.send_eq_ok hsend).2.2.2]
    simp
  | queued _ q hnone hpush =>
    exact .inl (by simp [(BoundedQueue.push_eq_some hpush).2.2])

/-- What a registration sends is put into the channel of the executor. -/
theorem Registration.sends {t r : ι} {e : ExecutorId} (h : Registration has_aborted tm t tm' log)
    (hsent : .sent e r ∈ log) : tm'.inbox e = tm.inbox e ++ [.task r] := by
  cases h with
  | sent _ exec q ch ch' hpop hch hsend =>
    cases List.mem_singleton.1 hsent
    rw [inbox_setChannel, Function.update_self, inbox_eq hch, (SyncChannel.send_eq_ok hsend).2.2.2]
  | skipped => cases List.mem_singleton.1 hsent
  | queued => cases List.mem_singleton.1 hsent

/-- A registration removes no task. -/
theorem Registration.mono {t : ι} (h : Registration has_aborted tm t tm' log) :
    tm.waitingTasks.items ⊆ tm'.waitingTasks.items ∧ ∀ e, tm.inbox e ⊆ tm'.inbox e := by
  cases h with
  | skipped => exact ⟨List.Subset.refl _, fun e => List.Subset.refl _⟩
  | sent _ exec q ch ch' hpop hch hsend =>
    refine ⟨List.Subset.refl _, fun e => ?_⟩
    rw [inbox_setChannel]
    by_cases he : e = exec
    · subst he
      rw [Function.update_self, inbox_eq hch, (SyncChannel.send_eq_ok hsend).2.2.2]
      exact List.subset_append_left _ _
    · rw [Function.update_of_ne he]
      exact List.Subset.refl _
  | queued _ q hnone hpush =>
    rw [(BoundedQueue.push_eq_some hpush).2.2]
    exact ⟨List.subset_append_left _ _, fun e => List.Subset.refl _⟩

/-- `executor_ready` removes from the queue what it sends, and what was aborted. -/
theorem Readying.mono {e : ExecutorId} (h : Readying has_aborted tm e tm' log) :
    (∀ t ∈ tm.waitingTasks.items, has_aborted t = false →
        t ∈ tm'.waitingTasks.items ∨ .task t ∈ tm'.inbox e) ∧
      ∀ e, tm.inbox e ⊆ tm'.inbox e := by
  cases h with
  | sent skipped task q ch ch' hskipped _ hitems hbound hch hsend =>
    have hsent := (SyncChannel.send_eq_ok hsend).2.2.2
    rw [inbox_setChannel]
    refine ⟨fun t ht ha => ?_, fun e' => ?_⟩
    · rw [hitems] at ht
      rcases List.mem_append.1 ht with hs | ht
      · rw [hskipped t hs] at ha
        cases ha
      · rcases List.mem_cons.1 ht with rfl | ht
        · exact .inr (by simp [hsent])
        · exact .inl ht
    · by_cases he : e' = e
      · subst he
        rw [Function.update_self, inbox_eq hch, hsent]
        exact List.subset_append_left _ _
      · rw [Function.update_of_ne he]
        exact List.Subset.refl _
  | parked skipped q q' hskipped hitems =>
    refine ⟨fun t ht ha => ?_, fun e' => List.Subset.refl _⟩
    rw [hitems] at ht
    rw [hskipped t ht] at ha
    cases ha

/-- What `executor_ready` sends is put into the channel of the executor. -/
theorem Readying.sends {r : ι} {e e' : ExecutorId} (h : Readying has_aborted tm e tm' log)
    (hsent : .sent e' r ∈ log) : tm'.inbox e' = tm.inbox e' ++ [.task r] := by
  cases h with
  | sent skipped task q ch ch' _ _ _ _ hch hsend =>
    obtain ⟨rfl, rfl⟩ : e' = e ∧ r = task := by simpa using hsent
    rw [inbox_setChannel, Function.update_self, inbox_eq hch, (SyncChannel.send_eq_ok hsend).2.2.2]
  | parked => simp at hsent

/-! ### Registering the executors -/

/-- The loop of `build` over the executor ids: `new_executor_spawner` and `register_executor`. -/
def registerExecutors :
    List ExecutorId → TaskManager ι → Except (Fault × TaskManager ι) (TaskManager ι)
  | [], tm => .ok tm
  | i :: is, tm =>
      match tm.registerExecutor i (.new maxQueuedTasks) with
      | .ok tm' => registerExecutors is tm'
      | .error f => .error f

/-- The task manager with the executors `ids`, or the empty one where that fails. -/
def registeredWith (ids : List ExecutorId) : TaskManager ι :=
  match registerExecutors ids .new with
  | .ok tm => tm
  | .error _ => .new

theorem registerExecutors_eq_ok {ids : List ExecutorId}
    (h : registerExecutors ids tm = .ok tm') :
    tm'.waitingTasks = tm.waitingTasks ∧
      tm'.waitingExecutors.items = tm.waitingExecutors.items ++ ids ∧
      tm'.waitingExecutors.bound = tm.waitingExecutors.bound ∧
      ∀ e, tm'.executors e = if e ∈ ids then some (.new maxQueuedTasks) else tm.executors e := by
  induction ids generalizing tm with
  | nil =>
    cases h
    simp
  | cons i is ih =>
    unfold registerExecutors at h
    split at h
    · rename_i tm₁ hreg
      simp only [registerExecutor] at hreg
      split at hreg
      · cases hreg
      · rename_i q hpush
        cases hreg
        obtain ⟨-, hqbound, hitems⟩ := BoundedQueue.push_eq_some hpush
        obtain ⟨htasks, hexecs, hbound, hmap⟩ := ih h
        refine ⟨htasks, by rw [hexecs, hitems]; simp, hbound.trans hqbound, fun e => ?_⟩
        rw [hmap e]
        by_cases he : e ∈ is
        · simp [he]
        · by_cases hei : e = i
          · subst hei; simp [he]
          · simp [he, hei]
    · cases h

/-- A runtime of `n` workers before its first task. -/
def build (n : ℕ) : Except (Fault × TaskManager ι) (TaskManager ι) :=
  registerExecutors (List.range n) new

theorem build_eq_ok {n : ℕ} (h : build n = .ok tm) :
    tm.waitingTasks = .empty queueBound ∧ tm.waitingExecutors.items = List.range n ∧
      ∀ e, tm.executors e = if e < n then some (.new maxQueuedTasks) else none := by
  obtain ⟨htasks, hexecs, -, hmap⟩ := registerExecutors_eq_ok h
  exact ⟨htasks, by simpa [new] using hexecs, fun e => by simpa [new] using hmap e⟩

end TaskManager

end Hooch
