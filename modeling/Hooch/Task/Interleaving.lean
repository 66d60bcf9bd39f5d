import Hooch.Lib.TransitionSystem
import Hooch.Executor

/-!
# The calls of the task manager, interleaved

`register_or_execute_non_blocking_task` and `executor_ready` as they run: each push or pop of a
queue, each send and each look at an abort flag is one step, and any number of callers are in
their calls at once. The executors run `forward_task` step by step in between.

* `RegisterPc.step`, `ReadyPc.step`: the next step of a call;
* `interleaving`: the system, and `Next`, what a step of it can do.
-/

namespace Hooch

/-- A value read after an update that did not write it was there before. -/
theorem of_update_eq {α β : Type*} [DecidableEq α] {f : α → β} {a a' : α} {b c : β}
    (h : Function.update f a b a' = c) (hb : b ≠ c) : f a' = c := by
  by_cases ha : a' = a
  · subst ha
    rw [Function.update_self] at h
    exact absurd h hb
  · rwa [Function.update_of_ne ha] at h

/-- Where a call of `register_or_execute_non_blocking_task` stands. -/
inductive RegisterPc (τ : Type*)
  /-- At `task.has_aborted()`. -/
  | check (task : τ)
  /-- At `self.waiting_executors.pop()`. -/
  | pop (task : τ)
  /-- At `sender.send(ExecutorTask::Task(task)).unwrap()`. -/
  | send (exec : ExecutorId) (task : τ)
  /-- At `self.waiting_tasks.push(task).unwrap()`. -/
  | push (task : τ)
  deriving DecidableEq

/-- Where a call of `executor_ready` stands. -/
inductive ReadyPc (τ : Type*)
  /-- At `self.waiting_tasks.pop()`. -/
  | pop
  /-- At `task.has_aborted()`. -/
  | check (task : τ)
  /-- At `sender.send(ExecutorTask::Task(task)).unwrap()`. -/
  | send (task : τ)
  /-- At `self.waiting_executors.push(executor_id).unwrap()`. -/
  | push
  deriving DecidableEq

/-- What a step of a call leads to. -/
inductive After (π : Type*)
  | next (pc : π)
  | returned
  /-- An `unwrap` failed. -/
  | panicked

/-- Where the call goes on. -/
def After.pc {π : Type*} : After π → Option π
  | .next p => some p
  | .returned | .panicked => none

theorem After.pc_eq_none {π : Type*} {a : After π} (h : ∀ p, a ≠ .next p) : a.pc = none := by
  cases a with
  | next p => exact absurd rfl (h p)
  | returned | panicked => rfl

variable {τ : Type*}

/-- One step of `register_or_execute_non_blocking_task`; `none` where the send has to wait. -/
def RegisterPc.step (has_aborted : τ → Bool) (tm : TaskManager τ) :
    RegisterPc τ → Option (TaskManager τ × After (RegisterPc τ))
  | .check task => some (tm, if has_aborted task then .returned else .next (.pop task))
  | .pop task =>
      match tm.waitingExecutors.pop with
      | some (exec, q) => some ({ tm with waitingExecutors := q }, .next (.send exec task))
      | none => some (tm, .next (.push task))
  | .send exec task =>
      match tm.sendTask exec task with
      | .ok tm' => some (tm', .returned)
      | .error .blocked => none
      | .error _ => some (tm, .panicked)
  | .push task =>
      match tm.waitingTasks.push task with
      | some q => some ({ tm with waitingTasks := q }, .returned)
      | none => some (tm, .panicked)

/-- One step of `executor_ready`; `none` where the send has to wait. -/
def ReadyPc.step (has_aborted : τ → Bool) (tm : TaskManager τ) (executor_id : ExecutorId) :
    ReadyPc τ → Option (TaskManager τ × After (ReadyPc τ))
  | .pop =>
      match tm.waitingTasks.pop with
      | some (task, q) => some ({ tm with waitingTasks := q }, .next (.check task))
      | none => some (tm, .next .push)
  | .check task => some (tm, .next (if has_aborted task then .pop else .send task))
  | .send task =>
      match tm.sendTask executor_id task with
      | .ok tm' => some (tm', .returned)
      | .error .blocked => none
      | .error _ => some (tm, .panicked)
  | .push =>
      match tm.waitingExecutors.push executor_id with
      | some q => some ({ tm with waitingExecutors := q }, .returned)
      | none => some (tm, .panicked)

/-- What a step of `register_or_execute_non_blocking_task` can do. -/
inductive RegisterPc.Next (has_aborted : τ → Bool) (tm : TaskManager τ) :
    RegisterPc τ → TaskManager τ → After (RegisterPc τ) → Prop
  | skip {t : τ} (ha : has_aborted t = true) : Next has_aborted tm (.check t) tm .returned
  | live {t : τ} (ha : has_aborted t = false) : Next has_aborted tm (.check t) tm (.next (.pop t))
  | found {t : τ} {e : ExecutorId} {q : BoundedQueue ExecutorId}
      (hpop : tm.waitingExecutors.items = e :: q.items) :
      Next has_aborted tm (.pop t) { tm with waitingExecutors := q } (.next (.send e t))
  | none {t : τ} (hnone : tm.waitingExecutors.items = []) :
      Next has_aborted tm (.pop t) tm (.next (.push t))
  | sent {t : τ} {e : ExecutorId} {ch ch' : SyncChannel (ExecutorTask τ)}
      (hch : tm.executors e = some ch) (hsend : ch'.items = ch.items ++ [.task t]) :
      Next has_aborted tm (.send e t)
        { tm with executors := Function.update tm.executors e (some ch') } .returned
  | sendPanic {t : τ} {e : ExecutorId} : Next has_aborted tm (.send e t) tm .panicked
  | pushed {t : τ} {q : BoundedQueue τ} (hpush : q.items = tm.waitingTasks.items ++ [t]) :
      Next has_aborted tm (.push t) { tm with waitingTasks := q } .returned
  | pushPanic {t : τ} : Next has_aborted tm (.push t) tm .panicked

/-- What a step of `executor_ready` can do. -/
inductive ReadyPc.Next (has_aborted : τ → Bool) (tm : TaskManager τ) (e : ExecutorId) :
    ReadyPc τ → TaskManager τ → After (ReadyPc τ) → Prop
  | found {t : τ} {q : BoundedQueue τ} (hpop : tm.waitingTasks.items = t :: q.items) :
      Next has_aborted tm e .pop { tm with waitingTasks := q } (.next (.check t))
  | none (hnone : tm.waitingTasks.items = []) : Next has_aborted tm e .pop tm (.next .push)
  | skip {t : τ} (ha : has_aborted t = true) : Next has_aborted tm e (.check t) tm (.next .pop)
  | live {t : τ} (ha : has_aborted t = false) :
      Next has_aborted tm e (.check t) tm (.next (.send t))
  | sent {t : τ} {ch ch' : SyncChannel (ExecutorTask τ)} (hch : tm.executors e = some ch)
      (hsend : ch'.items = ch.items ++ [.task t]) :
      Next has_aborted tm e (.send t)
        { tm with executors := Function.update tm.executors e (some ch') } .returned
  | sendPanic {t : τ} : Next has_aborted tm e (.send t) tm .panicked
  | pushed {q : BoundedQueue ExecutorId} (hpush : q.items = tm.waitingExecutors.items ++ [e]) :
      Next has_aborted tm e .push { tm with waitingExecutors := q } .returned
  | pushPanic : Next has_aborted tm e .push tm .panicked

variable {has_aborted : τ → Bool} {tm tm' : TaskManager τ}

theorem RegisterPc.next_of_step {p : RegisterPc τ} {a : After (RegisterPc τ)}
    (h : p.step has_aborted tm = some (tm', a)) : p.Next has_aborted tm tm' a := by
  cases p with
  | check t =>
    simp only [step, Option.some.injEq, Prod.mk.injEq] at h
    obtain ⟨rfl, rfl⟩ := h
    split
    · rename_i ha
      exact .skip ha
    · rename_i ha
      exact .live (by simpa using ha)
  | pop t =>
    simp only [step] at h
    split at h
    · rename_i hpop
      cases h
      exact .found (BoundedQueue.pop_eq_some hpop).1
    · rename_i hpop
      cases h
      exact .none (BoundedQueue.pop_eq_none_iff.1 hpop)
  | send e t =>
    simp only [step] at h
    split at h
    · rename_i hsend
      cases h
      obtain ⟨ch, ch', hch, hs, rfl⟩ := TaskManager.sendTask_eq_ok hsend
      exact .sent hch (SyncChannel.send_eq_ok hs).2.2.2
    · cases h
    · cases h
      exact .sendPanic
  | push t =>
    simp only [step] at h
    split at h
    · rename_i hpush
      cases h
      exact .pushed (BoundedQueue.push_eq_some hpush).2.2
    · cases h
      exact .pushPanic

theorem ReadyPc.next_of_step {p : ReadyPc τ} {e : ExecutorId} {a : After (ReadyPc τ)}
    (h : p.step has_aborted tm e = some (tm', a)) : p.Next has_aborted tm e tm' a := by
  cases p with
  | pop =>
    simp only [step] at h
    split at h
    · rename_i hpop
      cases h
      exact .found (BoundedQueue.pop_eq_some hpop).1
    · rename_i hpop
      cases h
      exact .none (BoundedQueue.pop_eq_none_iff.1 hpop)
  | check t =>
    simp only [step, Option.some.injEq, Prod.mk.injEq] at h
    obtain ⟨rfl, rfl⟩ := h
    split
    · rename_i ha
      exact .skip ha
    · rename_i ha
      exact .live (by simpa using ha)
  | send t =>
    simp only [step] at h
    split at h
    · rename_i hsend
      cases h
      obtain ⟨ch, ch', hch, hs, rfl⟩ := TaskManager.sendTask_eq_ok hsend
      exact .sent hch (SyncChannel.send_eq_ok hs).2.2.2
    · cases h
    · cases h
      exact .sendPanic
  | push =>
    simp only [step] at h
    split at h
    · rename_i hpush
      cases h
      exact .pushed (BoundedQueue.push_eq_some hpush).2.2
    · cases h
      exact .pushPanic

/-- The task manager, the executors with the tasks, the callers `κ` that register a task, and the
executors' calls of `executor_ready`. -/
structure Interleaving (κ τ : Type*) where
  tm : TaskManager τ
  x : Executors τ
  caller : κ → Option (RegisterPc τ)
  readying : ExecutorId → Option (ReadyPc τ)

namespace Interleaving

variable {κ : Type*} [DecidableEq κ] [DecidableEq τ]

/-- The steps. -/
inductive Label (κ τ : Type*)
  /-- A task is spawned or woken. -/
  | call (k : κ) (t : τ)
  | register (k : κ)
  | abort (t : τ)
  | recv (e : ExecutorId)
  | work (a : Executors.Label)
  /-- The executor calls `executor_ready`. -/
  | enter (e : ExecutorId)
  | ready (e : ExecutorId)
  /-- The thread of an executor that panicked reports it and ends. -/
  | close (e : ExecutorId)

def hasAborted (s : Interleaving κ τ) (t : τ) : Bool := (s.x.task t).abort

def step (s : Interleaving κ τ) : Label κ τ → Option (Interleaving κ τ)
  | .call k t =>
      match s.caller k with
      | none =>
          some { s with
            x := s.x.notify t
            caller := Function.update s.caller k (some (.check t)) }
      | some _ => none
  | .register k =>
      match s.caller k with
      | none => none
      | some p =>
          match p.step s.hasAborted s.tm with
          | none => none
          | some (tm, .next p') =>
              some { s with tm := tm, caller := Function.update s.caller k (some p') }
          | some (tm, _) => some { s with tm := tm, caller := Function.update s.caller k none }
  | .abort t => some { s with x := s.x.setTask t { s.x.task t with abort := true } }
  | .recv e =>
      match s.x.pc e, s.tm.recvTask e with
      | .recv, some (.task t, tm) => some { s with tm := tm, x := s.x.setPc e (.received t) }
      | .recv, some (.finished, tm) => some { s with tm := tm, x := s.x.setPc e .stopped }
      | _, _ => none
  | .work a => (s.x.step a).map fun x => { s with x := x }
  | .enter e =>
      match s.x.pc e, s.readying e with
      | .ready, none => some { s with readying := Function.update s.readying e (some .pop) }
      | _, _ => none
  | .ready e =>
      match s.readying e with
      | none => none
      | some p =>
          match p.step s.hasAborted s.tm e with
          | none => none
          | some (tm, .next p') =>
              some { s with tm := tm, readying := Function.update s.readying e (some p') }
          | some (tm, .returned) =>
              some { s with
                tm := tm
                x := s.x.setPc e .recv
                readying := Function.update s.readying e none }
          | some (tm, .panicked) =>
              some { s with
                tm := tm
                x := s.x.setPc e .dead
                readying := Function.update s.readying e none }
  | .close e =>
      match s.x.pc e with
      | .dead =>
          if s.x.panics < Executors.panicBound then
            some { s with
              tm := s.tm.closeChannel e
              x := { s.x.setPc e .gone with panics := s.x.panics + 1 } }
          else none
      | _ => none

/-- What a step can do. -/
inductive Next (s : Interleaving κ τ) : Label κ τ → Interleaving κ τ → Prop
  | call {k : κ} {t : τ} (hk : s.caller k = none) :
      Next s (.call k t) { s with
        x := s.x.notify t
        caller := Function.update s.caller k (some (.check t)) }
  | register {k : κ} {p p' : RegisterPc τ} {tm : TaskManager τ} (hk : s.caller k = some p)
      (h : p.Next s.hasAborted s.tm tm (.next p')) :
      Next s (.register k) { s with tm := tm, caller := Function.update s.caller k (some p') }
  | registered {k : κ} {p : RegisterPc τ} {tm : TaskManager τ} {a : After (RegisterPc τ)}
      (hk : s.caller k = some p) (h : p.Next s.hasAborted s.tm tm a)
      (ha : ∀ p', a ≠ .next p') :
      Next s (.register k) { s with tm := tm, caller := Function.update s.caller k none }
  | abort {t : τ} :
      Next s (.abort t) { s with x := s.x.setTask t { s.x.task t with abort := true } }
  | recv {e : ExecutorId} {t : τ} {tm : TaskManager τ} (hpc : s.x.pc e = .recv)
      (h : s.tm.recvTask e = some (.task t, tm)) :
      Next s (.recv e) { s with tm := tm, x := s.x.setPc e (.received t) }
  | finish {e : ExecutorId} {tm : TaskManager τ} (hpc : s.x.pc e = .recv)
      (h : s.tm.recvTask e = some (.finished, tm)) :
      Next s (.recv e) { s with tm := tm, x := s.x.setPc e .stopped }
  | work {a : Executors.Label} {x : Executors τ} (h : s.x.Next a x) :
      Next s (.work a) { s with x := x }
  | enter {e : ExecutorId} (hpc : s.x.pc e = .ready) (he : s.readying e = none) :
      Next s (.enter e) { s with readying := Function.update s.readying e (some .pop) }
  | ready {e : ExecutorId} {p p' : ReadyPc τ} {tm : TaskManager τ} (he : s.readying e = some p)
      (h : p.Next s.hasAborted s.tm e tm (.next p')) :
      Next s (.ready e) { s with tm := tm, readying := Function.update s.readying e (some p') }
  | readied {e : ExecutorId} {p : ReadyPc τ} {tm : TaskManager τ} {a : After (ReadyPc τ)}
      {pc : ExecutorPc τ} (he : s.readying e = some p) (h : p.Next s.hasAborted s.tm e tm a)
      (ha : a = .returned ∧ pc = .recv ∨ a = .panicked ∧ pc = .dead) :
      Next s (.ready e) { s with
        tm := tm
        x := s.x.setPc e pc
        readying := Function.update s.readying e none }
  | close {e : ExecutorId} (hpc : s.x.pc e = .dead) :
      Next s (.close e) { s with
        tm := s.tm.closeChannel e
        x := { s.x.setPc e .gone with panics := s.x.panics + 1 } }

variable {s s' : Interleaving κ τ}

theorem next_of_step {a : Label κ τ} (h : s.step a = some s') : Next s a s' := by
  cases a with
  | call k t =>
    simp only [step] at h
    split at h
    · rename_i hk
      cases h
      exact .call hk
    · cases h
  | register k =>
    simp only [step] at h
    split at h
    · cases h
    · rename_i p hk
      split at h
      · cases h
      · rename_i hp
        cases h
        exact .register hk (RegisterPc.next_of_step hp)
      · rename_i hne hp
        cases h
        exact .registered hk (RegisterPc.next_of_step hp) hne
  | abort t =>
    cases h
    exact .abort
  | recv e =>
    simp only [step] at h
    split at h
    · rename_i hpc hrecv
      cases h
      exact .recv hpc hrecv
    · rename_i hpc hrecv
      cases h
      exact .finish hpc hrecv
    · cases h
  | work a =>
    simp only [step, Option.map_eq_some_iff] at h
    obtain ⟨x, hx, rfl⟩ := h
    exact .work (Executors.next_of_step hx)
  | enter e =>
    simp only [step] at h
    split at h
    · rename_i hpc he
      cases h
      exact .enter hpc he
    · cases h
  | ready e =>
    simp only [step] at h
    split at h
    · cases h
    · rename_i p he
      split at h
      · cases h
      · rename_i hp
        cases h
        exact .ready he (ReadyPc.next_of_step hp)
      · rename_i hp
        cases h
        exact .readied he (ReadyPc.next_of_step hp) (.inl ⟨rfl, rfl⟩)
      · rename_i hp
        cases h
        exact .readied he (ReadyPc.next_of_step hp) (.inr ⟨rfl, rfl⟩)
  | close e =>
    simp only [step] at h
    split at h
    · rename_i hpc
      split at h
      · cases h
        exact .close hpc
      · cases h
    · cases h

end Interleaving

/-- The runtime whose executors `ids` are registered before the first task, with the calls of the
task manager interleaved. -/
def interleaving {κ τ : Type*} [DecidableEq κ] [DecidableEq τ] (ids : List ExecutorId) :
    TransitionSystem (Interleaving κ τ) (Interleaving.Label κ τ) where
  init s := ∃ tm, TaskManager.registerExecutors ids .new = .ok tm ∧ ids.Nodup ∧
    s = ⟨tm, .new, fun _ => none, fun _ => none⟩
  step := Interleaving.step

end Hooch
