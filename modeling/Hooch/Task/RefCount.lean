import Hooch.Executor
import Hooch.Lib.TransitionSystem
import Hooch.Task.Entries

/-!
# The reference count of a task

The wakers of a task are raw pointers to its `Arc`, and the functions of `WAKER_VTABLE` keep the
strong count by hand: each of them makes an `Arc` of the pointer and lets it go, keeps it or hands
it over. `wake_by_ref` gives back what it took with a `forget` at its end, which a panic before it
skips.

* `Arc`: the strong count, as std changes it;
* `RefCounts`: the counts of all tasks beside everything that owns a count: wakers, the queue of
  the task manager, the channels of the executors, the executors;
* `clone`, `drop`, `wake`, `wakeByRef`: the functions of the table; `step`, `refCounts`: these with
  all that moves an `Arc<Task>` from one owner to another;
* `unowned`: the counts that nobody owns, and `drift`, what a step adds to them;
* `exact_iff`: the main result, for every run.
-/

namespace Hooch

open TransitionSystem Census Table

/-! ### The strong count -/

namespace Arc

/-- `Arc::new`. -/
def new : ℤ := 1

/-- `Arc::from_raw`: the pointer's count is now that of the `Arc`. -/
def fromRaw (strong : ℤ) : ℤ := strong

/-- `Arc::into_raw`. -/
def intoRaw (strong : ℤ) : ℤ := strong

/-- `Arc::clone`. -/
def clone (strong : ℤ) : ℤ := strong + 1

/-- The drop of an `Arc`. -/
def drop (strong : ℤ) : ℤ := strong - 1

/-- `std::mem::forget` of an `Arc`, which skips the drop. -/
def forget (strong : ℤ) : ℤ := strong

end Arc

/-! ### The owners of a count -/

/-- Where an executor stands, and which `Arc`s it has. -/
inductive Forwarding (τ : Type*)
  /-- At `ready_queue.recv()`. -/
  | recv
  /-- At `task.future.lock().unwrap()`. -/
  | received (t : τ)
  /-- In the poll, with the task, its lock and a waker of it. -/
  | forwarding (t : τ)
  /-- At `self.panic_tx.send(())`, with the task and the waker. -/
  | reporting (t : τ)
  /-- At `tm.executor_ready(self.id())`. -/
  | ready
  /-- Out of `run`, before the thread ends. -/
  | dead
  /-- The thread has ended. -/
  | gone
  deriving DecidableEq

/-- The task that the executor holds. -/
def Forwarding.task {τ : Type*} : Forwarding τ → Option τ
  | .received t | .forwarding t | .reporting t => some t
  | _ => none

/-- The task whose waker the executor has made and not dropped. -/
def Forwarding.waker {τ : Type*} : Forwarding τ → Option τ
  | .forwarding t | .reporting t => some t
  | _ => none

/-- The `Arc`s of the executor, that of its waker included. -/
def Forwarding.arcs {τ : Type*} : Forwarding τ → List τ
  | .received t => [t]
  | .forwarding t | .reporting t => [t, t]
  | _ => []

theorem Forwarding.count_arcs {τ : Type*} [DecidableEq τ] (p : Forwarding τ) (t : τ) :
    p.arcs.count t = p.waker.toList.count t + p.task.toList.count t := by
  cases p with
  | forwarding u | reporting u => exact count_head u [u] t
  | _ => simp [arcs, waker, task]

/-- The tasks of one task manager. `upgrades` says that `manager.upgrade()` is `Some`; `wakers`
are the wakers other than those of the executors; `poisoned` is about the lock of a task's future;
`panics` is the number of messages in the panic channel. -/
structure RefCounts (τ : Type*) where
  workers : ℕ
  manager : TaskManager τ
  upgrades : Bool
  panics : ℕ
  abort : τ → Bool
  poisoned : τ → Bool
  strong : τ → ℤ
  wakers : τ → ℕ
  executor : ExecutorId → Forwarding τ

/-- Who moves. -/
inductive RefLabel (τ : Type*)
  /-- `Arc::new` and the registration, in `Spawner::spawn` and `run_blocking`. -/
  | spawn (t : τ)
  | clone (t : τ)
  | drop (t : τ)
  | wake (t : τ)
  | wakeByRef (t : τ)
  | abort (t : τ)
  | recv (e : ExecutorId)
  /-- The executor locks the future of the task, and finds it poisoned or makes the waker. -/
  | forward (e : ExecutorId)
  /-- The poll ends, by a panic or not. -/
  | leave (e : ExecutorId) (panics : Bool)
  | report (e : ExecutorId)
  | ready (e : ExecutorId)
  /-- The thread of an executor that panicked reports it and ends. -/
  | close (e : ExecutorId)
  /-- `run_blocking` takes a message out of the panic channel. -/
  | drainPanic
  /-- The last `Arc` of the task manager is dropped. -/
  | dropManager

namespace RefCounts

variable {τ : Type*} [DecidableEq τ]

/-- A runtime before its first task. -/
def new (workers : ℕ) : RefCounts τ where
  workers := workers
  manager := .registeredWith (List.range workers)
  upgrades := true
  panics := 0
  abort := fun _ => false
  poisoned := fun _ => false
  strong := fun _ => 0
  wakers := fun _ => 0
  executor := fun _ => .recv

/-- An operation on an `Arc` of the task. -/
def onArc (s : RefCounts τ) (t : τ) (f : ℤ → ℤ) : RefCounts τ :=
  { s with strong := Function.update s.strong t (f (s.strong t)) }

/-- The drop of several `Arc`s. -/
def dropArcs (s : RefCounts τ) : List τ → RefCounts τ
  | [] => s
  | t :: ts => dropArcs (s.onArc t Arc.drop) ts

/-- A waker is made, or goes. -/
def setWakers (s : RefCounts τ) (t : τ) (n : ℕ) : RefCounts τ :=
  { s with wakers := Function.update s.wakers t n }

def setExecutor (s : RefCounts τ) (e : ExecutorId) (p : Forwarding τ) : RefCounts τ :=
  { s with executor := Function.update s.executor e p }

/-- The wakers of the executors. -/
def executorWakers (s : RefCounts τ) (t : τ) : ℕ :=
  ∑ e ∈ Finset.range s.workers, (s.executor e).waker.toList.count t

/-- The executors that hold the task. -/
def executorsHolding (s : RefCounts τ) (t : τ) : ℕ :=
  ∑ e ∈ Finset.range s.workers, (s.executor e).task.toList.count t

/-- The outstanding wakers. -/
def outstanding (s : RefCounts τ) (t : τ) : ℕ := s.wakers t + s.executorWakers t

/-- The outstanding wakers and the other owners of an `Arc`. -/
def owners (s : RefCounts τ) (t : τ) : ℕ :=
  s.outstanding t + s.manager.entries s.workers t + s.executorsHolding t

/-! ### The calls -/

/-- `register_or_execute_non_blocking_task` with an `Arc` of the caller: the state after it, and
whether it has panicked. `none`: the send waits for room. -/
def registerOrExecute (s : RefCounts τ) (t : τ) : Option (RefCounts τ × Bool) :=
  match s.manager.registerOrExecute s.abort t with
  | .ok (tm, log) =>
      some (dropArcs { s with manager := tm } (TaskManager.skippedTasks log), false)
  | .error .blocked => none
  -- the unwinding drops the `Arc` wherever it has got to
  | .error _ =>
      some (({ s with manager := s.manager.unwound } : RefCounts τ).onArc t Arc.drop, true)

/-- `Task::waker`, on an `Arc` of the caller. -/
def waker (s : RefCounts τ) (t : τ) : RefCounts τ := s.onArc t Arc.intoRaw

/-- `clone`. -/
def clone (s : RefCounts τ) (t : τ) : RefCounts τ :=
  ((((s.onArc t Arc.fromRaw).onArc t Arc.clone).onArc t Arc.forget).onArc t Arc.intoRaw).setWakers t
    (s.wakers t + 1)

/-- `drop`, whose caller has given up the waker. -/
def drop (s : RefCounts τ) (t : τ) : RefCounts τ :=
  (s.onArc t Arc.fromRaw).onArc t Arc.drop

/-- `wake`, whose caller has given up the waker, and whether it has panicked. -/
def wake (s : RefCounts τ) (t : τ) : Option (RefCounts τ × Bool) :=
  let s := s.onArc t Arc.fromRaw
  if s.upgrades then s.registerOrExecute t else some (s.onArc t Arc.drop, true)

/-- `wake_by_ref`, and whether it has panicked. -/
def wakeByRef (s : RefCounts τ) (t : τ) : Option (RefCounts τ × Bool) :=
  let s := s.onArc t Arc.fromRaw
  if s.upgrades then
    ((s.onArc t Arc.clone).registerOrExecute t).map fun
      | (s', false) => (s'.onArc t Arc.forget, false)
      -- the unwinding drops `arc`, and the `forget` is not reached
      | (s', true) => (s'.onArc t Arc.drop, true)
  else some (s.onArc t Arc.drop, true)

/-- `executor_ready`. An executor in which it panics does not come back. -/
def executorReady (s : RefCounts τ) (e : ExecutorId) : Option (RefCounts τ) :=
  match s.manager.executorReady s.abort e with
  | .ok (tm, log) =>
      some ((dropArcs { s with manager := tm } (TaskManager.skippedTasks log)).setExecutor e .recv)
  | .error .blocked => none
  | .error _ =>
      let p := TaskManager.popLive s.abort s.manager.waitingTasks.items.length
        s.manager.waitingTasks
      some ((dropArcs { s with manager := { s.manager with waitingTasks := p.rest } }
        (p.skipped ++ p.task.toList)).setExecutor e .dead)

/-- One step of one party. A task may be spawned under a name that nothing has. -/
def step (s : RefCounts τ) : RefLabel τ → Option (RefCounts τ)
  | .spawn t =>
      if s.upgrades ∧ s.strong t = 0 ∧ s.owners t = 0 then
        (registerOrExecute { s.onArc t fun _ => Arc.new with
          abort := Function.update s.abort t false
          poisoned := Function.update s.poisoned t false } t).map Prod.fst
      else none
  | .clone t => if 0 < s.outstanding t then some (s.clone t) else none
  | .drop t => if 0 < s.wakers t then some ((s.setWakers t (s.wakers t - 1)).drop t) else none
  | .wake t =>
      if 0 < s.wakers t then ((s.setWakers t (s.wakers t - 1)).wake t).map Prod.fst else none
  | .wakeByRef t => if 0 < s.outstanding t then (s.wakeByRef t).map Prod.fst else none
  | .abort t => some { s with abort := Function.update s.abort t true }
  | .recv e =>
      match s.executor e with
      | .recv =>
          match s.manager.recvTask e with
          | some (.task t, tm) => some (({ s with manager := tm } : RefCounts τ).setExecutor e
              (.received t))
          | some (.finished, tm) => some (({ s with manager := tm } : RefCounts τ).setExecutor e
              .dead)
          | none => none
      | _ => none
  | .forward e =>
      match s.executor e with
      | .received t =>
          if ∀ e' < s.workers, s.executor e' ≠ .forwarding t then
            if s.poisoned t then some ((s.onArc t Arc.drop).setExecutor e .dead)
            else some (((s.onArc t Arc.clone).waker t).setExecutor e (.forwarding t))
          -- the lock is taken
          else none
      | _ => none
  | .leave e panics =>
      match s.executor e with
      | .forwarding t =>
          if panics then
            some (({ s with poisoned := Function.update s.poisoned t true } :
              RefCounts τ).setExecutor e (.reporting t))
          else some (((s.drop t).onArc t Arc.drop).setExecutor e .ready)
      | _ => none
  | .report e =>
      match s.executor e with
      | .reporting t =>
          if s.panics < Executors.panicBound then
            let s := { s with panics := s.panics + 1 }
            some (((s.drop t).onArc t Arc.drop).setExecutor e .ready)
          else none
      | _ => none
  | .ready e =>
      match s.executor e with
      | .ready => s.executorReady e
      | _ => none
  | .close e =>
      match s.executor e with
      | .dead =>
          if s.panics < Executors.panicBound then
            -- `ready_queue` is dropped with the tasks in it
            some ((dropArcs { s with
              panics := s.panics + 1
              manager := s.manager.closeChannel e }
              (TaskManager.tasksOf (s.manager.inbox e))).setExecutor e .gone)
          else none
      | _ => none
  | .drainPanic => if 0 < s.panics then some { s with panics := s.panics - 1 } else none
  | .dropManager =>
      -- the executors have a share of it until they end; the ring buffer of the waiting tasks is
      -- of `MaybeUninit`s, which are freed without dropping what is in them
      if s.upgrades ∧ ∀ e < s.workers, s.executor e = .gone then
        some { s with
          upgrades := false
          manager := { s.manager with waitingTasks := s.manager.waitingTasks.clear } }
      else none

/-- The runs of the tasks of one task manager. -/
def refCounts (τ : Type*) [DecidableEq τ] (workers : ℕ) :
    TransitionSystem (RefCounts τ) (RefLabel τ) where
  init s := s = new workers
  step := step

/-! ### The property and the condition -/

/-- Something has a count of the task. -/
def Owned (s : RefCounts τ) (t : τ) : Prop :=
  0 < s.wakers t ∨ t ∈ s.manager.waitingTasks.items ∨ (∃ e, .task t ∈ s.manager.inbox e) ∨
    ∃ e, (s.executor e).task = some t

/-- The count of every task is the number of its owners, so it is 0 when there is none, and only
then. -/
structure Exact (s : RefCounts τ) : Prop where
  count : ∀ t, s.strong t = s.owners t
  zero : ∀ t, s.strong t = 0 ↔ ¬ s.Owned t

/-- A call of `wake_by_ref` finds the task manager alive, and the task aborted, or a waiting
executor that is connected, or no waiting executor and room in the queue; the task manager is
dropped with no task in its queue. -/
def Clean (s : RefCounts τ) : RefLabel τ → Prop
  | .wakeByRef t => s.upgrades = true ∧ s.manager.registers s.abort t = true
  | .dropManager => s.manager.waitingTasks.items = []
  | _ => True

instance (s : RefCounts τ) : ∀ a, Decidable (s.Clean a)
  | .wakeByRef _ => inferInstanceAs (Decidable (_ ∧ _))
  | .dropManager => inferInstanceAs (Decidable (_ = _))
  | .spawn _ | .clone _ | .drop _ | .wake _ | .abort _ | .recv _ | .forward _ | .leave _ _
  | .report _ | .ready _ | .close _ | .drainPanic => .isTrue trivial

/-! ### Counts that nobody owns -/

/-- What the count has over the owners. Inside a call this is the `Arc` that the call has in
hand. -/
def unowned (s : RefCounts τ) (t : τ) : ℤ := s.strong t - s.owners t

variable {s s' : RefCounts τ} {t u : τ} {e : ExecutorId}

theorem unowned_onArc {f : ℤ → ℤ} {d : ℤ} (hf : f (s.strong t) = s.strong t + d) :
    (s.onArc t f).unowned u = s.unowned u + d * [t].count u := by
  show Function.update s.strong t _ u - (s.owners u : ℤ) = s.strong u - s.owners u + _
  by_cases hu : u = t
  · subst hu
    rw [Function.update_self, hf, List.count_singleton_self]
    push_cast
    ring
  · rw [Function.update_of_ne hu, List.count_eq_zero.2 (by simpa using hu)]
    push_cast
    ring

theorem unowned_clone : (s.onArc t Arc.clone).unowned u = s.unowned u + [t].count u := by
  rw [unowned_onArc (d := 1) rfl, one_mul]

theorem unowned_drop : (s.onArc t Arc.drop).unowned u = s.unowned u - [t].count u := by
  rw [unowned_onArc (d := -1) rfl]
  ring

theorem unowned_dropArcs (l : List τ) : (s.dropArcs l).unowned u = s.unowned u - l.count u := by
  induction l generalizing s with
  | nil => simp [dropArcs]
  | cons t l ih =>
    rw [dropArcs, ih, unowned_drop, count_head t l]
    push_cast
    ring

/-- The count that a raw pointer stands for stays as it is. -/
theorem onArc_self {f : ℤ → ℤ} (hf : f (s.strong t) = s.strong t) : s.onArc t f = s := by
  rw [onArc, hf, Function.update_eq_self]

@[simp] theorem onArc_fromRaw : s.onArc t Arc.fromRaw = s := onArc_self rfl
@[simp] theorem onArc_intoRaw : s.onArc t Arc.intoRaw = s := onArc_self rfl
@[simp] theorem onArc_forget : s.onArc t Arc.forget = s := onArc_self rfl

/-- The entries change as the task manager does. -/
theorem unowned_manager {tm : TaskManager τ} : ({ s with manager := tm } : RefCounts τ).unowned u =
    s.unowned u + s.manager.entries s.workers u - tm.entries s.workers u := by
  simp only [unowned, owners, outstanding, executorWakers, executorsHolding]
  push_cast
  ring

theorem unowned_setWakers {n : ℕ} : (s.setWakers t n).unowned u =
    s.unowned u + (s.wakers t - n) * [t].count u := by
  show s.strong u - ((Function.update s.wakers t n u + s.executorWakers u +
      s.manager.entries s.workers u + s.executorsHolding u : ℕ) : ℤ) =
    s.strong u - ((s.wakers u + s.executorWakers u + s.manager.entries s.workers u +
      s.executorsHolding u : ℕ) : ℤ) + _
  by_cases hu : u = t
  · subst hu
    rw [Function.update_self, List.count_singleton_self]
    push_cast
    ring
  · rw [Function.update_of_ne hu, List.count_eq_zero.2 (by simpa using hu)]
    push_cast
    ring

/-- An executor moves from `p` to `q`. -/
theorem unowned_setExecutor {p q : Forwarding τ} (hlt : e < s.workers) (he : s.executor e = p) :
    (s.setExecutor e q).unowned u = s.unowned u + p.arcs.count u - q.arcs.count u := by
  have hwaker : (s.setExecutor e q).executorWakers u + (s.executor e).waker.toList.count u =
      s.executorWakers u + q.waker.toList.count u :=
    sum_update (fun p : Forwarding τ => p.waker.toList.count u) s.executor
      (Finset.mem_range.2 hlt) q
  have htask : (s.setExecutor e q).executorsHolding u + (s.executor e).task.toList.count u =
      s.executorsHolding u + q.task.toList.count u :=
    sum_update (fun p : Forwarding τ => p.task.toList.count u) s.executor
      (Finset.mem_range.2 hlt) q
  rw [he] at hwaker htask
  have hp := p.count_arcs u
  have hq := q.count_arcs u
  show s.strong u - ((s.wakers u + (s.setExecutor e q).executorWakers u +
      s.manager.entries s.workers u + (s.setExecutor e q).executorsHolding u : ℕ) : ℤ) =
    s.strong u - ((s.wakers u + s.executorWakers u + s.manager.entries s.workers u +
      s.executorsHolding u : ℕ) : ℤ) + _ - _
  omega

/-! ### What holds in every run -/

/-- Whatever is not one of the workers has nothing. -/
structure Inv (s : RefCounts τ) : Prop where
  within : Below s.workers s.manager.executors
  beyond : ∀ e, s.workers ≤ e → s.executor e = .recv

section Invariant

omit [DecidableEq τ]

theorem Inv.new (workers : ℕ) : Inv (new workers : RefCounts τ) := by
  refine ⟨fun e he => ?_, fun _ _ => rfl⟩
  show (TaskManager.registeredWith (List.range workers)).executors e = none
  unfold TaskManager.registeredWith
  split
  · rename_i tm htm
    obtain ⟨-, -, -, hmap⟩ := TaskManager.registerExecutors_eq_ok htm
    have hnot : e ∉ List.range workers := fun hmem => absurd (List.mem_range.1 hmem) (not_lt.2 he)
    rw [hmap e, if_neg hnot]
    rfl
  · rfl

theorem Inv.lt (hI : Inv s) (he : s.executor e ≠ .recv) : e < s.workers := by
  by_contra hlt
  exact he (hI.beyond e (not_lt.1 hlt))

theorem Inv.manager (hI : Inv s) {tm : TaskManager τ} (h : Below s.workers tm.executors) :
    Inv { s with manager := tm } :=
  ⟨h, hI.beyond⟩

theorem Inv.setExecutor (hI : Inv s) (he : e < s.workers) (p : Forwarding τ) :
    Inv (s.setExecutor e p) := by
  refine ⟨hI.within, fun e' he' => ?_⟩
  have hne : e' ≠ e := by
    rintro rfl
    exact absurd he (not_lt.2 he')
  show Function.update s.executor e p e' = .recv
  rw [Function.update_of_ne hne, hI.beyond e' he']

end Invariant

theorem Inv.onArc (hI : Inv s) (t : τ) (f : ℤ → ℤ) : Inv (s.onArc t f) := ⟨hI.within, hI.beyond⟩

theorem Inv.setWakers (hI : Inv s) (t : τ) (n : ℕ) : Inv (s.setWakers t n) :=
  ⟨hI.within, hI.beyond⟩

theorem dropArcs_executor (l : List τ) : (s.dropArcs l).executor = s.executor := by
  induction l generalizing s with
  | nil => rfl
  | cons t l ih => exact ih

theorem Inv.dropArcs (hI : Inv s) (l : List τ) : Inv (s.dropArcs l) := by
  induction l generalizing s with
  | nil => exact hI
  | cons t l ih => exact ih (hI.onArc t _)

/-- An executor moves from `p` to `q`. -/
theorem setExecutor_spec (hI : Inv s) {p q : Forwarding τ} (he : s.executor e = p)
    (hp : p ≠ .recv) : Inv (s.setExecutor e q) ∧
      ∀ u, (s.setExecutor e q).unowned u = s.unowned u + p.arcs.count u - q.arcs.count u := by
  have hlt : e < s.workers := hI.lt (by rwa [he])
  exact ⟨hI.setExecutor hlt q, fun u => unowned_setExecutor hlt he⟩

/-! ### What a call does to the counts -/

/-- A registration takes the `Arc` it is given, whether it returns or panics. -/
theorem registerOrExecute_spec (hI : Inv s) {panics : Bool}
    (h : s.registerOrExecute t = some (s', panics)) : Inv s' ∧
      (∀ u, s'.unowned u = s.unowned u - [t].count u) ∧
      panics = !s.manager.registers s.abort t := by
  unfold registerOrExecute at h
  split at h
  · rename_i tm log hreg
    cases h
    obtain ⟨hwithin, hentries⟩ := (TaskManager.registration hreg).entries hI.within
    refine ⟨(hI.manager hwithin).dropArcs _, fun u => ?_,
      by simp [TaskManager.registers_of_ok hreg]⟩
    have hu := hentries u
    rw [unowned_dropArcs, unowned_manager]
    omega
  · cases h
  · rename_i f hf hreg
    cases h
    obtain ⟨hwithin, hentries⟩ := TaskManager.entries_unwound hI.within
    refine ⟨(hI.manager hwithin).onArc _ _, fun u => ?_,
      by simp [TaskManager.registers_of_error hreg hf]⟩
    rw [unowned_drop, unowned_manager, hentries]
    ring

/-- `clone` adds a waker and a count. -/
theorem clone_spec (hI : Inv s) : Inv (s.clone t) ∧ ∀ u, (s.clone t).unowned u = s.unowned u := by
  simp only [clone, onArc_fromRaw, onArc_forget, onArc_intoRaw]
  refine ⟨(hI.onArc _ _).setWakers _ _, fun u => ?_⟩
  rw [unowned_setWakers, unowned_clone]
  show s.unowned u + [t].count u + (s.wakers t - (s.wakers t + 1 : ℕ)) * [t].count u = s.unowned u
  push_cast
  ring

/-- A waker is given up. -/
theorem unowned_giveUp (hpos : 0 < s.wakers t) :
    (s.setWakers t (s.wakers t - 1)).unowned u = s.unowned u + [t].count u := by
  rw [unowned_setWakers, Nat.cast_sub hpos]
  push_cast
  ring

theorem drop_spec (hI : Inv s) :
    Inv (s.drop t) ∧ ∀ u, (s.drop t).unowned u = s.unowned u - [t].count u := by
  simp only [drop, onArc_fromRaw]
  exact ⟨hI.onArc _ _, fun u => unowned_drop⟩

/-- `wake` takes the count of its waker, whether it returns or panics. -/
theorem wake_spec (hI : Inv s) {panics : Bool} (h : s.wake t = some (s', panics)) :
    Inv s' ∧ ∀ u, s'.unowned u = s.unowned u - [t].count u := by
  simp only [wake, onArc_fromRaw] at h
  split at h
  · obtain ⟨hI', hunowned, -⟩ := registerOrExecute_spec hI h
    exact ⟨hI', hunowned⟩
  · cases h
    exact ⟨hI.onArc _ _, fun u => unowned_drop⟩

/-- `wake_by_ref` takes no count if it returns, and one if it panics. -/
theorem wakeByRef_spec (hI : Inv s) {panics : Bool} (h : s.wakeByRef t = some (s', panics)) :
    Inv s' ∧ (∀ u, s'.unowned u = s.unowned u - (if panics then [t].count u else 0 : ℕ)) ∧
      (panics = false ↔ s.upgrades = true ∧ s.manager.registers s.abort t = true) := by
  simp only [wakeByRef, onArc_fromRaw] at h
  split at h
  · rename_i hup
    simp only [Option.map_eq_some_iff, Prod.exists] at h
    obtain ⟨s₁, panics₁, hreg, h⟩ := h
    obtain ⟨hI₁, hunowned, hpanics⟩ := registerOrExecute_spec (hI.onArc t Arc.clone) hreg
    simp only [unowned_clone] at hunowned
    change panics₁ = !s.manager.registers s.abort t at hpanics
    cases panics₁ with
    | false =>
      cases h
      rw [onArc_forget]
      exact ⟨hI₁, by simpa using hunowned, by simpa [hup] using hpanics⟩
    | true =>
      cases h
      refine ⟨hI₁.onArc _ _, fun u => ?_, by simpa [hup] using hpanics⟩
      rw [unowned_drop, hunowned, if_pos rfl]
      ring
  · rename_i hup
    cases h
    exact ⟨hI.onArc _ _, fun u => unowned_drop, by simp [hup]⟩

/-- The entries of the task manager that go are dropped, and the executor has no `Arc` before nor
after. -/
theorem dropEntries_spec (hI : Inv s) {tm : TaskManager τ} {l : List τ} {p q : Forwarding τ}
    (he : s.executor e = p) (hp : p ≠ .recv) (hpq : p.arcs = [] ∧ q.arcs = [])
    (hwithin : Below s.workers tm.executors)
    (hentries : ∀ u, tm.entries s.workers u + l.count u = s.manager.entries s.workers u) :
    Inv ((dropArcs { s with manager := tm } l).setExecutor e q) ∧
      ∀ u, ((dropArcs { s with manager := tm } l).setExecutor e q).unowned u = s.unowned u := by
  obtain ⟨hI', hunowned⟩ := setExecutor_spec (q := q)
    ((hI.manager hwithin).dropArcs l) (by rw [dropArcs_executor]; exact he) hp
  refine ⟨hI', fun u => ?_⟩
  have hu := hentries u
  rw [hunowned, unowned_dropArcs, unowned_manager, hpq.1, hpq.2, List.count_nil]
  omega

/-- `executor_ready` hands the counts on or lets them go. -/
theorem executorReady_spec (hI : Inv s) (he : s.executor e = .ready)
    (h : s.executorReady e = some s') : Inv s' ∧ ∀ u, s'.unowned u = s.unowned u := by
  unfold executorReady at h
  split at h
  · rename_i tm log hready
    cases h
    obtain ⟨hwithin, hentries⟩ := (TaskManager.readying hready).entries hI.within
    exact dropEntries_spec hI he (by simp) ⟨rfl, rfl⟩ hwithin hentries
  · cases h
  · cases h
    exact dropEntries_spec hI he (by simp) ⟨rfl, rfl⟩ hI.within
      (TaskManager.entries_popLive s.abort s.manager s.workers)

/-! ### What a step does to the counts -/

/-- What a step adds to the counts that nobody owns. -/
def drift (s : RefCounts τ) : RefLabel τ → τ → ℤ
  | .wakeByRef t, u =>
      if s.upgrades = true ∧ s.manager.registers s.abort t = true then 0 else -[t].count u
  | .dropManager, u => s.manager.waitingTasks.items.count u
  | _, _ => 0

theorem spawn_spec (hI : Inv s) (hs : s.step (.spawn t) = some s') :
    Inv s' ∧ ∀ u, s'.unowned u = s.unowned u := by
  simp only [step, Option.ite_none_right_eq_some, Option.map_eq_some_iff, Prod.exists] at hs
  obtain ⟨⟨-, hzero, howners⟩, s₁, panics, hreg, rfl⟩ := hs
  have hI₀ : Inv { s.onArc t fun _ => Arc.new with
      abort := Function.update s.abort t false
      poisoned := Function.update s.poisoned t false } := ⟨hI.within, hI.beyond⟩
  obtain ⟨hI', hunowned, -⟩ := registerOrExecute_spec hI₀ hreg
  refine ⟨hI', fun u => ?_⟩
  have hnew : ({ s.onArc t fun _ => Arc.new with
      abort := Function.update s.abort t false
      poisoned := Function.update s.poisoned t false } : RefCounts τ).unowned u =
        s.unowned u + [t].count u := by
    show (s.onArc t fun _ => Arc.new).unowned u = _
    rw [unowned_onArc (d := 1) (by rw [hzero]; rfl), one_mul]
  rw [hunowned, hnew]
  ring

/-- A message that is received takes its entry along. -/
theorem received_spec (hI : Inv s) {x : ExecutorTask τ} {tm : TaskManager τ} {p : Forwarding τ}
    (he : s.executor e = .recv) (hrecv : s.manager.recvTask e = some (x, tm))
    (hp : ∀ u, p.arcs.count u = [x].count (.task u)) :
    Inv (({ s with manager := tm } : RefCounts τ).setExecutor e p) ∧
      ∀ u, (({ s with manager := tm } : RefCounts τ).setExecutor e p).unowned u =
        s.unowned u := by
  obtain ⟨hwithin, hentries⟩ := TaskManager.entries_recvTask hI.within hrecv
  obtain ⟨ch, -, hch, -, -⟩ := TaskManager.recvTask_eq_some hrecv
  have hlt : e < s.workers := hI.within.lt hch
  refine ⟨(hI.manager hwithin).setExecutor hlt p, fun u => ?_⟩
  have hu := hentries u
  have hpu := hp u
  have hnone : (Forwarding.recv : Forwarding τ).arcs = [] := rfl
  rw [unowned_setExecutor (s := { s with manager := tm }) hlt he, unowned_manager, hnone,
    List.count_nil]
  omega

theorem recv_spec (hI : Inv s) (hs : s.step (.recv e) = some s') :
    Inv s' ∧ ∀ u, s'.unowned u = s.unowned u := by
  simp only [step] at hs
  split at hs
  · rename_i he
    split at hs
    · rename_i t tm hrecv
      cases hs
      exact received_spec hI he hrecv fun u => by simp [Forwarding.arcs, List.count_singleton]
    · rename_i tm hrecv
      cases hs
      exact received_spec hI he hrecv fun u => by simp [Forwarding.arcs]
    · cases hs
  · cases hs

/-- The executor takes an `Arc` for its waker, or drops the task and dies. -/
theorem forward_spec (hI : Inv s) (hs : s.step (.forward e) = some s') :
    Inv s' ∧ ∀ u, s'.unowned u = s.unowned u := by
  simp only [step] at hs
  split at hs
  · rename_i t he
    rw [Option.ite_none_right_eq_some] at hs
    obtain ⟨-, hs⟩ := hs
    split at hs
    · cases hs
      obtain ⟨hI', hunowned⟩ := setExecutor_spec (q := .dead)
        (hI.onArc t Arc.drop) he (by simp)
      refine ⟨hI', fun u => ?_⟩
      rw [hunowned, unowned_drop]
      simp [Forwarding.arcs]
    · cases hs
      simp only [waker, onArc_intoRaw]
      obtain ⟨hI', hunowned⟩ := setExecutor_spec (q := .forwarding t)
        (hI.onArc t Arc.clone) he (by simp)
      refine ⟨hI', fun u => ?_⟩
      have hcount : (Forwarding.forwarding t).arcs.count u = [t].count u + [t].count u :=
        count_head t [t] u
      rw [hunowned, unowned_clone, hcount]
      simp only [Forwarding.arcs]
      push_cast
      ring
  · cases hs

/-- `forward_task` returns: the waker and the task are dropped. -/
theorem return_spec (hI : Inv s) {p : Forwarding τ} (he : s.executor e = p) (hp : p ≠ .recv)
    (harcs : p.arcs = [t, t]) : Inv (((s.drop t).onArc t Arc.drop).setExecutor e .ready) ∧
      ∀ u, (((s.drop t).onArc t Arc.drop).setExecutor e .ready).unowned u = s.unowned u := by
  simp only [drop, onArc_fromRaw]
  obtain ⟨hI', hunowned⟩ := setExecutor_spec (q := .ready)
    ((hI.onArc t Arc.drop).onArc t Arc.drop) he hp
  refine ⟨hI', fun u => ?_⟩
  have hcount : p.arcs.count u = [t].count u + [t].count u := by
    rw [harcs]
    exact count_head t [t] u
  rw [hunowned, unowned_drop, unowned_drop, hcount]
  simp only [Forwarding.arcs, List.count_nil]
  push_cast
  ring

theorem leave_spec (hI : Inv s) {panics : Bool} (hs : s.step (.leave e panics) = some s') :
    Inv s' ∧ ∀ u, s'.unowned u = s.unowned u := by
  simp only [step] at hs
  split at hs
  · rename_i t he
    split at hs
    · cases hs
      obtain ⟨hI', hunowned⟩ := setExecutor_spec (q := .reporting t)
        (s := { s with poisoned := Function.update s.poisoned t true })
        ⟨hI.within, hI.beyond⟩ he (by simp)
      exact ⟨hI', fun u => (hunowned u).trans (add_sub_cancel_right _ _)⟩
    · cases hs
      exact return_spec hI he (by simp) rfl
  · cases hs

theorem report_spec (hI : Inv s) (hs : s.step (.report e) = some s') :
    Inv s' ∧ ∀ u, s'.unowned u = s.unowned u := by
  simp only [step] at hs
  split at hs
  · rename_i t he
    simp only [Option.ite_none_right_eq_some, Option.some.injEq] at hs
    obtain ⟨-, rfl⟩ := hs
    exact return_spec (s := { s with panics := s.panics + 1 }) ⟨hI.within, hI.beyond⟩ he (by simp)
      rfl
  · cases hs

theorem dropManager_spec (hI : Inv s) (hs : s.step .dropManager = some s') :
    Inv s' ∧ ∀ u, s'.unowned u = s.unowned u + s.manager.waitingTasks.items.count u := by
  simp only [step, Option.ite_none_right_eq_some, Option.some.injEq] at hs
  obtain ⟨-, rfl⟩ := hs
  refine ⟨⟨hI.within, hI.beyond⟩, fun u => ?_⟩
  have hentries := TaskManager.entries_queues s.manager s.workers s.manager.waitingTasks.clear
    s.manager.waitingExecutors u
  rw [BoundedQueue.clear_items, List.count_nil] at hentries
  show ({ s with manager := ⟨s.manager.waitingTasks.clear, s.manager.waitingExecutors,
    s.manager.executors⟩ } : RefCounts τ).unowned u = _
  rw [unowned_manager]
  omega

/-- Every step, one case each. -/
theorem step_spec (hI : Inv s) {a : RefLabel τ} (hs : s.step a = some s') :
    Inv s' ∧ ∀ u, s'.unowned u = s.unowned u + s.drift a u := by
  have hquiet : (Inv s' ∧ ∀ u, s'.unowned u = s.unowned u) → s.drift a = 0 →
      Inv s' ∧ ∀ u, s'.unowned u = s.unowned u + s.drift a u := by
    rintro ⟨hI', hunowned⟩ hdrift
    exact ⟨hI', fun u => by rw [hunowned, hdrift, Pi.zero_apply, add_zero]⟩
  cases a with
  | spawn t => exact hquiet (spawn_spec hI hs) rfl
  | clone t =>
    simp only [step, Option.ite_none_right_eq_some, Option.some.injEq] at hs
    obtain ⟨-, rfl⟩ := hs
    exact hquiet (clone_spec hI) rfl
  | drop t =>
    simp only [step, Option.ite_none_right_eq_some, Option.some.injEq] at hs
    obtain ⟨hpos, rfl⟩ := hs
    obtain ⟨hI', hunowned⟩ := drop_spec (t := t) (hI.setWakers t (s.wakers t - 1))
    refine hquiet ⟨hI', fun u => ?_⟩ rfl
    rw [hunowned, unowned_giveUp hpos]
    ring
  | wake t =>
    simp only [step, Option.ite_none_right_eq_some, Option.map_eq_some_iff, Prod.exists] at hs
    obtain ⟨hpos, s₁, panics, hwake, rfl⟩ := hs
    obtain ⟨hI', hunowned⟩ := wake_spec (hI.setWakers t (s.wakers t - 1)) hwake
    refine hquiet ⟨hI', fun u => ?_⟩ rfl
    rw [hunowned, unowned_giveUp hpos]
    ring
  | wakeByRef t =>
    simp only [step, Option.ite_none_right_eq_some, Option.map_eq_some_iff, Prod.exists] at hs
    obtain ⟨-, s₁, panics, hwake, rfl⟩ := hs
    obtain ⟨hI', hunowned, hpanics⟩ := wakeByRef_spec hI hwake
    refine ⟨hI', fun u => ?_⟩
    rw [hunowned, drift]
    simp only [← hpanics]
    cases panics <;> simp [sub_eq_add_neg]
  | abort t =>
    cases hs
    exact hquiet ⟨⟨hI.within, hI.beyond⟩, fun _ => rfl⟩ rfl
  | recv e => exact hquiet (recv_spec hI hs) rfl
  | forward e => exact hquiet (forward_spec hI hs) rfl
  | leave e panics => exact hquiet (leave_spec hI hs) rfl
  | report e => exact hquiet (report_spec hI hs) rfl
  | ready e =>
    simp only [step] at hs
    split at hs
    · rename_i he
      exact hquiet (executorReady_spec hI he hs) rfl
    · cases hs
  | close e =>
    simp only [step] at hs
    split at hs
    · rename_i he
      simp only [Option.ite_none_right_eq_some, Option.some.injEq] at hs
      obtain ⟨-, rfl⟩ := hs
      obtain ⟨hwithin, hentries⟩ := TaskManager.entries_closeChannel hI.within e
      simp only [← TaskManager.count_tasksOf] at hentries
      exact hquiet (dropEntries_spec (s := { s with panics := s.panics + 1 })
        ⟨hI.within, hI.beyond⟩ he (by simp) ⟨rfl, rfl⟩ hwithin hentries) rfl
    · cases hs
  | drainPanic =>
    simp only [step, Option.ite_none_right_eq_some, Option.some.injEq] at hs
    obtain ⟨-, rfl⟩ := hs
    exact hquiet ⟨⟨hI.within, hI.beyond⟩, fun _ => rfl⟩ rfl
  | dropManager => exact dropManager_spec hI hs

/-! ### The results -/

/-- The number of owners is 0 exactly if there is none. -/
theorem owners_eq_zero (hI : Inv s) : s.owners t = 0 ↔ ¬ s.Owned t := by
  simp only [owners, outstanding, executorWakers, executorsHolding, TaskManager.entries,
    TaskManager.channelEntries, Nat.add_eq_zero_iff, Finset.sum_eq_zero_iff, Finset.mem_range,
    List.count_eq_zero, Option.mem_toList]
  constructor
  · rintro ⟨⟨⟨hwakers, -⟩, hqueue, hchannels⟩, hexecutors⟩ (h | h | ⟨e, h⟩ | ⟨e, h⟩)
    · omega
    · exact hqueue h
    · cases hch : s.manager.executors e with
      | none => simp [TaskManager.inbox, hch] at h
      | some ch => exact hchannels e (hI.within.lt hch) h
    · have hrecv : s.executor e ≠ .recv := fun hrecv => by simp [hrecv, Forwarding.task] at h
      exact hexecutors e (hI.lt hrecv) h
  · intro h
    refine ⟨⟨⟨?_, fun e _ hwaker => ?_⟩, fun hqueue => h (.inr (.inl hqueue)),
      fun e _ hchannel => h (.inr (.inr (.inl ⟨e, hchannel⟩)))⟩,
      fun e _ htask => h (.inr (.inr (.inr ⟨e, htask⟩)))⟩
    · by_contra hwakers
      exact h (.inl (Nat.pos_of_ne_zero hwakers))
    · -- an executor with a waker of the task holds the task as well
      refine h (.inr (.inr (.inr ⟨e, ?_⟩)))
      cases hp : s.executor e with
      | forwarding u | reporting u => simpa [hp, Forwarding.waker, Forwarding.task] using hwaker
      | _ => simp [hp, Forwarding.waker] at hwaker

theorem exact_iff_unowned (hI : Inv s) : s.Exact ↔ ∀ t, s.unowned t = 0 := by
  constructor
  · intro h t
    rw [unowned, h.count t, sub_self]
  · intro h
    have hcount : ∀ t, s.strong t = s.owners t := fun t => sub_eq_zero.1 (h t)
    refine ⟨hcount, fun t => ?_⟩
    rw [hcount t, Int.natCast_eq_zero, owners_eq_zero hI]

theorem Exact.new (workers : ℕ) : (RefCounts.new workers : RefCounts τ).Exact := by
  have hmanager : (TaskManager.registeredWith (List.range workers) : TaskManager τ).waitingTasks =
      .empty TaskManager.queueBound ∧
      ∀ e, (TaskManager.registeredWith (List.range workers) : TaskManager τ).inbox e = [] := by
    unfold TaskManager.registeredWith
    split
    · rename_i tm htm
      obtain ⟨htasks, -, -, hmap⟩ := TaskManager.registerExecutors_eq_ok htm
      refine ⟨htasks, fun e => ?_⟩
      unfold TaskManager.inbox
      rw [hmap e]
      split_ifs <;> rfl
    · exact ⟨rfl, fun _ => rfl⟩
  refine (exact_iff_unowned (.new workers)).2 fun t => ?_
  have hzero : (RefCounts.new workers : RefCounts τ).owners t = 0 := by
    rw [owners_eq_zero (.new workers)]
    rintro (h | h | ⟨e, h⟩ | ⟨e, h⟩)
    · cases h
    · simp [RefCounts.new, hmanager.1] at h
    · simp [RefCounts.new, hmanager.2] at h
    · cases h
  rw [unowned, hzero]
  rfl

/-- A step that meets the condition adds nothing. -/
theorem drift_eq_zero_iff {a : RefLabel τ} : (∀ u, s.drift a u = 0) ↔ s.Clean a := by
  cases a with
  | wakeByRef t =>
    simp only [drift, Clean]
    constructor
    · intro h
      by_contra hC
      have ht := h t
      rw [if_neg hC, List.count_singleton_self] at ht
      omega
    · intro hC u
      rw [if_pos hC]
  | dropManager =>
    simp only [drift, Clean, Int.natCast_eq_zero, List.count_eq_zero]
    exact List.eq_nil_iff_forall_not_mem.symm
  | _ => exact ⟨fun _ => trivial, fun _ _ => rfl⟩

/-- A step keeps the counts exact if it meets the condition, and only then. -/
theorem exact_step_iff (hI : Inv s) (hE : s.Exact) {a : RefLabel τ} (hs : s.step a = some s') :
    s'.Exact ↔ s.Clean a := by
  have hunowned : ∀ u, s'.unowned u = s.drift a u := by
    intro u
    rw [(step_spec hI hs).2 u, (exact_iff_unowned hI).1 hE u, zero_add]
  rw [exact_iff_unowned (step_spec hI hs).1, ← drift_eq_zero_iff]
  simp only [hunowned]

/-- Every run: the strong count of every task is the number of its outstanding wakers and other
owners exactly if no call of `wake_by_ref` panics and the task manager is not dropped with a task in
its queue. -/
theorem exact_iff {workers : ℕ} {labels : List (RefLabel τ)}
    (hrun : ((refCounts τ workers).run (new workers) labels).isSome) :
    (refCounts τ workers).Throughout Exact (new workers) labels ↔
      (refCounts τ workers).EachStep Clean (new workers) labels := by
  refine throughout_iff_eachStep (I := fun s => Inv s ∧ s.Exact) (fun _ h => h.2) ?_ ?_
    ⟨.new workers, .new workers⟩ hrun
  · rintro s a s' ⟨hI, hE⟩ hC hs
    exact ⟨(step_spec hI hs).1, (exact_step_iff hI hE hs).2 hC⟩
  · rintro s a s' ⟨hI, hE⟩ hC hs hE'
    exact hC ((exact_step_iff hI hE hs).1 hE')

/-- A task is woken by reference and panics in its second poll; a call of `run_blocking`, whose task
is 1, takes the report. The task is woken by reference once more, the executor ends on its poisoned
lock, the task manager goes, and of the three wakers left one panics in `wake` and the others are
dropped. -/
theorem exact_iff_woken : (refCounts ℕ 1).Throughout Exact (new 1)
    [.spawn 0, .recv 0, .forward 0, .clone 0, .clone 0, .clone 0, .leave 0 false, .ready 0,
      .wakeByRef 0, .recv 0, .forward 0, .leave 0 true, .report 0, .ready 0, .spawn 1, .recv 0,
      .forward 0, .leave 0 false, .ready 0, .drainPanic, .wakeByRef 0, .recv 0, .forward 0,
      .close 0, .dropManager, .wake 0, .drop 0, .drop 0] :=
  (exact_iff (by decide)).2 (by decide)

/-- The poll of task 0 panics, and the executor reports it; the task `1` of a call of `run_blocking`
runs, and the call takes the report. A waker of task 0 outlives the executor, which finds the
future's lock poisoned, and the task manager, and is woken by reference: the call panics, the count
is 0, and the waker is still there. -/
theorem freed_with_waker_left : ∃ s, (refCounts ℕ 1).run (new 1)
    [.spawn 0, .recv 0, .forward 0, .clone 0, .leave 0 true, .report 0, .ready 0, .spawn 1,
      .recv 0, .forward 0, .leave 0 false, .ready 0, .drainPanic, .wakeByRef 0, .recv 0,
      .forward 0, .close 0, .dropManager, .wakeByRef 0] = some s ∧
      s.strong 0 = 0 ∧ s.wakers 0 = 1 ∧ ¬ s.Exact := by
  refine ⟨_, rfl, rfl, rfl, fun h => ?_⟩
  exact (h.zero 0).1 rfl (.inl (by decide))

end RefCounts

end Hooch
