import Hooch.Lib.Census
import Hooch.Task.Manager

/-!
# The executors

`forward_task` of `executor.rs`, step by step: an executor that received a task locks the task's
future, polls it if it is still there, clears it when the poll returns `Ready`, and unlocks it. A
poll that panics poisons the lock, and the executor reports it on the panic channel; an executor
that then finds the lock poisoned panics outside of `catch_unwind`, and its thread ends.

* `Executors`: where each executor stands, the tasks, the panic channel;
* `Executors.step`, `Executors.Next`: the steps that do not touch the task manager;
* `Executors.Ok`: who holds which lock, and what the history of a task says about its future.
-/

namespace Hooch

/-- A `Task`: the mutex around its future, whether the future is still there, and the abort flag.
The last three fields are history. -/
structure Task where
  owner : Option ExecutorId
  poisoned : Bool
  future : Bool
  abort : Bool
  /-- Registered or woken since the start of the latest poll. -/
  notified : Bool
  /-- A poll returned `Ready`. -/
  finished : Bool
  /-- A poll panicked. -/
  panicked : Bool
  deriving DecidableEq

/-- A task as `spawn` makes it. -/
def Task.new : Task := ⟨none, false, true, false, false, false, false⟩

/-- Where an executor stands. -/
inductive ExecutorPc (τ : Type*)
  /-- At `ready_queue.recv()`. -/
  | recv
  /-- At `task.future.lock().unwrap()`. -/
  | received (t : τ)
  /-- At `future.as_mut()`. -/
  | locked (t : τ)
  | polling (t : τ)
  /-- At `*future = None`. -/
  | finishing (t : τ)
  /-- About to drop the guard. -/
  | unlocking (t : τ)
  /-- About to drop the guard while a panic unwinds. -/
  | unwinding (t : τ)
  /-- At `self.panic_tx.send(())`. -/
  | reporting
  /-- At `tm.executor_ready(self.id())`. -/
  | ready
  /-- Returned from `run`. -/
  | stopped
  /-- Out of `run` by a panic, before the thread ends. -/
  | dead
  /-- The thread has ended, and the channel is disconnected. -/
  | gone
  deriving DecidableEq

/-- The task whose future an executor has locked. -/
def ExecutorPc.holds {τ : Type*} : ExecutorPc τ → Option τ
  | .locked t | .polling t | .finishing t | .unlocking t | .unwinding t => some t
  | _ => none

/-- How a poll ends. -/
inductive Outcome
  | pending
  | ready
  | panic
  deriving DecidableEq

/-- The executors, the tasks, and the number of messages in the panic channel. -/
structure Executors (τ : Type*) where
  pc : ExecutorId → ExecutorPc τ
  task : τ → Task
  panics : ℕ

namespace Executors

variable {τ : Type*} [DecidableEq τ]

/-- The capacity of the panic channel. -/
def panicBound : ℕ := 1

def new : Executors τ := ⟨fun _ => .recv, fun _ => .new, 0⟩

def setPc (x : Executors τ) (e : ExecutorId) (p : ExecutorPc τ) : Executors τ :=
  { x with pc := Function.update x.pc e p }

def setTask (x : Executors τ) (t : τ) (k : Task) : Executors τ :=
  { x with task := Function.update x.task t k }

/-- The task was registered or woken. -/
def notify (x : Executors τ) (t : τ) : Executors τ :=
  x.setTask t { x.task t with notified := true }

section Fields

variable (x : Executors τ) (e : ExecutorId) (p : ExecutorPc τ) (t : τ) (k : Task)

omit [DecidableEq τ] in
@[simp] theorem setPc_pc : (x.setPc e p).pc = Function.update x.pc e p := rfl
omit [DecidableEq τ] in
@[simp] theorem setPc_task : (x.setPc e p).task = x.task := rfl
@[simp] theorem setTask_pc : (x.setTask t k).pc = x.pc := rfl
@[simp] theorem setTask_task : (x.setTask t k).task = Function.update x.task t k := rfl

end Fields

/-- The steps of the executors between `recv` and `executor_ready`. -/
inductive Label
  | lock (e : ExecutorId)
  | look (e : ExecutorId)
  | polled (e : ExecutorId) (o : Outcome)
  | clear (e : ExecutorId)
  | unlock (e : ExecutorId)
  | report (e : ExecutorId)
  /-- `run_blocking` takes a message out of the panic channel. -/
  | drainPanic
  deriving DecidableEq

def step (x : Executors τ) : Label → Option (Executors τ)
  | .lock e =>
      match x.pc e with
      | .received t =>
          match (x.task t).owner with
          | some _ => none
          | none =>
              if (x.task t).poisoned then some (x.setPc e .dead)
              else some ((x.setPc e (.locked t)).setTask t { x.task t with owner := some e })
      | _ => none
  | .look e =>
      match x.pc e with
      | .locked t =>
          if (x.task t).future then
            some ((x.setPc e (.polling t)).setTask t { x.task t with notified := false })
          else some (x.setPc e (.unlocking t))
      | _ => none
  | .polled e o =>
      match x.pc e with
      | .polling t =>
          match o with
          | .pending => some (x.setPc e (.unlocking t))
          | .ready =>
              some ((x.setPc e (.finishing t)).setTask t { x.task t with finished := true })
          | .panic =>
              some ((x.setPc e (.unwinding t)).setTask t { x.task t with panicked := true })
      | _ => none
  | .clear e =>
      match x.pc e with
      | .finishing t =>
          some ((x.setPc e (.unlocking t)).setTask t { x.task t with future := false })
      | _ => none
  | .unlock e =>
      match x.pc e with
      | .unlocking t => some ((x.setPc e .ready).setTask t { x.task t with owner := none })
      | .unwinding t =>
          some ((x.setPc e .reporting).setTask t
            { x.task t with owner := none, poisoned := true })
      | _ => none
  | .report e =>
      match x.pc e with
      | .reporting =>
          if x.panics < panicBound then some { x.setPc e .ready with panics := x.panics + 1 }
          else none
      | _ => none
  | .drainPanic => if 0 < x.panics then some { x with panics := x.panics - 1 } else none

variable {x x' : Executors τ}

/-- What a step can do. -/
inductive Next (x : Executors τ) : Label → Executors τ → Prop
  | die {e : ExecutorId} {t : τ} (hpc : x.pc e = .received t) (howner : (x.task t).owner = none)
      (hpoison : (x.task t).poisoned = true) : Next x (.lock e) (x.setPc e .dead)
  | lock {e : ExecutorId} {t : τ} (hpc : x.pc e = .received t) (howner : (x.task t).owner = none)
      (hpoison : (x.task t).poisoned = false) :
      Next x (.lock e) ((x.setPc e (.locked t)).setTask t { x.task t with owner := some e })
  | poll {e : ExecutorId} {t : τ} (hpc : x.pc e = .locked t) (hfut : (x.task t).future = true) :
      Next x (.look e) ((x.setPc e (.polling t)).setTask t { x.task t with notified := false })
  | pass {e : ExecutorId} {t : τ} (hpc : x.pc e = .locked t) (hfut : (x.task t).future = false) :
      Next x (.look e) (x.setPc e (.unlocking t))
  | pending {e : ExecutorId} {t : τ} (hpc : x.pc e = .polling t) :
      Next x (.polled e .pending) (x.setPc e (.unlocking t))
  | finish {e : ExecutorId} {t : τ} (hpc : x.pc e = .polling t) :
      Next x (.polled e .ready)
        ((x.setPc e (.finishing t)).setTask t { x.task t with finished := true })
  | panic {e : ExecutorId} {t : τ} (hpc : x.pc e = .polling t) :
      Next x (.polled e .panic)
        ((x.setPc e (.unwinding t)).setTask t { x.task t with panicked := true })
  | clear {e : ExecutorId} {t : τ} (hpc : x.pc e = .finishing t) :
      Next x (.clear e) ((x.setPc e (.unlocking t)).setTask t { x.task t with future := false })
  | unlock {e : ExecutorId} {t : τ} (hpc : x.pc e = .unlocking t) :
      Next x (.unlock e) ((x.setPc e .ready).setTask t { x.task t with owner := none })
  | unwind {e : ExecutorId} {t : τ} (hpc : x.pc e = .unwinding t) :
      Next x (.unlock e)
        ((x.setPc e .reporting).setTask t { x.task t with owner := none, poisoned := true })
  | report {e : ExecutorId} (hpc : x.pc e = .reporting) (hroom : x.panics < panicBound) :
      Next x (.report e) { x.setPc e .ready with panics := x.panics + 1 }
  | drainPanic (hpos : 0 < x.panics) : Next x .drainPanic { x with panics := x.panics - 1 }

theorem next_of_step {a : Label} (h : x.step a = some x') : Next x a x' := by
  cases a with
  | lock e =>
    simp only [step] at h
    split at h
    · rename_i t hpc
      split at h
      · cases h
      · rename_i howner
        split at h
        · rename_i hpoison
          cases h
          exact .die hpc howner hpoison
        · rename_i hpoison
          cases h
          exact .lock hpc howner (by simpa using hpoison)
    · cases h
  | look e =>
    simp only [step] at h
    split at h
    · rename_i t hpc
      split at h
      · rename_i hfut
        cases h
        exact .poll hpc hfut
      · rename_i hfut
        cases h
        exact .pass hpc (by simpa using hfut)
    · cases h
  | polled e o =>
    simp only [step] at h
    split at h
    · rename_i t hpc
      cases o <;> cases h
      · exact .pending hpc
      · exact .finish hpc
      · exact .panic hpc
    · cases h
  | clear e =>
    simp only [step] at h
    split at h
    · rename_i t hpc
      cases h
      exact .clear hpc
    · cases h
  | unlock e =>
    simp only [step] at h
    split at h
    · rename_i t hpc
      cases h
      exact .unlock hpc
    · rename_i t hpc
      cases h
      exact .unwind hpc
    · cases h
  | report e =>
    simp only [step] at h
    split at h
    · rename_i hpc
      split at h
      · rename_i hroom
        cases h
        exact .report hpc hroom
      · cases h
    · cases h
  | drainPanic =>
    simp only [step] at h
    split at h
    · rename_i hpos
      cases h
      exact .drainPanic hpos
    · cases h

/-! ### The lock and the history -/

/-- An executor holds a task's lock exactly where its program says so, and the future of a task
is gone exactly when a poll of it returned `Ready`, up to the executor about to clear it. -/
structure Ok (x : Executors τ) : Prop where
  owner : ∀ e t, (x.pc e).holds = some t ↔ (x.task t).owner = some e
  polling : ∀ e t, x.pc e = .polling t → (x.task t).future = true ∧ (x.task t).finished = false
  finishing : ∀ e t, x.pc e = .finishing t → (x.task t).finished = true
  cleared : ∀ t, (x.task t).future = false → (x.task t).finished = true
  finished : ∀ t, (x.task t).finished = true →
    (x.task t).future = false ∨ ∃ e, x.pc e = .finishing t
  unwinding : ∀ e t, x.pc e = .unwinding t → (x.task t).panicked = true
  poisoned : ∀ t, (x.task t).poisoned = true → (x.task t).panicked = true
  panicked : ∀ t, (x.task t).panicked = true →
    (x.task t).poisoned = true ∨ ∃ e, x.pc e = .unwinding t
  sound : ∀ e t, (x.pc e).holds = some t → (x.task t).poisoned = false

section Held

omit [DecidableEq τ]

theorem Ok.new : Ok (Executors.new : Executors τ) := by
  constructor <;> simp [Executors.new, Task.new, ExecutorPc.holds]

/-- The panic channel is none of its business. -/
theorem Ok.setPanics (h : Ok x) {n : ℕ} : Ok { x with panics := n } :=
  ⟨h.owner, h.polling, h.finishing, h.cleared, h.finished, h.unwinding, h.poisoned, h.panicked,
    h.sound⟩

/-- Two executors do not hold the same lock. -/
theorem Ok.unique (h : Ok x) {e e' : ExecutorId} {t : τ} (he : (x.pc e).holds = some t)
    (he' : (x.pc e').holds = some t) : e = e' := by
  rw [h.owner] at he he'
  exact Option.some.inj (he.symm.trans he')

/-- While the lock is held, the poll that finished or panicked is the holder's. -/
theorem Ok.finished_of_holds (h : Ok x) {e : ExecutorId} {t : τ} (he : (x.pc e).holds = some t)
    (hne : x.pc e ≠ .finishing t) (hf : (x.task t).finished = true) :
    (x.task t).future = false := by
  rcases h.finished t hf with hk | ⟨e', he'⟩
  · exact hk
  · have hholds : (x.pc e').holds = some t := by rw [he']; rfl
    obtain rfl := h.unique he hholds
    exact absurd he' hne

theorem Ok.not_panicked (h : Ok x) {e : ExecutorId} {t : τ} (he : (x.pc e).holds = some t)
    (hne : x.pc e ≠ .unwinding t) : (x.task t).panicked = false := by
  rw [← Bool.not_eq_true]
  intro hp
  rcases h.panicked t hp with hk | ⟨e', he'⟩
  · rw [h.sound e t he] at hk
    cases hk
  · have hholds : (x.pc e').holds = some t := by rw [he']; rfl
    obtain rfl := h.unique he hholds
    exact absurd he' hne

/-- Who stands at `q` stays there when an executor moves that stands elsewhere. -/
theorem exists_pc_setPc {q p : ExecutorPc τ} {e : ExecutorId} (hq : x.pc e ≠ q)
    (h : ∃ e', x.pc e' = q) : ∃ e', (x.setPc e p).pc e' = q :=
  Census.exists_update (· = q) hq h

/-- Moving an executor that neither held a lock nor holds one afterwards. -/
theorem Ok.setPc (h : Ok x) {e : ExecutorId} {p : ExecutorPc τ} (hold : (x.pc e).holds = none)
    (hp : p.holds = none) : Ok (x.setPc e p) := by
  -- Whoever holds a lock afterwards stands where it stood.
  have hwho : ∀ e' q, q.holds ≠ none → (x.setPc e p).pc e' = q → x.pc e' = q := by
    intro e' q hq hpc
    by_cases he : e' = e
    · rw [he, setPc_pc, Function.update_self] at hpc
      rw [← hpc] at hq
      exact absurd hp hq
    · rwa [setPc_pc, Function.update_of_ne he] at hpc
  refine ⟨fun e' t => ?_, fun e' t hpc => h.polling e' t (hwho e' _ nofun hpc),
    fun e' t hpc => h.finishing e' t (hwho e' _ nofun hpc), h.cleared, fun t ht => ?_,
    fun e' t hpc => h.unwinding e' t (hwho e' _ nofun hpc), h.poisoned, fun t ht => ?_,
    fun e' t hpc => h.sound e' t ?_⟩
  · by_cases he : e' = e
    · subst he
      have := h.owner e' t
      rw [hold] at this
      simpa [hp] using this
    · simpa [he] using h.owner e' t
  · refine (h.finished t ht).imp_right (exists_pc_setPc fun hpc => ?_)
    rw [hpc] at hold
    cases hold
  · refine (h.panicked t ht).imp_right (exists_pc_setPc fun hpc => ?_)
    rw [hpc] at hold
    cases hold
  · rwa [hwho e' _ (by rw [hpc]; simp) rfl]

end Held

/-- Changing the abort flag or the notification of a task. -/
theorem Ok.setTask (h : Ok x) {t : τ} {k : Task} (howner : k.owner = (x.task t).owner)
    (hpoisoned : k.poisoned = (x.task t).poisoned) (hfuture : k.future = (x.task t).future)
    (hfinished : k.finished = (x.task t).finished)
    (hpanicked : k.panicked = (x.task t).panicked) : Ok (x.setTask t k) := by
  have hcell : ∀ u, ((x.setTask t k).task u).owner = (x.task u).owner ∧
      ((x.setTask t k).task u).poisoned = (x.task u).poisoned ∧
      ((x.setTask t k).task u).future = (x.task u).future ∧
      ((x.setTask t k).task u).finished = (x.task u).finished ∧
      ((x.setTask t k).task u).panicked = (x.task u).panicked := by
    intro u
    by_cases hu : u = t
    · subst hu
      simp [howner, hpoisoned, hfuture, hfinished, hpanicked]
    · simp [hu]
  constructor
  · intro e u
    rw [(hcell u).1]
    exact h.owner e u
  · intro e u hpc
    rw [(hcell u).2.2.1, (hcell u).2.2.2.1]
    exact h.polling e u hpc
  · intro e u hpc
    rw [(hcell u).2.2.2.1]
    exact h.finishing e u hpc
  · intro u hu
    rw [(hcell u).2.2.1] at hu
    rw [(hcell u).2.2.2.1]
    exact h.cleared u hu
  · intro u hu
    rw [(hcell u).2.2.2.1] at hu
    rw [(hcell u).2.2.1]
    exact h.finished u hu
  · intro e u hpc
    rw [(hcell u).2.2.2.2]
    exact h.unwinding e u hpc
  · intro u hu
    rw [(hcell u).2.1] at hu
    rw [(hcell u).2.2.2.2]
    exact h.poisoned u hu
  · intro u hu
    rw [(hcell u).2.2.2.2] at hu
    rw [(hcell u).2.1]
    exact h.panicked u hu
  · intro e u hpc
    rw [(hcell u).2.1]
    exact h.sound e u hpc

/-- The task `k` fits the executor `e` that works on it and stands at `p`. -/
structure Fits (e : ExecutorId) (t : τ) (p : ExecutorPc τ) (k : Task) : Prop where
  owner : p.holds = some t ∧ k.owner = some e ∨ p.holds = none ∧ k.owner = none
  polling : p = .polling t → k.future = true ∧ k.finished = false
  finishing : p = .finishing t → k.finished = true
  cleared : k.future = false → k.finished = true
  finished : k.finished = true → k.future = false ∨ p = .finishing t
  unwinding : p = .unwinding t → k.panicked = true
  poisoned : k.poisoned = true → k.panicked = true
  panicked : k.panicked = true → k.poisoned = true ∨ p = .unwinding t
  sound : p.holds = some t → k.poisoned = false

omit [DecidableEq τ] in
/-- An executor that fits holds no other lock. -/
theorem Fits.holds_ne {e : ExecutorId} {t u : τ} {p : ExecutorPc τ} {k : Task}
    (hfits : Fits e t p k) (hu : u ≠ t) : p.holds ≠ some u := by
  intro hpu
  rcases hfits.owner with ⟨hp, -⟩ | ⟨hp, -⟩ <;> rw [hp] at hpu
  · exact hu (Option.some.inj hpu.symm)
  · cases hpu

section Move

variable {e : ExecutorId} {t : τ} {p : ExecutorPc τ} {k : Task}

/-- The executor has locked the task, or has locked none and finds the task unlocked. -/
def OnTask (x : Executors τ) (e : ExecutorId) (t : τ) : Prop :=
  (x.pc e).holds = some t ∨ (x.pc e).holds = none ∧ (x.task t).owner = none

omit [DecidableEq τ] in
/-- No other executor works on the task. -/
theorem Ok.other (h : Ok x) (hold : x.OnTask e t) {e' : ExecutorId} (hne : e' ≠ e) :
    (x.pc e').holds ≠ some t := by
  intro he'
  rcases hold with hold | ⟨-, hnone⟩
  · exact hne (h.unique he' hold)
  · rw [h.owner, hnone] at he'
    cases he'

omit [DecidableEq τ] in
/-- And the executor works on no other task. -/
theorem OnTask.holds_ne (hold : x.OnTask e t) {u : τ} (hu : u ≠ t) : (x.pc e).holds ≠ some u := by
  intro he
  rcases hold with hold | ⟨hold, -⟩ <;> rw [hold] at he
  · exact hu (Option.some.inj he.symm)
  · cases he

/-- Whoever holds a lock after a step is `e` with `t`, or stands where it stood. -/
theorem Ok.who (h : Ok x) (hold : x.OnTask e t) (hfits : Fits e t p k) {e' : ExecutorId} {u : τ}
    {q : ExecutorPc τ} (hq : q.holds = some u) (hpc : ((x.setPc e p).setTask t k).pc e' = q) :
    u = t ∧ p = q ∨ u ≠ t ∧ x.pc e' = q := by
  by_cases he : e' = e
  · subst he
    simp only [setTask_pc, setPc_pc, Function.update_self] at hpc
    exact .inl ⟨of_not_not fun hu => hfits.holds_ne hu (by rw [hpc, hq]), hpc⟩
  · simp only [setTask_pc, setPc_pc, Function.update_of_ne he] at hpc
    exact .inr ⟨fun hu => h.other hold he (by rw [hpc, hq, hu]), hpc⟩

/-- What a mark in the history of a task means stays true: the poll that set it has left its trace
in the task, or its executor is about to. -/
theorem mark_move (mark trace : Task → Bool) (hold : x.OnTask e t) {value : Bool}
    {stage : τ → ExecutorPc τ} (hstage : ∀ u, (stage u).holds = some u)
    (h : ∀ u, mark (x.task u) = true → trace (x.task u) = value ∨ ∃ e, x.pc e = stage u)
    (hk : mark k = true → trace k = value ∨ p = stage t) (u : τ)
    (hmark : mark (((x.setPc e p).setTask t k).task u) = true) :
    trace (((x.setPc e p).setTask t k).task u) = value ∨
      ∃ e', ((x.setPc e p).setTask t k).pc e' = stage u := by
  by_cases hu : u = t
  · subst hu
    simp only [setTask_task, Function.update_self] at hmark
    rcases hk hmark with htrace | hp
    · exact .inl (by simpa using htrace)
    · exact .inr ⟨e, by simp [hp]⟩
  · simp only [setTask_task, setPc_task, Function.update_of_ne hu] at hmark
    refine (h u hmark).imp (fun htrace => by simpa [hu] using htrace)
      (exists_pc_setPc fun hpc => ?_)
    exact hold.holds_ne hu (by rw [hpc, hstage])

/-- A step of one executor on one task, which it has locked or finds unlocked. -/
theorem Ok.move (h : Ok x) (hold : x.OnTask e t) (hfits : Fits e t p k) :
    Ok ((x.setPc e p).setTask t k) := by
  constructor
  · intro e' u
    by_cases hu : u = t <;> by_cases he : e' = e
    · subst hu he
      rcases hfits.owner with ⟨hp, hk⟩ | ⟨hp, hk⟩ <;> simp [hp, hk]
    · subst hu
      have hk : k.owner ≠ some e' := by
        rcases hfits.owner with ⟨-, hk⟩ | ⟨-, hk⟩ <;> simp [hk, Ne.symm he]
      simp [he, h.other hold he, hk]
    · subst he
      have := h.owner e' u
      simp only [hold.holds_ne hu, false_iff] at this
      simp [hu, hfits.holds_ne hu, this]
    · simpa [hu, he] using h.owner e' u
  · intro e' u hpc
    rcases h.who hold hfits rfl hpc with ⟨rfl, hq⟩ | ⟨hu, hq⟩
    · simpa using hfits.polling hq
    · simpa [hu] using h.polling e' u hq
  · intro e' u hpc
    rcases h.who hold hfits rfl hpc with ⟨rfl, hq⟩ | ⟨hu, hq⟩
    · simpa using hfits.finishing hq
    · simpa [hu] using h.finishing e' u hq
  · intro u
    by_cases hu : u = t
    · subst hu
      simpa using hfits.cleared
    · simpa [hu] using h.cleared u
  · exact mark_move Task.finished Task.future hold (fun _ => rfl) h.finished hfits.finished
  · intro e' u hpc
    rcases h.who hold hfits rfl hpc with ⟨rfl, hq⟩ | ⟨hu, hq⟩
    · simpa using hfits.unwinding hq
    · simpa [hu] using h.unwinding e' u hq
  · intro u
    by_cases hu : u = t
    · subst hu
      simpa using hfits.poisoned
    · simpa [hu] using h.poisoned u
  · exact mark_move Task.panicked Task.poisoned hold (fun _ => rfl) h.panicked hfits.panicked
  · intro e' u hpc
    rcases h.who hold hfits hpc rfl with ⟨rfl, hq⟩ | ⟨hu, hq⟩
    · simpa using hfits.sound (by rw [hq]; exact hpc)
    · simpa [hu] using h.sound e' u (by rw [hq]; exact hpc)

end Move

theorem setTask_self {t : τ} : x.setTask t (x.task t) = x := by
  simp [setTask]

/-- An executor leaves a task alone before or after a poll that did not end it. -/
theorem Ok.leave (h : Ok x) {e : ExecutorId} {t : τ}
    (hpc : x.pc e = .locked t ∨ x.pc e = .polling t) : Ok (x.setPc e (.unlocking t)) := by
  have hold : (x.pc e).holds = some t := by
    rcases hpc with hpc | hpc <;> rw [hpc] <;> rfl
  have hfin : x.pc e ≠ .finishing t := by
    rcases hpc with hpc | hpc <;> rw [hpc] <;> simp
  have hunw : x.pc e ≠ .unwinding t := by
    rcases hpc with hpc | hpc <;> rw [hpc] <;> simp
  have hmove := h.move (p := .unlocking t) (k := x.task t) (.inl hold)
    ⟨.inl ⟨rfl, (h.owner e t).1 hold⟩, by simp, by simp, h.cleared t,
      fun hf => .inl (h.finished_of_holds hold hfin hf), by simp, h.poisoned t,
      by simp [h.not_panicked hold hunw], fun _ => h.sound e t hold⟩
  rwa [← setPc_task x e (.unlocking t), setTask_self] at hmove

/-- Every step keeps the locks and the history in order. -/
theorem Ok.next {a : Label} (h : Ok x) (hs : Next x a x') : Ok x' := by
  cases hs with
  | die hpc howner hpoison => exact h.setPc (by rw [hpc]; rfl) rfl
  | @report e hpc hroom =>
    exact (h.setPc (e := e) (p := .ready) (by rw [hpc]; rfl) rfl).setPanics
  | drainPanic hpos => exact h.setPanics
  | @lock e t hpc howner hpoison =>
    -- No executor holds the lock, so none is about to clear the future or to poison the lock.
    have hfree : ∀ e', (x.pc e').holds ≠ some t := by
      intro e' he'
      rw [h.owner, howner] at he'
      cases he'
    refine h.move (.inr ⟨by rw [hpc]; rfl, howner⟩) ⟨.inl ⟨rfl, rfl⟩, by simp, by simp,
      h.cleared t, fun hf => ?_, by simp, h.poisoned t, fun hf => ?_, fun _ => hpoison⟩
    · rcases h.finished t hf with hk | ⟨e', he'⟩
      · exact .inl hk
      · exact absurd (by rw [he']; rfl) (hfree e')
    · rcases h.panicked t hf with hk | ⟨e', he'⟩
      · exact .inl hk
      · exact absurd (by rw [he']; rfl) (hfree e')
  | @poll e t hpc hfut =>
    have hold : (x.pc e).holds = some t := by rw [hpc]; rfl
    have hpan := h.not_panicked hold (by rw [hpc]; simp)
    have hnot : (x.task t).finished = false := by
      rw [← Bool.not_eq_true]
      intro hf
      have := h.finished_of_holds hold (by rw [hpc]; simp) hf
      rw [hfut] at this
      cases this
    exact h.move (.inl hold) ⟨.inl ⟨rfl, (h.owner e t).1 hold⟩, fun _ => ⟨hfut, hnot⟩, by simp,
      h.cleared t, by simp [hnot], by simp, h.poisoned t, by simp [hpan], fun _ => h.sound e t hold⟩
  | pass hpc => exact h.leave (.inl hpc)
  | pending hpc => exact h.leave (.inr hpc)
  | @finish e t hpc =>
    have hold : (x.pc e).holds = some t := by rw [hpc]; rfl
    have hpan := h.not_panicked hold (by rw [hpc]; simp)
    exact h.move (.inl hold) ⟨.inl ⟨rfl, (h.owner e t).1 hold⟩, by simp, by simp, by simp, by simp,
      by simp, h.poisoned t, by simp [hpan], fun _ => h.sound e t hold⟩
  | @panic e t hpc =>
    have hold : (x.pc e).holds = some t := by rw [hpc]; rfl
    exact h.move (.inl hold) ⟨.inl ⟨rfl, (h.owner e t).1 hold⟩, by simp, by simp, h.cleared t,
      fun hf => .inl (h.finished_of_holds hold (by rw [hpc]; simp) hf), by simp, by simp, by simp,
      fun _ => h.sound e t hold⟩
  | @clear e t hpc =>
    have hold : (x.pc e).holds = some t := by rw [hpc]; rfl
    have hpan := h.not_panicked hold (by rw [hpc]; simp)
    exact h.move (.inl hold) ⟨.inl ⟨rfl, (h.owner e t).1 hold⟩, by simp, by simp,
      fun _ => h.finishing e t hpc, by simp, by simp, h.poisoned t, by simp [hpan],
      fun _ => h.sound e t hold⟩
  | @unlock e t hpc =>
    have hold : (x.pc e).holds = some t := by rw [hpc]; rfl
    have hpan := h.not_panicked hold (by rw [hpc]; simp)
    exact h.move (.inl hold) ⟨.inr ⟨rfl, rfl⟩, by simp, by simp, h.cleared t,
      fun hf => .inl (h.finished_of_holds hold (by rw [hpc]; simp) hf), by simp, h.poisoned t,
      by simp [hpan], fun _ => h.sound e t hold⟩
  | @unwind e t hpc =>
    have hold : (x.pc e).holds = some t := by rw [hpc]; rfl
    exact h.move (.inl hold) ⟨.inr ⟨rfl, rfl⟩, by simp, by simp, h.cleared t,
      fun hf => .inl (h.finished_of_holds hold (by rw [hpc]; simp) hf), by simp,
      fun _ => h.unwinding e t hpc, by simp, fun hu => by cases hu⟩

/-! ### Before a poll starts -/

/-- An executor received the task and has not started to poll it. -/
def Received (x : Executors τ) (t : τ) : Prop :=
  ∃ e, x.pc e = .received t ∨ x.pc e = .locked t

omit [DecidableEq τ] in
theorem Received.setPc {t : τ} (h : x.Received t) {e : ExecutorId} {p : ExecutorPc τ}
    (hr : x.pc e ≠ .received t) (hl : x.pc e ≠ .locked t) : (x.setPc e p).Received t := by
  obtain ⟨e', he'⟩ := h
  have hne : e' ≠ e := by
    rintro rfl
    rcases he' with he' | he'
    · exact hr he'
    · exact hl he'
  exact ⟨e', by simpa [hne] using he'⟩

omit [DecidableEq τ] in
theorem Received.mono {t : τ} (hpc : x'.pc = x.pc) (h : x.Received t) : x'.Received t := by
  unfold Received
  rw [hpc]
  exact h

/-- No executor touches an abort flag. -/
theorem abort_next {a : Label} (h : Next x a x') (t : τ) :
    (x'.task t).abort = (x.task t).abort := by
  cases h with
  | die | pass | pending | report | drainPanic => rfl
  | @lock e u | @poll e u | @finish e u | @panic e u | @clear e u | @unlock e u | @unwind e u =>
    by_cases htu : t = u
    · subst htu
      simp
    · simp [htu]

omit [DecidableEq τ] in
theorem Received.of_setPc {t : τ} {e : ExecutorId} {p : ExecutorPc τ}
    (h : (x.setPc e p).Received t) (hr : p ≠ .received t) (hl : p ≠ .locked t) : x.Received t := by
  obtain ⟨e', he'⟩ := h
  have hne : e' ≠ e := by
    rintro rfl
    simp only [setPc_pc, Function.update_self] at he'
    exact he'.elim hr hl
  exact ⟨e', by simpa [hne] using he'⟩

/-- `forward_task` receives nothing. -/
theorem received_next {a : Label} (h : Next x a x') {t : τ} (hr : x'.Received t) :
    x.Received t := by
  cases h with
  | drainPanic => exact hr.mono rfl
  | @report e hpc =>
    exact Received.of_setPc (x := x) (e := e) (p := .ready) (hr.mono rfl) (by simp) (by simp)
  | @lock e u hpc =>
    by_cases htu : t = u
    · subst htu
      exact ⟨e, .inl hpc⟩
    · exact Received.of_setPc (x := x) (e := e) (p := .locked u) (hr.mono rfl) (by simp)
        (by simpa using Ne.symm htu)
  | @die e u | @pass e u | @pending e u | @poll e u | @finish e u | @panic e u | @clear e u
  | @unlock e u | @unwind e u =>
    exact Received.of_setPc (x := x) (e := e) (hr.mono rfl) (by simp) (by simp)

/-- A poll that finished or panicked stays so. -/
theorem finished_next {a : Label} (h : Next x a x') (t : τ) :
    ((x'.task t).finished = false → (x.task t).finished = false) ∧
      ((x'.task t).panicked = false → (x.task t).panicked = false) := by
  cases h with
  | die | pass | pending | report | drainPanic => exact ⟨id, id⟩
  | @lock e u | @poll e u | @finish e u | @panic e u | @clear e u | @unlock e u | @unwind e u =>
    by_cases htu : t = u
    · subst htu
      simp
    · simp [htu]

/-- An executor at `executor_ready` stays there. -/
theorem ready_next {a : Label} (h : Next x a x') {e : ExecutorId} (he : x.pc e = .ready) :
    x'.pc e = .ready := by
  cases h with
  | drainPanic => exact he
  | @die e' u hpc | @lock e' u hpc | @poll e' u hpc | @pass e' u hpc | @pending e' u hpc
  | @finish e' u hpc | @panic e' u hpc | @clear e' u hpc | @unlock e' u hpc | @unwind e' u hpc
  | @report e' hpc =>
    have hne : e ≠ e' := by
      rintro rfl
      rw [he] at hpc
      cases hpc
    simpa [hne] using he

end Executors

end Hooch
