import Hooch.RunBlocking
import Hooch.Lib.TransitionSystem

/-!
# Handles and the thread-local cells they act on

`RuntimeBuilder::build` and `Handle` of `runtime.rs`, and `TaskManager::get`. A handle holds the
receiver of a panic channel and nothing else: what it does is done to the runtime, the guard and the
task manager of the thread it is used on. The runtime and the task manager are written once in
each thread, and the guard is cleared when `run_blocking` finds a panic signal.

* `ThreadLocals`: the cells of all threads, with what the calls of `build` have done so far;
* `setRuntimeGuard`, `getTaskManager`, `startWorkers`, `build`, `register`, `checkPanics`: the
  functions of the code;
* `step`: calls on any number of threads, in any order;
* `Bound`: every handle acts on the runtime that its own call of `build` started;
* `bound_iff`: the main result, for every run.
-/

namespace Hooch

open TransitionSystem

/-- A call of `build`, with the number of the panic channel that it makes. -/
structure BuildCall where
  panicChannel : ℕ
  numWorkers : ℕ
  deriving DecidableEq

/-- `Handle`. -/
structure Handle where
  panicRx : ℕ
  deriving DecidableEq

/-- `Runtime`, as `RUNTIME` holds it: the threads of its executors and its handle. -/
structure RuntimeCell (θ : Type*) where
  handles : List θ
  runtimeHandle : Handle

/-- A handle in the hands of the program, with the call of `build` that it or the handle it was
cloned from was returned by. -/
structure HeldHandle where
  handle : Handle
  build : BuildCall
  deriving DecidableEq

/-- The cells of the threads: `RUNTIME_GUARD`, `RUNTIME` and `TASK_MANAGER`, the panic channels, and
the calls of `run_blocking` that wait for their result. `home`, `started`, `held` and `registered`
are history: which call of `build` gave a thread its runtime, with which task manager a call
started its executors, the handles returned and cloned, and where their tasks were registered. -/
structure ThreadLocals (θ : Type*) where
  runtimeGuard : θ → Bool
  runtime : θ → Option (RuntimeCell θ)
  taskManager : θ → Option ℕ
  managers : ℕ
  panics : ℕ → SyncChannel Unit
  channels : ℕ
  blocking : θ → Option HeldHandle
  home : θ → Option BuildCall
  started : List (BuildCall × ℕ)
  held : List HeldHandle
  registered : List (HeldHandle × ℕ)

/-- What happens. `accepted` says that the task manager takes the task, and `completed` that the
future sends its result. -/
inductive HandleLabel (θ : Type*)
  /-- `build` on thread `t`, for which the system starts `threads` if executors are needed. -/
  | build (t : θ) (num_workers : ℕ) (threads : List θ)
  /-- `build` panics while it starts the runtime, before or after `TaskManager::get`. -/
  | buildFails (t : θ) (managed : Bool)
  | clone (x : HeldHandle)
  /-- `run_blocking`, up to the wait for the result. -/
  | runBlocking (t : θ) (x : HeldHandle) (accepted : Bool)
  /-- The wait of `run_blocking` ends. -/
  | recvResult (t : θ) (completed : Bool)
  | spawn (t : θ) (x : HeldHandle) (accepted : Bool)
  /-- An executor sends the signal of a panic. -/
  | signal (u : θ)

namespace ThreadLocals

variable {θ : Type*} [DecidableEq θ]

/-- No thread has called anything. -/
def new : ThreadLocals θ where
  runtimeGuard _ := false
  runtime _ := none
  taskManager _ := none
  managers := 0
  panics _ := .new Executors.panicBound
  channels := 0
  blocking _ := none
  home _ := none
  started := []
  held := []
  registered := []

/-- `set_runtime_guard`. -/
def setRuntimeGuard (t : θ) (s : ThreadLocals θ) : Except String (ThreadLocals θ) :=
  if s.runtimeGuard t then .error "Cannot run nested runtimes"
  else .ok { s with runtimeGuard := Function.update s.runtimeGuard t true }

/-- `exit_runtime_guard`. -/
def exitRuntimeGuard (t : θ) (s : ThreadLocals θ) : ThreadLocals θ :=
  { s with runtimeGuard := Function.update s.runtimeGuard t false }

/-- `TaskManager::get`. -/
def getTaskManager (t : θ) (s : ThreadLocals θ) : ℕ × ThreadLocals θ :=
  match s.taskManager t with
  | some tm => (tm, s)
  | none =>
      (s.managers, { s with
        taskManager := Function.update s.taskManager t (some s.managers)
        managers := s.managers + 1 })

/-- `sync_channel(1)` at the start of `build`. -/
def newPanicChannel (s : ThreadLocals θ) : ThreadLocals θ :=
  { s with
    panics := Function.update s.panics s.channels (.new Executors.panicBound)
    channels := s.channels + 1 }

/-- The closure that initializes `RUNTIME`. The executors run on new threads, which fill their own
cells and set their guard before the first task. -/
def startWorkers (t : θ) (b : BuildCall) (threads : List θ) (s : ThreadLocals θ) :
    ThreadLocals θ :=
  let (tm, s) := s.getTaskManager t
  let rt : RuntimeCell θ := ⟨threads, ⟨b.panicChannel⟩⟩
  { s with
    runtimeGuard := fun u => s.runtimeGuard u || decide (u ∈ threads)
    runtime := fun u => if u = t ∨ u ∈ threads then some rt else s.runtime u
    taskManager := fun u => if u ∈ threads then some tm else s.taskManager u
    home := fun u => if u = t ∨ u ∈ threads then some b else s.home u
    started := (b, tm) :: s.started }

/-- `unwrap` on `None`. -/
def unwrapNone : String := "called `Option::unwrap()` on a `None` value"

/-- `Runtime::handle`. -/
def runtimeHandle (t : θ) (s : ThreadLocals θ) : Except String Handle :=
  match s.runtime t with
  | some rt => .ok rt.runtimeHandle
  | none => .error unwrapNone

/-- `RuntimeBuilder::build`. -/
def build (t : θ) (num_workers : ℕ) (threads : List θ) (s : ThreadLocals θ) :
    Except String (ThreadLocals θ) :=
  match s.setRuntimeGuard t with
  | .error msg => .error msg
  | .ok s' =>
      let b : BuildCall := ⟨s'.channels, num_workers⟩
      let s' := s'.newPanicChannel
      let s' := if (s'.runtime t).isSome then s' else s'.startWorkers t b threads
      match s'.runtimeHandle t with
      | .error msg => .error msg
      | .ok h => .ok { s' with held := ⟨h, b⟩ :: s'.held }

/-- The task of a call is registered with the task manager of the thread, in
`Runtime::run_blocking` and in `Spawner::spawn`. -/
def register (t : θ) (x : HeldHandle) (accepted : Bool) (s : ThreadLocals θ) : ThreadLocals θ :=
  let (tm, s) := s.getTaskManager t
  if accepted then { s with registered := (x, tm) :: s.registered } else s

/-- `Handle::run_blocking` after the result has come. -/
def checkPanics (t : θ) (h : Handle) (s : ThreadLocals θ) : Returned Unit × ThreadLocals θ :=
  match (s.panics h.panicRx).recv with
  | some (_, ch) =>
      (.panicked "Executor panicked",
        exitRuntimeGuard t { s with panics := Function.update s.panics h.panicRx ch })
  | none => (.value (), s)

/-- `Handle::num_workers`, which does not look at the handle. -/
def numWorkers (t : θ) (_ : Handle) (s : ThreadLocals θ) : Returned ℕ :=
  match s.runtime t with
  | some rt => .value rt.handles.length
  | none => .panicked unwrapNone

/-- `threads` are `n` new threads for the executors of a runtime that thread `t` builds. -/
def NewThreads (s : ThreadLocals θ) (t : θ) (n : ℕ) (threads : List θ) : Prop :=
  threads.length = n ∧ (t :: threads).Nodup ∧
    ∀ u ∈ threads, s.runtimeGuard u = false ∧ (s.runtime u).isNone ∧ (s.taskManager u).isNone

instance (s : ThreadLocals θ) (t : θ) (n : ℕ) (threads : List θ) :
    Decidable (s.NewThreads t n threads) :=
  inferInstanceAs (Decidable (_ ∧ _ ∧ _))

/-- One call, or one part of a call of `run_blocking`. A call that panics is caught. -/
def step (s : ThreadLocals θ) : HandleLabel θ → Option (ThreadLocals θ)
  | .build t num_workers threads =>
      if s.blocking t = none then
        match s.build t num_workers threads with
        | .error _ => some s
        | .ok s' =>
            if (s.runtime t).isSome ∨ s.NewThreads t num_workers threads then some s' else none
      else none
  | .buildFails t managed =>
      if s.blocking t = none ∧ (s.runtime t).isNone then
        match s.setRuntimeGuard t with
        | .error _ => none
        | .ok s' => some (if managed then (s'.newPanicChannel.getTaskManager t).2
            else s'.newPanicChannel)
      else none
  | .clone x => if x ∈ s.held then some { s with held := x :: s.held } else none
  | .runBlocking t x accepted =>
      if s.blocking t = none ∧ x ∈ s.held then
        if (s.runtime t).isSome then
          let s' := s.register t x accepted
          some (if accepted then
            { s' with blocking := Function.update s'.blocking t (some x) } else s')
        else some s
      else none
  | .recvResult t completed =>
      match s.blocking t with
      | none => none
      | some x =>
          let s' := { s with blocking := Function.update s.blocking t none }
          some (if completed then (s'.checkPanics t x.handle).2 else s')
  | .spawn t x accepted =>
      if s.blocking t = none ∧ x ∈ s.held then
        if (s.runtime t).isSome then some (s.register t x accepted) else some s
      else none
  | .signal u =>
      match s.runtime u with
      | none => none
      | some rt =>
          if u ∈ rt.handles then
            match (s.panics rt.runtimeHandle.panicRx).send () with
            | .ok ch =>
                some { s with panics := Function.update s.panics rt.runtimeHandle.panicRx ch }
            | .error _ => none
          else none

/-- The calls of a program. -/
def calls (θ : Type*) [DecidableEq θ] : TransitionSystem (ThreadLocals θ) (HandleLabel θ) where
  init s := s = new
  step := step

/-! ### The property and the condition -/

/-- Every handle acts on the runtime that its own call of `build` started: it counts as many workers
as the call asked for on every thread with a runtime, and its tasks are registered with the task
manager whose executors the call started. -/
structure Bound (s : ThreadLocals θ) : Prop where
  numWorkers : ∀ x ∈ s.held, ∀ t, (s.runtime t).isSome →
    s.numWorkers t x.handle = .value x.build.numWorkers
  registered : ∀ r ∈ s.registered, (r.1.build, r.2) ∈ s.started

/-- A call of `build` that finds the guard clear asks for as many workers as all handles so far, and
a handle starts tasks only on threads that have their runtime from its own call of `build`. -/
def AtHome (s : ThreadLocals θ) : HandleLabel θ → Prop
  | .build t num_workers _ =>
      s.runtimeGuard t = false → ∀ x ∈ s.held, x.build.numWorkers = num_workers
  | .runBlocking t x accepted | .spawn t x accepted =>
      accepted = true → (s.runtime t).isSome → s.home t = some x.build
  | _ => True

instance (s : ThreadLocals θ) : ∀ a, Decidable (s.AtHome a)
  | .build _ _ _ => inferInstanceAs (Decidable (_ → ∀ x ∈ s.held, _))
  | .runBlocking _ _ _ | .spawn _ _ _ => inferInstanceAs (Decidable (_ → _ → _))
  | .buildFails _ _ | .clone _ | .recvResult _ _ | .signal _ => .isTrue trivial

/-! ### The cells -/

variable {s : ThreadLocals θ} {t : θ} {x : HeldHandle}

section Cells

omit [DecidableEq θ]

/-- The cells of every thread agree with the call of `build` that the thread has its runtime from,
and different calls have started their executors with different task managers. -/
structure Inv (s : ThreadLocals θ) : Prop where
  settled : ∀ t rt, s.runtime t = some rt → ∃ b tm, s.home t = some b ∧
    rt.handles.length = b.numWorkers ∧ s.taskManager t = some tm ∧ (b, tm) ∈ s.started
  unmanaged : ∀ t, s.runtime t = none → s.runtimeGuard t = false → s.taskManager t = none
  numbered : ∀ p ∈ s.started, p.2 < s.managers
  unique : ∀ b b' tm, (b, tm) ∈ s.started → (b', tm) ∈ s.started → b = b'
  returned : ∀ p ∈ s.started, ∃ x ∈ s.held, x.build = p.1
  waiting : ∀ t, (s.blocking t).isSome → (s.runtime t).isSome

theorem Inv.new : Inv (new : ThreadLocals θ) where
  settled _ _ h := by cases h
  unmanaged _ _ _ := rfl
  numbered _ h := by cases h
  unique _ _ _ h := by cases h
  returned _ h := by cases h
  waiting _ h := by cases h

theorem Bound.new : Bound (new : ThreadLocals θ) where
  numWorkers _ h := by cases h
  registered _ h := by cases h

/-- `s'` differs from `s` in neither the runtimes nor the task managers of the threads, and a thread
without a runtime whose guard is clear is as it was. -/
structure Kept (s s' : ThreadLocals θ) : Prop where
  runtime : s'.runtime = s.runtime
  home : s'.home = s.home
  started : s'.started = s.started
  taskManager : ∀ t, (s.runtime t).isSome → s'.taskManager t = s.taskManager t
  unused : ∀ t, s.runtime t = none → s'.runtimeGuard t = false →
    s.runtimeGuard t = false ∧ s'.taskManager t = s.taskManager t
  managers : s.managers ≤ s'.managers
  held : s.held ⊆ s'.held
  waiting : ∀ t, (s'.blocking t).isSome → (s.runtime t).isSome

theorem Inv.kept (hI : Inv s) {s' : ThreadLocals θ} (h : Kept s s') : Inv s' where
  settled u rt hrt := by
    rw [h.runtime] at hrt
    obtain ⟨b, tm, hhome, hlen, htm, hstarted⟩ := hI.settled u rt hrt
    have hsome : (s.runtime u).isSome := by rw [hrt]; rfl
    exact ⟨b, tm, by rw [h.home, hhome], hlen, by rw [h.taskManager u hsome, htm],
      by rw [h.started]; exact hstarted⟩
  unmanaged u hrt hguard := by
    rw [h.runtime] at hrt
    obtain ⟨hclear, htm⟩ := h.unused u hrt hguard
    rw [htm]
    exact hI.unmanaged u hrt hclear
  numbered p hp := by
    rw [h.started] at hp
    exact (hI.numbered p hp).trans_le h.managers
  unique b b' tm hb hb' := by
    rw [h.started] at hb hb'
    exact hI.unique b b' tm hb hb'
  returned p hp := by
    rw [h.started] at hp
    obtain ⟨x, hx, hbuild⟩ := hI.returned p hp
    exact ⟨x, h.held hx, hbuild⟩
  waiting u hu := by
    rw [h.runtime]
    exact h.waiting u hu

/-- What a call of `build` leaves that has started a runtime with the given threads. -/
structure StartedBy (s s' : ThreadLocals θ) (t : θ) (b : BuildCall) (threads : List θ) : Prop where
  new : ∃ rt : RuntimeCell θ, rt.handles = threads ∧
    ∀ u, u = t ∨ u ∈ threads → s'.runtime u = some rt
  home : ∀ u, u = t ∨ u ∈ threads → s'.home u = some b
  taskManager : ∀ u, u = t ∨ u ∈ threads → s'.taskManager u = some s.managers
  others : ∀ u, ¬ (u = t ∨ u ∈ threads) → s'.runtime u = s.runtime u ∧ s'.home u = s.home u ∧
    s'.taskManager u = s.taskManager u ∧ s'.runtimeGuard u = s.runtimeGuard u
  managers : s'.managers = s.managers + 1
  started : s'.started = (b, s.managers) :: s.started
  blocking : s'.blocking = s.blocking

theorem Inv.started (hI : Inv s) {s' : ThreadLocals θ} {y : HeldHandle} {threads : List θ}
    (h : StartedBy s s' t y.build threads) (hlen : threads.length = y.build.numWorkers)
    (hheld : s'.held = y :: s.held) : Inv s' where
  settled u rt hrt := by
    by_cases hu : u = t ∨ u ∈ threads
    · obtain ⟨rt₀, hrt₀, hnew⟩ := h.new
      rw [hnew u hu] at hrt
      cases hrt
      exact ⟨_, _, h.home u hu, by rw [hrt₀, hlen], h.taskManager u hu, by simp [h.started]⟩
    · obtain ⟨hrt', hhome', htm', -⟩ := h.others u hu
      rw [hrt'] at hrt
      obtain ⟨b, tm, hhome, hcount, htm, hmem⟩ := hI.settled u rt hrt
      exact ⟨b, tm, by rw [hhome', hhome], hcount, by rw [htm', htm], by simp [h.started, hmem]⟩
  unmanaged u hrt hguard := by
    have hu : ¬ (u = t ∨ u ∈ threads) := by
      intro hu
      obtain ⟨rt₀, -, hnew⟩ := h.new
      rw [hnew u hu] at hrt
      cases hrt
    obtain ⟨hrt', -, htm', hguard'⟩ := h.others u hu
    rw [htm']
    exact hI.unmanaged u (by rw [← hrt', hrt]) (by rw [← hguard', hguard])
  numbered p hp := by
    rw [h.started] at hp
    rw [h.managers]
    rcases List.mem_cons.1 hp with rfl | hp
    · exact Nat.lt_succ_self _
    · exact (hI.numbered p hp).trans (Nat.lt_succ_self _)
  unique b b' tm hb hb' := by
    rw [h.started, List.mem_cons] at hb hb'
    -- The new task manager has a number that no earlier one has.
    rcases hb with hb | hb <;> rcases hb' with hb' | hb'
    · cases hb
      cases hb'
      rfl
    · cases hb
      exact absurd (hI.numbered _ hb') (lt_irrefl _)
    · cases hb'
      exact absurd (hI.numbered _ hb) (lt_irrefl _)
    · exact hI.unique b b' tm hb hb'
  returned p hp := by
    rw [h.started] at hp
    rw [hheld]
    rcases List.mem_cons.1 hp with rfl | hp
    · exact ⟨y, List.mem_cons_self, rfl⟩
    · obtain ⟨x, hx, hbuild⟩ := hI.returned p hp
      exact ⟨x, List.mem_cons_of_mem _ hx, hbuild⟩
  waiting u hu := by
    rw [h.blocking] at hu
    by_cases hut : u = t ∨ u ∈ threads
    · obtain ⟨rt₀, -, hnew⟩ := h.new
      rw [hnew u hut]
      rfl
    · rw [(h.others u hut).1]
      exact hI.waiting u hu

theorem Kept.refl (hI : Inv s) : Kept s s :=
  ⟨rfl, rfl, rfl, fun _ _ => rfl, fun _ _ h => ⟨h, rfl⟩, le_rfl, fun _ h => h, hI.waiting⟩

theorem same_builds (s : ThreadLocals θ) : ∀ x ∈ s.held, ∃ y ∈ s.held, y.build = x.build :=
  fun x hx => ⟨x, hx, rfl⟩

theorem numWorkers_of_some {rt : RuntimeCell θ} (hrt : s.runtime t = some rt) (h : Handle) :
    s.numWorkers t h = .value rt.handles.length := by
  simp [ThreadLocals.numWorkers, hrt]

/-- When all handles ask for the same number of workers, every runtime has that many. -/
theorem Inv.length_eq (hI : Inv s) {n : ℕ} (hall : ∀ x ∈ s.held, x.build.numWorkers = n)
    {rt : RuntimeCell θ} (hrt : s.runtime t = some rt) : rt.handles.length = n := by
  obtain ⟨b, tm, -, hlen, -, hstarted⟩ := hI.settled t rt hrt
  obtain ⟨x, hx, hbuild⟩ := hI.returned _ hstarted
  rw [hlen, ← hall x hx, hbuild]

theorem Bound.kept (hB : Bound s) {s' : ThreadLocals θ} (h : Kept s s')
    (hheld : ∀ x ∈ s'.held, ∃ y ∈ s.held, y.build = x.build)
    (hreg : ∀ r ∈ s'.registered, r ∈ s.registered ∨ (r.1.build, r.2) ∈ s.started) : Bound s' where
  numWorkers x hx u hu := by
    obtain ⟨y, hy, hbuild⟩ := hheld x hx
    have hcount := hB.numWorkers y hy u (by rw [← h.runtime]; exact hu)
    rw [← hbuild, ← hcount]
    simp only [ThreadLocals.numWorkers, h.runtime]
  registered r hr := by
    rw [h.started]
    rcases hreg r hr with hr | hr
    · exact hB.registered r hr
    · exact hr

/-- A new handle that asks for as many workers as the others keeps the property. -/
theorem Inv.bound_cons (hI : Inv s) {y : HeldHandle} {l : List HeldHandle} (hheld : s.held = y :: l)
    (hall : ∀ x ∈ l, x.build.numWorkers = y.build.numWorkers)
    (hreg : ∀ r ∈ s.registered, (r.1.build, r.2) ∈ s.started) : Bound s := by
  have hsame : ∀ x ∈ s.held, x.build.numWorkers = y.build.numWorkers := by
    intro x hx
    rw [hheld] at hx
    rcases List.mem_cons.1 hx with rfl | hx
    · rfl
    · exact hall x hx
  refine ⟨fun x hx u hu => ?_, hreg⟩
  obtain ⟨rt, hrt⟩ := Option.isSome_iff_exists.1 hu
  rw [numWorkers_of_some hrt, hI.length_eq hsame hrt, hsame x hx]

/-- What the handles say of one thread with a runtime is the same for all of them. -/
theorem Bound.cons_agrees (hB : Bound s) (hrt : (s.runtime t).isSome) {y : HeldHandle}
    {l : List HeldHandle} (hheld : s.held = y :: l) :
    ∀ x ∈ l, x.build.numWorkers = y.build.numWorkers := by
  intro x hx
  have h : s.numWorkers t x.handle = s.numWorkers t y.handle := rfl
  rw [hB.numWorkers x (by rw [hheld]; exact List.mem_cons_of_mem _ hx) t hrt,
    hB.numWorkers y (by rw [hheld]; exact List.mem_cons_self) t hrt] at h
  exact Returned.value.inj h

end Cells

/-! ### What a step does -/

/-- What a step does to the cells and to the history. -/
inductive Next (s : ThreadLocals θ) : HandleLabel θ → ThreadLocals θ → Prop
  /-- No runtime is started and no task registered. -/
  | quiet {a : HandleLabel θ} {s' : ThreadLocals θ} (hhome : s.AtHome a) (h : Kept s s')
      (hheld : ∀ x ∈ s'.held, ∃ y ∈ s.held, y.build = x.build)
      (hreg : s'.registered = s.registered) : Next s a s'
  /-- A task of handle `x` is registered on a thread with a runtime. -/
  | task {a : HandleLabel θ} {s' : ThreadLocals θ} {t : θ} {x : HeldHandle} {b : BuildCall} {tm : ℕ}
      (hhome : s.AtHome a ↔ s.home t = some x.build) (hb : s.home t = some b)
      (htm : (b, tm) ∈ s.started) (h : Kept s s') (hheld : s'.held = s.held)
      (hreg : s'.registered = (x, tm) :: s.registered) : Next s a s'
  /-- `build` on a thread that has a runtime already. -/
  | again {s' : ThreadLocals θ} {t : θ} {n : ℕ} {threads : List θ} {y : HeldHandle}
      (hguard : s.runtimeGuard t = false) (hrt : (s.runtime t).isSome) (h : Kept s s')
      (hy : y.build.numWorkers = n) (hheld : s'.held = y :: s.held)
      (hreg : s'.registered = s.registered) : Next s (.build t n threads) s'
  /-- `build` starts a runtime. -/
  | first {s' : ThreadLocals θ} {t : θ} {n : ℕ} {threads : List θ} {y : HeldHandle}
      (hguard : s.runtimeGuard t = false) (hrt : s.runtime t = none)
      (hlen : threads.length = n) (h : StartedBy s s' t y.build threads)
      (hy : y.build.numWorkers = n) (hheld : s'.held = y :: s.held)
      (hreg : s'.registered = s.registered) : Next s (.build t n threads) s'

theorem getTaskManager_of_some {tm : ℕ} (h : s.taskManager t = some tm) :
    s.getTaskManager t = (tm, s) := by
  simp [getTaskManager, h]

theorem getTaskManager_of_none (h : s.taskManager t = none) :
    s.getTaskManager t = (s.managers, { s with
      taskManager := Function.update s.taskManager t (some s.managers)
      managers := s.managers + 1 }) := by
  simp [getTaskManager, h]

/-- `build` on a thread with a runtime returns a handle of that runtime. -/
theorem build_of_some {n : ℕ} {threads : List θ} {rt : RuntimeCell θ}
    (hguard : s.runtimeGuard t = false) (hrt : s.runtime t = some rt) :
    s.build t n threads = .ok { s with
      runtimeGuard := Function.update s.runtimeGuard t true
      panics := Function.update s.panics s.channels (.new Executors.panicBound)
      channels := s.channels + 1
      held := ⟨rt.runtimeHandle, ⟨s.channels, n⟩⟩ :: s.held } := by
  simp [build, setRuntimeGuard, newPanicChannel, runtimeHandle, hguard, hrt]

theorem startWorkers_of_none {b : BuildCall} {threads : List θ} (h : s.taskManager t = none) :
    s.startWorkers t b threads = { s with
      runtimeGuard := fun u => s.runtimeGuard u || decide (u ∈ threads)
      runtime := fun u =>
        if u = t ∨ u ∈ threads then some ⟨threads, ⟨b.panicChannel⟩⟩ else s.runtime u
      taskManager := fun u => if u ∈ threads then some s.managers else
        Function.update s.taskManager t (some s.managers) u
      managers := s.managers + 1
      home := fun u => if u = t ∨ u ∈ threads then some b else s.home u
      started := (b, s.managers) :: s.started } := by
  simp [startWorkers, getTaskManager_of_none h]

/-- `build` on a thread without one starts it. -/
theorem build_of_none (n : ℕ) (threads : List θ) (hguard : s.runtimeGuard t = false)
    (hrt : s.runtime t = none) (htm : s.taskManager t = none) :
    ∃ s', s.build t n threads = .ok s' ∧ StartedBy s s' t ⟨s.channels, n⟩ threads ∧
      s'.held = ⟨⟨s.channels⟩, ⟨s.channels, n⟩⟩ :: s.held ∧ s'.registered = s.registered := by
  have hbuild : s.build t n threads = .ok
      { startWorkers t ⟨s.channels, n⟩ threads { s.newPanicChannel with
          runtimeGuard := Function.update s.runtimeGuard t true } with
        held := ⟨⟨s.channels⟩, ⟨s.channels, n⟩⟩ :: s.held } := by
    simp [build, setRuntimeGuard, newPanicChannel, runtimeHandle, startWorkers_of_none,
      hguard, hrt, htm]
  simp only [startWorkers_of_none, newPanicChannel, htm] at hbuild
  refine ⟨_, hbuild, ⟨⟨_, rfl, fun u hu => if_pos hu⟩, fun u hu => if_pos hu, fun u hu => ?_,
    fun u hu => ?_, rfl, rfl, rfl⟩, rfl, rfl⟩
  · by_cases hut : u ∈ threads
    · exact if_pos hut
    · rcases hu with rfl | hu
      · simp [hut]
      · exact absurd hu hut
  · obtain ⟨hut, hth⟩ := not_or.1 hu
    exact ⟨if_neg hu, if_neg hu, by simp [hth, hut], by simp [hth, hut]⟩

/-- On a thread with a runtime a task is registered with the task manager of that runtime. -/
theorem Inv.register (hI : Inv s) (hrt : (s.runtime t).isSome) (accepted : Bool) :
    ∃ b tm, s.home t = some b ∧ (b, tm) ∈ s.started ∧ s.register t x accepted =
      if accepted then { s with registered := (x, tm) :: s.registered } else s := by
  obtain ⟨rt, hrt⟩ := Option.isSome_iff_exists.1 hrt
  obtain ⟨b, tm, hhome, -, htm, hstarted⟩ := hI.settled t rt hrt
  exact ⟨b, tm, hhome, hstarted, by simp only [ThreadLocals.register, getTaskManager_of_some htm]⟩

/-- A call of `build` that fails leaves the guard of its thread, and perhaps a task manager. -/
theorem Kept.fails (hI : Inv s) (hrt : s.runtime t = none) {tm : θ → Option ℕ} {managers : ℕ}
    (hmanagers : s.managers ≤ managers) (htm : ∀ u, u ≠ t → tm u = s.taskManager u) :
    Kept s { s.newPanicChannel with
      runtimeGuard := Function.update s.runtimeGuard t true
      taskManager := tm
      managers := managers } := by
  refine ⟨rfl, rfl, rfl, fun u hu => htm u ?_, fun u hu hguard => ?_, hmanagers, fun _ h => h,
    hI.waiting⟩
  · rintro rfl
    rw [hrt] at hu
    cases hu
  · have hut : u ≠ t := by
      rintro rfl
      simp at hguard
    simp only [Function.update_of_ne hut] at hguard
    exact ⟨hguard, htm u hut⟩

/-- When the wait of `run_blocking` ends, only the guard of the thread that waited may change. -/
theorem Kept.received (hI : Inv s) (hrt : (s.runtime t).isSome) {guard : θ → Bool}
    {panics : ℕ → SyncChannel Unit} (hguard : ∀ u, u ≠ t → guard u = s.runtimeGuard u) :
    Kept s { s with
      blocking := Function.update s.blocking t none
      runtimeGuard := guard
      panics := panics } := by
  refine ⟨rfl, rfl, rfl, fun _ _ => rfl, fun u hu hgu => ?_, le_rfl, fun _ h => h, fun u hu => ?_⟩
  · have hut : u ≠ t := by
      rintro rfl
      rw [hu] at hrt
      cases hrt
    rw [← hguard u hut]
    exact ⟨hgu, rfl⟩
  · have hut : u ≠ t := by
      rintro rfl
      simp at hu
    simp only [Function.update_of_ne hut] at hu
    exact hI.waiting u hu

theorem next_of_build (hI : Inv s) {n : ℕ} {threads : List θ} {s' : ThreadLocals θ}
    (hs : s.step (.build t n threads) = some s') : Next s (.build t n threads) s' := by
  simp only [step] at hs
  split at hs
  · cases hguard : s.runtimeGuard t with
    | true =>
      simp only [build, setRuntimeGuard, hguard, if_true, Option.some.injEq] at hs
      cases hs
      exact .quiet (fun h => by rw [hguard] at h; cases h) (.refl hI) (same_builds s) rfl
    | false =>
      cases hrt : s.runtime t with
      | some rt =>
        have hsome : (s.runtime t).isSome := by rw [hrt]; rfl
        simp only [build_of_some hguard hrt, hsome, true_or, if_true, Option.some.injEq] at hs
        cases hs
        refine .again hguard hsome ⟨rfl, rfl, rfl, fun _ _ => rfl, fun u hu hgu => ?_, le_rfl,
          List.subset_cons_self _ _, hI.waiting⟩ rfl rfl rfl
        have hut : u ≠ t := by
          rintro rfl
          rw [hrt] at hu
          cases hu
        simp only [Function.update_of_ne hut] at hgu
        exact ⟨hgu, rfl⟩
      | none =>
        obtain ⟨s₁, hbuild, hstarted, hheld, hreg⟩ :=
          build_of_none n threads hguard hrt (hI.unmanaged t hrt hguard)
        simp only [hbuild, hrt, Option.isSome_none, Bool.false_eq_true, false_or] at hs
        split at hs
        · rename_i hnew
          cases hs
          exact .first hguard hrt hnew.1 hstarted rfl hheld hreg
        · cases hs
  · cases hs

theorem next_of_buildFails (hI : Inv s) {managed : Bool} {s' : ThreadLocals θ}
    (hs : s.step (.buildFails t managed) = some s') : Next s (.buildFails t managed) s' := by
  simp only [step, setRuntimeGuard] at hs
  split at hs
  · rename_i hidle
    have hnone := Option.isNone_iff_eq_none.1 hidle.2
    cases hguard : s.runtimeGuard t with
    | true => simp [hguard] at hs
    | false =>
      simp only [hguard, Bool.false_eq_true, if_false, Option.some.injEq] at hs
      cases managed with
      | false =>
        cases hs
        exact .quiet trivial (.fails hI hnone le_rfl fun _ _ => rfl) (same_builds s) rfl
      | true =>
        have htm := hI.unmanaged t hnone hguard
        simp only [if_true, newPanicChannel, getTaskManager, htm] at hs
        cases hs
        exact .quiet trivial
          (.fails hI hnone (Nat.le_succ _) fun u hu => Function.update_of_ne hu _ _)
          (same_builds s) rfl
  · cases hs

theorem next_of_runBlocking (hI : Inv s) {accepted : Bool} {s' : ThreadLocals θ}
    (hs : s.step (.runBlocking t x accepted) = some s') :
    Next s (.runBlocking t x accepted) s' := by
  simp only [step] at hs
  split at hs
  · split at hs
    · rename_i hrt
      obtain ⟨b, tm, hhome, htm, hreg⟩ := hI.register (x := x) hrt accepted
      rw [hreg] at hs
      cases accepted with
      | false =>
        cases hs
        exact .quiet (fun h => by cases h) (.refl hI) (same_builds s) rfl
      | true =>
        cases hs
        refine .task (by simp [AtHome, hrt]) hhome htm ⟨rfl, rfl, rfl, fun _ _ => rfl,
          fun _ _ h => ⟨h, rfl⟩, le_rfl, fun _ h => h, fun u hu => ?_⟩ rfl rfl
        by_cases hut : u = t
        · rw [hut]
          exact hrt
        · simp only [if_true, Function.update_of_ne hut] at hu
          exact hI.waiting u hu
    · rename_i hrt
      cases hs
      exact .quiet (fun _ h => absurd h hrt) (.refl hI) (same_builds s) rfl
  · cases hs

theorem next_of_recvResult (hI : Inv s) {completed : Bool} {s' : ThreadLocals θ}
    (hs : s.step (.recvResult t completed) = some s') : Next s (.recvResult t completed) s' := by
  simp only [step] at hs
  cases hb : s.blocking t with
  | none => simp [hb] at hs
  | some x =>
    have hrt : (s.runtime t).isSome := hI.waiting t (by rw [hb]; rfl)
    simp only [hb, checkPanics, exitRuntimeGuard, Option.some.injEq] at hs
    cases completed with
    | false =>
      cases hs
      exact .quiet trivial (.received hI hrt fun _ _ => rfl) (same_builds s) rfl
    | true =>
      cases hrecv : (s.panics x.handle.panicRx).recv with
      | none =>
        simp only [hrecv, if_true] at hs
        cases hs
        exact .quiet trivial (.received hI hrt fun _ _ => rfl) (same_builds s) rfl
      | some q =>
        simp only [hrecv, if_true] at hs
        cases hs
        exact .quiet trivial (.received hI hrt fun u hu => Function.update_of_ne hu _ _)
          (same_builds s) rfl

theorem next_of_step (hI : Inv s) {a : HandleLabel θ} {s' : ThreadLocals θ}
    (hs : s.step a = some s') : Next s a s' := by
  cases a with
  | build => exact next_of_build hI hs
  | buildFails => exact next_of_buildFails hI hs
  | clone x =>
    simp only [step] at hs
    split at hs
    · rename_i hx
      cases hs
      refine .quiet trivial ⟨rfl, rfl, rfl, fun _ _ => rfl, fun _ _ h => ⟨h, rfl⟩, le_rfl,
        List.subset_cons_self _ _, hI.waiting⟩ (fun y hy => ?_) rfl
      rcases List.mem_cons.1 hy with rfl | hy
      · exact ⟨y, hx, rfl⟩
      · exact same_builds s y hy
    · cases hs
  | runBlocking => exact next_of_runBlocking hI hs
  | recvResult => exact next_of_recvResult hI hs
  | spawn t x accepted =>
    simp only [step] at hs
    split at hs
    · split at hs
      · rename_i hrt
        obtain ⟨b, tm, hhome, htm, hreg⟩ := hI.register (x := x) hrt accepted
        rw [hreg] at hs
        cases accepted with
        | false =>
          cases hs
          exact .quiet (fun h => by cases h) (.refl hI) (same_builds s) rfl
        | true =>
          cases hs
          exact .task (by simp [AtHome, hrt]) hhome htm ⟨rfl, rfl, rfl, fun _ _ => rfl,
            fun _ _ h => ⟨h, rfl⟩, le_rfl, fun _ h => h, hI.waiting⟩ rfl rfl
      · rename_i hrt
        cases hs
        exact .quiet (fun _ h => absurd h hrt) (.refl hI) (same_builds s) rfl
    · cases hs
  | signal u =>
    simp only [step] at hs
    split at hs
    · cases hs
    · split at hs
      · split at hs
        · cases hs
          exact .quiet trivial ⟨rfl, rfl, rfl, fun _ _ => rfl, fun _ _ h => ⟨h, rfl⟩, le_rfl,
            fun _ h => h, hI.waiting⟩ (same_builds s) rfl
        · cases hs
      · cases hs

/-! ### What a step preserves -/

theorem Inv.step (hI : Inv s) {a : HandleLabel θ} {s' : ThreadLocals θ}
    (hs : s.step a = some s') : Inv s' := by
  cases next_of_step hI hs with
  | quiet _ h => exact hI.kept h
  | task _ _ _ h => exact hI.kept h
  | again _ _ h => exact hI.kept h
  | first _ _ hlen h hy hheld => exact hI.started h (by rw [hlen, hy]) hheld

/-- The condition suffices for a step. -/
theorem Bound.step (hI : Inv s) (hB : Bound s) {a : HandleLabel θ} {s' : ThreadLocals θ}
    (hC : s.AtHome a) (hs : s.step a = some s') : Bound s' := by
  have hI' := hI.step hs
  cases next_of_step hI hs with
  | quiet _ h hheld hreg => exact hB.kept h hheld fun r hr => .inl (by rwa [hreg] at hr)
  | task hhome hb htm h hheld hreg =>
    have hown := hhome.1 hC
    rw [hb] at hown
    cases hown
    refine hB.kept h (fun y hy => ⟨y, by rwa [hheld] at hy, rfl⟩) fun r hr => ?_
    rw [hreg] at hr
    rcases List.mem_cons.1 hr with rfl | hr
    · exact .inr htm
    · exact .inl hr
  | again hguard _ h hy hheld hreg =>
    refine hI'.bound_cons hheld (by rw [hy]; exact hC hguard) fun r hr => ?_
    rw [h.started]
    exact hB.registered r (by rwa [hreg] at hr)
  | first hguard _ _ h hy hheld hreg =>
    refine hI'.bound_cons hheld (by rw [hy]; exact hC hguard) fun r hr => ?_
    rw [h.started]
    exact List.mem_cons_of_mem _ (hB.registered r (by rwa [hreg] at hr))

/-- A step that does not meet the condition breaks the property. -/
theorem not_bound (hI : Inv s) {a : HandleLabel θ} {s' : ThreadLocals θ} (hC : ¬ s.AtHome a)
    (hs : s.step a = some s') : ¬ Bound s' := by
  intro hB
  cases next_of_step hI hs with
  | quiet hhome => exact hC hhome
  | task hhome hb htm h hheld hreg =>
    have hmine := hB.registered (_, _) (by rw [hreg]; exact List.mem_cons_self)
    rw [h.started] at hmine
    refine hC (hhome.2 ?_)
    rw [hb, hI.unique _ _ _ htm hmine]
  | again _ hrt h hy hheld =>
    refine hC fun _ => ?_
    rw [← hy]
    exact hB.cons_agrees (by rw [h.runtime]; exact hrt) hheld
  | first _ _ _ h hy hheld =>
    obtain ⟨rt, -, hnew⟩ := h.new
    refine hC fun _ => ?_
    rw [← hy]
    exact hB.cons_agrees (by rw [hnew _ (.inl rfl)]; rfl) hheld

/-! ### The results -/

/-- Every run: every handle stays bound to the runtime that its call of `build` started exactly if
all calls of `build` that find the guard clear ask for the same number of workers, and a handle
starts tasks only on threads that have their runtime from its own call. -/
theorem bound_iff {labels : List (HandleLabel θ)} (hrun : ((calls θ).run new labels).isSome) :
    (calls θ).Throughout Bound new labels ↔ (calls θ).EachStep AtHome new labels := by
  refine throughout_iff_eachStep (I := fun s => Inv s ∧ Bound s) (fun _ h => h.2) ?_ ?_
    ⟨.new, .new⟩ hrun
  · rintro s a s' ⟨hI, hB⟩ hC hs
    exact ⟨hI.step hs, hB.step hI hC hs⟩
  · rintro s a s' ⟨hI, -⟩ hC hs
    exact not_bound hI hC hs

/-- A handle is cloned and used on an executor of its runtime, and another thread builds a runtime
with as many workers. -/
theorem bound_iff_twoThreads :
    (calls ℕ).Throughout Bound new [.build 0 2 [1, 2], .clone ⟨⟨0⟩, ⟨0, 2⟩⟩,
      .spawn 1 ⟨⟨0⟩, ⟨0, 2⟩⟩ true, .build 3 2 [4, 5], .runBlocking 3 ⟨⟨1⟩, ⟨1, 2⟩⟩ true,
      .recvResult 3 true] :=
  (bound_iff (by decide)).2 (by decide)

/-- An executor of a runtime with two workers panics, so `run_blocking` panics and clears the guard.
The next `build` on that thread asks for five workers, gets a handle that counts two, and the tasks
of that handle go to a task manager whose executors it has not started. -/
theorem rebuilt_not_bound :
    ∃ s, (calls ℕ).run new [.build 0 2 [1, 2], .signal 1, .runBlocking 0 ⟨⟨0⟩, ⟨0, 2⟩⟩ true,
        .recvResult 0 true, .build 0 5 [], .spawn 0 ⟨⟨0⟩, ⟨1, 5⟩⟩ true] = some s ∧
      (⟨⟨0⟩, ⟨1, 5⟩⟩ ∈ s.held ∧ s.numWorkers 0 ⟨0⟩ = .value 2) ∧
      (⟨⟨0⟩, ⟨1, 5⟩⟩, 0) ∈ s.registered ∧ s.started = [(⟨0, 2⟩, 0)] ∧ ¬ Bound s := by
  refine ⟨_, rfl, ⟨by decide, rfl⟩, by decide, rfl, fun h => ?_⟩
  exact absurd (h.registered _ List.mem_cons_self) (by decide)

end ThreadLocals

end Hooch
