import Hooch.Task.Liveness
import Hooch.Task.RingManager

/-!
# The runtime on its ring buffers

The runtime of `Hooch.Runtime` with the task manager as it stores its queues. Its calls are atomic
here too, and they come from all the threads: the ring buffers are used by one call after another.

* `ringRuntime`: the runtime with a `RingTaskManager`;
* `lockstep`: it takes the steps that the runtime on queues takes, and no others;
* `ring_safe`: what holds in every state, slots of the ring buffers included;
* `ring_woken_is_polled`: no task starves on ring buffers either.
-/

namespace Hooch

open TransitionSystem

/-- The task manager, the executors with the tasks, and the calls that did not return. -/
structure RingRuntime (τ : Type*) where
  tm : RingTaskManager τ
  x : Executors τ
  faults : List RingFault

namespace RingRuntime

variable {τ : Type*} [DecidableEq τ]

def hasAborted (s : RingRuntime τ) (t : τ) : Bool := (s.x.task t).abort

def step (s : RingRuntime τ) : Runtime.Label τ → Option (RingRuntime τ)
  | .register t =>
      match s.tm.registerOrExecute s.hasAborted t with
      | .ok (tm, _) => some { s with tm := tm, x := s.x.notify t }
      | .error f => some { s with x := s.x.notify t, faults := s.faults ++ [f] }
  | .abort t => some { s with x := s.x.setTask t { s.x.task t with abort := true } }
  | .recv e =>
      match s.x.pc e, s.tm.recvTask e with
      | .recv, some (.task t, tm) => some { s with tm := tm, x := s.x.setPc e (.received t) }
      | .recv, some (.finished, tm) => some { s with tm := tm, x := s.x.setPc e .stopped }
      | _, _ => none
  | .work a => (s.x.step a).map fun x => { s with x := x }
  | .ready e =>
      match s.x.pc e with
      | .ready =>
          match s.tm.executorReady s.hasAborted e with
          | .ok (tm, _) => some { s with tm := tm, x := s.x.setPc e .recv }
          | .error f => some { s with faults := s.faults ++ [f] }
      | _ => none
  | .close e =>
      match s.x.pc e with
      | .dead =>
          if s.x.panics < Executors.panicBound then
            some { s with
              tm := s.tm.closeChannel e
              x := { s.x.setPc e .gone with panics := s.x.panics + 1 } }
          else none
      | _ => none

end RingRuntime

/-- The runtime whose executors `ids` are registered before the first task, on ring buffers. -/
def ringRuntime {τ : Type*} [DecidableEq τ] (ids : List ExecutorId) :
    TransitionSystem (RingRuntime τ) (Runtime.Label τ) where
  init s := ∃ tm, RingTaskManager.registerExecutors ids .new = .ok tm ∧ ids.Nodup ∧
    s = ⟨tm, .new, []⟩
  step := RingRuntime.step

namespace RingRuntime

variable {τ : Type*} [DecidableEq τ] {ids : List ExecutorId} {s : RingRuntime τ} {t : Runtime τ}

/-- The ring buffers hold what the queues hold, and everything else is the same. -/
structure Shows (s : RingRuntime τ) (t : Runtime τ) : Prop where
  tm : s.tm.Represents t.tm
  x : s.x = t.x
  faults : s.faults = t.faults.map .fault

omit [DecidableEq τ] in
theorem Shows.hasAborted (h : Shows s t) : s.hasAborted = t.hasAborted := by
  funext u
  rw [RingRuntime.hasAborted, Runtime.hasAborted, h.x]

theorem Shows.step (h : Shows s t) (a : Runtime.Label τ) :
    Option.Rel Shows (s.step a) (t.step a) := by
  cases a with
  | register u =>
    simp only [RingRuntime.step, Runtime.step]
    have hcall := h.tm.registerOrExecute t.hasAborted u
    rw [h.hasAborted]
    revert hcall
    generalize s.tm.registerOrExecute t.hasAborted u = p
    generalize t.tm.registerOrExecute t.hasAborted u = q
    rintro (hcall | _)
    · exact .some ⟨hcall.1, by rw [h.x], h.faults⟩
    · exact .some ⟨h.tm, by rw [h.x], by simp [h.faults]⟩
  | abort u => exact .some ⟨h.tm, by rw [h.x], h.faults⟩
  | recv e =>
    simp only [RingRuntime.step, Runtime.step]
    have hcall := h.tm.recvTask e
    rw [h.x]
    revert hcall
    generalize s.tm.recvTask e = p
    generalize t.tm.recvTask e = q
    rintro (hcall | _)
    · rename_i p q
      obtain ⟨m, tm⟩ := p
      obtain ⟨m', tm'⟩ := q
      obtain ⟨rfl, hcall⟩ := hcall
      cases m <;> cases t.x.pc e <;> first
        | exact .some ⟨hcall, rfl, h.faults⟩
        | exact .none
    · cases t.x.pc e <;> exact .none
  | work b =>
    simp only [RingRuntime.step, Runtime.step, h.x]
    cases t.x.step b with
    | none => exact .none
    | some x => exact .some ⟨h.tm, rfl, h.faults⟩
  | ready e =>
    simp only [RingRuntime.step, Runtime.step]
    have hcall := h.tm.executorReady t.hasAborted e
    rw [h.hasAborted, h.x]
    revert hcall
    generalize s.tm.executorReady t.hasAborted e = p
    generalize t.tm.executorReady t.hasAborted e = q
    rintro (hcall | _)
    · cases t.x.pc e <;> first
        | exact .some ⟨hcall.1, rfl, h.faults⟩
        | exact .none
    · cases t.x.pc e <;> first
        | exact .some ⟨h.tm, rfl, by simp [h.faults]⟩
        | exact .none
  | close e =>
    simp only [RingRuntime.step, Runtime.step, h.x]
    by_cases hroom : t.x.panics < Executors.panicBound
    · simp only [if_pos hroom]
      cases t.x.pc e <;> first
        | exact .some ⟨h.tm.closeChannel e, rfl, h.faults⟩
        | exact .none
    · simp only [if_neg hroom]
      cases t.x.pc e <;> exact .none

theorem lockstep (ids : List ExecutorId) :
    Lockstep (ringRuntime (τ := τ) ids) (runtime ids) Shows where
  init := by
    rintro s ⟨tm, htm, hids, rfl⟩
    have hreg := RingTaskManager.Represents.new.registerExecutors (ι := τ) ids
    rw [htm] at hreg
    generalize hq : TaskManager.registerExecutors ids .new = q at hreg
    cases hreg with
    | ok hrep => exact ⟨_, ⟨_, hq, hids, rfl⟩, hrep, rfl, rfl⟩
  step s t a h := h.step a

/-! ### What it inherits -/

/-- The task is in a slot of the queue of waiting tasks between `start` and `end`, or in a channel,
or an executor received it and has not started to poll it. -/
def Pending (s : RingRuntime τ) (t : τ) : Prop :=
  (∃ k < s.tm.waitingTasks.count, s.tm.waitingTasks.buffer
      ((s.tm.waitingTasks.start + k) % s.tm.waitingTasks.capacity) = some t) ∨
    (∃ e ch, s.tm.executors e = some ch ∧ .task t ∈ ch.items) ∨ s.x.Received t

omit [DecidableEq τ] in
theorem Shows.pending (h : Shows s t) {u : τ} (hu : t.Pending u) : s.Pending u := by
  rcases hu with hw | ⟨e, he⟩ | hr
  · exact .inl (h.tm.tasks.holds.exists_slot hw)
  · refine .inr (.inl ⟨e, ?_⟩)
    rw [h.tm.executors]
    cases hch : t.tm.executors e with
    | none => simp [TaskManager.inbox, hch] at he
    | some ch => exact ⟨ch, rfl, by rwa [TaskManager.inbox_eq hch] at he⟩
  · exact .inr (.inr (by rwa [h.x]))

/-- In every state: the runtime on queues can be in a state that it shows, and the two can take the
same steps from there; a call fails only on a full queue of waiting tasks, so no pop returns a slot
that is uninitialised and every loop of `executor_ready` ends; at most as many slots of the queue
of waiting executors are in use as there are executors. And as long as no call failed, for every
task: at most one executor polls its future; a future whose poll returned `Ready` is not polled;
and what is due is still to be delivered. -/
theorem ring_safe (h : (ringRuntime ids).Reachable s) :
    (∃ t, (runtime ids).Reachable t ∧ Shows s t ∧
      ∀ a, Option.Rel Shows (s.step a) (t.step a)) ∧
    (∀ f ∈ s.faults, f = .fault .tasksFull) ∧ s.tm.waitingExecutors.count ≤ ids.length ∧
      (s.faults = [] → ∀ t,
        (∀ e e', s.x.pc e = .polling t → s.x.pc e' = .polling t → e = e') ∧
        (∀ e, s.x.pc e = .polling t → (s.x.task t).finished = false) ∧
        (Runtime.Due (s.x.task t) → s.Pending t)) := by
  obtain ⟨t, ht, hst⟩ := (lockstep ids).reachableUnder (D := fun _ _ => True)
    (fun _ _ _ _ _ => trivial) h
  have hinv := Runtime.invariant ht
  refine ⟨⟨t, ht, hst, fun a => (lockstep ids).step s t a hst⟩, ?_, ?_, fun hfaults u => ?_⟩
  · rw [hst.faults]
    simpa using hinv.accounted.faults
  · rw [hst.tm.execs.holds.count_eq]
    exact hinv.accounted.balanced.waiting_le
  · have hnil : t.faults = [] := by simpa [hst.faults] using hfaults
    rw [hst.x]
    refine ⟨fun e e' he he' => hinv.ok.unique (t := u) (by rw [he]; rfl) (by rw [he']; rfl),
      fun e he => (hinv.ok.polling e u he).2, fun hdue => ?_⟩
    exact hst.pending (hinv.delivered (by simp [hnil]) u hdue)

/-- The task `5` is woken while executor `0` polls it, the task `6` then has to wait. -/
def wokenWhilePolled : List (Runtime.Label ℕ) :=
  [.register 5, .recv 0, .work (.lock 0), .work (.look 0), .register 5, .register 6,
    .work (.polled 0 .pending)]

theorem ring_safe_wokenWhilePolled : ∃ s : RingRuntime ℕ, s.x.pc 0 = .unlocking 5 ∧
    s.tm.waitingExecutors.count ≤ 1 ∧ s.Pending 6 := by
  obtain ⟨s, hs, hpc, hfaults, hdue⟩ := TransitionSystem.exists_reachableUnder
    (S := ringRuntime [0]) (C := fun _ _ => True) (s := ⟨_, .new, []⟩) ⟨_, rfl, by decide, rfl⟩
    wokenWhilePolled (p := fun s => s.x.pc 0 = .unlocking 5 ∧ s.faults = [] ∧
      s.x.task 6 = ⟨none, false, true, false, true, false, false⟩) (by decide)
  obtain ⟨-, -, hcount, hsafe⟩ := ring_safe hs
  exact ⟨s, hpc, hcount, (hsafe hfaults 6).2.2 (by rw [hdue]; exact ⟨rfl, rfl, rfl, rfl⟩)⟩

/-- Every registration goes through, and no poll panics. -/
def Smooth (s : RingRuntime τ) : Runtime.Label τ → Prop
  | .register t => (s.tm.registerOrExecute s.hasAborted t).isOk = true
  | .work a => a.panics = false
  | _ => True

omit [DecidableEq τ] in
theorem Shows.smooth (h : Shows s t) {a : Runtime.Label τ} (hc : s.Smooth a) : t.Smooth a := by
  cases a with
  | register u =>
    have hcall := h.tm.registerOrExecute t.hasAborted u
    rw [Smooth, h.hasAborted] at hc
    rw [Runtime.Smooth, Runtime.Registers]
    revert hc hcall
    generalize s.tm.registerOrExecute t.hasAborted u = p
    generalize t.tm.registerOrExecute t.hasAborted u = q
    rintro hc (_ | _)
    · rfl
    · cases hc
  | work b => exact hc
  | abort | recv | ready | close => trivial

instance (s : RingRuntime τ) : (a : Runtime.Label τ) → Decidable (s.Smooth a)
  | .register t => inferInstanceAs (Decidable ((s.tm.registerOrExecute s.hasAborted t).isOk = true))
  | .work a => inferInstanceAs (Decidable (a.panics = false))
  | .abort _ | .recv _ | .ready _ | .close _ => inferInstanceAs (Decidable True)

/-- No task starves on ring buffers: in a run in which every registration goes through, no poll
panics, and no executor that can move is left aside for ever, what was woken is polled, unless the
poll that goes on returns `Ready` or the task is aborted. -/
theorem ring_woken_is_polled (hids : ids ≠ []) (x : (ringRuntime (τ := τ) ids).Execution)
    (hsmooth : x.Under Smooth) (hfair : ∀ e ∈ ids, x.WeaklyFair (Runtime.Moves e)) {t : τ} {n : ℕ}
    (hdue : Runtime.Due ((x.state n).x.task t)) : ∃ m a, n ≤ m ∧ x.act m = some a ∧
      ((∃ e, a = .work (.look e) ∧ (x.state m).x.pc e = .locked t ∧
          (x.state (m + 1)).x.pc e = .polling t) ∨
        (∃ e, a = .work (.polled e .ready) ∧ (x.state m).x.pc e = .polling t) ∨
        a = .abort t) := by
  obtain ⟨y, hact, hrel⟩ := (lockstep ids).execution x
  have hx : ∀ n, (x.state n).x = (y.state n).x := fun n => (hrel n).x
  simp only [hx, ← hact] at hdue ⊢
  refine Runtime.woken_is_polled hids y (fun n a ha => (hrel n).smooth (hsmooth n a ?_))
    (fun e he => (lockstep ids).weaklyFair hact hrel (hfair e he)) hdue
  rw [← hact, ha]

/-- An executor that waits for a task has no step to make. -/
theorem Shows.not_enabled (h : Shows s t) {e : ExecutorId} (hpc : s.x.pc e = .recv)
    (hitems : (s.tm.executors e).map SyncChannel.items = some []) :
    ¬ (ringRuntime ids).Enabled (Runtime.Moves e) s := by
  rw [(lockstep ids).enabled_iff h]
  refine Runtime.not_enabled_of_idle (by rw [← h.x, hpc]) ?_
  rw [h.tm.executors] at hitems
  obtain ⟨ch, hch, hitems⟩ := Option.map_eq_some_iff.1 hitems
  rw [TaskManager.inbox_eq hch, hitems]

/-- The task `5` is woken while it is polled, and is polled a second time. -/
def wokenOnce : List (Runtime.Label ℕ) :=
  [.register 5, .recv 0, .work (.lock 0), .work (.look 0), .register 5,
    .work (.polled 0 .pending), .work (.unlock 0), .ready 0, .recv 0, .work (.lock 0),
    .work (.look 0), .work (.polled 0 .ready), .work (.clear 0), .work (.unlock 0), .ready 0]

/-- The run that takes these steps and then rests. -/
def wokenRun : (ringRuntime (τ := ℕ) [0]).Execution :=
  .ofRun (s := ⟨_, .new, []⟩) wokenOnce ⟨_, rfl, by decide, rfl⟩ (by decide)

theorem ring_woken_is_polled_wokenRun : ∃ m a, 5 ≤ m ∧ wokenRun.act m = some a ∧
    ((∃ e, a = .work (.look e) ∧ (wokenRun.state m).x.pc e = .locked 5 ∧
        (wokenRun.state (m + 1)).x.pc e = .polling 5) ∨
      (∃ e, a = .work (.polled e .ready) ∧ (wokenRun.state m).x.pc e = .polling 5) ∨
      a = .abort 5) := by
  refine ring_woken_is_polled (by decide) wokenRun (Execution.ofRun_under _ _ (by decide)) ?_ ?_
  · intro e he
    obtain rfl : e = 0 := by simpa using he
    refine Execution.weaklyFair_of_not_enabled (n := 15) fun m hm => ?_
    obtain ⟨y, -, hrel⟩ := (lockstep [0]).execution wokenRun
    have hidle : (wokenRun.state 15).x.pc 0 = .recv ∧
        ((wokenRun.state 15).tm.executors 0).map SyncChannel.items = some [] := by decide
    have hrests : wokenRun.state m = wokenRun.state 15 := Execution.ofRun_state_of_length_le _ _ hm
    rw [hrests]
    exact (hrel 15).not_enabled hidle.1 hidle.2
  · have htask : (wokenRun.state 5).x.task 5 =
        ⟨some 0, false, true, false, true, false, false⟩ := by decide
    rw [htask]
    exact ⟨rfl, rfl, rfl, rfl⟩

end RingRuntime

end Hooch
