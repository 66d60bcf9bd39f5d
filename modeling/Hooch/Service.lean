import Hooch.Panics
import Hooch.Task.Liveness

/-!
# Executors in service

A poll that panics is caught, but it leaves the lock of the task's future poisoned, so an executor
that receives the task once more, or waits for its lock already, panics outside of `catch_unwind`
and is lost (`executor_lost`). And a report that finds the panic channel full is an executor that
does not go on.

* `InService`: the executor is in its loop, and finds room where it is at its report;
* `PanicsAlone`: no executor receives a task one of whose polls panicked, and a poll panics only
  while no other executor waits for the lock of its task and no report is in the channel or under
  way;
* `stays_in_service`: the main result, under this condition every executor stays in service and
  comes to `executor_ready` after every task it received;
* `not_alone_lost`: what a step against the condition leads to.
-/

namespace Hooch

open TransitionSystem

namespace Runtime

variable {τ : Type*} [DecidableEq τ] {ids : List ExecutorId} {s s' : Runtime τ} {a : Label τ}
  {e : ExecutorId} {t : τ}

/-- The executor's thread has not left `Executor::run`, and where it is at its report the panic
channel has room. -/
structure InService (x : Executors τ) (e : ExecutorId) : Prop where
  stopped : x.pc e ≠ .stopped
  dead : x.pc e ≠ .dead
  gone : x.pc e ≠ .gone
  room : x.pc e = .reporting → x.panics < Executors.panicBound

/-- The next message for the executor is a task one of whose polls panicked. -/
def nextPanicked (s : Runtime τ) (e : ExecutorId) : Bool :=
  match (s.tm.inbox e).head? with
  | some (.task t) => (s.x.task t).panicked
  | _ => false

/-- The executor `e'` waits for the lock of the task that `e` polls. -/
def waitsBehind (x : Executors τ) (e e' : ExecutorId) : Bool :=
  match x.pc e, x.pc e' with
  | .polling t, .received u => t = u
  | _, _ => false

/-- No executor receives a task one of whose polls panicked. A poll panics only while no other
executor waits for the lock of the task, the panic channel is empty and no executor owes a
report. -/
def PanicsAlone (ids : List ExecutorId) (s : Runtime τ) : Label τ → Prop
  | .recv e => nextPanicked s e = false
  | .work (.polled e .panic) => s.x.panics = 0 ∧ ∀ e' ∈ ids,
      owesReport (s.x.pc e') = false ∧ waitsBehind s.x e e' = false
  | _ => True

instance (s : Runtime τ) (a : Label τ) : Decidable (PanicsAlone ids s a) :=
  match a with
  | .recv e => inferInstanceAs (Decidable (nextPanicked s e = false))
  | .work (.polled e .panic) => inferInstanceAs (Decidable (s.x.panics = 0 ∧ ∀ e' ∈ ids,
      owesReport (s.x.pc e') = false ∧ waitsBehind s.x e e' = false))
  | .work (.polled _ .pending) | .work (.polled _ .ready) | .work (.lock _) | .work (.look _)
  | .work (.clear _) | .work (.unlock _) | .work (.report _) | .work .drainPanic | .register _
  | .abort _ | .ready _ | .close _ => .isTrue trivial

/-! ### What holds in such a run -/

/-- Every executor is in its loop, none has received a task that panicked, and at most one has a
panic to report. -/
structure Healthy (ids : List ExecutorId) (s : Runtime τ) : Prop where
  invariant : Invariant ids s
  report : OneReport s.x
  loop : ∀ e, s.x.pc e ≠ .stopped ∧ s.x.pc e ≠ .dead ∧ s.x.pc e ≠ .gone
  received : ∀ e t, s.x.pc e = .received t → (s.x.task t).panicked = false

theorem Healthy.init (h : (runtime ids).init s) : Healthy ids s := by
  have hinv := Invariant.init h
  obtain ⟨tm, -, -, rfl⟩ := h
  exact ⟨hinv, fun e he => (by cases he), fun e => by simp [Executors.new],
    fun e t ht => (by cases ht)⟩

omit [DecidableEq τ] in
theorem Healthy.inService (h : Healthy ids s) (e : ExecutorId) : InService s.x e := by
  obtain ⟨hstopped, hdead, hgone⟩ := h.loop e
  refine ⟨hstopped, hdead, hgone, fun hpc => ?_⟩
  rw [(h.report e (by rw [hpc]; rfl)).1]
  decide

/-- Whoever waits for a lock finds it sound. -/
theorem Healthy.reportsApart (h : Healthy ids s) (hc : PanicsAlone ids s a) :
    ReportsApart ids s a := by
  cases a with
  | work b =>
    cases b with
    | lock e =>
      intro hpoison
      unfold receivedPoisoned at hpoison
      split at hpoison
      · rename_i t hpc
        have hpanicked := h.received e t hpc
        rw [h.invariant.ok.poisoned t hpoison] at hpanicked
        cases hpanicked
      · cases hpoison
    | polled e o =>
      cases o with
      | panic => exact ⟨hc.1, fun e' he' => (hc.2 e' he').1⟩
      | pending | ready => trivial
    | _ => trivial
  | _ => trivial

omit [DecidableEq τ] in
theorem loop_setPc {x : Executors τ} {p : ExecutorPc τ}
    (h : ∀ e, x.pc e ≠ .stopped ∧ x.pc e ≠ .dead ∧ x.pc e ≠ .gone)
    (hp : p ≠ .stopped ∧ p ≠ .dead ∧ p ≠ .gone) (e' : ExecutorId) :
    (x.setPc e p).pc e' ≠ .stopped ∧ (x.setPc e p).pc e' ≠ .dead ∧ (x.setPc e p).pc e' ≠ .gone :=
  (Function.forall_update_iff x.pc fun _ q => q ≠ .stopped ∧ q ≠ .dead ∧ q ≠ .gone).2
    ⟨hp, fun e' _ => h e'⟩ e'

/-- No executor leaves its loop. -/
theorem Healthy.loop_next (h : Healthy ids s) (hs : Next s a s') (e : ExecutorId) :
    s'.x.pc e ≠ .stopped ∧ s'.x.pc e ≠ .dead ∧ s'.x.pc e ≠ .gone := by
  cases hs with
  | registered | registerFault | abort | readyFault => exact h.loop e
  | recv | readied => exact loop_setPc h.loop (by simp) e
  | finish hpc hrecv =>
    obtain ⟨⟨t, ht⟩, -⟩ := h.invariant.accounted.balanced.recv hrecv
    cases ht
  | @close e hpc => exact absurd hpc (h.loop e).2.1
  | work hx =>
    cases hx with
    | @die e t hpc howner hpoison =>
      have hpanicked := h.received e t hpc
      rw [h.invariant.ok.poisoned t hpoison] at hpanicked
      cases hpanicked
    | drainPanic => exact h.loop e
    | lock | poll | pass | pending | finish | panic | clear | unlock | unwind | report =>
      exact loop_setPc h.loop (by simp) e

/-- Only a poll of the task that panics says that it panicked. -/
theorem Next.panicked_eq (hs : Next s a s')
    (ha : ∀ e, a = .work (.polled e .panic) → s.x.pc e ≠ .polling t) :
    (s'.x.task t).panicked = (s.x.task t).panicked := by
  by_cases hends : s.EndsPoll t a
  · cases hs with
    | work hx =>
      cases hx with
      | pending => rfl
      | @finish e u hpc =>
        by_cases htu : t = u
        · subst htu
          simp
        · simp [htu]
      | @panic e u hpc => exact absurd hends (ha e rfl)
      | _ => cases hends
    | _ => cases hends
  · exact (hs.undisturbed hends).panicked

/-- Only from its channel does an executor receive a task. -/
theorem received_of_next (hs : Next s a s') (hpc : s'.x.pc e = .received t) :
    s.x.pc e = .received t ∨ a = .recv e ∧ ∃ tm, s.tm.recvTask e = some (.task t, tm) := by
  by_cases ha : Moves e a
  · cases hs with
    | registered | registerFault | abort => cases ha
    | readyFault => exact .inl hpc
    | @recv _ u tm _ hrecv =>
      cases ha
      obtain rfl : u = t := by simpa using hpc
      exact .inr ⟨rfl, tm, hrecv⟩
    | finish | readied | close =>
      cases ha
      simp at hpc
    | work hx =>
      cases hx with
      | drainPanic => cases ha
      | _ =>
        cases ha
        simp at hpc
  · rw [pc_of_not_moves hs ha] at hpc
    exact .inl hpc

/-- A task that an executor has received did not panic before, and does not while it waits. -/
theorem Healthy.received_next (h : Healthy ids s) (hc : PanicsAlone ids s a) (hs : Next s a s')
    (hpc : s'.x.pc e = .received t) : (s'.x.task t).panicked = false := by
  rcases received_of_next hs hpc with hold | ⟨rfl, tm, hrecv⟩
  · have he : e ∈ ids := (h.invariant.accounted.balanced.holding (e := e) (by simp [hold, busy])).1
    rw [hs.panicked_eq, h.received e t hold]
    rintro e' rfl hpolls
    have hwaits := (hc.2 e he).2
    simp [waitsBehind, hpolls, hold] at hwaits
  · have hhead : (s.tm.inbox e).head? = some (.task t) := by
      rw [(h.invariant.accounted.balanced.recv hrecv).2.2.1]
      rfl
    rw [hs.panicked_eq (by simp)]
    simpa [PanicsAlone, nextPanicked, hhead] using hc

theorem Healthy.next (h : Healthy ids s) (hc : PanicsAlone ids s a) (hs : Next s a s') :
    Healthy ids s' where
  invariant := h.invariant.next hs
  report := h.report.next h.invariant.accounted (h.reportsApart hc) hs
  loop := h.loop_next hs
  received _ _ := h.received_next hc hs

theorem healthy (h : (runtime ids).ReachableUnder (PanicsAlone ids) s) : Healthy ids s :=
  h.invariant (fun _ => .init) fun _ _ _ hI hc hs => hI.next hc (next_of_step hs)

/-! ### The way to `executor_ready` -/

/-- How many steps an executor is from the end of its call of `executor_ready`, once it has the
lock of its task. -/
def stepsToReady : ExecutorPc τ → ℕ
  | .locked _ => 7
  | .polling _ => 6
  | .finishing _ => 5
  | .unwinding _ => 4
  | .reporting => 3
  | .unlocking _ => 2
  | .ready => 1
  | .recv | .received _ | .stopped | .dead | .gone => 0

/-- A step of the executor brings it closer. -/
theorem Healthy.stepsToReady_lt (h : Healthy ids s) (hs : Next s a s') (ha : Moves e a)
    (hpos : 0 < stepsToReady (s.x.pc e)) :
    stepsToReady (s'.x.pc e) < stepsToReady (s.x.pc e) ∧
      (s'.x.pc e = .recv ∨ 0 < stepsToReady (s'.x.pc e)) := by
  cases hs with
  | registered | registerFault | abort => cases ha
  | recv hpc | finish hpc =>
    cases ha
    simp [hpc, stepsToReady] at hpos
  | @readied _ tm log hpc hready =>
    cases ha
    simp [hpc, stepsToReady]
  | @readyFault _ f hpc hready =>
    cases ha
    obtain ⟨p, hp⟩ := h.invariant.accounted.balanced.ready_ok s.hasAborted (e := e)
      (by simp [hpc, isGone]) (by simp [hpc, busy])
    rw [hp] at hready
    cases hready
  | close hpc =>
    cases ha
    exact absurd hpc (h.loop e).2.1
  | work hx =>
    cases hx with
    | drainPanic => cases ha
    | die hpc | lock hpc =>
      cases ha
      simp [hpc, stepsToReady] at hpos
    | poll hpc | pass hpc | pending hpc | finish hpc | panic hpc | clear hpc | unlock hpc
    | unwind hpc | report hpc =>
      cases ha
      simp [hpc, stepsToReady]

/-- And it can make one. -/
theorem Healthy.enabled (h : Healthy ids s) (hpos : 0 < stepsToReady (s.x.pc e)) :
    (runtime ids).Enabled (Moves e) s := by
  cases hpc : s.x.pc e with
  | locked | polling | finishing | unlocking | ready =>
    exact enabled_of_canMove (by simp [CanMove, hpc, OnDuty, stepsLeft])
  | unwinding u => exact ⟨.work (.unlock e), rfl, by simp [runtime, step, Executors.step, hpc]⟩
  | reporting =>
    have hroom : s.x.panics < Executors.panicBound := (h.inService e).room hpc
    exact ⟨.work (.report e), rfl, by simp [runtime, step, Executors.step, hpc, hroom]⟩
  | recv | received | stopped | dead | gone => simp [hpc, stepsToReady] at hpos

/-- An executor that has the lock of its task, or is past it, comes back to `recv`. -/
theorem ranking_ready (e : ExecutorId) : (runtime (τ := τ) ids).Ranking (PanicsAlone ids)
    (Healthy ids) (fun s => 0 < stepsToReady (s.x.pc e)) (fun s => s.x.pc e = .recv) {k | k = e}
    Moves (fun k _ => k = e) (fun s => stepsToReady (s.x.pc e)) where
  party _ _ _ _ := ⟨e, rfl, rfl⟩
  enabled := by
    rintro s k h hpos - rfl
    exact h.enabled hpos
  step := by
    rintro s a s' k h hpos - rfl hc hs
    have hnext := next_of_step hs
    by_cases ha : Moves k a
    · obtain ⟨hlt, hrecv | hpos'⟩ := h.stepsToReady_lt hnext ha hpos
      · exact .inl hrecv
      · exact .inr ⟨hpos', .inl hlt⟩
    · rw [pc_of_not_moves hnext ha]
      exact .inr ⟨hpos, .inr ⟨rfl, ha, rfl⟩⟩

omit [DecidableEq τ] in
theorem stepsToReady_pos (h : (s.x.pc e).holds = some t) : 0 < stepsToReady (s.x.pc e) := by
  cases hpc : s.x.pc e <;> simp [hpc, ExecutorPc.holds, stepsToReady] at h ⊢

/-- Whoever holds a lock keeps it until the step that gives it back. -/
theorem holds_next (hs : Next s a s') (ha : Moves e a) (hholds : (s.x.pc e).holds = some t) :
    (s'.x.pc e).holds = some t ∨ (s'.x.task t).owner = none := by
  cases hs with
  | registered | registerFault | abort => cases ha
  | recv hpc | finish hpc | readied hpc | readyFault hpc | close hpc =>
    cases ha
    simp [hpc, ExecutorPc.holds] at hholds
  | work hx =>
    cases hx with
    | drainPanic => cases ha
    | die hpc | lock hpc | report hpc =>
      cases ha
      simp [hpc, ExecutorPc.holds] at hholds
    | poll hpc | pass hpc | pending hpc | finish hpc | panic hpc | clear hpc =>
      cases ha
      exact .inl (by simpa [hpc, ExecutorPc.holds] using hholds)
    | unlock hpc | unwind hpc =>
      cases ha
      simp only [hpc, ExecutorPc.holds, Option.some.injEq] at hholds
      subst hholds
      exact .inr (by simp)

/-- The lock of a task is given back. -/
theorem ranking_release (e : ExecutorId) (t : τ) : (runtime ids).Ranking (PanicsAlone ids)
    (Healthy ids) (fun s => (s.x.pc e).holds = some t) (fun s => (s.x.task t).owner = none)
    {k | k = e} Moves (fun k _ => k = e) (fun s => stepsToReady (s.x.pc e)) where
  party _ _ _ _ := ⟨e, rfl, rfl⟩
  enabled := by
    rintro s k h hholds - rfl
    exact h.enabled (stepsToReady_pos hholds)
  step := by
    rintro s a s' k h hholds - rfl hc hs
    have hnext := next_of_step hs
    by_cases ha : Moves k a
    · rcases holds_next hnext ha hholds with hholds' | hnone
      · exact .inr ⟨hholds', .inl (h.stepsToReady_lt hnext ha (stepsToReady_pos hholds)).1⟩
      · exact .inl hnone
    · rw [pc_of_not_moves hnext ha]
      exact .inr ⟨hholds, .inr ⟨rfl, ha, rfl⟩⟩

/-- An executor that waits for a lock waits on until it has it. -/
theorem Healthy.received_stays (h : Healthy ids s) (hs : Next s a s')
    (hpc : s.x.pc e = .received t) :
    (a ≠ .work (.lock e) ∧ s'.x.pc e = .received t) ∨ s'.x.pc e = .locked t := by
  by_cases ha : Moves e a
  · obtain rfl : a = .work (.lock e) := by simpa [hpc, IsTurn] using isTurn_of_moves hs ha
    right
    cases hs with
    | work hx =>
      cases hx with
      | @die _ u hpc' howner hpoison =>
        have hpanicked := h.received e u hpc'
        rw [h.invariant.ok.poisoned u hpoison] at hpanicked
        cases hpanicked
      | lock hpc' =>
        rw [hpc] at hpc'
        cases hpc'
        simp
  · refine .inl ⟨?_, by rw [pc_of_not_moves hs ha, hpc]⟩
    rintro rfl
    exact ha rfl

section Runs

variable {x : (runtime (τ := τ) ids).Execution}

/-- The executors are not left aside for ever, nor is one at a lock that is free again and again. -/
def Fair (x : (runtime (τ := τ) ids).Execution) : Prop :=
  ∀ e ∈ ids, x.WeaklyFair (Moves e) ∧ x.StronglyFair fun a => a = .work (.lock e)

/-- An executor gets the lock that it waits for. -/
theorem received_leadsTo_locked (hx : x.Under (PanicsAlone ids)) (hfair : Fair x) (e : ExecutorId)
    (t : τ) : x.LeadsTo (fun s => s.x.pc e = .received t) fun s => s.x.pc e = .locked t := by
  have hhealthy : ∀ n, Healthy ids (x.state n) := fun n => healthy (x.reachable hx n)
  by_cases he : e ∈ ids
  swap
  · intro n hn
    exact absurd ((hhealthy n).invariant.accounted.balanced.holding (e := e)
      (by simp [hn, busy])).1 he
  refine Execution.leadsTo_of_stronglyFair (R := fun s => (s.x.task t).owner = none)
    (hfair e he).2 ?_ ?_ ?_ ?_
  · intro m a hact hpc
    exact ((hhealthy m).received_stays (next_of_step (x.steps m a hact)) hpc).imp_left And.right
  · rintro m a hact hpc rfl
    exact ((hhealthy m).received_stays (next_of_step (x.steps m _ hact)) hpc).resolve_left
      fun h => h.1 rfl
  · -- whoever has the lock gives it back
    intro m _
    cases howner : ((x.state m).x.task t).owner with
    | none => exact ⟨m, le_rfl, howner⟩
    | some e' =>
      have hholds := ((hhealthy m).invariant.ok.owner e' t).2 howner
      refine (ranking_release e' t).leadsTo hx hhealthy ?_ m hholds
      rintro k rfl
      refine (hfair k ((hhealthy m).invariant.accounted.balanced.holding (e := k) ?_).1).1
      cases hpc : (x.state m).x.pc k <;> simp [hpc, ExecutorPc.holds, busy] at hholds ⊢
  · intro m hpc howner
    refine ⟨_, rfl, ?_⟩
    cases hpoison : ((x.state m).x.task t).poisoned <;>
      simp [runtime, step, Executors.step, hpc, howner, hpoison]

/-- An executor that has received a task comes back to `recv`. -/
theorem received_leadsTo_recv (hx : x.Under (PanicsAlone ids)) (hfair : Fair x) (e : ExecutorId)
    (t : τ) : x.LeadsTo (fun s => s.x.pc e = .received t) fun s => s.x.pc e = .recv := by
  have hhealthy : ∀ n, Healthy ids (x.state n) := fun n => healthy (x.reachable hx n)
  refine (received_leadsTo_locked hx hfair e t).trans fun n hn => ?_
  refine (ranking_ready e).leadsTo hx hhealthy ?_ n (by simp [hn, stepsToReady])
  rintro k rfl
  exact (hfair k
    ((hhealthy n).invariant.accounted.balanced.holding (e := k) (by simp [hn, busy])).1).1

end Runs

/-- Back to `recv` an executor comes by `executor_ready` alone. -/
theorem ready_of_next (hs : Next s a s') (hold : s.x.pc e ≠ .recv) (hnew : s'.x.pc e = .recv) :
    a = .ready e := by
  by_cases ha : Moves e a
  · cases hs with
    | registered | registerFault | abort => cases ha
    | readyFault => exact absurd hnew hold
    | readied =>
      cases ha
      rfl
    | recv | finish | close =>
      cases ha
      simp at hnew
    | work hx =>
      cases hx with
      | drainPanic => cases ha
      | _ =>
        cases ha
        simp at hnew
  · rw [pc_of_not_moves hs ha] at hnew
    exact absurd hnew hold

/-- In every run, of any length, any number of executors and any tasks, in which a poll panics only
while no other executor waits for the lock of its task and no report is in the channel or under way,
and no executor receives a task one of whose polls panicked: every executor is in service at every
moment, and if the run is fair, it calls `executor_ready` after every task it received, and the
call returns. -/
theorem stays_in_service (x : (runtime (τ := τ) ids).Execution) (hx : x.Under (PanicsAlone ids))
    (e : ExecutorId) : (∀ n, InService (x.state n).x e) ∧
      (Fair x → ∀ n t, (x.state n).x.pc e = .received t → ∃ m, n ≤ m ∧ x.act m = some (.ready e) ∧
        (x.state (m + 1)).x.pc e = .recv) := by
  refine ⟨fun n => (healthy (x.reachable hx n)).inService e, fun hfair n t hn => ?_⟩
  obtain ⟨m, hnm, hm⟩ := received_leadsTo_recv hx hfair e t n hn
  obtain ⟨k, a, hnk, hact, hold, hnew⟩ := Execution.exists_step_of_not
    (P := fun s : Runtime τ => s.x.pc e ≠ .recv) hnm (by simp [hn]) (not_not_intro hm)
  rw [not_not] at hnew
  obtain rfl := ready_of_next (next_of_step (x.steps k a hact)) hold hnew
  exact ⟨k, hnk, hact, hnew⟩

/-- The task `5` is woken while executor `0` polls it; the poll panics, and the executor receives
the task once more. -/
def wokenThenPanics : List (Label ℕ) :=
  [.register 5, .recv 0, .work (.lock 0), .work (.look 0), .register 5, .work (.polled 0 .panic),
    .work (.unlock 0), .work (.report 0), .ready 0, .recv 0, .work (.lock 0)]

theorem executor_lost : ¬ ∀ (s : Runtime ℕ) (e : ExecutorId),
    (runtime [0]).Reachable s → InService s.x e := by
  intro hall
  obtain ⟨s, hs, hdead⟩ := TransitionSystem.exists_reachableUnder (S := runtime [0])
    (C := fun _ _ => True) (s := ⟨.registeredWith [0], .new, []⟩) ⟨_, rfl, by decide, rfl⟩
    wokenThenPanics (p := fun s => s.x.pc 0 = .dead) (by decide)
  exact (hall s 0 hs).dead hdead

/-- The poll of the task `5` panics, and the executor goes on with the task `6`. -/
def panicsOnce : List (Label ℕ) :=
  [.register 5, .recv 0, .work (.lock 0), .work (.look 0), .register 6, .work (.polled 0 .panic),
    .work (.unlock 0), .work (.report 0), .ready 0, .recv 0, .work (.lock 0), .work (.look 0),
    .work (.polled 0 .pending), .work (.unlock 0), .ready 0]

/-- The run `panicsOnce`, after which nothing happens. -/
def panicsOnceRun : (runtime (τ := ℕ) [0]).Execution :=
  .ofRun (s := ⟨.registeredWith [0], .new, []⟩) panicsOnce ⟨_, rfl, by decide, rfl⟩ (by decide)

theorem stays_in_service_panicsOnce : panicsOnceRun.act 5 = some (.work (.polled 0 .panic)) ∧
    (∀ n, InService (panicsOnceRun.state n).x 0) ∧
    ∃ m, 2 ≤ m ∧ panicsOnceRun.act m = some (.ready 0) ∧
      (panicsOnceRun.state (m + 1)).x.pc 0 = .recv := by
  have hrests : ∀ m, 15 ≤ m → panicsOnceRun.state m = panicsOnceRun.state 15 :=
    fun m hm => Execution.ofRun_state_of_length_le _ _ hm
  have hidle : ∀ m, 15 ≤ m → ¬ (runtime [0]).Enabled (Moves 0) (panicsOnceRun.state m) := by
    intro m hm
    rw [hrests m hm]
    exact not_enabled_of_idle (by decide) (by decide)
  have hfair : Fair panicsOnceRun := by
    intro e he
    obtain rfl := List.mem_singleton.1 he
    refine ⟨Execution.weaklyFair_of_not_enabled hidle, ?_⟩
    refine Execution.stronglyFair_of_not_enabled fun m hm hlock => hidle m hm ?_
    obtain ⟨a, rfl, ha⟩ := hlock
    exact ⟨.work (.lock 0), rfl, ha⟩
  obtain ⟨hservice, hready⟩ :=
    stays_in_service panicsOnceRun (Execution.ofRun_under _ _ (by decide)) 0
  exact ⟨rfl, hservice, hready hfair 2 5 (by decide)⟩

/-! ### A step against the condition -/

/-- An executor that has received a task that panicked can die of its lock. -/
theorem exists_run_dead (ids : List ExecutorId) (hok : s.x.Ok) (hpc : s.x.pc e = .received t)
    (hpanicked : (s.x.task t).panicked = true) :
    ∃ as u, (runtime ids).run s as = some u ∧ u.x.pc e = .dead := by
  rcases hok.panicked t hpanicked with hpoison | ⟨e', he'⟩
  · have howner : (s.x.task t).owner = none := by
      rw [Option.eq_none_iff_forall_ne_some]
      intro e' he'
      have hsound := hok.sound e' t ((hok.owner e' t).2 he')
      rw [hpoison] at hsound
      cases hsound
    refine ⟨[.work (.lock e)], { s with x := s.x.setPc e .dead }, ?_, by simp⟩
    simp [TransitionSystem.run, runtime, step, Executors.step, hpc, howner, hpoison]
  · have hne : e ≠ e' := by
      rintro rfl
      rw [hpc] at he'
      cases he'
    refine ⟨[.work (.unlock e'), .work (.lock e)], { s with
      x := ((s.x.setPc e' .reporting).setTask t
        { s.x.task t with owner := none, poisoned := true }).setPc e .dead }, ?_, by simp⟩
    simp [TransitionSystem.run, runtime, step, Executors.step, hpc, he', hne]

/-- The condition leaves nothing out: after every step against it the run can go on to where an
executor is not in service. -/
theorem not_alone_lost (h : (runtime ids).Reachable s) (hbreach : ¬ PanicsAlone ids s a)
    (hs : s.step a = some s') : ∃ as u e, (runtime ids).run s' as = some u ∧
      ¬ InService u.x e := by
  have hok' : s'.x.Ok := (invariant (.step h trivial hs)).ok
  have hdead : ∀ {e t}, s'.x.pc e = .received t → (s'.x.task t).panicked = true →
      ∃ as u e, (runtime ids).run s' as = some u ∧ ¬ InService u.x e := by
    intro e t hpc hpanicked
    obtain ⟨as, u, hrun, hu⟩ := exists_run_dead ids hok' hpc hpanicked
    exact ⟨as, u, e, hrun, fun hin => hin.dead hu⟩
  by_cases hapart : ReportsApart ids s a
  swap
  · obtain ⟨as, u, e, hrun, hpc, hfull⟩ := not_apart_waits hapart hs
    exact ⟨as, u, e, hrun, fun hin => hfull (hin.room hpc)⟩
  cases next_of_step hs with
  | @recv e t tm hpc hrecv =>
    have hinbox := ((invariant h).accounted.balanced.recv hrecv).2.2.1
    refine hdead (e := e) (t := t) (by simp) ?_
    simpa [PanicsAlone, nextPanicked, hinbox] using hbreach
  | finish hpc hrecv =>
    obtain ⟨⟨t, ht⟩, -⟩ := (invariant h).accounted.balanced.recv hrecv
    cases ht
  | work hx =>
    cases hx with
    | @panic e t hpc =>
      -- Another executor waits for the lock of the task.
      obtain ⟨hzero, howes⟩ := hapart
      obtain ⟨e', -, he'⟩ : ∃ e' ∈ ids, waitsBehind s.x e e' = true := by
        by_contra hnone
        push Not at hnone
        exact hbreach ⟨hzero, fun e' he' => ⟨howes e' he', by simpa using hnone e' he'⟩⟩
      have hwaits : s.x.pc e' = .received t := by
        cases hpc' : s.x.pc e' <;> simp [waitsBehind, hpc, hpc'] at he' ⊢
        exact he'.symm
      have hne : e' ≠ e := by
        rintro rfl
        rw [hpc] at hwaits
        cases hwaits
      exact hdead (e := e') (t := t) (by simpa [hne] using hwaits) (by simp)
    | die | lock | poll | pass | pending | finish | clear | unlock | unwind | report
    | drainPanic => exact absurd trivial hbreach
  | registered | registerFault | abort | readied | readyFault | close =>
    exact absurd trivial hbreach

/-- Out of service an executor stays, unless a report is taken out of the panic channel. -/
theorem inService_of_next (hs : Next s a s') (ha : a ≠ .work .drainPanic)
    (h : InService s'.x e) : InService s.x e := by
  by_cases hmoves : Moves e a
  · have hturn := isTurn_of_moves hs hmoves
    refine ⟨fun hpc => ?_, fun hpc => ?_, fun hpc => ?_, fun hpc => ?_⟩
    · simp [hpc, IsTurn] at hturn
    · rw [hpc] at hturn
      cases hturn
      cases hs with
      | close => exact h.gone (by simp)
    · simp [hpc, IsTurn] at hturn
    · rw [hpc] at hturn
      cases hturn
      cases hs with
      | work hx =>
        cases hx with
        | report _ hroom => exact hroom
  · have hpanics : s.x.panics ≤ s'.x.panics := by
      cases hs with
      | registered | registerFault | abort | recv | finish | readied | readyFault => exact le_rfl
      | close => exact Nat.le_succ _
      | work hx =>
        cases hx with
        | drainPanic => exact absurd rfl ha
        | report => exact Nat.le_succ _
        | _ => exact le_rfl
    have hpc := pc_of_not_moves hs hmoves
    refine ⟨?_, ?_, ?_, fun hrep => hpanics.trans_lt (h.room (hpc.trans hrep))⟩
    · rw [← hpc]
      exact h.stopped
    · rw [← hpc]
      exact h.dead
    · rw [← hpc]
      exact h.gone

/-- So it never comes to `executor_ready`. -/
theorem never_ready {as : List (Label τ)} {u : Runtime τ} (hout : ¬ InService s.x e)
    (hrun : (runtime ids).run s as = some u) (hdrain : .work .drainPanic ∉ as) :
    u.x.pc e ≠ .ready := by
  induction as generalizing s with
  | nil =>
    cases hrun
    intro hpc
    exact hout (by constructor <;> simp [hpc])
  | cons a as ih =>
    rw [TransitionSystem.run_cons, Option.bind_eq_some_iff] at hrun
    obtain ⟨t, ht, hrun⟩ := hrun
    rw [List.mem_cons, not_or] at hdrain
    exact ih (fun hin => hout (inService_of_next (next_of_step ht) (Ne.symm hdrain.1) hin)) hrun
      hdrain.2

end Runtime

end Hooch
