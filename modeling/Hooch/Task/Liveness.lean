import Hooch.Lib.Fairness
import Hooch.Task.Poll

/-!
# A woken task is polled

No task starves: as long as every registration goes through and no poll panics, a run in which no
executor is left aside for ever polls every task again that was registered or woken, unless the
task is aborted or the poll that goes on finishes it.

The way of a delivery has four parts, and each of them has a rank of its own: the place of the task
in the queue of waiting tasks and the work that the executors have left until one of them takes the
next task; nothing for a task in a channel; the work left to whoever holds the lock of the task for
a task that an executor has received; and nothing for one whose lock it has.

* `Executors.Label.mover`, `stepsLeft`: whose step it is, and how far `executor_ready` is;
* `Serving`: what holds as long as all registrations go through and no poll panics;
* `ranking_waiting`, `ranking_inbox`, `ranking_received`, `ranking_locked`: the four parts;
* `woken_is_polled`: the main result, for every fair run.
-/

namespace Hooch

open TransitionSystem

/-- The executor whose step it is. -/
def Executors.Label.mover : Executors.Label → Option ExecutorId
  | .lock e | .look e | .polled e _ | .clear e | .unlock e | .report e => some e
  | .drainPanic => none

/-- A poll panics. -/
def Executors.Label.panics : Executors.Label → Bool
  | .polled _ .panic => true
  | _ => false

namespace Runtime

variable {τ : Type*} [DecidableEq τ] {ids : List ExecutorId} {s s' : Runtime τ} {a : Label τ}
  {e : ExecutorId} {t : τ}

/-- The executor whose step it is. -/
def Label.mover : Label τ → Option ExecutorId
  | .recv e | .ready e | .close e => some e
  | .work a => a.mover
  | .register _ | .abort _ => none

/-- A step of the executor. -/
def Moves (e : ExecutorId) (a : Label τ) : Prop := a.mover = some e

/-- Every registration goes through, and no poll panics. -/
def Smooth (s : Runtime τ) : Label τ → Prop
  | .register t => s.Registers t
  | .work a => a.panics = false
  | _ => True

instance (s : Runtime τ) : (a : Label τ) → Decidable (s.Smooth a)
  | .register t => inferInstanceAs (Decidable (s.Registers t))
  | .work a => inferInstanceAs (Decidable (a.panics = false))
  | .abort _ | .recv _ | .ready _ | .close _ => .isTrue trivial

instance (s : Runtime τ) (t : τ) : (a : Label τ) → Decidable (s.Smooth a ∧ a ≠ .abort t)
  | .abort u => decidable_of_iff (u ≠ t) (by simp [Smooth])
  | .register u => decidable_of_iff (s.Registers u) (by simp [Smooth])
  | .work a => decidable_of_iff (a.panics = false) (by simp [Smooth])
  | .recv _ | .ready _ | .close _ => .isTrue (by simp [Smooth])

/-- How many steps an executor is from the end of its call of `executor_ready`. -/
def stepsLeft : ExecutorPc τ → ℕ
  | .recv => 7
  | .received _ => 6
  | .locked _ => 5
  | .polling _ => 4
  | .finishing _ => 3
  | .unlocking _ => 2
  | .ready => 1
  | .unwinding _ | .reporting | .stopped | .dead | .gone => 0

/-- The executor is in its loop, and no panic unwinds. -/
def OnDuty (p : ExecutorPc τ) : Prop := 0 < stepsLeft p

/-- The executor can move. -/
def CanMove (s : Runtime τ) (e : ExecutorId) : Prop :=
  match s.x.pc e with
  | .recv => s.tm.inbox e ≠ []
  | .received t => (s.x.task t).owner = none
  | p => OnDuty p

/-! ### What a step does to the executors -/

/-- An executor stays where it is when others move. -/
theorem pc_of_not_moves (hs : Next s a s') (ha : ¬ Moves e a) : s'.x.pc e = s.x.pc e := by
  have hne : ∀ {e' : ExecutorId}, a.mover = some e' → e ≠ e' := by
    rintro e' hmover rfl
    exact ha hmover
  cases hs with
  | registered | registerFault | abort | readyFault => rfl
  | recv | finish | readied | close => exact Function.update_of_ne (hne rfl) _ _
  | work h =>
    cases h with
    | drainPanic => rfl
    | _ => exact Function.update_of_ne (hne rfl) _ _

/-- A step of an executor on duty brings it closer to the end of `executor_ready`, unless it is
that end. -/
theorem stepsLeft_lt (hs : Next s a s') (ha : Moves e a) (hold : OnDuty (s.x.pc e))
    (hnew : OnDuty (s'.x.pc e)) (hready : a ≠ .ready e) :
    stepsLeft (s'.x.pc e) < stepsLeft (s.x.pc e) := by
  unfold OnDuty at hold hnew
  cases hs with
  | registered | registerFault | abort => cases ha
  | readied | readyFault =>
    cases ha
    exact absurd rfl hready
  | recv hpc | finish hpc =>
    cases ha
    simp [hpc, stepsLeft]
  | close hpc =>
    cases ha
    simp [stepsLeft] at hnew
  | work h =>
    cases h with
    | drainPanic => cases ha
    | die hpc | panic hpc =>
      cases ha
      simp [stepsLeft] at hnew
    | unwind hpc | report hpc =>
      cases ha
      simp [hpc, stepsLeft] at hold
    | lock hpc | poll hpc | pass hpc | pending hpc | finish hpc | clear hpc | unlock hpc =>
      cases ha
      simp [hpc, stepsLeft]

/-- Only by locking it does an executor come to hold the lock of a task. -/
theorem locked_of_holds (hs : Next s a s') (hold : (s.x.pc e).holds ≠ some t)
    (hnew : (s'.x.pc e).holds = some t) : s'.x.pc e = .locked t := by
  by_cases ha : Moves e a
  · cases hs with
    | registered | registerFault | abort => cases ha
    | readyFault => exact absurd hnew hold
    | recv hpc | finish hpc | readied hpc | close hpc =>
      cases ha
      simp [ExecutorPc.holds] at hnew
    | work h =>
      cases h with
      | drainPanic => cases ha
      | lock hpc =>
        cases ha
        simpa [ExecutorPc.holds] using hnew
      | die hpc | unlock hpc | unwind hpc | report hpc =>
        cases ha
        simp [ExecutorPc.holds] at hnew
      | poll hpc | pass hpc | pending hpc | finish hpc | panic hpc | clear hpc =>
        cases ha
        rw [hpc] at hold
        exact absurd (by simpa [ExecutorPc.holds] using hnew) hold
  · rw [pc_of_not_moves hs ha] at hnew
    exact absurd hnew hold

/-- The one step that an executor can make where it stands. -/
def IsTurn (e : ExecutorId) : ExecutorPc τ → Label τ → Prop
  | .recv, a => a = .recv e
  | .received _, a => a = .work (.lock e)
  | .locked _, a => a = .work (.look e)
  | .polling _, a => ∃ o, a = .work (.polled e o)
  | .finishing _, a => a = .work (.clear e)
  | .unlocking _, a | .unwinding _, a => a = .work (.unlock e)
  | .reporting, a => a = .work (.report e)
  | .ready, a => a = .ready e
  | .dead, a => a = .close e
  | .stopped, _ | .gone, _ => False

theorem isTurn_of_moves (hs : Next s a s') (ha : Moves e a) : IsTurn e (s.x.pc e) a := by
  cases hs with
  | registered | registerFault | abort => cases ha
  | recv hpc | finish hpc | readied hpc | readyFault hpc | close hpc =>
    cases ha
    rw [hpc]
    exact rfl
  | work h =>
    cases h with
    | drainPanic => cases ha
    | pending hpc | finish hpc | panic hpc =>
      cases ha
      rw [hpc]
      exact ⟨_, rfl⟩
    | die hpc | lock hpc | poll hpc | pass hpc | clear hpc | unlock hpc | unwind hpc
    | report hpc =>
      cases ha
      rw [hpc]
      exact rfl

/-! ### What holds in a smooth run -/

/-- Nothing has gone wrong: no call of the task manager has failed and no poll has panicked, every
executor is on duty, and none waits while a task does. -/
structure Serving (ids : List ExecutorId) (s : Runtime τ) : Prop where
  invariant : Invariant ids s
  faults : s.faults = []
  panicked : ∀ t, (s.x.task t).panicked = false
  onDuty : ∀ e, OnDuty (s.x.pc e)
  conserving : s.tm.waitingTasks.items ≠ [] → s.tm.waitingExecutors.items = []

omit [DecidableEq τ] in
theorem Serving.delivered (h : Serving ids s) : Delivered s :=
  h.invariant.delivered (by simp [h.faults])

theorem Serving.init (h : (runtime ids).init s) : Serving ids s := by
  have hinv := Invariant.init h
  obtain ⟨tm, htm, hids, rfl⟩ := h
  refine ⟨hinv, rfl, fun _ => rfl, fun _ => Nat.succ_pos _, fun hne => ?_⟩
  rw [(TaskManager.registerExecutors_eq_ok htm).1] at hne
  exact absurd rfl hne

omit [DecidableEq τ] in
/-- A registration keeps the queue of waiting tasks empty while an executor waits. -/
theorem conserving_registration {tm : TaskManager τ} {log : List (Action τ)}
    (h : s.tm.waitingTasks.items ≠ [] → s.tm.waitingExecutors.items = [])
    (hreg : s.tm.Registration s.hasAborted t tm log) :
    tm.waitingTasks.items ≠ [] → tm.waitingExecutors.items = [] := by
  cases hreg with
  | skipped => exact h
  | queued _ q hnone => exact fun _ => hnone
  | sent _ exec q ch ch' hpop =>
    intro hne
    rw [(BoundedQueue.pop_eq_some hpop).1] at h
    exact absurd (h hne) (by simp)

omit [DecidableEq τ] in
/-- And so does `executor_ready`. -/
theorem conserving_readying {tm : TaskManager τ} {log : List (Action τ)}
    (h : s.tm.waitingTasks.items ≠ [] → s.tm.waitingExecutors.items = [])
    (hready : s.tm.Readying s.hasAborted e tm log) :
    tm.waitingTasks.items ≠ [] → tm.waitingExecutors.items = [] := by
  cases hready with
  | sent skipped task q ch ch' _ _ hitems => exact fun _ => h (by simp [hitems])
  | parked skipped q q' _ _ hempty => exact fun hne => absurd hempty hne

omit [DecidableEq τ] in
theorem onDuty_setPc {x : Executors τ} (h : ∀ e, OnDuty (x.pc e)) {p : ExecutorPc τ}
    (hp : OnDuty p) (e' : ExecutorId) : OnDuty ((x.setPc e p).pc e') := by
  by_cases he : e' = e
  · subst he
    simpa using hp
  · simpa [he] using h e'

/-- Within `forward_task` nobody leaves its duty, as no lock is poisoned. -/
theorem Serving.work (h : Serving ids s) {b : Executors.Label} {x : Executors τ}
    (hc : s.Smooth (.work b)) (hx : s.x.Next b x) :
    (∀ t, (x.task t).panicked = false) ∧ ∀ e, OnDuty (x.pc e) := by
  have htask : ∀ {u : τ} {k : Task}, k.panicked = (s.x.task u).panicked →
      ∀ t, ((s.x.setTask u k).task t).panicked = false := by
    intro u k hk t
    by_cases htu : t = u
    · subst htu
      simp [hk, h.panicked]
    · simpa [htu] using h.panicked t
  cases hx with
  | @die e u hpc howner hpoison =>
    have hpanicked := h.invariant.ok.poisoned u hpoison
    rw [h.panicked u] at hpanicked
    cases hpanicked
  | panic => cases hc
  | @unwind e u hpc =>
    have hduty := h.onDuty e
    simp [hpc, OnDuty, stepsLeft] at hduty
  | @report e hpc =>
    have hduty := h.onDuty e
    simp [hpc, OnDuty, stepsLeft] at hduty
  | drainPanic => exact ⟨h.panicked, h.onDuty⟩
  | pass | pending => exact ⟨h.panicked, onDuty_setPc h.onDuty (by simp [OnDuty, stepsLeft])⟩
  | lock | poll | finish | clear | unlock =>
    exact ⟨htask rfl, onDuty_setPc h.onDuty (by simp [OnDuty, stepsLeft])⟩

/-- A smooth run goes on smoothly. -/
theorem Serving.next (h : Serving ids s) (hc : s.Smooth a) (hs : Next s a s') :
    Serving ids s' := by
  have hinv := h.invariant.next hs
  cases hs with
  | registered hreg =>
    refine ⟨hinv, h.faults, fun u => ?_, h.onDuty, conserving_registration h.conserving hreg⟩
    have hundisturbed := (Next.registered (s := s) hreg).undisturbed (t := u) (fun h => h)
    rw [hundisturbed.panicked]
    exact h.panicked u
  | registerFault herror =>
    rw [Smooth, Registers, herror] at hc
    cases hc
  | @abort u =>
    refine ⟨hinv, h.faults, fun v => ?_, h.onDuty, h.conserving⟩
    rw [((Next.abort (s := s) (t := u)).undisturbed (t := v) (fun h => h)).panicked]
    exact h.panicked v
  | @recv e u tm hpc hrecv =>
    obtain ⟨ch, ch', -, -, rfl⟩ := TaskManager.recvTask_eq_some hrecv
    exact ⟨hinv, h.faults, h.panicked, onDuty_setPc h.onDuty (by simp [OnDuty, stepsLeft]),
      h.conserving⟩
  | finish hpc hrecv =>
    obtain ⟨⟨u, hu⟩, -⟩ := h.invariant.accounted.balanced.recv hrecv
    cases hu
  | work hx =>
    obtain ⟨hpanicked, hduty⟩ := h.work hc hx
    exact ⟨hinv, h.faults, hpanicked, hduty, h.conserving⟩
  | @readied e tm log hpc hready =>
    exact ⟨hinv, h.faults, h.panicked, onDuty_setPc h.onDuty (by simp [OnDuty, stepsLeft]),
      conserving_readying h.conserving hready⟩
  | @readyFault e f hpc hready =>
    obtain ⟨p, hp⟩ := h.invariant.accounted.balanced.ready_ok s.hasAborted (e := e)
      (by simp [hpc, isGone]) (by simp [hpc, busy])
    rw [hp] at hready
    cases hready
  | @close e hpc =>
    have hduty := h.onDuty e
    simp [hpc, OnDuty, stepsLeft] at hduty

/-- Who can move has a step to make. -/
theorem enabled_of_canMove (h : CanMove s e) : (runtime ids).Enabled (Moves e) s := by
  unfold CanMove at h
  cases hpc : s.x.pc e with
  | recv =>
    rw [hpc] at h
    refine ⟨.recv e, rfl, ?_⟩
    cases hch : s.tm.executors e with
    | none => simp [TaskManager.inbox, hch] at h
    | some ch =>
      rw [TaskManager.inbox_eq hch] at h
      cases hrecv : ch.recv with
      | none => exact absurd (SyncChannel.recv_eq_none_iff.1 hrecv) h
      | some p =>
        obtain ⟨m, ch'⟩ := p
        cases m <;> simp [runtime, step, hpc, TaskManager.recvTask, hch, hrecv]
  | received u =>
    rw [hpc] at h
    refine ⟨.work (.lock e), rfl, ?_⟩
    cases hpoison : (s.x.task u).poisoned <;>
      simp [runtime, step, Executors.step, hpc, show (s.x.task u).owner = none from h, hpoison]
  | locked u =>
    refine ⟨.work (.look e), rfl, ?_⟩
    cases hfut : (s.x.task u).future <;> simp [runtime, step, Executors.step, hpc, hfut]
  | polling u =>
    exact ⟨.work (.polled e .pending), rfl, by simp [runtime, step, Executors.step, hpc]⟩
  | finishing u => exact ⟨.work (.clear e), rfl, by simp [runtime, step, Executors.step, hpc]⟩
  | unlocking u => exact ⟨.work (.unlock e), rfl, by simp [runtime, step, Executors.step, hpc]⟩
  | ready =>
    refine ⟨.ready e, rfl, ?_⟩
    cases hready : s.tm.executorReady s.hasAborted e <;> simp [runtime, step, hpc, hready]
  | unwinding | reporting | stopped | dead | gone => simp [hpc, OnDuty, stepsLeft] at h

omit [DecidableEq τ] in
/-- Whoever holds a lock can move. -/
theorem Serving.canMove_of_holds (h : Serving ids s) (he : (s.x.pc e).holds = some t) :
    CanMove s e := by
  have hduty := h.onDuty e
  unfold CanMove
  split
  · rename_i hpc
    simp [hpc, ExecutorPc.holds] at he
  · rename_i hpc
    simp [hpc, ExecutorPc.holds] at he
  · exact hduty

omit [DecidableEq τ] in
/-- Whoever is inside `forward_task` holds its token. -/
theorem Serving.busy_pos (h : Serving ids s) (he : s.x.pc e ≠ .recv) : 0 < busy (s.x.pc e) := by
  have hduty := h.onDuty e
  cases hpc : s.x.pc e with
  | recv => exact absurd hpc he
  | stopped => simp [hpc, OnDuty, stepsLeft] at hduty
  | _ => simp [busy]

omit [DecidableEq τ] in
/-- Whoever is inside `forward_task` is one of `ids`. -/
theorem Serving.mem_ids (h : Serving ids s) (he : s.x.pc e ≠ .recv) : e ∈ ids :=
  (h.invariant.accounted.balanced.holding (h.busy_pos he)).1

omit [DecidableEq τ] in
/-- Unless an executor waits, one can move. -/
theorem Serving.exists_canMove (h : Serving ids s) (hids : ids ≠ [])
    (hwait : s.tm.waitingExecutors.items = []) : ∃ e ∈ ids, CanMove s e := by
  obtain ⟨e, he⟩ := List.exists_mem_of_ne_nil ids hids
  have htok := h.invariant.accounted.balanced.tokens e
  have hduty := h.onDuty e
  rw [hwait, if_pos he] at htok
  cases hpc : s.x.pc e with
  | recv =>
    refine ⟨e, he, ?_⟩
    simp only [CanMove, hpc]
    intro hnil
    simp [hnil, hpc, busy] at htok
  | received u =>
    cases howner : (s.x.task u).owner with
    | none => exact ⟨e, he, by simpa only [CanMove, hpc] using howner⟩
    | some e' =>
      -- The executor waits for a lock, and whoever holds it can move.
      have hholds := (h.invariant.ok.owner e' u).2 howner
      exact ⟨e', h.mem_ids (fun hrecv => by simp [hrecv, ExecutorPc.holds] at hholds),
        h.canMove_of_holds hholds⟩
  | _ =>
    refine ⟨e, he, ?_⟩
    simp only [CanMove, hpc]
    rwa [hpc] at hduty

/-! ### The four parts of the way -/

/-- The next step of an executor that has locked a task polls it, if its future is there. -/
theorem Serving.look (h : Serving ids s) (hpc : s.x.pc e = .locked t) (hdue : Due (s.x.task t))
    (ha : Moves e a) (hs : Next s a s') : ¬ Due (s'.x.task t) ∧ s'.x.pc e = .polling t := by
  obtain rfl : a = .work (.look e) := by simpa [hpc, IsTurn] using isTurn_of_moves hs ha
  cases hs with
  | work hx =>
    cases hx with
    | poll hpc' hfut =>
      rw [hpc] at hpc'
      cases hpc'
      refine ⟨fun hdue' => ?_, by simp⟩
      have := hdue'.notified
      simp at this
    | pass hpc' hfut =>
      rw [hpc] at hpc'
      cases hpc'
      have := hdue.finished
      rw [h.invariant.ok.cleared t hfut] at this
      cases this

/-- The lock of the task is held by an executor that is about to poll it. -/
theorem ranking_locked (e : ExecutorId) (t : τ) : (runtime ids).Ranking Smooth (Serving ids)
    (fun s => Due (s.x.task t) ∧ s.x.pc e = .locked t) (fun s => ¬ Due (s.x.task t))
    {k | k ∈ ids} Moves (fun k _ => k = e) (fun _ => 0 : Runtime τ → ℕ) where
  party s h hP _ := ⟨e, h.mem_ids (by simp [hP.2]), rfl⟩
  enabled := by
    rintro s k h ⟨-, hpc⟩ - rfl
    exact enabled_of_canMove (h.canMove_of_holds (t := t) (by rw [hpc]; rfl))
  step := by
    rintro s a s' k h ⟨hdue, hpc⟩ - rfl hc hs
    have hnext := next_of_step hs
    by_cases ha : Moves k a
    · exact .inl (h.look hpc hdue ha hnext).1
    · by_cases hdue' : Due (s'.x.task t)
      · exact .inr ⟨⟨hdue', by rw [pc_of_not_moves hnext ha, hpc]⟩, .inr ⟨rfl, ha, rfl⟩⟩
      · exact .inl hdue'

/-- A message stays in its channel until the executor receives it. -/
theorem inbox_of_not_moves {m : ExecutorTask τ} (hm : m ∈ s.tm.inbox e) (h : Serving ids s)
    (ha : ¬ Moves e a) (hs : Next s a s') : m ∈ s'.tm.inbox e := by
  cases hs with
  | registered hreg => exact hreg.mono.2 e hm
  | registerFault | abort | work | readyFault => exact hm
  | @recv e' u tm hpc hrecv | @finish e' tm hpc hrecv =>
    obtain ⟨ch, ch', -, -, rfl⟩ := TaskManager.recvTask_eq_some hrecv
    have hne : e ≠ e' := by
      rintro rfl
      exact ha rfl
    simpa [TaskManager.inbox_setChannel, hne] using hm
  | readied hpc hready => exact hready.mono.2 e hm
  | @close e' hpc =>
    have hduty := h.onDuty e'
    simp [hpc, OnDuty, stepsLeft] at hduty

/-- The task is in the channel of an executor, which is about to receive it. -/
theorem ranking_inbox (e : ExecutorId) (t : τ) : (runtime ids).Ranking Smooth (Serving ids)
    (fun s => Due (s.x.task t) ∧ .task t ∈ s.tm.inbox e)
    (fun s => ¬ Due (s.x.task t) ∨ s.x.pc e = .received t)
    {k | k ∈ ids} Moves (fun k s => k = e ∧ s.x.pc e = .recv) (fun _ => 0 : Runtime τ → ℕ) where
  party := by
    rintro s h ⟨-, hmem⟩ -
    have htok := h.invariant.accounted.balanced.tokens e
    have hlen := List.length_pos_of_mem hmem
    have hduty := h.onDuty e
    split at htok
    · rename_i hids
      refine ⟨e, hids, rfl, ?_⟩
      cases hpc : s.x.pc e with
      | recv => rfl
      | stopped => simp [hpc, OnDuty, stepsLeft] at hduty
      | _ =>
        simp only [Function.comp_apply, hpc, busy] at htok
        omega
    · omega
  enabled := by
    rintro s k h ⟨-, hmem⟩ - ⟨rfl, hpc⟩
    refine enabled_of_canMove ?_
    simp only [CanMove, hpc]
    exact List.ne_nil_of_mem hmem
  step := by
    rintro s a s' k h ⟨hdue, hmem⟩ - ⟨rfl, hpc⟩ hc hs
    have hnext := next_of_step hs
    by_cases hdue' : Due (s'.x.task t)
    · by_cases ha : Moves k a
      · obtain rfl : a = .recv k := by simpa [hpc, IsTurn] using isTurn_of_moves hnext ha
        cases hnext with
        | recv hpc' hrecv =>
          have hinbox := (h.invariant.accounted.balanced.recv hrecv).2.2.1
          rw [hinbox, List.mem_singleton] at hmem
          cases hmem
          exact .inl (.inr (by simp))
        | finish hpc' hrecv =>
          obtain ⟨⟨u, hu⟩, -⟩ := h.invariant.accounted.balanced.recv hrecv
          cases hu
      · exact .inr ⟨⟨hdue', inbox_of_not_moves hmem h ha hnext⟩,
          .inr ⟨rfl, ha, rfl, by rw [pc_of_not_moves hnext ha, hpc]⟩⟩
    · exact .inl (.inl hdue')

/-- An executor has received the task and waits for its lock, which others may take before it. -/
theorem ranking_received (e : ExecutorId) (t : τ) : (runtime ids).Ranking Smooth (Serving ids)
    (fun s => Due (s.x.task t) ∧ s.x.pc e = .received t)
    (fun s => ¬ Due (s.x.task t) ∨ ∃ e', s.x.pc e' = .locked t)
    {k | k ∈ ids} Moves (fun k s => k = (s.x.task t).owner.getD e)
    (fun s => (s.x.task t).owner.elim 0 fun e' => stepsLeft (s.x.pc e')) where
  party := by
    rintro s h ⟨-, hpc⟩ -
    refine ⟨_, ?_, rfl⟩
    cases howner : (s.x.task t).owner with
    | none => exact h.mem_ids (by simp [hpc])
    | some e' =>
      have hholds := (h.invariant.ok.owner e' t).2 howner
      rw [Option.getD_some]
      exact h.mem_ids fun hrecv => by simp [hrecv, ExecutorPc.holds] at hholds
  enabled := by
    rintro s k h ⟨-, hpc⟩ - rfl
    refine enabled_of_canMove ?_
    cases howner : (s.x.task t).owner with
    | none => simpa [CanMove, hpc] using howner
    | some e' => exact h.canMove_of_holds ((h.invariant.ok.owner e' t).2 howner)
  step := by
    rintro s a s' k h ⟨hdue, hpc⟩ hQ hk hc hs
    have hnext := next_of_step hs
    have h' := h.next hc hnext
    by_cases hdue' : Due (s'.x.task t)
    swap
    · exact .inl (.inl hdue')
    by_cases hlocked : ∃ e', s'.x.pc e' = .locked t
    · exact .inl (.inr hlocked)
    -- Nobody has locked the task in this step, so the lock is with whoever had it, or free.
    have howner' : ∀ e', (s'.x.task t).owner = some e' → (s.x.task t).owner = some e' := by
      intro e' he'
      rw [← h.invariant.ok.owner]
      by_contra hold
      exact hlocked ⟨e', locked_of_holds hnext hold ((h'.invariant.ok.owner e' t).2 he')⟩
    -- It is not the executor itself that moves, which would lock it.
    have hlock : Moves e a → (s.x.task t).owner ≠ none → False := by
      intro ha howner
      obtain rfl : a = .work (.lock e) := by simpa [hpc, IsTurn] using isTurn_of_moves hnext ha
      cases hnext with
      | work hx =>
        cases hx with
        | die hpc' hnone | lock hpc' hnone =>
          rw [hpc] at hpc'
          cases hpc'
          exact howner hnone
    cases howner : (s.x.task t).owner with
    | none =>
      have hnone : (s'.x.task t).owner = none := by
        rw [Option.eq_none_iff_forall_ne_some]
        intro e' he'
        rw [howner' e' he'] at howner
        cases howner
      rw [howner, Option.getD_none] at hk
      subst hk
      by_cases ha : Moves k a
      · obtain rfl : a = .work (.lock k) := by simpa [hpc, IsTurn] using isTurn_of_moves hnext ha
        cases hnext with
        | work hx =>
          cases hx with
          | die hpc' _ hpoison =>
            rw [hpc] at hpc'
            cases hpc'
            have := hdue.panicked
            rw [h.invariant.ok.poisoned t hpoison] at this
            cases this
          | lock hpc' =>
            rw [hpc] at hpc'
            cases hpc'
            exact absurd ⟨k, by simp⟩ hlocked
      · exact .inr ⟨⟨hdue', by rw [pc_of_not_moves hnext ha, hpc]⟩,
          .inr ⟨by rw [hnone]; rfl, ha, by rw [hnone, Option.getD_none]⟩⟩
    | some e' =>
      have hholds := (h.invariant.ok.owner e' t).2 howner
      rw [howner, Option.getD_some] at hk
      subst hk
      have hstays : s'.x.pc e = .received t := by
        rw [pc_of_not_moves hnext fun ha => hlock ha (by simp [howner]), hpc]
      refine .inr ⟨⟨hdue', hstays⟩, ?_⟩
      by_cases ha : Moves k a
      · left
        cases hnow : (s'.x.task t).owner with
        | none => exact h.onDuty k
        | some e'' =>
          obtain rfl : k = e'' := Option.some.inj (howner.symm.trans (howner' e'' hnow))
          refine stepsLeft_lt hnext ha (h.onDuty k) (h'.onDuty k) ?_
          rintro rfl
          have hturn := isTurn_of_moves hnext ha
          cases hpc' : s.x.pc k <;> simp [hpc', IsTurn, ExecutorPc.holds] at hturn hholds
      · right
        have hnow : (s'.x.task t).owner = some k := by
          rw [← h'.invariant.ok.owner, pc_of_not_moves hnext ha]
          exact hholds
        exact ⟨by simp [hnow, pc_of_not_moves hnext ha], ha, by simp [hnow]⟩

/-- While every executor waits for a task and no task waits, nobody has anything to do. -/
theorem Serving.resting (h : Serving ids s)
    (hexecutors : ∀ e ∈ ids, e ∈ s.tm.waitingExecutors.items)
    (htasks : s.tm.waitingTasks.items = []) :
    (∀ e, s.x.pc e = .recv) ∧ ∀ t, ¬ s.Pending t := by
  have hbalanced := h.invariant.accounted.balanced
  have hpc : ∀ e, s.x.pc e = .recv := by
    intro e
    by_contra he
    obtain ⟨hids, hwaits, -⟩ := hbalanced.holding (h.busy_pos he)
    exact hwaits (hexecutors e hids)
  refine ⟨hpc, ?_⟩
  rintro t (ht | ⟨e, he⟩ | ⟨e, he | he⟩)
  · rw [htasks] at ht
    cases ht
  · by_cases hids : e ∈ ids
    · simp [(hbalanced.waiting (hexecutors e hids)).2.1] at he
    · have htok := hbalanced.tokens e
      rw [if_neg hids] at htok
      have hlen := List.length_pos_of_mem he
      omega
  · simp [hpc e] at he
  · simp [hpc e] at he

/-- Only executors of `ids` move. -/
theorem Serving.mem_ids_of_moves (h : Serving ids s) (ha : Moves e a) (hs : Next s a s') :
    e ∈ ids := by
  by_cases hpc : s.x.pc e = .recv
  · obtain rfl : a = .recv e := by simpa [hpc, IsTurn] using isTurn_of_moves hs ha
    have htok := h.invariant.accounted.balanced.tokens e
    by_contra hids
    rw [if_neg hids] at htok
    cases hs with
    | recv _ hrecv | finish _ hrecv =>
      rw [(h.invariant.accounted.balanced.recv hrecv).2.2.1] at htok
      simp at htok
  · exact h.mem_ids hpc

/-- What the executors have left to do until each of them is at its next task. -/
def workLeft (ids : List ExecutorId) (s : Runtime τ) : ℕ :=
  (ids.map fun e => stepsLeft (s.x.pc e)).sum

/-- A step within `forward_task`, or the one that receives the task, leaves less to do. -/
theorem Serving.workLeft_lt (h : Serving ids s) (hc : s.Smooth a) (ha : Moves e a)
    (hready : a ≠ .ready e) (hs : Next s a s') : workLeft ids s' < workLeft ids s := by
  have hlt := stepsLeft_lt hs ha (h.onDuty e) ((h.next hc hs).onDuty e) hready
  refine List.sum_lt_sum _ _ (fun e' _ => ?_) ⟨e, h.mem_ids_of_moves ha hs, hlt⟩
  by_cases he : e' = e
  · subst he
    exact hlt.le
  · have hother : ¬ Moves e' a := fun ha' => he (Option.some.inj (ha'.symm.trans ha))
    rw [pc_of_not_moves hs hother]

/-- Who is no executor leaves the executors able to move. -/
theorem canMove_of_mover_none (h : Serving ids s) (hc : s.Smooth a) (ha : a.mover = none)
    (hs : Next s a s') (hmove : CanMove s e) : CanMove s' e := by
  have hpc : s'.x.pc e = s.x.pc e := pc_of_not_moves hs (by simp [Moves, ha])
  unfold CanMove at hmove ⊢
  rw [hpc]
  cases hpc' : s.x.pc e with
  | recv =>
    rw [hpc'] at hmove
    obtain ⟨m, hm⟩ := List.exists_mem_of_ne_nil _ hmove
    exact List.ne_nil_of_mem (inbox_of_not_moves hm h (by simp [Moves, ha]) hs)
  | received u =>
    rw [hpc'] at hmove
    cases hs with
    | @registered v | @registerFault v | @abort v =>
      by_cases huv : u = v
      · subst huv
        simpa [Executors.notify] using hmove
      · simpa [Executors.notify, huv] using hmove
    | work hx =>
      cases hx with
      | drainPanic => exact hmove
      | _ => cases ha
    | _ => cases ha
  | _ => simpa [hpc'] using hmove

/-- The task waits, and the executors work towards the end of what they do. -/
theorem ranking_waiting (hids : ids ≠ []) (t : τ) : (runtime ids).Ranking Smooth (Serving ids)
    (fun s => Due (s.x.task t) ∧ t ∈ s.tm.waitingTasks.items)
    (fun s => ¬ Due (s.x.task t) ∨ ∃ e, .task t ∈ s.tm.inbox e)
    {k | k ∈ ids} Moves (fun k s => CanMove s k)
    (fun s => (toLex (s.tm.waitingTasks.items.idxOf t, workLeft ids s) : ℕ ×ₗ ℕ)) where
  party := by
    rintro s h ⟨-, hmem⟩ -
    exact h.exists_canMove hids (h.conserving (List.ne_nil_of_mem hmem))
  enabled := by
    rintro s k h - - hmove
    exact enabled_of_canMove hmove
  step := by
    rintro s a s' k h ⟨hdue, hmem⟩ - hmove hc hs
    have hnext := next_of_step hs
    by_cases hdue' : Due (s'.x.task t)
    swap
    · exact .inl (.inl hdue')
    have hlive : s.hasAborted t = false := hdue.abort
    cases hmover : a.mover with
    | none =>
      have hmove' := canMove_of_mover_none h hc hmover hnext hmove
      have hwork : workLeft ids s' = workLeft ids s := by
        unfold workLeft
        congr 2
        funext e
        rw [pc_of_not_moves hnext (by simp [Moves, hmover])]
      have hidx : t ∈ s'.tm.waitingTasks.items ∧
          s'.tm.waitingTasks.items.idxOf t = s.tm.waitingTasks.items.idxOf t := by
        cases hnext with
        | registered hreg =>
          cases hreg with
          | skipped => exact ⟨hmem, rfl⟩
          | queued _ q hnone hpush =>
            rw [(BoundedQueue.push_eq_some hpush).2.2]
            exact ⟨List.mem_append_left _ hmem, List.idxOf_append_of_mem hmem⟩
          | sent _ exec q ch ch' hpop =>
            -- No executor waits, as the task does.
            have hnone := h.conserving (List.ne_nil_of_mem hmem)
            rw [(BoundedQueue.pop_eq_some hpop).1] at hnone
            cases hnone
        | registerFault | abort | work => exact ⟨hmem, rfl⟩
        | _ => cases hmover
      exact .inr ⟨⟨hdue', hidx.1⟩,
        .inr ⟨by rw [hidx.2, hwork], by simp [Moves, hmover], hmove'⟩⟩
    | some e =>
      by_cases hready : a = .ready e
      · subst hready
        cases hnext with
        | readied hpc hready =>
          cases hready with
          | parked skipped q q' hskipped hitems =>
            have haborted := hskipped t (hitems ▸ hmem)
            rw [hlive] at haborted
            cases haborted
          | sent skipped task q ch ch' hskipped _ hitems _ hch hsend =>
            by_cases htask : task = t
            · subst htask
              refine .inl (.inr ⟨e, ?_⟩)
              simp [TaskManager.inbox, (SyncChannel.send_eq_ok hsend).2.2.2]
            · have hfront : t ∉ skipped ++ [task] := by
                intro hin
                rcases List.mem_append.1 hin with hin | hin
                · have haborted := hskipped t hin
                  rw [hlive] at haborted
                  cases haborted
                · exact htask (List.mem_singleton.1 hin).symm
              have hitems' : s.tm.waitingTasks.items = (skipped ++ [task]) ++ q.items := by
                simp [hitems]
              have hin : t ∈ q.items := by
                rw [hitems'] at hmem
                exact (List.mem_append.1 hmem).resolve_left hfront
              refine .inr ⟨⟨hdue', hin⟩, .inl (Prod.Lex.toLex_lt_toLex.2 (.inl ?_))⟩
              rw [hitems', List.idxOf_append_of_notMem hfront]
              simp
        | readyFault hpc hready =>
          have hfault := (h.next hc (.readyFault hpc hready)).faults
          simp at hfault
      · have hitems : s'.tm.waitingTasks = s.tm.waitingTasks := by
          cases hnext with
          | recv _ hrecv | finish _ hrecv =>
            obtain ⟨ch, ch', -, -, rfl⟩ := TaskManager.recvTask_eq_some hrecv
            rfl
          | work | close => rfl
          | readied | readyFault =>
            cases hmover
            exact absurd rfl hready
          | _ => cases hmover
        refine .inr ⟨⟨hdue', by rw [hitems]; exact hmem⟩, .inl ?_⟩
        rw [hitems]
        exact Prod.Lex.toLex_lt_toLex.2 (.inr ⟨rfl, h.workLeft_lt hc hmover hready hnext⟩)

/-! ### Every woken task is polled -/

theorem serving (h : (runtime ids).ReachableUnder Smooth s) : Serving ids s :=
  h.invariant (fun _ => .init) fun _ _ _ hI hc hs => hI.next hc (next_of_step hs)

/-- What ends that a task is due. -/
theorem due_ends (hc : s.Smooth a) (hs : Next s a s')
    (hdue : Due (s.x.task t)) (hdue' : ¬ Due (s'.x.task t)) :
    (∃ e, a = .work (.look e) ∧ s.x.pc e = .locked t ∧ s'.x.pc e = .polling t) ∨
      (∃ e, a = .work (.polled e .ready) ∧ s.x.pc e = .polling t) ∨ a = .abort t := by
  by_cases habort : a = .abort t
  · exact .inr (.inr habort)
  by_cases hends : s.EndsPoll t a
  · cases hs with
    | work hx =>
      cases hx with
      | finish hpc => exact .inr (.inl ⟨_, rfl, hends⟩)
      | panic => cases hc
      | pending => exact absurd hdue hdue'
      | _ => cases hends
    | _ => cases hends
  · have hundisturbed := hs.undisturbed hends
    rcases hundisturbed.notified hdue.notified with hnotified | ⟨e, hpc, hpc'⟩
    · refine absurd ⟨hnotified, ?_, ?_, ?_⟩ hdue'
      · rw [hundisturbed.finished, hdue.finished]
      · rw [hundisturbed.panicked, hdue.panicked]
      · rw [hs.abort_eq habort, hdue.abort]
    · refine .inl ⟨e, ?_, hpc, hpc'⟩
      have hmoves : Moves e a := by
        by_contra hnot
        rw [pc_of_not_moves hs hnot, hpc] at hpc'
        cases hpc'
      simpa [hpc, IsTurn] using isTurn_of_moves hs hmoves

/-- What is due does not stay due for ever. -/
theorem due_leadsTo (hids : ids ≠ []) {x : (runtime (τ := τ) ids).Execution}
    (hsmooth : x.Under Smooth) (hfair : ∀ e ∈ ids, x.WeaklyFair (Moves e)) (t : τ) :
    x.LeadsTo (fun s => Due (s.x.task t)) fun s => ¬ Due (s.x.task t) := by
  have hserving : ∀ n, Serving ids (x.state n) := fun n => serving (x.reachable hsmooth n)
  have hlocked : x.LeadsTo (fun s => Due (s.x.task t) ∧ ∃ e, s.x.pc e = .locked t)
      (fun s => ¬ Due (s.x.task t)) := by
    rintro n ⟨hdue, e, hpc⟩
    exact (ranking_locked e t).leadsTo hsmooth hserving hfair n ⟨hdue, hpc⟩
  have hreceived (e : ExecutorId) : x.LeadsTo (fun s => Due (s.x.task t) ∧ s.x.pc e = .received t)
      (fun s => ¬ Due (s.x.task t)) :=
    ((ranking_received e t).leadsTo hsmooth hserving hfair).stage hlocked
  have hinbox : x.LeadsTo (fun s => Due (s.x.task t) ∧ ∃ e, .task t ∈ s.tm.inbox e)
      (fun s => ¬ Due (s.x.task t)) := by
    rintro n ⟨hdue, e, hmem⟩
    exact ((ranking_inbox e t).leadsTo hsmooth hserving hfair).stage (hreceived e) n ⟨hdue, hmem⟩
  have hwaiting := ((ranking_waiting hids t).leadsTo hsmooth hserving hfair).stage hinbox
  intro n hdue
  rcases (hserving n).delivered t hdue with hw | hi | ⟨e, he | he⟩
  · exact hwaiting n ⟨hdue, hw⟩
  · exact hinbox n ⟨hdue, hi⟩
  · exact hreceived e n ⟨hdue, he⟩
  · exact hlocked n ⟨hdue, e, he⟩

/-- In a run in which every registration goes through, no poll panics, and no executor that can
move is left aside for ever: a task that was registered or woken since the start of its latest poll
is polled later on, unless the poll that goes on returns `Ready` or the task is aborted. -/
theorem woken_is_polled (hids : ids ≠ []) (x : (runtime (τ := τ) ids).Execution)
    (hsmooth : x.Under Smooth) (hfair : ∀ e ∈ ids, x.WeaklyFair (Moves e)) {n : ℕ}
    (hdue : Due ((x.state n).x.task t)) : ∃ m a, n ≤ m ∧ x.act m = some a ∧
      ((∃ e, a = .work (.look e) ∧ (x.state m).x.pc e = .locked t ∧
          (x.state (m + 1)).x.pc e = .polling t) ∨
        (∃ e, a = .work (.polled e .ready) ∧ (x.state m).x.pc e = .polling t) ∨
        a = .abort t) := by
  obtain ⟨m, hnm, hm⟩ := due_leadsTo hids hsmooth hfair t n hdue
  obtain ⟨k, a, hnk, hact, hk, hk'⟩ :=
    Execution.exists_step_of_not (P := fun s : Runtime τ => Due (s.x.task t)) hnm hdue hm
  exact ⟨k, a, hnk, hact, due_ends (hsmooth k a hact) (next_of_step (x.steps k a hact)) hk hk'⟩

/-- An executor that waits for a task has no step to make. -/
theorem not_enabled_of_idle (hpc : s.x.pc e = .recv) (hinbox : s.tm.inbox e = []) :
    ¬ (runtime ids).Enabled (Moves e) s := by
  rintro ⟨a, ha, hs⟩
  obtain ⟨s', hs⟩ := Option.isSome_iff_exists.1 hs
  have hnext := next_of_step hs
  obtain rfl : a = .recv e := by simpa [hpc, IsTurn] using isTurn_of_moves hnext ha
  cases hnext with
  | recv _ hrecv | finish _ hrecv =>
    have hmem := (TaskManager.inbox_recvTask hrecv).1
    rw [hinbox] at hmem
    cases hmem

end Runtime

end Hooch
