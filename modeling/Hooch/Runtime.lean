import Hooch.Executor
import Hooch.Task.Dispatch

/-!
# The runtime with atomic calls

The executors of `build`, their task manager and the tasks. Any party registers a task or wakes
it at any moment (`wake` and `wake_by_ref` are calls of `register_or_execute_non_blocking_task`),
also while the task is polled; each call of the task manager is one step, and the executors run
`forward_task` step by step.

There is no flag that says that a task is scheduled or running, so the same task may be in several
places at once. `wake_safe`: its lock keeps two executors from polling it, and a task that was
woken since the start of its latest poll is still to be delivered.
-/

namespace Hooch

/-- The task manager, the executors with the tasks, and the calls that did not return. -/
structure Runtime (τ : Type*) where
  tm : TaskManager τ
  x : Executors τ
  faults : List Fault

namespace Runtime

variable {τ : Type*} [DecidableEq τ]

/-- The steps. -/
inductive Label (τ : Type*)
  /-- The task is spawned or woken. -/
  | register (t : τ)
  | abort (t : τ)
  | recv (e : ExecutorId)
  | work (a : Executors.Label)
  | ready (e : ExecutorId)
  /-- The thread of an executor that panicked reports it and ends. -/
  | close (e : ExecutorId)

def hasAborted (s : Runtime τ) (t : τ) : Bool := (s.x.task t).abort

def step (s : Runtime τ) : Label τ → Option (Runtime τ)
  | .register t =>
      match s.tm.registerOrExecute s.hasAborted t with
      | .ok (tm, _) => some { s with tm := tm, x := s.x.notify t }
      | .error f => some { s with x := s.x.notify t, faults := s.faults ++ [f] }
  | .abort t => some { s with x := s.x.setTask t { s.x.task t with abort := true } }
  | .recv e =>
      match s.x.pc e, s.tm.recvTask e with
      | .recv, some (.task t, tm) => some { s with tm := tm, x := s.x.setPc e (.received t) }
      | .recv, some (.finished, tm) => some { s with tm := tm, x := s.x.setPc e .stopped }
      | _, _ => none
  | .work a => (s.x.step a).map fun x => { s with x := x }
  | .ready e =>
      match s.x.pc e with
      | .ready =>
          match s.tm.executorReady s.hasAborted e with
          | .ok (tm, _) => some { s with tm := tm, x := s.x.setPc e .recv }
          | .error f => some { s with faults := s.faults ++ [f] }
      | _ => none
  | .close e =>
      match s.x.pc e with
      | .dead =>
          if s.x.panics < Executors.panicBound then
            some { s with
              tm := s.tm.closeChannel e
              x := { s.x.setPc e .gone with panics := s.x.panics + 1 } }
          else none
      | _ => none

/-- What a step can do. -/
inductive Next (s : Runtime τ) : Label τ → Runtime τ → Prop
  | registered {t : τ} {tm : TaskManager τ} {log : List (Action τ)}
      (h : s.tm.Registration s.hasAborted t tm log) :
      Next s (.register t) { s with tm := tm, x := s.x.notify t }
  | registerFault {t : τ} {f : Fault} (h : s.tm.registerOrExecute s.hasAborted t = .error f) :
      Next s (.register t) { s with x := s.x.notify t, faults := s.faults ++ [f] }
  | abort {t : τ} :
      Next s (.abort t) { s with x := s.x.setTask t { s.x.task t with abort := true } }
  | recv {e : ExecutorId} {t : τ} {tm : TaskManager τ} (hpc : s.x.pc e = .recv)
      (h : s.tm.recvTask e = some (.task t, tm)) :
      Next s (.recv e) { s with tm := tm, x := s.x.setPc e (.received t) }
  | finish {e : ExecutorId} {tm : TaskManager τ} (hpc : s.x.pc e = .recv)
      (h : s.tm.recvTask e = some (.finished, tm)) :
      Next s (.recv e) { s with tm := tm, x := s.x.setPc e .stopped }
  | work {a : Executors.Label} {x : Executors τ} (h : s.x.Next a x) :
      Next s (.work a) { s with x := x }
  | readied {e : ExecutorId} {tm : TaskManager τ} {log : List (Action τ)}
      (hpc : s.x.pc e = .ready) (h : s.tm.Readying s.hasAborted e tm log) :
      Next s (.ready e) { s with tm := tm, x := s.x.setPc e .recv }
  | readyFault {e : ExecutorId} {f : Fault} (hpc : s.x.pc e = .ready)
      (h : s.tm.executorReady s.hasAborted e = .error f) :
      Next s (.ready e) { s with faults := s.faults ++ [f] }
  | close {e : ExecutorId} (hpc : s.x.pc e = .dead) :
      Next s (.close e) { s with
        tm := s.tm.closeChannel e
        x := { s.x.setPc e .gone with panics := s.x.panics + 1 } }

variable {s s' : Runtime τ}

theorem next_of_step {a : Label τ} (h : s.step a = some s') : Next s a s' := by
  cases a with
  | register t =>
    simp only [step] at h
    split at h
    · rename_i hreg
      cases h
      exact .registered (TaskManager.registration hreg)
    · rename_i hreg
      cases h
      exact .registerFault hreg
  | abort t =>
    cases h
    exact .abort
  | recv e =>
    simp only [step] at h
    split at h
    · rename_i hpc hrecv
      cases h
      exact .recv hpc hrecv
    · rename_i hpc hrecv
      cases h
      exact .finish hpc hrecv
    · cases h
  | work a =>
    simp only [step, Option.map_eq_some_iff] at h
    obtain ⟨x, hx, rfl⟩ := h
    exact .work (Executors.next_of_step hx)
  | ready e =>
    simp only [step] at h
    split at h
    · rename_i hpc
      split at h
      · rename_i hready
        cases h
        exact .readied hpc (TaskManager.readying hready)
      · rename_i hready
        cases h
        exact .readyFault hpc hready
    · cases h
  | close e =>
    simp only [step] at h
    split at h
    · rename_i hpc
      split at h
      · cases h
        exact .close hpc
      · cases h
    · cases h

end Runtime

/-- The runtime whose executors `ids` are registered before the first task. -/
def runtime {τ : Type*} [DecidableEq τ] (ids : List ExecutorId) :
    TransitionSystem (Runtime τ) (Runtime.Label τ) where
  init s := ∃ tm, TaskManager.registerExecutors ids .new = .ok tm ∧ ids.Nodup ∧
    s = ⟨tm, .new, []⟩
  step := Runtime.step

namespace Runtime

variable {τ : Type*} [DecidableEq τ] {ids : List ExecutorId} {s s' : Runtime τ}

/-! ### The tokens -/

/-- Whether the executor holds its token. -/
def busy : ExecutorPc τ → ℕ
  | .recv | .stopped => 0
  | _ => 1

def isGone : ExecutorPc τ → Bool
  | .gone => true
  | _ => false

/-- Every executor has one token, and the calls fail only on a full queue of waiting tasks. -/
structure Accounted (ids : List ExecutorId) (s : Runtime τ) : Prop where
  balanced : s.tm.Balanced ids (isGone ∘ s.x.pc) (busy ∘ s.x.pc)
  faults : ∀ f ∈ s.faults, f = .tasksFull

omit [DecidableEq τ] in
theorem comp_setPc {β : Type*} (f : ExecutorPc τ → β) (x : Executors τ) (e : ExecutorId)
    (p : ExecutorPc τ) : f ∘ (x.setPc e p).pc = Function.update (f ∘ x.pc) e (f p) :=
  Function.comp_update f x.pc e p

omit [DecidableEq τ] in
theorem comp_setPc_self {β : Type*} {f : ExecutorPc τ → β} {x : Executors τ} {e : ExecutorId}
    {p : ExecutorPc τ} (h : f p = f (x.pc e)) : f ∘ (x.setPc e p).pc = f ∘ x.pc := by
  rw [comp_setPc]
  exact Function.update_eq_self_iff.2 h

/-- No step of `forward_task` moves a token. -/
theorem busy_next {x x' : Executors τ} {a : Executors.Label} (h : x.Next a x') :
    busy ∘ x'.pc = busy ∘ x.pc ∧ isGone ∘ x'.pc = isGone ∘ x.pc := by
  cases h with
  | drainPanic => exact ⟨rfl, rfl⟩
  | die hpc | lock hpc | poll hpc | pass hpc | pending hpc | finish hpc | panic hpc | clear hpc
  | unlock hpc | unwind hpc | report hpc =>
    exact ⟨comp_setPc_self (by rw [hpc]; rfl), comp_setPc_self (by rw [hpc]; rfl)⟩

theorem Accounted.next {a : Label τ} (h : Accounted ids s) (hs : Next s a s') :
    Accounted ids s' := by
  obtain ⟨hbal, hfaults⟩ := h
  cases hs with
  | registered hreg => exact ⟨hbal.registration hreg, hfaults⟩
  | registerFault hreg =>
    refine ⟨hbal, fun f hf => ?_⟩
    rcases List.mem_append.1 hf with hf | hf
    · exact hfaults f hf
    · rw [List.mem_singleton.1 hf]
      exact hbal.register_error hreg
  | abort => exact ⟨hbal, hfaults⟩
  | @recv e t tm hpc hrecv =>
    refine ⟨?_, hfaults⟩
    rw [comp_setPc busy, comp_setPc_self (f := isGone) (by rw [hpc]; rfl)]
    exact (hbal.recv hrecv).2.2.2.2
  | finish hpc hrecv =>
    obtain ⟨⟨t, ht⟩, -⟩ := hbal.recv hrecv
    cases ht
  | work hx =>
    obtain ⟨hbusy, hgone⟩ := busy_next hx
    exact ⟨by rw [hbusy, hgone]; exact hbal, hfaults⟩
  | @readied e tm log hpc hready =>
    refine ⟨?_, hfaults⟩
    rw [comp_setPc busy, comp_setPc_self (f := isGone) (by rw [hpc]; rfl)]
    exact hbal.readying (by simp [hpc, isGone]) (by simp [hpc, busy]) hready
  | @readyFault e f hpc hready =>
    obtain ⟨p, hp⟩ := hbal.ready_ok s.hasAborted (e := e)
      (by simp [hpc, isGone]) (by simp [hpc, busy])
    rw [hp] at hready
    cases hready
  | @close e hpc =>
    refine ⟨?_, hfaults⟩
    have hclosed := (hbal.close (e := e) (by simp [hpc, busy])).2
    rwa [← comp_setPc_self (f := busy) (x := s.x) (e := e) (p := .gone) (by rw [hpc]; rfl),
      ← show isGone .gone = true from rfl, ← comp_setPc] at hclosed

/-! ### Wakes -/

/-- The task is still to be delivered: it waits, it is in a channel, or an executor received it
and has not started to poll it. -/
def Pending (s : Runtime τ) (t : τ) : Prop :=
  t ∈ s.tm.waitingTasks.items ∨ (∃ e, .task t ∈ s.tm.inbox e) ∨ s.x.Received t

/-- The task was registered or woken since the start of its latest poll, and there is no reason
not to poll it again. -/
structure Due (k : Task) : Prop where
  notified : k.notified = true
  finished : k.finished = false
  panicked : k.panicked = false
  abort : k.abort = false

/-- What is due is to be delivered. -/
def Delivered (s : Runtime τ) : Prop := ∀ t, Due (s.x.task t) → s.Pending t

theorem due_setTask {x : Executors τ} {t u : τ} {k : Task} (h : Due ((x.setTask u k).task t))
    (hk : Due k → Due (x.task u)) : Due (x.task t) := by
  by_cases htu : t = u
  · subst htu
    exact hk (by simpa using h)
  · simpa [htu] using h

/-- A step of `forward_task` leaves a task that is due where it was received: it is not due any
more once its poll has started, and a lock that is poisoned or a future that is gone belongs to a
task that is not due. -/
theorem due_next {x x' : Executors τ} (hok : x.Ok) {a : Executors.Label} (h : x.Next a x') {t : τ}
    (hdue : Due (x'.task t)) : Due (x.task t) ∧ (x.Received t → x'.Received t) := by
  cases h with
  | @die e u hpc howner hpoison =>
    refine ⟨hdue, fun hr => hr.setPc ?_ (by simp [hpc])⟩
    rw [hpc]
    rintro ⟨rfl⟩
    have hnot : (x.task t).panicked = false := hdue.panicked
    rw [hok.poisoned t hpoison] at hnot
    cases hnot
  | @lock e u hpc howner hpoison =>
    refine ⟨due_setTask (x := x) hdue fun hk => ⟨hk.1, hk.2, hk.3, hk.4⟩, fun hr => ?_⟩
    by_cases htu : t = u
    · subst htu
      exact ⟨e, .inr (by simp)⟩
    · exact hr.setPc (by simpa [hpc] using Ne.symm htu) (by simp [hpc])
  | @poll e u hpc hfut =>
    have htu : t ≠ u := by
      rintro rfl
      have := hdue.notified
      simp at this
    exact ⟨by simpa [htu] using hdue,
      fun hr => hr.setPc (by simp [hpc]) (by simpa [hpc] using Ne.symm htu)⟩
  | @pass e u hpc hfut =>
    refine ⟨hdue, fun hr => hr.setPc (by simp [hpc]) ?_⟩
    rw [hpc]
    rintro ⟨rfl⟩
    have hnot : (x.task t).finished = false := hdue.finished
    rw [hok.cleared t hfut] at hnot
    cases hnot
  | @pending e u hpc => exact ⟨hdue, fun hr => hr.setPc (by simp [hpc]) (by simp [hpc])⟩
  | @finish e u hpc =>
    exact ⟨due_setTask (x := x) hdue fun hk => absurd hk.finished (by simp),
      fun hr => hr.setPc (by simp [hpc]) (by simp [hpc])⟩
  | @panic e u hpc =>
    exact ⟨due_setTask (x := x) hdue fun hk => absurd hk.panicked (by simp),
      fun hr => hr.setPc (by simp [hpc]) (by simp [hpc])⟩
  | @clear e u hpc =>
    exact ⟨due_setTask (x := x) hdue fun hk => ⟨hk.1, hk.2, hk.3, hk.4⟩,
      fun hr => hr.setPc (by simp [hpc]) (by simp [hpc])⟩
  | @unlock e u hpc =>
    exact ⟨due_setTask (x := x) hdue fun hk => ⟨hk.1, hk.2, hk.3, hk.4⟩,
      fun hr => hr.setPc (by simp [hpc]) (by simp [hpc])⟩
  | @unwind e u hpc =>
    exact ⟨due_setTask (x := x) hdue fun hk => ⟨hk.1, hk.2, hk.3, hk.4⟩,
      fun hr => hr.setPc (by simp [hpc]) (by simp [hpc])⟩
  | @report e hpc hroom =>
    exact ⟨hdue, fun hr => hr.setPc (x := x) (e := e) (p := .ready) (by simp [hpc]) (by simp [hpc])⟩
  | drainPanic hpos => exact ⟨hdue, id⟩

/-- Every step delivers a task that is due, or leaves it to be delivered, unless the step is a
registration of the task that fails. -/
theorem pending_next {a : Label τ} {t : τ} (h : Due (s.x.task t) → s.Pending t)
    (hacc : Accounted ids s) (hok : s.x.Ok) (hs : Next s a s')
    (hok' : a = .register t → s'.faults = s.faults) (hdue : Due (s'.x.task t)) :
    s'.Pending t := by
  cases hs with
  | @registered u tm log hreg =>
    by_cases htu : t = u
    · subst htu
      rcases hreg.placed (by simpa [hasAborted, Executors.notify] using hdue.abort) with hw | hi
      · exact .inl hw
      · exact .inr (.inl hi)
    · obtain ⟨hwaits, hinbox⟩ := hreg.mono
      rcases h (by simpa [Executors.notify, htu] using hdue) with hw | ⟨e, he⟩ | hr
      · exact .inl (hwaits hw)
      · exact .inr (.inl ⟨e, hinbox e he⟩)
      · exact .inr (.inr (hr.mono rfl))
  | @registerFault u f herror =>
    by_cases htu : t = u
    · have hfaults := hok' (by rw [htu])
      simp at hfaults
    · rcases h (by simpa [Executors.notify, htu] using hdue) with hw | hi | hr
      · exact .inl hw
      · exact .inr (.inl hi)
      · exact .inr (.inr (hr.mono rfl))
  | @abort u =>
    rcases h (due_setTask (x := s.x) hdue fun hk => absurd hk.abort (by simp)) with hw | hi | hr
    · exact .inl hw
    · exact .inr (.inl hi)
    · exact .inr (.inr (hr.mono rfl))
  | @recv e u tm hpc hrecv =>
    obtain ⟨-, -, hinbox, hinbox', -⟩ := hacc.balanced.recv hrecv
    obtain ⟨ch, ch', -, -, htm⟩ := TaskManager.recvTask_eq_some hrecv
    have hother : ∀ e', e' ≠ e → tm.inbox e' = s.tm.inbox e' := by
      intro e' hne
      rw [htm, TaskManager.inbox_setChannel, Function.update_of_ne hne]
    rcases h hdue with hw | ⟨e', he'⟩ | hr
    · exact .inl (by rw [htm]; exact hw)
    · by_cases hee : e' = e
      · subst hee
        rw [hinbox, List.mem_singleton] at he'
        cases he'
        exact .inr (.inr ⟨e', .inl (by simp)⟩)
      · exact .inr (.inl ⟨e', by rw [hother e' hee]; exact he'⟩)
    · exact .inr (.inr (hr.setPc (by simp [hpc]) (by simp [hpc])))
  | finish hpc hrecv =>
    obtain ⟨⟨u, hu⟩, -⟩ := hacc.balanced.recv hrecv
    cases hu
  | work hx =>
    obtain ⟨hdue', hrecv⟩ := due_next hok hx hdue
    rcases h hdue' with hw | hi | hr
    · exact .inl hw
    · exact .inr (.inl hi)
    · exact .inr (.inr (hrecv hr))
  | @readied e tm log hpc hready =>
    obtain ⟨hwaits, hinbox⟩ := hready.mono
    rcases h hdue with hw | ⟨e', he'⟩ | hr
    · rcases hwaits t hw hdue.abort with hw | hi
      · exact .inl hw
      · exact .inr (.inl ⟨e, hi⟩)
    · exact .inr (.inl ⟨e', hinbox e' he'⟩)
    · exact .inr (.inr (hr.setPc (by simp [hpc]) (by simp [hpc])))
  | readyFault hpc hready => exact h hdue
  | @close e hpc =>
    have hinbox := (hacc.balanced.close (e := e) (by simp [hpc, busy])).1
    rcases h hdue with hw | ⟨e', he'⟩ | hr
    · exact .inl hw
    · exact .inr (.inl ⟨e', by rw [hinbox]; exact he'⟩)
    · exact .inr (.inr (.mono rfl (hr.setPc (e := e) (p := .gone) (by simp [hpc]) (by simp [hpc]))))

/-- As long as no call fails, every step delivers what is due, or leaves it to be delivered. -/
theorem Delivered.next {a : Label τ} (h : Delivered s) (hacc : Accounted ids s) (hok : s.x.Ok)
    (hs : Next s a s') (hfull : .tasksFull ∉ s'.faults) : Delivered s' := by
  intro t
  refine pending_next (h t) hacc hok hs fun ha => ?_
  subst ha
  cases hs with
  | registered => rfl
  | registerFault hreg =>
    rw [hacc.balanced.register_error hreg] at hfull
    simp at hfull

theorem Ok.next {a : Label τ} (h : s.x.Ok) (hs : Next s a s') : s'.x.Ok := by
  cases hs with
  | registered | registerFault | abort => exact h.setTask rfl rfl rfl rfl rfl
  | recv hpc | finish hpc => exact h.setPc (by rw [hpc]; rfl) rfl
  | work hx => exact h.next hx
  | readied hpc => exact h.setPc (by rw [hpc]; rfl) rfl
  | readyFault => exact h
  | @close e hpc =>
    exact (h.setPc (e := e) (p := .gone) (by rw [hpc]; rfl) rfl).setPanics

theorem faults_subset {a : Label τ} (hs : Next s a s') : s.faults ⊆ s'.faults := by
  cases hs with
  | registerFault | readyFault => exact List.subset_append_left _ _
  | _ => exact List.Subset.refl _

/-- The invariant of the runtime. -/
structure Invariant (ids : List ExecutorId) (s : Runtime τ) : Prop where
  accounted : Accounted ids s
  ok : s.x.Ok
  delivered : .tasksFull ∉ s.faults → Delivered s

theorem Invariant.init (h : (runtime ids).init s) : Invariant ids s := by
  obtain ⟨tm, htm, hids, rfl⟩ := h
  refine ⟨⟨TaskManager.Balanced.new hids htm, by simp⟩, Executors.Ok.new, fun _ t hdue => ?_⟩
  have := hdue.notified
  simp [Executors.new, Task.new] at this

theorem Invariant.next {a : Label τ} (h : Invariant ids s) (hs : Next s a s') :
    Invariant ids s' where
  accounted := h.accounted.next hs
  ok := Ok.next h.ok hs
  delivered hfull := (h.delivered fun hmem => hfull (faults_subset hs hmem)).next h.accounted h.ok
    hs hfull

theorem invariant (h : (runtime ids).Reachable s) : Invariant ids s :=
  h.invariant (fun _ => .init) fun _ _ _ hI hs => hI.next (next_of_step hs)

/-- For every task: at most one executor polls its future; a future whose poll returned `Ready` is
not polled; and if the task was registered or woken since the start of its latest poll, and is
neither finished nor panicked nor aborted, then it is still to be delivered. -/
theorem wake_safe (h : (runtime ids).Reachable s) (hfull : .tasksFull ∉ s.faults) (t : τ) :
    (∀ e e', s.x.pc e = .polling t → s.x.pc e' = .polling t → e = e') ∧
      (∀ e, s.x.pc e = .polling t → (s.x.task t).finished = false) ∧
      ((s.x.task t).notified = true → (s.x.task t).finished = false →
        (s.x.task t).panicked = false → (s.x.task t).abort = false → s.Pending t) := by
  obtain ⟨-, hok, hdel⟩ := invariant h
  refine ⟨fun e e' he he' => hok.unique (t := t) (by rw [he]; rfl) (by rw [he']; rfl),
    fun e he => (hok.polling e t he).2, fun hn hf hp ha => hdel hfull t ⟨hn, hf, hp, ha⟩⟩

/-- The task `5` is woken while executor `0` polls it, and its poll then returns `Pending`. -/
def wokenWhilePolled : List (Label ℕ) :=
  [.register 5, .recv 0, .work (.lock 0), .work (.look 0), .register 5, .recv 1,
    .work (.polled 0 .pending)]

theorem wake_safe_wokenWhilePolled : ∃ s : Runtime ℕ, s.x.pc 1 = .received 5 ∧ s.Pending 5 := by
  obtain ⟨s, hs, hpc, hfull, hdue⟩ := TransitionSystem.exists_reachableUnder (S := runtime [0, 1])
    (C := fun _ _ => True) (s := ⟨_, .new, []⟩) ⟨_, rfl, by decide, rfl⟩ wokenWhilePolled
    (p := fun s => s.x.pc 1 = .received 5 ∧ .tasksFull ∉ s.faults ∧
      s.x.task 5 = ⟨some 0, false, true, false, true, false, false⟩) (by decide)
  refine ⟨s, hpc, (wake_safe hs hfull 5).2.2 ?_ ?_ ?_ ?_⟩ <;> rw [hdue]

end Runtime

end Hooch
