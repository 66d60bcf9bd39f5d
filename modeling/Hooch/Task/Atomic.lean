import Hooch.Runtime
import Hooch.Task.Interleaving

/-!
# Atomic calls as uninterrupted ones

A call of the task manager that is one step of `runtime` is, in the interleaved system, the run of
its own steps without a step of anybody else in between (`runtime_simulated`). So what the atomic
calls reach is reached with interleaved calls as well, at moments at which no call is in progress
(`reachable_uninterrupted`).
-/

namespace Hooch

namespace Runtime

variable {κ τ : Type*} [DecidableEq κ] [DecidableEq τ] {ids : List ExecutorId}
  {s s' : Runtime τ}

open TransitionSystem

/-- The same state with no call in progress. -/
def uninterrupted (s : Runtime τ) : Interleaving κ τ :=
  ⟨s.tm, s.x, fun _ => none, fun _ => none⟩

/-! ### Registrations -/

theorem abort_notify (x : Executors τ) (t u : τ) :
    ((x.notify t).task u).abort = (x.task u).abort := by
  by_cases hut : u = t
  · subst hut
    simp [Executors.notify]
  · simp [Executors.notify, hut]

/-- A registration that returns. -/
theorem run_registration (k : κ) {t : τ} {tm : TaskManager τ} {log : List (Action τ)}
    (h : s.tm.Registration s.hasAborted t tm log) : ∃ as,
      (interleaving ids).run (uninterrupted s : Interleaving κ τ) as =
        some (uninterrupted { s with tm := tm, x := s.x.notify t }) := by
  cases h with
  | skipped ha =>
    have habort : (s.x.task t).abort = true := ha
    refine ⟨[.call k t, .register k], ?_⟩
    simp [run, interleaving, Interleaving.step, uninterrupted, RegisterPc.step,
      Interleaving.hasAborted, abort_notify, habort]
  | sent ha exec q ch ch' hpop hch hsend =>
    have habort : (s.x.task t).abort = false := ha
    have hsent : TaskManager.sendTask { s.tm with waitingExecutors := q } exec t = .ok _ :=
      TaskManager.sendTask_of_send hch hsend
    refine ⟨[.call k t, .register k, .register k, .register k], ?_⟩
    simp [run, interleaving, Interleaving.step, uninterrupted, RegisterPc.step,
      Interleaving.hasAborted, abort_notify, habort, hpop, hsent]
  | queued ha q hnone hpush =>
    have habort : (s.x.task t).abort = false := ha
    have hpop := BoundedQueue.pop_eq_none_iff.2 hnone
    refine ⟨[.call k t, .register k, .register k, .register k], ?_⟩
    simp [run, interleaving, Interleaving.step, uninterrupted, RegisterPc.step,
      Interleaving.hasAborted, abort_notify, habort, hpop, hpush]

/-- A registration that panics. -/
theorem run_registerFault (k : κ) (hacc : Accounted ids s) {t : τ} {f : Fault}
    (h : s.tm.registerOrExecute s.hasAborted t = .error f) : ∃ as,
      (interleaving ids).run (uninterrupted s : Interleaving κ τ) as =
        some (uninterrupted { s with x := s.x.notify t, faults := s.faults ++ [f] }) := by
  obtain ⟨-, ha, hpop, hpush⟩ := hacc.balanced.register_fault h
  have habort : (s.x.task t).abort = false := ha
  refine ⟨[.call k t, .register k, .register k, .register k], ?_⟩
  simp [run, interleaving, Interleaving.step, uninterrupted, RegisterPc.step,
    Interleaving.hasAborted, abort_notify, habort, hpop, hpush]

/-! ### Executors that are ready -/

section Ready

variable {s : Interleaving κ τ} {e : ExecutorId}

/-- The loop of `executor_ready` over the aborted tasks at the front of the queue. -/
theorem run_skips (ids : List ExecutorId) (he : s.readying e = some .pop) {skipped : List τ}
    {q : BoundedQueue τ} (hskipped : ∀ t ∈ skipped, s.hasAborted t = true)
    (hitems : s.tm.waitingTasks.items = skipped ++ q.items)
    (hbound : q.bound = s.tm.waitingTasks.bound) :
    ∃ as, (interleaving ids).run s as = some { s with tm := { s.tm with waitingTasks := q } } := by
  induction skipped generalizing s with
  | nil =>
    refine ⟨[], ?_⟩
    have hq : s.tm.waitingTasks = q := BoundedQueue.ext hbound.symm (by simpa using hitems)
    rw [← hq]
    rfl
  | cons t skipped ih =>
    have habort : (s.x.task t).abort = true := hskipped t (by simp)
    have hpop : s.tm.waitingTasks.pop = some (t, s.tm.waitingTasks.tail) := by
      simp [BoundedQueue.pop, hitems]
    -- One round takes out `t` and is back at the pop.
    have hround : (interleaving ids).run s [.ready e, .ready e] =
        some { s with tm := { s.tm with waitingTasks := s.tm.waitingTasks.tail } } := by
      have hback : Function.update (Function.update s.readying e (some (.check t))) e (some .pop) =
          s.readying := by
        rw [Function.update_idem, ← he, Function.update_eq_self]
      simp [run, interleaving, Interleaving.step, he, ReadyPc.step, hpop, hback,
        Interleaving.hasAborted, habort]
    obtain ⟨as, has⟩ := ih (s := { s with
        tm := { s.tm with waitingTasks := s.tm.waitingTasks.tail } }) he
      (fun u hu => hskipped u (by simp [hu])) (by simp [hitems]) hbound
    refine ⟨[.ready e, .ready e] ++ as, ?_⟩
    rw [run_append, hround]
    exact has

end Ready

/-- A call of `executor_ready`. -/
theorem run_readying {e : ExecutorId} (hpc : s.x.pc e = .ready) {tm : TaskManager τ}
    {log : List (Action τ)} (h : s.tm.Readying s.hasAborted e tm log) : ∃ as,
      (interleaving ids).run (uninterrupted s : Interleaving κ τ) as =
        some (uninterrupted { s with tm := tm, x := s.x.setPc e .recv }) := by
  have henter : (interleaving ids).step (uninterrupted s : Interleaving κ τ) (.enter e) =
      some { (uninterrupted s : Interleaving κ τ) with
        readying := Function.update (fun _ => none) e (some .pop) } := by
    simp [interleaving, Interleaving.step, uninterrupted, hpc]
  cases h with
  | sent skipped t q ch ch' hskipped ha hitems hbound hch hsend =>
    have habort : (s.x.task t).abort = false := ha
    -- The queue before the task is taken out of it.
    let q' : BoundedQueue τ := ⟨q.bound, t :: q.items, by
      have hlen := s.tm.waitingTasks.length_le
      rw [hitems, List.length_append] at hlen
      rw [hbound]
      omega⟩
    have hpop : q'.pop = some (t, q) := rfl
    obtain ⟨as, has⟩ := run_skips ids (s := { (uninterrupted s : Interleaving κ τ) with
      readying := Function.update (fun _ => none) e (some .pop) }) (e := e) (q := q')
      (by simp) hskipped hitems hbound
    have hsent : TaskManager.sendTask { s.tm with waitingTasks := q } e t = .ok _ :=
      TaskManager.sendTask_of_send hch hsend
    refine ⟨.enter e :: (as ++ [.ready e, .ready e, .ready e]), ?_⟩
    rw [run_cons, henter, Option.bind_some, run_append, has]
    simp [run, interleaving, Interleaving.step, uninterrupted, ReadyPc.step,
      Interleaving.hasAborted, habort, hpop, hsent]
  | parked skipped q q' hskipped hitems hempty hbound hpush =>
    have hpop := BoundedQueue.pop_eq_none_iff.2 hempty
    obtain ⟨as, has⟩ := run_skips ids (s := { (uninterrupted s : Interleaving κ τ) with
      readying := Function.update (fun _ => none) e (some .pop) }) (e := e) (q := q)
      (by simp) hskipped (by rw [hempty, List.append_nil]; exact hitems) hbound
    refine ⟨.enter e :: (as ++ [.ready e, .ready e]), ?_⟩
    rw [run_cons, henter, Option.bind_some, run_append, has]
    simp [run, interleaving, Interleaving.step, uninterrupted, ReadyPc.step, hpop, hpush]

/-! ### The simulation -/

/-- Every step of the runtime with atomic calls is a run of the interleaved one, in which any
caller `k` makes the registrations. -/
theorem run_step (k : κ) (hacc : Accounted ids s) {a : Label τ} (hs : s.step a = some s') :
    ∃ as, (interleaving ids).run (uninterrupted s : Interleaving κ τ) as =
      some (uninterrupted s') := by
  cases a with
  | register t =>
    cases next_of_step hs with
    | registered hreg => exact run_registration k hreg
    | registerFault hreg => exact run_registerFault k hacc hreg
  | abort t =>
    cases hs
    exact ⟨[.abort t], rfl⟩
  | recv e =>
    cases next_of_step hs with
    | recv hpc hrecv =>
      exact ⟨[.recv e], by
        simp [run, interleaving, Interleaving.step, uninterrupted, hpc, hrecv]⟩
    | finish hpc hrecv =>
      exact ⟨[.recv e], by
        simp [run, interleaving, Interleaving.step, uninterrupted, hpc, hrecv]⟩
  | work a =>
    obtain ⟨x, hx, rfl⟩ := Option.map_eq_some_iff.1 hs
    exact ⟨[.work a], by simp [run, interleaving, Interleaving.step, uninterrupted, hx]⟩
  | ready e =>
    cases next_of_step hs with
    | readied hpc hready => exact run_readying hpc hready
    | readyFault hpc hready =>
      obtain ⟨p, hp⟩ := hacc.balanced.ready_ok s.hasAborted (e := e) (by simp [hpc, isGone])
        (by simp [hpc, busy])
      rw [hp] at hready
      cases hready
  | close e =>
    simp only [step] at hs
    split at hs
    · rename_i hpc
      split at hs
      · rename_i hroom
        cases hs
        exact ⟨[.close e], by
          simp [run, interleaving, Interleaving.step, uninterrupted, hpc, hroom]⟩
      · cases hs
    · cases hs

/-- The interleaved system simulates the one with atomic calls. -/
theorem runtime_simulated (k : κ) : (runtime ids : TransitionSystem (Runtime τ) _).Simulation
    (interleaving ids) fun s t => Accounted ids s ∧ t = (uninterrupted s : Interleaving κ τ) where
  init s hs := by
    refine ⟨_, ?_, (Invariant.init hs).accounted, rfl⟩
    obtain ⟨tm, htm, hids, rfl⟩ := hs
    exact ⟨tm, htm, hids, rfl⟩
  step := by
    rintro s t a s' ⟨hacc, rfl⟩ hs
    obtain ⟨as, hrun⟩ := run_step k hacc hs
    exact ⟨as, _, hrun, hacc.next (next_of_step hs), rfl⟩

/-- What atomic calls reach, interleaved calls reach. -/
theorem reachable_uninterrupted (k : κ) (h : (runtime ids).Reachable s) :
    (interleaving ids).Reachable (uninterrupted s : Interleaving κ τ) := by
  obtain ⟨t, ht, -, rfl⟩ := (runtime_simulated k).reachable h
  exact ht

end Runtime

end Hooch
