import Hooch.Runtime

/-!
# The reports of panics

A poll that panics is caught, and the executor reports it on the panic channel. The report occupies
the one place of the channel until `run_blocking` takes it out, so a second report has to wait
(`report_waits`).

`ReportsApart` is the condition that a poll panics only when no earlier report is in the channel or
under way. Under it a report is never kept waiting (`report_goes_through`), and after a step against
it one can be (`not_apart_waits`).
-/

namespace Hooch

namespace Runtime

variable {τ : Type*} [DecidableEq τ] {ids : List ExecutorId} {s s' : Runtime τ}

/-- The executor has caught a panic and not reported it yet. -/
def isReporting : ExecutorPc τ → Bool
  | .unwinding _ | .reporting => true
  | _ => false

/-- So it has, or its own panic is to be reported before its thread ends. -/
def owesReport : ExecutorPc τ → Bool
  | .dead => true
  | p => isReporting p

/-- An executor that finds a lock poisoned dies of it. -/
def receivedPoisoned (x : Executors τ) : ExecutorPc τ → Bool
  | .received t => (x.task t).poisoned
  | _ => false

/-- A poll panics only when the channel is empty and no executor owes a report, and no executor
dies while another has caught a panic and not reported it. -/
def ReportsApart (ids : List ExecutorId) (s : Runtime τ) : Label τ → Prop
  | .work (.polled _ .panic) => s.x.panics = 0 ∧ ∀ e ∈ ids, owesReport (s.x.pc e) = false
  | .work (.lock e) => receivedPoisoned s.x (s.x.pc e) = true →
      ∀ e' ∈ ids, isReporting (s.x.pc e') = false
  | _ => True

instance (s : Runtime τ) (a : Label τ) : Decidable (ReportsApart ids s a) :=
  match a with
  | .work (.polled _ .panic) => inferInstanceAs
      (Decidable (s.x.panics = 0 ∧ ∀ e ∈ ids, owesReport (s.x.pc e) = false))
  | .work (.lock e) => inferInstanceAs (Decidable (receivedPoisoned s.x (s.x.pc e) = true →
      ∀ e' ∈ ids, isReporting (s.x.pc e') = false))
  | .work (.polled _ .pending) | .work (.polled _ .ready) | .work (.look _) | .work (.clear _)
  | .work (.unlock _) | .work (.report _) | .work .drainPanic | .register _ | .abort _ | .recv _
  | .ready _ | .close _ => inferInstanceAs (Decidable True)

/-- An executor with a panic to report finds the channel empty, and is the only one to owe a
report. -/
def OneReport (x : Executors τ) : Prop :=
  ∀ e, isReporting (x.pc e) = true → x.panics = 0 ∧
    ∀ e', e' ≠ e → owesReport (x.pc e') = false

omit [DecidableEq τ] in
theorem isReporting_eq_false {p : ExecutorPc τ} (h : owesReport p = false) :
    isReporting p = false := by
  cases p <;> first | rfl | cases h

omit [DecidableEq τ] in
/-- Who is not one of the executors never received anything. -/
theorem Accounted.outside (h : Accounted ids s) {e : ExecutorId} (he : e ∉ ids) :
    s.x.pc e = .recv ∨ s.x.pc e = .stopped := by
  have htok := h.balanced.tokens e
  rw [if_neg he] at htok
  have hbusy : busy (s.x.pc e) = 0 := by
    simp only [Function.comp_apply] at htok
    omega
  cases hpc : s.x.pc e <;> rw [hpc] at hbusy <;>
    first | exact .inl rfl | exact .inr rfl | cases hbusy

omit [DecidableEq τ] in
theorem Accounted.owesReport (h : Accounted ids s)
    (hids : ∀ e ∈ ids, Runtime.owesReport (s.x.pc e) = false) (e : ExecutorId) :
    Runtime.owesReport (s.x.pc e) = false := by
  by_cases he : e ∈ ids
  · exact hids e he
  · rcases h.outside he with hpc | hpc <;> rw [hpc] <;> rfl

omit [DecidableEq τ] in
theorem Accounted.isReporting (h : Accounted ids s)
    (hids : ∀ e ∈ ids, Runtime.isReporting (s.x.pc e) = false) (e : ExecutorId) :
    Runtime.isReporting (s.x.pc e) = false := by
  by_cases he : e ∈ ids
  · exact hids e he
  · rcases h.outside he with hpc | hpc <;> rw [hpc] <;> rfl

omit [DecidableEq τ] in
/-- Moving an executor to where it has nothing to report. -/
theorem OneReport.setPc {x x' : Executors τ} (h : OneReport x) {e : ExecutorId}
    {p : ExecutorPc τ} (hpc : x'.pc = Function.update x.pc e p) (hpanics : x'.panics = x.panics)
    (hp : owesReport p = false) : OneReport x' := by
  intro e' he'
  rw [hpc] at he' ⊢
  have hee : e' ≠ e := by
    rintro rfl
    rw [Function.update_self, isReporting_eq_false hp] at he'
    cases he'
  rw [Function.update_of_ne hee] at he'
  obtain ⟨hzero, honly⟩ := h e' he'
  refine ⟨hpanics.trans hzero, fun e'' hne => ?_⟩
  by_cases hee' : e'' = e
  · rw [hee', Function.update_self, hp]
  · rw [Function.update_of_ne hee', honly e'' hne]

omit [DecidableEq τ] in
/-- Moving an executor while no other has a panic to report. -/
theorem OneReport.alone {x x' : Executors τ} {e : ExecutorId} {p : ExecutorPc τ}
    (hpc : x'.pc = Function.update x.pc e p)
    (hnone : ∀ e', e' ≠ e → isReporting (x.pc e') = false)
    (hp : isReporting p = true → x'.panics = 0 ∧ ∀ e', e' ≠ e → owesReport (x.pc e') = false) :
    OneReport x' := by
  intro e' he'
  rw [hpc] at he' ⊢
  by_cases hee : e' = e
  · subst hee
    rw [Function.update_self] at he'
    obtain ⟨hzero, honly⟩ := hp he'
    refine ⟨hzero, fun e'' hne => ?_⟩
    rw [Function.update_of_ne hne, honly e'' hne]
  · rw [Function.update_of_ne hee, hnone e' hee] at he'
    cases he'

/-- A step of `forward_task` that meets `ReportsApart`. -/
theorem OneReport.work {a : Executors.Label} {x : Executors τ} (hacc : Accounted ids s)
    (h : OneReport s.x) (hapart : ReportsApart ids s (.work a)) (hx : s.x.Next a x) :
    OneReport x := by
  cases hx with
  | @die e t hpc howner hpoison =>
    have hnone := hacc.isReporting (hapart (by rw [hpc]; exact hpoison))
    exact .alone rfl (fun e' _ => hnone e') (by simp [Runtime.isReporting])
  | drainPanic hpos =>
    intro e he
    obtain ⟨hzero, honly⟩ := h e he
    exact ⟨by simp only; omega, honly⟩
  | @report e hpc hroom =>
    obtain ⟨-, honly⟩ := h e (by rw [hpc]; rfl)
    exact .alone rfl (fun e' hne => isReporting_eq_false (honly e' hne))
      (by simp [Runtime.isReporting])
  | @panic e t hpc =>
    obtain ⟨hzero, hids⟩ := hapart
    have hnone := hacc.owesReport hids
    exact .alone rfl (fun e' _ => isReporting_eq_false (hnone e'))
      fun _ => ⟨hzero, fun e' _ => hnone e'⟩
  | @unwind e t hpc =>
    obtain ⟨hzero, honly⟩ := h e (by rw [hpc]; rfl)
    exact .alone rfl (fun e' hne => isReporting_eq_false (honly e' hne)) fun _ => ⟨hzero, honly⟩
  | lock | poll | pass | pending | finish | clear | unlock => exact h.setPc rfl rfl rfl

theorem OneReport.next {a : Label τ} (hacc : Accounted ids s) (h : OneReport s.x)
    (hapart : ReportsApart ids s a) (hs : Next s a s') : OneReport s'.x := by
  cases hs with
  | registered | registerFault | abort | readyFault => exact h
  | recv | finish | readied => exact h.setPc rfl rfl rfl
  | work hx => exact h.work hacc hapart hx
  | @close e hpc =>
    -- The executor was dead, so no other has a panic to report.
    refine .alone (e := e) rfl (fun e' hne => ?_) (by simp [Runtime.isReporting])
    rw [← Bool.not_eq_true]
    intro he'
    have hdead := (h e' he').2 e hne.symm
    rw [hpc] at hdead
    cases hdead

theorem oneReport (h : (runtime ids).ReachableUnder (ReportsApart ids) s) :
    Accounted ids s ∧ OneReport s.x := by
  refine h.invariant (I := fun s => Accounted ids s ∧ OneReport s.x) ?_
    fun s a s' ⟨hacc, hone⟩ hc hs => ?_
  · intro s hs
    refine ⟨(Invariant.init hs).accounted, fun e he => ?_⟩
    obtain ⟨tm, -, -, rfl⟩ := hs
    cases he
  · exact ⟨hacc.next (next_of_step hs), hone.next hacc hc (next_of_step hs)⟩

/-- In every run whose panics meet `ReportsApart`, an executor at its report finds room in the
panic channel and goes on to `executor_ready`. -/
theorem report_goes_through (h : (runtime ids).ReachableUnder (ReportsApart ids) s)
    {e : ExecutorId} (he : s.x.pc e = .reporting) : s.x.panics < Executors.panicBound ∧
      ∃ s', s.step (.work (.report e)) = some s' ∧ s'.x.pc e = .ready := by
  have hroom : s.x.panics < Executors.panicBound := by
    rw [((oneReport h).2 e (by rw [he]; rfl)).1]
    decide
  exact ⟨hroom, _, by simp [step, Executors.step, he, hroom]; rfl, by simp⟩

/-- The tasks `5` and `6` panic on two executors, and no one empties the channel. -/
def twoPanics : List (Label ℕ) :=
  [.register 5, .register 6, .recv 0, .recv 1, .work (.lock 0), .work (.lock 1), .work (.look 0),
    .work (.look 1), .work (.polled 0 .panic), .work (.polled 1 .panic), .work (.unlock 0),
    .work (.unlock 1), .work (.report 0)]

/-- After `twoPanics` the second executor finds the panic channel full. -/
theorem report_waits : ¬ ∀ (s : Runtime ℕ) (e : ExecutorId), (runtime [0, 1]).Reachable s →
    s.x.pc e = .reporting → s.x.panics < Executors.panicBound := by
  intro hall
  obtain ⟨s, hs, hpc, hfull⟩ := TransitionSystem.exists_reachableUnder (S := runtime [0, 1])
    (C := fun _ _ => True) (s := ⟨.registeredWith [0, 1], .new, []⟩) ⟨_, rfl, by decide, rfl⟩
    twoPanics (p := fun s => s.x.pc 1 = .reporting ∧ ¬ s.x.panics < Executors.panicBound)
    (by decide)
  exact hfull (hall s 1 hs hpc)

/-- The same two panics with the channel emptied in between. -/
def panicsApart : List (Label ℕ) :=
  [.register 5, .register 6, .recv 0, .recv 1, .work (.lock 0), .work (.lock 1), .work (.look 0),
    .work (.look 1), .work (.polled 0 .panic), .work (.unlock 0), .work (.report 0),
    .work .drainPanic, .work (.polled 1 .panic), .work (.unlock 1)]

theorem report_goes_through_panicsApart : ∃ s : Runtime ℕ, (s.x.task 5).panicked = true ∧
    s.x.pc 1 = .reporting ∧ s.x.panics < Executors.panicBound := by
  obtain ⟨s, hs, hpan, hpc⟩ := TransitionSystem.exists_reachableUnder (S := runtime [0, 1])
    (C := ReportsApart [0, 1]) (s := ⟨.registeredWith [0, 1], .new, []⟩)
    ⟨_, rfl, by decide, rfl⟩ panicsApart
    (p := fun s => (s.x.task 5).panicked = true ∧ s.x.pc 1 = .reporting) (by decide)
  exact ⟨s, hpan, hpc, (report_goes_through hs hpc).1⟩

/-! ### A step against the condition -/

/-- An executor that has caught a panic comes to its report, and nothing else changes meanwhile. -/
theorem exists_run_reporting (ids : List ExecutorId) {e : ExecutorId}
    (hrep : isReporting (s.x.pc e) = true) :
    ∃ as t, (runtime ids).run s as = some t ∧ t.x.pc e = .reporting ∧
      t.x.panics = s.x.panics ∧ ∀ e', e' ≠ e → t.x.pc e' = s.x.pc e' := by
  cases hpc : s.x.pc e with
  | unwinding u =>
    refine ⟨[.work (.unlock e)], { s with
      x := (s.x.setPc e .reporting).setTask u
        { s.x.task u with owner := none, poisoned := true } }, ?_, by simp, rfl, ?_⟩
    · simp [TransitionSystem.run, runtime, step, Executors.step, hpc]
    · intro e' hne
      simp [hne]
  | reporting => exact ⟨[], s, rfl, hpc, rfl, fun _ _ => rfl⟩
  | _ =>
    rw [hpc] at hrep
    cases hrep

/-- An executor that owes a report can fill the channel, and no other executor moves meanwhile. -/
theorem exists_run_full (ids : List ExecutorId) {e : ExecutorId}
    (howes : owesReport (s.x.pc e) = true) :
    ∃ as t, (runtime ids).run s as = some t ∧ ¬ t.x.panics < Executors.panicBound ∧
      ∀ e', e' ≠ e → t.x.pc e' = s.x.pc e' := by
  by_cases hroom : s.x.panics < Executors.panicBound
  · have hfull : ¬ s.x.panics + 1 < Executors.panicBound := by
      unfold Executors.panicBound
      omega
    by_cases hpc : s.x.pc e = .dead
    · refine ⟨[.close e], _, by
        simp [TransitionSystem.run, runtime, step, hpc, hroom]; rfl, hfull, ?_⟩
      intro e' hne
      simp [hne]
    · have hrep : isReporting (s.x.pc e) = true := by
        cases hpc' : s.x.pc e <;> simp_all [owesReport]
      obtain ⟨as, t, hrun, hpc', hpanics, hother⟩ := exists_run_reporting ids hrep
      rw [← hpanics] at hroom hfull
      refine ⟨as ++ [.work (.report e)], { t with x := { t.x.setPc e .ready with
        panics := t.x.panics + 1 } }, ?_, hfull, fun e' hne => ?_⟩
      · rw [TransitionSystem.run_append, hrun]
        simp [TransitionSystem.run, runtime, step, Executors.step, hpc', hroom]
      · simpa [hne] using hother e' hne
  · exact ⟨[], s, rfl, hroom, fun _ _ => rfl⟩

/-- Of two executors with a panic to report, one can be made to wait for the other. -/
theorem exists_run_waits (ids : List ExecutorId) (e e' : ExecutorId)
    (hrep : isReporting (s.x.pc e) = true) (howes : owesReport (s.x.pc e') = true)
    (hne : e ≠ e') : ∃ as t e, (runtime ids).run s as = some t ∧ t.x.pc e = .reporting ∧
      ¬ t.x.panics < Executors.panicBound := by
  obtain ⟨as, t, hrun, hfull, hother⟩ := exists_run_full ids howes
  obtain ⟨bs, u, hrun', hpc, hpanics, -⟩ := exists_run_reporting (s := t) ids
    (by rw [hother e hne]; exact hrep)
  refine ⟨as ++ bs, u, e, ?_, hpc, by rw [hpanics]; exact hfull⟩
  rw [TransitionSystem.run_append, hrun]
  exact hrun'

/-- The condition leaves nothing out: after every step against it the run can go on to where a
report has to wait. -/
theorem not_apart_waits {a : Label τ} (hbreach : ¬ ReportsApart ids s a)
    (hs : s.step a = some s') : ∃ as t e, (runtime ids).run s' as = some t ∧
      t.x.pc e = .reporting ∧ ¬ t.x.panics < Executors.panicBound := by
  have hnext := next_of_step hs
  cases hnext with
  | registered | registerFault | abort | recv | finish | readied | readyFault | close =>
    exact absurd trivial hbreach
  | work hx =>
    cases hx with
    | @die e u hpc howner hpoison =>
      obtain ⟨e', -, he'⟩ : ∃ e' ∈ ids, isReporting (s.x.pc e') = true := by
        by_contra hnone
        refine hbreach fun _ e' hids => ?_
        by_contra he'
        exact hnone ⟨e', hids, by simpa using he'⟩
      have hne : e' ≠ e := by
        rintro rfl
        rw [hpc] at he'
        cases he'
      exact exists_run_waits ids e' e (by simpa [hne] using he')
        (by simp [Runtime.owesReport]) hne
    | @panic e u hpc =>
      by_cases hzero : s.x.panics = 0
      · obtain ⟨e', -, he'⟩ : ∃ e' ∈ ids, Runtime.owesReport (s.x.pc e') = true := by
          by_contra hnone
          refine hbreach ⟨hzero, fun e' hids => ?_⟩
          by_contra he'
          exact hnone ⟨e', hids, by simpa using he'⟩
        have hne : e ≠ e' := by
          rintro rfl
          rw [hpc] at he'
          cases he'
        exact exists_run_waits ids e e' (by simp [Runtime.isReporting])
          (by simpa [hne.symm] using he') hne
      · -- A report is in the channel already.
        obtain ⟨as, t, hrun, hrep, hpanics, -⟩ := exists_run_reporting ids (e := e)
          (s := { s with
            x := (s.x.setPc e (.unwinding u)).setTask u
              { s.x.task u with panicked := true } }) (by simp [Runtime.isReporting])
        have hsame : t.x.panics = s.x.panics := hpanics
        refine ⟨as, t, e, hrun, hrep, ?_⟩
        unfold Executors.panicBound
        omega
    | lock hpc howner hpoison =>
      refine absurd (fun hpan => ?_) hbreach
      rw [hpc, receivedPoisoned, hpoison] at hpan
      cases hpan
    | poll | pass | pending | finish | clear | unlock | unwind | report | drainPanic =>
      exact absurd trivial hbreach

end Runtime

end Hooch
