import Hooch.Runtime

/-!
# One task between two steps of its own

A future that a task awaits sees of the runtime only when the task's poll begins and when it ends.
`Undisturbed` says what every other step leaves of the task: a poll that goes on goes on, a
notification stays unless a poll begins, and the task neither finishes nor panics. `Hosted` is what
a system that runs on the runtime keeps of it for the sake of one task: who is due is to be
delivered.
-/

namespace Hooch

namespace Executors

variable {τ : Type*} [DecidableEq τ] {x x' : Executors τ} {t : τ}

/-- What a step leaves of a task whose poll it does not end. -/
structure Undisturbed (x x' : Executors τ) (t : τ) : Prop where
  polling : ∀ e, x.pc e = .polling t → x'.pc e = .polling t
  notified : (x.task t).notified = true →
    (x'.task t).notified = true ∨ ∃ e, x.pc e = .locked t ∧ x'.pc e = .polling t
  finished : (x'.task t).finished = (x.task t).finished
  panicked : (x'.task t).panicked = (x.task t).panicked

omit [DecidableEq τ] in
/-- An executor that does not poll the task moves. -/
theorem Undisturbed.setPc {e : ExecutorId} {p : ExecutorPc τ} (hpc : x.pc e ≠ .polling t) :
    Undisturbed x (x.setPc e p) t := by
  refine ⟨fun e' he' => ?_, .inl, rfl, rfl⟩
  have hne : e' ≠ e := by
    rintro rfl
    exact hpc he'
  simpa [hne] using he'

/-- A task changes, which is not this one or keeps its history. -/
theorem Undisturbed.setTask (h : Undisturbed x x' t) {u : τ} {k : Task}
    (hk : u = t → ((x'.task t).notified = true → k.notified = true) ∧
      k.finished = (x'.task t).finished ∧ k.panicked = (x'.task t).panicked) :
    Undisturbed x (x'.setTask u k) t := by
  by_cases htu : u = t
  · subst htu
    obtain ⟨hnotified, hfinished, hpanicked⟩ := hk rfl
    exact ⟨h.polling, fun hn => (h.notified hn).imp_left (by simpa using hnotified),
      by simpa [hfinished] using h.finished, by simpa [hpanicked] using h.panicked⟩
  · have htask : (x'.setTask u k).task t = x'.task t := by simp [Ne.symm htu]
    exact ⟨h.polling, fun hn => by rw [htask]; exact h.notified hn, by rw [htask, h.finished],
      by rw [htask, h.panicked]⟩

omit [DecidableEq τ] in
theorem Undisturbed.refl : Undisturbed x x t := ⟨fun _ => id, .inl, rfl, rfl⟩

omit [DecidableEq τ] in
/-- The panic channel is none of its business. -/
theorem Undisturbed.setPanics (h : Undisturbed x x' t) {n : ℕ} :
    Undisturbed x { x' with panics := n } t := ⟨h.polling, h.notified, h.finished, h.panicked⟩

theorem Next.undisturbed {a : Label} (hs : Next x a x')
    (ha : ∀ e o, a = .polled e o → x.pc e ≠ .polling t) : Undisturbed x x' t := by
  cases hs with
  | die hpc | pass hpc => exact .setPc (by simp [hpc])
  | pending hpc => exact .setPc (ha _ _ rfl)
  | report hpc => exact (Undisturbed.setPc (x := x) (by simp [hpc])).setPanics
  | drainPanic => exact Undisturbed.refl.setPanics
  | lock hpc | unlock hpc | unwind hpc | clear hpc =>
    refine (Undisturbed.setPc (by simp [hpc])).setTask ?_
    rintro rfl
    exact ⟨id, rfl, rfl⟩
  | @finish e u hpc | @panic e u hpc =>
    refine (Undisturbed.setPc (ha _ _ rfl)).setTask ?_
    rintro rfl
    exact absurd hpc (ha _ _ rfl)
  | @poll e u hpc hfut =>
    by_cases htu : u = t
    · subst htu
      refine ⟨?_, fun _ => .inr ⟨e, hpc, by simp⟩, by simp, by simp⟩
      exact (Undisturbed.setPc (x := x) (e := e) (by simp [hpc])).polling
    · exact (Undisturbed.setPc (by simp [hpc])).setTask fun h => absurd h htu

end Executors

namespace Runtime

variable {τ : Type*} [DecidableEq τ] {s s' : Runtime τ} {t : τ}

/-- The step ends a poll of the task. -/
def EndsPoll (s : Runtime τ) (t : τ) : Label τ → Prop
  | .work (.polled e _) => s.x.pc e = .polling t
  | _ => False

instance (a : Label τ) : Decidable (s.EndsPoll t a) := by
  unfold EndsPoll
  split <;> infer_instance

theorem Next.undisturbed {a : Label τ} (hs : Next s a s') (ha : ¬ s.EndsPoll t a) :
    Executors.Undisturbed s.x s'.x t := by
  cases hs with
  | registered | registerFault | abort =>
    refine Executors.Undisturbed.refl.setTask ?_
    rintro rfl
    first | exact ⟨fun _ => rfl, rfl, rfl⟩ | exact ⟨id, rfl, rfl⟩
  | recv hpc | finish hpc | readied hpc => exact .setPc (by simp [hpc])
  | readyFault => exact .refl
  | close hpc => exact (Executors.Undisturbed.setPc (x := s.x) (by simp [hpc])).setPanics
  | @work b x h =>
    refine h.undisturbed fun e o hb hpc => ha ?_
    subst hb
    exact hpc

theorem Next.abort_eq {a : Label τ} (hs : Next s a s') (ha : a ≠ .abort t) :
    (s'.x.task t).abort = (s.x.task t).abort := by
  cases hs with
  | @registered u | @registerFault u =>
    by_cases htu : t = u
    · subst htu
      simp [Executors.notify]
    · simp [Executors.notify, htu]
  | @abort u =>
    have htu : t ≠ u := fun h => ha (by rw [h])
    simp [htu]
  | work h => exact Executors.abort_next h t
  | recv | finish | readied | readyFault | close => rfl

/-- A wake of the task registers it. -/
def Registers (s : Runtime τ) (t : τ) : Prop :=
  (s.tm.registerOrExecute s.hasAborted t).isOk = true

instance : Decidable (s.Registers t) := inferInstanceAs (Decidable (_ = true))

/-- The locks are in order, and the task is not aborted and is delivered when it is due. -/
structure Hosted (ids : List ExecutorId) (s : Runtime τ) (t : τ) : Prop where
  accounted : Accounted ids s
  ok : s.x.Ok
  pending : Due (s.x.task t) → s.Pending t
  abort : (s.x.task t).abort = false

theorem Hosted.init {ids : List ExecutorId} (h : (runtime ids).init s) : Hosted ids s t := by
  obtain ⟨haccounted, hok, -⟩ := Invariant.init h
  obtain ⟨tm, htm, hids, rfl⟩ := h
  refine ⟨haccounted, hok, fun hdue => ?_, rfl⟩
  have hnotified := hdue.notified
  simp [Executors.new, Task.new] at hnotified

theorem Hosted.step {ids : List ExecutorId} {a : Label τ} (h : Hosted ids s t)
    (hs : s.step a = some s') (hwake : a = .register t → s.Registers t) (habort : a ≠ .abort t) :
    Hosted ids s' t := by
  have hnext := next_of_step hs
  refine ⟨h.accounted.next hnext, Ok.next h.ok hnext, ?_, by rw [hnext.abort_eq habort, h.abort]⟩
  refine pending_next h.pending h.accounted h.ok hnext fun ha => ?_
  subst ha
  have hreg := hwake rfl
  simp only [Runtime.step] at hs
  split at hs
  · cases hs
    rfl
  · rename_i herror
    rw [Registers, herror] at hreg
    cases hreg

end Runtime

end Hooch
