import Mathlib.Tactic

/-!
# Transition systems and runs under a condition

A labelled transition system with a partial, executable step. A label names who moves and which
choice the environment makes, so a list of labels is one interleaving.

* `ReachableUnder C`: the states reached by the runs whose every step meets `C`, a condition on
  the state before the step and on the label; `Reachable` is the case of no condition;
* `run`: the state a list of labels leads to;
* `ReachableUnder.invariant`: the induction over a run;
* `throughout_iff_eachStep`: which runs keep a property in all their states;
* `eachStep_congr`: conditions that come to the same along every run;
* `length_add_le`: how long a run can be whose steps all lower a measure;
* `Simulation`: a step of one system is answered by a run of the other;
* `Lockstep`: two systems that take the same steps.
-/

universe u v u' v'

/-- Initial states and a partial step. -/
structure TransitionSystem (σ : Type u) (α : Type v) where
  init : σ → Prop
  step : σ → α → Option σ

namespace TransitionSystem

variable {σ : Type u} {α : Type v} (S : TransitionSystem σ α)

/-- The states reached by the runs whose every step meets `C`. -/
inductive ReachableUnder (C : σ → α → Prop) : σ → Prop
  | init {s : σ} (h : S.init s) : ReachableUnder C s
  | step {s s' : σ} {a : α} (h : ReachableUnder C s) (hc : C s a) (hs : S.step s a = some s') :
      ReachableUnder C s'

/-- The states reached by some run. -/
def Reachable (s : σ) : Prop := S.ReachableUnder (fun _ _ => True) s

/-- The state after the labels `as`, when every one of them is enabled in turn. -/
def run (s : σ) : List α → Option σ
  | [] => some s
  | a :: as => (S.step s a).bind fun s' => run s' as

@[simp] theorem run_nil (s : σ) : S.run s [] = some s := rfl

theorem run_cons (s : σ) (a : α) (as : List α) :
    S.run s (a :: as) = (S.step s a).bind fun s' => S.run s' as := rfl

theorem run_append (s : σ) (as bs : List α) :
    S.run s (as ++ bs) = (S.run s as).bind fun s' => S.run s' bs := by
  induction as generalizing s with
  | nil => rfl
  | cons a as ih =>
    rw [List.cons_append, run_cons, run_cons, Option.bind_assoc]
    congr 1
    funext s'
    exact ih s'

variable {S} {C D : σ → α → Prop}

theorem ReachableUnder.mono (hCD : ∀ s a, C s a → D s a) {s : σ} (h : S.ReachableUnder C s) :
    S.ReachableUnder D s := by
  induction h with
  | init h => exact .init h
  | step _ hc hs ih => exact .step ih (hCD _ _ hc) hs

theorem ReachableUnder.reachable {s : σ} (h : S.ReachableUnder C s) : S.Reachable s :=
  h.mono fun _ _ _ => trivial

/-- What holds initially and is preserved by every step that meets `C` holds in every state
that such steps reach. -/
theorem ReachableUnder.invariant {I : σ → Prop} {s : σ} (h : S.ReachableUnder C s)
    (h0 : ∀ s, S.init s → I s)
    (hstep : ∀ s a s', I s → C s a → S.step s a = some s' → I s') : I s := by
  induction h with
  | init h => exact h0 _ h
  | step _ hc hs ih => exact hstep _ _ _ ih hc hs

theorem Reachable.invariant {I : σ → Prop} {s : σ} (h : S.Reachable s)
    (h0 : ∀ s, S.init s → I s) (hstep : ∀ s a s', I s → S.step s a = some s' → I s') : I s :=
  ReachableUnder.invariant h h0 fun s a s' hI _ hs => hstep s a s' hI hs

theorem ReachableUnder.run {s s' : σ} {as : List α} (h : S.ReachableUnder (fun _ _ => True) s)
    (hr : S.run s as = some s') : S.ReachableUnder (fun _ _ => True) s' := by
  induction as generalizing s with
  | nil => cases hr; exact h
  | cons a as ih =>
    rw [run_cons, Option.bind_eq_some_iff] at hr
    obtain ⟨t, ht, hr⟩ := hr
    exact ih (.step h trivial ht) hr

theorem Reachable.run {s s' : σ} {as : List α} (h : S.Reachable s) (hr : S.run s as = some s') :
    S.Reachable s' :=
  ReachableUnder.run h hr

/-- Executing a list of labels while checking a decidable condition before each of them. -/
def runUnder (C : σ → α → Prop) [∀ s a, Decidable (C s a)] (S : TransitionSystem σ α) (s : σ) :
    List α → Option σ
  | [] => some s
  | a :: as => if C s a then (S.step s a).bind fun s' => runUnder C S s' as else none

theorem ReachableUnder.runUnder [∀ s a, Decidable (C s a)] {s s' : σ} {as : List α}
    (h : S.ReachableUnder C s) (hr : S.runUnder C s as = some s') : S.ReachableUnder C s' := by
  induction as generalizing s with
  | nil => cases hr; exact h
  | cons a as ih =>
    rw [TransitionSystem.runUnder] at hr
    split at hr
    · rename_i hc
      rw [Option.bind_eq_some_iff] at hr
      obtain ⟨t, ht, hr⟩ := hr
      exact ih (.step h hc ht) hr
    · cases hr

/-- A list of labels that can be executed under `C` from an initial state and ends where `p`
holds shows a state reachable under `C` where `p` holds. -/
theorem exists_reachableUnder [∀ s a, Decidable (C s a)] {s : σ} (h0 : S.init s) (as : List α)
    {p : σ → Prop} [DecidablePred p] (hr : (S.runUnder C s as).any (fun t => p t) = true) :
    ∃ s', S.ReachableUnder C s' ∧ p s' := by
  cases h : S.runUnder C s as with
  | none => rw [h] at hr; cases hr
  | some s' =>
    rw [h] at hr
    exact ⟨s', ReachableUnder.runUnder (.init h0) h, of_decide_eq_true hr⟩

/-! ### Along a run -/

/-- `P` holds in every state that the labels go through, the first and the last one included. -/
def Throughout (S : TransitionSystem σ α) (P : σ → Prop) (s : σ) : List α → Prop
  | [] => P s
  | a :: as => P s ∧ ∀ s', S.step s a = some s' → Throughout S P s' as

/-- `C` holds of every step that the labels make. -/
def EachStep (S : TransitionSystem σ α) (C : σ → α → Prop) (s : σ) : List α → Prop
  | [] => True
  | a :: as => C s a ∧ ∀ s', S.step s a = some s' → EachStep S C s' as

instance EachStep.decidable [∀ s a, Decidable (C s a)] (s : σ) :
    ∀ as, Decidable (S.EachStep C s as)
  | [] => .isTrue trivial
  | a :: as =>
      match hs : S.step s a with
      | none => decidable_of_iff (C s a) (by simp [EachStep, hs])
      | some t =>
          have := EachStep.decidable t as
          decidable_of_iff (C s a ∧ S.EachStep C t as) (by simp [EachStep, hs])

theorem Throughout.head {P : σ → Prop} {s : σ} {as : List α} (h : S.Throughout P s as) : P s := by
  cases as with
  | nil => exact h
  | cons a as => exact h.1

/-- A property that holds as long as every step meets a condition, and fails after the first step
that does not, holds throughout exactly the runs whose steps all meet the condition. -/
theorem throughout_iff_eachStep {I P : σ → Prop} (hIP : ∀ s, I s → P s)
    (hkeep : ∀ s a s', I s → C s a → S.step s a = some s' → I s')
    (hbreak : ∀ s a s', I s → ¬ C s a → S.step s a = some s' → ¬ P s') {s : σ} (hs : I s)
    {as : List α} (hrun : (S.run s as).isSome) : S.Throughout P s as ↔ S.EachStep C s as := by
  induction as generalizing s with
  | nil => exact ⟨fun _ => trivial, fun _ => hIP s hs⟩
  | cons a as ih =>
    obtain ⟨t, ht⟩ := Option.isSome_iff_exists.1 hrun
    obtain ⟨s₁, hs₁, htail⟩ := Option.bind_eq_some_iff.1 ht
    have huniq : ∀ s', S.step s a = some s' → s' = s₁ := by
      intro s' hs'
      rw [hs₁] at hs'
      exact (Option.some.inj hs').symm
    have hrun₁ : (S.run s₁ as).isSome := by rw [htail]; rfl
    constructor
    · rintro ⟨-, hall⟩
      have hC : C s a := by
        by_contra hbad
        exact hbreak s a s₁ hs hbad hs₁ (hall s₁ hs₁).head
      refine ⟨hC, fun s' hs' => ?_⟩
      rw [huniq s' hs']
      exact (ih (hkeep s a s₁ hs hC hs₁) hrun₁).1 (hall s₁ hs₁)
    · rintro ⟨hC, hall⟩
      refine ⟨hIP s hs, fun s' hs' => ?_⟩
      rw [huniq s' hs']
      exact (ih (hkeep s a s₁ hs hC hs₁) hrun₁).2 (hall s₁ hs₁)

/-- A condition that follows from another wherever an invariant holds, which the steps that meet
that one keep, follows from it along every run. -/
theorem EachStep.imp {I : σ → Prop} (hkeep : ∀ s a s', I s → C s a → S.step s a = some s' → I s')
    (hCD : ∀ s a, I s → C s a → D s a) {s : σ} (hs : I s) {as : List α} (h : S.EachStep C s as) :
    S.EachStep D s as := by
  induction as generalizing s with
  | nil => trivial
  | cons a as ih =>
    exact ⟨hCD s a hs h.1, fun s' hs' => ih (hkeep s a s' hs h.1 hs') (h.2 s' hs')⟩

/-- Two conditions that agree wherever an invariant holds hold of the same runs. -/
theorem eachStep_congr {I : σ → Prop} (hkeep : ∀ s a s', I s → S.step s a = some s' → I s')
    (hCD : ∀ s a, I s → (C s a ↔ D s a)) {s : σ} (hs : I s) (as : List α) :
    S.EachStep C s as ↔ S.EachStep D s as :=
  ⟨EachStep.imp (fun s a s' hI _ => hkeep s a s' hI) (fun s a hI => (hCD s a hI).1) hs,
    EachStep.imp (fun s a s' hI _ => hkeep s a s' hI) (fun s a hI => (hCD s a hI).2) hs⟩

/-- A run is no longer than what its steps take off a measure. -/
theorem length_add_le {I : σ → Prop} {m : σ → ℕ}
    (hkeep : ∀ s a s', I s → S.step s a = some s' → I s')
    (hlt : ∀ s a s', I s → S.step s a = some s' → m s' < m s) {s s' : σ} (hs : I s) {as : List α}
    (hrun : S.run s as = some s') : as.length + m s' ≤ m s := by
  induction as generalizing s with
  | nil =>
    cases hrun
    simp
  | cons a as ih =>
    rw [run_cons, Option.bind_eq_some_iff] at hrun
    obtain ⟨t, ht, hrun⟩ := hrun
    have hle := ih (hkeep s a t hs ht) hrun
    have hstep := hlt s a t hs ht
    rw [List.length_cons]
    omega

/-! ### Simulation -/

/-- `R` relates every initial state of `S` to one of `T`, and answers every step of `S` by a run
of `T` of any length. -/
structure Simulation {τ : Type u'} {β : Type v'} (S : TransitionSystem σ α)
    (T : TransitionSystem τ β) (R : σ → τ → Prop) : Prop where
  init : ∀ s, S.init s → ∃ t, T.init t ∧ R s t
  step : ∀ s t a s', R s t → S.step s a = some s' → ∃ bs t', T.run t bs = some t' ∧ R s' t'

/-- Every reachable state of the simulated system is related to a reachable one. -/
theorem Simulation.reachable {τ : Type u'} {β : Type v'} {T : TransitionSystem τ β}
    {R : σ → τ → Prop} (hR : Simulation S T R) {s : σ} (h : S.Reachable s) :
    ∃ t, T.Reachable t ∧ R s t := by
  refine h.invariant (I := fun s => ∃ t, T.Reachable t ∧ R s t) ?_ ?_
  · intro s hs
    obtain ⟨t, ht, hst⟩ := hR.init s hs
    exact ⟨t, .init ht, hst⟩
  · rintro s a s' ⟨t, ht, hst⟩ hs
    obtain ⟨bs, t', hrun, hst'⟩ := hR.step s t a s' hst hs
    exact ⟨t', ht.run hrun, hst'⟩

/-- `R` relates every initial state of `S` to one of `T`, and in related states the two systems
take the same steps, to related states. -/
structure Lockstep {τ : Type u'} (S : TransitionSystem σ α) (T : TransitionSystem τ α)
    (R : σ → τ → Prop) : Prop where
  init : ∀ s, S.init s → ∃ t, T.init t ∧ R s t
  step : ∀ s t a, R s t → Option.Rel R (S.step s a) (T.step t a)

section Lockstep

variable {τ : Type u'} {T : TransitionSystem τ α} {R : σ → τ → Prop} {s s' : σ} {t : τ} {a : α}

theorem Lockstep.step_some (h : Lockstep S T R) (hst : R s t) (hs : S.step s a = some s') :
    ∃ t', T.step t a = some t' ∧ R s' t' := by
  have hrel := h.step s t a hst
  rw [hs] at hrel
  cases ht : T.step t a with
  | none =>
    rw [ht] at hrel
    cases hrel
  | some t' =>
    rw [ht] at hrel
    cases hrel with
    | some hst' => exact ⟨t', rfl, hst'⟩

theorem Lockstep.isSome_step (h : Lockstep S T R) (hst : R s t) (a : α) :
    (S.step s a).isSome ↔ (T.step t a).isSome := by
  have hrel := h.step s t a hst
  revert hrel
  generalize S.step s a = x, T.step t a = y
  rintro (_ | _) <;> simp

/-- Steps that meet `C` are steps of the other system, where they meet `D`. -/
theorem Lockstep.reachableUnder {D : τ → α → Prop} (h : Lockstep S T R)
    (hCD : ∀ s t a, R s t → C s a → D t a) (hs : S.ReachableUnder C s) :
    ∃ t, T.ReachableUnder D t ∧ R s t := by
  refine hs.invariant (I := fun s => ∃ t, T.ReachableUnder D t ∧ R s t) ?_ ?_
  · intro s hs
    obtain ⟨t, ht, hst⟩ := h.init s hs
    exact ⟨t, .init ht, hst⟩
  · rintro s a s' ⟨t, ht, hst⟩ hc hs
    obtain ⟨t', ht', hst'⟩ := h.step_some hst hs
    exact ⟨t', .step ht (hCD s t a hst hc) ht', hst'⟩

end Lockstep

end TransitionSystem
