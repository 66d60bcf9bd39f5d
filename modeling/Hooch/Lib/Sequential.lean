import Mathlib.Tactic

/-!
# Objects used by one call after another

An object is given by what a call does to its state: the result it returns and the state it
leaves behind.

* `results`, `final`, `states`: what a list of calls returns, the state it ends in, and all the
  states it goes through;
* `Refines`: two objects whose related states return the same results and stay related, with the
  induction over a list of calls.
-/

namespace Sequential

universe u v w x

variable {σ : Type u} {τ : Type v} {α : Type w} {β : Type x}

/-- The results of the calls, in order. -/
def results (f : σ → α → β × σ) (s : σ) : List α → List β
  | [] => []
  | a :: as => (f s a).1 :: results f (f s a).2 as

/-- The state after the calls. -/
def final (f : σ → α → β × σ) (s : σ) : List α → σ
  | [] => s
  | a :: as => final f (f s a).2 as

/-- The states the calls go through, the first and the last one included. -/
def states (f : σ → α → β × σ) (s : σ) : List α → List σ
  | [] => [s]
  | a :: as => s :: states f (f s a).2 as

variable {f : σ → α → β × σ} {g : τ → α → β × τ}

@[simp] theorem results_nil (s : σ) : results f s [] = [] := rfl

@[simp] theorem results_cons (s : σ) (a : α) (as : List α) :
    results f s (a :: as) = (f s a).1 :: results f (f s a).2 as := rfl

@[simp] theorem final_nil (s : σ) : final f s [] = s := rfl

@[simp] theorem final_cons (s : σ) (a : α) (as : List α) :
    final f s (a :: as) = final f (f s a).2 as := rfl

@[simp] theorem states_nil (s : σ) : states f s [] = [s] := rfl

@[simp] theorem states_cons (s : σ) (a : α) (as : List α) :
    states f s (a :: as) = s :: states f (f s a).2 as := rfl

/-- What holds at the start and is kept by every call holds at the end. -/
theorem final_induction {I : σ → Prop} (hcall : ∀ s a, I s → I (f s a).2) {s : σ} (h : I s)
    (as : List α) : I (final f s as) := by
  induction as generalizing s with
  | nil => exact h
  | cons a as ih => exact ih (hcall s a h)

/-- Related states return the same results and lead to related states. -/
structure Refines (f : σ → α → β × σ) (g : τ → α → β × τ) (R : σ → τ → Prop) : Prop where
  result : ∀ s t a, R s t → (f s a).1 = (g t a).1
  next : ∀ s t a, R s t → R (f s a).2 (g t a).2

variable {R : σ → τ → Prop} {s : σ} {t : τ}

/-- Calls on related states return the same results. -/
theorem Refines.results_eq (h : Refines f g R) (hst : R s t) (as : List α) :
    results f s as = results g t as := by
  induction as generalizing s t with
  | nil => rfl
  | cons a as ih => rw [results_cons, results_cons, h.result s t a hst, ih (h.next s t a hst)]

/-- Calls on related states end in related states. -/
theorem Refines.final (h : Refines f g R) (hst : R s t) (as : List α) :
    R (final f s as) (final g t as) := by
  induction as generalizing s t with
  | nil => exact hst
  | cons a as ih => exact ih (h.next s t a hst)

end Sequential
