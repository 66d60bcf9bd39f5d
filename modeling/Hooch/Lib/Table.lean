import Mathlib.Tactic

/-!
# Tables below a counter

A partial table `f : ι → Option α` that is changed at one key at a time. Where the keys are given
out by a counter `n`, there is nothing in the table from `n` on: `Below n f`.
-/

namespace Table

section Update

variable {ι α : Type*} [DecidableEq ι] {f : ι → Option α} {i j : ι} {a : α}

theorem update_eq_none : Function.update f i (some a) j = none ↔ j ≠ i ∧ f j = none := by
  by_cases hj : j = i
  · subst hj
    simp
  · simp [hj]

/-- What holds of the new entry and of the entries at the other keys holds of all entries. -/
theorem forall_update {p : ι → α → Prop} (hi : p i a) (h : ∀ j b, j ≠ i → f j = some b → p j b)
    {b : α} (hb : Function.update f i (some a) j = some b) : p j b := by
  by_cases hj : j = i
  · subst hj
    rw [Function.update_self] at hb
    cases hb
    exact hi
  · rw [Function.update_of_ne hj] at hb
    exact h j b hj hb

end Update

variable {α : Type*} {f : ℕ → Option α} {n k : ℕ} {a b : α}

/-- There is nothing in the table from `n` on. -/
def Below (n : ℕ) (f : ℕ → Option α) : Prop := ∀ k, n ≤ k → f k = none

theorem Below.lt (h : Below n f) (hk : f k = some a) : k < n := by
  by_contra hle
  rw [h k (not_lt.1 hle)] at hk
  cases hk

/-- The key that comes next is given out. -/
theorem Below.insert (h : Below n f) (a : α) : Below (n + 1) (Function.update f n (some a)) := by
  intro k hk
  rw [update_eq_none]
  exact ⟨by omega, h k (by omega)⟩

/-- An entry is replaced. -/
theorem Below.update (h : Below n f) (hk : f k = some b) (a : α) :
    Below n (Function.update f k (some a)) := by
  intro j hj
  have hlt := h.lt hk
  rw [update_eq_none]
  exact ⟨by omega, h j hj⟩

/-- The keys in the table are finitely many. -/
theorem Below.finite (h : Below n f) (p : α → Prop) : {k | ∃ a ∈ f k, p a}.Finite := by
  refine (Set.finite_lt_nat n).subset ?_
  rintro k ⟨a, ha, -⟩
  exact h.lt ha

end Table
