import Mathlib.Tactic

/-!
# Counting parties by where they stand

Finitely many parties, each at a place `f i`. `census p f` is the number of those whose place
satisfies `p`; moving one party changes it by what that party alone contributes.
-/

namespace Census

variable {ι α : Type*} [Fintype ι]

/-- What one place contributes. -/
def weight (p : α → Bool) (a : α) : ℕ := if p a then 1 else 0

/-- The number of parties at a place satisfying `p`. -/
def census (p : α → Bool) (f : ι → α) : ℕ := ∑ i, weight p (f i)

/-- A sum over parties when party `i` moves to `a`. -/
theorem sum_update {ι : Type*} [DecidableEq ι] (g : α → ℕ) (f : ι → α) {s : Finset ι} {i : ι}
    (hi : i ∈ s) (a : α) :
    ∑ j ∈ s, g (Function.update f i a j) + g (f i) = ∑ j ∈ s, g (f j) + g a := by
  have hnew := Finset.add_sum_erase s (fun j => g (Function.update f i a j)) hi
  have hold := Finset.add_sum_erase s (fun j => g (f j)) hi
  have hrest : ∑ j ∈ s.erase i, g (Function.update f i a j) = ∑ j ∈ s.erase i, g (f j) := by
    refine Finset.sum_congr rfl fun j hj => ?_
    rw [Function.update_of_ne (Finset.ne_of_mem_erase hj)]
  simp only [Function.update_self] at hnew
  omega

/-- Moving party `i` to `a`. -/
theorem census_update [DecidableEq ι] (p : α → Bool) (f : ι → α) (i : ι) (a : α) :
    census p (Function.update f i a) + weight p (f i) = census p f + weight p a :=
  sum_update (weight p) f (Finset.mem_univ i) a

theorem census_eq_zero {p : α → Bool} {f : ι → α} : census p f = 0 ↔ ∀ i, p (f i) = false := by
  simp [census, weight]

theorem census_pos {p : α → Bool} {f : ι → α} : 0 < census p f ↔ ∃ i, p (f i) = true := by
  rw [Nat.pos_iff_ne_zero, Ne, census_eq_zero]
  simp

omit [Fintype ι] in
/-- A party that stands at `p` is not the one that moves away from elsewhere. -/
theorem exists_update [DecidableEq ι] (p : α → Prop) {f : ι → α} {i : ι} {a : α}
    (hi : ¬ p (f i)) (h : ∃ j, p (f j)) : ∃ j, p (Function.update f i a j) := by
  obtain ⟨j, hj⟩ := h
  have hji : j ≠ i := by
    rintro rfl
    exact hi hj
  exact ⟨j, by rwa [Function.update_of_ne hji]⟩

omit [Fintype ι] in
theorem exists_update_self [DecidableEq ι] (p : α → Prop) {f : ι → α} {i : ι} {a : α} (ha : p a) :
    ∃ j, p (Function.update f i a j) :=
  ⟨i, by rwa [Function.update_self]⟩

theorem weight_of_true {p : α → Bool} {a : α} (h : p a = true) : weight p a = 1 := if_pos h

theorem weight_of_false {p : α → Bool} {a : α} (h : p a = false) : weight p a = 0 := by
  simp [weight, h]

end Census
