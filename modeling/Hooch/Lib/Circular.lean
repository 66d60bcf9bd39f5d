import Mathlib.Tactic

/-!
# Circular index arithmetic and windows of a circular array

Indices into an array of `n` slots that is used round and round. `succ` is the comparison-and-reset
form of the successor, `shift` walks `k ≤ n` places on, `dist` counts the places from one index
to another.

`Window n slots start q` says that the slots hold exactly the list `q`, the first element at
`start`, and that every other slot is empty. The lemmas say what writing behind the window and
taking its first element do.
-/

namespace Circular

/-- The next index, back to `0` after the last one. -/
def succ (n i : ℕ) : ℕ := if i + 1 < n then i + 1 else 0

/-- The index `k` places after `i`, for `k ≤ n`. -/
def shift (n i k : ℕ) : ℕ := if i + k < n then i + k else i + k - n

/-- The number of places from `i` to `j`. -/
def dist (n i j : ℕ) : ℕ := if i ≤ j then j - i else j + n - i

variable {n i j k : ℕ}

theorem succ_lt (hn : 0 < n) : succ n i < n := by unfold succ; split_ifs <;> omega

theorem shift_lt (hi : i < n) (hk : k ≤ n) : shift n i k < n := by
  unfold shift; split_ifs <;> omega

theorem dist_lt (hi : i < n) (hj : j < n) : dist n i j < n := by
  unfold dist; split_ifs <;> omega

@[simp] theorem shift_zero (hi : i < n) : shift n i 0 = i := by unfold shift; split_ifs <;> omega

theorem shift_eq_mod (hi : i < n) (hk : k ≤ n) : shift n i k = (i + k) % n := by
  unfold shift
  split_ifs with h
  · rw [Nat.mod_eq_of_lt h]
  · rw [Nat.mod_eq_sub_mod (by omega), Nat.mod_eq_of_lt (by omega)]

@[simp] theorem dist_self : dist n i i = 0 := by unfold dist; split_ifs <;> omega

theorem dist_shift (hi : i < n) (hk : k < n) : dist n i (shift n i k) = k := by
  unfold dist shift; split_ifs <;> omega

theorem shift_dist (hi : i < n) (hj : j < n) : shift n i (dist n i j) = j := by
  unfold dist shift; split_ifs <;> omega

theorem succ_injective (hi : i < n) (hj : j < n) (h : succ n i = succ n j) : i = j := by
  unfold succ at h; split_ifs at h <;> omega

/-- Walking one place further is the successor. -/
theorem succ_shift (hi : i < n) (hk : k < n) : succ n (shift n i k) = shift n i (k + 1) := by
  unfold succ shift; split_ifs <;> omega

/-- Starting one place further is walking one place further. -/
theorem shift_succ (hi : i < n) (hk : k < n) : shift n (succ n i) k = shift n i (k + 1) := by
  unfold succ shift; split_ifs <;> omega

/-- Only `i` itself is `0` places away; everything else is one place nearer to the successor. -/
theorem dist_succ (hi : i < n) (hj : j < n) (h : j ≠ i) :
    dist n i j = dist n (succ n i) j + 1 := by
  unfold dist succ; split_ifs <;> omega

/-- From the successor, `i` is as far as it can be. -/
theorem dist_succ_self (hi : i < n) : dist n (succ n i) i = n - 1 := by
  unfold dist succ; split_ifs <;> omega

theorem dist_eq_iff (hi : i < n) (hj : j < n) (hk : k < n) : dist n i j = k ↔ j = shift n i k := by
  unfold dist shift; split_ifs <;> omega

/-! ### Windows -/

variable {α : Type*}

/-- The slots below `n` hold `q` from `start` on, and nothing else. -/
def Window (n : ℕ) (slots : ℕ → Option α) (start : ℕ) (q : List α) : Prop :=
  ∀ i < n, slots i = q[dist n start i]?

variable {slots : ℕ → Option α} {start : ℕ} {q : List α}

theorem Window.nil : Window n (fun _ => none : ℕ → Option α) start [] := by
  intro i _
  simp

/-- The slot at `start` holds the first element. -/
theorem Window.head (h : Window n slots start q) (hs : start < n) : slots start = q.head? := by
  rw [h start hs, dist_self, List.head?_eq_getElem?]

/-- The slot behind the window is empty unless the window is the whole array. -/
theorem Window.free (h : Window n slots start q) (hs : start < n) (hq : q.length < n) :
    slots (shift n start q.length) = none := by
  rw [h _ (shift_lt hs hq.le), dist_shift hs hq, List.getElem?_eq_none le_rfl]

/-- Writing behind the window appends. -/
theorem Window.push (h : Window n slots start q) (hs : start < n) (hq : q.length < n) (x : α) :
    Window n (Function.update slots (shift n start q.length) (some x)) start (q ++ [x]) := by
  intro i hi
  by_cases he : i = shift n start q.length
  · subst he
    rw [Function.update_self, dist_shift hs hq, List.getElem?_concat_length]
  · have hne : dist n start i ≠ q.length := fun hd => he ((dist_eq_iff hs hi hq).1 hd)
    rw [Function.update_of_ne he, h i hi]
    rcases Nat.lt_or_gt_of_ne hne with hlt | hgt
    · rw [List.getElem?_append_left hlt]
    · rw [List.getElem?_eq_none hgt.le, List.getElem?_eq_none (by simp; omega)]

/-- Emptying the first slot removes the first element and moves the window on. -/
theorem Window.pop {x : α} (h : Window n slots start (x :: q)) (hs : start < n)
    (hq : q.length < n) : Window n (Function.update slots start none) (succ n start) q := by
  intro i hi
  by_cases he : i = start
  · subst he
    rw [Function.update_self, dist_succ_self hs, List.getElem?_eq_none (by omega)]
  · rw [Function.update_of_ne he, h i hi, dist_succ hs hi he, List.getElem?_cons_succ]

end Circular
