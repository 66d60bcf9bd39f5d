import Hooch.Task.Liveness

/-!
# Calls that span polls

A task that awaits `read`, `recv` and the like is in a call: each poll of the task polls the future
of the call, and the poll of the task ends with `Pending` as soon as that one has returned
`Pending`. What the call does in between is the business of another component, which wakes the task
when it has to poll again.

* `Allows`, `pendingAfter`: the steps that the runtime may take while tasks are in calls;
* `Calls`: the invariant; who has to poll again is notified, or looks in the poll that goes on;
* `Looks`: a poll goes on in which the call has not returned `Pending`;
* `PollsEnd`, `weaklyFair_of_pollsEnd`: what is fair to an executor with its calls is fair to it in
  the runtime, if none of its polls goes on for ever;
* `notified_looks`: in a fair run a task that was notified looks.
-/

namespace Hooch

open TransitionSystem

namespace Runtime

variable {τ : Type*} [DecidableEq τ]

/-- A poll of a task in a call ends with `Pending`, after the poll of the call has. -/
def MayEnd (busy : τ → Prop) (pending : τ → Bool) (o : Outcome) : ExecutorPc τ → Prop
  | .polling t => ¬ busy t ∨ o = .pending ∧ pending t = true
  | _ => True

instance (busy : τ → Prop) [DecidablePred busy] (pending : τ → Bool) (o : Outcome) :
    (p : ExecutorPc τ) → Decidable (MayEnd busy pending o p)
  | .polling t => inferInstanceAs (Decidable (¬ busy t ∨ o = .pending ∧ pending t = true))
  | .recv | .received _ | .locked _ | .finishing _ | .unlocking _ | .unwinding _ | .reporting
  | .ready | .stopped | .dead | .gone => .isTrue trivial

/-- The steps of the runtime that the calls leave. -/
def Allows (busy : τ → Prop) (pending : τ → Bool) (s : Runtime τ) : Label τ → Prop
  | .work (.polled e o) => MayEnd busy pending o (s.x.pc e)
  | _ => True

instance (busy : τ → Prop) [DecidablePred busy] (pending : τ → Bool) (s : Runtime τ) :
    (a : Label τ) → Decidable (Allows busy pending s a)
  | .work (.polled e o) => inferInstanceAs (Decidable (MayEnd busy pending o (s.x.pc e)))
  | .register _ | .abort _ | .recv _ | .ready _ | .close _ | .work (.lock _) | .work (.look _)
  | .work (.clear _) | .work (.unlock _) | .work (.report _) | .work .drainPanic => .isTrue trivial

/-- When its poll ends, a task is in none whose call has returned `Pending`. -/
def pendingAfter (pending : τ → Bool) (s : Runtime τ) : Label τ → τ → Bool
  | .work (.polled e _) =>
      match s.x.pc e with
      | .polling t => Function.update pending t false
      | _ => pending
  | _ => pending

/-- Whoever was stored as the waker is woken. -/
def wake (s : Runtime τ) : Option τ → Option (Runtime τ)
  | some u => s.step (.register u)
  | none => some s

/-- A poll of the task goes on, and the poll of its call has not returned `Pending` in it. -/
def Looks (pending : τ → Bool) (e : ExecutorId) (t : τ) (s : Runtime τ) : Prop :=
  s.x.pc e = .polling t ∧ pending t = false

variable {ids : List ExecutorId} {s s' : Runtime τ} {a : Label τ} {t : τ} {e : ExecutorId}
  {busy parked due busy' parked' due' : τ → Prop} {pending : τ → Bool} {w : Option τ}

theorem pendingAfter_of_not (h : ¬ s.EndsPoll t a) : pendingAfter pending s a t = pending t := by
  cases a with
  | work b =>
    cases b with
    | polled e o =>
      cases hpc : s.x.pc e with
      | polling u =>
        have hne : t ≠ u := by
          rintro rfl
          exact h hpc
        simp [pendingAfter, hpc, hne]
      | _ => simp [pendingAfter, hpc]
    | _ => rfl
  | _ => rfl

theorem pendingAfter_of_ends (h : s.EndsPoll t a) : pendingAfter pending s a t = false := by
  unfold EndsPoll at h
  split at h
  · simp [pendingAfter, h]
  · exact h.elim

omit [DecidableEq τ] in
/-- A poll of a task in a call that ends has returned `Pending`. -/
theorem ends_of_allows (hallows : Allows busy pending s a) (hbusy : busy t)
    (hends : s.EndsPoll t a) :
    ∃ e, a = .work (.polled e .pending) ∧ s.x.pc e = .polling t ∧ pending t = true := by
  unfold EndsPoll at hends
  split at hends
  · rename_i e o
    have hend : MayEnd busy pending o (s.x.pc e) := hallows
    rw [hends] at hend
    rcases hend with hidle | ⟨rfl, hpending⟩
    · exact absurd hbusy hidle
    · exact ⟨e, rfl, hends, hpending⟩
  · exact hends.elim

/-- A task that is polled and has not had `Pending` goes on. -/
theorem Looks.base (h : Looks pending e t s) (hbusy : busy t) (hallows : Allows busy pending s a)
    (hs : s.step a = some s') : Looks (pendingAfter pending s a) e t s' := by
  have hends : ¬ s.EndsPoll t a := by
    intro hends
    obtain ⟨-, -, -, hp⟩ := ends_of_allows hallows hbusy hends
    exact absurd (h.2.symm.trans hp) (by simp)
  exact ⟨((next_of_step hs).undisturbed hends).polling e h.1,
    (pendingAfter_of_not hends).trans h.2⟩

theorem wake_undisturbed (hs : s.wake w = some s') (t : τ) :
    Executors.Undisturbed s.x s'.x t := by
  cases w with
  | none =>
    cases hs
    exact .refl
  | some v =>
    have hreg : s.step (.register v) = some s' := hs
    exact (next_of_step hreg).undisturbed fun h => h

theorem wake_notifies (hs : s.wake (some t) = some s') : (s'.x.task t).notified = true := by
  have hreg : s.step (.register t) = some s' := hs
  cases next_of_step hreg with
  | registered | registerFault => simp [Executors.notify]

theorem isSome_wake (s : Runtime τ) (w : Option τ) : (s.wake w).isSome := by
  cases w with
  | none => rfl
  | some u =>
    simp only [wake, step]
    split <;> rfl

omit [DecidableEq τ] in
/-- Outside a poll an executor moves as it does without the calls. -/
theorem allows_of_not_polling (busy : τ → Prop) (pending : τ → Bool)
    (hpc : ∀ t, s.x.pc e ≠ .polling t) (ha : Moves e a) : Allows busy pending s a := by
  cases a with
  | work b =>
    cases b with
    | polled e' o =>
      obtain rfl : e' = e := Option.some.inj ha
      show MayEnd busy pending o (s.x.pc e')
      cases hp : s.x.pc e' with
      | polling u => exact absurd hp (hpc u)
      | _ => trivial
    | _ => trivial
  | _ => trivial

/-! ### The invariant -/

/-- The runtime with its tasks in calls. `busy` are the tasks in a call, `parked` those of them
whose latest poll of the call has returned `Pending`, and `due` those that have to poll again. -/
structure Calls (ids : List ExecutorId) (s : Runtime τ) (busy parked due : τ → Prop)
    (pending : τ → Bool) : Prop where
  serving : Serving ids s
  inPoll : ∀ t, busy t → ¬ parked t → ∃ e, s.x.pc e = .polling t
  returned : ∀ t, pending t = true → parked t ∧ ∃ e, s.x.pc e = .polling t
  live : ∀ t, busy t → (s.x.task t).finished = false
  woken : ∀ t, due t → busy t ∧
    ((s.x.task t).notified = true ∨ parked t ∧ ∃ e, Looks pending e t s)

section State

omit [DecidableEq τ]

/-- No task is in a call. -/
theorem Calls.of_idle (hserving : Serving ids s) (hbusy : ∀ t, ¬ busy t) (hdue : ∀ t, ¬ due t)
    (hpending : ∀ t, pending t = false) : Calls ids s busy parked due pending :=
  ⟨hserving, fun t ht => absurd ht (hbusy t),
    fun t ht => absurd ((hpending t).symm.trans ht) (by simp), fun t ht => absurd ht (hbusy t),
    fun t ht => absurd ht (hdue t)⟩

theorem Calls.not_both (h : Calls ids s busy parked due pending) {e' : ExecutorId}
    (hlocked : s.x.pc e = .locked t) (hpolling : s.x.pc e' = .polling t) : False := by
  obtain rfl := h.serving.invariant.ok.unique (t := t) (by rw [hlocked]; rfl)
    (by rw [hpolling]; rfl)
  rw [hlocked] at hpolling
  cases hpolling

/-- A task in a call that is not parked looks. -/
theorem Calls.looks (h : Calls ids s busy parked due pending) (hbusy : busy t)
    (hparked : ¬ parked t) : ∃ e, Looks pending e t s := by
  refine (h.inPoll t hbusy hparked).imp fun e he => ⟨he, ?_⟩
  by_contra hpending
  exact hparked (h.returned t (by simpa using hpending)).1

/-- Who has to poll again looks, or is notified. -/
theorem Calls.looks_or_notified (h : Calls ids s busy parked due pending) (hdue : due t) :
    (∃ e, Looks pending e t s) ∨ (s.x.task t).notified = true :=
  (h.woken t hdue).2.symm.imp_left And.right

/-- A wake-up that no end of a poll disturbs. -/
theorem Calls.due_of_undisturbed (h : Calls ids s busy parked due pending)
    (hund : Executors.Undisturbed s.x s'.x t) (hdue : due t) :
    (s'.x.task t).notified = true ∨ parked t ∧ ∃ e, Looks pending e t s' := by
  obtain ⟨hbusy, hn | ⟨hparked, e, he, hpending⟩⟩ := h.woken t hdue
  · refine (hund.notified hn).imp_right ?_
    rintro ⟨e, hlocked, hpolling⟩
    -- Only one poll of the task goes on.
    refine ⟨?_, e, hpolling, ?_⟩
    · by_contra hparked
      obtain ⟨e', he'⟩ := h.inPoll t hbusy hparked
      exact h.not_both hlocked he'
    · by_contra hpending
      obtain ⟨-, e', he'⟩ := h.returned t (by simpa using hpending)
      exact h.not_both hlocked he'
  · exact .inr ⟨hparked, e, hund.polling e he, hpending⟩

end State

/-- The runtime moves. -/
theorem Calls.base (h : Calls ids s busy parked due pending) (hserving : Serving ids s')
    (hallows : Allows busy pending s a) (hs : s.step a = some s') :
    Calls ids s' busy parked due (pendingAfter pending s a) := by
  have hund : ∀ u, ¬ s.EndsPoll u a → Executors.Undisturbed s.x s'.x u :=
    fun u => (next_of_step hs).undisturbed
  refine ⟨hserving, fun u hbusy hparked => ?_, fun u hp => ?_, fun u hbusy => ?_, fun u hdue => ?_⟩
  · refine (h.inPoll u hbusy hparked).imp (hund u fun hends => hparked ?_).polling
    obtain ⟨-, -, -, hp⟩ := ends_of_allows hallows hbusy hends
    exact (h.returned u hp).1
  · have hends : ¬ s.EndsPoll u a := fun hends =>
      absurd ((pendingAfter_of_ends hends).symm.trans hp) (by simp)
    have hold := h.returned u ((pendingAfter_of_not hends).symm.trans hp)
    exact ⟨hold.1, hold.2.imp (hund u hends).polling⟩
  · by_cases hends : s.EndsPoll u a
    · obtain ⟨e, rfl, hpc, -⟩ := ends_of_allows hallows hbusy hends
      simp only [step, Executors.step, hpc, Option.map_some, Option.some.injEq] at hs
      subst hs
      exact h.live u hbusy
    · rw [(hund u hends).finished]
      exact h.live u hbusy
  · have hbusy := (h.woken u hdue).1
    refine ⟨hbusy, ?_⟩
    by_cases hends : s.EndsPoll u a
    · obtain ⟨e, rfl, hpc, hp⟩ := ends_of_allows hallows hbusy hends
      simp only [step, Executors.step, hpc, Option.map_some, Option.some.injEq] at hs
      subst hs
      rcases (h.woken u hdue).2 with hn | ⟨-, -, -, hnot⟩
      · exact .inl hn
      · exact absurd (hnot.symm.trans hp) (by simp)
    · refine (h.due_of_undisturbed (hund u hends) hdue).imp_right ?_
      rintro ⟨hparked, e, he, hp⟩
      exact ⟨hparked, e, he, (pendingAfter_of_not hends).trans hp⟩

/-- The task that is polled moves in its call, and whatever it waits for is no news. -/
theorem Calls.call (h : Calls ids s busy parked due pending) (hpc : s.x.pc e = .polling t)
    (hother : ∀ u, u ≠ t → (busy' u ↔ busy u) ∧ (parked' u ↔ parked u) ∧ (due' u → due u))
    (hdue : due' t → busy' t ∧ (s.x.task t).notified = true) {b : Bool}
    (hb : b = true → parked' t) :
    Calls ids s busy' parked' due' (Function.update pending t b) := by
  refine ⟨h.serving, fun u hbusy hparked => ?_, fun u hp => ?_, fun u hbusy => ?_, fun u hd => ?_⟩
  all_goals by_cases hut : u = t
  · exact hut ▸ ⟨e, hpc⟩
  · obtain ⟨hbusy', hparked', -⟩ := hother u hut
    exact h.inPoll u (hbusy'.1 hbusy) fun hp => hparked (hparked'.2 hp)
  · subst hut
    exact ⟨hb (by simpa using hp), e, hpc⟩
  · obtain ⟨hparked, hpolling⟩ := h.returned u (by simpa [hut] using hp)
    exact ⟨(hother u hut).2.1.2 hparked, hpolling⟩
  · exact hut ▸ (h.serving.invariant.ok.polling e t hpc).2
  · exact h.live u ((hother u hut).1.1 hbusy)
  · subst hut
    exact ⟨(hdue hd).1, .inl (hdue hd).2⟩
  · obtain ⟨hbusy', hparked', hdue'⟩ := hother u hut
    obtain ⟨hbusy, hold⟩ := h.woken u (hdue' hd)
    refine ⟨hbusy'.2 hbusy, hold.imp_right ?_⟩
    rintro ⟨hparked, e', he', hp⟩
    exact ⟨hparked'.2 hparked, e', he', by simpa [hut] using hp⟩

/-- A task is woken that has to poll again. -/
theorem Calls.wake (h : Calls ids s busy parked due pending) (hserving : Serving ids s')
    (hs : s.wake w = some s') (hdue : ∀ u, due' u → due u ∨ busy u ∧ w = some u) :
    Calls ids s' busy parked due' pending := by
  have hund := wake_undisturbed hs
  refine ⟨hserving, fun u hbusy hparked => (h.inPoll u hbusy hparked).imp (hund u).polling,
    fun u hp => (h.returned u hp).imp_right (Exists.imp (hund u).polling), fun u hbusy => ?_,
    fun u hd => ?_⟩
  · rw [(hund u).finished]
    exact h.live u hbusy
  · rcases hdue u hd with hold | ⟨hbusy, rfl⟩
    · exact ⟨(h.woken u hold).1, h.due_of_undisturbed (hund u) hold⟩
    · exact ⟨hbusy, .inl (wake_notifies hs)⟩

/-! ### Fair runs -/

/-- No poll of the executor goes on for ever. -/
def PollsEnd (y : (runtime (τ := τ) ids).Execution) (e : ExecutorId) : Prop :=
  ∀ n t, (y.state n).x.pc e = .polling t → ∃ m, n ≤ m ∧ (y.state m).x.pc e ≠ .polling t

theorem abort_of_not_aborts {y : (runtime (τ := τ) ids).Execution}
    (h : ∀ m, y.act m ≠ some (.abort t)) (n : ℕ) : ((y.state n).x.task t).abort = false := by
  refine Execution.stable (P := fun s : Runtime τ => (s.x.task t).abort = false)
    (fun k b _ hact hk => ?_) (Nat.zero_le n) ?_
  · rw [(next_of_step (y.steps k b hact)).abort_eq fun hb => h k (hb ▸ hact)]
    exact hk
  · obtain ⟨tm, -, -, hrt⟩ := y.init
    rw [hrt]
    rfl

section Runs

variable {σ α : Type*} {S : TransitionSystem σ α} {part : σ → Runtime τ}
  {label : σ → α → Option (Label τ)} {x : S.Execution}

/-- A run is fair to an executor of the runtime if it is fair to a class of steps that the executor
can make whenever it can move outside a poll, and that are moves of the executor or steps in its
polls. -/
theorem weaklyFair_of_pollsEnd (h : RunsOn S (runtime ids) part label) {A : α → Prop}
    (hends : PollsEnd (h.execution x) e)
    (henabled : ∀ s, (∀ t, (part s).x.pc e ≠ .polling t) →
      (runtime ids).Enabled (Moves e) (part s) → S.Enabled A s)
    (hmoves : ∀ s a s', S.step s a = some s' → A a →
      (∃ b, label s a = some b ∧ Moves e b) ∨ ∃ t, (part s).x.pc e = .polling t)
    (hfair : x.WeaklyFair A) : (h.execution x).WeaklyFair (Moves e) := by
  intro n hn
  by_contra hnever
  push Not at hnever
  -- The executor stays where it is, which is not in a poll.
  have hstays : ∀ m, n ≤ m → (part (x.state m)).x.pc e = (part (x.state n)).x.pc e := by
    intro m hnm
    refine Execution.stable (x := h.execution x)
      (P := fun rt => rt.x.pc e = (part (x.state n)).x.pc e) (fun k b hnk hact hk => ?_) hnm rfl
    have hnext := next_of_step ((h.execution x).steps k b hact)
    exact (pc_of_not_moves hnext (hnever k hnk b hact)).trans hk
  have hpc : ∀ m, n ≤ m → ∀ t, (part (x.state m)).x.pc e ≠ .polling t := by
    intro m hnm t ht
    obtain ⟨m', hmm', hne⟩ := hends m t ht
    exact hne ((hstays m' (hnm.trans hmm')).trans ((hstays m hnm).symm.trans ht))
  obtain ⟨m, hnm, a, hact, ha⟩ := hfair n fun m hnm => henabled _ (hpc m hnm) (hn m hnm)
  rcases hmoves _ _ _ (x.steps m a hact) ha with ⟨b, hb, hmove⟩ | ⟨t, ht⟩
  · exact hnever m hnm b (by simp [RunsOn.execution, hact, hb]) hmove
  · exact hpc m hnm t ht

/-- In a run that is fair to the executors, a task that is notified while it is in a call is polled
later on and looks, if no poll panics and nobody aborts it. -/
theorem notified_looks (h : RunsOn S (runtime ids) part label) (busy parked due : σ → τ → Prop)
    (pending : σ → τ → Bool) (hids : ids ≠ []) (hsmooth : (h.execution x).Under Smooth)
    (hfair : ∀ e ∈ ids, (h.execution x).WeaklyFair (Moves e))
    (hstep : ∀ s a s' b, S.step s a = some s' → label s a = some b →
      Allows (busy s) (pending s) (part s) b ∧ pending s' = pendingAfter (pending s) (part s) b)
    (hcalls : ∀ m, Calls ids (part (x.state m)) (busy (x.state m)) (parked (x.state m))
      (due (x.state m)) (pending (x.state m)))
    (habort : ∀ m, (h.execution x).act m ≠ some (.abort t)) {n : ℕ}
    (hbusy : ∀ m, n ≤ m → busy (x.state m) t) (hdue : Due ((part (x.state n)).x.task t)) :
    ∃ m e, n ≤ m ∧ Looks (pending (x.state m)) e t (part (x.state m)) := by
  obtain ⟨m, b, hnm, hact, hb⟩ := woken_is_polled hids (h.execution x) hsmooth hfair hdue
  obtain ⟨a, ha, hab⟩ := Option.bind_eq_some_iff.1 hact
  obtain ⟨hallows, hpending⟩ := hstep _ _ _ _ (x.steps m a ha) hab
  rcases hb with ⟨e, rfl, hlocked, hpolling⟩ | ⟨e, rfl, hpolling⟩ | rfl
  · refine ⟨m + 1, e, by omega, hpolling, ?_⟩
    rw [hpending]
    by_contra hp
    obtain ⟨-, e', he'⟩ := (hcalls m).returned t (by simpa [pendingAfter] using hp)
    exact (hcalls m).not_both hlocked he'
  · obtain ⟨e', he', -⟩ := ends_of_allows hallows (hbusy m hnm) hpolling
    cases he'
  · exact absurd hact (habort m)

end Runs

end Runtime

end Hooch
