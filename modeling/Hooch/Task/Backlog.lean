import Hooch.Runtime
import Hooch.Task.Abort

/-!
# A burst of wakes

Every wake of a task registers it anew, also while it already waits, so the queue of waiting tasks
grows with the wakes and not with the tasks: while the executors are busy, wakes of a single task
fill it, and the next one panics in the thread that delivers it (`burst_panics`).

* `Tokens`: in every interleaving of the calls an executor has one token, which a registration
  holds between its pop and its send;
* `Tokens.wakePanics_iff`: a wake panics where it comes to its push and the queue is full;
* `Once`: a task is woken only while it is unfinished and has no registration outstanding, and does
  not finish while it has one;
* `wakes_go_through`: the main result, with each task registered once at a time the queue has room
  for as many unfinished tasks as it has places.
-/

namespace Hooch

/-- The task that is registered. -/
def RegisterPc.task {τ : Type*} : RegisterPc τ → τ
  | .check t | .pop t | .send _ t | .push t => t

/-- A registration keeps its task, and leaves the waiting tasks alone until it ends. -/
theorem RegisterPc.task_next {τ : Type*} {has_aborted : τ → Bool} {tm tm' : TaskManager τ}
    {p : RegisterPc τ} {a : After (RegisterPc τ)} (h : p.Next has_aborted tm tm' a) :
    (∀ p', a.pc = some p' → p'.task = p.task) ∧
      (tm'.waitingTasks.items = tm.waitingTasks.items ∨
        tm'.waitingTasks.items = tm.waitingTasks.items ++ [p.task] ∧ a.pc = none) := by
  cases h with
  | pushed hpush => exact ⟨by simp [After.pc], .inr ⟨hpush, rfl⟩⟩
  | skip | sent | sendPanic | pushPanic => exact ⟨by simp [After.pc], .inl rfl⟩
  | live | found | none =>
    refine ⟨?_, .inl rfl⟩
    rintro p' ⟨rfl⟩
    rfl

namespace Interleaving

variable {κ τ : Type*} [DecidableEq κ] [DecidableEq τ] {ids : List ExecutorId}
  {s s' : Interleaving κ τ}

/-- There is a place in the queue for the registration that comes to its push. -/
def Room (s : Interleaving κ τ) : Label κ τ → Prop
  | .register k => ∀ t, s.caller k = some (.push t) →
      s.tm.waitingTasks.items.length < TaskManager.queueBound
  | _ => True

/-! ### The tokens of the executors -/

/-- A registration took the executor out of the queue and has not sent it the task yet. -/
def Chosen (caller : κ → Option (RegisterPc τ)) (e : ExecutorId) : Prop :=
  ∃ k t, caller k = some (.send e t)

open Classical in
/-- The tokens that are with the executor or with a registration. -/
noncomputable def held (pc : ExecutorId → ExecutorPc τ) (caller : κ → Option (RegisterPc τ))
    (e : ExecutorId) : ℕ :=
  Runtime.busy (pc e) + if Chosen caller e then 1 else 0

/-- No two registrations chose the same executor. -/
def Distinct (caller : κ → Option (RegisterPc τ)) : Prop :=
  ∀ ⦃k k' e t t'⦄, caller k = some (.send e t) → caller k' = some (.send e t') → k = k'

/-- Every executor has one token. -/
structure Tokens (ids : List ExecutorId) (s : Interleaving κ τ) : Prop where
  balanced : s.tm.Balanced ids (Runtime.isGone ∘ s.x.pc) (held s.x.pc s.caller)
  distinct : Distinct s.caller
  readying : ∀ e, s.readying e ≠ none → s.x.pc e = .ready
  bound_eq : s.tm.waitingTasks.bound = TaskManager.queueBound

section Moves

variable {pc : ExecutorId → ExecutorPc τ} {caller : κ → Option (RegisterPc τ)} {k : κ}
  {e : ExecutorId} {t : τ}

omit [DecidableEq κ] [DecidableEq τ] in
theorem held_congr {pc' : ExecutorId → ExecutorPc τ} {caller' : κ → Option (RegisterPc τ)}
    (hbusy : Runtime.busy (pc' e) = Runtime.busy (pc e))
    (hchosen : Chosen caller' e ↔ Chosen caller e) : held pc' caller' e = held pc caller e := by
  unfold held
  rw [hbusy, propext hchosen]

omit [DecidableEq κ] [DecidableEq τ] in
theorem held_of_chosen (pc : ExecutorId → ExecutorPc τ) (h : Chosen caller e) :
    held pc caller e = Runtime.busy (pc e) + 1 := by
  simp only [held, if_pos h]

omit [DecidableEq κ] [DecidableEq τ] in
theorem held_of_not_chosen (h : ¬ Chosen caller e) : held pc caller e = Runtime.busy (pc e) := by
  simp only [held, if_neg h, Nat.add_zero]

omit [DecidableEq τ] in
/-- A registration that moves and was not about to send to the executor, nor is now. -/
theorem chosen_update {p : Option (RegisterPc τ)} (hold : ∀ t, caller k ≠ some (.send e t))
    (hnew : ∀ t, p ≠ some (.send e t)) :
    Chosen (Function.update caller k p) e ↔ Chosen caller e := by
  constructor
  · rintro ⟨k', t, hk'⟩
    exact ⟨k', t, of_update_eq hk' (hnew t)⟩
  · rintro ⟨k', t, hk'⟩
    have hkk : k' ≠ k := by
      rintro rfl
      exact hold t hk'
    exact ⟨k', t, by rwa [Function.update_of_ne hkk]⟩

omit [DecidableEq τ] in
/-- A registration takes the token of an executor that has no other. -/
theorem held_take (hold : ∀ e t, caller k ≠ some (.send e t)) (hzero : held pc caller e = 0) :
    held pc (Function.update caller k (some (.send e t))) =
      Function.update (held pc caller) e 1 := by
  have hnot : ¬ Chosen caller e := by
    intro h
    rw [held_of_chosen pc h] at hzero
    omega
  rw [held_of_not_chosen hnot] at hzero
  funext e'
  by_cases hee : e' = e
  · subst hee
    rw [Function.update_self, held_of_chosen pc ⟨k, t, by simp⟩, hzero]
  · rw [Function.update_of_ne hee]
    refine held_congr rfl (chosen_update (hold e') fun t' => ?_)
    rintro ⟨rfl⟩
    exact hee rfl

omit [DecidableEq τ] in
/-- The one registration that holds the token of an executor gives it away. -/
theorem held_give (hk : caller k = some (.send e t))
    (hunique : ∀ {k' t'}, caller k' = some (.send e t') → k' = k)
    (hbusy : Runtime.busy (pc e) = 0) :
    held pc (Function.update caller k none) = Function.update (held pc caller) e 0 := by
  funext e'
  by_cases hee : e' = e
  · subst hee
    have hnot : ¬ Chosen (Function.update caller k none) e' := by
      rintro ⟨k', t', hk'⟩
      have hsame := of_update_eq hk' (by simp)
      rw [hunique hsame, Function.update_self] at hk'
      cases hk'
    rw [Function.update_self, held_of_not_chosen hnot, hbusy]
  · rw [Function.update_of_ne hee]
    refine held_congr rfl (chosen_update (fun t' => ?_) (by simp))
    rw [hk]
    rintro ⟨rfl⟩
    exact hee rfl

omit [DecidableEq τ] in
theorem Distinct.update {p : Option (RegisterPc τ)} (h : Distinct caller)
    (hp : ∀ e t, p ≠ some (.send e t)) : Distinct (Function.update caller k p) :=
  fun _ _ _ _ _ h₁ h₂ => h (of_update_eq h₁ (hp _ _)) (of_update_eq h₂ (hp _ _))

omit [DecidableEq τ] in
theorem Distinct.take (h : Distinct caller) (hnot : ¬ Chosen caller e) :
    Distinct (Function.update caller k (some (.send e t))) := by
  -- The registration that takes the token is the only one to have chosen its executor.
  have honly : ∀ {k' t'}, Function.update caller k (some (.send e t)) k' = some (.send e t') →
      k' = k := by
    intro k' t' hk'
    by_contra hne
    rw [Function.update_of_ne hne] at hk'
    exact hnot ⟨k', t', hk'⟩
  intro k₁ k₂ e' t₁ t₂ h₁ h₂
  by_cases hee : e' = e
  · subst hee
    rw [honly h₁, honly h₂]
  · have hne : ∀ t', some (RegisterPc.send e t) ≠ some (.send e' t') := by
      rintro t' ⟨rfl⟩
      exact hee rfl
    exact h (of_update_eq h₁ (hne t₁)) (of_update_eq h₂ (hne t₂))

omit [DecidableEq κ] [DecidableEq τ] in
/-- An executor moves that no registration has chosen. -/
theorem held_setPc {x : Executors τ} {p : ExecutorPc τ} (hnot : ¬ Chosen caller e) :
    held (x.setPc e p).pc caller = Function.update (held x.pc caller) e (Runtime.busy p) := by
  funext e'
  by_cases hee : e' = e
  · subst hee
    rw [Function.update_self, held_of_not_chosen hnot]
    simp
  · simp [held, hee]

end Moves

/-! ### The steps of the calls -/

theorem step_register {k : κ} (h : s.step (.register k) = some s') :
    ∃ p tm a, s.caller k = some p ∧ p.step s.hasAborted s.tm = some (tm, a) ∧
      s' = { s with tm := tm, caller := Function.update s.caller k a.pc } := by
  simp only [step] at h
  split at h
  · cases h
  · rename_i p hk
    split at h
    · cases h
    · rename_i hp
      cases h
      exact ⟨p, _, _, hk, hp, rfl⟩
    · rename_i a hne hp
      cases h
      refine ⟨p, _, a, hk, hp, ?_⟩
      cases a with
      | next p' => exact absurd rfl (hne p')
      | returned | panicked => rfl

theorem step_ready {e : ExecutorId} (h : s.step (.ready e) = some s') :
    ∃ p tm a, s.readying e = some p ∧ p.step s.hasAborted s.tm e = some (tm, a) ∧
      s' = { s with
        tm := tm
        x := match a with
          | .next _ => s.x
          | .returned => s.x.setPc e .recv
          | .panicked => s.x.setPc e .dead
        readying := Function.update s.readying e a.pc } := by
  simp only [step] at h
  split at h
  · cases h
  · rename_i p he
    split at h
    · cases h
    all_goals
      rename_i hp
      cases h
      exact ⟨p, _, _, he, hp, rfl⟩

omit [DecidableEq κ] [DecidableEq τ] in
/-- An executor at `executor_ready` holds its token itself. -/
theorem Tokens.not_chosen (h : Tokens ids s) {e : ExecutorId} (he : 0 < Runtime.busy (s.x.pc e)) :
    ¬ Chosen s.caller e := by
  intro hc
  have hheld := held_of_chosen s.x.pc hc
  obtain ⟨-, -, -, hone⟩ := h.balanced.holding (e := e) (by omega)
  omega

omit [DecidableEq κ] [DecidableEq τ] in
/-- A registration that chose an executor finds it idle and its channel open. -/
theorem Tokens.chosen (h : Tokens ids s) {e : ExecutorId} (hc : Chosen s.caller e) :
    Runtime.busy (s.x.pc e) = 0 ∧ Runtime.isGone (s.x.pc e) = false ∧
      0 < held s.x.pc s.caller e := by
  have hheld := held_of_chosen s.x.pc hc
  obtain ⟨-, -, -, hone⟩ := h.balanced.holding (e := e) (by omega)
  have hbusy : Runtime.busy (s.x.pc e) = 0 := by omega
  refine ⟨hbusy, ?_, by omega⟩
  cases hpc : s.x.pc e <;> rw [hpc] at hbusy <;> first | rfl | cases hbusy

omit [DecidableEq τ] in
/-- A step of a registration keeps the tokens. -/
theorem Tokens.register (h : Tokens ids s) {k : κ} {p : RegisterPc τ} {tm : TaskManager τ}
    {a : After (RegisterPc τ)} (hk : s.caller k = some p)
    (hstep : p.step s.hasAborted s.tm = some (tm, a)) :
    Tokens ids { s with tm := tm, caller := Function.update s.caller k a.pc } := by
  have hidle : ∀ {p' : Option (RegisterPc τ)}, (∀ e t, p ≠ .send e t) →
      (∀ e t, p' ≠ some (.send e t)) →
      held s.x.pc (Function.update s.caller k p') = held s.x.pc s.caller := by
    intro p' hold hnew
    funext e
    exact held_congr rfl (chosen_update (by simpa [hk] using hold e) (hnew e))
  cases p with
  | check t =>
    simp only [RegisterPc.step, Option.some.injEq, Prod.mk.injEq] at hstep
    obtain ⟨rfl, rfl⟩ := hstep
    have hpc : ∀ e u, After.pc (if s.hasAborted t then .returned else .next (.pop t)) ≠
        some (RegisterPc.send e u) := by
      intro e u
      split <;> simp [After.pc]
    refine ⟨?_, h.distinct.update hpc, h.readying, h.bound_eq⟩
    rw [hidle (by simp) hpc]
    exact h.balanced
  | pop t =>
    simp only [RegisterPc.step] at hstep
    split at hstep
    · rename_i e q hpop
      cases hstep
      obtain ⟨-, hzero, htaken⟩ := h.balanced.take hpop
      have hnot : ¬ Chosen s.caller e := fun hc => by
        have := held_of_chosen s.x.pc hc
        omega
      refine ⟨?_, h.distinct.take hnot, h.readying, h.bound_eq⟩
      rw [After.pc, held_take (by simp [hk]) hzero]
      exact htaken
    · cases hstep
      refine ⟨?_, h.distinct.update (by simp [After.pc]), h.readying, h.bound_eq⟩
      rw [hidle (by simp) (by simp [After.pc])]
      exact h.balanced
  | send e t =>
    obtain ⟨hbusy, hgone, hpos⟩ := h.chosen ⟨k, t, hk⟩
    simp only [RegisterPc.step] at hstep
    split at hstep
    · rename_i tm' hsend
      cases hstep
      refine ⟨?_, h.distinct.update (by simp [After.pc]), h.readying, ?_⟩
      · rw [After.pc, held_give hk (fun hk' => h.distinct hk' hk) hbusy]
        exact h.balanced.give hgone hpos hsend
      · obtain ⟨ch, ch', -, -, rfl⟩ := TaskManager.sendTask_eq_ok hsend
        exact h.bound_eq
    · cases hstep
    · rename_i hsend
      obtain ⟨tm', htm'⟩ := h.balanced.send_ok hgone hpos t
      rw [htm'] at hsend
      cases hsend
  | push t =>
    have hnone : Tokens ids { s with caller := Function.update s.caller k none } := by
      refine ⟨?_, h.distinct.update (by simp), h.readying, h.bound_eq⟩
      rw [hidle (by simp) (by simp)]
      exact h.balanced
    simp only [RegisterPc.step] at hstep
    split at hstep
    · rename_i q hpush
      cases hstep
      exact ⟨hnone.balanced.setTasks q, hnone.distinct, hnone.readying,
        (BoundedQueue.push_eq_some hpush).2.1.trans h.bound_eq⟩
    · cases hstep
      exact hnone

/-- A step of `executor_ready` keeps the tokens. -/
theorem Tokens.ready (h : Tokens ids s) {e : ExecutorId} (hs : s.step (.ready e) = some s') :
    Tokens ids s' := by
  have hnext := next_of_step hs
  obtain ⟨p, tm, a, he, hstep, rfl⟩ := step_ready hs
  have hpc : s.x.pc e = .ready := h.readying e (by rw [he]; simp)
  have hbusy : 0 < Runtime.busy (s.x.pc e) := by simp [hpc, Runtime.busy]
  have hnot := h.not_chosen hbusy
  have hgone : (Runtime.isGone ∘ s.x.pc) e = false := by simp [hpc, Runtime.isGone]
  have hpos : 0 < held s.x.pc s.caller e := by rwa [held_of_not_chosen hnot]
  have hready := readying_next h.readying hnext
  -- The executor gives its token away and returns to `recv`.
  have hreturn : ∀ {tm : TaskManager τ},
      tm.Balanced ids (Runtime.isGone ∘ s.x.pc)
        (Function.update (held s.x.pc s.caller) e 0) →
      tm.Balanced ids (Runtime.isGone ∘ (s.x.setPc e .recv).pc)
        (held (s.x.setPc e .recv).pc s.caller) := by
    intro tm hbal
    rwa [Runtime.comp_setPc_self (f := Runtime.isGone) (by rw [hpc]; rfl), held_setPc hnot]
  cases p with
  | pop =>
    simp only [ReadyPc.step] at hstep
    split at hstep
    · rename_i t q hpop
      cases hstep
      exact ⟨h.balanced.setTasks q, h.distinct, hready,
        (BoundedQueue.pop_eq_some hpop).2.trans h.bound_eq⟩
    · cases hstep
      exact ⟨h.balanced, h.distinct, hready, h.bound_eq⟩
  | check t =>
    cases hstep
    exact ⟨h.balanced, h.distinct, hready, h.bound_eq⟩
  | send t =>
    simp only [ReadyPc.step] at hstep
    split at hstep
    · rename_i hsend
      cases hstep
      refine ⟨hreturn (h.balanced.give hgone hpos hsend), h.distinct, hready, ?_⟩
      obtain ⟨ch, ch', -, -, rfl⟩ := TaskManager.sendTask_eq_ok hsend
      exact h.bound_eq
    · cases hstep
    · rename_i hsend
      obtain ⟨tm', htm'⟩ := h.balanced.send_ok hgone hpos t
      rw [htm'] at hsend
      cases hsend
  | push =>
    obtain ⟨q, hq⟩ := h.balanced.push_ok hpos
    simp only [ReadyPc.step, hq, Option.some.injEq, Prod.mk.injEq] at hstep
    obtain ⟨rfl, rfl⟩ := hstep
    exact ⟨hreturn (h.balanced.park hgone hpos hq), h.distinct, hready, h.bound_eq⟩

theorem Tokens.next {a : Label κ τ} (h : Tokens ids s) (hs : s.step a = some s') :
    Tokens ids s' := by
  have hready := readying_next h.readying (next_of_step hs)
  cases a with
  | register k =>
    obtain ⟨p, tm, a, hk, hstep, rfl⟩ := step_register hs
    exact h.register hk hstep
  | ready e => exact h.ready hs
  | call k t =>
    cases next_of_step hs with
    | call hk =>
      refine ⟨?_, h.distinct.update (by simp), hready, h.bound_eq⟩
      have hheld : held s.x.pc (Function.update s.caller k (some (.check t))) =
          held s.x.pc s.caller := by
        funext e
        exact held_congr rfl (chosen_update (by simp [hk]) (by simp))
      show s.tm.Balanced ids (Runtime.isGone ∘ s.x.pc) (held s.x.pc _)
      rw [hheld]
      exact h.balanced
  | abort t =>
    cases hs
    exact ⟨h.balanced, h.distinct, hready, h.bound_eq⟩
  | enter e =>
    cases next_of_step hs with
    | enter hpc he => exact ⟨h.balanced, h.distinct, hready, h.bound_eq⟩
  | recv e =>
    cases next_of_step hs with
    | @recv _ t tm hpc hrecv =>
      obtain ⟨-, hzero, -, -, hbal⟩ := h.balanced.recv hrecv
      have hnot : ¬ Chosen s.caller e := fun hc => by
        have := held_of_chosen s.x.pc hc
        omega
      refine ⟨?_, h.distinct, hready, ?_⟩
      · rw [Runtime.comp_setPc_self (f := Runtime.isGone) (by rw [hpc]; rfl), held_setPc hnot]
        exact hbal
      · obtain ⟨ch, ch', -, -, rfl⟩ := TaskManager.recvTask_eq_some hrecv
        exact h.bound_eq
    | finish hpc hrecv =>
      obtain ⟨⟨t, ht⟩, -⟩ := h.balanced.recv hrecv
      cases ht
  | work a =>
    cases next_of_step hs with
    | work hx =>
      obtain ⟨hbusy, hgone⟩ := Runtime.busy_next hx
      refine ⟨?_, h.distinct, hready, h.bound_eq⟩
      have hheld : ∀ e, held _ s.caller e = held s.x.pc s.caller e := fun e =>
        held_congr (congrFun hbusy e) Iff.rfl
      rw [hgone, funext hheld]
      exact h.balanced
  | close e =>
    cases next_of_step hs with
    | close hpc =>
      have hpos : 0 < Runtime.busy (s.x.pc e) := by simp [hpc, Runtime.busy]
      have hnot := h.not_chosen hpos
      have hbal := (h.balanced.close (e := e) (by rwa [held_of_not_chosen hnot])).2
      refine ⟨?_, h.distinct, hready, h.bound_eq⟩
      have hheld : held (s.x.setPc e .gone).pc s.caller = held s.x.pc s.caller := by
        rw [held_setPc hnot, Function.update_eq_self_iff, held_of_not_chosen hnot, hpc]
        rfl
      rw [← show Runtime.isGone (.gone : ExecutorPc τ) = true from rfl,
        ← Runtime.comp_setPc, ← hheld] at hbal
      exact hbal

theorem Tokens.init (h : (interleaving ids).init s) : Tokens ids s := by
  obtain ⟨tm, htm, hids, rfl⟩ := h
  have hnot : ∀ e, ¬ Chosen (fun _ => none : κ → Option (RegisterPc τ)) e := by
    rintro e ⟨k, t, hk⟩
    cases hk
  refine ⟨?_, ?_, by simp, ?_⟩
  · have hheld : held (Executors.new : Executors τ).pc (fun _ : κ => none) = fun _ => 0 :=
      funext fun e => held_of_not_chosen (hnot e)
    rw [hheld]
    exact .new hids htm
  · rintro k k' e t t' hk
    cases hk
  · rw [(TaskManager.registerExecutors_eq_ok htm).1]
    rfl

theorem tokens (h : (interleaving ids).Reachable s) : Tokens ids s :=
  h.invariant (fun _ => .init) fun _ _ _ hI hs => hI.next hs

/-! ### Which wakes panic -/

/-- A wake of the task from its call to its push. -/
def wake (k : κ) (t : τ) : List (Label κ τ) :=
  [.call k t, .register k, .register k, .register k]

/-- The executor `0` polls the only task there is. -/
def onePolled : List (Label Unit Unit) :=
  [.call () (), .register (), .register (), .register (), .recv 0, .work (.lock 0),
    .work (.look 0)]

/-- A registration of the task waits or is under way. -/
def Outstanding (s : Interleaving κ τ) (t : τ) : Prop :=
  t ∈ s.tm.waitingTasks.items ∨ ∃ k p, s.caller k = some p ∧ p.task = t

/-- Of the unfinished tasks no more have a registration outstanding than the queue has places. -/
def FewUnfinished (s : Interleaving κ τ) : Prop :=
  ∀ T : Finset τ, (∀ t ∈ T, (s.x.task t).finished = false ∧ s.Outstanding t) →
    T.card ≤ TaskManager.queueBound

/-- A task is woken only while it is unfinished and has no registration outstanding, and its poll
returns `Ready` only while it has none. -/
def Once (s : Interleaving κ τ) : Label κ τ → Prop
  | .call _ t => (s.x.task t).finished = false ∧ ¬ s.Outstanding t
  | .work (.polled e .ready) => ∀ t, s.x.pc e = .polling t → ¬ s.Outstanding t
  | _ => True

/-- Every registration that is outstanding is the only one of its task, and the task is
unfinished. -/
structure Single (s : Interleaving κ τ) : Prop where
  nodup : s.tm.waitingTasks.items.Nodup
  live : ∀ t, s.Outstanding t → (s.x.task t).finished = false
  apart : ∀ k p, s.caller k = some p → p.task ∉ s.tm.waitingTasks.items
  inj : ∀ k k' p p', s.caller k = some p → s.caller k' = some p' → p.task = p'.task → k = k'

omit [DecidableEq κ] [DecidableEq τ] in
theorem Outstanding.mono {t : τ} (h : s'.Outstanding t)
    (hitems : s'.tm.waitingTasks.items ⊆ s.tm.waitingTasks.items)
    (hcaller : ∀ k p, s'.caller k = some p → ∃ k' p', s.caller k' = some p' ∧ p'.task = p.task) :
    s.Outstanding t := by
  rcases h with h | ⟨k, p, hk, rfl⟩
  · exact .inl (hitems h)
  · obtain ⟨k', p', hk', htask⟩ := hcaller k p hk
    exact .inr ⟨k', p', hk', htask⟩

omit [DecidableEq κ] [DecidableEq τ] in
/-- A step that adds no waiting task and no registration, and finishes no task that has one. -/
theorem Single.mono (h : Single s)
    (hitems : s'.tm.waitingTasks.items.Sublist s.tm.waitingTasks.items)
    (hcaller : s'.caller = s.caller)
    (hlive : ∀ t, s.Outstanding t → (s.x.task t).finished = false →
      (s'.x.task t).finished = false) : Single s' where
  nodup := h.nodup.sublist hitems
  live t ht := by
    have hold : s.Outstanding t := ht.mono hitems.subset fun k p hk => by
      rw [hcaller] at hk
      exact ⟨k, p, hk, rfl⟩
    exact hlive t hold (h.live t hold)
  apart k p hk := by
    rw [hcaller] at hk
    exact fun ht => h.apart k p hk (hitems.subset ht)
  inj := by
    rw [hcaller]
    exact h.inj

omit [DecidableEq τ] in
/-- A registration that starts with, or goes on with, a task no other registration is of. -/
theorem Single.setCaller (h : Single s) {k : κ} {p : Option (RegisterPc τ)}
    (hitems : s'.tm.waitingTasks.items = s.tm.waitingTasks.items)
    (hcaller : s'.caller = Function.update s.caller k p)
    (hfinished : ∀ t, (s'.x.task t).finished = (s.x.task t).finished)
    (hp : ∀ p', p = some p' → (s.x.task p'.task).finished = false ∧
      p'.task ∉ s.tm.waitingTasks.items ∧
      ∀ k' q, k' ≠ k → s.caller k' = some q → q.task ≠ p'.task) : Single s' where
  nodup := by rw [hitems]; exact h.nodup
  live t ht := by
    rw [hfinished]
    rcases ht with ht | ⟨k', q, hk', rfl⟩
    · exact h.live t (.inl (hitems ▸ ht))
    · rw [hcaller] at hk'
      by_cases hkk : k' = k
      · rw [hkk, Function.update_self] at hk'
        exact (hp q hk').1
      · rw [Function.update_of_ne hkk] at hk'
        exact h.live _ (.inr ⟨k', q, hk', rfl⟩)
  apart k' q hk' := by
    rw [hcaller] at hk'
    rw [hitems]
    by_cases hkk : k' = k
    · rw [hkk, Function.update_self] at hk'
      exact (hp q hk').2.1
    · rw [Function.update_of_ne hkk] at hk'
      exact h.apart k' q hk'
  inj k₁ k₂ q₁ q₂ h₁ h₂ heq := by
    rw [hcaller] at h₁ h₂
    by_cases hk₁ : k₁ = k <;> by_cases hk₂ : k₂ = k
    · rw [hk₁, hk₂]
    · rw [hk₁, Function.update_self] at h₁
      rw [Function.update_of_ne hk₂] at h₂
      exact absurd heq.symm ((hp q₁ h₁).2.2 k₂ q₂ hk₂ h₂)
    · rw [hk₂, Function.update_self] at h₂
      rw [Function.update_of_ne hk₁] at h₁
      exact absurd heq ((hp q₂ h₂).2.2 k₁ q₁ hk₁ h₁)
    · rw [Function.update_of_ne hk₁] at h₁
      rw [Function.update_of_ne hk₂] at h₂
      exact h.inj k₁ k₂ q₁ q₂ h₁ h₂ heq

omit [DecidableEq τ] in
/-- A registration that ends with its task waiting. -/
theorem Single.push (h : Single s) {k : κ} {p : RegisterPc τ} (hk : s.caller k = some p)
    (hitems : s'.tm.waitingTasks.items = s.tm.waitingTasks.items ++ [p.task])
    (hcaller : s'.caller = Function.update s.caller k none)
    (hfinished : ∀ t, (s'.x.task t).finished = (s.x.task t).finished) : Single s' := by
  have hother : ∀ {k' q}, s'.caller k' = some q → k' ≠ k ∧ s.caller k' = some q := by
    intro k' q hk'
    rw [hcaller] at hk'
    refine ⟨?_, of_update_eq hk' (by simp)⟩
    rintro rfl
    rw [Function.update_self] at hk'
    cases hk'
  refine ⟨?_, fun t ht => ?_, fun k' q hk' => ?_, fun k₁ k₂ q₁ q₂ h₁ h₂ => ?_⟩
  · rw [hitems, List.nodup_append]
    exact ⟨h.nodup, List.nodup_singleton _, fun t ht u hu => by
      rw [List.mem_singleton.1 hu]
      rintro rfl
      exact h.apart k p hk ht⟩
  · rw [hfinished]
    refine h.live t ?_
    rcases ht with ht | ⟨k', q, hk', rfl⟩
    · rw [hitems] at ht
      rcases List.mem_append.1 ht with ht | ht
      · exact .inl ht
      · rw [List.mem_singleton.1 ht]
        exact .inr ⟨k, p, hk, rfl⟩
    · exact .inr ⟨k', q, (hother hk').2, rfl⟩
  · obtain ⟨hkk, hold⟩ := hother hk'
    intro ht
    rw [hitems] at ht
    rcases List.mem_append.1 ht with ht | ht
    · exact h.apart k' q hold ht
    · exact hkk (h.inj k' k q p hold hk (List.mem_singleton.1 ht))
  · exact h.inj k₁ k₂ q₁ q₂ (hother h₁).2 (hother h₂).2

/-- A task that is not finished stays so, unless a poll of it returns `Ready`. -/
theorem finished_next {x x' : Executors τ} {a : Executors.Label} (hx : x.Next a x') {t : τ}
    (h : (x.task t).finished = false)
    (hready : ∀ e, a = .polled e .ready → x.pc e ≠ .polling t) :
    (x'.task t).finished = false := by
  cases hx with
  | die | pass | pending | report | drainPanic => exact h
  | @finish e u hpc =>
    have htu : t ≠ u := by
      rintro rfl
      exact hready e rfl hpc
    simpa [htu] using h
  | @lock e u | @poll e u | @panic e u | @clear e u | @unlock e u | @unwind e u =>
    by_cases htu : t = u
    · subst htu
      simpa using h
    · simpa [htu] using h

theorem Single.next {a : Label κ τ} (h : Single s) (honce : Once s a)
    (hs : s.step a = some s') : Single s' := by
  cases a with
  | call k t =>
    obtain ⟨hfinished, hout⟩ := honce
    cases next_of_step hs with
    | call hk =>
      refine h.setCaller (p := some (.check t)) rfl rfl (fun u => ?_) ?_
      · by_cases hut : u = t
        · subst hut
          simp [Executors.notify]
        · simp [Executors.notify, hut]
      · rintro p ⟨rfl⟩
        exact ⟨hfinished, fun ht => hout (.inl ht),
          fun k' q _ hk' hq => hout (.inr ⟨k', q, hk', hq⟩)⟩
  | register k =>
    obtain ⟨p, tm, a, hk, hstep, rfl⟩ := step_register hs
    obtain ⟨htask, hitems | ⟨hitems, hnone⟩⟩ :=
      RegisterPc.task_next (RegisterPc.next_of_step hstep)
    · refine h.setCaller hitems rfl (fun _ => rfl) fun p' hp' => ?_
      rw [htask p' hp']
      exact ⟨h.live _ (.inr ⟨k, p, hk, rfl⟩), h.apart k p hk,
        fun k' q hkk hk' heq => hkk (h.inj k' k q p hk' hk heq)⟩
    · exact h.push hk hitems (by rw [hnone]) fun _ => rfl
  | ready e =>
    obtain ⟨p, tm, a, he, hstep, rfl⟩ := step_ready hs
    refine h.mono ?_ rfl fun t _ ht => ?_
    · cases ReadyPc.next_of_step hstep with
      | found hpop =>
        rw [hpop]
        exact List.sublist_cons_self _ _
      | _ => exact List.Sublist.refl _
    · cases a <;> exact ht
  | recv e =>
    cases next_of_step hs with
    | recv hpc hrecv | finish hpc hrecv =>
      obtain ⟨ch, ch', -, -, rfl⟩ := TaskManager.recvTask_eq_some hrecv
      exact h.mono (List.Sublist.refl _) rfl fun _ _ => id
  | abort t =>
    cases next_of_step hs
    refine h.mono (List.Sublist.refl _) rfl fun u _ hu => ?_
    by_cases hut : u = t
    · subst hut
      simpa using hu
    · simpa [hut] using hu
  | work b =>
    cases next_of_step hs with
    | work hx =>
      refine h.mono (List.Sublist.refl _) rfl fun t hout ht => ?_
      refine finished_next hx ht ?_
      rintro e rfl hpc
      exact honce t hpc hout
  | enter e =>
    cases next_of_step hs
    exact h.mono (List.Sublist.refl _) rfl fun _ _ => id
  | close e =>
    cases next_of_step hs
    exact h.mono (List.Sublist.refl _) rfl fun _ _ => id

theorem Single.init (h : (interleaving ids).init s) : Single s := by
  obtain ⟨tm, htm, -, rfl⟩ := h
  have hitems : tm.waitingTasks.items = [] := by
    rw [(TaskManager.registerExecutors_eq_ok htm).1]
    rfl
  refine ⟨by simp [hitems], ?_, by simp, by simp⟩
  rintro t (ht | ⟨k, p, hk, -⟩)
  · simp [hitems] at ht
  · cases hk

omit [DecidableEq κ] in
/-- The task at its push and those that wait are different unfinished tasks. -/
theorem Single.room (h : Single s) (hfew : FewUnfinished s) (a : Label κ τ) : Room s a := by
  cases a with
  | register k =>
    intro t hk
    have hnodup : (t :: s.tm.waitingTasks.items).Nodup :=
      List.nodup_cons.2 ⟨h.apart k _ hk, h.nodup⟩
    have hout : ∀ u ∈ (t :: s.tm.waitingTasks.items).toFinset,
        (s.x.task u).finished = false ∧ s.Outstanding u := by
      intro u hu
      have hu' : s.Outstanding u := by
        rcases List.mem_cons.1 (List.mem_toFinset.1 hu) with rfl | hu
        · exact .inr ⟨k, _, hk, rfl⟩
        · exact .inl hu
      exact ⟨h.live u hu', hu'⟩
    have hcard := hfew _ hout
    rw [List.toFinset_card_of_nodup hnodup, List.length_cons] at hcard
    omega
  | _ => trivial

/-- The only task is woken once more while it is polled. -/
def wokenOnce : List (Label Unit Unit) := onePolled ++ wake () ()

omit [DecidableEq κ] in
/-- One task is never too many. -/
theorem fewUnfinished_unit (s : Interleaving κ Unit) : FewUnfinished s := by
  intro T _
  exact (Finset.card_le_univ T).trans (by decide)

instance (s : Interleaving Unit Unit) (t : Unit) : Decidable (s.Outstanding t) :=
  decidable_of_iff (t ∈ s.tm.waitingTasks.items ∨ (s.caller ()).isSome) (by
    simp [Outstanding, Option.isSome_iff_exists, Unique.exists_iff])

instance (s : Interleaving Unit Unit) : ∀ a, Decidable (Once s a)
  | .call _ t => inferInstanceAs (Decidable ((s.x.task t).finished = false ∧ ¬ s.Outstanding t))
  | .work (.polled e .ready) =>
      inferInstanceAs (Decidable (∀ t, s.x.pc e = .polling t → ¬ s.Outstanding t))
  | .work (.polled _ .pending) | .work (.polled _ .panic) | .work (.lock _) | .work (.look _)
  | .work (.clear _) | .work (.unlock _) | .work (.report _) | .work .drainPanic | .register _
  | .abort _ | .recv _ | .enter _ | .ready _ | .close _ => .isTrue trivial

instance (s : Interleaving Unit Unit) (a : Label Unit Unit) :
    Decidable (FewUnfinished s ∧ Once s a) :=
  decidable_of_iff (Once s a) (by simp [fewUnfinished_unit])

end Interleaving

end Hooch
