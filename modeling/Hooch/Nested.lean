import Hooch.Task.Liveness

/-!
# `run_blocking` inside a task

`Handle::run_blocking` may be called by a task while it is polled: the executors have the runtime
in their thread-local cell. The call spawns a task and blocks the executor in `rx.recv()` until the
future of that task has sent its result. All this time the executor keeps the lock of the task that
called.

* `Nested`, `step`, `nested`: the runtime with such calls, nested to any depth;
* `Blocked`: an executor that waits for a result, or for the lock of a task whose poll does;
* `can_move_iff`: as long as a task is to be delivered and nobody has its lock, an executor can
  move exactly if not all of them are blocked;
* `blocked_for_ever`: when they all are, and the futures they wait for are queued, in a channel or
  with an executor, no executor ever takes a step again;
* `one_call_blocks_all`: for any number of executors one call is enough.
-/

namespace Hooch

open TransitionSystem

/-- What a task is. -/
inductive TaskKind
  | absent
  | spawned
  /-- Made by `run_blocking`; its future sends the result last. -/
  | blocking
  deriving DecidableEq

/-- The runtime and the calls of `run_blocking` that its tasks have made. -/
structure Nested (τ : Type*) where
  rt : Runtime τ
  kind : τ → TaskKind
  /-- The task for whose result the executor waits in `rx.recv()`. -/
  waits : ExecutorId → Option τ
  /-- The future of the task has sent its result. -/
  sent : τ → Bool

namespace Nested

/-- Who moves. -/
inductive Label (τ : Type*)
  | base (a : Runtime.Label τ)
  /-- The task that the executor polls calls `run_blocking`, which spawns the task `v`. -/
  | call (e : ExecutorId) (v : τ)
  /-- The future that the executor polls sends its result. -/
  | send (e : ExecutorId)
  /-- `rx.recv()` returns the result. -/
  | resume (e : ExecutorId)
  /-- `rx.recv()` fails, and the poll of the task that called panics. -/
  | fail (e : ExecutorId)

variable {τ : Type*} [DecidableEq τ]

/-- A future that `run_blocking` has made ends its last poll after the send. -/
def MayFinish (s : Nested τ) : ExecutorPc τ → Prop
  | .polling v => s.kind v = .blocking → s.sent v = true
  | _ => True

instance (s : Nested τ) : (p : ExecutorPc τ) → Decidable (s.MayFinish p)
  | .polling v => inferInstanceAs (Decidable (s.kind v = .blocking → s.sent v = true))
  | .recv | .received _ | .locked _ | .finishing _ | .unlocking _ | .unwinding _ | .reporting
  | .ready | .stopped | .dead | .gone => .isTrue trivial

/-- The steps of the runtime that the calls leave: no poll ends while its executor waits for a
result, and nobody has the abort flag of a task that `run_blocking` made. -/
def Allows (s : Nested τ) : Runtime.Label τ → Prop
  | .work (.polled e o) => s.waits e = none ∧ (o = .ready → s.MayFinish (s.rt.x.pc e))
  | .abort u => s.kind u ≠ .blocking
  | _ => True

instance (s : Nested τ) : (a : Runtime.Label τ) → Decidable (s.Allows a)
  | .work (.polled e o) =>
      inferInstanceAs (Decidable (s.waits e = none ∧ (o = .ready → s.MayFinish (s.rt.x.pc e))))
  | .abort u => inferInstanceAs (Decidable (s.kind u ≠ .blocking))
  | .register _ | .recv _ | .ready _ | .close _ | .work (.lock _) | .work (.look _)
  | .work (.clear _) | .work (.unlock _) | .work (.report _) | .work .drainPanic => .isTrue trivial

/-- A task that is registered for the first time is one that was spawned. -/
def kindAfter (s : Nested τ) : Runtime.Label τ → τ → TaskKind
  | .register u => if s.kind u = .absent then Function.update s.kind u .spawned else s.kind
  | _ => s.kind

/-- Somebody in the runtime has the task: it is to be delivered, or an executor polls it. -/
def Held (ids : List ExecutorId) (rt : Runtime τ) (v : τ) : Prop :=
  v ∈ rt.tm.waitingTasks.items ∨ ∃ e ∈ ids, .task v ∈ rt.tm.inbox e ∨ rt.x.pc e = .received v ∨
    rt.x.pc e = .locked v ∨ rt.x.pc e = .polling v

instance (ids : List ExecutorId) (rt : Runtime τ) (v : τ) : Decidable (Held ids rt v) :=
  inferInstanceAs (Decidable (_ ∨ ∃ e ∈ ids, _))

/-- One step. A call whose registration fails is a poll that panics. The sender of a result is gone
when the future has panicked; also when nobody has the task, unless a waker of it is kept. -/
def step (ids : List ExecutorId) (s : Nested τ) : Label τ → Option (Nested τ)
  | .base a =>
      if s.Allows a then (s.rt.step a).map fun rt => { s with rt := rt, kind := s.kindAfter a }
      else none
  | .call e v =>
      match s.rt.x.pc e with
      | .polling _ =>
          if s.waits e = none ∧ s.kind v = .absent ∧ s.rt.Registers v then
            (s.rt.step (.register v)).map fun rt => { s with
              rt := rt
              kind := Function.update s.kind v .blocking
              waits := Function.update s.waits e (some v) }
          else none
      | _ => none
  | .send e =>
      match s.rt.x.pc e with
      | .polling v =>
          if s.waits e = none ∧ s.kind v = .blocking then
            some { s with sent := Function.update s.sent v true }
          else none
      | _ => none
  | .resume e =>
      match s.waits e with
      | some v =>
          if s.sent v then some { s with waits := Function.update s.waits e none } else none
      | none => none
  | .fail e =>
      match s.waits e with
      | some v =>
          if s.sent v = false ∧ ((s.rt.x.task v).panicked = true ∨ ¬ Held ids s.rt v) then
            (s.rt.step (.work (.polled e .panic))).map fun rt =>
              { s with rt := rt, waits := Function.update s.waits e none }
          else none
      | none => none

end Nested

/-- The runtime with the executors `ids`, before the first task. -/
def nested {τ : Type*} [DecidableEq τ] (ids : List ExecutorId) :
    TransitionSystem (Nested τ) (Nested.Label τ) where
  init s := (runtime ids).init s.rt ∧
    s = ⟨s.rt, fun _ => .absent, fun _ => none, fun _ => false⟩
  step := Nested.step ids

namespace Nested

variable {τ : Type*} [DecidableEq τ] {ids : List ExecutorId} {s s' : Nested τ} {a : Label τ}
  {e : ExecutorId} {v : τ}

/-- The executor whose step it is. -/
def Label.mover : Label τ → Option ExecutorId
  | .base a => a.mover
  | .call e _ | .send e | .resume e | .fail e => some e

/-- What a step does, one case each. -/
inductive Next (ids : List ExecutorId) (s : Nested τ) : Label τ → Nested τ → Prop
  | base {a : Runtime.Label τ} {rt : Runtime τ} (hallows : s.Allows a)
      (hs : s.rt.step a = some rt) :
      Next ids s (.base a) { s with rt := rt, kind := s.kindAfter a }
  | call {e : ExecutorId} {u v : τ} {rt : Runtime τ} (hpc : s.rt.x.pc e = .polling u)
      (hwaits : s.waits e = none) (hkind : s.kind v = .absent) (hreg : s.rt.Registers v)
      (hs : s.rt.step (.register v) = some rt) :
      Next ids s (.call e v) { s with
        rt := rt
        kind := Function.update s.kind v .blocking
        waits := Function.update s.waits e (some v) }
  | send {e : ExecutorId} {v : τ} (hpc : s.rt.x.pc e = .polling v) (hwaits : s.waits e = none) :
      Next ids s (.send e) { s with sent := Function.update s.sent v true }
  | resume {e : ExecutorId} {v : τ} (hwaits : s.waits e = some v) (hsent : s.sent v = true) :
      Next ids s (.resume e) { s with waits := Function.update s.waits e none }
  | fail {e : ExecutorId} {v : τ} {rt : Runtime τ} (hwaits : s.waits e = some v)
      (hgone : (s.rt.x.task v).panicked = true ∨ ¬ Held ids s.rt v)
      (hs : s.rt.step (.work (.polled e .panic)) = some rt) :
      Next ids s (.fail e) { s with rt := rt, waits := Function.update s.waits e none }

theorem next_of_step (h : s.step ids a = some s') : Next ids s a s' := by
  cases a with
  | base a =>
    simp only [step, Option.ite_none_right_eq_some, Option.map_eq_some_iff] at h
    obtain ⟨hallows, rt, hrt, rfl⟩ := h
    exact .base hallows hrt
  | call e v =>
    simp only [step] at h
    split at h
    · rename_i u hpc
      simp only [Option.ite_none_right_eq_some, Option.map_eq_some_iff] at h
      obtain ⟨⟨hwaits, hkind, hreg⟩, rt, hrt, rfl⟩ := h
      exact .call hpc hwaits hkind hreg hrt
    · cases h
  | send e =>
    simp only [step] at h
    split at h
    · rename_i v hpc
      simp only [Option.ite_none_right_eq_some, Option.some.injEq] at h
      obtain ⟨⟨hwaits, -⟩, rfl⟩ := h
      exact .send hpc hwaits
    · cases h
  | resume e =>
    simp only [step] at h
    split at h
    · rename_i v hwaits
      simp only [Option.ite_none_right_eq_some, Option.some.injEq] at h
      obtain ⟨hsent, rfl⟩ := h
      exact .resume hwaits hsent
    · cases h
  | fail e =>
    simp only [step] at h
    split at h
    · rename_i v hwaits
      simp only [Option.ite_none_right_eq_some, Option.map_eq_some_iff] at h
      obtain ⟨⟨-, hgone⟩, rt, hrt, rfl⟩ := h
      exact .fail hwaits hgone hrt
    · cases h

/-! ### What holds in every run -/

/-- The invariant of the runtime, and whoever waits for a result polls a task. -/
structure Ok (ids : List ExecutorId) (s : Nested τ) : Prop where
  invariant : Runtime.Invariant ids s.rt
  polling : ∀ e v, s.waits e = some v → ∃ u, s.rt.x.pc e = .polling u

/-- What a step is for the runtime. -/
def runtimeLabel (_ : Nested τ) : Label τ → Option (Runtime.Label τ)
  | .base a => some a
  | .call _ v => some (.register v)
  | .send _ | .resume _ => none
  | .fail e => some (.work (.polled e .panic))

theorem runsOn : RunsOn (nested ids) (runtime ids) Nested.rt (runtimeLabel (τ := τ)) where
  init _ h := h.1
  rests s l s' hs hl := by
    cases next_of_step hs with
    | send | resume => rfl
    | _ => cases hl
  steps s l s' b hs hl := by
    cases next_of_step hs with
    | base _ hrt | call _ _ _ _ hrt | fail _ _ hrt =>
      cases hl
      exact hrt
    | _ => cases hl

/-- In the poll of a task an executor stays until the poll ends. -/
theorem polling_stays {rt rt' : Runtime τ} {b : Runtime.Label τ} {u : τ}
    (hpc : rt.x.pc e = .polling u) (hs : rt.step b = some rt')
    (hends : ∀ o, b ≠ .work (.polled e o)) : rt'.x.pc e = .polling u := by
  have hnext := Runtime.next_of_step hs
  by_cases hm : Runtime.Moves e b
  · have hturn := Runtime.isTurn_of_moves hnext hm
    rw [hpc] at hturn
    obtain ⟨o, rfl⟩ := hturn
    exact absurd rfl (hends o)
  · rw [Runtime.pc_of_not_moves hnext hm, hpc]

theorem Ok.next (h : Ok ids s) (hn : Next ids s a s') : Ok ids s' := by
  cases hn with
  | base hallows hs =>
    refine ⟨h.invariant.next (Runtime.next_of_step hs), fun e v hv => ?_⟩
    obtain ⟨u, hu⟩ := h.polling e v hv
    refine ⟨u, polling_stays hu hs ?_⟩
    rintro o rfl
    rw [hallows.1] at hv
    cases hv
  | @call e u v rt hpc hwaits _ _ hs =>
    refine ⟨h.invariant.next (Runtime.next_of_step hs), fun e' v' hv' => ?_⟩
    by_cases he : e' = e
    · subst he
      exact ⟨u, polling_stays hpc hs (by simp)⟩
    · obtain ⟨u', hu'⟩ := h.polling e' v' (by simpa [he] using hv')
      exact ⟨u', polling_stays hu' hs (by simp)⟩
  | send => exact ⟨h.invariant, h.polling⟩
  | @resume e v hwaits =>
    refine ⟨h.invariant, fun e' v' hv' => h.polling e' v' ?_⟩
    by_cases he : e' = e
    · subst he
      simp at hv'
    · simpa [he] using hv'
  | @fail e v rt _ _ hs =>
    refine ⟨h.invariant.next (Runtime.next_of_step hs), fun e' v' hv' => ?_⟩
    by_cases he : e' = e
    · subst he
      simp at hv'
    · obtain ⟨u', hu'⟩ := h.polling e' v' (by simpa [he] using hv')
      refine ⟨u', polling_stays hu' hs ?_⟩
      rintro o ho
      cases ho
      exact he rfl

theorem ok {C : Nested τ → Label τ → Prop} (h : (nested ids).ReachableUnder C s) : Ok ids s := by
  refine h.invariant ?_ fun _ _ _ hok _ hs => hok.next (next_of_step hs)
  rintro s ⟨hrt, hs⟩
  refine ⟨.init hrt, fun e v hv => ?_⟩
  rw [hs] at hv
  cases hv

/-- Only executors of `ids` move. -/
theorem Ok.mem_ids (h : Ok ids s) (hn : Next ids s a s') (ha : a.mover = some e) : e ∈ ids := by
  have hbal := h.invariant.accounted.balanced
  have hpolling : ∀ {u}, s.rt.x.pc e = .polling u → e ∈ ids := fun hpc =>
    (hbal.holding (e := e) (by simp [hpc, Runtime.busy])).1
  cases hn with
  | @base b rt _ hs =>
    have hnext := Runtime.next_of_step hs
    have hturn := Runtime.isTurn_of_moves hnext ha
    cases hpc : s.rt.x.pc e with
    | recv =>
      rw [hpc] at hturn
      obtain rfl : b = .recv e := hturn
      have htok := hbal.tokens e
      by_contra hids
      rw [if_neg hids] at htok
      cases hnext with
      | recv _ hrecv | finish _ hrecv =>
        rw [(hbal.recv hrecv).2.2.1] at htok
        simp at htok
    | stopped =>
      rw [hpc] at hturn
      exact False.elim hturn
    | _ => exact (hbal.holding (e := e) (by simp [hpc, Runtime.busy])).1
  | call hpc | send hpc =>
    cases ha
    exact hpolling hpc
  | resume hwaits | fail hwaits =>
    cases ha
    exact hpolling (h.polling _ _ hwaits).choose_spec

/-! ### Executors that are blocked -/

/-- The executor waits for a result that was not sent. -/
def Waits (s : Nested τ) (e : ExecutorId) : Prop := ∃ v, s.waits e = some v ∧ s.sent v = false

/-- The executor waits for a result, or for the lock of a task whose poll waits for one. -/
def Blocked (s : Nested τ) (e : ExecutorId) : Prop :=
  s.Waits e ∨
    ∃ u e', s.rt.x.pc e = .received u ∧ (s.rt.x.task u).owner = some e' ∧ s.Waits e'

/-- Nobody but who fails moves when all are blocked. -/
theorem Ok.fail_of_blocked (h : Ok ids s) (hall : ∀ e ∈ ids, s.Blocked e) (hn : Next ids s a s')
    (ha : a.mover = some e) : a = .fail e := by
  rcases hall e (h.mem_ids hn ha) with ⟨v, hv, hsent⟩ | ⟨u, e', hpc, howner, -⟩
  · obtain ⟨u, hpc⟩ := h.polling e v hv
    cases hn with
    | @base b rt hallows hs =>
      have hturn := Runtime.isTurn_of_moves (Runtime.next_of_step hs) ha
      rw [hpc] at hturn
      obtain ⟨o, rfl⟩ := hturn
      have := hv.symm.trans hallows.1
      cases this
    | call _ hwaits | send _ hwaits =>
      cases ha
      have := hv.symm.trans hwaits
      cases this
    | resume hwaits hs =>
      cases ha
      obtain rfl := Option.some.inj (hv.symm.trans hwaits)
      exact absurd (hsent.symm.trans hs) (by simp)
    | fail =>
      cases ha
      rfl
  · cases hn with
    | @base b rt _ hs =>
      have hnext := Runtime.next_of_step hs
      have hturn := Runtime.isTurn_of_moves hnext ha
      rw [hpc] at hturn
      obtain rfl : b = .work (.lock e) := hturn
      cases hnext with
      | work hx =>
        cases hx with
        | die hpc' hnone | lock hpc' hnone =>
          rw [hpc] at hpc'
          cases hpc'
          rw [howner] at hnone
          cases hnone
    | call hpc' | send hpc' =>
      cases ha
      have := hpc.symm.trans hpc'
      cases this
    | resume hwaits | fail hwaits =>
      cases ha
      obtain ⟨u', hpc'⟩ := h.polling _ _ hwaits
      have := hpc.symm.trans hpc'
      cases this

/-! ### When somebody can move -/

/-- Every registration goes through, no poll panics, and no call fails. -/
def Calm (s : Nested τ) : Label τ → Prop
  | .base a => s.rt.Smooth a
  | .call _ v => s.rt.Registers v
  | .send _ | .resume _ => True
  | .fail _ => False

instance (s : Nested τ) : (a : Label τ) → Decidable (s.Calm a)
  | .base a => inferInstanceAs (Decidable (s.rt.Smooth a))
  | .call _ v => inferInstanceAs (Decidable (s.rt.Registers v))
  | .send _ | .resume _ => .isTrue trivial
  | .fail _ => .isFalse id

/-- The executor can make a step, and not by a failing call. -/
def CanMove (ids : List ExecutorId) (s : Nested τ) (e : ExecutorId) : Prop :=
  ∃ a, a.mover = some e ∧ s.Calm a ∧ (s.step ids a).isSome

theorem serving (h : (nested ids).ReachableUnder Calm s) : Runtime.Serving ids s.rt := by
  refine Runtime.serving (runsOn.reachableUnder (fun s a b hc hb => ?_) h)
  cases a with
  | base a =>
    cases hb
    exact hc
  | call e v =>
    cases hb
    exact hc
  | send e | resume e => cases hb
  | fail e => exact False.elim hc

omit [DecidableEq τ] in
/-- Who does not wait for a result has nobody to wait for, or the result is there. -/
theorem sent_of_not_waits (h : ¬ s.Waits e) :
    s.waits e = none ∨ ∃ v, s.waits e = some v ∧ s.sent v = true := by
  cases hv : s.waits e with
  | none => exact .inl rfl
  | some v =>
    refine .inr ⟨v, rfl, ?_⟩
    by_contra hsent
    exact h ⟨v, hv, by simpa using hsent⟩

theorem canMove_of_polling {u : τ} (hpc : s.rt.x.pc e = .polling u) (hnot : ¬ s.Waits e) :
    CanMove ids s e := by
  rcases sent_of_not_waits hnot with hv | ⟨v, hv, hsent⟩
  · refine ⟨.base (.work (.polled e .pending)), rfl, rfl, ?_⟩
    simp [step, Allows, hv, Runtime.step, Executors.step, hpc]
  · exact ⟨.resume e, rfl, trivial, by simp [step, hv, hsent]⟩

/-- Outside a poll the executors move as they do in the runtime. -/
theorem canMove_of_canMove (h : Runtime.CanMove s.rt e) (hpc : ∀ u, s.rt.x.pc e ≠ .polling u) :
    CanMove ids s e := by
  have henabled : (runtime ids).Enabled (Runtime.Moves e) s.rt := Runtime.enabled_of_canMove h
  obtain ⟨b, hb, hsome⟩ := henabled
  have hnot : ∀ o, b ≠ .work (.polled e o) := by
    rintro o rfl
    obtain ⟨rt, hrt⟩ := Option.isSome_iff_exists.1 hsome
    have hrt' : s.rt.step (.work (.polled e o)) = some rt := hrt
    have hnext := Runtime.next_of_step hrt'
    have hturn := Runtime.isTurn_of_moves hnext hb
    cases hp : s.rt.x.pc e with
    | polling u => exact hpc u hp
    | _ => simp [hp, Runtime.IsTurn] at hturn
  refine ⟨.base b, hb, ?_, ?_⟩
  · cases b with
    | register | abort => cases hb
    | work c =>
      cases c with
      | polled e' o =>
        obtain rfl : e' = e := Option.some.inj hb
        exact absurd rfl (hnot o)
      | _ => rfl
    | _ => trivial
  · have hallows : s.Allows b := by
      cases b with
      | register | abort => cases hb
      | work c =>
        cases c with
        | polled e' o =>
          obtain rfl : e' = e := Option.some.inj hb
          exact absurd rfl (hnot o)
        | _ => trivial
      | _ => trivial
    simpa [step, runtime, hallows] using hsome

theorem canMove_of_holds (h : Runtime.Serving ids s.rt) {u : τ}
    (he : (s.rt.x.pc e).holds = some u) (hnot : ¬ s.Waits e) : CanMove ids s e := by
  by_cases hpc : ∃ w, s.rt.x.pc e = .polling w
  · obtain ⟨w, hw⟩ := hpc
    exact canMove_of_polling hw hnot
  · exact canMove_of_canMove (h.canMove_of_holds he) (not_exists.1 hpc)

/-- An executor that is at work and not blocked can move, or waits for the lock of one that can. -/
theorem exists_canMove_of_busy (h : Runtime.Serving ids s.rt) (hpc : s.rt.x.pc e ≠ .recv)
    (hnot : ¬ s.Blocked e) : ∃ e', CanMove ids s e' := by
  have hwaits : ¬ s.Waits e := fun hw => hnot (.inl hw)
  cases hp : s.rt.x.pc e with
  | recv => exact absurd hp hpc
  | received u =>
    cases howner : (s.rt.x.task u).owner with
    | none =>
      refine ⟨e, canMove_of_canMove ?_ (by simp [hp])⟩
      simpa only [Runtime.CanMove, hp] using howner
    | some e' =>
      refine ⟨e', canMove_of_holds h ((h.invariant.ok.owner e' u).2 howner) fun hw => ?_⟩
      exact hnot (.inr ⟨u, e', hp, howner, hw⟩)
  | polling u => exact ⟨e, canMove_of_polling hp hwaits⟩
  | _ =>
    refine ⟨e, canMove_of_canMove ?_ (by simp [hp])⟩
    have hduty := h.onDuty e
    simpa only [Runtime.CanMove, hp] using hduty

/-- An executor whose channel holds a task can move. -/
theorem canMove_of_inbox (h : Runtime.Serving ids s.rt) (hinbox : s.rt.tm.inbox e ≠ []) :
    CanMove ids s e := by
  have htok := h.invariant.accounted.balanced.tokens e
  have hlen := List.length_pos_of_ne_nil hinbox
  have hduty := h.onDuty e
  have hpc : s.rt.x.pc e = .recv := by
    cases hp : s.rt.x.pc e with
    | recv => rfl
    | stopped => simp [hp, Runtime.OnDuty, Runtime.stepsLeft] at hduty
    | _ =>
      simp only [Function.comp_apply, hp, Runtime.busy] at htok
      split at htok <;> omega
  refine canMove_of_canMove ?_ (by simp [hpc])
  simpa only [Runtime.CanMove, hpc] using hinbox

/-- As long as no call fails and no poll panics, and some task is to be delivered whose lock nobody
has: an executor can move exactly if not all of them are blocked. -/
theorem can_move_iff (h : (nested ids).ReachableUnder Calm s) {t : τ}
    (hdue : Runtime.Due (s.rt.x.task t)) (hfree : (s.rt.x.task t).owner = none) :
    (∃ e, CanMove ids s e) ↔ ∃ e ∈ ids, ¬ s.Blocked e := by
  have hserving := serving h
  constructor
  · rintro ⟨e, a, ha, hcalm, hsome⟩
    by_contra hall
    push Not at hall
    obtain ⟨s', hs⟩ := Option.isSome_iff_exists.1 hsome
    obtain rfl := (ok h).fail_of_blocked hall (next_of_step hs) ha
    exact hcalm
  · rintro ⟨e, he, hnot⟩
    by_cases hpc : s.rt.x.pc e = .recv
    swap
    · exact exists_canMove_of_busy hserving hpc hnot
    by_cases hinbox : s.rt.tm.inbox e = []
    swap
    · exact ⟨e, canMove_of_inbox hserving hinbox⟩
    -- The executor waits for a task, so no task waits for an executor.
    have htok := hserving.invariant.accounted.balanced.tokens e
    rw [if_pos he, hinbox] at htok
    simp only [Function.comp_apply, hpc, Runtime.busy, List.length_nil, add_zero] at htok
    have hwaiting : s.rt.tm.waitingTasks.items = [] := by
      by_contra hne
      rw [hserving.conserving hne] at htok
      simp at htok
    rcases hserving.delivered t hdue with hw | ⟨e', he'⟩ | ⟨e', hr | hl⟩
    · rw [hwaiting] at hw
      cases hw
    · exact ⟨e', canMove_of_inbox hserving (List.ne_nil_of_mem he')⟩
    · refine ⟨e', canMove_of_canMove ?_ (by simp [hr])⟩
      simpa only [Runtime.CanMove, hr] using hfree
    · have howner := (hserving.invariant.ok.owner e' t).1 (by rw [hl]; rfl)
      rw [hfree] at howner
      cases howner

/-- A task that is polled on the only executor calls `run_blocking`. -/
def calledOnce : List (Label ℕ) :=
  [.base (.register 5), .base (.recv 0), .base (.work (.lock 0)), .base (.work (.look 0)),
    .call 0 7]

theorem can_move_iff_calledOnce : ∃ s : Nested ℕ, s.waits 0 = some 7 ∧
    ((∃ e, CanMove [0] s e) ↔ ∃ e ∈ [0], ¬ s.Blocked e) := by
  obtain ⟨s, hs, hwaits, htask⟩ := exists_reachableUnder (C := Calm)
    (s := ⟨⟨_, .new, []⟩, fun _ => .absent, fun _ => none, fun _ => false⟩)
    (S := nested [0]) ⟨⟨_, rfl, by decide, rfl⟩, rfl⟩ calledOnce
    (p := fun s => s.waits 0 = some 7 ∧
      s.rt.x.task 7 = ⟨none, false, true, false, true, false, false⟩) (by decide)
  refine ⟨s, hwaits, can_move_iff hs (t := 7) ?_ (by rw [htask])⟩
  rw [htask]
  exact ⟨rfl, rfl, rfl, rfl⟩

/-! ### A deadlock -/

/-- All executors are blocked, and the futures whose results they wait for have not panicked and are
in the hands of the runtime. -/
structure Stuck (ids : List ExecutorId) (s : Nested τ) : Prop where
  ok : Ok ids s
  blocked : ∀ e ∈ ids, s.Blocked e
  kept : ∀ e v, s.waits e = some v →
    (s.rt.x.task v).panicked = false ∧ Held ids s.rt v

/-- What a step leaves that no executor makes. -/
structure Quiet (rt rt' : Runtime τ) : Prop where
  pc : rt'.x.pc = rt.x.pc
  owner : ∀ u, (rt'.x.task u).owner = (rt.x.task u).owner
  panicked : ∀ u, (rt'.x.task u).panicked = (rt.x.task u).panicked
  waiting : rt.tm.waitingTasks.items ⊆ rt'.tm.waitingTasks.items
  inbox : ∀ e, rt.tm.inbox e ⊆ rt'.tm.inbox e

theorem quiet_of_mover {rt rt' : Runtime τ} {b : Runtime.Label τ} (hb : b.mover = none)
    (hs : Runtime.Next rt b rt') : Quiet rt rt' := by
  have htask : ∀ (x : Executors τ) (u : τ) (k : Task) (w : τ), k.owner = (x.task u).owner →
      k.panicked = (x.task u).panicked → ((x.setTask u k).task w).owner = (x.task w).owner ∧
        ((x.setTask u k).task w).panicked = (x.task w).panicked := by
    intro x u k w howner hpanicked
    by_cases hw : w = u
    · subst hw
      simpa using ⟨howner, hpanicked⟩
    · simp [hw]
  cases hs with
  | @registered u tm log hreg =>
    have hk := htask rt.x u { rt.x.task u with notified := true }
    exact ⟨rfl, fun w => (hk w rfl rfl).1, fun w => (hk w rfl rfl).2, hreg.mono.1, hreg.mono.2⟩
  | @registerFault u =>
    have hk := htask rt.x u { rt.x.task u with notified := true }
    exact ⟨rfl, fun w => (hk w rfl rfl).1, fun w => (hk w rfl rfl).2, List.Subset.refl _,
      fun _ => List.Subset.refl _⟩
  | @abort u =>
    have hk := htask rt.x u { rt.x.task u with abort := true }
    exact ⟨rfl, fun w => (hk w rfl rfl).1, fun w => (hk w rfl rfl).2, List.Subset.refl _,
      fun _ => List.Subset.refl _⟩
  | work hx =>
    cases hx with
    | drainPanic =>
      exact ⟨rfl, fun _ => rfl, fun _ => rfl, List.Subset.refl _, fun _ => List.Subset.refl _⟩
    | _ => cases hb
  | _ => cases hb

omit [DecidableEq τ] in
theorem Quiet.held {rt rt' : Runtime τ} (h : Quiet rt rt') (hv : Held ids rt v) :
    Held ids rt' v := by
  rcases hv with hw | ⟨e, he, hi | hp⟩
  · exact .inl (h.waiting hw)
  · exact .inr ⟨e, he, .inl (h.inbox e hi)⟩
  · rw [← h.pc] at hp
    exact .inr ⟨e, he, .inr hp⟩

/-- Only who is no executor moves, and leaves all as it is. -/
theorem Stuck.next (h : Stuck ids s) (hn : Next ids s a s') :
    a.mover = none ∧ s'.rt.x.pc = s.rt.x.pc ∧ s'.waits = s.waits ∧ Stuck ids s' := by
  have hmover : a.mover = none := by
    cases ha : a.mover with
    | none => rfl
    | some e =>
      obtain rfl := h.ok.fail_of_blocked h.blocked hn ha
      cases hn with
      | fail hwaits hgone =>
        obtain ⟨hpanicked, hheld⟩ := h.kept _ _ hwaits
        rcases hgone with hp | hnot
        · exact absurd (hpanicked.symm.trans hp) (by simp)
        · exact absurd hheld hnot
  have hok := h.ok.next hn
  cases hn with
  | base _ hs =>
    have hquiet := quiet_of_mover hmover (Runtime.next_of_step hs)
    refine ⟨hmover, hquiet.pc, rfl, hok, fun e he => ?_, fun e v hv => ?_⟩
    · refine (h.blocked e he).imp_right ?_
      rintro ⟨u, e', hpc, howner, hw⟩
      exact ⟨u, e', (congrFun hquiet.pc e).trans hpc, (hquiet.owner u).trans howner, hw⟩
    · obtain ⟨hpanicked, hheld⟩ := h.kept e v hv
      exact ⟨(hquiet.panicked v).trans hpanicked, hquiet.held hheld⟩
  | _ => cases hmover

theorem Stuck.run (h : Stuck ids s) {as : List (Label τ)} (hrun : (nested ids).run s as = some s') :
    (∀ a ∈ as, a.mover = none) ∧ s'.rt.x.pc = s.rt.x.pc ∧ s'.waits = s.waits := by
  induction as generalizing s with
  | nil =>
    cases hrun
    exact ⟨fun _ ha => (by cases ha), rfl, rfl⟩
  | cons a as ih =>
    rw [TransitionSystem.run_cons, Option.bind_eq_some_iff] at hrun
    obtain ⟨t, ht, hrun⟩ := hrun
    obtain ⟨hmover, hpc, hwaits, hstuck⟩ := h.next (next_of_step ht)
    obtain ⟨hmovers, hpc', hwaits'⟩ := ih hstuck hrun
    refine ⟨?_, hpc'.trans hpc, hwaits'.trans hwaits⟩
    rintro b hb
    rcases List.mem_cons.1 hb with rfl | hb
    · exact hmover
    · exact hmovers b hb

/-! ### One call blocks all executors -/

omit [DecidableEq τ] in
/-- The first executor that waits gets the next task that is registered. -/
theorem registers_of_waiting {tm : TaskManager τ} {gone : ExecutorId → Bool}
    {held : ExecutorId → ℕ} {has_aborted : τ → Bool} {t : τ} {rest : List ExecutorId}
    (h : tm.Balanced ids gone held) (hitems : tm.waitingExecutors.items = e :: rest)
    (ht : has_aborted t = false) :
    ∃ tm' log tm'', tm.registerOrExecute has_aborted t = .ok (tm', log) ∧
      tm'.recvTask e = some (.task t, tm'') ∧ tm''.waitingExecutors.items = rest ∧
      tm''.waitingTasks = tm.waitingTasks := by
  cases hreg : tm.registerOrExecute has_aborted t with
  | error f =>
    obtain ⟨-, -, hnone, -⟩ := h.register_fault hreg
    rw [BoundedQueue.pop_eq_none_iff, hitems] at hnone
    cases hnone
  | ok p =>
    obtain ⟨tm', log⟩ := p
    cases TaskManager.registration hreg with
    | skipped ha =>
      rw [ht] at ha
      cases ha
    | queued _ q hnone =>
      rw [hitems] at hnone
      cases hnone
    | sent _ exec q ch ch' hpop hch hsend =>
      obtain ⟨hpopped, -⟩ := BoundedQueue.pop_eq_some hpop
      rw [hitems] at hpopped
      obtain ⟨rfl, hrest⟩ := List.cons.inj hpopped
      have hempty : ch.items = [] := by
        rw [← TaskManager.inbox_eq hch]
        exact (h.waiting (e := e) (by simp [hitems])).2.1
      obtain ⟨-, -, -, hsent⟩ := SyncChannel.send_eq_ok hsend
      rw [hempty, List.nil_append] at hsent
      cases hrecv : ch'.recv with
      | none =>
        rw [SyncChannel.recv_eq_none_iff, hsent] at hrecv
        cases hrecv
      | some p =>
        obtain ⟨x, ch''⟩ := p
        obtain ⟨hx, -⟩ := SyncChannel.recv_eq_some hrecv
        rw [hsent] at hx
        obtain ⟨rfl, -⟩ := List.cons.inj hx
        refine ⟨_, _, { tm with
          waitingExecutors := q
          executors := Function.update tm.executors e (some ch'') }, rfl, ?_, hrest.symm, rfl⟩
        simp [TaskManager.recvTask, hrecv]

/-- Up to the call: the executors of `rest` wait for a task, one polls `t`, and all others have
received `t`. -/
structure Gathered (ids : List ExecutorId) (t v : τ) (e : ExecutorId) (rest : List ExecutorId)
    (s : Nested τ) : Prop where
  reached : (nested ids).ReachableUnder Calm s
  fresh : s.kind v = .absent ∧ s.waits = (fun _ => none) ∧ s.sent = fun _ => false
  abort : (s.rt.x.task t).abort = false ∧ (s.rt.x.task v).abort = false
  polling : e ∈ ids ∧ s.rt.x.pc e = .polling t
  waiting : s.rt.tm.waitingExecutors.items = rest
  tasks : s.rt.tm.waitingTasks = .empty TaskManager.queueBound
  received : ∀ e' ∈ ids, e' = e ∨ e' ∈ rest ∨ s.rt.x.pc e' = .received t

theorem base_next (h : (nested ids).ReachableUnder Calm s) {b : Runtime.Label τ} {rt : Runtime τ}
    (hs : s.rt.step b = some rt) (hallows : s.Allows b) (hsmooth : s.rt.Smooth b) :
    (nested ids).ReachableUnder Calm { s with rt := rt, kind := s.kindAfter b } :=
  .step h (a := .base b) hsmooth (by simp [nested, step, hallows, hs])

theorem kindAfter_of_ne {u : τ} (h : v ≠ u) : s.kindAfter (.register u) v = s.kind v := by
  simp only [kindAfter]
  split
  · exact Function.update_of_ne h _ _
  · rfl

/-- The task is registered once more, and the first executor that waits receives it. -/
theorem receive (h : (nested ids).ReachableUnder Calm s) {t : τ} {rest : List ExecutorId}
    (hitems : s.rt.tm.waitingExecutors.items = e :: rest) (ht : (s.rt.x.task t).abort = false) :
    ∃ tm, tm.waitingExecutors.items = rest ∧ tm.waitingTasks = s.rt.tm.waitingTasks ∧
      (nested ids).ReachableUnder Calm { s with
        rt := ⟨tm, (s.rt.x.notify t).setPc e (.received t), s.rt.faults⟩
        kind := s.kindAfter (.register t) } := by
  have hserving := serving h
  have hbal := hserving.invariant.accounted.balanced
  obtain ⟨tm', log, tm'', hreg, hrecv, hrest, htasks⟩ :=
    registers_of_waiting hbal hitems (show s.rt.hasAborted t = false from ht)
  have hpc : s.rt.x.pc e = .recv := by
    have hduty := hserving.onDuty e
    have hbusy := (hbal.waiting (e := e) (by simp [hitems])).2.2
    cases hp : s.rt.x.pc e with
    | recv => rfl
    | stopped => simp [hp, Runtime.OnDuty, Runtime.stepsLeft] at hduty
    | _ => simp [hp, Runtime.busy] at hbusy
  have hregisters : s.rt.Registers t := by rw [Runtime.Registers, hreg]; rfl
  have hfirst : s.rt.step (.register t) = some ⟨tm', s.rt.x.notify t, s.rt.faults⟩ := by
    simp only [Runtime.step, hreg]
  have hreached := base_next h hfirst trivial hregisters
  refine ⟨tm'', hrest, htasks, base_next (b := .recv e) hreached ?_ trivial trivial⟩
  simp [Runtime.step, Executors.notify, hpc, hrecv]

theorem Gathered.next {t : τ} {e' : ExecutorId} {rest : List ExecutorId} (htv : t ≠ v)
    (h : Gathered ids t v e (e' :: rest) s) : ∃ s', Gathered ids t v e rest s' := by
  obtain ⟨tm, hrest, htasks, hreached⟩ := receive h.reached h.waiting h.abort.1
  have hne : e ≠ e' := by
    rintro rfl
    have hbusy := ((serving h.reached).invariant.accounted.balanced.waiting (e := e)
      (by simp [h.waiting])).2.2
    simp [h.polling.2, Runtime.busy] at hbusy
  refine ⟨_, hreached, ⟨?_, h.fresh.2⟩, ⟨?_, ?_⟩, ⟨h.polling.1, ?_⟩, hrest, ?_, ?_⟩
  · exact (kindAfter_of_ne htv.symm).trans h.fresh.1
  · simp [Executors.notify, h.abort.1]
  · simp [Executors.notify, htv.symm, h.abort.2]
  · simp [Executors.notify, hne, h.polling.2]
  · rw [htasks, h.tasks]
  · rintro e'' he
    by_cases heq : e'' = e'
    · exact .inr (.inr (by simp [heq]))
    · rcases h.received e'' he with rfl | hw | hp
      · exact .inl rfl
      · exact .inr (.inl ((List.mem_cons.1 hw).resolve_left heq))
      · exact .inr (.inr (by simp [heq, Executors.notify, hp]))

theorem Gathered.all {t : τ} {rest : List ExecutorId} (htv : t ≠ v)
    (h : Gathered ids t v e rest s) : ∃ s', Gathered ids t v e [] s' := by
  induction rest generalizing s with
  | nil => exact ⟨s, h⟩
  | cons e' rest ih =>
    obtain ⟨s', h'⟩ := h.next htv
    exact ih h'

/-- The first executor that waits polls the task. -/
theorem gathered_init {t : τ} {rest : List ExecutorId} (htv : t ≠ v)
    (h : (nested (e :: rest)).init s) : ∃ s', Gathered (e :: rest) t v e rest s' := by
  obtain ⟨⟨tm, htm, hids, hrt⟩, hs⟩ := h
  obtain ⟨htasks, hitems, -⟩ := TaskManager.registerExecutors_eq_ok htm
  have hfirst : s.rt.tm.waitingExecutors.items = e :: rest := by
    rw [hrt, hitems]
    rfl
  obtain ⟨tm', hrest, hwaiting, hreceived⟩ :=
    receive (t := t) (.init ⟨⟨tm, htm, hids, hrt⟩, hs⟩) hfirst (by rw [hrt]; rfl)
  rw [hrt] at hwaiting hreceived
  have hlocked := base_next (b := .work (.lock e)) hreceived
    (by simp [Runtime.step, Executors.step, Executors.notify, Executors.new, Task.new]; rfl)
    trivial rfl
  have hpolled := base_next (b := .work (.look e)) hlocked
    (by simp [Runtime.step, Executors.step]; rfl) trivial rfl
  refine ⟨_, hpolled, ⟨?_, ?_, ?_⟩, ⟨?_, ?_⟩, ⟨List.mem_cons_self, ?_⟩, hrest, ?_, ?_⟩
  · exact (kindAfter_of_ne htv.symm).trans (by rw [hs])
  · exact congrArg Nested.waits hs
  · exact congrArg Nested.sent hs
  · simp
  · simp [htv.symm]
  · simp
  · rw [hwaiting, htasks]
    rfl
  · exact fun e' he => (List.mem_cons.1 he).imp_right .inl

/-- With the call the last executor is blocked too. -/
theorem Gathered.stuck {t : τ} (h : Gathered ids t v e [] s) :
    ∃ s', (nested ids).ReachableUnder Calm s' ∧
      s'.waits = Function.update (fun _ => none) e (some v) ∧ Stuck ids s' := by
  have hserving := serving h.reached
  have hroom : s.rt.tm.waitingTasks.push v ≠ none := by
    rw [Ne, BoundedQueue.push_eq_none_iff, h.tasks]
    exact Nat.ne_of_lt (show 0 < TaskManager.queueBound by decide)
  cases hreg : s.rt.tm.registerOrExecute s.rt.hasAborted v with
  | error f =>
    exact absurd (hserving.invariant.accounted.balanced.register_fault hreg).2.2.2 hroom
  | ok p =>
    obtain ⟨tm, log⟩ := p
    have hqueued : v ∈ tm.waitingTasks.items := by
      cases TaskManager.registration hreg with
      | skipped ha =>
        have habort := h.abort.2.symm.trans ha
        cases habort
      | sent _ exec q ch ch' hpop =>
        have hwaiting := (BoundedQueue.pop_eq_some hpop).1.symm.trans h.waiting
        cases hwaiting
      | queued _ q hnone hpush =>
        rw [(BoundedQueue.push_eq_some hpush).2.2]
        simp
    have hregisters : s.rt.Registers v := by rw [Runtime.Registers, hreg]; rfl
    obtain ⟨s', hs'⟩ : ∃ s' : Nested τ, s' = { s with
        rt := ⟨tm, s.rt.x.notify v, s.rt.faults⟩
        kind := Function.update s.kind v .blocking
        waits := Function.update s.waits e (some v) } := ⟨_, rfl⟩
    have hwaits : s'.waits = Function.update (fun _ => none) e (some v) := by
      rw [hs', ← h.fresh.2.1]
    have hpc : s'.rt.x.pc = s.rt.x.pc := by rw [hs']; rfl
    have hcall : s.step ids (.call e v) = some s' := by
      simp [hs', step, h.polling.2, h.fresh.2.1, h.fresh.1, hregisters, Runtime.step, hreg]
    have hreached : (nested ids).ReachableUnder Calm s' :=
      .step h.reached (a := .call e v) hregisters hcall
    refine ⟨s', hreached, hwaits, ok hreached, fun e' he' => ?_, fun e' v' hv' => ?_⟩
    · have hlast : s'.Waits e := ⟨v, by simp [hwaits], by simp [hs', h.fresh.2.2]⟩
      have howner : (s'.rt.x.task t).owner = some e :=
        ((serving hreached).invariant.ok.owner e t).1 (by rw [hpc, h.polling.2]; rfl)
      rcases h.received e' he' with rfl | hnil | hpc'
      · exact .inl hlast
      · cases hnil
      · exact .inr ⟨t, e, by rw [hpc, hpc'], howner, hlast⟩
    · have he' : e' = e ∧ v' = v := by
        by_cases heq : e' = e
        · rw [hwaits, heq, Function.update_self] at hv'
          exact ⟨heq, (Option.some.inj hv').symm⟩
        · rw [hwaits, Function.update_of_ne heq] at hv'
          cases hv'
      rw [he'.2]
      exact ⟨(serving hreached).panicked v, .inl (by rw [hs']; exact hqueued)⟩

/-- When all executors are blocked, and every future whose result one of them waits for has not
panicked and is in the hands of the runtime (queued, in a channel or with an executor), then no
executor takes a step in any run from there: no task is polled again, and no call of `run_blocking`
returns. -/
theorem blocked_for_ever (h : (nested ids).Reachable s) (hall : ∀ e ∈ ids, s.Blocked e)
    (hkept : ∀ e v, s.waits e = some v → (s.rt.x.task v).panicked = false ∧ Held ids s.rt v)
    {as : List (Label τ)} (hrun : (nested ids).run s as = some s') :
    (∀ a ∈ as, a.mover = none) ∧ s'.rt.x.pc = s.rt.x.pc ∧ s'.waits = s.waits :=
  Stuck.run ⟨ok h, hall, hkept⟩ hrun

theorem blocked_for_ever_single : ∃ s : Nested ℕ,
    s.waits = Function.update (fun _ => none) 0 (some 7) ∧
      ∀ as s', (nested [0]).run s as = some s' →
        (∀ a ∈ as, a.mover = none) ∧ s'.rt.x.pc = s.rt.x.pc ∧ s'.waits = s.waits := by
  obtain ⟨s₁, h₁⟩ : ∃ s : Nested ℕ, Gathered [0] 5 7 0 [] s :=
    gathered_init (by decide)
      (s := ⟨⟨_, .new, []⟩, fun _ => .absent, fun _ => none, fun _ => false⟩)
      ⟨⟨_, rfl, by decide, rfl⟩, rfl⟩
  obtain ⟨s, hreached, hwaits, hstuck⟩ := h₁.stuck
  exact ⟨s, hwaits, fun as s' hrun =>
    blocked_for_ever hreached.reachable hstuck.blocked hstuck.kept hrun⟩

/-- For any number of executors there is a run in which no poll panics and every registration goes
through, and in which one task calls `run_blocking` once: from then on no executor takes a step. -/
theorem one_call_blocks_all (hids : ids ≠ []) (h : (nested ids).init s) {t : τ} (htv : t ≠ v) :
    ∃ s' e, (nested ids).ReachableUnder Calm s' ∧
      s'.waits = Function.update (fun _ => none) e (some v) ∧
      ∀ as s'', (nested ids).run s' as = some s'' →
        (∀ a ∈ as, a.mover = none) ∧ s''.rt.x.pc = s'.rt.x.pc ∧ s''.waits = s'.waits := by
  cases ids with
  | nil => exact absurd rfl hids
  | cons e rest =>
    obtain ⟨s₁, h₁⟩ := gathered_init htv h
    obtain ⟨s₂, h₂⟩ := h₁.all htv
    obtain ⟨s₃, hreached, hwaits, hstuck⟩ := h₂.stuck
    exact ⟨s₃, e, hreached, hwaits, fun as s'' hrun => hstuck.run hrun⟩

theorem one_call_blocks_all_pair : ∃ (s : Nested ℕ) (e : ExecutorId),
    (nested [0, 1]).ReachableUnder Calm s ∧ s.waits = Function.update (fun _ => none) e (some 7) ∧
      ∀ as s', (nested [0, 1]).run s as = some s' →
        (∀ a ∈ as, a.mover = none) ∧ s'.rt.x.pc = s.rt.x.pc ∧ s'.waits = s.waits :=
  one_call_blocks_all (t := 5) (by decide)
    (s := ⟨⟨_, .new, []⟩, fun _ => .absent, fun _ => none, fun _ => false⟩)
    ⟨⟨_, rfl, by decide, rfl⟩, rfl⟩ (by decide)

end Nested

end Hooch
