import Hooch.Net.Readiness
import Hooch.Task.Calls

/-!
# Calls on a socket, on the runtime

The tasks of the runtime call `read`, `write`, `accept`, `send_to` or `recv_from` on one object, one
task at a time. An event of the token wakes the task whose waker is stored.

* `SocketAwait`, `step`, `socketAwait`: the socket of `SocketState` and the runtime side by side;
* `Ok`: the invariant; a parked task whose event was handled has to poll again, as `Calls` says;
* `runsOn`, `socketRunsOn`: the system runs on the runtime and on the socket;
* `ready_call_returns`: in a fair run whose polls end, a call on a socket that stays ready returns.
-/

namespace Hooch

open TransitionSystem

/-- The runtime, and an object that its tasks use. -/
structure SocketAwait (τ : Type*) where
  rt : Runtime τ
  socket : SocketState τ τ
  /-- `Reactor::poll` has returned `Pending` in the poll of the task that goes on. -/
  pending : τ → Bool

namespace SocketAwait

/-- What a task does in a call. -/
inductive Call
  | start (op : Interest)
  | attempt
  | poll
  /-- The call returns with an error, or its future is dropped. -/
  | abandon
  deriving DecidableEq

/-- The step of the socket. The waker of a task is the task. -/
def Call.label {τ : Type*} (t : τ) : Call → SocketLabel τ τ
  | .start op => .start t op
  | .attempt => .attempt t
  | .poll => .poll t t
  | .abandon => .abandon t

/-- Who moves. -/
inductive Label (τ : Type*)
  | base (a : Runtime.Label τ)
  /-- The task that the executor polls moves in its call. -/
  | call (e : ExecutorId) (c : Call)
  | becomeReady (i : Interest)
  | becomeUnready (i : Interest)
  /-- The reactor thread handles an event of the token. -/
  | event

variable {τ : Type*} [DecidableEq τ]

/-- The task is in a call. -/
def Busy (k : SocketState τ τ) (t : τ) : Prop := (k.task t).isIdle = false

instance (k : SocketState τ τ) : DecidablePred (Busy k) := fun _ =>
  inferInstanceAs (Decidable (_ = false))

/-- The task has to poll the reactor again: it is parked, and an event was handled since. -/
def Due (k : SocketState τ τ) (t : τ) : Prop := (k.task t).isParked = true ∧ k.due t = true

/-- One step. -/
def step (token : Token) (s : SocketAwait τ) : Label τ → Option (SocketAwait τ)
  | .base a =>
      if Runtime.Allows (Busy s.socket) s.pending s.rt a then
        (s.rt.step a).map fun rt =>
          { s with rt := rt, pending := Runtime.pendingAfter s.pending s.rt a }
      else none
  | .call e c =>
      match s.rt.x.pc e with
      | .polling t =>
          -- after `Pending` the task only drops the future
          if s.pending t = false ∨ c = .abandon then
            (s.socket.step token id (c.label t)).map fun k => { s with
              socket := k
              pending := Function.update s.pending t (k.task t).isParked }
          else none
      | _ => none
  | .becomeReady i =>
      (s.socket.step token id (.becomeReady i)).map fun k => { s with socket := k }
  | .becomeUnready i =>
      (s.socket.step token id (.becomeUnready i)).map fun k => { s with socket := k }
  | .event =>
      (s.socket.step token id .event).bind fun k =>
        (s.rt.wake (s.socket.reactor.event token).1).map fun rt => { s with rt := rt, socket := k }

end SocketAwait

/-- The runtime with the executors `ids`, and an object that no task has used. -/
def socketAwait {τ : Type*} [DecidableEq τ] (token : Token) (ids : List ExecutorId) :
    TransitionSystem (SocketAwait τ) (SocketAwait.Label τ) where
  init s := (runtime ids).init s.rt ∧ (SocketState.socket token id).init s.socket ∧
    s.pending = fun _ => false
  step := SocketAwait.step token

namespace SocketAwait

variable {τ : Type*} [DecidableEq τ] {token : Token} {ids : List ExecutorId}
  {s s' : SocketAwait τ} {l : Label τ} {t : τ} {e : ExecutorId}

/-- What a step does, one case each. -/
inductive Next (token : Token) (s : SocketAwait τ) : Label τ → SocketAwait τ → Prop
  | base {a : Runtime.Label τ} {rt : Runtime τ}
      (hallows : Runtime.Allows (Busy s.socket) s.pending s.rt a) (hs : s.rt.step a = some rt) :
      Next token s (.base a)
        { s with rt := rt, pending := Runtime.pendingAfter s.pending s.rt a }
  | call {e : ExecutorId} {c : Call} {t : τ} {k : SocketState τ τ}
      (hpc : s.rt.x.pc e = .polling t) (hpending : s.pending t = false ∨ c = .abandon)
      (hk : s.socket.step token id (c.label t) = some k) :
      Next token s (.call e c) { s with
        socket := k
        pending := Function.update s.pending t (k.task t).isParked }
  | becomeReady {i : Interest} {k : SocketState τ τ}
      (hk : s.socket.step token id (.becomeReady i) = some k) :
      Next token s (.becomeReady i) { s with socket := k }
  | becomeUnready {i : Interest} {k : SocketState τ τ}
      (hk : s.socket.step token id (.becomeUnready i) = some k) :
      Next token s (.becomeUnready i) { s with socket := k }
  | event {k : SocketState τ τ} {rt : Runtime τ} (hk : s.socket.step token id .event = some k)
      (hs : s.rt.wake (s.socket.reactor.event token).1 = some rt) :
      Next token s .event { s with rt := rt, socket := k }

theorem next_of_step (h : s.step token l = some s') : Next token s l s' := by
  cases l with
  | base a =>
    simp only [step, Option.ite_none_right_eq_some, Option.map_eq_some_iff] at h
    obtain ⟨hallows, rt, hrt, rfl⟩ := h
    exact .base hallows hrt
  | call e c =>
    simp only [step] at h
    split at h
    · rename_i t hpc
      simp only [Option.ite_none_right_eq_some, Option.map_eq_some_iff] at h
      obtain ⟨hpending, k, hk, rfl⟩ := h
      exact .call hpc hpending hk
    · cases h
  | becomeReady i =>
    simp only [step, Option.map_eq_some_iff] at h
    obtain ⟨k, hk, rfl⟩ := h
    exact .becomeReady hk
  | becomeUnready i =>
    simp only [step, Option.map_eq_some_iff] at h
    obtain ⟨k, hk, rfl⟩ := h
    exact .becomeUnready hk
  | event =>
    simp only [step, Option.bind_eq_some_iff, Option.map_eq_some_iff] at h
    obtain ⟨k, hk, rt, hrt, rfl⟩ := h
    exact .event hk hrt

/-! ### The two parts -/

/-- What a step is for the runtime. -/
def runtimeLabel (token : Token) (s : SocketAwait τ) : Label τ → Option (Runtime.Label τ)
  | .base a => some a
  | .event => (s.socket.reactor.event token).1.map .register
  | .call _ _ | .becomeReady _ | .becomeUnready _ => none

/-- What a step is for the socket. -/
def socketLabel (s : SocketAwait τ) : Label τ → Option (SocketLabel τ τ)
  | .base _ => none
  | .call e c =>
      match s.rt.x.pc e with
      | .polling t => some (c.label t)
      | _ => none
  | .becomeReady i => some (.becomeReady i)
  | .becomeUnready i => some (.becomeUnready i)
  | .event => some .event

theorem runsOn : RunsOn (socketAwait token ids) (runtime ids) SocketAwait.rt
    (runtimeLabel (τ := τ) token) where
  init _ h := h.1
  rests s l s' hs hl := by
    cases next_of_step hs with
    | base => cases hl
    | @event k rt _ hrt =>
      rw [runtimeLabel, Option.map_eq_none_iff] at hl
      rw [hl] at hrt
      cases hrt
      rfl
    | _ => rfl
  steps s l s' b hs hl := by
    cases next_of_step hs with
    | base _ hrt =>
      cases hl
      exact hrt
    | @event k rt _ hrt =>
      rw [runtimeLabel, Option.map_eq_some_iff] at hl
      obtain ⟨u, hu, rfl⟩ := hl
      rw [hu] at hrt
      exact hrt
    | _ => cases hl

theorem socketRunsOn : RunsOn (socketAwait token ids) (SocketState.socket token id)
    SocketAwait.socket (socketLabel (τ := τ)) where
  init _ h := h.2.1
  rests s l s' hs hl := by
    cases next_of_step hs with
    | base => rfl
    | call hpc => simp [socketLabel, hpc] at hl
    | _ => cases hl
  steps s l s' b hs hl := by
    cases next_of_step hs with
    | base => cases hl
    | call hpc _ hk =>
      simp only [socketLabel, hpc, Option.some.injEq] at hl
      rw [← hl]
      exact hk
    | becomeReady hk | becomeUnready hk | event hk =>
      cases hl
      exact hk

/-- Every registration goes through, no poll panics, nobody aborts the task, and a call begins only
while every other task is outside. -/
def Calm (token : Token) (t : τ) (s : SocketAwait τ) : Label τ → Prop
  | .base a => s.rt.Smooth a ∧ a ≠ .abort t
  | .call e c => ∀ b, s.socketLabel (.call e c) = some b → s.socket.OneAtATime b
  | .becomeReady _ | .becomeUnready _ => True
  | .event => ∀ u, (s.socket.reactor.event token).1 = some u → s.rt.Registers u

instance [Fintype τ] (s : SocketAwait τ) : (l : Label τ) → Decidable (Calm token t s l)
  | .base a => inferInstanceAs (Decidable (s.rt.Smooth a ∧ a ≠ .abort t))
  | .call e c =>
      inferInstanceAs (Decidable (∀ b ∈ s.socketLabel (.call e c), s.socket.OneAtATime b))
  | .becomeReady _ | .becomeUnready _ => .isTrue trivial
  | .event =>
      inferInstanceAs (Decidable (∀ u ∈ (s.socket.reactor.event token).1, s.rt.Registers u))

omit [DecidableEq τ] in
theorem smooth_of_calm {b : Runtime.Label τ} (h : Calm token t s l)
    (hb : runtimeLabel token s l = some b) : s.rt.Smooth b := by
  cases l with
  | base a =>
    cases hb
    exact h.1
  | event =>
    obtain ⟨u, hu, rfl⟩ := Option.map_eq_some_iff.1 hb
    exact h u hu
  | _ => cases hb

omit [DecidableEq τ] in
theorem oneAtATime_of_calm {b : SocketLabel τ τ} (h : Calm token t s l)
    (hb : socketLabel s l = some b) : s.socket.OneAtATime b := by
  cases l with
  | base => cases hb
  | call e c => exact h b hb
  | becomeReady | becomeUnready | event =>
    cases hb
    trivial

/-! ### No wake-up is lost -/

/-- The invariant. The waker that a parked task left is the task. -/
structure Ok (token : Token) (ids : List ExecutorId) (s : SocketAwait τ) : Prop where
  readiness : SocketState.Readiness token s.socket
  waker : ∀ t op w, s.socket.task t = .parked op w → w = t
  calls : Runtime.Calls ids s.rt (Busy s.socket) (fun t => (s.socket.task t).isParked = true)
    (Due s.socket) s.pending

theorem serving (h : (socketAwait token ids).ReachableUnder (Calm token t) s) :
    Runtime.Serving ids s.rt :=
  Runtime.serving (runsOn.reachableUnder (fun _ _ _ hc hb => smooth_of_calm hc hb) h)

theorem readiness (h : (socketAwait token ids).ReachableUnder (Calm token t) s) :
    SocketState.Readiness token s.socket :=
  SocketState.readiness
    (socketRunsOn.reachableUnder (fun _ _ _ hc hb => oneAtATime_of_calm hc hb) h)

/-- A task that moves in its call leaves the others alone. -/
theorem call_frame {c : Call} {k k' : SocketState τ τ}
    (hs : SocketState.Next token id k (c.label t) k') {u : τ} (hut : u ≠ t) :
    k'.task u = k.task u ∧ k'.due u = k.due u := by
  cases c <;> cases hs <;> simp [SocketState.setTask, hut]

/-- It parks with its own waker. -/
theorem call_parked {c : Call} {k k' : SocketState τ τ} {op : Interest} {w : τ}
    (hs : SocketState.Next token id k (c.label t) k') (hpc : k'.task t = .parked op w) :
    w = t ∧ k'.reactor.statuses token = some (.awaited t) := by
  cases c with
  | poll =>
    cases hs with
    | park _ _ _ hr =>
      simp only [SocketState.setTask, Function.update_self, WaiterPc.parked.injEq] at hpc
      exact ⟨hpc.2.symm, hr⟩
    | resume => simp [SocketState.setTask] at hpc
  | start | attempt | abandon => cases hs <;> simp [SocketState.setTask] at hpc

omit [DecidableEq τ] in
theorem busy_of_parked {k : SocketState τ τ} (h : (k.task t).isParked = true) : Busy k t := by
  unfold Busy
  cases hp : k.task t with
  | parked => rfl
  | idle | trying | blocked => simp [hp, WaiterPc.isParked] at h

/-- The task that is polled moves in its call. Who parks has seen no event. -/
theorem Ok.call (h : Ok token ids s) {c : Call} {k : SocketState τ τ}
    (hreadiness : SocketState.Readiness token k) (hpc : s.rt.x.pc e = .polling t)
    (hk : s.socket.step token id (c.label t) = some k) :
    Ok token ids { s with
      socket := k
      pending := Function.update s.pending t (k.task t).isParked } := by
  have hnext := SocketState.next_of_step hk
  refine ⟨hreadiness, fun u op w hw => ?_, h.calls.call hpc (fun u hut => ?_) ?_ fun hp => hp⟩
  · by_cases hut : u = t
    · subst hut
      exact (call_parked hnext hw).1
    · exact h.waker u op w ((call_frame hnext hut).1.symm.trans hw)
  · obtain ⟨htask, hdue⟩ := call_frame hnext hut
    simp [Busy, Due, htask, hdue]
  · rintro ⟨hparked, hdue⟩
    have hhappened := (hreadiness.prompted t hparked hdue).1
    cases hp : k.task t with
    | parked op w =>
      rw [(call_parked hnext hp).2] at hhappened
      cases hhappened
    | idle | trying | blocked => simp [hp, WaiterPc.isParked] at hparked

/-- The event wakes the task that is parked. -/
theorem Ok.event (h : Ok token ids s) {k : SocketState τ τ} {rt : Runtime τ}
    (hserving : Runtime.Serving ids rt) (hreadiness : SocketState.Readiness token k)
    (hk : s.socket.step token id .event = some k)
    (hs : s.rt.wake (s.socket.reactor.event token).1 = some rt) :
    Ok token ids { s with rt := rt, socket := k } := by
  have htask : k.task = s.socket.task := by
    cases SocketState.next_of_step hk with
    | event => rfl
  have hbusy : Busy k = Busy s.socket := by
    unfold Busy
    rw [htask]
  refine ⟨hreadiness, ?_, ?_⟩
  · simp only [htask]
    exact h.waker
  · simp only [hbusy, htask]
    refine h.calls.wake hserving hs ?_
    rintro u ⟨hparked, hdue⟩
    rw [htask] at hparked
    by_cases hold : s.socket.due u = true
    · exact .inl ⟨hparked, hold⟩
    · -- Its waker is the one that the status holds.
      refine .inr ⟨busy_of_parked hparked, ?_⟩
      cases hp : s.socket.task u with
      | parked op w =>
        obtain rfl := h.waker u op w hp
        have hstatus := h.readiness.waits w op w hp (by simpa using hold)
        simp [Reactor.event, hstatus]
      | idle | trying | blocked => simp [hp, WaiterPc.isParked] at hparked

theorem ok (h : (socketAwait token ids).ReachableUnder (Calm token t) s) : Ok token ids s := by
  induction h with
  | init h =>
    have hreach : (socketAwait token ids).ReachableUnder (Calm token t) _ := .init h
    obtain ⟨-, hidle, hpending⟩ := h
    refine ⟨readiness hreach, fun u op w hw => ?_, .of_idle (serving hreach) (fun u hu => ?_)
      (fun u hu => ?_) fun u => congrFun hpending u⟩
    · rw [hidle u] at hw
      cases hw
    · rw [Busy, hidle u] at hu
      cases hu
    · rw [Due, hidle u] at hu
      cases hu.1
  | @step s s' l h hc hs ih =>
    have hserving := serving (.step h hc hs)
    have hreadiness := readiness (.step h hc hs)
    cases next_of_step hs with
    | base hallows hrt => exact ⟨hreadiness, ih.waker, ih.calls.base hserving hallows hrt⟩
    | call hpc _ hk => exact ih.call hreadiness hpc hk
    | becomeReady hk | becomeUnready hk =>
      cases hk
      exact ⟨hreadiness, ih.waker, ih.calls⟩
    | event hk hrt => exact ih.event hserving hreadiness hk hrt

/-! ### In the long run -/

/-- A step of the executor. -/
def Moves (e : ExecutorId) : Label τ → Prop
  | .base a => Runtime.Moves e a
  | .call e' _ => e' = e
  | .becomeReady _ | .becomeUnready _ | .event => False

/-- The reactor thread handles an event. -/
def Handles : Label τ → Prop
  | .event => True
  | _ => False

/-- The operation whose call the task is in. -/
def op : WaiterPc τ → Option Interest
  | .idle => none
  | .trying op | .blocked op | .parked op _ => some op

omit [DecidableEq τ] in
theorem op_eq_of_waitsFor {p : WaiterPc τ} {i : Interest} (h : p.waitsFor = some i) :
    op p = some i := by
  cases p with
  | blocked | parked => exact h
  | idle | trying => cases h

omit [DecidableEq τ] in
theorem trying_or_waitsFor {p : WaiterPc τ} {i : Interest} (h : op p = some i) :
    p = .trying i ∨ p.waitsFor = some i := by
  cases p with
  | idle => cases h
  | trying =>
    cases h
    exact .inl rfl
  | blocked | parked => exact .inr h

/-- One task moves. -/
theorem op_setTask {k : SocketState τ τ} {i : Interest} (h : op (k.task t) = some i) {u : τ}
    {p : WaiterPc τ} (hp : u = t → op p = some i ∨ p = .idle) :
    op ((k.setTask u p).task t) = some i ∨ (k.setTask u p).task t = .idle := by
  by_cases hut : u = t
  · subst hut
    simpa [SocketState.setTask] using hp rfl
  · exact .inl (by simpa [SocketState.setTask, Ne.symm hut] using h)

/-- A call goes on until the task is outside. -/
theorem op_next {k k' : SocketState τ τ} {a : SocketLabel τ τ} {i : Interest}
    (h : op (k.task t) = some i) (hs : SocketState.Next token id k a k') :
    op (k'.task t) = some i ∨ k'.task t = .idle := by
  cases hs with
  | becomeReady | becomeUnready | event => exact .inl h
  | done | abandon => exact op_setTask h fun _ => .inr rfl
  | start hu =>
    refine op_setTask h ?_
    rintro rfl
    rw [hu] at h
    cases h
  | wouldBlock hu =>
    refine op_setTask h ?_
    rintro rfl
    rw [hu] at h
    exact .inl h
  | park hu | resume hu =>
    refine op_setTask h ?_
    rintro rfl
    exact .inl ((op_eq_of_waitsFor hu).symm.trans h)

/-- The task is in a call of this operation. -/
def InCall (t : τ) (i : Interest) (s : SocketAwait τ) : Prop := op (s.socket.task t) = some i

instance (i : Interest) (s : SocketAwait τ) : Decidable (InCall t i s) :=
  inferInstanceAs (Decidable (_ = some i))

/-- A call goes on until the task is outside. -/
theorem InCall.next {i : Interest} (h : InCall t i s) (hs : s.step token l = some s') :
    InCall t i s' ∨ s'.socket.task t = .idle := by
  cases next_of_step hs with
  | base => exact .inl h
  | call _ _ hk | becomeReady hk | becomeUnready hk | event hk =>
    exact op_next h (SocketState.next_of_step hk)

/-- A call ends in a poll of its task. -/
theorem InCall.ends {i : Interest} (h : InCall t i s) (hs : s.step token l = some s')
    (h' : ¬ InCall t i s') : ∃ e, s.rt.x.pc e = .polling t ∧ s'.socket.task t = .idle ∧
      (l = .call e .attempt ∨ l = .call e .abandon) := by
  have hidle := (h.next hs).resolve_left h'
  cases next_of_step hs with
  | base => exact absurd h h'
  | @call e c u k hpc _ hk =>
    have hnext := SocketState.next_of_step hk
    have hut : t = u := by
      by_contra hut
      exact h' ((congrArg op (call_frame hnext hut).1).trans h)
    subst hut
    refine ⟨e, hpc, hidle, ?_⟩
    cases c with
    | attempt => exact .inl rfl
    | abandon => exact .inr rfl
    | start =>
      cases hnext
      simp [SocketState.setTask] at hidle
    | poll => cases hnext <;> simp [SocketState.setTask] at hidle
  | becomeReady hk | becomeUnready hk | event hk =>
    cases SocketState.next_of_step hk with
    | _ => exact absurd h h'

/-- On a ready socket the operation goes through. -/
theorem trying_next {k k' : SocketState τ τ} {a : SocketLabel τ τ} {i : Interest}
    (h : k.task t = .trying i) (hready : k.ready i = true)
    (hs : SocketState.Next token id k a k') : k'.task t = .trying i ∨ k'.task t = .idle := by
  have hmoves : ∀ {u p}, (u = t → p = .idle) →
      (k.setTask u p).task t = .trying i ∨ (k.setTask u p).task t = .idle := by
    intro u p hp
    by_cases hut : u = t
    · subst hut
      simp [SocketState.setTask, hp rfl]
    · simp [SocketState.setTask, Ne.symm hut, h]
  cases hs with
  | becomeReady | becomeUnready | event => exact .inl h
  | done | abandon => exact hmoves fun _ => rfl
  | start hu | park hu | resume hu =>
    refine hmoves ?_
    rintro rfl
    rw [h] at hu
    cases hu
  | wouldBlock hu hnot =>
    refine hmoves ?_
    rintro rfl
    rw [h] at hu
    cases hu
    exact absurd (hready.symm.trans hnot) (by simp)

/-- The mark of an event stays until the task tries again. -/
theorem happened_next {k k' : SocketState τ τ} {a : SocketLabel τ τ} {i : Interest}
    (h : SocketState.Readiness token k) (hwaits : (k.task t).waitsFor = some i)
    (hstatus : k.reactor.statuses token = some .happened)
    (hs : SocketState.Next token id k a k') :
    ((k'.task t).waitsFor = some i ∧ k'.reactor.statuses token = some .happened) ∨
      k'.task t = .trying i ∨ k'.task t = .idle := by
  have hop := op_next (op_eq_of_waitsFor hwaits) hs
  rcases hop.imp_left trying_or_waitsFor with (htrying | hwaits') | hidle
  · exact .inr (.inl htrying)
  · refine .inl ⟨hwaits', ?_⟩
    cases hs with
    | park _ _ hnot => exact absurd hstatus hnot
    | @resume u _ _ _ hu =>
      obtain rfl := h.single t u (SocketState.isIdle_of_waitsFor hwaits)
        (SocketState.isIdle_of_waitsFor hu)
      simp [SocketState.setTask, WaiterPc.waitsFor] at hwaits'
    | event _ _ hr => exact hr
    | _ => exact hstatus
  · exact .inr (.inr hidle)

/-- While the task is in a call, a poll in which it looks goes on until `Reactor::poll` returns
`Pending`. -/
theorem looks_next (h : Runtime.Looks s.pending e t s.rt) (hbusy : Busy s.socket t)
    (hs : s.step token l = some s') : Runtime.Looks s'.pending e t s'.rt ∨
      ∃ k, SocketState.Next token id s.socket (.poll t t) k ∧ (k.task t).isParked = true := by
  obtain ⟨hpc, hpending⟩ := h
  cases next_of_step hs with
  | base hallows hrt => exact .inl (Runtime.Looks.base ⟨hpc, hpending⟩ hbusy hallows hrt)
  | @call e' c u k hpc' _ hk =>
    by_cases hut : t = u
    · subst hut
      by_cases hparked : (k.task t).isParked = true
      · have hnext := SocketState.next_of_step hk
        cases c with
        | poll => exact .inr ⟨k, hnext, hparked⟩
        | start | attempt | abandon =>
          cases hnext <;> simp [SocketState.setTask, WaiterPc.isParked] at hparked
      · exact .inl ⟨hpc, by simpa using hparked⟩
    · exact .inl ⟨hpc, by simpa [hut] using hpending⟩
  | becomeReady | becomeUnready => exact .inl ⟨hpc, hpending⟩
  | event _ hrt => exact .inl ⟨(Runtime.wake_undisturbed hrt t).polling e hpc, hpending⟩

omit [DecidableEq τ] in
/-- When the token is marked, the task that waits looks or is notified. -/
theorem Ok.looks_or_notified (h : Ok token ids s) {i : Interest}
    (hwaits : (s.socket.task t).waitsFor = some i)
    (hstatus : s.socket.reactor.statuses token = some .happened) :
    (∃ e, Runtime.Looks s.pending e t s.rt) ∨ (s.rt.x.task t).notified = true := by
  have hbusy : Busy s.socket t := SocketState.isIdle_of_waitsFor hwaits
  by_cases hparked : (s.socket.task t).isParked = true
  · refine h.calls.looks_or_notified ⟨hparked, ?_⟩
    by_contra hdue
    cases hp : s.socket.task t with
    | parked op w =>
      have hawaited := h.readiness.waits t op w hp (by simpa using hdue)
      rw [hstatus] at hawaited
      cases hawaited
    | idle | trying | blocked => simp [hp, WaiterPc.isParked] at hparked
  · exact .inl (h.calls.looks hbusy hparked)

/-- The reactor thread is held up by nobody. -/
theorem event_enabled (h : 0 < s.socket.queued) : (socketAwait token ids).Enabled Handles s := by
  have hwake := Runtime.isSome_wake s.rt (s.socket.reactor.event token).1
  refine ⟨.event, trivial, ?_⟩
  simp [socketAwait, step, SocketState.step, h, hwake]

theorem event_marks (hs : s.step token .event = some s') :
    s'.socket.reactor.statuses token = some .happened := by
  cases next_of_step hs with
  | event hk =>
    cases SocketState.next_of_step hk with
    | event _ _ hr => exact hr

/-- What the runtime does is what the calls leave. -/
theorem allows_of_step (s : SocketAwait τ) (l : Label τ) (s' : SocketAwait τ)
    (b : Runtime.Label τ) (hs : (socketAwait token ids).step s l = some s')
    (hb : runtimeLabel token s l = some b) :
    Runtime.Allows (Busy s.socket) s.pending s.rt b ∧
      s'.pending = Runtime.pendingAfter s.pending s.rt b := by
  cases next_of_step hs with
  | base hallows =>
    cases hb
    exact ⟨hallows, rfl⟩
  | event =>
    obtain ⟨u, -, rfl⟩ := Option.map_eq_some_iff.1 hb
    exact ⟨trivial, rfl⟩
  | _ => cases hb

section Runs

variable {x : (socketAwait (τ := τ) token ids).Execution}

/-- What is fair to an executor here is fair to it in the runtime, if its polls end. -/
theorem weaklyFair_runtime (hends : Runtime.PollsEnd (runsOn.execution x) e)
    (hfair : x.WeaklyFair (Moves e)) : (runsOn.execution x).WeaklyFair (Runtime.Moves e) := by
  refine Runtime.weaklyFair_of_pollsEnd runsOn hends (fun s hpc henabled => ?_)
    (fun s l s' hs hl => ?_) hfair
  · obtain ⟨b, hb, hsome⟩ := henabled
    have hallows := Runtime.allows_of_not_polling (Busy s.socket) s.pending hpc hb
    have hsome' : (s.rt.step b).isSome := hsome
    exact ⟨.base b, hb, by simpa [socketAwait, step, hallows] using hsome'⟩
  · cases next_of_step hs with
    | @base b => exact .inl ⟨b, rfl, hl⟩
    | @call e' c t k hpc =>
      cases hl
      exact .inr ⟨t, hpc⟩
    | becomeReady | becomeUnready | event => exact hl.elim

/-- A poll of a task that stays in its call ends with a `Reactor::poll` that was `Pending`. -/
theorem looks_parks (hends : Runtime.PollsEnd (runsOn.execution x) e) {n : ℕ}
    (hlooks : Runtime.Looks (x.state n).pending e t (x.state n).rt)
    (hbusy : ∀ m, n ≤ m → Busy (x.state m).socket t) : ∃ m, n ≤ m ∧
      ((x.state m).socket.task t).waitsFor ≠ none ∧
        (x.state m).socket.reactor.statuses token ≠ some .happened := by
  obtain ⟨m', hnm', hpc⟩ := hends n t hlooks.1
  obtain ⟨m, l, hnm, hact, hm, hm'⟩ := Execution.exists_step_of_not
    (P := fun s : SocketAwait τ => Runtime.Looks s.pending e t s.rt) hnm' hlooks fun h => hpc h.1
  obtain ⟨k, hk, hparked⟩ := (looks_next hm (hbusy m hnm) (x.steps m l hact)).resolve_left hm'
  refine ⟨m, hnm, ?_⟩
  cases hk with
  | park hu _ hstatus => exact ⟨by rw [hu]; simp, hstatus⟩
  | resume => simp [SocketState.setTask, WaiterPc.isParked] at hparked

section Calls

variable {n : ℕ} {i : Interest}

/-- A call that does not end goes on with its operation. -/
theorem inCall_stays (hcall : InCall t i (x.state n))
    (hnever : ∀ m, n ≤ m → (x.state m).socket.task t ≠ .idle) {m : ℕ} (hnm : n ≤ m) :
    InCall t i (x.state m) :=
  Execution.stable (fun k l hnk hact hk =>
    (hk.next (x.steps k l hact)).resolve_right (hnever (k + 1) (by omega))) hnm hcall

/-- The operation is tried on a ready socket. -/
theorem trying_returns (hok : ∀ m, Ok token ids (x.state m))
    (hends : ∀ e, Runtime.PollsEnd (runsOn.execution x) e)
    (hready : ∀ m, n ≤ m → (x.state m).socket.ready i = true)
    (htrying : (x.state n).socket.task t = .trying i) :
    ∃ m, n ≤ m ∧ (x.state m).socket.task t = .idle := by
  by_contra hnever
  push Not at hnever
  have hstays : ∀ m, n ≤ m → (x.state m).socket.task t = .trying i := fun m hnm =>
    Execution.stable (x := socketRunsOn.execution x)
      (P := fun k : SocketState τ τ => k.task t = .trying i) (fun k a hnk hact hk =>
        (trying_next hk (hready k hnk) (SocketState.next_of_step
          ((socketRunsOn.execution x).steps k a hact))).resolve_right (hnever (k + 1) (by omega)))
      hnm htrying
  have hbusy : ∀ m, n ≤ m → Busy (x.state m).socket t := fun m hnm => by
    rw [Busy, hstays m hnm]
    rfl
  obtain ⟨e, hlooks⟩ := (hok n).calls.looks (hbusy n le_rfl) (by simp [htrying, WaiterPc.isParked])
  obtain ⟨m, hnm, hwaits, -⟩ := looks_parks (hends e) hlooks hbusy
  exact hwaits (by rw [hstays m hnm]; rfl)

/-- Nobody aborts the task. -/
theorem not_aborts (hcalm : x.Under (Calm token t)) (m : ℕ) :
    (runsOn.execution x).act m ≠ some (.abort t) := by
  intro hact
  obtain ⟨l, hl, hlb⟩ := Option.bind_eq_some_iff.1 hact
  cases l with
  | base b =>
    cases hlb
    exact (hcalm m _ hl).2 rfl
  | event =>
    obtain ⟨u, -, hu⟩ := Option.map_eq_some_iff.1 hlb
    cases hu
  | call | becomeReady | becomeUnready => cases hlb

/-- When the token is marked, the task tries again. -/
theorem marked_tries (hids : ids ≠ []) (hok : ∀ m, Ok token ids (x.state m))
    (hcalm : x.Under (Calm token t)) (hfair : ∀ e ∈ ids, x.WeaklyFair (Moves e))
    (hends : ∀ e, Runtime.PollsEnd (runsOn.execution x) e)
    (hwaits : ((x.state n).socket.task t).waitsFor = some i)
    (hstatus : (x.state n).socket.reactor.statuses token = some .happened) :
    ∃ m, n ≤ m ∧ ((x.state m).socket.task t = .trying i ∨ (x.state m).socket.task t = .idle) := by
  by_contra hnever
  push Not at hnever
  have hstays : ∀ m, n ≤ m → ((x.state m).socket.task t).waitsFor = some i ∧
      (x.state m).socket.reactor.statuses token = some .happened := fun m hnm =>
    Execution.stable (x := socketRunsOn.execution x)
      (P := fun k : SocketState τ τ => (k.task t).waitsFor = some i ∧
        k.reactor.statuses token = some .happened) (fun k a hnk hact hk =>
        (happened_next (hok k).readiness hk.1 hk.2 (SocketState.next_of_step
          ((socketRunsOn.execution x).steps k a hact))).resolve_right
            (not_or.2 (hnever (k + 1) (by omega)))) hnm ⟨hwaits, hstatus⟩
  have hbusy : ∀ m, n ≤ m → Busy (x.state m).socket t := fun m hnm =>
    SocketState.isIdle_of_waitsFor (hstays m hnm).1
  have hlooks : ∃ m e, n ≤ m ∧ Runtime.Looks (x.state m).pending e t (x.state m).rt := by
    rcases (hok n).looks_or_notified hwaits hstatus with ⟨e, he⟩ | hn
    · exact ⟨n, e, le_rfl, he⟩
    · refine Runtime.notified_looks runsOn (fun s => Busy s.socket)
        (fun s t => (s.socket.task t).isParked = true) (fun s => Due s.socket) pending hids
        (runsOn.under hcalm fun _ _ _ hc hb => smooth_of_calm hc hb)
        (fun e he => weaklyFair_runtime (hends e) (hfair e he)) allows_of_step
        (fun m => (hok m).calls) (not_aborts hcalm) hbusy
        ⟨hn, (hok n).calls.live t (hbusy n le_rfl), (hok n).calls.serving.panicked t, ?_⟩
      exact Runtime.abort_of_not_aborts (not_aborts hcalm) n
  obtain ⟨m, e, hnm, hlooks⟩ := hlooks
  obtain ⟨m', hmm', -, hnot⟩ := looks_parks (hends e) hlooks fun k hk => hbusy k (hnm.trans hk)
  exact hnot (hstays m' (hnm.trans hmm')).2

/-- A task that waits while the socket is ready finds the mark of an event. -/
theorem waits_marked (hok : ∀ m, Ok token ids (x.state m)) (hreactor : x.WeaklyFair Handles)
    (hready : ∀ m, n ≤ m → (x.state m).socket.ready i = true)
    (hcall : InCall t i (x.state n)) (hnever : ∀ m, n ≤ m → (x.state m).socket.task t ≠ .idle) :
    ∃ m, n ≤ m ∧ ((x.state m).socket.task t = .trying i ∨
      (x.state m).socket.reactor.statuses token = some .happened) := by
  by_contra hnot
  push Not at hnot
  have hqueued : ∀ m, n ≤ m → 0 < (x.state m).socket.queued := by
    intro m hnm
    have hwaits := (trying_or_waitsFor (inCall_stays hcall hnever hnm)).resolve_left (hnot m hnm).1
    exact ((hok m).readiness.noticed t i hwaits (hready m hnm)).resolve_right (hnot m hnm).2
  obtain ⟨m, hnm, l, hact, hl⟩ := hreactor n fun m hnm => event_enabled (hqueued m hnm)
  cases l with
  | event => exact (hnot (m + 1) (by omega)).2 (event_marks (x.steps m _ hact))
  | base | call | becomeReady | becomeUnready => exact hl

/-- In a run in which every registration goes through, no poll panics and a call begins only while
no other goes on, no poll goes on for ever, and neither an executor nor the reactor thread is left
aside for ever: a call of a task that nobody aborts, on a socket that stays ready for it, ends with
the try that goes through, unless it returns an error or its future is dropped. -/
theorem ready_call_returns (hids : ids ≠ []) (hcalm : x.Under (Calm token t))
    (hfair : ∀ e ∈ ids, x.WeaklyFair (Moves e))
    (hends : ∀ e, Runtime.PollsEnd (runsOn.execution x) e)
    (hreactor : x.WeaklyFair Handles) (hcall : InCall t i (x.state n))
    (hready : ∀ m, n ≤ m → (x.state m).socket.ready i = true) :
    ∃ m e, n ≤ m ∧ (x.state m).rt.x.pc e = .polling t ∧ (x.state (m + 1)).socket.task t = .idle ∧
      (x.act m = some (.call e .attempt) ∨ x.act m = some (.call e .abandon)) := by
  have hok : ∀ m, Ok token ids (x.state m) := fun m => ok (x.reachable hcalm m)
  have hidle : ∃ m, n ≤ m ∧ (x.state m).socket.task t = .idle := by
    by_contra hnever
    push Not at hnever
    have htrying : ∃ m, n ≤ m ∧ (x.state m).socket.task t = .trying i := by
      obtain ⟨m, hnm, htrying | hstatus⟩ := waits_marked hok hreactor hready hcall hnever
      · exact ⟨m, hnm, htrying⟩
      rcases trying_or_waitsFor (inCall_stays hcall hnever hnm) with htrying | hwaits
      · exact ⟨m, hnm, htrying⟩
      obtain ⟨m', hmm', h⟩ := marked_tries hids hok hcalm hfair hends hwaits hstatus
      exact ⟨m', hnm.trans hmm', h.resolve_right (hnever m' (hnm.trans hmm'))⟩
    obtain ⟨m, hnm, htrying⟩ := htrying
    obtain ⟨m', hmm', hidle⟩ :=
      trying_returns hok hends (fun k hk => hready k (hnm.trans hk)) htrying
    exact hnever m' (hnm.trans hmm') hidle
  obtain ⟨m, hnm, hidle⟩ := hidle
  obtain ⟨k, l, hnk, hact, hk, hk'⟩ := Execution.exists_step_of_not (P := InCall t i) hnm hcall
    (by rw [InCall, hidle]; simp [op])
  obtain ⟨e, hpc, hidle', hl⟩ := hk.ends (x.steps k l hact) hk'
  exact ⟨k, e, hnk, hpc, hidle', hl.imp (fun h => by rw [hact, h]) fun h => by rw [hact, h]⟩

end Calls

end Runs

/-- An executor that waits for a task has no step to make. -/
theorem not_enabled_of_idle (hpc : s.rt.x.pc e = .recv) (hinbox : s.rt.tm.inbox e = []) :
    ¬ (socketAwait token ids).Enabled (Moves e) s := by
  rintro ⟨l, hl, hs⟩
  obtain ⟨s', hs⟩ := Option.isSome_iff_exists.1 hs
  cases next_of_step hs with
  | base _ hrt =>
    have hidle : ¬ (runtime ids).Enabled (Runtime.Moves e) s.rt :=
      Runtime.not_enabled_of_idle hpc hinbox
    exact hidle ⟨_, hl, Option.isSome_of_eq_some hrt⟩
  | call he =>
    cases hl
    rw [hpc] at he
    cases he
  | becomeReady | becomeUnready | event => exact hl

/-- Neither has the reactor thread without an event. -/
theorem not_enabled_of_queued (h : s.socket.queued = 0) :
    ¬ (socketAwait token ids).Enabled Handles s := by
  rintro ⟨l, hl, hs⟩
  cases l with
  | event => simp [socketAwait, step, SocketState.step, h] at hs
  | base | call | becomeReady | becomeUnready => exact hl

/-- A task reads, and the socket becomes readable once it is parked. -/
def readOnce : List (Label Bool) :=
  [.base (.register true), .base (.recv 0), .base (.work (.lock 0)), .base (.work (.look 0)),
    .call 0 (.start .readable), .call 0 .attempt, .call 0 .poll,
    .base (.work (.polled 0 .pending)), .base (.work (.unlock 0)), .base (.ready 0),
    .becomeReady .readable, .event, .base (.recv 0), .base (.work (.lock 0)),
    .base (.work (.look 0)), .call 0 .poll, .call 0 .attempt, .base (.work (.polled 0 .ready)),
    .base (.work (.clear 0)), .base (.work (.unlock 0)), .base (.ready 0)]

/-- The run that takes these steps and then rests. -/
def readRun : (socketAwait (τ := Bool) 1 [0]).Execution :=
  .ofRun (s := ⟨⟨_, .new, []⟩, .new, fun _ => false⟩) readOnce
    ⟨⟨_, rfl, by decide, rfl⟩, fun _ => rfl, rfl⟩ (by decide)

theorem ready_call_returns_readRun : ∃ m e, 11 ≤ m ∧
    (readRun.state m).rt.x.pc e = .polling true ∧
    (readRun.state (m + 1)).socket.task true = .idle ∧
      (readRun.act m = some (.call e .attempt) ∨ readRun.act m = some (.call e .abandon)) := by
  have hrests : ∀ m, 21 ≤ m → readRun.state m = readRun.state 21 :=
    fun m hm => Execution.ofRun_state_of_length_le _ _ hm
  have hcalm : readRun.Under (Calm 1 true) := Execution.ofRun_under _ _ (by decide)
  have hidle : (readRun.state 21).rt.x.pc 0 = .recv := by decide
  refine ready_call_returns (n := 11) (i := .readable) (by decide) hcalm ?_ ?_ ?_ (by decide) ?_
  · intro e he
    obtain rfl : e = 0 := by simpa using he
    refine Execution.weaklyFair_of_not_enabled (n := 21) fun m hm => ?_
    rw [hrests m hm]
    exact not_enabled_of_idle hidle (by decide)
  · intro e n t hpc
    have he : e ∈ [0] := (ok (readRun.reachable hcalm n)).calls.serving.mem_ids fun h => by
      have := h.symm.trans hpc
      cases this
    obtain rfl : e = 0 := by simpa using he
    refine ⟨max n 21, le_max_left _ _, ?_⟩
    show (readRun.state (max n 21)).rt.x.pc 0 ≠ .polling t
    rw [hrests _ (le_max_right _ _), hidle]
    simp
  · refine Execution.weaklyFair_of_not_enabled (n := 21) fun m hm => ?_
    rw [hrests m hm]
    exact not_enabled_of_queued (by decide)
  · intro m hm
    rcases Nat.lt_or_ge m 21 with hlt | hge
    · have hall : ∀ m < 21, 11 ≤ m → (readRun.state m).socket.ready .readable = true := by decide
      exact hall m hlt hm
    · rw [hrests m hge]
      decide

end SocketAwait

end Hooch
