import Hooch.Sync.Balance
import Hooch.Task.Poll

/-!
# Spawned futures and their handles

`Spawner::spawn` and `JoinHandle` of `spawner.rs`. The task wraps the future: when the future is
ready, its output is boxed as a value of any type and sent over a channel of capacity 1, and the
handle receives it there and casts it back. The runtime delivers the task and an executor polls it;
the handle is polled side by side, cut at its accesses to the channel.

* `Dyn`, `downcast`: boxed values of any type;
* `JoinHandle`: the handle, with what a finished poll of the channel makes of it;
* `SpawnState`, `step`, `spawned`: the runtime, the wrapped future, the channel and the handle;
* `Ok`: how far the wrapped future is, and what that says about the channel and the handle;
* `join_yields_output`: the main result.
-/

namespace Hooch

/-- `Box<dyn Any + Send>`: a value with the code of its type. -/
abbrev Dyn {κ : Type*} (El : κ → Type*) := Σ k, El k

/-- `downcast`. -/
def Dyn.downcast {κ : Type*} [DecidableEq κ] {El : κ → Type*} (k : κ) (d : Dyn El) :
    Option (El k) :=
  if h : d.1 = k then some (h ▸ d.2) else none

theorem Dyn.downcast_mk {κ : Type*} [DecidableEq κ] {El : κ → Type*} {k : κ} (v : El k) :
    downcast k ⟨k, v⟩ = some v := by
  simp [downcast]

/-- `JoinHandleError`. -/
structure JoinHandleError where
  msg : String
  deriving DecidableEq

/-- `JoinHandle<T>` for the type `T` with code `k`. `recvFut` says whether the inner future is
built. `outputs` lists what its polls returned as `Ready`, and `failed` says that a `downcast` has
failed. -/
structure JoinHandle {κ : Type*} (El : κ → Type*) (k : κ) where
  hasAwaited : Bool
  recvFut : Bool
  outputs : List (Except JoinHandleError (El k))
  failed : Bool

namespace JoinHandle

variable {κ : Type*} [DecidableEq κ] {El : κ → Type*} {k : κ}

/-- The handle as `spawn` makes it. -/
def new : JoinHandle El k := ⟨false, false, [], false⟩

/-- A poll begins. -/
def await (j : JoinHandle El k) : JoinHandle El k := { j with hasAwaited := true, recvFut := true }

/-- What the poll makes of a poll of the inner future that has returned. -/
def settle (j : JoinHandle El k) : Poll (Except RecvError (Dyn El)) → JoinHandle El k
  | .pending => j
  | .ready (.ok ok_val) =>
      match ok_val.downcast k with
      | some ret_val => { j with outputs := j.outputs ++ [.ok ret_val] }
      | none => { j with failed := true }
  | .ready (.error _) =>
      { j with outputs := j.outputs ++ [.error ⟨"Error occurred while awaiting task"⟩] }

end JoinHandle

/-- Where the wrapped future stands. -/
inductive WrappedPc (V : Type*)
  /-- At `future.await`, between two polls. -/
  | awaiting
  /-- A poll of the future has returned `Pending`. -/
  | yielding
  /-- The future has returned its output, and `tx_bound.send(res)` comes next. -/
  | completed (v : V)
  /-- The inner send was accepted. The rest of `send` and the drop of `tx_bound` come next, the
  latter at once if `send` has panicked. -/
  | sending (panicked : Bool)
  | ended

/-- Whose steps the steps of a channel are, when its sender is moved into a task and its receiver
into a handle. -/
inductive Party
  | task
  | handle
  | others
  /-- Steps that nobody makes: there is one sender, and the handle is not dropped. -/
  | nobody
  deriving DecidableEq

/-- The party that makes a step, apart from the inner send. -/
def ChannelLabel.party {T σ : Type*} : ChannelLabel T σ → Party
  | .count _ | .register _ | .wake _ | .drop _ | .dropped _ => .task
  | .load | .store | .tryRecv | .decrement => .handle
  | .reactor | .other _ | .otherWake => .others
  | .clone _ _ | .send _ _ | .dropReceiver => .nobody

/-- The parties. `output` is what the future returned, and `resumed` says that the wrapped future
was polled after its end. -/
structure SpawnState (τ : Type*) {κ : Type*} (El : κ → Type*) (k : κ) where
  rt : Runtime τ
  wrapped : WrappedPc (El k)
  chan : ChannelState (Dyn El) Unit
  handle : JoinHandle El k
  output : Option (El k)
  resumed : Bool

/-- Who moves. -/
inductive SpawnLabel (τ : Type*) {κ : Type*} (El : κ → Type*) (k : κ)
  /-- A step of the runtime that does not end a poll of the task. -/
  | base (a : Runtime.Label τ)
  /-- The executor polls the wrapped future, and that the future, which is `Pending` or ready. -/
  | poll (e : ExecutorId) (o : Poll (El k))
  | send
  | chan (a : ChannelLabel (Dyn El) Unit)
  /-- The poll of the task ends. -/
  | leave (e : ExecutorId)

namespace SpawnState

variable {τ κ : Type*} [DecidableEq τ] [DecidableEq κ] {El : κ → Type*} {k : κ}

/-- A step of the channel that the handle makes. -/
def join (s : SpawnState τ El k) (c : ChannelState (Dyn El) Unit) : SpawnState τ El k :=
  match c.polls.drop s.chan.polls.length with
  | p :: _ => { s with chan := c, handle := s.handle.await.settle p.result }
  | [] => { s with chan := c, handle := s.handle.await }

/-- How the poll of the wrapped future ends. -/
def outcome (s : SpawnState τ El k) : Option Outcome :=
  match s.wrapped, s.chan.sender () with
  | .yielding, _ => some .pending
  | .sending panicked, .absent => some (if panicked then .panic else .ready)
  | _, _ => none

/-- One step of one party, for the task `t`. The handle is polled up to its first `Ready`. -/
def step (t : τ) (reactor_tag : ReactorTag) (s : SpawnState τ El k) :
    SpawnLabel τ El k → Option (SpawnState τ El k)
  | .base a => if s.rt.EndsPoll t a then none else (s.rt.step a).map fun rt => { s with rt := rt }
  | .poll e o =>
      if s.rt.x.pc e = .polling t then
        match s.wrapped, o with
        | .awaiting, .pending => some { s with wrapped := .yielding }
        | .awaiting, .ready v => some { s with wrapped := .completed v, output := some v }
        | .ended, _ => some { s with resumed := true }
        | _, _ => none
      else none
  | .send =>
      match s.wrapped with
      | .completed v => (s.chan.step reactor_tag (.send () ⟨k, v⟩)).map fun c =>
          { s with chan := c, wrapped := .sending false }
      | _ => none
  | .chan a =>
      (s.chan.step reactor_tag a).bind fun c =>
      match a.party, s.wrapped with
      | .task, .sending panicked => some { s with
          chan := c
          wrapped := .sending (panicked || c.sender () = .panicked) }
      | .handle, _ => if s.handle.outputs.isEmpty then some (s.join c) else none
      | .others, _ => some { s with chan := c }
      | _, _ => none
  | .leave e =>
      if s.rt.x.pc e = .polling t then
        s.outcome.bind fun o => (s.rt.step (.work (.polled e o))).map fun rt => { s with
          rt := rt
          wrapped := if o = .pending then .awaiting else .ended }
      else none

end SpawnState

/-- The task `t` that `spawn` makes of a future with an output of the type with code `k`, on a
channel with the given tag. -/
def spawned {τ κ : Type*} [DecidableEq τ] [DecidableEq κ] (El : κ → Type*) (k : κ)
    (ids : List ExecutorId) (t : τ) (reactor_tag : ReactorTag) :
    TransitionSystem (SpawnState τ El k) (SpawnLabel τ El k) where
  init s := (runtime ids).init s.rt ∧ s = ⟨s.rt, .awaiting, .new 1 (), .new, none, false⟩
  step := SpawnState.step t reactor_tag

namespace SpawnState

variable {τ κ : Type*} [DecidableEq τ] [DecidableEq κ] {El : κ → Type*} {k : κ}
  {ids : List ExecutorId} {t : τ} {reactor_tag : ReactorTag} {s s' : SpawnState τ El k}

/-- How far the wrapped future is: its output, whether its sender is still unused, and what the
inner channel has accepted. -/
inductive Progress (k : κ) : WrappedPc (El k) → Option (El k) → SenderPc → List (Dyn El) → Prop
  | awaiting : Progress k .awaiting none .idle []
  | yielding : Progress k .yielding none .idle []
  | completed (v : El k) : Progress k (.completed v) (some v) .idle []
  | sending (panicked : Bool) (v : El k) (pc : SenderPc) :
      Progress k (.sending panicked) (some v) pc [⟨k, v⟩]
  | ended (v : El k) (pc : SenderPc) : Progress k .ended (some v) pc [⟨k, v⟩]

/-- What the handle has returned, and what it has received. -/
inductive Joined (k : κ) (output : Option (El k)) :
    List (Except JoinHandleError (El k)) → List (Dyn El) → Prop
  | not : Joined k output [] []
  | ready (v : El k) (hv : output = some v) : Joined k output [.ok v] [⟨k, v⟩]

/-- The invariant. -/
structure Ok (ids : List ExecutorId) (t : τ) (reactor_tag : ReactorTag) (s : SpawnState τ El k) :
    Prop where
  rt : (runtime ids).Reachable s.rt
  chan : (ChannelState.system (Dyn El) Unit 1 reactor_tag).Reachable s.chan
  receiver : s.chan.receiver ≠ .dropped
  progress : Progress k s.wrapped s.output (s.chan.sender ()) s.chan.accepted
  ended : s.wrapped = .ended → (s.rt.x.task t).finished = true ∨ (s.rt.x.task t).panicked = true
  joined : Joined k s.output s.handle.outputs s.chan.received
  failed : s.handle.failed = false
  resumed : s.resumed = false

theorem Ok.init (h : (spawned El k ids t reactor_tag).init s) : Ok ids t reactor_tag s := by
  obtain ⟨hrt, hs⟩ := h
  rw [hs]
  exact ⟨.init hrt, .init ⟨(), rfl⟩, by simp [ChannelState.new],
    by simpa [ChannelState.new] using Progress.awaiting, fun h => (by cases h), .not, rfl, rfl⟩

/-! ### Steps of the runtime -/

section Steps

omit [DecidableEq κ]

/-- A step of the runtime alone. -/
theorem Ok.base (h : Ok ids t reactor_tag s) {b : Runtime.Label τ} {rt : Runtime τ}
    (hends : ¬ s.rt.EndsPoll t b) (hs : s.rt.step b = some rt) :
    Ok ids t reactor_tag { s with rt := rt } := by
  have hund := (Runtime.next_of_step hs).undisturbed hends
  refine ⟨h.rt.step trivial hs, h.chan, h.receiver, h.progress, fun hended => ?_, h.joined,
    h.failed, h.resumed⟩
  rw [hund.finished, hund.panicked]
  exact h.ended hended

/-- An executor polls the wrapped future, which has not ended. -/
theorem Ok.poll (h : Ok ids t reactor_tag s) {e : ExecutorId} (hpc : s.rt.x.pc e = .polling t) :
    s.wrapped ≠ .ended := by
  intro hended
  have hok := (Runtime.invariant h.rt).ok
  rcases h.ended hended with hfinished | hpanicked
  · rw [(hok.polling e t hpc).2] at hfinished
    cases hfinished
  · rw [hok.not_panicked (e := e) (t := t) (by rw [hpc]; rfl) (by simp [hpc])] at hpanicked
    cases hpanicked

/-- The poll of the task ends. -/
theorem Ok.leave (h : Ok ids t reactor_tag s) {e : ExecutorId} {o : Outcome} {rt : Runtime τ}
    (hpc : s.rt.x.pc e = .polling t) (ho : s.outcome = some o)
    (hs : s.rt.step (.work (.polled e o)) = some rt) : Ok ids t reactor_tag { s with
      rt := rt
      wrapped := if o = .pending then .awaiting else .ended } := by
  have hrt : (runtime ids).Reachable rt := h.rt.step (a := .work (.polled e o)) trivial hs
  refine ⟨hrt, h.chan, h.receiver, ?_, fun hended => ?_, h.joined, h.failed, h.resumed⟩
  · have hprogress := h.progress
    unfold outcome at ho
    split at ho
    · rename_i hwrapped
      cases ho
      rw [hwrapped] at hprogress
      simp only [if_true]
      generalize s.output = output, s.chan.sender () = pc, s.chan.accepted = accepted
        at hprogress ⊢
      cases hprogress
      exact .awaiting
    · rename_i panicked hwrapped hpc'
      rw [hwrapped] at hprogress
      have hne : o ≠ .pending := by
        cases ho
        cases panicked <;> simp
      rw [if_neg hne]
      generalize s.output = output, s.chan.sender () = pc, s.chan.accepted = accepted
        at hprogress ⊢
      cases hprogress with
      | sending _ v => exact .ended v _
    · cases ho
  · cases o with
    | pending => simp at hended
    | ready =>
      simp only [Runtime.step, Executors.step, hpc, Option.map_some, Option.some.injEq] at hs
      subst hs
      exact .inl (by simp)
    | panic =>
      simp only [Runtime.step, Executors.step, hpc, Option.map_some, Option.some.injEq] at hs
      subst hs
      exact .inr (by simp)

/-! ### Steps of the channel -/

section Channel

variable {T σ : Type*} [DecidableEq σ] [Fintype σ] {c c' : ChannelState T σ}
  {a : ChannelLabel T σ}

/-- Only the inner send has an item accepted. -/
theorem accepted_of_party (hs : ChannelState.Next reactor_tag c a c') (ha : a.party ≠ .nobody) :
    c'.accepted = c.accepted := by
  cases hs with
  | send | refused | clone | dropReceiver => exact absurd rfl ha
  | _ => rfl

theorem receiver_of_party (hs : ChannelState.Next reactor_tag c a c') (ha : a.party ≠ .nobody)
    (hr : c.receiver ≠ .dropped) : c'.receiver ≠ .dropped := by
  cases hs with
  | send | refused | clone | dropReceiver => exact absurd rfl ha
  | loadZero | loadPos | store | tryRecv | tryRecvError | decrement => simp [ChannelState.returns]
  | _ => exact hr

theorem sender_of_party (hs : ChannelState.Next reactor_tag c a c')
    (ha : a.party = .handle ∨ a.party = .others) : c'.sender = c.sender := by
  cases hs with
  | clone | send | refused | count | register | overflow | wake | drop | dropped | dropReceiver =>
    rcases ha with ha | ha <;> cases ha
  | _ => rfl

theorem polls_of_party (hs : ChannelState.Next reactor_tag c a c')
    (ha : a.party = .task ∨ a.party = .others) : c'.polls = c.polls := by
  cases hs with
  | clone | send | refused | loadZero | loadPos | store | tryRecv | tryRecvError | decrement
  | dropReceiver => rcases ha with ha | ha <;> cases ha
  | _ => rfl

end Channel

/-- Before the future is ready there is no output, and the sender is unused. -/
theorem Ok.unused (h : Ok ids t reactor_tag s) (hwrapped : s.wrapped = .awaiting) :
    s.output = none ∧ s.chan.sender () = .idle ∧ s.chan.accepted = [] := by
  have hprogress := h.progress
  rw [hwrapped] at hprogress
  generalize s.output = output, s.chan.sender () = pc, s.chan.accepted = accepted at hprogress ⊢
  cases hprogress
  exact ⟨rfl, rfl, rfl⟩

/-- A poll of the future is `Pending`. -/
theorem Ok.yields (h : Ok ids t reactor_tag s) (hwrapped : s.wrapped = .awaiting) :
    Ok ids t reactor_tag { s with wrapped := .yielding } := by
  obtain ⟨houtput, hpc, haccepted⟩ := h.unused hwrapped
  refine ⟨h.rt, h.chan, h.receiver, ?_, fun hended => (by cases hended), h.joined, h.failed,
    h.resumed⟩
  show Progress k .yielding s.output (s.chan.sender ()) s.chan.accepted
  rw [houtput, hpc, haccepted]
  exact .yielding

/-- The future is ready. The handle has returned nothing yet. -/
theorem Ok.completes (h : Ok ids t reactor_tag s) (hwrapped : s.wrapped = .awaiting) (v : El k) :
    Ok ids t reactor_tag { s with wrapped := .completed v, output := some v } := by
  obtain ⟨houtput, hpc, haccepted⟩ := h.unused hwrapped
  refine ⟨h.rt, h.chan, h.receiver, ?_, fun hended => (by cases hended), ?_, h.failed, h.resumed⟩
  · show Progress k (.completed v) (some v) (s.chan.sender ()) s.chan.accepted
    rw [hpc, haccepted]
    exact .completed v
  · have hjoined := h.joined
    rw [houtput] at hjoined
    generalize s.handle.outputs = outputs, s.chan.received = received at hjoined ⊢
    cases hjoined with
    | not => exact .not
    | ready w hw => cases hw

/-- The inner send is accepted, because nothing was sent before. -/
theorem Ok.accepts (h : Ok ids t reactor_tag s) {v : El k} (hwrapped : s.wrapped = .completed v) :
    ∃ ch : SyncChannel (Dyn El), s.chan.step reactor_tag (.send () ⟨k, v⟩) = some { s.chan with
      chan := { s.chan.chan with inner := ch }
      sender := Function.update s.chan.sender () .sent
      accepted := [⟨k, v⟩] } := by
  have hprogress := h.progress
  rw [hwrapped] at hprogress
  have hbal := ChannelState.balanced h.chan
  have halive := hbal.alive_of_ne h.receiver
  have horder := hbal.order halive
  obtain ⟨hidle, haccepted⟩ : s.chan.sender () = .idle ∧ s.chan.accepted = [] := by
    generalize s.output = output, s.chan.sender () = pc, s.chan.accepted = accepted at hprogress
    cases hprogress
    exact ⟨rfl, rfl⟩
  have hitems : s.chan.chan.inner.items = [] := by
    rw [haccepted, eq_comm, List.append_eq_nil_iff] at horder
    exact horder.2
  obtain ⟨ch, hch⟩ := SyncChannel.send_ne_error (⟨k, v⟩ : Dyn El) halive
    (by rw [hitems, hbal.bound_eq]; simp)
  exact ⟨ch, by simp [ChannelState.step, BoundedChannel.innerSend, hidle, hch, haccepted,
    Except.map]⟩

/-- The task sends the output. -/
theorem Ok.send (h : Ok ids t reactor_tag s) {v : El k} {c : ChannelState (Dyn El) Unit}
    (hwrapped : s.wrapped = .completed v)
    (hs : s.chan.step reactor_tag (.send () ⟨k, v⟩) = some c) :
    Ok ids t reactor_tag { s with chan := c, wrapped := .sending false } := by
  have hchan : (ChannelState.system (Dyn El) Unit 1 reactor_tag).Reachable c :=
    h.chan.step (a := .send () ⟨k, v⟩) trivial hs
  obtain ⟨ch, hch⟩ := h.accepts hwrapped
  rw [hch] at hs
  cases hs
  refine ⟨h.rt, hchan, h.receiver, ?_, fun hended => (by cases hended), h.joined, h.failed,
    h.resumed⟩
  have hprogress := h.progress
  rw [hwrapped] at hprogress
  generalize s.output = output, s.chan.sender () = pc, s.chan.accepted = accepted at hprogress ⊢
  cases hprogress
  exact .sending false v _

/-- The task goes on with the send, or drops its sender. -/
theorem Ok.task (h : Ok ids t reactor_tag s) {a : ChannelLabel (Dyn El) Unit} {panicked p : Bool}
    {c : ChannelState (Dyn El) Unit} (hwrapped : s.wrapped = .sending panicked)
    (ha : a.party = .task) (hs : s.chan.step reactor_tag a = some c) :
    Ok ids t reactor_tag { s with chan := c, wrapped := .sending p } := by
  have hnext := ChannelState.next_of_step hs
  have hchan : (ChannelState.system (Dyn El) Unit 1 reactor_tag).Reachable c :=
    h.chan.step trivial hs
  have hne : a.party ≠ .nobody := by rw [ha]; simp
  refine ⟨h.rt, hchan, receiver_of_party hnext hne h.receiver, ?_, fun hended => (by cases hended),
    ?_, h.failed, h.resumed⟩
  · have hprogress := h.progress
    rw [hwrapped] at hprogress
    rw [accepted_of_party hnext hne]
    generalize s.output = output, s.chan.sender () = pc, s.chan.accepted = accepted at hprogress ⊢
    cases hprogress with
    | sending _ v => exact .sending p v _
  · show Joined k s.output s.handle.outputs c.received
    rw [ChannelState.received, polls_of_party hnext (.inl ha)]
    exact h.joined

/-- The reactor thread and its other users do nothing to the channel. -/
theorem Ok.others (h : Ok ids t reactor_tag s) {a : ChannelLabel (Dyn El) Unit}
    {c : ChannelState (Dyn El) Unit} (ha : a.party = .others)
    (hs : s.chan.step reactor_tag a = some c) : Ok ids t reactor_tag { s with chan := c } := by
  have hnext := ChannelState.next_of_step hs
  have hchan : (ChannelState.system (Dyn El) Unit 1 reactor_tag).Reachable c :=
    h.chan.step trivial hs
  have hne : a.party ≠ .nobody := by rw [ha]; simp
  refine ⟨h.rt, hchan, receiver_of_party hnext hne h.receiver, ?_, h.ended, ?_, h.failed, h.resumed⟩
  · rw [accepted_of_party hnext hne, sender_of_party hnext (.inr ha)]
    exact h.progress
  · show Joined k s.output s.handle.outputs c.received
    rw [ChannelState.received, polls_of_party hnext (.inr ha)]
    exact h.joined

/-- An item that the handle has received is the output of the future. -/
theorem Ok.output_of_received (h : Ok ids t reactor_tag s) {c : ChannelState (Dyn El) Unit}
    (hc : c.Balanced 1) (haccepted : c.accepted = s.chan.accepted) {d : Dyn El}
    (hd : c.received = [d]) : ∃ v, s.output = some v ∧ d = ⟨k, v⟩ := by
  have hprefix := hc.prefix_
  rw [haccepted, hd] at hprefix
  have hprogress := h.progress
  generalize s.wrapped = wrapped, s.output = output, s.chan.sender () = pc,
    s.chan.accepted = accepted at hprogress hprefix ⊢
  cases hprogress with
  | awaiting | yielding | completed => simp at hprefix
  | sending panicked v | ended v => exact ⟨v, rfl, by simpa using hprefix⟩

end Steps

omit [DecidableEq τ] in
/-- What a step of a poll of the handle makes of it, as long as the poll has not returned, -/
theorem join_of_polls_eq {c : ChannelState (Dyn El) Unit} (hc : c.polls = s.chan.polls) :
    s.join c = { s with chan := c, handle := s.handle.await } := by
  simp [join, hc]

omit [DecidableEq τ] in
/-- and when the poll of the inner future has returned. -/
theorem join_of_returned {c : ChannelState (Dyn El) Unit} {p : PollRecord (Dyn El)}
    (hc : c.polls = s.chan.polls ++ [p]) :
    s.join c = { s with chan := c, handle := s.handle.await.settle p.result } := by
  simp [join, hc]

/-- A step of a poll of the handle. -/
theorem Ok.join (h : Ok ids t reactor_tag s) {a : ChannelLabel (Dyn El) Unit}
    {c : ChannelState (Dyn El) Unit} (ha : a.party = .handle)
    (houtputs : s.handle.outputs = []) (hs : s.chan.step reactor_tag a = some c) :
    Ok ids t reactor_tag (s.join c) := by
  have hnext := ChannelState.next_of_step hs
  have hchan : (ChannelState.system (Dyn El) Unit 1 reactor_tag).Reachable c :=
    h.chan.step trivial hs
  have hbal := ChannelState.balanced hchan
  have hne : a.party ≠ .nobody := by rw [ha]; simp
  have haccepted := accepted_of_party hnext hne
  have hnil : s.chan.received = [] := by
    have hjoined := h.joined
    rw [houtputs] at hjoined
    generalize s.chan.received = received at hjoined ⊢
    cases hjoined
    rfl
  -- Whatever the handle makes of the step, the rest is as it was.
  have hrest : ∀ j : JoinHandle El k, Joined k s.output j.outputs c.received → j.failed = false →
      Ok ids t reactor_tag { s with chan := c, handle := j } := by
    intro j hjoined hfailed
    refine ⟨h.rt, hchan, receiver_of_party hnext hne h.receiver, ?_, h.ended, hjoined, hfailed,
      h.resumed⟩
    rw [haccepted, sender_of_party hnext (.inl ha)]
    exact h.progress
  have hnot : c.received = [] → Joined k s.output s.handle.outputs c.received := by
    intro hc
    rw [houtputs, hc]
    exact .not
  have hsame : c.polls = s.chan.polls → Ok ids t reactor_tag (s.join c) := by
    intro hpolls
    rw [join_of_polls_eq hpolls]
    refine hrest _ (hnot ?_) h.failed
    rw [ChannelState.received, hpolls]
    exact hnil
  cases hnext with
  | loadZero | loadPos | tryRecv => exact hsame rfl
  | store =>
    have hjoin := join_of_returned (s := s)
      (p := ⟨s.chan.closedAtLoad, s.chan.itemsAtLoad, .pending⟩)
      (c := { s.chan with reactor := s.chan.reactor.storeWakerChannel reactor_tag () }.returns
        .pending) rfl
    rw [hjoin]
    refine hrest _ (hnot ?_) h.failed
    rw [ChannelState.received_returns]
    show s.chan.received ++ [] = []
    rw [hnil, List.nil_append]
  | tryRecvError hr hitems =>
    exact absurd rfl (hbal.noError _ (List.mem_append_right _ (List.mem_singleton_self _)) _)
  | @decrement d hr =>
    have hjoin := join_of_returned (s := s)
      (p := ⟨s.chan.closedAtLoad, s.chan.itemsAtLoad, .ready (.ok d)⟩)
      (c := { s.chan with chan := s.chan.chan.fetchSubCnt }.returns (.ready (.ok d))) rfl
    have hd : ({ s.chan with chan := s.chan.chan.fetchSubCnt }.returns
        (.ready (.ok d))).received = [d] := by
      rw [ChannelState.received_returns]
      show s.chan.received ++ [d] = [d]
      rw [hnil, List.nil_append]
    obtain ⟨v, hv, rfl⟩ := h.output_of_received hbal rfl hd
    rw [hjoin]
    refine hrest _ ?_ ?_
    · rw [hd]
      simpa [JoinHandle.settle, Dyn.downcast_mk, JoinHandle.await, houtputs] using Joined.ready v hv
    · simpa [JoinHandle.settle, Dyn.downcast_mk, JoinHandle.await] using h.failed
  | _ => cases ha

theorem Ok.step (h : Ok ids t reactor_tag s) {l : SpawnLabel τ El k}
    (hs : s.step t reactor_tag l = some s') : Ok ids t reactor_tag s' := by
  cases l with
  | base b =>
    simp only [SpawnState.step, Option.ite_none_left_eq_some, Option.map_eq_some_iff] at hs
    obtain ⟨hends, rt, hrt, rfl⟩ := hs
    exact h.base hends hrt
  | poll e o =>
    simp only [SpawnState.step, Option.ite_none_right_eq_some] at hs
    obtain ⟨hpc, hs⟩ := hs
    have hended := h.poll hpc
    split at hs
    · rename_i hwrapped
      cases hs
      exact h.yields hwrapped
    · rename_i v hwrapped
      cases hs
      exact h.completes hwrapped v
    · rename_i hwrapped
      exact absurd hwrapped hended
    · cases hs
  | send =>
    simp only [SpawnState.step] at hs
    split at hs
    · rename_i v hwrapped
      rw [Option.map_eq_some_iff] at hs
      obtain ⟨c, hc, rfl⟩ := hs
      exact h.send hwrapped hc
    · cases hs
  | chan a =>
    simp only [SpawnState.step, Option.bind_eq_some_iff] at hs
    obtain ⟨c, hc, hs⟩ := hs
    split at hs
    · rename_i ha hwrapped
      cases hs
      exact h.task hwrapped ha hc
    · rename_i ha
      rw [Option.ite_none_right_eq_some] at hs
      obtain ⟨houtputs, hs⟩ := hs
      cases hs
      exact h.join ha (List.isEmpty_iff.1 houtputs) hc
    · rename_i ha
      cases hs
      exact h.others ha hc
    · cases hs
  | leave e =>
    simp only [SpawnState.step, Option.ite_none_right_eq_some, Option.bind_eq_some_iff,
      Option.map_eq_some_iff] at hs
    obtain ⟨hpc, o, ho, rt, hrt, rfl⟩ := hs
    exact h.leave hpc ho hrt

theorem ok (h : (spawned El k ids t reactor_tag).Reachable s) : Ok ids t reactor_tag s :=
  h.invariant (fun _ => .init) fun _ _ _ hok hs => hok.step hs

/-- In every interleaving of the executors with the polls of the handle: the handle returns nothing
before the future has returned its output, and then at most that output, as `Ok`; no cast fails,
and no poll comes after the end; the send is accepted whenever it comes, and the task does not end
without it or with a second one. -/
theorem join_yields_output (h : (spawned El k ids t reactor_tag).Reachable s) :
    (s.handle.outputs = [] ∨ ∃ v, s.output = some v ∧ s.handle.outputs = [.ok v]) ∧
      s.handle.failed = false ∧ s.resumed = false ∧
      (∀ v, s.wrapped = .completed v →
        s.chan.accepted = [] ∧ (s.step t reactor_tag .send).isSome) ∧
      (s.chan.accepted = [] ∨ ∃ v, s.output = some v ∧ s.chan.accepted = [⟨k, v⟩]) ∧
      (s.wrapped = .ended → ∃ v, s.output = some v ∧ s.chan.accepted = [⟨k, v⟩]) := by
  have hok := ok h
  have hjoined := hok.joined
  have hprogress := hok.progress
  refine ⟨?_, hok.failed, hok.resumed, fun v hwrapped => ⟨?_, ?_⟩, ?_, fun hended => ?_⟩
  · generalize s.output = output, s.handle.outputs = outputs, s.chan.received = received
      at hjoined ⊢
    cases hjoined with
    | not => exact .inl rfl
    | ready v hv => exact .inr ⟨v, hv, rfl⟩
  · rw [hwrapped] at hprogress
    generalize s.output = output, s.chan.sender () = pc, s.chan.accepted = accepted at hprogress ⊢
    cases hprogress
    rfl
  · obtain ⟨ch, hch⟩ := hok.accepts hwrapped
    simp [SpawnState.step, hwrapped, hch]
  · generalize s.wrapped = wrapped, s.output = output, s.chan.sender () = pc,
      s.chan.accepted = accepted at hprogress ⊢
    cases hprogress with
    | awaiting | yielding | completed => exact .inl rfl
    | sending _ v | ended v => exact .inr ⟨v, rfl, rfl⟩
  · rw [hended] at hprogress
    generalize s.output = output, s.chan.sender () = pc, s.chan.accepted = accepted at hprogress ⊢
    cases hprogress with
    | ended v => exact ⟨v, rfl, rfl⟩

/-- The future is `Pending` once, the handle is polled too early, and then in the middle of the
send. -/
def polledInSend : List (SpawnLabel ℕ (fun _ : Unit => ℕ) ()) :=
  [.base (.register 5), .base (.recv 0), .base (.work (.lock 0)), .base (.work (.look 0)),
    .poll 0 .pending, .leave 0, .base (.work (.unlock 0)), .base (.ready 0), .chan .load,
    .chan .store, .base (.register 5), .base (.recv 0), .base (.work (.lock 0)),
    .base (.work (.look 0)), .poll 0 (.ready 7), .send, .chan (.count ()), .chan .load,
    .chan .tryRecv, .chan .decrement, .chan (.register ()), .chan (.wake ()), .chan (.drop ()),
    .chan (.dropped ()), .leave 0]

theorem join_yields_output_polledInSend :
    ∃ s : SpawnState ℕ (fun _ : Unit => ℕ) (), s.handle.outputs = [.ok 7] ∧
      s.chan.accepted = [⟨(), 7⟩] := by
  obtain ⟨s, hs, houtput, houtputs, haccepted⟩ := TransitionSystem.exists_reachableUnder
    (S := spawned (fun _ : Unit => ℕ) () [0] 5 3) (C := fun _ _ => True)
    (s := ⟨⟨_, .new, []⟩, .awaiting, .new 1 (), .new, none, false⟩)
    ⟨⟨_, rfl, by decide, rfl⟩, rfl⟩ polledInSend
    (p := fun s => s.output = some (7 : ℕ) ∧ s.handle.outputs.length = 1 ∧
      s.chan.accepted.length = 1) (by decide)
  obtain ⟨hout, -, -, -, hacc, -⟩ := join_yields_output hs
  refine ⟨s, ?_, ?_⟩
  · rcases hout with hnil | ⟨v, hv, hone⟩
    · rw [hnil] at houtputs
      cases houtputs
    · rw [houtput] at hv
      cases hv
      exact hone
  · rcases hacc with hnil | ⟨v, hv, hone⟩
    · rw [hnil] at haccepted
      cases haccepted
    · rw [houtput] at hv
      cases hv
      exact hone

end SpawnState

end Hooch
