import Hooch.Sync.Wakeups
import Hooch.Task.Calls

/-!
# A receiver on the runtime

A task of the runtime awaits `recv` on a bounded channel, in any number of calls one after another.
The senders are on any threads. When the reactor thread finds the stored waker it wakes the task.

* `ChannelAwait`, `step`, `channelAwait`: the channel of `ChannelState` and the runtime together;
* `Ok`: the invariant; a receiver that was woken has to poll again, as `Calls` says;
* `runsOn`, `channelRunsOn`: the system runs on the runtime and on the channel;
* `recv_returns`: in a fair run that spends no registration, a call with an item in its channel
  returns an item.
-/

namespace Hooch

open TransitionSystem

/-- The runtime, and a channel that one of its tasks receives from. -/
structure ChannelAwait (τ T σ : Type*) where
  rt : Runtime τ
  chan : ChannelState T σ
  /-- `poll_recv` has returned `Pending` in the poll of the task that goes on. -/
  pending : τ → Bool

namespace ChannelAwait

/-- What the receiver does. -/
inductive RecvStep
  | load
  | store
  | tryRecv
  | decrement
  | dropReceiver
  deriving DecidableEq

/-- The step of the channel. -/
def RecvStep.label {T σ : Type*} : RecvStep → ChannelLabel T σ
  | .load => .load
  | .store => .store
  | .tryRecv => .tryRecv
  | .decrement => .decrement
  | .dropReceiver => .dropReceiver

/-- Who moves. -/
inductive Label (τ T σ : Type*)
  | base (a : Runtime.Label τ)
  /-- The task, polled by the executor, moves in `poll_recv`. -/
  | recv (e : ExecutorId) (c : RecvStep)
  /-- A sender, or somebody else who uses the reactor. -/
  | party (a : ChannelLabel T σ)
  | reactor

/-- A step of neither the receiver nor the reactor thread. -/
def IsParty {T σ : Type*} : ChannelLabel T σ → Prop
  | .load | .store | .tryRecv | .decrement | .dropReceiver | .reactor => False
  | _ => True

instance {T σ : Type*} : DecidablePred (IsParty : ChannelLabel T σ → Prop)
  | .load | .store | .tryRecv | .decrement | .dropReceiver | .reactor => .isFalse id
  | .clone _ _ | .send _ _ | .count _ | .register _ | .wake _ | .drop _ | .dropped _ | .other _
  | .otherWake => .isTrue trivial

/-- A call of `recv` goes on. -/
def InCall {T : Type*} : ReceiverPc T → Prop
  | .idle | .dropped => False
  | _ => True

instance {T : Type*} : DecidablePred (InCall : ReceiverPc T → Prop)
  | .idle | .dropped => .isFalse id
  | .parked | .loadedZero | .loadedPos | .received _ => .isTrue trivial

variable {τ T σ : Type*} [DecidableEq τ] [DecidableEq σ] [Fintype σ]

/-- The task is in a call. -/
def Busy (t : τ) (k : ChannelState T σ) (u : τ) : Prop := u = t ∧ InCall k.receiver

instance (t : τ) (k : ChannelState T σ) : DecidablePred (Busy t k) := fun _ =>
  inferInstanceAs (Decidable (_ ∧ _))

/-- Its last `poll_recv` has returned `Pending`. -/
def Parked (t : τ) (k : ChannelState T σ) (u : τ) : Prop := u = t ∧ k.receiver.isParked = true

/-- It has to poll again: it saw a count of 0, and was woken since. -/
def Due (t : τ) (k : ChannelState T σ) (u : τ) : Prop :=
  u = t ∧ k.receiver.waits = true ∧ k.woken = true

/-- The waker that the next step of the reactor thread wakes. -/
def waker (t : τ) (k : ChannelState T σ) : Option τ :=
  (k.reactor.threadStep.bind Prod.fst).map fun _ => t

/-- One step, for the task `t`. -/
def step (t : τ) (reactor_tag : ReactorTag) (s : ChannelAwait τ T σ) :
    Label τ T σ → Option (ChannelAwait τ T σ)
  | .base a =>
      if Runtime.Allows (Busy t s.chan) s.pending s.rt a then
        (s.rt.step a).map fun rt =>
          { s with rt := rt, pending := Runtime.pendingAfter s.pending s.rt a }
      else none
  | .recv e c =>
      if s.rt.x.pc e = .polling t ∧ (s.pending t = false ∨ c = .dropReceiver) then
        (s.chan.step reactor_tag c.label).map fun k => { s with
          chan := k
          pending := Function.update s.pending t k.receiver.isParked }
      else none
  | .party a =>
      if IsParty a then (s.chan.step reactor_tag a).map fun k => { s with chan := k } else none
  | .reactor =>
      (s.chan.step reactor_tag .reactor).bind fun k =>
        (s.rt.wake (waker t s.chan)).map fun rt => { s with rt := rt, chan := k }

end ChannelAwait

/-- The runtime with the executors `ids`, and a new channel whose receiver the task `t` has. -/
def channelAwait (τ T σ : Type*) [DecidableEq τ] [DecidableEq σ] [Fintype σ] (bound : ℕ)
    (reactor_tag : ReactorTag) (ids : List ExecutorId) (t : τ) :
    TransitionSystem (ChannelAwait τ T σ) (ChannelAwait.Label τ T σ) where
  init s := (runtime ids).init s.rt ∧ (ChannelState.system T σ bound reactor_tag).init s.chan ∧
    s.pending = fun _ => false
  step := ChannelAwait.step t reactor_tag

namespace ChannelAwait

variable {τ T σ : Type*} [DecidableEq τ] [DecidableEq σ] [Fintype σ] {bound : ℕ}
  {reactor_tag : ReactorTag} {ids : List ExecutorId} {s s' : ChannelAwait τ T σ}
  {l : Label τ T σ} {t : τ} {e : ExecutorId}

/-- What a step does, one case each. -/
inductive Next (t : τ) (reactor_tag : ReactorTag) (s : ChannelAwait τ T σ) :
    Label τ T σ → ChannelAwait τ T σ → Prop
  | base {a : Runtime.Label τ} {rt : Runtime τ}
      (hallows : Runtime.Allows (Busy t s.chan) s.pending s.rt a) (hs : s.rt.step a = some rt) :
      Next t reactor_tag s (.base a)
        { s with rt := rt, pending := Runtime.pendingAfter s.pending s.rt a }
  | recv {e : ExecutorId} {c : RecvStep} {k : ChannelState T σ} (hpc : s.rt.x.pc e = .polling t)
      (hpending : s.pending t = false ∨ c = .dropReceiver)
      (hk : s.chan.step reactor_tag c.label = some k) :
      Next t reactor_tag s (.recv e c) { s with
        chan := k
        pending := Function.update s.pending t k.receiver.isParked }
  | party {a : ChannelLabel T σ} {k : ChannelState T σ} (ha : IsParty a)
      (hk : s.chan.step reactor_tag a = some k) :
      Next t reactor_tag s (.party a) { s with chan := k }
  | reactor {k : ChannelState T σ} {rt : Runtime τ}
      (hk : s.chan.step reactor_tag .reactor = some k)
      (hs : s.rt.wake (waker t s.chan) = some rt) :
      Next t reactor_tag s .reactor { s with rt := rt, chan := k }

theorem next_of_step (h : s.step t reactor_tag l = some s') : Next t reactor_tag s l s' := by
  cases l with
  | base a =>
    simp only [step, Option.ite_none_right_eq_some, Option.map_eq_some_iff] at h
    obtain ⟨hallows, rt, hrt, rfl⟩ := h
    exact .base hallows hrt
  | recv e c =>
    simp only [step, Option.ite_none_right_eq_some, Option.map_eq_some_iff] at h
    obtain ⟨⟨hpc, hpending⟩, k, hk, rfl⟩ := h
    exact .recv hpc hpending hk
  | party a =>
    simp only [step, Option.ite_none_right_eq_some, Option.map_eq_some_iff] at h
    obtain ⟨ha, k, hk, rfl⟩ := h
    exact .party ha hk
  | reactor =>
    simp only [step, Option.bind_eq_some_iff, Option.map_eq_some_iff] at h
    obtain ⟨k, hk, rt, hrt, rfl⟩ := h
    exact .reactor hk hrt

/-! ### The two parts -/

/-- What a step is for the runtime. -/
def runtimeLabel (t : τ) (s : ChannelAwait τ T σ) : Label τ T σ → Option (Runtime.Label τ)
  | .base a => some a
  | .reactor => (waker t s.chan).map .register
  | .recv _ _ | .party _ => none

/-- What a step is for the channel. -/
def channelLabel (_ : ChannelAwait τ T σ) : Label τ T σ → Option (ChannelLabel T σ)
  | .base _ => none
  | .recv _ c => some c.label
  | .party a => some a
  | .reactor => some .reactor

theorem runsOn : RunsOn (channelAwait τ T σ bound reactor_tag ids t) (runtime ids)
    ChannelAwait.rt (runtimeLabel t) where
  init _ h := h.1
  rests s l s' hs hl := by
    cases next_of_step hs with
    | base => cases hl
    | @reactor k rt _ hrt =>
      rw [runtimeLabel, Option.map_eq_none_iff] at hl
      rw [hl] at hrt
      cases hrt
      rfl
    | _ => rfl
  steps s l s' b hs hl := by
    cases next_of_step hs with
    | base _ hrt =>
      cases hl
      exact hrt
    | @reactor k rt _ hrt =>
      rw [runtimeLabel, Option.map_eq_some_iff] at hl
      obtain ⟨u, hu, rfl⟩ := hl
      rw [hu] at hrt
      exact hrt
    | _ => cases hl

theorem channelRunsOn : RunsOn (channelAwait τ T σ bound reactor_tag ids t)
    (ChannelState.system T σ bound reactor_tag) ChannelAwait.chan channelLabel where
  init _ h := h.2.1
  rests s l s' hs hl := by
    cases next_of_step hs with
    | base => rfl
    | _ => cases hl
  steps s l s' b hs hl := by
    cases next_of_step hs with
    | base => cases hl
    | recv _ _ hk | party _ hk | reactor hk =>
      cases hl
      exact hk

/-- Every registration goes through, no poll panics, nobody aborts the task or drops the receiver,
and no registration of the tag is spent that the receiver needs. -/
def Calm (t : τ) (reactor_tag : ReactorTag) (s : ChannelAwait τ T σ) : Label τ T σ → Prop
  | .base a => s.rt.Smooth a ∧ a ≠ .abort t
  | .recv _ c => c ≠ .dropReceiver
  | .party a => s.chan.Calm reactor_tag a
  | .reactor => s.chan.Calm reactor_tag .reactor ∧ ∀ u, waker t s.chan = some u → s.rt.Registers u

instance (s : ChannelAwait τ T σ) : (l : Label τ T σ) → Decidable (Calm t reactor_tag s l)
  | .base a => inferInstanceAs (Decidable (s.rt.Smooth a ∧ a ≠ .abort t))
  | .recv _ c => inferInstanceAs (Decidable (c ≠ .dropReceiver))
  | .party a => inferInstanceAs (Decidable (s.chan.Calm reactor_tag a))
  | .reactor => inferInstanceAs (Decidable (_ ∧ ∀ u ∈ waker t s.chan, s.rt.Registers u))

omit [DecidableEq τ] [DecidableEq σ] [Fintype σ] in
theorem smooth_of_calm {b : Runtime.Label τ} (h : Calm t reactor_tag s l)
    (hb : runtimeLabel t s l = some b) : s.rt.Smooth b := by
  cases l with
  | base a =>
    cases hb
    exact h.1
  | reactor =>
    obtain ⟨u, hu, rfl⟩ := Option.map_eq_some_iff.1 hb
    exact h.2 u hu
  | _ => cases hb

omit [DecidableEq τ] [DecidableEq σ] [Fintype σ] in
theorem calm_of_calm {b : ChannelLabel T σ} (h : Calm t reactor_tag s l)
    (hb : channelLabel s l = some b) : s.chan.Calm reactor_tag b := by
  cases l with
  | base => cases hb
  | recv e c =>
    cases hb
    cases c <;> exact fun hspends => hspends.elim
  | party a =>
    cases hb
    exact h
  | reactor =>
    cases hb
    exact h.1

/-! ### No wake-up is lost -/

/-- The invariant. -/
def Ok (ids : List ExecutorId) (t : τ) (s : ChannelAwait τ T σ) : Prop :=
  Runtime.Calls ids s.rt (Busy t s.chan) (Parked t s.chan) (Due t s.chan) s.pending

theorem serving (h : (channelAwait τ T σ bound reactor_tag ids t).ReachableUnder
    (Calm t reactor_tag) s) : Runtime.Serving ids s.rt :=
  Runtime.serving (runsOn.reachableUnder (fun _ _ _ hc hb => smooth_of_calm hc hb) h)

omit [DecidableEq τ] [DecidableEq σ] [Fintype σ] in
theorem busy_congr {k k' : ChannelState T σ} (h : k'.receiver = k.receiver) :
    Busy t k' = Busy t k ∧ Parked t k' = Parked t k := by
  constructor
  · funext u
    rw [Busy, Busy, h]
  · funext u
    rw [Parked, Parked, h]

omit [DecidableEq τ] [DecidableEq σ] [Fintype σ] in
theorem due_congr {k k' : ChannelState T σ} (h : k'.receiver = k.receiver)
    (hwoken : k'.woken = k.woken) : Due t k' = Due t k := by
  funext u
  rw [Due, Due, h, hwoken]

/-- A step of the others leaves the receiver where it is. -/
theorem party_frame {k k' : ChannelState T σ} {a : ChannelLabel T σ} (ha : IsParty a)
    (hs : ChannelState.Next reactor_tag k a k') :
    k'.receiver = k.receiver ∧ k'.woken = k.woken := by
  cases hs <;> first | exact ⟨rfl, rfl⟩ | exact ha.elim

omit [DecidableEq τ] in
/-- The reactor thread wakes the task, or nobody. -/
theorem reactor_frame {k k' : ChannelState T σ}
    (hs : k.step reactor_tag .reactor = some k') : k'.receiver = k.receiver ∧
      (k'.woken = k.woken ∨ waker t k = some t) := by
  simp only [ChannelState.step, Option.map_eq_some_iff] at hs
  obtain ⟨⟨w, r⟩, hr, rfl⟩ := hs
  refine ⟨rfl, ?_⟩
  cases w with
  | none => exact .inl rfl
  | some w => exact .inr (by simp [waker, hr])

omit [DecidableEq τ] in
/-- A step of the receiver brings no news: it forgets the wake-ups from before, or takes those that
came since it looked at the count. -/
theorem recv_due {k k' : ChannelState T σ} {c : RecvStep}
    (hs : ChannelState.Next reactor_tag k c.label k') {u : τ} (hdue : Due t k' u) :
    Due t k u ∧ ¬ Parked t k u := by
  obtain ⟨rfl, hwaits, hwoken⟩ := hdue
  cases c with
  | load =>
    cases hs with
    | loadZero | loadPos => cases hwoken
  | store =>
    cases hs with
    | store hr =>
      refine ⟨⟨rfl, by rw [hr]; rfl, hwoken⟩, fun hp => ?_⟩
      rw [Parked, hr] at hp
      cases hp.2
  | tryRecv => cases hs <;> simp [ChannelState.returns, ReceiverPc.waits] at hwaits
  | decrement | dropReceiver =>
    cases hs
    simp [ChannelState.returns, ReceiverPc.waits] at hwaits

theorem ok (h : (channelAwait τ T σ bound reactor_tag ids t).ReachableUnder
    (Calm t reactor_tag) s) : Ok ids t s := by
  induction h with
  | init h =>
    have hreach : (channelAwait τ T σ bound reactor_tag ids t).ReachableUnder
      (Calm t reactor_tag) _ := .init h
    obtain ⟨-, ⟨i, hchan⟩, hpending⟩ := h
    refine .of_idle (serving hreach) (fun u hu => ?_) (fun u hu => ?_) fun u => congrFun hpending u
    · rw [Busy, hchan] at hu
      exact hu.2
    · rw [Due, hchan] at hu
      cases hu.2.1
  | @step s s' l h hc hs ih =>
    have hserving := serving (.step h hc hs)
    cases next_of_step hs with
    | base hallows hrt => exact Runtime.Calls.base ih hserving hallows hrt
    | @recv e c k hpc _ hk =>
      have hnext := ChannelState.next_of_step hk
      refine Runtime.Calls.call ih hpc (fun u hut => ?_) (fun hdue => ?_) fun hp => ⟨rfl, hp⟩
      · simp [Busy, Parked, Due, hut]
      · obtain ⟨hold, hnot⟩ := recv_due hnext hdue
        refine ⟨⟨rfl, ?_⟩, (ih.woken t hold).2.resolve_right fun hp => hnot hp.1⟩
        have hwaits := hdue.2.1
        cases hr : k.receiver with
        | parked | loadedZero => trivial
        | _ => simp [hr, ReceiverPc.waits] at hwaits
    | @party a k ha hk =>
      obtain ⟨hreceiver, hwoken⟩ := party_frame ha (ChannelState.next_of_step hk)
      rw [Ok, (busy_congr hreceiver).1, (busy_congr hreceiver).2, due_congr hreceiver hwoken]
      exact ih
    | @reactor k rt hk hrt =>
      obtain ⟨hreceiver, hwoken⟩ := reactor_frame (t := t) hk
      rw [Ok, (busy_congr hreceiver).1, (busy_congr hreceiver).2]
      refine Runtime.Calls.wake ih hserving hrt ?_
      · rintro u ⟨rfl, hwaits, hw⟩
        rw [hreceiver] at hwaits
        rcases hwoken with hwoken | hwaker
        · exact .inl ⟨rfl, hwaits, hwoken.symm.trans hw⟩
        · refine .inr ⟨⟨rfl, ?_⟩, hwaker⟩
          cases hr : s.chan.receiver with
          | parked | loadedZero => trivial
          | _ => simp [hr, ReceiverPc.waits] at hwaits

/-! ### In the long run -/

/-- A step of the executor. -/
def Moves (e : ExecutorId) : Label τ T σ → Prop
  | .base a => Runtime.Moves e a
  | .recv e' _ => e' = e
  | .party _ | .reactor => False

/-- The sender goes on with a send that has begun. -/
def Finishes (i : σ) : Label τ T σ → Prop
  | .party a => ChannelState.Finishes i a
  | _ => False

/-- The reactor thread moves. -/
def Handles : Label τ T σ → Prop
  | .reactor => True
  | _ => False

/-- A poll in which the receiver looks goes on until `poll_recv` stores the waker. -/
theorem looks_next (h : Runtime.Looks s.pending e t s.rt) (hbusy : InCall s.chan.receiver)
    (hs : s.step t reactor_tag l = some s') : Runtime.Looks s'.pending e t s'.rt ∨
      s.chan.receiver = .loadedZero ∧ s'.chan.receiver = .parked := by
  obtain ⟨hpc, hpending⟩ := h
  cases next_of_step hs with
  | base hallows hrt =>
    exact .inl (Runtime.Looks.base ⟨hpc, hpending⟩ ⟨rfl, hbusy⟩ hallows hrt)
  | @recv e' c k _ _ hk =>
    have hnext := ChannelState.next_of_step hk
    by_cases hparked : k.receiver.isParked = true
    · cases c with
      | store =>
        cases hnext with
        | store hr => exact .inr ⟨hr, rfl⟩
      | load | tryRecv | decrement | dropReceiver =>
        cases hnext <;> simp [ChannelState.returns, ReceiverPc.isParked] at hparked
    · exact .inl ⟨hpc, by simpa using hparked⟩
  | party => exact .inl ⟨hpc, hpending⟩
  | reactor _ hrt => exact .inl ⟨(Runtime.wake_undisturbed hrt t).polling e hpc, hpending⟩

/-- What the runtime does is what the calls leave. -/
theorem allows_of_step (s : ChannelAwait τ T σ) (l : Label τ T σ) (s' : ChannelAwait τ T σ)
    (b : Runtime.Label τ)
    (hs : (channelAwait τ T σ bound reactor_tag ids t).step s l = some s')
    (hb : runtimeLabel t s l = some b) :
    Runtime.Allows (Busy t s.chan) s.pending s.rt b ∧
      s'.pending = Runtime.pendingAfter s.pending s.rt b := by
  cases next_of_step hs with
  | base hallows =>
    cases hb
    exact ⟨hallows, rfl⟩
  | reactor =>
    obtain ⟨u, -, rfl⟩ := Option.map_eq_some_iff.1 hb
    exact ⟨trivial, rfl⟩
  | _ => cases hb

theorem inCall_of_sawItem {r : ReceiverPc T} (h : r.sawItem = true) : InCall r := by
  cases r with
  | loadedPos | received => trivial
  | _ => cases h

theorem inCall_of_waits {r : ReceiverPc T} (h : r.waits = true) : InCall r := by
  cases r with
  | parked | loadedZero => trivial
  | _ => cases h

/-- A receiver in a call has seen an item, or waits. -/
theorem waits_of_inCall {r : ReceiverPc T} (h : InCall r) (hsaw : r.sawItem ≠ true) :
    r.waits = true := by
  cases r with
  | parked | loadedZero => rfl
  | loadedPos | received => exact absurd rfl hsaw
  | idle | dropped => exact h.elim

/-- The receiver discounts an item in a poll of its task, and returns it. -/
theorem decrement_returns (hs : s.step t reactor_tag (.recv e .decrement) = some s') :
    s.rt.x.pc e = .polling t ∧ ∃ v, s.chan.receiver = .received v := by
  cases next_of_step hs with
  | recv hpc _ hk =>
    cases ChannelState.next_of_step hk with
    | decrement hr => exact ⟨hpc, _, hr⟩

theorem isParty_of_step {a : ChannelLabel T σ} (hs : s.step t reactor_tag (.party a) = some s') :
    IsParty a := by
  cases next_of_step hs with
  | party ha => exact ha

section Runs

variable {x : (channelAwait τ T σ bound reactor_tag ids t).Execution}

/-- What is fair to an executor here is fair to it in the runtime, if its polls end. -/
theorem weaklyFair_runtime (hends : Runtime.PollsEnd (runsOn.execution x) e)
    (hfair : x.WeaklyFair (Moves e)) : (runsOn.execution x).WeaklyFair (Runtime.Moves e) := by
  refine Runtime.weaklyFair_of_pollsEnd runsOn hends (fun s hpc henabled => ?_)
    (fun s l s' hs hl => ?_) hfair
  · obtain ⟨b, hb, hsome⟩ := henabled
    have hallows := Runtime.allows_of_not_polling (Busy t s.chan) s.pending hpc hb
    have hsome' : (s.rt.step b).isSome := hsome
    exact ⟨.base b, hb, by simpa [channelAwait, step, hallows] using hsome'⟩
  · cases next_of_step hs with
    | @base b => exact .inl ⟨b, rfl, hl⟩
    | recv hpc =>
      cases hl
      exact .inr ⟨t, hpc⟩
    | party | reactor => exact hl.elim

theorem weaklyFair_sender {i : σ} (hfair : x.WeaklyFair (Finishes i)) :
    (channelRunsOn.execution x).WeaklyFair (ChannelState.Finishes i) := by
  refine channelRunsOn.weaklyFair_of_steps (fun s henabled => ?_) (fun s l s' _ hl => ?_) hfair
  · obtain ⟨a, ha, hsome⟩ := henabled
    have hparty : IsParty a := by
      cases a with
      | count | register | wake => trivial
      | _ => exact ha.elim
    have hsome' : (s.chan.step reactor_tag a).isSome := hsome
    exact ⟨.party a, ha, by simpa [channelAwait, step, hparty] using hsome'⟩
  · cases l with
    | party a => exact ⟨a, rfl, hl⟩
    | base | recv | reactor => exact hl.elim

theorem weaklyFair_reactor (hfair : x.WeaklyFair Handles) :
    (channelRunsOn.execution x).WeaklyFair ChannelState.Handles := by
  refine channelRunsOn.weaklyFair_of_steps (fun s henabled => ?_) (fun s l s' _ hl => ?_) hfair
  · obtain ⟨a, ha, hsome⟩ := henabled
    cases a with
    | reactor =>
      have hsome' : (s.chan.step reactor_tag .reactor).isSome := hsome
      obtain ⟨k, hk⟩ := Option.isSome_iff_exists.1 hsome'
      have hwake := Runtime.isSome_wake s.rt (waker t s.chan)
      exact ⟨.reactor, trivial, by simpa [channelAwait, step, hk] using hwake⟩
    | _ => exact ha.elim
  · cases l with
    | reactor => exact ⟨.reactor, rfl, trivial⟩
    | base | recv | party => exact hl.elim

/-- Nobody aborts the task. -/
theorem not_aborts (hcalm : x.Under (Calm t reactor_tag)) (m : ℕ) :
    (runsOn.execution x).act m ≠ some (.abort t) := by
  intro hact
  obtain ⟨l, hl, hlb⟩ := Option.bind_eq_some_iff.1 hact
  cases l with
  | base b =>
    cases hlb
    exact (hcalm m _ hl).2 rfl
  | reactor =>
    obtain ⟨u, -, hu⟩ := Option.map_eq_some_iff.1 hlb
    cases hu
  | recv | party => cases hlb

variable {n : ℕ}

/-- A poll in a call that goes on for ever ends when the waker is stored. -/
theorem looks_parks (hends : Runtime.PollsEnd (runsOn.execution x) e)
    (hlooks : Runtime.Looks (x.state n).pending e t (x.state n).rt)
    (hbusy : ∀ m, n ≤ m → InCall (x.state m).chan.receiver) : ∃ m, n ≤ m ∧
      (x.state m).chan.receiver = .loadedZero ∧ (x.state (m + 1)).chan.receiver = .parked := by
  obtain ⟨m', hnm', hpc⟩ := hends n t hlooks.1
  obtain ⟨m, l, hnm, hact, hm, hm'⟩ := Execution.exists_step_of_not
    (P := fun s : ChannelAwait τ T σ => Runtime.Looks s.pending e t s.rt) hnm' hlooks
    fun h => hpc h.1
  exact ⟨m, hnm, (looks_next hm (hbusy m hnm) (x.steps m l hact)).resolve_left hm'⟩

/-- A step that the receiver does not take is none of the receiver in the channel. -/
theorem chan_act {a : ChannelLabel T σ} {c : RecvStep} (ha : a = c.label) {m : ℕ}
    (hact : (channelRunsOn.execution x).act m = some a) : ∃ e, x.act m = some (.recv e c) := by
  obtain ⟨l, hl, hla⟩ := Option.bind_eq_some_iff.1 hact
  have hs := x.steps m l hl
  cases l with
  | base => cases hla
  | recv e c' =>
    cases hla
    have hc : c' = c := by cases c <;> cases c' <;> first | rfl | cases ha
    exact ⟨e, hc ▸ hl⟩
  | party b =>
    cases hla
    have hparty := isParty_of_step (t := t) hs
    subst ha
    cases c <;> exact hparty.elim
  | reactor =>
    cases hla
    cases c <;> cases ha

/-- A receiver that has seen an item takes it. -/
theorem sawItem_returns (hok : ∀ m, Ok ids t (x.state m))
    (hbalanced : ∀ m, ChannelState.Balanced bound (x.state m).chan)
    (hends : ∀ e, Runtime.PollsEnd (runsOn.execution x) e)
    (hsaw : (x.state n).chan.receiver.sawItem = true) :
    ∃ m e, n ≤ m ∧ x.act m = some (.recv e .decrement) := by
  by_contra hnever
  push Not at hnever
  have hstays : ∀ m, n ≤ m → (x.state m).chan.receiver.sawItem = true := fun m hnm =>
    Execution.stable (x := channelRunsOn.execution x)
      (P := fun k : ChannelState T σ => k.receiver.sawItem = true) (fun k a hnk hact hk => by
        have hs := ChannelState.next_of_step ((channelRunsOn.execution x).steps k a hact)
        refine (hbalanced k).sawItem_next hk hs ?_
        rintro rfl
        obtain ⟨e, he⟩ := chan_act (c := .decrement) rfl hact
        exact hnever k e hnk he) hnm hsaw
  have hbusy : ∀ m, n ≤ m → InCall (x.state m).chan.receiver := fun m hnm =>
    inCall_of_sawItem (hstays m hnm)
  obtain ⟨e, hlooks⟩ := Runtime.Calls.looks (hok n) ⟨rfl, hbusy n le_rfl⟩ fun hp => by
    have hparked := hp.2
    cases hr : (x.state n).chan.receiver <;> simp_all [ReceiverPc.sawItem, ReceiverPc.isParked]
  obtain ⟨m, hnm, hzero, -⟩ := looks_parks (hends e) hlooks hbusy
  have := hstays m hnm
  rw [hzero] at this
  cases this

/-- A receiver that waits is parked before long. -/
theorem waits_parks (hok : ∀ m, Ok ids t (x.state m))
    (hends : ∀ e, Runtime.PollsEnd (runsOn.execution x) e)
    (hwaits : ∀ m, n ≤ m → (x.state m).chan.receiver.waits = true) :
    ∃ m, n ≤ m ∧ (x.state m).chan.receiver = .parked := by
  cases hr : (x.state n).chan.receiver with
  | parked => exact ⟨n, le_rfl, hr⟩
  | loadedZero =>
    obtain ⟨e, hlooks⟩ := Runtime.Calls.looks (hok n) ⟨rfl, inCall_of_waits (hwaits n le_rfl)⟩
      fun hp => by
        have hparked := hp.2
        rw [hr] at hparked
        cases hparked
    obtain ⟨m, hnm, -, hparked⟩ := looks_parks (hends e) hlooks fun k hk =>
      inCall_of_waits (hwaits k hk)
    exact ⟨m + 1, by omega, hparked⟩
  | idle | loadedPos | received | dropped =>
    have h := hwaits n le_rfl
    rw [hr] at h
    cases h

/-- A receiver that is woken polls again. -/
theorem woken_polls (hids : ids ≠ []) (hok : ∀ m, Ok ids t (x.state m))
    (hcalm : x.Under (Calm t reactor_tag)) (hfair : ∀ e ∈ ids, x.WeaklyFair (Moves e))
    (hends : ∀ e, Runtime.PollsEnd (runsOn.execution x) e)
    (hparked : (x.state n).chan.receiver = .parked) (hwoken : (x.state n).chan.woken = true) :
    ∃ m, n ≤ m ∧ (x.state m).chan.receiver ≠ .parked := by
  by_contra hnever
  push Not at hnever
  have hbusy : ∀ m, n ≤ m → InCall (x.state m).chan.receiver := fun m hnm => by
    rw [hnever m hnm]
    trivial
  have hdue : Due t (x.state n).chan t := ⟨rfl, by rw [hparked]; rfl, hwoken⟩
  have hlooks : ∃ m e, n ≤ m ∧ Runtime.Looks (x.state m).pending e t (x.state m).rt := by
    rcases Runtime.Calls.looks_or_notified (hok n) hdue with ⟨e, he⟩ | hn
    · exact ⟨n, e, le_rfl, he⟩
    · have hcalls := hok n
      refine Runtime.notified_looks runsOn (fun s => Busy t s.chan) (fun s => Parked t s.chan)
        (fun s => Due t s.chan) pending hids
        (runsOn.under hcalm fun _ _ _ hc hb => smooth_of_calm hc hb)
        (fun e he => weaklyFair_runtime (hends e) (hfair e he)) allows_of_step hok
        (not_aborts hcalm) (fun m hnm => ⟨rfl, hbusy m hnm⟩)
        ⟨hn, hcalls.live t ⟨rfl, hbusy n le_rfl⟩, hcalls.serving.panicked t, ?_⟩
      exact Runtime.abort_of_not_aborts (not_aborts hcalm) n
  obtain ⟨m, e, hnm, hlooks⟩ := hlooks
  obtain ⟨m', hmm', hzero, -⟩ := looks_parks (hends e) hlooks fun k hk => hbusy k (hnm.trans hk)
  rw [hnever m' (hnm.trans hmm')] at hzero
  cases hzero

/-- In a run in which no registration is spent that the receiver needs, every registration of a task
goes through, no poll panics and none goes on for ever, and neither an executor nor the reactor
thread nor a sender in the middle of a send is left aside for ever: a call of `recv` of a task that
nobody aborts and that keeps its receiver returns an item, if the channel has one. -/
theorem recv_returns (hids : ids ≠ []) (hcalm : x.Under (Calm t reactor_tag))
    (hfair : ∀ e ∈ ids, x.WeaklyFair (Moves e))
    (hends : ∀ e, Runtime.PollsEnd (runsOn.execution x) e)
    (hsenders : ∀ i, x.WeaklyFair (Finishes i)) (hreactor : x.WeaklyFair Handles)
    (hcall : InCall (x.state n).chan.receiver) (hne : (x.state n).chan.chan.inner.items ≠ []) :
    ∃ m e v, n ≤ m ∧ x.act m = some (.recv e .decrement) ∧ (x.state m).rt.x.pc e = .polling t ∧
      (x.state m).chan.receiver = .received v := by
  have hok : ∀ m, Ok ids t (x.state m) := fun m => ok (x.reachable hcalm m)
  have hchan := channelRunsOn.under hcalm fun _ _ _ hc hb => calm_of_calm hc hb
  have hbalanced : ∀ m, ChannelState.Balanced bound (x.state m).chan := fun m =>
    ChannelState.balanced (ChannelState.kept_of_calm hchan m).reachable
  suffices h : ∃ m e, n ≤ m ∧ x.act m = some (.recv e .decrement) by
    obtain ⟨m, e, hnm, hact⟩ := h
    obtain ⟨hpc, v, hv⟩ := decrement_returns (x.steps m _ hact)
    exact ⟨m, e, v, hnm, hact, hpc, hv⟩
  by_contra hnever
  push Not at hnever
  have hnext : ∀ {m a}, (channelRunsOn.execution x).act m = some a →
      ChannelState.Next reactor_tag (x.state m).chan a (x.state (m + 1)).chan := fun hact =>
    ChannelState.next_of_step ((channelRunsOn.execution x).steps _ _ hact)
  have hkeeps : ∀ {m a}, (channelRunsOn.execution x).act m = some a → a ≠ .dropReceiver := by
    rintro m a hact rfl
    obtain ⟨e, he⟩ := chan_act (c := .dropReceiver) rfl hact
    exact hcalm m _ he rfl
  have hsaw : ∀ m, n ≤ m → (x.state m).chan.receiver.sawItem ≠ true := by
    intro m hnm h
    obtain ⟨k, e, hmk, hk⟩ := sawItem_returns hok hbalanced hends h
    exact hnever k e (hnm.trans hmk) hk
  -- It does not see the item, so it waits for ever.
  have hwaits : ∀ m, n ≤ m → (x.state m).chan.receiver.waits = true ∧
      (x.state m).chan.chan.inner.items ≠ [] := fun m hnm =>
    Execution.stable (x := channelRunsOn.execution x)
      (P := fun k : ChannelState T σ => k.receiver.waits = true ∧ k.chan.inner.items ≠ [])
      (fun k a hnk hact hk => (ChannelState.waits_next hk.1 hk.2 (hnext hact)
        (hkeeps hact)).resolve_right (hsaw (k + 1) (by omega))) hnm
      ⟨waits_of_inCall hcall (hsaw n le_rfl), hne⟩
  -- In the end the item is counted, and then no load overlooks it.
  obtain ⟨m₁, hnm₁, hcounted⟩ := ChannelState.waits_leadsTo_counted hchan
    (fun i => weaklyFair_sender (hsenders i)) n (hwaits n le_rfl)
  have hcounted : ∀ m, m₁ ≤ m → 0 < (x.state m).chan.chan.queueCnt := fun m hm =>
    Execution.stable (x := channelRunsOn.execution x)
      (P := fun k : ChannelState T σ => 0 < k.chan.queueCnt) (fun k a hk hact hpos => by
        have halive := (hbalanced k).alive_of_ne
          (ChannelState.waits_taken (hwaits k (hnm₁.trans hk)).1).2
        refine (hbalanced k).counted_next halive hpos (hnext hact) ?_
        rintro rfl
        obtain ⟨e, he⟩ := chan_act (c := .decrement) rfl hact
        exact hnever k e (hnm₁.trans hk) he) hm
      (hcounted.resolve_right fun h => absurd ((hwaits m₁ hnm₁).1.symm.trans h) (by simp))
  obtain ⟨m₂, hm₁₂, hparked⟩ := waits_parks hok hends fun m hm => (hwaits m (hnm₁.trans hm)).1
  have hparked : ∀ m, m₂ ≤ m → (x.state m).chan.receiver = .parked := fun m hm =>
    Execution.stable (x := channelRunsOn.execution x)
      (P := fun k : ChannelState T σ => k.receiver = .parked) (fun k a hk hact hp =>
        (ChannelState.parked_next hp (hcounted k (hm₁₂.trans hk)) (hnext hact)
          (hkeeps hact)).resolve_right (hsaw (k + 1) (by omega))) hm hparked
  -- But it is woken, and a poll that is to end is to load.
  obtain ⟨m₃, hm₂₃, hwoken⟩ := ChannelState.parked_leadsTo_woken hchan
    (fun i => weaklyFair_sender (hsenders i)) (weaklyFair_reactor hreactor) m₂
    ⟨by show (x.state m₂).chan.receiver.isParked = true; rw [hparked m₂ le_rfl]; rfl,
      (hwaits m₂ (by omega)).2⟩
  have hp₃ := hparked m₃ hm₂₃
  have hwoken : (x.state m₃).chan.woken = true := hwoken.resolve_right fun h => by
    have h' : (x.state m₃).chan.receiver.isParked = false := h
    rw [hp₃] at h'
    cases h'
  obtain ⟨m₄, hm₃₄, hnot⟩ := woken_polls hids hok hcalm hfair hends hp₃ hwoken
  exact hnot (hparked m₄ (hm₂₃.trans hm₃₄))

end Runs

/-- An executor that waits for a task has no step to make. -/
theorem not_enabled_of_idle (hpc : s.rt.x.pc e = .recv) (hinbox : s.rt.tm.inbox e = []) :
    ¬ (channelAwait τ T σ bound reactor_tag ids t).Enabled (Moves e) s := by
  rintro ⟨l, hl, hs⟩
  obtain ⟨s', hs⟩ := Option.isSome_iff_exists.1 hs
  cases next_of_step hs with
  | base _ hrt =>
    have hidle : ¬ (runtime ids).Enabled (Runtime.Moves e) s.rt :=
      Runtime.not_enabled_of_idle hpc hinbox
    exact hidle ⟨_, hl, Option.isSome_of_eq_some hrt⟩
  | recv he =>
    cases hl
    rw [hpc] at he
    cases he
  | party | reactor => exact hl

/-- Neither has a sender between two calls. -/
theorem not_enabled_of_sender {i : σ} (h : s.chan.sender i = .idle) :
    ¬ (channelAwait τ T σ bound reactor_tag ids t).Enabled (Finishes i) s := by
  rintro ⟨l, hl, hs⟩
  cases l with
  | party a =>
    cases a with
    | count | register | wake =>
      obtain rfl : _ = i := hl
      simp [channelAwait, step, IsParty, ChannelState.step, h] at hs
    | _ => exact hl
  | base | recv | reactor => exact hl

/-- Neither has the reactor thread without a wake. -/
theorem not_enabled_of_reactor (h : s.chan.reactor.Idle) :
    ¬ (channelAwait τ T σ bound reactor_tag ids t).Enabled Handles s := by
  rintro ⟨l, hl, hs⟩
  cases l with
  | reactor =>
    simp [channelAwait, step, ChannelState.step, Reactor.threadStep, h.1, h.2] at hs
  | base | recv | party => exact hl

/-- A task awaits an item, and one is sent once it is parked. -/
def recvOnce : List (Label Unit ℕ Unit) :=
  [.base (.register ()), .base (.recv 0), .base (.work (.lock 0)), .base (.work (.look 0)),
    .recv 0 .load, .recv 0 .store, .base (.work (.polled 0 .pending)), .base (.work (.unlock 0)),
    .base (.ready 0), .party (.send () 7), .party (.count ()), .party (.register ()),
    .party (.wake ()), .reactor, .reactor, .reactor, .base (.recv 0), .base (.work (.lock 0)),
    .base (.work (.look 0)), .recv 0 .load, .recv 0 .tryRecv, .recv 0 .decrement,
    .base (.work (.polled 0 .ready)), .base (.work (.clear 0)), .base (.work (.unlock 0)),
    .base (.ready 0), .reactor]

/-- The run that takes these steps and then rests. -/
def recvRun : (channelAwait Unit ℕ Unit 1 0 [0] ()).Execution :=
  .ofRun (s := ⟨⟨_, .new, []⟩, .new 1 (), fun _ => false⟩) recvOnce
    ⟨⟨_, rfl, by decide, rfl⟩, ⟨(), rfl⟩, rfl⟩ (by decide)

theorem recv_returns_recvRun : ∃ m e v, 10 ≤ m ∧ recvRun.act m = some (.recv e .decrement) ∧
    (recvRun.state m).rt.x.pc e = .polling () ∧
      (recvRun.state m).chan.receiver = .received v := by
  have hrests : ∀ m, 27 ≤ m → recvRun.state m = recvRun.state 27 :=
    fun m hm => Execution.ofRun_state_of_length_le _ _ hm
  have hcalm : recvRun.Under (Calm () 0) := Execution.ofRun_under _ _ (by decide)
  have hidle : (recvRun.state 27).rt.x.pc 0 = .recv := by decide
  refine recv_returns (n := 10) (by decide) hcalm ?_ ?_ ?_ ?_ (by decide) (by decide)
  · intro e he
    obtain rfl : e = 0 := by simpa using he
    refine Execution.weaklyFair_of_not_enabled (n := 27) fun m hm => ?_
    rw [hrests m hm]
    exact not_enabled_of_idle hidle (by decide)
  · intro e n t hpc
    have he : e ∈ [0] := (ok (recvRun.reachable hcalm n)).serving.mem_ids fun h => by
      have := h.symm.trans hpc
      cases this
    obtain rfl : e = 0 := by simpa using he
    refine ⟨max n 27, le_max_left _ _, ?_⟩
    show (recvRun.state (max n 27)).rt.x.pc 0 ≠ .polling t
    rw [hrests _ (le_max_right _ _), hidle]
    simp
  · rintro ⟨⟩
    refine Execution.weaklyFair_of_not_enabled (n := 27) fun m hm => ?_
    rw [hrests m hm]
    exact not_enabled_of_sender (by decide)
  · refine Execution.weaklyFair_of_not_enabled (n := 27) fun m hm => ?_
    rw [hrests m hm]
    exact not_enabled_of_reactor (by decide)

end ChannelAwait

end Hooch
