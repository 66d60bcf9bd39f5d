import Hooch.Lib.TransitionSystem
import Hooch.Reactor
import Hooch.Utils.RingBuffer

/-!
# The bounded channel

`bounded_channel` of `sync/mpsc/bounded_channel.rs`: a channel of the standard library, a counter
of its items, a counter of the sender's clones, and a reactor tag.

* `BoundedChannel`: what the clones and the receiver share, with the accesses to it;
* `tryRecv`, `pollRecv`: the two ways to receive, as one thread executes them alone;
* `ChannelState`, `step`, `system`: any number of sender clones, one receiver that polls, and the
  reactor thread, cut at every access to what they share;
* `Next`: what a step does, one case each.
-/

namespace Hooch

/-- `RecvError`. -/
inductive RecvError
  | closed
  deriving DecidableEq

/-- `TryRecvError`. -/
inductive TryRecvError
  | empty
  | disconnected
  deriving DecidableEq

/-- What the clones of the sender and the receiver share. -/
structure BoundedChannel (T : Type*) where
  inner : SyncChannel T
  queueCnt : ℕ
  cloneCount : ℕ

namespace BoundedChannel

variable {T W : Type*}

/-- The channel that `bounded_channel` creates. -/
def new (bound : ℕ) : BoundedChannel T := ⟨.new bound, 0, 1⟩

/-- `self.sender.send(val)` on the channel of the standard library. -/
def innerSend (c : BoundedChannel T) (val : T) : Except SyncChannel.SendError (BoundedChannel T) :=
  (c.inner.send val).map fun ch => { c with inner := ch }

/-- `self.rx.try_recv()` on the channel of the standard library; `none` is either error. -/
def innerTryRecv (c : BoundedChannel T) : Option (T × BoundedChannel T) :=
  c.inner.recv.map fun p => (p.1, { c with inner := p.2 })

/-- `queue_cnt.fetch_add(1)`. The counter is at most one above the bound of the channel, so it
does not wrap. -/
def fetchAddCnt (c : BoundedChannel T) : BoundedChannel T := { c with queueCnt := c.queueCnt + 1 }

/-- `queue_cnt.fetch_sub(1)`, which wraps around. -/
def fetchSubCnt (c : BoundedChannel T) : BoundedChannel T :=
  { c with queueCnt := wrappingSub c.queueCnt 1 }

/-- `try_recv`, while a sender is alive or not. -/
def tryRecv (c : BoundedChannel T) (alive : Bool) : Except TryRecvError T × BoundedChannel T :=
  match c.innerTryRecv with
  | some (v, c') => (.ok v, c')
  | none => (.error (if alive then .empty else .disconnected), c)

/-- `poll_recv`, executed alone. -/
def pollRecv (c : BoundedChannel T) (r : Reactor W) (reactor_tag : ReactorTag) (waker : W) :
    Poll (Except RecvError T) × BoundedChannel T × Reactor W :=
  if c.queueCnt = 0 then (.pending, c, r.storeWakerChannel reactor_tag waker)
  else
    match c.innerTryRecv with
    | some (v, c') => (.ready (.ok v), c'.fetchSubCnt, r)
    | none => (.ready (.error .closed), c, r)

/-- `send`, executed alone; `none` is the panic on a full tag buffer. -/
def send (c : BoundedChannel T) (r : Reactor W) (reactor_tag : ReactorTag) (val : T) :
    Except SyncChannel.SendError (Option (BoundedChannel T × Reactor W)) :=
  (c.innerSend val).map fun c' =>
    (r.registerReactorTag reactor_tag).map fun r' => (c'.fetchAddCnt, r'.mioWake)

theorem innerSend_eq_ok {c c' : BoundedChannel T} {v : T} (h : c.innerSend v = .ok c') :
    ∃ ch, c' = { c with inner := ch } ∧ c.inner.receiver = true ∧ ch.receiver = true ∧
      ch.queue.bound = c.inner.queue.bound ∧ ch.items = c.inner.items ++ [v] := by
  unfold innerSend at h
  cases hs : c.inner.send v with
  | error e =>
    rw [hs] at h
    cases h
  | ok ch =>
    rw [hs] at h
    cases h
    exact ⟨ch, rfl, SyncChannel.send_eq_ok hs⟩

theorem innerSend_ne_disconnected {c : BoundedChannel T} {v : T}
    (hr : c.inner.receiver = true) : c.innerSend v ≠ .error .disconnected := by
  unfold innerSend SyncChannel.send
  rw [if_pos hr]
  split <;> simp [Except.map]

theorem innerTryRecv_eq_some {c c' : BoundedChannel T} {v : T}
    (h : c.innerTryRecv = some (v, c')) :
    ∃ ch, c' = { c with inner := ch } ∧ c.inner.items = v :: ch.items ∧
      ch.receiver = c.inner.receiver ∧ ch.queue.bound = c.inner.queue.bound := by
  simp only [innerTryRecv, Option.map_eq_some_iff, Prod.mk.injEq, Prod.exists] at h
  obtain ⟨w, ch, hr, rfl, rfl⟩ := h
  exact ⟨ch, rfl, SyncChannel.recv_eq_some hr⟩

theorem innerTryRecv_eq_none {c : BoundedChannel T} :
    c.innerTryRecv = none ↔ c.inner.items = [] := by
  rw [innerTryRecv, Option.map_eq_none_iff, SyncChannel.recv_eq_none_iff]

end BoundedChannel

/-! ### The interleavings -/

/-- Where a clone of the sender stands. -/
inductive SenderPc
  /-- Not created yet, or dropped. -/
  | absent
  /-- Between two calls, or in a call that has not sent yet. -/
  | idle
  /-- The inner send was accepted; `queue_cnt` comes next. -/
  | sent
  /-- The item is counted; the tag comes next. -/
  | counted
  /-- The tag is registered; the mio wake comes next. -/
  | registered
  /-- The tag buffer was full; nothing but the drop is left. -/
  | panicked
  /-- `clone_count` is decremented; the inner sender is dropped next. -/
  | dropping
  deriving DecidableEq

/-- Where the receiver stands. -/
inductive ReceiverPc (T : Type*)
  /-- Between two polls, the last one not `Pending`. -/
  | idle
  /-- Between two polls, the last one `Pending`. -/
  | parked
  /-- In `poll_recv`, after a load of 0; the waker is stored next. -/
  | loadedZero
  /-- In `poll_recv`, after a load of something else; the inner `try_recv` comes next. -/
  | loadedPos
  /-- In `poll_recv`, with an item; the decrement comes next. -/
  | received (v : T)
  | dropped

/-- The receiver is between two polls. -/
def ReceiverPc.rests {T : Type*} : ReceiverPc T → Bool
  | .idle | .parked => true
  | _ => false

/-- A finished poll: whether every sender had been dropped when it began, what the inner channel
held then, and what it returned. -/
structure PollRecord (T : Type*) where
  closed : Bool
  items : List T
  result : Poll (Except RecvError T)

/-- The item a poll returned. -/
def PollRecord.value {T : Type*} (p : PollRecord T) : Option T :=
  match p.result with
  | .ready (.ok v) => some v
  | _ => none

/-- A channel in use. `woken` says whether the receiving task was woken since its last poll began.
`accepted`, `closedAtLoad`, `itemsAtLoad` and `polls` only observe. -/
structure ChannelState (T σ : Type*) where
  chan : BoundedChannel T
  reactor : Reactor Unit
  sender : σ → SenderPc
  receiver : ReceiverPc T
  woken : Bool
  accepted : List T
  closedAtLoad : Bool
  itemsAtLoad : List T
  polls : List (PollRecord T)

/-- Who moves. -/
inductive ChannelLabel (T σ : Type*)
  /-- The clone `i` is cloned into `j`. -/
  | clone (i j : σ)
  | send (i : σ) (val : T)
  | count (i : σ)
  | register (i : σ)
  | wake (i : σ)
  | drop (i : σ)
  | dropped (i : σ)
  | load
  | store
  | tryRecv
  | decrement
  | dropReceiver
  | reactor
  /-- Something else registers a tag of its own. -/
  | other (tag : ReactorTag)
  /-- Something else requests a mio wake. -/
  | otherWake

/-- The sender that a step belongs to. -/
def ChannelLabel.actor {T σ : Type*} : ChannelLabel T σ → Option σ
  | .clone i _ | .send i _ | .count i | .register i | .wake i | .drop i | .dropped i => some i
  | _ => none

namespace ChannelState

variable {T σ : Type*} [DecidableEq σ] [Fintype σ]

/-- The channel with the given bound and one sender, on a new reactor. -/
def new (bound : ℕ) (i : σ) : ChannelState T σ where
  chan := .new bound
  reactor := .new
  sender := Function.update (fun _ => .absent) i .idle
  receiver := .idle
  woken := false
  accepted := []
  closedAtLoad := false
  itemsAtLoad := []
  polls := []

/-- Every sender has been dropped. -/
def Closed (s : ChannelState T σ) : Prop := ∀ i, s.sender i = .absent

instance (s : ChannelState T σ) : Decidable s.Closed := inferInstanceAs (Decidable (∀ _, _))

/-- The items the polls have returned. -/
def received (s : ChannelState T σ) : List T := s.polls.filterMap PollRecord.value

/-- The poll returns. -/
def returns (s : ChannelState T σ) (result : Poll (Except RecvError T)) : ChannelState T σ :=
  { s with
    receiver := match result with
      | .pending => .parked
      | .ready _ => .idle
    polls := s.polls ++ [⟨s.closedAtLoad, s.itemsAtLoad, result⟩] }

/-- One step of one party. -/
def step (reactor_tag : ReactorTag) (s : ChannelState T σ) :
    ChannelLabel T σ → Option (ChannelState T σ)
  | .clone i j =>
      if s.sender i = .idle ∧ s.sender j = .absent then
        some { s with
          chan := { s.chan with cloneCount := s.chan.cloneCount + 1 }
          sender := Function.update s.sender j .idle }
      else none
  | .send i val =>
      if s.sender i = .idle then
        match s.chan.innerSend val with
        | .ok c => some { s with
            chan := c
            sender := Function.update s.sender i .sent
            accepted := s.accepted ++ [val] }
        | .error .disconnected => some s
        | .error .wouldBlock => none
      else none
  | .count i =>
      if s.sender i = .sent then
        some { s with
          chan := s.chan.fetchAddCnt
          sender := Function.update s.sender i .counted }
      else none
  | .register i =>
      if s.sender i = .counted then
        match s.reactor.registerReactorTag reactor_tag with
        | some r => some { s with
            reactor := r
            sender := Function.update s.sender i .registered }
        | none => some { s with sender := Function.update s.sender i .panicked }
      else none
  | .wake i =>
      if s.sender i = .registered then
        some { s with
          reactor := s.reactor.mioWake
          sender := Function.update s.sender i .idle }
      else none
  | .drop i =>
      if s.sender i = .idle ∨ s.sender i = .panicked then
        some { s with
          chan := { s.chan with cloneCount := wrappingSub s.chan.cloneCount 1 }
          -- `fetch_sub` returns the count before the subtraction
          reactor := if s.chan.cloneCount = 0 then s.reactor.removeTag reactor_tag else s.reactor
          sender := Function.update s.sender i .dropping }
      else none
  | .dropped i =>
      if s.sender i = .dropping then
        some { s with sender := Function.update s.sender i .absent }
      else none
  | .load =>
      if s.receiver.rests then
        some { s with
          receiver := if s.chan.queueCnt = 0 then .loadedZero else .loadedPos
          woken := false
          closedAtLoad := decide s.Closed
          itemsAtLoad := s.chan.inner.items }
      else none
  | .store =>
      match s.receiver with
      | .loadedZero =>
          some ({ s with reactor := s.reactor.storeWakerChannel reactor_tag () }.returns .pending)
      | _ => none
  | .tryRecv =>
      match s.receiver with
      | .loadedPos =>
          match s.chan.innerTryRecv with
          | some (v, c) => some { s with chan := c, receiver := .received v }
          | none => some (s.returns (.ready (.error .closed)))
      | _ => none
  | .decrement =>
      match s.receiver with
      | .received v => some ({ s with chan := s.chan.fetchSubCnt }.returns (.ready (.ok v)))
      | _ => none
  | .dropReceiver =>
      if s.receiver.rests then
        some { s with
          chan := { s.chan with inner := s.chan.inner.close }
          receiver := .dropped }
      else none
  | .reactor =>
      s.reactor.threadStep.map fun p => { s with
        reactor := p.2
        woken := p.1.isSome || s.woken }
  | .other tag =>
      if tag ≠ reactor_tag then
        (s.reactor.registerReactorTag tag).map fun r => { s with reactor := r }
      else none
  | .otherWake => some { s with reactor := s.reactor.mioWake }

/-- Every interleaving of one channel's parties, from a new channel with one sender. -/
def system (T σ : Type*) [DecidableEq σ] [Fintype σ] (bound : ℕ) (reactor_tag : ReactorTag) :
    TransitionSystem (ChannelState T σ) (ChannelLabel T σ) where
  init s := ∃ i, s = new bound i
  step := step reactor_tag

/-! ### What a step does -/

variable {reactor_tag : ReactorTag} {s s' : ChannelState T σ}

/-- The steps, one case each. -/
inductive Next (reactor_tag : ReactorTag) (s : ChannelState T σ) :
    ChannelLabel T σ → ChannelState T σ → Prop
  | clone {i j : σ} (hi : s.sender i = .idle) (hj : s.sender j = .absent) :
      Next reactor_tag s (.clone i j) { s with
        chan := { s.chan with cloneCount := s.chan.cloneCount + 1 }
        sender := Function.update s.sender j .idle }
  | send {i : σ} {val : T} {ch : SyncChannel T} (hi : s.sender i = .idle)
      (halive : s.chan.inner.receiver = true) (hch : ch.receiver = true)
      (hbound : ch.queue.bound = s.chan.inner.queue.bound)
      (hitems : ch.items = s.chan.inner.items ++ [val]) :
      Next reactor_tag s (.send i val) { s with
        chan := { s.chan with inner := ch }
        sender := Function.update s.sender i .sent
        accepted := s.accepted ++ [val] }
  /-- The receiver is gone, and the send returns an error. -/
  | refused {i : σ} {val : T} (hi : s.sender i = .idle)
      (hgone : s.chan.inner.receiver = false) : Next reactor_tag s (.send i val) s
  | count {i : σ} (hi : s.sender i = .sent) :
      Next reactor_tag s (.count i) { s with
        chan := s.chan.fetchAddCnt
        sender := Function.update s.sender i .counted }
  | register {i : σ} {q : BoundedQueue ReactorTag} (hi : s.sender i = .counted)
      (hbound : q.bound = s.reactor.reactorTagBuffer.bound)
      (hitems : q.items = s.reactor.reactorTagBuffer.items ++ [reactor_tag]) :
      Next reactor_tag s (.register i) { s with
        reactor := { s.reactor with reactorTagBuffer := q }
        sender := Function.update s.sender i .registered }
  /-- The tag buffer is full, and the sender panics. -/
  | overflow {i : σ} (hi : s.sender i = .counted)
      (hfull : s.reactor.reactorTagBuffer.items.length = s.reactor.reactorTagBuffer.bound) :
      Next reactor_tag s (.register i) { s with
        sender := Function.update s.sender i .panicked }
  | wake {i : σ} (hi : s.sender i = .registered) :
      Next reactor_tag s (.wake i) { s with
        reactor := s.reactor.mioWake
        sender := Function.update s.sender i .idle }
  | drop {i : σ} (hi : s.sender i = .idle ∨ s.sender i = .panicked) :
      Next reactor_tag s (.drop i) { s with
        chan := { s.chan with cloneCount := wrappingSub s.chan.cloneCount 1 }
        reactor := if s.chan.cloneCount = 0 then s.reactor.removeTag reactor_tag else s.reactor
        sender := Function.update s.sender i .dropping }
  | dropped {i : σ} (hi : s.sender i = .dropping) :
      Next reactor_tag s (.dropped i) { s with sender := Function.update s.sender i .absent }
  | loadZero (hr : s.receiver.rests) (hcnt : s.chan.queueCnt = 0) :
      Next reactor_tag s .load { s with
        receiver := .loadedZero
        woken := false
        closedAtLoad := decide s.Closed
        itemsAtLoad := s.chan.inner.items }
  | loadPos (hr : s.receiver.rests) (hcnt : 0 < s.chan.queueCnt) :
      Next reactor_tag s .load { s with
        receiver := .loadedPos
        woken := false
        closedAtLoad := decide s.Closed
        itemsAtLoad := s.chan.inner.items }
  | store (hr : s.receiver = .loadedZero) :
      Next reactor_tag s .store
        ({ s with reactor := s.reactor.storeWakerChannel reactor_tag () }.returns .pending)
  | tryRecv {v : T} {ch : SyncChannel T} (hr : s.receiver = .loadedPos)
      (hitems : s.chan.inner.items = v :: ch.items) (hch : ch.receiver = s.chan.inner.receiver)
      (hbound : ch.queue.bound = s.chan.inner.queue.bound) :
      Next reactor_tag s .tryRecv { s with
        chan := { s.chan with inner := ch }
        receiver := .received v }
  | tryRecvError (hr : s.receiver = .loadedPos) (hitems : s.chan.inner.items = []) :
      Next reactor_tag s .tryRecv (s.returns (.ready (.error .closed)))
  | decrement {v : T} (hr : s.receiver = .received v) :
      Next reactor_tag s .decrement
        ({ s with chan := s.chan.fetchSubCnt }.returns (.ready (.ok v)))
  | dropReceiver (hr : s.receiver.rests) :
      Next reactor_tag s .dropReceiver { s with
        chan := { s.chan with inner := s.chan.inner.close }
        receiver := .dropped }
  | reactor {w : Option Unit} {r : Reactor Unit} (hr : s.reactor.ThreadNext w r) :
      Next reactor_tag s .reactor { s with reactor := r, woken := w.isSome || s.woken }
  | other {tag : ReactorTag} {q : BoundedQueue ReactorTag} (htag : tag ≠ reactor_tag)
      (hbound : q.bound = s.reactor.reactorTagBuffer.bound)
      (hitems : q.items = s.reactor.reactorTagBuffer.items ++ [tag]) :
      Next reactor_tag s (.other tag) { s with
        reactor := { s.reactor with reactorTagBuffer := q } }
  | otherWake : Next reactor_tag s .otherWake { s with reactor := s.reactor.mioWake }

/-- A send that does not wait was accepted, or found the receiver gone and changed nothing. -/
theorem next_of_send {i : σ} {val : T} (h : s.step reactor_tag (.send i val) = some s') :
    Next reactor_tag s (.send i val) s' := by
  simp only [step] at h
  split at h
  · rename_i hi
    split at h
    · rename_i c hsend
      cases h
      obtain ⟨ch, rfl, halive, hch, hbound, hitems⟩ := BoundedChannel.innerSend_eq_ok hsend
      exact .send hi halive hch hbound hitems
    · rename_i hsend
      cases h
      refine .refused hi ?_
      cases hrec : s.chan.inner.receiver with
      | false => rfl
      | true => exact absurd hsend (BoundedChannel.innerSend_ne_disconnected hrec)
    · cases h
  · cases h

theorem next_of_step {a : ChannelLabel T σ} (h : s.step reactor_tag a = some s') :
    Next reactor_tag s a s' := by
  cases a with
  | send i val => exact next_of_send h
  | clone i j =>
    simp only [step, Option.ite_none_right_eq_some, Option.some.injEq] at h
    obtain ⟨⟨hi, hj⟩, rfl⟩ := h
    exact .clone hi hj
  | count i =>
    simp only [step, Option.ite_none_right_eq_some, Option.some.injEq] at h
    obtain ⟨hi, rfl⟩ := h
    exact .count hi
  | register i =>
    simp only [step, Option.ite_none_right_eq_some] at h
    obtain ⟨hi, h⟩ := h
    split at h
    · rename_i r hreg
      cases h
      obtain ⟨q, rfl, -, hbound, hitems⟩ := Reactor.registerReactorTag_eq_some hreg
      exact .register hi hbound hitems
    · rename_i hreg
      cases h
      exact .overflow hi (Reactor.registerReactorTag_eq_none.1 hreg)
  | wake i =>
    simp only [step, Option.ite_none_right_eq_some, Option.some.injEq] at h
    obtain ⟨hi, rfl⟩ := h
    exact .wake hi
  | drop i =>
    simp only [step, Option.ite_none_right_eq_some, Option.some.injEq] at h
    obtain ⟨hi, rfl⟩ := h
    exact .drop hi
  | dropped i =>
    simp only [step, Option.ite_none_right_eq_some, Option.some.injEq] at h
    obtain ⟨hi, rfl⟩ := h
    exact .dropped hi
  | load =>
    simp only [step, Option.ite_none_right_eq_some, Option.some.injEq] at h
    obtain ⟨hr, rfl⟩ := h
    by_cases hcnt : s.chan.queueCnt = 0
    · simp only [hcnt, if_true]
      exact .loadZero hr hcnt
    · simp only [hcnt, if_false]
      exact .loadPos hr (Nat.pos_of_ne_zero hcnt)
  | store =>
    simp only [step] at h
    split at h
    · rename_i hr
      cases h
      exact .store hr
    · cases h
  | tryRecv =>
    simp only [step] at h
    split at h
    · rename_i hr
      split at h
      · rename_i v c htry
        cases h
        obtain ⟨ch, rfl, hitems, hch, hbound⟩ := BoundedChannel.innerTryRecv_eq_some htry
        exact .tryRecv hr hitems hch hbound
      · rename_i htry
        cases h
        exact .tryRecvError hr (BoundedChannel.innerTryRecv_eq_none.1 htry)
    · cases h
  | decrement =>
    simp only [step] at h
    split at h
    · rename_i v hr
      cases h
      exact .decrement hr
    · cases h
  | dropReceiver =>
    simp only [step, Option.ite_none_right_eq_some, Option.some.injEq] at h
    obtain ⟨hr, rfl⟩ := h
    exact .dropReceiver hr
  | reactor =>
    simp only [step, Option.map_eq_some_iff, Prod.exists] at h
    obtain ⟨w, r, hthread, rfl⟩ := h
    exact .reactor (Reactor.threadNext_of_step hthread)
  | other tag =>
    simp only [step, Option.ite_none_right_eq_some, Option.map_eq_some_iff] at h
    obtain ⟨htag, r, hreg, rfl⟩ := h
    obtain ⟨q, rfl, -, hbound, hitems⟩ := Reactor.registerReactorTag_eq_some hreg
    exact .other htag hbound hitems
  | otherWake =>
    cases h
    exact .otherWake

/-- A step of others leaves a sender that is between two calls. -/
theorem idle_next {a : ChannelLabel T σ} (hs : Next reactor_tag s a s') {i : σ}
    (hi : s.sender i = .idle) (ha : a.actor ≠ some i) : s'.sender i = .idle := by
  have hother : ∀ {j : σ} {p : SenderPc}, j ≠ i → Function.update s.sender j p i = .idle :=
    fun hj => by rw [Function.update_of_ne (Ne.symm hj), hi]
  cases hs with
  | @clone j k hj hk =>
    refine hother ?_
    rintro rfl
    rw [hi] at hk
    cases hk
  | send | count | register | overflow | wake | drop | dropped =>
    exact hother fun h => ha (by rw [h]; rfl)
  | refused | loadZero | loadPos | store | tryRecv | tryRecvError | decrement | dropReceiver
  | reactor | other | otherWake => exact hi

/-! ### Calls that nobody interrupts -/

/-- A poll that nobody interrupts is `pollRecv`. -/
theorem poll_alone {bound : ℕ} (hr : s.receiver.rests = true) :
    ∃ as s', (system T σ bound reactor_tag).run s as = some s' ∧
      s.chan.pollRecv s.reactor reactor_tag () =
        ((s.chan.pollRecv s.reactor reactor_tag ()).1, s'.chan, s'.reactor) ∧
      s'.polls = s.polls ++ [⟨decide s.Closed, s.chan.inner.items,
        (s.chan.pollRecv s.reactor reactor_tag ()).1⟩] := by
  by_cases hcnt : s.chan.queueCnt = 0
  · refine ⟨[.load, .store], _, by
      simp [TransitionSystem.run, system, step, hr, hcnt]; rfl, ?_, ?_⟩ <;>
    simp [BoundedChannel.pollRecv, hcnt, returns]
  · cases htry : s.chan.innerTryRecv with
    | none =>
      refine ⟨[.load, .tryRecv], _, by
        simp [TransitionSystem.run, system, step, hr, hcnt, htry]; rfl, ?_, ?_⟩ <;>
      simp [BoundedChannel.pollRecv, hcnt, htry, returns]
    | some p =>
      refine ⟨[.load, .tryRecv, .decrement], _, by
        simp [TransitionSystem.run, system, step, hr, hcnt, htry]; rfl, ?_, ?_⟩ <;>
      simp [BoundedChannel.pollRecv, hcnt, htry, returns]

/-- A send that nobody interrupts is `send`. -/
theorem send_alone {bound : ℕ} {i : σ} {val : T} {c : BoundedChannel T} {r : Reactor Unit}
    (hi : s.sender i = .idle) (h : s.chan.send s.reactor reactor_tag val = .ok (some (c, r))) :
    ∃ s', (system T σ bound reactor_tag).run s [.send i val, .count i, .register i, .wake i] =
      some s' ∧ s'.chan = c ∧ s'.reactor = r ∧ s'.sender i = .idle := by
  unfold BoundedChannel.send at h
  cases hsend : s.chan.innerSend val with
  | error e => simp [hsend, Except.map] at h
  | ok c' =>
    cases hreg : s.reactor.registerReactorTag reactor_tag with
    | none => simp [hsend, hreg, Except.map] at h
    | some r' =>
      simp only [hsend, hreg, Except.map, Option.map_some, Except.ok.injEq, Option.some.injEq,
        Prod.mk.injEq] at h
      obtain ⟨rfl, rfl⟩ := h
      refine ⟨_, by simp [TransitionSystem.run, system, step, hi, hsend, hreg]; rfl, ?_, ?_, ?_⟩ <;>
      simp

end ChannelState

end Hooch
