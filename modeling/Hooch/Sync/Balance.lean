import Hooch.Lib.Census
import Hooch.Sync.BoundedChannel

/-!
# The counter of a bounded channel and the order of its items

`queue_cnt` lags behind the channel: a sender counts its item after it has sent it, and the
receiver discounts an item after it has taken it. `Balanced` is the exact balance, and what follows
from it while the receiver acts on a count that may be stale.

* `Balanced.next`: every step of every party keeps it;
* `counter_and_order`: the main result, for any number of clones and any interleaving.
-/

namespace Hooch

open Census

/-- The sender has sent an item that it has not counted yet. -/
def SenderPc.uncounted : SenderPc → Bool
  | .sent => true
  | _ => false

/-- The item that the receiver has taken and not discounted yet. -/
def ReceiverPc.taken {T : Type*} : ReceiverPc T → List T
  | .received v => [v]
  | _ => []

/-- The receiver has seen a counter that was not 0, and has not discounted an item yet. -/
def ReceiverPc.sawItem {T : Type*} : ReceiverPc T → Bool
  | .loadedPos | .received _ => true
  | _ => false

namespace ChannelState

variable {T σ : Type*} [DecidableEq σ] [Fintype σ] {bound : ℕ} {reactor_tag : ReactorTag}
  {s s' : ChannelState T σ}

/-- The number of senders between a successful inner send and their increment. -/
def uncounted (s : ChannelState T σ) : ℕ := census SenderPc.uncounted s.sender

/-- The counter, the channel and the polls agree. -/
structure Balanced (bound : ℕ) (s : ChannelState T σ) : Prop where
  bound_eq : s.chan.inner.queue.bound = bound
  alive : s.chan.inner.receiver = true ∨ s.receiver = .dropped
  /-- While the receiver exists, the counter is off by the senders and the item under way. -/
  count : s.chan.inner.receiver = true →
    s.chan.queueCnt + s.uncounted = s.chan.inner.items.length + s.receiver.taken.length
  order : s.chan.inner.receiver = true →
    s.accepted = s.received ++ s.receiver.taken ++ s.chan.inner.items
  prefix_ : s.received <+: s.accepted
  saw : s.receiver.sawItem = true → 0 < s.chan.queueCnt
  noError : ∀ p ∈ s.polls, ∀ e, p.result ≠ .ready (.error e)

omit [DecidableEq σ] [Fintype σ] in
@[simp] theorem received_returns (s : ChannelState T σ) (result : Poll (Except RecvError T)) :
    (s.returns result).received = s.received ++
      (PollRecord.value ⟨s.closedAtLoad, s.itemsAtLoad, result⟩).toList := by
  simp only [received, returns, List.filterMap_append]
  cases h : PollRecord.value ⟨s.closedAtLoad, s.itemsAtLoad, result⟩ <;>
    simp [h]

omit [DecidableEq σ] [Fintype σ] in
theorem noError_returns {result : Poll (Except RecvError T)}
    (h : ∀ p ∈ s.polls, ∀ e, p.result ≠ .ready (.error e))
    (hresult : ∀ e, result ≠ .ready (.error e)) :
    ∀ p ∈ (s.returns result).polls, ∀ e, p.result ≠ .ready (.error e) := by
  intro p hp
  rcases List.mem_append.1 hp with hp | hp
  · exact h p hp
  · rw [List.mem_singleton.1 hp]
    exact hresult

theorem Balanced.new (i : σ) : Balanced bound (new bound i : ChannelState T σ) where
  bound_eq := rfl
  alive := .inl rfl
  count _ := by
    have huncounted : (ChannelState.new bound i : ChannelState T σ).uncounted = 0 := by
      refine census_eq_zero.2 fun j => ?_
      by_cases hj : j = i
      · subst hj
        simp [ChannelState.new, SenderPc.uncounted]
      · simp [ChannelState.new, hj, SenderPc.uncounted]
    rw [huncounted]
    rfl
  order _ := rfl
  prefix_ := List.prefix_refl _
  saw h := by cases h
  noError p hp := by cases hp

omit [DecidableEq σ] in
/-- While the receiver exists, what was received is a prefix because it is in order. -/
theorem Balanced.of_order (hbound : s.chan.inner.queue.bound = bound)
    (halive : s.chan.inner.receiver = true)
    (hcount : s.chan.queueCnt + s.uncounted =
      s.chan.inner.items.length + s.receiver.taken.length)
    (horder : s.accepted = s.received ++ s.receiver.taken ++ s.chan.inner.items)
    (hsaw : s.receiver.sawItem = true → 0 < s.chan.queueCnt)
    (hnoError : ∀ p ∈ s.polls, ∀ e, p.result ≠ .ready (.error e)) : Balanced bound s where
  bound_eq := hbound
  alive := .inl halive
  count _ := hcount
  order _ := horder
  prefix_ := by
    rw [horder, List.append_assoc]
    exact List.prefix_append _ _
  saw := hsaw
  noError := hnoError

omit [DecidableEq σ] in
theorem Balanced.alive_of_ne (h : Balanced bound s) (hr : s.receiver ≠ .dropped) :
    s.chan.inner.receiver = true :=
  h.alive.resolve_right hr

theorem rests_taken {r : ReceiverPc T} (h : r.rests) : r.taken = [] ∧ r ≠ .dropped := by
  cases r with
  | idle | parked => exact ⟨rfl, by simp⟩
  | _ => cases h

/-- What a step that moves one sender does to the number of uncounted items. -/
theorem uncounted_update (s : ChannelState T σ) {i : σ} {p a : SenderPc} (hi : s.sender i = p) :
    census SenderPc.uncounted (Function.update s.sender i a) + weight SenderPc.uncounted p =
      s.uncounted + weight SenderPc.uncounted a := by
  rw [← hi]
  exact census_update SenderPc.uncounted s.sender i a

/-- A step that moves a sender past no count and touches neither the items nor the receiver. -/
theorem Balanced.sender (h : Balanced bound s) {i : σ} {a : SenderPc}
    (ha : a.uncounted = (s.sender i).uncounted) {c : ℕ} {r : Reactor Unit} :
    Balanced bound { s with
      chan := { s.chan with cloneCount := c }
      reactor := r
      sender := Function.update s.sender i a } where
  bound_eq := h.bound_eq
  alive := h.alive
  count hr := by
    have hmove := uncounted_update s (a := a) rfl (i := i)
    have hcount := h.count hr
    simp only [weight, ha] at hmove
    show s.chan.queueCnt + census SenderPc.uncounted (Function.update s.sender i a) =
      s.chan.inner.items.length + s.receiver.taken.length
    omega
  order := h.order
  prefix_ := h.prefix_
  saw := h.saw
  noError := h.noError

omit [DecidableEq σ] in
/-- A poll begins. -/
theorem Balanced.load (h : Balanced bound s) (hr : s.receiver.rests) {r : ReceiverPc T}
    (hr' : r.taken = []) (hsaw : r.sawItem = true → 0 < s.chan.queueCnt) {closed : Bool} :
    Balanced bound { s with
      receiver := r
      woken := false
      closedAtLoad := closed
      itemsAtLoad := s.chan.inner.items } := by
  obtain ⟨htaken, hne⟩ := rests_taken hr
  have halive := h.alive_of_ne hne
  have hcount := h.count halive
  have horder := h.order halive
  rw [htaken, ← hr'] at hcount horder
  exact .of_order h.bound_eq halive hcount horder hsaw h.noError

/-- Every step of every party keeps the balance. -/
theorem Balanced.next {a : ChannelLabel T σ} (h : Balanced bound s)
    (hs : Next reactor_tag s a s') : Balanced bound s' := by
  cases hs with
  | refused => exact h
  | clone hi hj => exact h.sender (by rw [hj]; rfl)
  | register hi => exact h.sender (c := s.chan.cloneCount) (by rw [hi]; rfl)
  | overflow hi => exact h.sender (c := s.chan.cloneCount) (r := s.reactor) (by rw [hi]; rfl)
  | wake hi => exact h.sender (c := s.chan.cloneCount) (by rw [hi]; rfl)
  | drop hi =>
    refine h.sender ?_
    rcases hi with hi | hi <;> rw [hi] <;> rfl
  | dropped hi => exact h.sender (c := s.chan.cloneCount) (r := s.reactor) (by rw [hi]; rfl)
  | reactor => exact ⟨h.bound_eq, h.alive, h.count, h.order, h.prefix_, h.saw, h.noError⟩
  | other => exact ⟨h.bound_eq, h.alive, h.count, h.order, h.prefix_, h.saw, h.noError⟩
  | otherWake => exact ⟨h.bound_eq, h.alive, h.count, h.order, h.prefix_, h.saw, h.noError⟩
  | @send i val ch hi halive hch hbound hitems =>
    refine .of_order (hbound.trans h.bound_eq) hch ?_ ?_ h.saw h.noError
    · have hmove := uncounted_update s (a := .sent) hi
      have hcount := h.count halive
      rw [weight_of_false rfl, weight_of_true rfl] at hmove
      show s.chan.queueCnt + census SenderPc.uncounted (Function.update s.sender i .sent) =
        ch.items.length + s.receiver.taken.length
      rw [hitems, List.length_append, List.length_singleton]
      omega
    · show s.accepted ++ [val] = s.received ++ s.receiver.taken ++ ch.items
      rw [hitems, h.order halive, ← List.append_assoc]
  | @count i hi =>
    refine ⟨h.bound_eq, h.alive, fun hr => ?_, h.order, h.prefix_, fun _ => Nat.succ_pos _,
      h.noError⟩
    have hmove := uncounted_update s (a := .counted) hi
    have hcount := h.count hr
    rw [weight_of_true rfl, weight_of_false rfl] at hmove
    show s.chan.queueCnt + 1 + census SenderPc.uncounted (Function.update s.sender i .counted) =
      s.chan.inner.items.length + s.receiver.taken.length
    omega
  | loadZero hr hcnt => exact h.load hr rfl (fun hsaw => by cases hsaw)
  | loadPos hr hcnt => exact h.load hr rfl (fun _ => hcnt)
  | store hr =>
    have halive := h.alive_of_ne (by simp [hr])
    have hcount := h.count halive
    have horder := h.order halive
    rw [hr] at hcount horder
    refine .of_order h.bound_eq halive hcount ?_ (fun hsaw => by cases hsaw) ?_
    · rw [received_returns]
      show s.accepted = s.received ++ [] ++ [] ++ s.chan.inner.items
      simpa [ReceiverPc.taken] using horder
    · exact noError_returns h.noError (by simp)
  | @tryRecv v ch hr hitems hch hbound =>
    have halive := h.alive_of_ne (by simp [hr])
    have hcount := h.count halive
    have horder := h.order halive
    rw [hr, hitems] at hcount horder
    refine .of_order (hbound.trans h.bound_eq) (hch.trans halive) hcount ?_
      (fun _ => h.saw (by rw [hr]; rfl)) h.noError
    show s.accepted = s.received ++ [v] ++ ch.items
    simpa [ReceiverPc.taken] using horder
  | tryRecvError hr hitems =>
    -- A positive counter means an item in the channel, so this branch is never taken.
    have hpos := h.saw (by rw [hr]; rfl)
    have hcount := h.count (h.alive_of_ne (by simp [hr]))
    rw [hr, hitems] at hcount
    simp only [ReceiverPc.taken, List.length_nil] at hcount
    omega
  | @decrement v hr =>
    have hpos := h.saw (by rw [hr]; rfl)
    have halive := h.alive_of_ne (by simp [hr])
    have hcount := h.count halive
    have horder := h.order halive
    rw [hr] at hcount horder
    have hsub : wrappingSub s.chan.queueCnt 1 = s.chan.queueCnt - 1 := wrappingSub_eq hpos
    refine .of_order h.bound_eq halive ?_ ?_ (fun hsaw => by cases hsaw) ?_
    · show wrappingSub s.chan.queueCnt 1 + s.uncounted = s.chan.inner.items.length + 0
      simp only [ReceiverPc.taken, List.length_singleton] at hcount
      omega
    · rw [received_returns]
      show s.accepted = s.received ++ [v] ++ [] ++ s.chan.inner.items
      simpa [ReceiverPc.taken] using horder
    · exact noError_returns h.noError (by simp)
  | dropReceiver hr =>
    exact ⟨h.bound_eq, .inr rfl, (fun ha => by cases ha), (fun ha => by cases ha), h.prefix_,
      (fun hsaw => by cases hsaw), h.noError⟩

theorem balanced (h : (system T σ bound reactor_tag).Reachable s) : Balanced bound s := by
  refine h.invariant ?_ fun s a s' hI hs => hI.next (next_of_step hs)
  rintro s ⟨i, rfl⟩
  exact .new i

omit [DecidableEq σ] in
theorem Balanced.queueCnt_le (h : Balanced bound s) (hr : s.chan.inner.receiver = true) :
    s.chan.queueCnt ≤ bound + 1 := by
  have hcount := h.count hr
  have hlen : s.chan.inner.items.length ≤ s.chan.inner.queue.bound := s.chan.inner.queue.length_le
  have htaken : s.receiver.taken.length ≤ 1 := by
    cases s.receiver <;> simp [ReceiverPc.taken]
  rw [h.bound_eq] at hlen
  omega

/-- For any bound, any number of clones and any interleaving: while the receiver exists, the
counter and the senders that have sent and not counted make up the channel and the item under
way; a decrement finds something to subtract; no poll returns an error; what was received is a
prefix of what was accepted; and a send that fails changes nothing. -/
theorem counter_and_order (h : (system T σ bound reactor_tag).Reachable s) :
    (s.chan.inner.receiver = true →
      s.chan.queueCnt + s.uncounted = s.chan.inner.items.length + s.receiver.taken.length ∧
      s.chan.queueCnt ≤ bound + 1) ∧
    (∀ v, s.receiver = .received v → 1 ≤ s.chan.queueCnt) ∧
    (∀ p ∈ s.polls, ∀ e, p.result ≠ .ready (.error e)) ∧
    s.received <+: s.accepted ∧
    ∀ i val s', (system T σ bound reactor_tag).step s (.send i val) = some s' →
      s'.sender i ≠ .sent → s' = s := by
  have hbal := balanced h
  refine ⟨fun hr => ⟨hbal.count hr, hbal.queueCnt_le hr⟩, fun v hv => hbal.saw (by rw [hv]; rfl),
    hbal.noError, hbal.prefix_, fun i val s' hs hne => ?_⟩
  cases next_of_send (show s.step reactor_tag (.send i val) = some s' from hs) with
  | refused => rfl
  | send => simp at hne

/-- Two clones send, and the first item is received before its sender has counted it. -/
theorem counter_and_order_twoClones :
    ∃ s, (system ℕ Bool 2 0).Reachable s ∧ s.received = [7] ∧ s.uncounted = 1 ∧
      s.received <+: s.accepted := by
  obtain ⟨s, hs, hp⟩ := TransitionSystem.exists_reachableUnder (S := system ℕ Bool 2 0)
    (C := fun _ _ => True) ⟨true, rfl⟩
    [.clone true false, .send true 7, .send false 8, .count false, .load, .tryRecv, .decrement]
    (p := fun s => s.received = [7] ∧ s.uncounted = 1) (by decide)
  exact ⟨s, hs, hp.1, hp.2, (counter_and_order hs).2.2.2.1⟩

end ChannelState

end Hooch
