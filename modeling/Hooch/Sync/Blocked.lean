import Hooch.Sync.Balance

/-!
# Senders that wait for room

The bounded channel with its senders blocked inside `self.sender.send(val)`. A sender that finds
the inner channel full waits in the call until there is room, or, in a channel of capacity 0, until
the receiver takes its value out of its hands. The receiver looks at the inner channel only if the
counter is not 0, and a sender counts its item only after the inner send has returned.

* `BlockingState`, `step`, `blocking`: the interleavings of the channel with waiting senders;
* `balanced`: waiting does not disturb the balance of the counter;
* `released_iff`: the main result, for which bounds a poll releases a blocked sender.
-/

namespace Hooch

/-- The channel in use, and the values of the senders that wait in their inner send. -/
structure BlockingState (T σ : Type*) where
  base : ChannelState T σ
  waiting : σ → Option T

/-- Who moves. -/
inductive BlockingLabel (T σ : Type*)
  /-- A step in which nobody waits. -/
  | base (a : ChannelLabel T σ)
  /-- The sender finds the channel full. -/
  | block (i : σ) (val : T)
  /-- The inner send of a sender that waits returns. -/
  | unblock (i : σ)
  /-- In a channel of capacity 0, `try_recv` takes the value of a sender that waits. -/
  | handOver (i : σ)

namespace BlockingState

variable {T σ : Type*} [DecidableEq σ] [Fintype σ]

/-- The sender is in an inner send that cannot return. -/
def Blocked (s : BlockingState T σ) (i : σ) : Prop :=
  ∃ val, s.waiting i = some val ∧ s.base.chan.innerSend val = .error .wouldBlock

/-- The sender is in no call of `send`. -/
def Outside (s : BlockingState T σ) (i : σ) : Prop :=
  s.waiting i = none ∧ s.base.sender i ≠ .sent ∧ s.base.sender i ≠ .counted ∧
    s.base.sender i ≠ .registered

/-- One step of one party. -/
def step (reactor_tag : ReactorTag) (s : BlockingState T σ) :
    BlockingLabel T σ → Option (BlockingState T σ)
  | .base a =>
      if (a.actor.bind s.waiting).isNone then
        (s.base.step reactor_tag a).map fun base => { s with base := base }
      else none
  | .block i val =>
      match s.base.sender i, s.waiting i, s.base.chan.innerSend val with
      | .idle, none, .error .wouldBlock =>
          some { s with waiting := Function.update s.waiting i (some val) }
      | _, _, _ => none
  | .unblock i =>
      (s.waiting i).bind fun val => (s.base.step reactor_tag (.send i val)).map fun base =>
        { s with base := base, waiting := Function.update s.waiting i none }
  | .handOver i =>
      match s.base.chan.inner.queue.bound, s.base.receiver, s.waiting i with
      | 0, .loadedPos, some val => some { s with
          base := { s.base with
            sender := Function.update s.base.sender i .sent
            receiver := .received val
            accepted := s.base.accepted ++ [val] }
          waiting := Function.update s.waiting i none }
      | _, _, _ => none

end BlockingState

/-- Every interleaving of one channel's parties, from a new channel with one sender. -/
def blocking (T σ : Type*) [DecidableEq σ] [Fintype σ] (bound : ℕ) (reactor_tag : ReactorTag) :
    TransitionSystem (BlockingState T σ) (BlockingLabel T σ) where
  init s := ∃ i, s = ⟨.new bound i, fun _ => none⟩
  step := BlockingState.step reactor_tag

namespace BlockingState

variable {T σ : Type*} [DecidableEq σ] [Fintype σ] {bound : ℕ} {reactor_tag : ReactorTag}
  {s s' : BlockingState T σ}

/-- A value that is handed over passes the channel without being counted. -/
theorem handOver_balanced (h : s.base.Balanced bound) {i : σ} {val : T}
    (hbound : s.base.chan.inner.queue.bound = 0) (hr : s.base.receiver = .loadedPos)
    (hi : s.base.sender i = .idle) : ChannelState.Balanced bound { s.base with
      sender := Function.update s.base.sender i .sent
      receiver := .received val
      accepted := s.base.accepted ++ [val] } := by
  have halive := h.alive_of_ne (by simp [hr])
  have hnil : s.base.chan.inner.items = [] := by
    have hlen : s.base.chan.inner.items.length ≤ s.base.chan.inner.queue.bound :=
      s.base.chan.inner.queue.length_le
    exact List.eq_nil_of_length_eq_zero (by omega)
  have hcount := h.count halive
  have horder := h.order halive
  rw [hr, hnil] at hcount horder
  refine .of_order h.bound_eq halive ?_ ?_ (fun _ => h.saw (by rw [hr]; rfl)) h.noError
  · have hmove := ChannelState.uncounted_update s.base (a := .sent) hi
    rw [Census.weight_of_false rfl, Census.weight_of_true rfl] at hmove
    show s.base.chan.queueCnt + Census.census SenderPc.uncounted
      (Function.update s.base.sender i .sent) = s.base.chan.inner.items.length + 1
    simp only [hnil, ReceiverPc.taken, List.length_nil] at hcount ⊢
    omega
  · show s.base.accepted ++ [val] = s.base.received ++ [val] ++ s.base.chan.inner.items
    rw [hnil]
    simpa [ReceiverPc.taken] using horder

/-- The senders that wait have not sent, and the counter is balanced. -/
structure Ok (bound : ℕ) (s : BlockingState T σ) : Prop where
  balanced : s.base.Balanced bound
  idle : ∀ i val, s.waiting i = some val → s.base.sender i = .idle

theorem Ok.step {l : BlockingLabel T σ} (h : Ok bound s) (hs : s.step reactor_tag l = some s') :
    Ok bound s' := by
  cases l with
  | base a =>
    simp only [BlockingState.step, Option.ite_none_right_eq_some, Option.map_eq_some_iff] at hs
    obtain ⟨hactor, base, hbase, rfl⟩ := hs
    have hnext := ChannelState.next_of_step hbase
    refine ⟨h.balanced.next hnext,
      fun i val hi => ChannelState.idle_next hnext (h.idle i val hi) ?_⟩
    intro ha
    rw [ha, Option.bind_some, hi] at hactor
    cases hactor
  | block i val =>
    simp only [BlockingState.step] at hs
    split at hs
    · rename_i hi _ _
      cases hs
      refine ⟨h.balanced, fun j v hj => ?_⟩
      by_cases hji : j = i
      · rw [hji, hi]
      · exact h.idle j v (by simpa [hji] using hj)
    · cases hs
  | unblock i =>
    simp only [BlockingState.step, Option.bind_eq_some_iff, Option.map_eq_some_iff] at hs
    obtain ⟨val, -, base, hbase, rfl⟩ := hs
    have hnext := ChannelState.next_of_step hbase
    refine ⟨h.balanced.next hnext, fun j v hj => ?_⟩
    have hji : j ≠ i := by
      rintro rfl
      simp at hj
    exact ChannelState.idle_next hnext (h.idle j v (by simpa [hji] using hj))
      fun ha => hji (Option.some.inj ha).symm
  | handOver i =>
    simp only [BlockingState.step] at hs
    split at hs
    · rename_i val hbound hr hi
      cases hs
      refine ⟨handOver_balanced h.balanced hbound hr (h.idle i val hi), fun j v hj => ?_⟩
      have hji : j ≠ i := by
        rintro rfl
        simp at hj
      simpa [hji] using h.idle j v (by simpa [hji] using hj)
    · cases hs

theorem ok (h : (blocking T σ bound reactor_tag).Reachable s) : Ok bound s := by
  refine h.invariant ?_ fun s a s' hok hs => hok.step hs
  rintro s ⟨i, rfl⟩
  exact ⟨.new i, fun _ _ h => by cases h⟩

omit [DecidableEq σ] [Fintype σ] in
/-- A sender is blocked only by a full channel. -/
theorem Blocked.full {i : σ} (h : s.Blocked i) :
    s.base.chan.inner.items.length = s.base.chan.inner.queue.bound := by
  obtain ⟨val, -, hsend⟩ := h
  unfold BoundedChannel.innerSend SyncChannel.send at hsend
  split at hsend
  · split at hsend
    · cases hsend
    · rename_i hpush
      exact BoundedQueue.push_eq_none_iff.1 hpush
  · cases hsend

omit [DecidableEq σ] in
/-- With nobody in the middle of a send, a channel that is full and can hold an item has been
counted. -/
theorem Ok.receives (h : Ok bound s) (hbound : 0 < bound) (hr : s.base.receiver.rests = true)
    {i : σ} (hi : s.Blocked i) (hall : ∀ j, s.Blocked j ∨ s.Outside j) :
    ∃ v, (s.base.chan.pollRecv s.base.reactor reactor_tag ()).1 = .ready (.ok v) := by
  obtain ⟨htaken, hne⟩ := ChannelState.rests_taken hr
  have hcount := h.balanced.count (h.balanced.alive_of_ne hne)
  have hfull := hi.full
  rw [h.balanced.bound_eq] at hfull
  have huncounted : s.base.uncounted = 0 := by
    refine Census.census_eq_zero.2 fun j => ?_
    rcases hall j with ⟨val, hj, -⟩ | ⟨-, hj, -⟩
    · rw [h.idle j val hj]
      rfl
    · cases hpc : s.base.sender j with
      | sent => exact absurd hpc hj
      | _ => rfl
  rw [htaken, huncounted, hfull] at hcount
  have hcnt : s.base.chan.queueCnt ≠ 0 := by
    simp only [List.length_nil] at hcount
    omega
  cases htry : s.base.chan.innerTryRecv with
  | none =>
    rw [BoundedChannel.innerTryRecv_eq_none.1 htry, List.length_nil] at hfull
    omega
  | some p => exact ⟨p.1, by simp [BoundedChannel.pollRecv, hcnt, htry]⟩

/-- Whenever the receiver is between two polls, some sender is blocked, and every other one is
blocked too or in no call of `send`, the next poll returns an item. -/
def Released (bound : ℕ) (reactor_tag : ReactorTag) (T σ : Type*) [DecidableEq σ] [Fintype σ] :
    Prop :=
  ∀ s, (blocking T σ bound reactor_tag).Reachable s → s.base.receiver.rests = true →
    (∃ i, s.Blocked i) → (∀ j, s.Blocked j ∨ s.Outside j) →
    ∃ v, (s.base.chan.pollRecv s.base.reactor reactor_tag ()).1 = .ready (.ok v)

/-- In a channel of capacity 0 the first send waits for a poll that sees a counter of 0. -/
theorem blocked_of_zero (reactor_tag : ReactorTag) (i : σ) (val : T) :
    ∃ s, (blocking T σ 0 reactor_tag).Reachable s ∧ s.base = .new 0 i ∧ s.Blocked i ∧
      ∀ j, s.Blocked j ∨ s.Outside j := by
  have hstep : (blocking T σ 0 reactor_tag).step ⟨.new 0 i, fun _ => none⟩ (.block i val) =
      some ⟨.new 0 i, Function.update (fun _ => none) i (some val)⟩ := by
    simp [blocking, step, ChannelState.new]
    rfl
  have hblocked : Blocked (⟨.new 0 i, Function.update (fun _ => none) i (some val)⟩ :
      BlockingState T σ) i := ⟨val, by simp, rfl⟩
  refine ⟨_, .step (.init ⟨i, rfl⟩) trivial hstep, rfl, hblocked, fun j => ?_⟩
  by_cases hji : j = i
  · exact .inl (by rw [hji]; exact hblocked)
  · exact .inr (by simp [Outside, ChannelState.new, hji])

/-- A poll releases the blocked senders exactly if the channel has a capacity that is not 0. -/
theorem released_iff [Inhabited T] [Inhabited σ] : Released bound reactor_tag T σ ↔ 0 < bound := by
  refine ⟨fun h => Nat.pos_of_ne_zero ?_, fun hbound s hs hr ⟨i, hi⟩ hall =>
    (ok hs).receives hbound hr hi hall⟩
  rintro rfl
  obtain ⟨s, hs, hbase, hblocked, hall⟩ :=
    blocked_of_zero reactor_tag (default : σ) (default : T)
  obtain ⟨v, hv⟩ := h s hs (by rw [hbase]; rfl) ⟨_, hblocked⟩ hall
  rw [hbase] at hv
  cases hv

/-- The only sender of a channel of capacity 0 is never released. -/
theorem rendezvous_stuck : ¬ Released 0 7 ℕ Unit := by
  intro h
  obtain ⟨s, hs, hbase, hblocked, hall⟩ := blocked_of_zero 7 () (5 : ℕ)
  obtain ⟨v, hv⟩ := h s hs (by rw [hbase]; rfl) ⟨_, hblocked⟩ hall
  rw [hbase] at hv
  cases hv

end BlockingState

end Hooch
