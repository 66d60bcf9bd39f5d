import Hooch.Lib.Fairness
import Hooch.Sync.LostWake

/-!
# Wake-ups of a bounded channel in the long run

`no_lost_wakeup` says that a receiver that sleeps on an item has a wake-up on its way. Here the
wake-up arrives: a send that has begun goes on, and the reactor thread is not left aside for ever.

* `ranking_popped`: a tag in the buffer is popped, whatever stands before it or comes after it;
* `parked_leadsTo_woken`: a parked receiver with an item in its channel is woken;
* `waits_leadsTo_counted`: and the item is counted.
-/

namespace Hooch

open TransitionSystem Census

namespace ChannelState

variable {T σ : Type*} [DecidableEq σ] [Fintype σ] {bound : ℕ} {reactor_tag : ReactorTag}
  {s s' : ChannelState T σ} {a : ChannelLabel T σ}

/-- No registration is spent that the receiver needs, and the tag buffer has room. -/
def Calm (reactor_tag : ReactorTag) (s : ChannelState T σ) : ChannelLabel T σ → Prop
  | .register _ => s.reactor.reactorTagBuffer.items.length < s.reactor.reactorTagBuffer.bound
  | a => Kept reactor_tag s a

instance (s : ChannelState T σ) : (a : ChannelLabel T σ) → Decidable (Calm reactor_tag s a)
  | .register _ => inferInstanceAs (Decidable (_ < _))
  | .clone _ _ | .send _ _ | .count _ | .wake _ | .drop _ | .dropped _ | .load | .store | .tryRecv
  | .decrement | .dropReceiver | .reactor | .other _ | .otherWake =>
    inferInstanceAs (Decidable (Kept reactor_tag s _))

/-- The sender goes on with a send that has begun. -/
def Finishes (i : σ) : ChannelLabel T σ → Prop
  | .count j | .register j | .wake j => j = i
  | _ => False

/-- The reactor thread moves. -/
def Handles : ChannelLabel T σ → Prop
  | .reactor => True
  | _ => False

omit [DecidableEq σ] [Fintype σ] in
theorem Calm.kept (h : Calm reactor_tag s a) : Kept reactor_tag s a := by
  cases a with
  | register i =>
    rintro ⟨hfull, -⟩
    exact absurd hfull (Nat.ne_of_lt h)
  | _ => exact h

/-! ### A tag in the buffer -/

/-- How far the reactor thread is from its next pop. -/
def phase (r : Reactor Unit) : ℕ :=
  match r.pc with
  | .draining => 0
  | .popped _ => 1
  | .polling => if r.wakePending then 2 else 3

/-- The tags before the first registration of the tag, with the phase of the thread. -/
def rank (reactor_tag : ReactorTag) (r : Reactor Unit) : ℕ :=
  4 * r.reactorTagBuffer.items.idxOf reactor_tag + phase r

/-- The thread comes closer to the tag, or pops it. -/
theorem rank_lt {r r' : Reactor Unit} {w : Option Unit}
    (hmem : reactor_tag ∈ r.reactorTagBuffer.items) (hr : r.ThreadNext w r') :
    r'.pc = .popped reactor_tag ∨
      reactor_tag ∈ r'.reactorTagBuffer.items ∧ rank reactor_tag r' < rank reactor_tag r := by
  cases hr with
  | take hpc hw => exact .inr ⟨hmem, by simp [rank, phase, hpc, hw]⟩
  | emptied hpc hitems =>
    rw [hitems] at hmem
    cases hmem
  | found hpc | missed hpc => exact .inr ⟨hmem, by simp [rank, phase, hpc]⟩
  | @pop tag q hpc hitems =>
    by_cases htag : tag = reactor_tag
    · exact .inl (by rw [htag])
    · rw [hitems] at hmem
      have hidx : r.reactorTagBuffer.items.idxOf reactor_tag = q.items.idxOf reactor_tag + 1 := by
        rw [hitems, List.idxOf_cons_ne _ htag]
      refine .inr ⟨(List.mem_cons.1 hmem).resolve_left (Ne.symm htag), ?_⟩
      simp only [rank, phase, hpc, hidx]
      omega

/-- Who brings the tag on: the reactor thread, or a sender that is to wake it. -/
def Helps (s : ChannelState T σ) : Option σ → Prop
  | none => s.reactor.pc ≠ .polling ∨ s.reactor.wakePending = true
  | some i => s.sender i = .registered ∧ s.reactor.pc = .polling ∧ s.reactor.wakePending = false

/-- The moves of those. -/
def Brings : Option σ → ChannelLabel T σ → Prop
  | none => Handles
  | some i => Finishes i

/-- What the others do to the reactor: tags come in at the end of the buffer, and mio wakes are
requested. -/
structure Quiet (r r' : Reactor Unit) : Prop where
  items : ∃ tags, r'.reactorTagBuffer.items = r.reactorTagBuffer.items ++ tags
  pc : r'.pc = r.pc
  wakePending : r'.wakePending = r.wakePending ∨ r'.wakePending = true

theorem quiet_of_next (hs : Next reactor_tag s a s') (ha : a ≠ .reactor) :
    Quiet s.reactor s'.reactor := by
  cases hs with
  | reactor => exact absurd rfl ha
  | register _ _ hitems | other _ _ hitems => exact ⟨⟨_, hitems⟩, rfl, .inl rfl⟩
  | wake | otherWake => exact ⟨⟨[], by simp [Reactor.mioWake]⟩, rfl, .inr rfl⟩
  | drop => split <;> exact ⟨⟨[], by simp [Reactor.removeTag]⟩, rfl, .inl rfl⟩
  | _ => exact ⟨⟨[], by simp [returns, Reactor.storeWakerChannel]⟩, rfl, .inl rfl⟩

/-- They do not move the tag back. -/
theorem Quiet.rank {r r' : Reactor Unit} (h : Quiet r r')
    (hmem : reactor_tag ∈ r.reactorTagBuffer.items) :
    reactor_tag ∈ r'.reactorTagBuffer.items ∧
      (rank reactor_tag r' < rank reactor_tag r ∨
        rank reactor_tag r' = rank reactor_tag r ∧
          (r.pc = .polling → r'.wakePending = r.wakePending)) := by
  obtain ⟨⟨tags, htags⟩, hpc, hw⟩ := h
  have hidx : r'.reactorTagBuffer.items.idxOf reactor_tag =
      r.reactorTagBuffer.items.idxOf reactor_tag := by
    rw [htags, List.idxOf_append, if_pos hmem]
  refine ⟨by rw [htags]; exact List.mem_append_left _ hmem, ?_⟩
  by_cases hpolling : r.pc = .polling
  · rcases Bool.eq_false_or_eq_true r.wakePending with hold | hold
    · have hnew : r'.wakePending = true := hw.elim (fun h => h.trans hold) id
      exact .inr ⟨by simp [ChannelState.rank, phase, hidx, hpc, hpolling, hold, hnew],
        fun _ => hnew.trans hold.symm⟩
    · cases hnew : r'.wakePending with
      | true => exact .inl (by simp [ChannelState.rank, phase, hidx, hpc, hpolling, hold, hnew])
      | false =>
        exact .inr ⟨by simp [ChannelState.rank, phase, hidx, hpc, hpolling, hold, hnew],
          fun _ => hold.symm⟩
  · refine .inr ⟨?_, fun h => absurd h hpolling⟩
    cases hp : r.pc with
    | polling => exact absurd hp hpolling
    | draining | popped => simp [ChannelState.rank, phase, hidx, hpc, hp]

/-- A sender in the middle of a send does nothing else. -/
theorem sender_next {i : σ} (hs : Next reactor_tag s a s') (hi : (s.sender i).midSend = true)
    (ha : ¬ Finishes i a) : s'.sender i = s.sender i := by
  have hmoves : ∀ {j p}, (s.sender j).midSend = false ∨ j ≠ i →
      Function.update s.sender j p i = s.sender i := by
    intro j p hj
    refine Function.update_of_ne ?_ _ _
    rintro rfl
    rcases hj with hj | hj
    · exact absurd (hi.symm.trans hj) (by simp)
    · exact hj rfl
  cases hs with
  | clone _ hj | send hj | dropped hj => exact hmoves (.inl (by rw [hj]; rfl))
  | drop hj => exact hmoves (.inl (by rcases hj with hj | hj <;> rw [hj] <;> rfl))
  | count | register | overflow | wake => exact hmoves (.inr ha)
  | _ => rfl

/-- A tag in the buffer is popped. -/
theorem ranking_popped : (system T σ bound reactor_tag).Ranking (Calm reactor_tag)
    (Wired reactor_tag) (fun s => reactor_tag ∈ s.reactor.reactorTagBuffer.items)
    (fun s => s.reactor.pc = .popped reactor_tag) Set.univ Brings (fun k s => Helps s k)
    (fun s => rank reactor_tag s.reactor) where
  party s hwired hmem _ := by
    by_cases hpc : s.reactor.pc = .polling
    swap
    · exact ⟨none, trivial, .inl hpc⟩
    cases hw : s.reactor.wakePending with
    | true => exact ⟨none, trivial, .inr hw⟩
    | false =>
      rcases hwired.moving hmem with h | h | ⟨i, hi⟩
      · exact absurd (hw.symm.trans h) (by simp)
      · exact absurd hpc h
      · exact ⟨some i, trivial, hi, hpc, hw⟩
  enabled s k _ hmem _ hk := by
    cases k with
    | some i => exact ⟨.wake i, rfl, by simp [system, step, hk.1]⟩
    | none =>
      refine ⟨.reactor, trivial, ?_⟩
      have hsome : s.reactor.threadStep.isSome := by
        unfold Reactor.threadStep
        cases hpc : s.reactor.pc with
        | polling =>
          have hw := hk.resolve_left (fun h => h hpc)
          simp [hw]
        | draining =>
          simp only
          split <;> rfl
        | popped => rfl
      simpa [system, step] using hsome
  step s a s' k _ hmem _ hk _ hs := by
    have hnext := next_of_step hs
    by_cases ha : a = .reactor
    · subst ha
      cases hnext with
      | reactor hr => exact (rank_lt hmem hr).imp_right (And.imp_right .inl)
    have hquiet := quiet_of_next hnext ha
    obtain ⟨hmem', hrank⟩ := hquiet.rank hmem
    refine .inr ⟨hmem', hrank.imp_right ?_⟩
    rintro ⟨heq, hw⟩
    refine ⟨heq, ?_⟩
    cases k with
    | none =>
      refine ⟨fun h => ?_, ?_⟩
      · cases a with
        | reactor => exact ha rfl
        | _ => exact h
      · rcases hk with hk | hk
        · exact .inl (by rwa [hquiet.pc])
        · exact .inr (hquiet.wakePending.elim (fun h => h.trans hk) id)
    | some i =>
      obtain ⟨hi, hpc, hpending⟩ := hk
      have hnot : ¬ Finishes i a := by
        intro hf
        cases hnext with
        | wake =>
          have := (hw hpc).trans hpending
          cases this
        | count hj | register hj | overflow hj =>
          obtain rfl : _ = i := hf
          rw [hi] at hj
          cases hj
        | _ => exact hf
      have hsender := sender_next hnext (by rw [hi]; rfl) hnot
      exact ⟨hnot, hsender.trans hi, hquiet.pc.trans hpc, (hw hpc).trans hpending⟩

/-! ### From a send to the wake-up -/

/-- A sender that has sent its item registers the tag. -/
theorem ranking_registered (i : σ) : (system T σ bound reactor_tag).Ranking (Calm reactor_tag)
    (fun _ => True) (fun s => (s.sender i).owes = true)
    (fun s => reactor_tag ∈ s.reactor.reactorTagBuffer.items) {i} Finishes (fun k _ => k = i)
    (fun s => if s.sender i = .sent then 1 else 0) where
  party _ _ _ _ := ⟨i, rfl, rfl⟩
  enabled := by
    rintro s k - howes - rfl
    cases hi : s.sender k with
    | sent => exact ⟨.count k, rfl, by simp [system, step, hi]⟩
    | counted =>
      refine ⟨.register k, rfl, ?_⟩
      simp only [system, step, hi, if_true]
      split <;> rfl
    | _ => simp [hi, SenderPc.owes] at howes
  step := by
    rintro s a s' k - howes - rfl hcalm hs
    have hnext := next_of_step hs
    by_cases ha : Finishes k a
    · cases hnext with
      | @count j hj =>
        obtain rfl : j = k := ha
        exact .inr ⟨by simp [SenderPc.owes], .inl (by simp [hj])⟩
      | register _ _ hitems => exact .inl (by simp [hitems])
      | overflow _ hfull => exact absurd hfull (Nat.ne_of_lt hcalm)
      | @wake j hj =>
        obtain rfl : j = k := ha
        rw [hj] at howes
        cases howes
      | _ => exact ha.elim
    · have hmid : (s.sender k).midSend = true := by
        cases hi : s.sender k <;> simp_all [SenderPc.owes, SenderPc.midSend]
      have hsender := sender_next hnext hmid ha
      exact .inr ⟨by rw [hsender]; exact howes, .inr ⟨by rw [hsender], ha, rfl⟩⟩

/-- The tag is never removed, so a waker stays stored once there is one. -/
theorem stored_next (hwired : Wired reactor_tag s) (hs : Next reactor_tag s a s')
    (h : s.reactor.reactorTags reactor_tag ≠ none) :
    s'.reactor.reactorTags reactor_tag ≠ none := by
  cases hs with
  | @drop i hi =>
    have halive : (s.sender i).alive = true := by rcases hi with hi | hi <;> rw [hi] <;> rfl
    rwa [if_neg (Counted.pos hwired.clones halive).ne']
  | store => simp [returns, Reactor.storeWakerChannel]
  | reactor hr => cases hr <;> exact h
  | _ => exact h

/-- The thread looks the tag up and wakes the receiver. -/
theorem ranking_woken : (system T σ bound reactor_tag).Ranking (Calm reactor_tag)
    (Wired reactor_tag)
    (fun s => s.reactor.pc = .popped reactor_tag ∧ s.reactor.reactorTags reactor_tag ≠ none)
    (fun s => s.woken = true) {()} (fun _ => Handles) (fun _ _ => True) (fun _ => 0) where
  party _ _ _ _ := ⟨(), rfl, trivial⟩
  enabled s k _ h _ _ := ⟨.reactor, trivial, by simp [system, step, Reactor.threadStep, h.1]⟩
  step s a s' k hwired h _ _ _ hs := by
    have hnext := next_of_step hs
    by_cases ha : a = .reactor
    · subst ha
      cases hnext with
      | reactor hr =>
        cases hr with
        | take hpc | pop hpc | emptied hpc =>
          rw [h.1] at hpc
          cases hpc
        | found => exact .inl rfl
        | missed hpc hnone =>
          rw [h.1] at hpc
          cases hpc
          exact absurd hnone h.2
    · refine .inr ⟨⟨(quiet_of_next hnext ha).pc.trans h.1, stored_next hwired hnext h.2⟩, .inr ⟨rfl,
        fun hm => ?_, trivial⟩⟩
      cases a with
      | reactor => exact ha rfl
      | _ => exact hm

theorem waits_taken {r : ReceiverPc T} (h : r.waits = true) : r.taken = [] ∧ r ≠ .dropped := by
  cases r with
  | parked | loadedZero => exact ⟨rfl, by simp⟩
  | _ => cases h

theorem waits_of_isParked {r : ReceiverPc T} (h : r.isParked = true) : r.waits = true := by
  cases r with
  | parked => rfl
  | _ => cases h

omit [DecidableEq σ] in
/-- An item that is not counted has a sender that is to count it. -/
theorem Balanced.sent_of_zero (h : Balanced bound s) (hr : s.receiver.waits = true)
    (hcnt : s.chan.queueCnt = 0) (hne : s.chan.inner.items ≠ []) : ∃ i, s.sender i = .sent := by
  obtain ⟨htaken, hdropped⟩ := waits_taken hr
  have hcount := h.count (h.alive_of_ne hdropped)
  have hlen := List.length_pos_of_ne_nil hne
  rw [htaken, hcnt, List.length_nil] at hcount
  obtain ⟨i, hi⟩ := census_pos.1 (show 0 < census SenderPc.uncounted s.sender by
    unfold uncounted at hcount; omega)
  refine ⟨i, ?_⟩
  cases hpc : s.sender i <;> simp_all [SenderPc.uncounted]

/-- The count goes up by one. -/
theorem Balanced.count_pos (h : Balanced bound s) (halive : s.chan.inner.receiver = true) {i : σ}
    (hs : Next reactor_tag s (.count i) s') : 0 < s'.chan.queueCnt := by
  have h' := h.next hs
  have hcount := h.count halive
  cases hs with
  | count hi =>
    have hmove := uncounted_update s (a := .counted) hi
    have hcount' := h'.count halive
    simp only [uncounted, weight, SenderPc.uncounted, BoundedChannel.fetchAddCnt, if_true,
      Bool.false_eq_true, if_false] at hcount hcount' hmove ⊢
    omega

/-- It does not go down while the receiver takes nothing. -/
theorem Balanced.counted_next (h : Balanced bound s) (halive : s.chan.inner.receiver = true)
    (hcnt : 0 < s.chan.queueCnt) (hs : Next reactor_tag s a s') (ha : a ≠ .decrement) :
    0 < s'.chan.queueCnt := by
  by_cases hcount : ∃ i, a = .count i
  · obtain ⟨i, rfl⟩ := hcount
    exact h.count_pos halive hs
  · cases hs with
    | count => exact absurd ⟨_, rfl⟩ hcount
    | decrement => exact absurd rfl ha
    | _ => exact hcnt

/-- A sender that has sent its item counts it. -/
theorem ranking_counted (i : σ) : (system T σ bound reactor_tag).Ranking (Calm reactor_tag)
    (Balanced bound) (fun s => s.sender i = .sent ∧ s.receiver.waits = true)
    (fun s => 0 < s.chan.queueCnt ∨ s.receiver.waits = false) {i} Finishes (fun k _ => k = i)
    (fun _ => 0) where
  party _ _ _ _ := ⟨i, rfl, rfl⟩
  enabled := by
    rintro s k - ⟨hi, -⟩ - rfl
    exact ⟨.count k, rfl, by simp [system, step, hi]⟩
  step := by
    rintro s a s' k hbalanced ⟨hi, hwaits⟩ - rfl - hs
    have hnext := next_of_step hs
    by_cases ha : Finishes k a
    · cases a with
      | count j =>
        obtain rfl : j = k := ha
        have halive := hbalanced.alive_of_ne (waits_taken hwaits).2
        exact .inl (.inl (hbalanced.count_pos halive hnext))
      | register j | wake j =>
        obtain rfl : j = k := ha
        simp [system, step, hi] at hs
      | _ => exact ha.elim
    · cases hwaits' : s'.receiver.waits with
      | false => exact .inl (.inr rfl)
      | true =>
        have hsender := sender_next hnext (by rw [hi]; rfl) ha
        exact .inr ⟨⟨hsender.trans hi, rfl⟩, .inr ⟨rfl, ha, rfl⟩⟩

/-- A receiver that waits for an item goes on to wait for it until it sees it. -/
theorem waits_next (hwaits : s.receiver.waits = true) (hne : s.chan.inner.items ≠ [])
    (hs : Next reactor_tag s a s') (ha : a ≠ .dropReceiver) :
    s'.receiver.waits = true ∧ s'.chan.inner.items ≠ [] ∨ s'.receiver.sawItem = true := by
  cases hs with
  | send _ _ _ _ hitems => exact .inl ⟨hwaits, by simp [hitems]⟩
  | loadZero | store => exact .inl ⟨rfl, hne⟩
  | loadPos => exact .inr rfl
  | tryRecv hr | tryRecvError hr | decrement hr =>
    rw [hr] at hwaits
    cases hwaits
  | dropReceiver => exact absurd rfl ha
  | _ => exact .inl ⟨hwaits, hne⟩

/-- A parked receiver whose item is counted sees it in its next poll. -/
theorem parked_next (hparked : s.receiver = .parked) (hcnt : 0 < s.chan.queueCnt)
    (hs : Next reactor_tag s a s') (ha : a ≠ .dropReceiver) :
    s'.receiver = .parked ∨ s'.receiver.sawItem = true := by
  cases hs with
  | loadZero _ hzero => exact absurd hzero hcnt.ne'
  | loadPos => exact .inr rfl
  | store => exact .inl rfl
  | tryRecv hr | tryRecvError hr | decrement hr =>
    rw [hparked] at hr
    cases hr
  | dropReceiver => exact absurd rfl ha
  | _ => exact .inl hparked

/-- One that sees it takes it. -/
theorem Balanced.sawItem_next (h : Balanced bound s) (hsaw : s.receiver.sawItem = true)
    (hs : Next reactor_tag s a s') (ha : a ≠ .decrement) : s'.receiver.sawItem = true := by
  have hrests : s.receiver.rests = false := by
    cases hr : s.receiver <;> simp_all [ReceiverPc.sawItem, ReceiverPc.rests]
  cases hs with
  | tryRecv => rfl
  | tryRecvError hr hitems =>
    -- The counter is positive, and every counted item is in the channel.
    have hpos := h.saw hsaw
    have hcount := h.count (h.alive_of_ne (by simp [hr]))
    rw [hr, hitems] at hcount
    simp only [ReceiverPc.taken, List.length_nil] at hcount
    omega
  | loadZero hr | loadPos hr | dropReceiver hr => exact absurd (hrests.symm.trans hr) (by simp)
  | store hr =>
    rw [hr] at hsaw
    cases hsaw
  | decrement => exact absurd rfl ha
  | _ => exact hsaw

section Runs

variable {x : (system T σ bound reactor_tag).Execution}

theorem kept_of_calm (hcalm : x.Under (Calm reactor_tag)) (n : ℕ) :
    (system T σ bound reactor_tag).ReachableUnder (Kept reactor_tag) (x.state n) :=
  x.reachable (fun m a hact => (hcalm m a hact).kept) n

/-- A receiver that is parked with an item in its channel is woken, or polls before. -/
theorem parked_leadsTo_woken (hcalm : x.Under (Calm reactor_tag))
    (hsenders : ∀ i, x.WeaklyFair (Finishes i)) (hreactor : x.WeaklyFair Handles) :
    x.LeadsTo (fun s => s.receiver.isParked = true ∧ s.chan.inner.items ≠ [])
      fun s => s.woken = true ∨ s.receiver.isParked = false := by
  rintro n ⟨hparked, hne⟩
  by_contra hnever
  push Not at hnever
  have hstays : ∀ m, n ≤ m → (x.state m).receiver.isParked = true := by
    intro m hnm
    simpa using (hnever m hnm).2
  have hwired : ∀ m, Wired reactor_tag (x.state m) := fun m =>
    wired (kept_of_calm hcalm m).reachable
  have hpopped : ∀ m, n ≤ m → (x.state m).reactor.pc ≠ .popped reactor_tag := by
    intro m hnm hpc
    obtain ⟨k, hmk, hwoken⟩ := ranking_woken.leadsTo hcalm hwired (fun _ _ => hreactor) m
      ⟨hpc, (hwired m).stored (hstays m hnm)⟩
    exact (hnever k (hnm.trans hmk)).1 hwoken
  have hbuffer : ∀ m, n ≤ m → reactor_tag ∉ (x.state m).reactor.reactorTagBuffer.items := by
    intro m hnm hmem
    have hfair : ∀ k : Option σ, x.WeaklyFair (Brings k) := fun k => by
      cases k with
      | none => exact hreactor
      | some i => exact hsenders i
    obtain ⟨k, hmk, hpc⟩ := ranking_popped.leadsTo hcalm hwired (fun k _ => hfair k) m hmem
    exact hpopped k (hnm.trans hmk) hpc
  have hwaits : (x.state n).Waiting :=
    ⟨waits_of_isParked hparked, by simpa using (hnever n le_rfl).1⟩
  rcases announced (kept_of_calm hcalm n) hwaits hne with ⟨i, hi⟩ | hmem | hpc
  · obtain ⟨k, hnk, hmem⟩ := (ranking_registered i).leadsTo hcalm (fun _ => trivial)
      (by rintro k rfl; exact hsenders k) n hi
    exact hbuffer k hnk hmem
  · exact hbuffer n le_rfl hmem
  · exact hpopped n le_rfl hpc

/-- The item that a receiver waits for is counted, unless the receiver waits no longer. -/
theorem waits_leadsTo_counted (hcalm : x.Under (Calm reactor_tag))
    (hsenders : ∀ i, x.WeaklyFair (Finishes i)) :
    x.LeadsTo (fun s => s.receiver.waits = true ∧ s.chan.inner.items ≠ [])
      fun s => 0 < s.chan.queueCnt ∨ s.receiver.waits = false := by
  rintro n ⟨hwaits, hne⟩
  rcases Nat.eq_zero_or_pos (x.state n).chan.queueCnt with hzero | hpos
  swap
  · exact ⟨n, le_rfl, .inl hpos⟩
  have hbalanced : ∀ m, Balanced bound (x.state m) := fun m =>
    balanced (kept_of_calm hcalm m).reachable
  obtain ⟨i, hi⟩ := (hbalanced n).sent_of_zero hwaits hzero hne
  obtain ⟨m, hnm, hm⟩ := (ranking_counted i).leadsTo hcalm hbalanced
    (by rintro k rfl; exact hsenders k) n ⟨hi, hwaits⟩
  exact ⟨m, hnm, hm⟩

end Runs

end ChannelState

end Hooch
