import Hooch.Sync.Balance

/-!
# Wake-ups of a bounded channel

A sender announces its item by registering the channel's tag; the reactor thread pops the tag and
wakes the waker stored under it. A registration is outstanding (`Outstanding`) from the inner send
to the lookup. The receiver checks the counter before it stores its waker and does not check again,
so a lookup in between finds no waker, and the registration is spent for nothing.

* `Wired`: what holds in every run of the registrations' way to the reactor and of the wakers;
* `Outstanding.next`: a registration stays outstanding, unless it is spent (`Spends`) or the
  receiver is woken;
* `loses_first_wake`: the run that loses a wake-up;
* `no_lost_wakeup`: the main result, for the runs that spend no registration the receiver needs.
-/

namespace Hooch

open Census

/-- The clone counts in `clone_count`. -/
def SenderPc.alive : SenderPc → Bool
  | .absent | .dropping => false
  | _ => true

/-- The sender has sent an item, and its registration of the tag is still to come. -/
def SenderPc.owes : SenderPc → Bool
  | .sent | .counted => true
  | _ => false

/-- The sender is in the middle of a send. -/
def SenderPc.midSend : SenderPc → Bool
  | .sent | .counted | .registered => true
  | _ => false

/-- The receiver has seen a counter of 0 in its last poll. -/
def ReceiverPc.waits {T : Type*} : ReceiverPc T → Bool
  | .loadedZero | .parked => true
  | _ => false

/-- The last poll of the receiver returned `Pending`. -/
def ReceiverPc.isParked {T : Type*} : ReceiverPc T → Bool
  | .parked => true
  | _ => false

namespace ChannelState

variable {T σ : Type*} [DecidableEq σ] [Fintype σ] {bound : ℕ} {reactor_tag : ReactorTag}
  {s s' : ChannelState T σ} {a : ChannelLabel T σ}

/-- The receiver's last poll saw a counter of 0, and its task was not woken since. -/
def Waiting (s : ChannelState T σ) : Prop := s.receiver.waits = true ∧ s.woken = false

/-- A registration of the tag is due, in the tag buffer, or about to be looked up. -/
def Outstanding (reactor_tag : ReactorTag) (s : ChannelState T σ) : Prop :=
  (∃ i, (s.sender i).owes = true) ∨ reactor_tag ∈ s.reactor.reactorTagBuffer.items ∨
    s.reactor.pc = .popped reactor_tag

/-- The step uses up the only outstanding registration and wakes nobody: a lookup that finds no
waker, or a registration that finds the tag buffer full. -/
def Spends (reactor_tag : ReactorTag) (s : ChannelState T σ) : ChannelLabel T σ → Prop
  | .reactor => s.reactor.pc = .popped reactor_tag ∧ s.reactor.reactorTags reactor_tag = none ∧
      (∀ i, (s.sender i).owes = false) ∧ reactor_tag ∉ s.reactor.reactorTagBuffer.items
  | .register i =>
      s.reactor.reactorTagBuffer.items.length = s.reactor.reactorTagBuffer.bound ∧
      (∀ j, j ≠ i → (s.sender j).owes = false) ∧
      reactor_tag ∉ s.reactor.reactorTagBuffer.items ∧ s.reactor.pc ≠ .popped reactor_tag
  | _ => False

instance (s : ChannelState T σ) : Decidable s.Waiting := inferInstanceAs (Decidable (_ ∧ _))

instance (s : ChannelState T σ) : Decidable (Outstanding reactor_tag s) :=
  inferInstanceAs (Decidable (_ ∨ _))

instance (s : ChannelState T σ) : ∀ a : ChannelLabel T σ, Decidable (Spends reactor_tag s a)
  | .reactor | .register _ => inferInstanceAs (Decidable (_ ∧ _))
  | .clone .. | .send .. | .count _ | .wake _ | .drop _ | .dropped _ | .load | .store | .tryRecv
  | .decrement | .dropReceiver | .other _ | .otherWake => inferInstanceAs (Decidable False)

/-- The receiver sleeps on an item that nobody will tell it about: it is parked and was not woken,
an item is in the channel, no sender is in the middle of a send, no mio wake is pending and the
reactor thread is idle. -/
def Lost (s : ChannelState T σ) : Prop :=
  s.receiver.isParked = true ∧ s.woken = false ∧ s.chan.inner.items ≠ [] ∧
    (∀ i, (s.sender i).midSend = false) ∧ s.reactor.Idle

instance : DecidablePred (Lost : ChannelState T σ → Prop) := fun _ =>
  inferInstanceAs (Decidable (_ ∧ _))

/-! ### The clone count -/

theorem alive_update (s : ChannelState T σ) {i : σ} {p a : SenderPc} (hi : s.sender i = p) :
    census SenderPc.alive (Function.update s.sender i a) + weight SenderPc.alive p =
      census SenderPc.alive s.sender + weight SenderPc.alive a := by
  rw [← hi]
  exact census_update SenderPc.alive s.sender i a

/-- `clone_count` is the number of clones that count in it. -/
def Counted (s : ChannelState T σ) : Prop := s.chan.cloneCount = census SenderPc.alive s.sender

theorem Counted.new (i : σ) : Counted (new bound i : ChannelState T σ) := by
  have hmove := census_update SenderPc.alive (fun _ : σ => SenderPc.absent) i .idle
  have hnone : census SenderPc.alive (fun _ : σ => SenderPc.absent) = 0 :=
    census_eq_zero.2 fun _ => rfl
  rw [hnone, weight_of_false rfl, weight_of_true rfl] at hmove
  exact hmove.symm

omit [DecidableEq σ] in
/-- The last drop finds a count of 1, so `remove_tag` is never called. -/
theorem Counted.pos (h : s.Counted) {i : σ} (hi : (s.sender i).alive = true) :
    0 < s.chan.cloneCount := by
  rw [h]
  exact census_pos.2 ⟨i, hi⟩

/-- A sender moves on and counts as before. -/
theorem Counted.sender (h : s.Counted) {i : σ} {p q : SenderPc} (hi : s.sender i = q)
    (halive : p.alive = q.alive) :
    s.chan.cloneCount = census SenderPc.alive (Function.update s.sender i p) := by
  have hmove := alive_update s (a := p) hi
  simp only [weight, halive] at hmove
  rw [h]
  omega

theorem Counted.next (h : s.Counted) (hs : Next reactor_tag s a s') : s'.Counted := by
  cases hs with
  | @clone i j hi hj =>
    have hmove := alive_update s (a := .idle) hj
    rw [weight_of_false rfl, weight_of_true rfl] at hmove
    show s.chan.cloneCount + 1 = census SenderPc.alive (Function.update s.sender j .idle)
    rw [h]
    omega
  | send hi | count hi | register hi | overflow hi | wake hi | dropped hi => exact h.sender hi rfl
  | @drop i hi =>
    have halive : (s.sender i).alive = true := by rcases hi with hi | hi <;> rw [hi] <;> rfl
    have hmove := alive_update s (a := .dropping) rfl (i := i)
    rw [weight_of_true halive, weight_of_false rfl, ← h] at hmove
    show wrappingSub s.chan.cloneCount 1 = census SenderPc.alive (Function.update s.sender i _)
    rw [wrappingSub_eq (h.pos halive)]
    omega
  | _ => exact h

/-! ### What holds in every run -/

/-- The clones are counted; a parked receiver has stored its waker; a tag in the buffer is on its
way to the reactor thread. -/
structure Wired (reactor_tag : ReactorTag) (s : ChannelState T σ) : Prop where
  clones : s.chan.cloneCount = census SenderPc.alive s.sender
  stored : s.receiver.isParked = true → s.reactor.reactorTags reactor_tag ≠ none
  moving : reactor_tag ∈ s.reactor.reactorTagBuffer.items →
    s.reactor.wakePending = true ∨ s.reactor.pc ≠ .polling ∨ ∃ i, s.sender i = .registered

theorem Wired.new (i : σ) : Wired reactor_tag (new bound i : ChannelState T σ) where
  clones := Counted.new i
  stored h := by cases h
  moving h := by cases h

omit [Fintype σ] in
theorem registered_update {i : σ} {p : SenderPc} (hi : s.sender i ≠ .registered)
    (h : ∃ j, s.sender j = .registered) : ∃ j, Function.update s.sender i p j = .registered :=
  exists_update (· = SenderPc.registered) hi h

/-- A sender moves on, and the tag buffer, the wakers and the reactor thread stay as they are. -/
theorem Wired.sender (h : Wired reactor_tag s) (hclones : s'.Counted) {i : σ} {p q : SenderPc}
    (hi : s.sender i = q) (hsender : s'.sender = Function.update s.sender i p)
    (hq : q ≠ .registered) (hreactor : s'.reactor = s.reactor)
    (hreceiver : s'.receiver = s.receiver) : Wired reactor_tag s' where
  clones := hclones
  stored := by
    rw [hreceiver, hreactor]
    exact h.stored
  moving hmem := by
    rw [hreactor] at hmem ⊢
    rw [hsender]
    exact (h.moving hmem).imp_right <| Or.imp_right <| registered_update (hi ▸ hq)

omit [DecidableEq σ] in
/-- The reactor thread moves on. -/
theorem Wired.reactor (h : Wired reactor_tag s) {w : Option Unit} {r : Reactor Unit}
    (hr : s.reactor.ThreadNext w r) {woken : Bool} :
    Wired reactor_tag { s with reactor := r, woken := woken } := by
  cases hr with
  | take => exact ⟨h.clones, h.stored, fun _ => .inr (.inl (by simp))⟩
  | pop => exact ⟨h.clones, h.stored, fun _ => .inr (.inl (by simp))⟩
  | emptied hpc hitems =>
    refine ⟨h.clones, h.stored, fun hmem => ?_⟩
    simp [hitems] at hmem
  | found => exact ⟨h.clones, h.stored, fun _ => .inr (.inl (by simp))⟩
  | missed => exact ⟨h.clones, h.stored, fun _ => .inr (.inl (by simp))⟩

/-- Every step of every party keeps the registrations on their way. -/
theorem Wired.next (h : Wired reactor_tag s) (hs : Next reactor_tag s a s') :
    Wired reactor_tag s' := by
  have hclones : s'.Counted := Counted.next h.clones hs
  cases hs with
  | refused => exact h
  | @clone i j hi hj =>
    exact ⟨hclones, h.stored, fun hmem => (h.moving hmem).imp_right <| Or.imp_right <|
      registered_update (by simp [hj])⟩
  | send hi => exact h.sender hclones hi rfl (by simp) rfl rfl
  | count hi => exact h.sender hclones hi rfl (by simp) rfl rfl
  | register hi =>
    exact ⟨hclones, h.stored,
      fun _ => .inr (.inr (exists_update_self (· = SenderPc.registered) rfl))⟩
  | overflow hi => exact h.sender hclones hi rfl (by simp) rfl rfl
  | wake hi => exact ⟨hclones, h.stored, fun _ => .inl rfl⟩
  | @drop i hi =>
    have halive : (s.sender i).alive = true := by rcases hi with hi | hi <;> rw [hi] <;> rfl
    rw [if_neg (Counted.pos h.clones halive).ne'] at hclones ⊢
    exact ⟨hclones, h.stored, fun hmem => (h.moving hmem).imp_right <| Or.imp_right <|
      registered_update (by rcases hi with hi | hi <;> simp [hi])⟩
  | dropped hi => exact h.sender hclones hi rfl (by simp) rfl rfl
  | loadZero => exact ⟨h.clones, (fun hp => by cases hp), h.moving⟩
  | loadPos => exact ⟨h.clones, (fun hp => by cases hp), h.moving⟩
  | store hr =>
    exact ⟨h.clones, fun _ => by simp [returns, Reactor.storeWakerChannel], h.moving⟩
  | tryRecv => exact ⟨h.clones, (fun hp => by cases hp), h.moving⟩
  | tryRecvError => exact ⟨h.clones, (fun hp => by cases hp), h.moving⟩
  | decrement => exact ⟨h.clones, (fun hp => by cases hp), h.moving⟩
  | dropReceiver => exact ⟨h.clones, (fun hp => by cases hp), h.moving⟩
  | reactor hr => exact h.reactor hr
  | @other tag q htag hbound hitems =>
    refine ⟨h.clones, h.stored, fun hmem => h.moving ?_⟩
    rw [hitems] at hmem
    rcases List.mem_append.1 hmem with hmem | hmem
    · exact hmem
    · exact absurd (List.mem_singleton.1 hmem).symm htag
  | otherWake => exact ⟨h.clones, h.stored, fun _ => .inl rfl⟩

theorem wired (h : (system T σ bound reactor_tag).Reachable s) : Wired reactor_tag s := by
  refine h.invariant ?_ fun s a s' hI hs => hI.next (next_of_step hs)
  rintro s ⟨i, rfl⟩
  exact .new i

/-! ### What becomes of a registration -/

omit [Fintype σ] in
theorem owes_update {i : σ} {p : SenderPc} (hi : (s.sender i).owes = false)
    (h : ∃ j, (s.sender j).owes = true) : ∃ j, (Function.update s.sender i p j).owes = true :=
  exists_update (fun q => SenderPc.owes q = true) (by simp [hi]) h

omit [Fintype σ] in
/-- A registration that finds the buffer full and is not the only one outstanding. -/
theorem Outstanding.overflow {i : σ} {p : SenderPc}
    (hfull : s.reactor.reactorTagBuffer.items.length = s.reactor.reactorTagBuffer.bound)
    (hspends : ¬ Spends reactor_tag s (.register i)) :
    Outstanding reactor_tag { s with sender := Function.update s.sender i p } := by
  by_cases howes : ∀ j, j ≠ i → (s.sender j).owes = false
  · by_cases hmem : reactor_tag ∈ s.reactor.reactorTagBuffer.items
    · exact .inr (.inl hmem)
    · by_cases hpc : s.reactor.pc = .popped reactor_tag
      · exact .inr (.inr hpc)
      · exact absurd ⟨hfull, howes, hmem, hpc⟩ hspends
  · push Not at howes
    obtain ⟨j, hji, hj⟩ := howes
    refine .inl ⟨j, ?_⟩
    show (Function.update s.sender i p j).owes = true
    rw [Function.update_of_ne hji]
    simpa using hj

omit [DecidableEq σ] [Fintype σ] in
/-- The reactor thread moves on: the tag is still on its way, or the receiver is woken. -/
theorem Outstanding.reactor (h : Outstanding reactor_tag s) {w : Option Unit} {r : Reactor Unit}
    (hr : s.reactor.ThreadNext w r) (hspends : ¬ Spends reactor_tag s .reactor) {woken : Bool} :
    Outstanding reactor_tag { s with reactor := r, woken := woken } ∨ w.isSome = true := by
  cases hr with
  | take hpc =>
    rcases h with h | h | h
    · exact .inl (.inl h)
    · exact .inl (.inr (.inl h))
    · rw [hpc] at h
      cases h
  | @pop tag q hpc hitems =>
    rcases h with h | h | h
    · exact .inl (.inl h)
    · rw [hitems] at h
      rcases List.mem_cons.1 h with rfl | h
      · exact .inl (.inr (.inr rfl))
      · exact .inl (.inr (.inl h))
    · rw [hpc] at h
      cases h
  | emptied hpc hitems =>
    rcases h with h | h | h
    · exact .inl (.inl h)
    · rw [hitems] at h
      cases h
    · rw [hpc] at h
      cases h
  | found => exact .inr rfl
  | @missed tag hpc hw =>
    refine .inl ?_
    rcases h with h | h | h
    · exact .inl h
    · exact .inr (.inl h)
    · rw [hpc, ReactorPc.popped.injEq] at h
      subst h
      by_cases howes : ∀ i, (s.sender i).owes = false
      · by_cases hmem : tag ∈ s.reactor.reactorTagBuffer.items
        · exact .inr (.inl hmem)
        · exact absurd ⟨hpc, hw, howes, hmem⟩ hspends
      · push Not at howes
        obtain ⟨i, hi⟩ := howes
        exact .inl ⟨i, by simpa using hi⟩

/-- A registration that is not spent stays outstanding until the receiver is woken. -/
theorem Outstanding.next (h : Outstanding reactor_tag s) (hs : Next reactor_tag s a s')
    (hspends : ¬ Spends reactor_tag s a) : Outstanding reactor_tag s' ∨ s'.woken = true := by
  cases hs with
  | clone hi hj => exact .inl (h.imp_left (owes_update (by rw [hj]; rfl)))
  | send => exact .inl (.inl (exists_update_self (fun q => SenderPc.owes q = true) rfl))
  | refused => exact .inl h
  | count => exact .inl (.inl (exists_update_self (fun q => SenderPc.owes q = true) rfl))
  | register hi hbound hitems => exact .inl (.inr (.inl (by simp [hitems])))
  | overflow hi hfull => exact .inl (.overflow hfull hspends)
  | wake hi => exact .inl (h.imp_left (owes_update (by rw [hi]; rfl)))
  | @drop i hi =>
    have howes : (s.sender i).owes = false := by rcases hi with hi | hi <;> rw [hi] <;> rfl
    refine .inl ?_
    split <;> exact h.imp_left (owes_update howes)
  | dropped hi => exact .inl (h.imp_left (owes_update (by rw [hi]; rfl)))
  | loadZero | loadPos | store | tryRecv | tryRecvError | decrement | dropReceiver | otherWake =>
    exact .inl h
  | reactor hr =>
    rcases h.reactor hr hspends with h | hw
    · exact .inl h
    · exact .inr (by simp [hw])
  | other htag hbound hitems =>
    refine .inl (h.imp_right (Or.imp_left fun hmem => ?_))
    rw [hitems]
    exact List.mem_append_left _ hmem

/-- The receiver begins to wait by loading a 0, and in no other way. -/
theorem waiting_of_next (hs : Next reactor_tag s a s') (hw : s'.Waiting) :
    s.Waiting ∨ (a = .load ∧ s.receiver.rests = true ∧ s.chan.queueCnt = 0 ∧
      s'.sender = s.sender) := by
  cases hs with
  | clone | send | refused | count | register | overflow | wake | dropped | other | otherWake =>
    exact .inl hw
  | drop => exact .inl hw
  | loadZero hr hcnt => exact .inr ⟨rfl, hr, hcnt, rfl⟩
  | store hr => exact .inl ⟨by rw [hr]; rfl, hw.2⟩
  | reactor hr =>
    refine .inl ⟨hw.1, ?_⟩
    have hwoken := hw.2
    simp only [Bool.or_eq_false_iff] at hwoken
    exact hwoken.2
  | loadPos | tryRecv | tryRecvError | decrement | dropReceiver => exact absurd hw.1 (by simp [
      returns, ReceiverPc.waits])

/-- An item comes into the channel by a send, whose sender then owes a registration. -/
theorem items_of_next (hs : Next reactor_tag s a s') (hne : s'.chan.inner.items ≠ []) :
    s.chan.inner.items ≠ [] ∨ ∃ i, (s'.sender i).owes = true := by
  cases hs with
  | send => exact .inr (exists_update_self (fun q => SenderPc.owes q = true) rfl)
  | tryRecv hr hitems => exact .inl (by simp [hitems])
  | dropReceiver => exact absurd rfl hne
  | _ => exact .inl hne

omit [DecidableEq σ] in
/-- A receiver that loads a 0 while an item is in the channel has a sender that has not counted
it. -/
theorem Balanced.owes_of_zero (h : Balanced bound s) (hr : s.receiver.rests = true)
    (hcnt : s.chan.queueCnt = 0) (hne : s.chan.inner.items ≠ []) :
    ∃ i, (s.sender i).owes = true := by
  obtain ⟨htaken, hdropped⟩ := rests_taken hr
  have hcount := h.count (h.alive_of_ne hdropped)
  have hlen := List.length_pos_of_ne_nil hne
  rw [htaken, hcnt, List.length_nil] at hcount
  obtain ⟨i, hi⟩ := census_pos.1 (show 0 < census SenderPc.uncounted s.sender by
    unfold uncounted at hcount; omega)
  refine ⟨i, ?_⟩
  cases hpc : s.sender i <;> simp_all [SenderPc.uncounted, SenderPc.owes]

/-! ### The results -/

/-- No step spends the only outstanding registration while the receiver waits for an item that is
in the channel. -/
def Kept (reactor_tag : ReactorTag) (s : ChannelState T σ) (a : ChannelLabel T σ) : Prop :=
  Spends reactor_tag s a → s.Waiting → s.chan.inner.items = []

instance (s : ChannelState T σ) (a : ChannelLabel T σ) : Decidable (Kept reactor_tag s a) :=
  inferInstanceAs (Decidable (_ → _ → _))

/-- While the receiver waits for an item that is in the channel, a registration is outstanding. -/
theorem announced (h : (system T σ bound reactor_tag).ReachableUnder (Kept reactor_tag) s)
    (hw : s.Waiting) (hne : s.chan.inner.items ≠ []) : Outstanding reactor_tag s := by
  induction h with
  | init hinit =>
    obtain ⟨i, rfl⟩ := hinit
    exact absurd rfl hne
  | @step s s' a hreach hkept hs ih =>
    have hnext := next_of_step hs
    rcases items_of_next hnext hne with hne' | howes
    · rcases waiting_of_next hnext hw with hw' | ⟨rfl, hrests, hcnt, hsender⟩
      · have hspends : ¬ Spends reactor_tag s a := fun hsp => hne' (hkept hsp hw')
        rcases (ih hw' hne').next hnext hspends with hout | hwoken
        · exact hout
        · exact absurd (hw.2.symm.trans hwoken) (by simp)
      · obtain ⟨i, hi⟩ := (balanced hreach.reachable).owes_of_zero hrests hcnt hne'
        exact .inl ⟨i, by rwa [hsender]⟩
    · exact .inl howes

/-- Any number of senders, any interleaving: as long as no registration is spent that the receiver
needs, no item is in the channel while the receiver sleeps and nothing is on its way to it. -/
theorem no_lost_wakeup (h : (system T σ bound reactor_tag).ReachableUnder (Kept reactor_tag) s) :
    ¬ Lost s := by
  rintro ⟨hparked, hwoken, hne, hsenders, hpc, hpending⟩
  have hwaits : s.receiver.waits = true := by
    cases hr : s.receiver <;> simp_all [ReceiverPc.isParked, ReceiverPc.waits]
  rcases announced h ⟨hwaits, hwoken⟩ hne with ⟨i, hi⟩ | hmem | hpopped
  · have hmid := hsenders i
    cases hsi : s.sender i <;> simp_all [SenderPc.owes, SenderPc.midSend]
  · rcases (wired h.reachable).moving hmem with hw | hp | ⟨i, hi⟩
    · rw [hpending] at hw
      cases hw
    · exact hp hpc
    · have hmid := hsenders i
      rw [hi] at hmid
      cases hmid
  · rw [hpc] at hpopped
    cases hpopped

/-- The receiver parks, an item is sent, and the reactor thread wakes it. -/
theorem no_lost_wakeup_parkedFirst :
    ∃ s, (system ℕ Unit 1 0).ReachableUnder (Kept 0) s ∧ s.receiver.isParked = true ∧
      s.woken = true ∧ s.chan.inner.items = [7] ∧ ¬ Lost s := by
  obtain ⟨s, hs, hp⟩ := TransitionSystem.exists_reachableUnder (S := system ℕ Unit 1 0)
    (C := Kept 0) (s := new 1 ()) ⟨(), rfl⟩
    [.load, .store, .send () 7, .count (), .register (), .wake (), .reactor, .reactor, .reactor]
    (p := fun s => s.receiver.isParked = true ∧ s.woken = true ∧ s.chan.inner.items = [7])
    (by decide)
  exact ⟨s, hs, hp.1, hp.2.1, hp.2.2, no_lost_wakeup hs⟩

/-- The receiver looks at the counter, an item is sent and announced, the reactor thread finds no
waker under the tag, and the receiver stores its waker too late. -/
def lateWaker : List (ChannelLabel ℕ Unit) :=
  [.load, .send () 7, .count (), .register (), .wake (), .reactor, .reactor, .reactor, .reactor,
    .store]

/-- One sender, one item, the first poll of the channel: the wake-up is lost. -/
theorem loses_first_wake : ∃ s, (system ℕ Unit 1 0).Reachable s ∧ Lost s :=
  TransitionSystem.exists_reachableUnder (S := system ℕ Unit 1 0) (C := fun _ _ => True)
    (s := new 1 ()) ⟨(), rfl⟩ lateWaker (by decide)

end ChannelState

end Hooch
