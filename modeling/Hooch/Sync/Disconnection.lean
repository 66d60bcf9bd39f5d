import Hooch.Sync.LostWake

/-!
# Senders that are gone

`recv` promises a `RecvError` once the channel is closed. The receiver would notice the drop of the
last sender only by an empty channel behind a counter that is not 0, which never happens
(`counter_and_order`), and the drop registers no tag, so it wakes nobody.

* `Reports`: what a poll of a closed channel should return; `Deaf`: a receiver that sleeps on a
  closed channel;
* `closed_unnoticed`: the run in which both go wrong;
* `disconnection_reported`: the main result, for the runs in which an item still queued, or a
  registration still on its way, hides it;
* `closed_poll_pending`, `dropped_deaf`: the condition leaves nothing out.
-/

namespace Hooch

open Census

/-- The poll is inside `poll_recv`, and the list is what is left of the items it found. -/
def ReceiverPc.expects {T : Type*} (found items : List T) : ReceiverPc T → Prop
  | .loadedZero => False
  | .loadedPos => found = items
  | .received v => found = v :: items
  | _ => True

/-- The receiver is inside `poll_recv`. -/
def ReceiverPc.polls {T : Type*} : ReceiverPc T → Bool
  | .loadedZero | .loadedPos | .received _ => true
  | _ => false

/-- A poll that began when every sender had been dropped returned the oldest item, or the error
if there was none. -/
def PollRecord.Reports {T : Type*} (p : PollRecord T) : Prop :=
  p.closed = true → p.result = match p.items with
    | v :: _ => .ready (.ok v)
    | [] => .ready (.error .closed)

namespace ChannelState

variable {T σ : Type*} [DecidableEq σ] [Fintype σ] {bound : ℕ} {reactor_tag : ReactorTag}
  {s s' : ChannelState T σ} {a : ChannelLabel T σ}

/-- Every sender has been dropped, and the receiver is parked, with nothing left that could wake
it. -/
def Deaf (s : ChannelState T σ) : Prop :=
  s.Closed ∧ s.receiver.isParked = true ∧ s.woken = false ∧ s.reactor.Idle

instance : DecidablePred (Deaf : ChannelState T σ → Prop) := fun _ =>
  inferInstanceAs (Decidable (_ ∧ _))

/-- The end of the channel does not matter to this step. A poll of a closed channel begins only
when an item is queued; the last sender is dropped only while no receiver waits or its tag is
outstanding; no step spends the only registration of a receiver that waits on a closed channel. -/
def Noticed (reactor_tag : ReactorTag) (s : ChannelState T σ) : ChannelLabel T σ → Prop
  | .load => s.Closed → s.chan.inner.items ≠ []
  | .dropped i =>
      (∀ j, j ≠ i → s.sender j = .absent) → s.Waiting → Outstanding reactor_tag s
  | a => Spends reactor_tag s a → s.Waiting → ¬ s.Closed

instance (s : ChannelState T σ) : ∀ a : ChannelLabel T σ, Decidable (Noticed reactor_tag s a)
  | .load => inferInstanceAs (Decidable (s.Closed → _))
  | .dropped _ => inferInstanceAs (Decidable ((∀ _, _ → _) → s.Waiting → Outstanding _ s))
  | .clone .. | .send .. | .count _ | .register _ | .wake _ | .drop _ | .store | .tryRecv
  | .decrement | .dropReceiver | .reactor | .other _ | .otherWake =>
    inferInstanceAs (Decidable (Spends _ s _ → s.Waiting → ¬ s.Closed))

omit [DecidableEq σ] [Fintype σ] in
theorem Noticed.kept (h : Noticed reactor_tag s a) (hspends : Spends reactor_tag s a)
    (hw : s.Waiting) : ¬ s.Closed := by
  cases a with
  | load | dropped => cases hspends
  | _ => exact h hspends hw

/-! ### The end of the channel -/

theorem Closed.next (h : s.Closed) (hs : Next reactor_tag s a s') : s'.Closed := by
  cases hs with
  | clone hi | send hi | refused hi | count hi | register hi | overflow hi | wake hi | dropped hi =>
    rw [h] at hi
    cases hi
  | drop hi =>
    rcases hi with hi | hi <;>
    · rw [h] at hi
      cases hi
  | _ => exact h

/-- A channel is closed by the drop of its last sender. -/
theorem closed_of_next (hs : Next reactor_tag s a s') (hclosed : s'.Closed) :
    s.Closed ∨ ∃ i, a = .dropped i ∧ ∀ j, j ≠ i → s.sender j = .absent := by
  cases hs with
  | @clone i j => simpa using hclosed j
  | @send i => simpa using hclosed i
  | @count i => simpa using hclosed i
  | @register i => simpa using hclosed i
  | @overflow i => simpa using hclosed i
  | @wake i => simpa using hclosed i
  | @drop i => simpa using hclosed i
  | @dropped i hi =>
    refine .inr ⟨i, rfl, fun j hji => ?_⟩
    have hj : Function.update s.sender i .absent j = .absent := hclosed j
    rwa [Function.update_of_ne hji] at hj
  | _ => exact .inl hclosed

omit [DecidableEq σ] [Fintype σ] in
theorem Closed.owes (h : s.Closed) (i : σ) : (s.sender i).owes = false := by
  rw [h i]
  rfl

/-- While the receiver of a closed channel waits, a registration is outstanding. -/
theorem closed_outstanding
    (h : (system T σ bound reactor_tag).ReachableUnder (Noticed reactor_tag) s)
    (hw : s.Waiting) (hclosed : s.Closed) : Outstanding reactor_tag s := by
  induction h with
  | init hinit =>
    obtain ⟨i, rfl⟩ := hinit
    cases hw.1
  | @step s s' a hreach hnoticed hs ih =>
    have hnext := next_of_step hs
    have hkept : Outstanding reactor_tag s' ∨ s'.woken = true → Outstanding reactor_tag s' :=
      fun h => h.resolve_right (by simp [hw.2])
    rcases waiting_of_next hnext hw with hw' | ⟨rfl, hrests, hcnt, -⟩
    · -- The receiver waited before: was the channel closed then?
      rcases closed_of_next hnext hclosed with hclosed' | ⟨i, rfl, hothers⟩
      · have hspends : ¬ Spends reactor_tag s a := fun hsp => hnoticed.kept hsp hw' hclosed'
        exact hkept ((ih hw' hclosed').next hnext hspends)
      · exact hkept ((hnoticed hothers hw').next hnext (fun hsp => hsp))
    · -- The receiver has just loaded a 0, which a closed channel with an item in it rules out.
      have hclosed' : s.Closed := by
        rcases closed_of_next hnext hclosed with hclosed' | ⟨i, hi, -⟩
        · exact hclosed'
        · cases hi
      obtain ⟨i, hi⟩ :=
        (balanced hreach.reachable).owes_of_zero hrests hcnt (hnoticed hclosed')
      rw [hclosed'.owes i] at hi
      cases hi

/-! ### The polls of a closed channel -/

/-- The polls of a closed channel found what was left in it. -/
structure Reporting (s : ChannelState T σ) : Prop where
  closed : s.receiver.polls = true → s.closedAtLoad = true → s.Closed
  expects : s.closedAtLoad = true → s.receiver.expects s.itemsAtLoad s.chan.inner.items
  polls : ∀ p ∈ s.polls, p.Reports

omit [DecidableEq σ] [Fintype σ] in
theorem reports_returns {result : Poll (Except RecvError T)} (h : ∀ p ∈ s.polls, p.Reports)
    (hresult : PollRecord.Reports ⟨s.closedAtLoad, s.itemsAtLoad, result⟩) :
    ∀ p ∈ (s.returns result).polls, p.Reports := by
  intro p hp
  rcases List.mem_append.1 hp with hp | hp
  · exact h p hp
  · rwa [List.mem_singleton.1 hp]

theorem Reporting.next (h : Reporting s) (hbal : Balanced bound s)
    (hnoticed : Noticed reactor_tag s a) (hs : Next reactor_tag s a s') : Reporting s' := by
  have hstays : s.Closed → s'.Closed := fun hclosed => hclosed.next hs
  cases hs with
  | refused => exact h
  | clone | count | register | overflow | wake | drop | dropped | reactor | other | otherWake =>
    exact ⟨fun hp hc => hstays (h.closed hp hc), h.expects, h.polls⟩
  | @send i val ch hi =>
    refine ⟨fun hp hc => hstays (h.closed hp hc), fun hc => ?_, h.polls⟩
    -- A closed channel is not sent on.
    have hopen : s.receiver.polls = true → False := fun hp => by
      have hclosed := h.closed hp hc i
      rw [hi] at hclosed
      cases hclosed
    show s.receiver.expects s.itemsAtLoad ch.items
    cases hr : s.receiver <;> simp_all [ReceiverPc.polls, ReceiverPc.expects]
  | loadZero hr hcnt =>
    refine ⟨fun _ hc => of_decide_eq_true hc, fun hc => ?_, h.polls⟩
    have hclosed : s.Closed := of_decide_eq_true hc
    obtain ⟨i, hi⟩ := hbal.owes_of_zero hr hcnt (hnoticed hclosed)
    exact absurd (hi.symm.trans (hclosed.owes i)) (by simp)
  | loadPos => exact ⟨fun _ hc => of_decide_eq_true hc, fun _ => rfl, h.polls⟩
  | store hr =>
    refine ⟨fun hp => (by cases hp), fun _ => trivial, reports_returns h.polls fun hc => ?_⟩
    have hexpects := h.expects hc
    rw [hr] at hexpects
    exact hexpects.elim
  | @tryRecv v ch hr hitems =>
    refine ⟨fun _ hc => hstays (h.closed (by rw [hr]; rfl) hc), fun hc => ?_, h.polls⟩
    have hexpects := h.expects hc
    rw [hr] at hexpects
    exact Eq.trans hexpects hitems
  | tryRecvError hr hitems =>
    refine ⟨fun hp => (by cases hp), fun _ => trivial, reports_returns h.polls fun hc => ?_⟩
    have hexpects : s.itemsAtLoad = s.chan.inner.items := by
      have := h.expects hc
      rwa [hr] at this
    simp [hexpects, hitems]
  | @decrement v hr =>
    refine ⟨fun hp => (by cases hp), fun _ => trivial, reports_returns h.polls fun hc => ?_⟩
    have hexpects : s.itemsAtLoad = v :: s.chan.inner.items := by
      have := h.expects hc
      rwa [hr] at this
    simp [hexpects]
  | dropReceiver hr => exact ⟨fun hp => (by cases hp), fun _ => trivial, h.polls⟩

theorem reporting (h : (system T σ bound reactor_tag).ReachableUnder (Noticed reactor_tag) s) :
    Reporting s := by
  induction h with
  | init hinit =>
    obtain ⟨i, rfl⟩ := hinit
    exact ⟨fun hp => (by cases hp), fun hc => (by cases hc), fun p hp => (by cases hp)⟩
  | step hreach hnoticed hs ih =>
    exact ih.next (balanced hreach.reachable) hnoticed (next_of_step hs)

/-! ### The results -/

/-- Any number of clones, sends, drops and polls: as long as the end of the channel is covered by
an item or a registration, every poll of the closed channel returns the oldest item or the error,
and no receiver sleeps on the closed channel. -/
theorem disconnection_reported
    (h : (system T σ bound reactor_tag).ReachableUnder (Noticed reactor_tag) s) :
    (∀ p ∈ s.polls, p.Reports) ∧ ¬ Deaf s := by
  refine ⟨(reporting h).polls, ?_⟩
  rintro ⟨hclosed, hparked, hwoken, hpc, hpending⟩
  have hwaits : s.receiver.waits = true := by
    cases hr : s.receiver <;> simp_all [ReceiverPc.isParked, ReceiverPc.waits]
  rcases closed_outstanding h ⟨hwaits, hwoken⟩ hclosed with ⟨i, hi⟩ | hmem | hpopped
  · rw [hclosed.owes i] at hi
    cases hi
  · rcases (wired h.reachable).moving hmem with hw | hp | ⟨i, hi⟩
    · rw [hpending] at hw
      cases hw
    · exact hp hpc
    · rw [hclosed i] at hi
      cases hi
  · rw [hpc] at hpopped
    cases hpopped

/-- A sender sends and is dropped; the item is received afterwards. -/
theorem disconnection_reported_itemLeft :
    ∃ s, (system ℕ Unit 1 0).ReachableUnder (Noticed 0) s ∧ s.Closed ∧ s.received = [7] ∧
      (∀ p ∈ s.polls, p.Reports) ∧ ¬ Deaf s := by
  obtain ⟨s, hs, hp⟩ := TransitionSystem.exists_reachableUnder (S := system ℕ Unit 1 0)
    (C := Noticed 0) (s := new 1 ()) ⟨(), rfl⟩
    [.send () 7, .count (), .register (), .wake (), .drop (), .dropped (), .load, .tryRecv,
      .decrement]
    (p := fun s => s.Closed ∧ s.received = [7]) (by decide)
  exact ⟨s, hs, hp.1, hp.2, disconnection_reported hs⟩

/-- The receiver parks, the only sender is dropped, and the receiver is polled once more. -/
theorem closed_unnoticed :
    ∃ s, (system ℕ Unit 1 0).Reachable s ∧ Deaf s ∧ ∃ p ∈ s.polls, ¬ p.Reports := by
  obtain ⟨s, hs, hp⟩ := TransitionSystem.exists_reachableUnder (S := system ℕ Unit 1 0)
    (C := fun _ _ => True) (s := new 1 ()) ⟨(), rfl⟩
    [.load, .store, .drop (), .dropped (), .load, .store]
    (p := fun s => Deaf s ∧ s.polls.any fun p => p.closed && match p.result with
      | .pending => true
      | _ => false) (by decide)
  refine ⟨s, hs, hp.1, ?_⟩
  obtain ⟨p, hmem, hpending⟩ := List.any_eq_true.1 hp.2
  refine ⟨p, hmem, fun hreports => ?_⟩
  rw [Bool.and_eq_true] at hpending
  have hresult := hreports hpending.1
  rw [hresult] at hpending
  cases hitems : p.items <;> simp [hitems] at hpending

/-- The condition on polls leaves nothing out: a poll of a closed channel that finds nothing
returns `Pending`. -/
theorem closed_poll_pending (h : (system T σ bound reactor_tag).Reachable s) (hclosed : s.Closed)
    (hrests : s.receiver.rests = true) (hnil : s.chan.inner.items = []) :
    ∃ s', (system T σ bound reactor_tag).run s [.load, .store] = some s' ∧
      ∃ p ∈ s'.polls, ¬ p.Reports := by
  obtain ⟨htaken, hdropped⟩ := rests_taken hrests
  have hcount := (balanced h).count ((balanced h).alive_of_ne hdropped)
  rw [htaken, hnil, List.length_nil] at hcount
  have hcnt : s.chan.queueCnt = 0 := by omega
  refine ⟨_, by simp [TransitionSystem.run, system, step, hrests, hcnt]; rfl,
    ⟨true, s.chan.inner.items, .pending⟩, ?_, fun hreports => ?_⟩
  · simp [returns, hclosed]
  · have hresult := hreports rfl
    simp [hnil] at hresult

/-- The condition on drops leaves nothing out: a receiver that is parked when the last sender is
dropped, with nothing on its way, sleeps on. -/
theorem dropped_deaf {i : σ} (hi : s.sender i = .dropping)
    (hothers : ∀ j, j ≠ i → s.sender j = .absent) (hparked : s.receiver.isParked = true)
    (hwoken : s.woken = false) (hidle : s.reactor.Idle) :
    ∃ s', s.step reactor_tag (.dropped i) = some s' ∧ Deaf s' := by
  refine ⟨{ s with sender := Function.update s.sender i .absent }, by simp [step, hi],
    fun j => ?_, hparked, hwoken, hidle⟩
  by_cases hji : j = i
  · subst hji
    simp
  · simp [hji, hothers j hji]

end ChannelState

end Hooch
