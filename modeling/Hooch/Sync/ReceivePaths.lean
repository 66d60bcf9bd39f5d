import Hooch.Sync.BoundedChannel

/-!
# The two ways to receive

`try_recv` and `poll_recv` take from the same channel, but only `poll_recv` discounts what it
takes. One thread makes all the calls here, each of them completed before the next.

* `Agrees`: what one expects of the two in one state; `ResultsAgree` lets the counters they leave
  behind be one apart;
* `counter_drifts`: the sequence after which `poll_recv` returns an error on an open channel;
* `receive_paths_agree`: the main result, exactly which sequences keep the two in agreement.
-/

namespace Hooch

/-- A channel and the reactor, between two calls. -/
structure ReceivePaths (T W : Type*) where
  chan : BoundedChannel T
  reactor : Reactor W

/-- A completed call, or a step of the reactor thread. -/
inductive ReceivePaths.Label (T W : Type*)
  | send (val : T)
  | tryRecv
  | pollRecv (waker : W)
  | reactor

namespace ReceivePaths

variable {T W : Type*} {bound : ℕ} {reactor_tag : ReactorTag} {s s' : ReceivePaths T W}

/-- The channel that `bounded_channel` creates, on a new reactor. -/
def new (bound : ℕ) : ReceivePaths T W := ⟨.new bound, .new⟩

/-- One call that completes. -/
def step (reactor_tag : ReactorTag) (s : ReceivePaths T W) :
    Label T W → Option (ReceivePaths T W)
  | .send val =>
      match s.chan.send s.reactor reactor_tag val with
      | .ok (some (c, r)) => some ⟨c, r⟩
      | _ => none
  | .tryRecv => some { s with chan := (s.chan.tryRecv true).2 }
  | .pollRecv waker =>
      let p := s.chan.pollRecv s.reactor reactor_tag waker
      some ⟨p.2.1, p.2.2⟩
  | .reactor => s.reactor.threadStep.map fun p => { s with reactor := p.2 }

/-- The sequences of completed calls on a new channel. -/
def calls (T W : Type*) (bound : ℕ) (reactor_tag : ReactorTag) :
    TransitionSystem (ReceivePaths T W) (Label T W) where
  init s := s = new bound
  step := step reactor_tag

/-- The counter is the number of items, and `poll_recv` returns an item exactly when `try_recv`
would, leaving the same state behind, `Pending` when `try_recv` would find nothing, and never an
error. -/
def Agrees (reactor_tag : ReactorTag) (s : ReceivePaths T W) : Prop :=
  s.chan.queueCnt = s.chan.inner.items.length ∧
  (∀ waker v s', s.chan.pollRecv s.reactor reactor_tag waker = (.ready (.ok v), s') ↔
    ∃ c, s.chan.tryRecv true = (.ok v, c) ∧ s' = (c, s.reactor)) ∧
  (∀ waker, (s.chan.tryRecv true).1 = .error .empty →
    (s.chan.pollRecv s.reactor reactor_tag waker).1 = .pending) ∧
  ∀ waker e, (s.chan.pollRecv s.reactor reactor_tag waker).1 ≠ .ready (.error e)

/-- `Agrees`, but where the two take an item `poll_recv` leaves the counter one lower; and where
they find nothing they leave the channel as it was. -/
def ResultsAgree (reactor_tag : ReactorTag) (s : ReceivePaths T W) : Prop :=
  s.chan.queueCnt = s.chan.inner.items.length ∧
  (∀ waker v s', s.chan.pollRecv s.reactor reactor_tag waker = (.ready (.ok v), s') ↔
    ∃ c, s.chan.tryRecv true = (.ok v, c) ∧ s' = (c.fetchSubCnt, s.reactor) ∧
      c.fetchSubCnt.queueCnt + 1 = c.queueCnt) ∧
  (∀ waker, (s.chan.tryRecv true).1 = .error .empty →
    (s.chan.tryRecv true).2 = s.chan ∧ s.chan.pollRecv s.reactor reactor_tag waker =
      (.pending, s.chan, s.reactor.storeWakerChannel reactor_tag waker)) ∧
  ∀ waker e, (s.chan.pollRecv s.reactor reactor_tag waker).1 ≠ .ready (.error e)

/-! ### What the calls do -/

theorem step_send {val : T} (h : s.step reactor_tag (.send val) = some s') :
    s'.chan.queueCnt = s.chan.queueCnt + 1 ∧
      s'.chan.inner.items = s.chan.inner.items ++ [val] := by
  simp only [step, BoundedChannel.send] at h
  cases hsend : s.chan.innerSend val with
  | error e => simp [hsend, Except.map] at h
  | ok c =>
    obtain ⟨ch, rfl, -, -, -, hitems⟩ := BoundedChannel.innerSend_eq_ok hsend
    cases hreg : s.reactor.registerReactorTag reactor_tag with
    | none => simp [hsend, hreg, Except.map] at h
    | some r =>
      simp only [hsend, hreg, Except.map, Option.map_some, Option.some.injEq] at h
      subst h
      exact ⟨rfl, hitems⟩

/-- Both calls on an empty channel whose counter is 0. -/
theorem calls_nil (reactor_tag : ReactorTag) (hcnt : s.chan.queueCnt = 0)
    (hnil : s.chan.inner.items = []) :
    s.chan.tryRecv true = (.error .empty, s.chan) ∧ ∀ waker,
      s.chan.pollRecv s.reactor reactor_tag waker =
        (.pending, s.chan, s.reactor.storeWakerChannel reactor_tag waker) := by
  have hnone := BoundedChannel.innerTryRecv_eq_none.2 hnil
  exact ⟨by simp [BoundedChannel.tryRecv, hnone], fun waker => by
    simp [BoundedChannel.pollRecv, hcnt]⟩

/-- Both calls on a channel with an item and a counter that is not 0. -/
theorem calls_cons (reactor_tag : ReactorTag) {v : T} {vs : List T} (hcnt : 0 < s.chan.queueCnt)
    (hitems : s.chan.inner.items = v :: vs) :
    ∃ c, c.inner.items = vs ∧ c.queueCnt = s.chan.queueCnt ∧
      s.chan.tryRecv true = (.ok v, c) ∧ ∀ waker,
        s.chan.pollRecv s.reactor reactor_tag waker =
          (.ready (.ok v), c.fetchSubCnt, s.reactor) := by
  cases htry : s.chan.innerTryRecv with
  | none =>
    rw [BoundedChannel.innerTryRecv_eq_none.1 htry] at hitems
    cases hitems
  | some p =>
    obtain ⟨w, c⟩ := p
    obtain ⟨ch, rfl, hch, -, -⟩ := BoundedChannel.innerTryRecv_eq_some htry
    rw [hitems, List.cons.injEq] at hch
    obtain ⟨rfl, rfl⟩ := hch
    exact ⟨{ s.chan with inner := ch }, rfl, rfl, by simp [BoundedChannel.tryRecv, htry],
      fun waker => by simp [BoundedChannel.pollRecv, htry, hcnt.ne']⟩

theorem agrees_nil (hcnt : s.chan.queueCnt = 0) (hnil : s.chan.inner.items = []) :
    Agrees reactor_tag s := by
  obtain ⟨htry, hpoll⟩ := calls_nil reactor_tag hcnt hnil
  refine ⟨by rw [hcnt, hnil]; rfl, fun waker v s' => ?_, fun waker _ => by rw [hpoll],
    fun waker e => by rw [hpoll]; simp⟩
  simp [htry, hpoll]

/-- The two ways to take an item leave different counters behind. -/
theorem not_agrees_cons {v : T} {vs : List T} [Nonempty W] (hcnt : 0 < s.chan.queueCnt)
    (hitems : s.chan.inner.items = v :: vs) : ¬ Agrees reactor_tag s := by
  rintro ⟨-, hsame, -⟩
  obtain ⟨c, -, hcntc, htry, hpoll⟩ := calls_cons reactor_tag hcnt hitems
  have waker := Classical.arbitrary W
  obtain ⟨c', hc', heq⟩ := (hsame waker v _).1 (hpoll waker)
  rw [htry, Prod.mk.injEq] at hc'
  obtain ⟨-, rfl⟩ := hc'
  have hcounter : wrappingSub c.queueCnt 1 = c.queueCnt :=
    congrArg (fun p => BoundedChannel.queueCnt p.1) heq
  rw [wrappingSub_eq (by omega)] at hcounter
  omega

theorem resultsAgree_of_count (hcnt : s.chan.queueCnt = s.chan.inner.items.length) :
    ResultsAgree reactor_tag s := by
  cases hitems : s.chan.inner.items with
  | nil =>
    rw [hitems, List.length_nil] at hcnt
    obtain ⟨htry, hpoll⟩ := calls_nil reactor_tag hcnt hitems
    exact ⟨by rw [hcnt, hitems]; rfl, fun waker v s' => by simp [htry, hpoll],
      fun waker _ => ⟨by rw [htry], hpoll waker⟩, fun waker e => by rw [hpoll]; simp⟩
  | cons v vs =>
    have hpos : 0 < s.chan.queueCnt := by rw [hcnt, hitems]; exact Nat.succ_pos _
    obtain ⟨c, -, hcntc, htry, hpoll⟩ := calls_cons reactor_tag hpos hitems
    have hcounter : c.fetchSubCnt.queueCnt + 1 = c.queueCnt := by
      show wrappingSub c.queueCnt 1 + 1 = c.queueCnt
      rw [wrappingSub_eq (by omega)]
      omega
    refine ⟨hcnt, fun waker w s' => ?_, fun waker hempty => by simp [htry] at hempty,
      fun waker e => by rw [hpoll]; simp⟩
    simp only [hpoll, htry, Prod.mk.injEq, Poll.ready.injEq, Except.ok.injEq]
    constructor
    · rintro ⟨rfl, rfl⟩
      exact ⟨c, ⟨rfl, rfl⟩, rfl, hcounter⟩
    · rintro ⟨c', ⟨rfl, rfl⟩, rfl, -⟩
      exact ⟨rfl, rfl⟩

/-! ### The results -/

/-- No call is a send. -/
def NoSend (_ : ReceivePaths T W) : Label T W → Prop
  | .send _ => False
  | _ => True

/-- A `try_recv` finds the channel empty. -/
def TakesNothing (s : ReceivePaths T W) : Label T W → Prop
  | .tryRecv => s.chan.inner.items = []
  | _ => True

theorem nil_of_step {a : Label T W} (hcnt : s.chan.queueCnt = 0)
    (hnil : s.chan.inner.items = []) (ha : NoSend s a) (h : s.step reactor_tag a = some s') :
    s'.chan.queueCnt = 0 ∧ s'.chan.inner.items = [] := by
  obtain ⟨htry, hpoll⟩ := calls_nil reactor_tag hcnt hnil
  cases a with
  | send val => exact ha.elim
  | tryRecv =>
    simp only [step, htry, Option.some.injEq] at h
    subst h
    exact ⟨hcnt, hnil⟩
  | pollRecv waker =>
    simp only [step, hpoll, Option.some.injEq] at h
    subst h
    exact ⟨hcnt, hnil⟩
  | reactor =>
    simp only [step, Option.map_eq_some_iff] at h
    obtain ⟨p, -, rfl⟩ := h
    exact ⟨hcnt, hnil⟩

theorem count_of_step {a : Label T W} (hcnt : s.chan.queueCnt = s.chan.inner.items.length)
    (ha : TakesNothing s a) (h : s.step reactor_tag a = some s') :
    s'.chan.queueCnt = s'.chan.inner.items.length := by
  cases a with
  | send val =>
    obtain ⟨hcnt', hitems⟩ := step_send h
    rw [hcnt', hitems, hcnt, List.length_append, List.length_singleton]
  | tryRecv =>
    have hnone := BoundedChannel.innerTryRecv_eq_none.2 ha
    simp only [step, BoundedChannel.tryRecv, hnone, Option.some.injEq] at h
    subst h
    exact hcnt
  | pollRecv waker =>
    simp only [step, Option.some.injEq] at h
    subst h
    cases hitems : s.chan.inner.items with
    | nil =>
      rw [hitems, List.length_nil] at hcnt
      rw [(calls_nil reactor_tag hcnt hitems).2 waker, hcnt, hitems]
      rfl
    | cons v vs =>
      have hpos : 0 < s.chan.queueCnt := by rw [hcnt, hitems]; exact Nat.succ_pos _
      obtain ⟨c, hc, hcntc, -, hpoll⟩ := calls_cons reactor_tag hpos hitems
      rw [hpoll waker]
      show wrappingSub c.queueCnt 1 = c.inner.items.length
      rw [wrappingSub_eq (by omega), hcntc, hcnt, hitems, hc]
      rfl
  | reactor =>
    simp only [step, Option.map_eq_some_iff] at h
    obtain ⟨p, -, rfl⟩ := h
    exact hcnt

/-- A `try_recv` that takes an item leaves the counter one too high. -/
theorem count_of_taken (hcnt : s.chan.queueCnt = s.chan.inner.items.length)
    (hne : s.chan.inner.items ≠ []) (h : s.step reactor_tag .tryRecv = some s') :
    s'.chan.queueCnt = s'.chan.inner.items.length + 1 := by
  obtain ⟨v, vs, hitems⟩ := List.exists_cons_of_ne_nil hne
  have hpos : 0 < s.chan.queueCnt := by rw [hcnt, hitems]; exact Nat.succ_pos _
  obtain ⟨c, hc, hcntc, htry, -⟩ := calls_cons reactor_tag hpos hitems
  simp only [step, htry, Option.some.injEq] at h
  subst h
  show c.queueCnt = c.inner.items.length + 1
  rw [hcntc, hcnt, hitems, hc]
  rfl

/-- A sequence of completed calls keeps the two ways to receive in agreement exactly when it sends
nothing; their results, the counter and, up to one in the counter, what they leave agree exactly
when no `try_recv` of it takes an item. -/
theorem receive_paths_agree [Nonempty W] {as : List (Label T W)}
    (h : ((calls T W bound reactor_tag).run (new bound) as).isSome) :
    ((calls T W bound reactor_tag).Throughout (Agrees reactor_tag) (new bound) as ↔
      (calls T W bound reactor_tag).EachStep NoSend (new bound) as) ∧
    ((calls T W bound reactor_tag).Throughout (ResultsAgree reactor_tag) (new bound) as ↔
      (calls T W bound reactor_tag).EachStep TakesNothing (new bound) as) := by
  constructor
  · refine TransitionSystem.throughout_iff_eachStep
      (I := fun s => s.chan.queueCnt = 0 ∧ s.chan.inner.items = []) ?_ ?_ ?_ ⟨rfl, rfl⟩ h
    · rintro s ⟨hcnt, hnil⟩
      exact agrees_nil hcnt hnil
    · rintro s a s' ⟨hcnt, hnil⟩ ha hs
      exact nil_of_step hcnt hnil ha hs
    · rintro s a s' ⟨hcnt, hnil⟩ ha hs
      cases a with
      | send val =>
        obtain ⟨hcnt', hitems⟩ := step_send hs
        rw [hnil] at hitems
        exact not_agrees_cons (by omega) hitems
      | _ => exact absurd trivial ha
  · refine TransitionSystem.throughout_iff_eachStep
      (I := fun s => s.chan.queueCnt = s.chan.inner.items.length) ?_ ?_ ?_ rfl h
    · exact fun s hcnt => resultsAgree_of_count hcnt
    · exact fun s a s' hcnt ha hs => count_of_step hcnt ha hs
    · rintro s a s' hcnt ha hs ⟨hcnt', -⟩
      cases a with
      | tryRecv =>
        have := count_of_taken hcnt ha (show s.step reactor_tag .tryRecv = some s' from hs)
        omega
      | _ => exact absurd trivial ha

/-- A send and a `poll_recv`: the results agree all along, the states do not. -/
theorem receive_paths_agree_sendThenPoll :
    (calls ℕ Unit 1 0).Throughout (ResultsAgree 0) (new 1) [.send 7, .pollRecv ()] ∧
      ¬ (calls ℕ Unit 1 0).Throughout (Agrees 0) (new 1) [.send 7, .pollRecv ()] := by
  have hrun : ((calls ℕ Unit 1 0).run (new 1) [.send 7, .pollRecv ()]).isSome := by decide
  have hiff := receive_paths_agree hrun
  exact ⟨hiff.2.2 ⟨trivial, fun _ _ => ⟨trivial, fun _ _ => trivial⟩⟩, fun hall =>
    (hiff.1.1 hall).1⟩

/-- A send and a `try_recv`: the channel is empty and the counter is 1, so that `poll_recv`
returns an error while the sender is alive. -/
theorem counter_drifts :
    ∃ s, (calls ℕ Unit 1 0).run (new 1) [.send 7, .tryRecv] = some s ∧
      s.chan.queueCnt = 1 ∧ s.chan.inner.items = [] ∧
      (s.chan.tryRecv true).1 = .error .empty ∧
      (s.chan.pollRecv s.reactor 0 ()).1 = .ready (.error .closed) :=
  ⟨_, rfl, rfl, rfl, rfl, rfl⟩

end ReceivePaths

end Hooch
