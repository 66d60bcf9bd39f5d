import Hooch.Pool.ThreadPool
import Hooch.Reactor

/-!
# Setting up a TCP socket

`HoochTcpStream::connect` of `net/tcp/stream.rs` and `HoochTcpListener::bind` of
`net/tcp/listener.rs` are one algorithm over different calls of the system: the first poll of
their future resolves the address and gives the pool a job that makes the call, a later poll takes
the result out of the shared state, and the socket is then registered with the reactor.

* `TcpCalls`: the calls of std and mio, as parameters; `result` is what the job computes;
* `AsyncTcp`: the future, `AsyncHoochTcpStream` or `AsyncHoochTcpListener`;
* `setUp`: the whole call, `HoochTcpStream.connect` or `HoochTcpListener.bind`;
* `connect_bind_iff`: the main result, for which outcomes of the resolution and of the calls the
  answer is the one that std gives.
-/

namespace Hooch

/-- What the system does, for streams or for listeners, one address at a time. -/
structure TcpCalls (A E S : Type*) where
  /-- `TcpStream::connect` or `TcpListener::bind` of std. -/
  attempt : A → Except E S
  setNonblocking : S → Except E Unit
  /-- `Reactor::get().registry().register`. -/
  register : S → Token → Except E Unit

/-- The closure `result` of the job. The socket that `from_std` makes is the same socket. -/
def TcpCalls.result {A E S : Type*} (k : TcpCalls A E S) (socketAddr : A) : Except E S :=
  (k.attempt socketAddr).bind fun s => (k.setNonblocking s).map fun _ => s

/-- The closure `connect_fn` that the pool runs: what it has captured. -/
structure ConnectFn (A W : Type*) where
  socketAddr : A
  waker : W

/-- Where the job stands, with the result `R` of the closure. -/
inductive TcpJobPc (A W R : Type*)
  /-- Not submitted yet. -/
  | absent
  | queued (job : ConnectFn A W)
  /-- The system call has returned. -/
  | ran (job : ConnectFn A W) (result : R)
  /-- Between storing the result and `waker.wake()`. -/
  | stored (job : ConnectFn A W)
  | finished

/-- `AsyncHoochTcpStream` and `AsyncHoochTcpListener`. `addr` is what `to_socket_addrs` returns. -/
structure AsyncTcp (A E S : Type*) where
  addr : Except E (List A)
  state : Option (Except E S)
  hasPolled : Bool

namespace AsyncTcp

variable {A E S W : Type*}

/-- The future as `connect` and `bind` make it. -/
def new (addr : Except E (List A)) : AsyncTcp A E S := ⟨addr, none, false⟩

/-- `to_socket_addrs().unwrap().next().unwrap()`; `none` is either panic. -/
def socketAddr (f : AsyncTcp A E S) : Option A := f.addr.toOption.bind List.head?

/-- What a poll returns and leaves, and the job it hands to the pool. -/
structure Polled (A E S W : Type*) where
  result : Poll (Except E S)
  future : AsyncTcp A E S
  job : Option (ConnectFn A W)

/-- The first poll, up to `pool.execute`. -/
def start (f : AsyncTcp A E S) (waker : W) : Option (Polled A E S W) :=
  f.socketAddr.map fun socketAddr =>
    ⟨.pending, { f with hasPolled := true }, some ⟨socketAddr, waker⟩⟩

/-- `self.state.lock().unwrap().take().unwrap()`, which locks the state a second time. -/
def take (f : AsyncTcp A E S) : Option (Except E S × AsyncTcp A E S) :=
  f.state.map fun result => (result, { f with state := none })

/-- `AsyncHoochTcpStream::poll` and `AsyncHoochTcpListener::poll`; `none` is a panic. -/
def poll (f : AsyncTcp A E S) (waker : W) : Option (Polled A E S W) :=
  if !f.hasPolled then f.start waker
  else if f.state.isNone then some ⟨.pending, f, none⟩
  else f.take.map fun p => ⟨.ready p.1, p.2, none⟩

/-- The job stores its result. -/
def store (f : AsyncTcp A E S) (result : Except E S) : AsyncTcp A E S :=
  { f with state := some result }

variable {f : AsyncTcp A E S} {waker : W}

/-- What a poll does, one case each. -/
inductive Polls (f : AsyncTcp A E S) (waker : W) : Polled A E S W → Prop
  | first {a : A} (hpolled : f.hasPolled = false) (haddr : f.socketAddr = some a) :
      Polls f waker ⟨.pending, { f with hasPolled := true }, some ⟨a, waker⟩⟩
  | pending (hpolled : f.hasPolled = true) (hstate : f.state = none) :
      Polls f waker ⟨.pending, f, none⟩
  | ready {result : Except E S} (hpolled : f.hasPolled = true) (hstate : f.state = some result) :
      Polls f waker ⟨.ready result, { f with state := none }, none⟩

theorem polls_of_eq {p : Polled A E S W} (h : f.poll waker = some p) : Polls f waker p := by
  unfold poll at h
  split at h
  · rename_i hpolled
    rw [start, Option.map_eq_some_iff] at h
    obtain ⟨a, haddr, rfl⟩ := h
    exact .first (by simpa using hpolled) haddr
  · rename_i hpolled
    have hpolled : f.hasPolled = true := by simpa using hpolled
    split at h
    · rename_i hnone
      cases h
      exact .pending hpolled (by simpa using hnone)
    · simp only [take, Option.map_map, Option.map_eq_some_iff] at h
      obtain ⟨result, hstate, rfl⟩ := h
      exact .ready hpolled hstate

/-- The first poll fails exactly if the address resolves to an error or to an empty list. -/
theorem poll_new {addr : Except E (List A)} {p : Polled A E S W} :
    (new addr : AsyncTcp A E S).poll waker = some p ↔
      ∃ a as, addr = .ok (a :: as) ∧ p = ⟨.pending, ⟨addr, none, true⟩, some ⟨a, waker⟩⟩ := by
  cases addr with
  | error e => simp [poll, new, start, socketAddr, Except.toOption]
  | ok addrs => cases addrs <;> simp [poll, new, start, socketAddr, Except.toOption, eq_comm]

/-- A poll that comes after the job has stored its result takes it. -/
theorem poll_store (hf : f.hasPolled = true) (result : Except E S) :
    (f.store result).poll waker = some ⟨.ready result, { f with state := none }, none⟩ := by
  simp [poll, store, take, hf]

end AsyncTcp

/-- `HoochPool::execute`, on the channel of the worker whose turn it is; `none` is the failing
`unwrap`. A caller that finds the channel full waits for room. -/
def HoochPool.execute {J : Type*} (worker : SyncChannel J) (boxed_fn : J) : Option J :=
  match worker.send boxed_fn with
  | .error .disconnected => none
  | _ => some boxed_fn

theorem HoochPool.execute_eq {J : Type*} (worker : SyncChannel J) (boxed_fn : J) :
    execute worker boxed_fn = if worker.receiver then some boxed_fn else none := by
  cases hr : worker.receiver with
  | false => simp [execute, SyncChannel.send, hr]
  | true => cases hq : worker.queue.push boxed_fn <;> simp [execute, SyncChannel.send, hr, hq]

namespace TcpCalls

variable {A E S W : Type*}

/-- `HoochTcpStream::connect` and `HoochTcpListener::bind`, awaited until the job has run, with
the tag and the token that the reactor gives out; `none` is a panic. -/
def setUp (k : TcpCalls A E S) (r : Reactor W) (worker : SyncChannel (ConnectFn A W))
    (reactor_tag : ReactorTag) (token : Token) (addr : Except E (List A)) (waker : W) :
    Option (Poll (Except E (S × Token))) :=
  (r.registerReactorTag reactor_tag).bind fun _ =>
  ((AsyncTcp.new addr).poll waker).bind fun first =>
  match first.job with
  | none => some .pending
  | some job =>
      (HoochPool.execute worker job).bind fun job =>
      ((first.future.store (k.result job.socketAddr)).poll job.waker).map fun second =>
      match second.result with
      | .pending => .pending
      | .ready result =>
          .ready (result.bind fun s => (k.register s token).map fun _ => (s, token))

/-- The call has not panicked, and it has succeeded exactly if the address resolves to a list with
an address that can be connected or bound. -/
def Meets (k : TcpCalls A E S) (addr : Except E (List A))
    (outcome : Option (Poll (Except E (S × Token)))) : Prop :=
  ∃ result, outcome = some (.ready result) ∧
    (result.isOk ↔ ∃ addrs, addr = .ok addrs ∧ ∃ a ∈ addrs, (k.attempt a).isOk)

variable {k : TcpCalls A E S} {r : Reactor W} {worker : SyncChannel (ConnectFn A W)}
  {reactor_tag : ReactorTag} {token : Token} {addr : Except E (List A)} {waker : W}

/-- Only the first address counts. -/
theorem setUp_eq_some {p : Poll (Except E (S × Token))} :
    k.setUp r worker reactor_tag token addr waker = some p ↔
      r.reactorTagBuffer.items.length < r.reactorTagBuffer.bound ∧ worker.receiver = true ∧
      ∃ a as, addr = .ok (a :: as) ∧
        p = .ready ((k.result a).bind fun s => (k.register s token).map fun _ => (s, token)) := by
  simp only [setUp, Option.bind_eq_some_iff, AsyncTcp.poll_new]
  constructor
  · rintro ⟨r', hr', first, ⟨a, as, haddr, rfl⟩, hp⟩
    simp only [HoochPool.execute_eq, Option.bind_eq_some_iff, Option.ite_none_right_eq_some,
      Option.some.injEq] at hp
    obtain ⟨job, ⟨hworker, rfl⟩, hp⟩ := hp
    rw [AsyncTcp.poll_store rfl] at hp
    obtain ⟨q, -, hroom, -⟩ := Reactor.registerReactorTag_eq_some hr'
    exact ⟨hroom, hworker, a, as, haddr, (Option.some.inj hp).symm⟩
  · rintro ⟨hroom, hworker, a, as, haddr, rfl⟩
    cases hr' : r.registerReactorTag reactor_tag with
    | none => exact absurd (Reactor.registerReactorTag_eq_none.1 hr') hroom.ne
    | some r' =>
      refine ⟨r', rfl, _, ⟨a, as, haddr, rfl⟩, ?_⟩
      simp [HoochPool.execute_eq, hworker, AsyncTcp.poll_store]

/-- The first address is set up to the end, or no address can be connected or bound. -/
def FirstDecides (k : TcpCalls A E S) (token : Token) (addr : Except E (List A)) : Prop :=
  ∃ a as, addr = .ok (a :: as) ∧
    ((∃ s, k.attempt a = .ok s ∧ k.setNonblocking s = .ok () ∧ k.register s token = .ok ()) ∨
      ∀ b ∈ a :: as, (k.attempt b).isOk = false)

theorem isOk_iff {a : A} :
    ((k.result a).bind fun s => (k.register s token).map fun _ => (s, token)).isOk ↔
      ∃ s, k.attempt a = .ok s ∧ k.setNonblocking s = .ok () ∧ k.register s token = .ok () := by
  cases hs : k.attempt a with
  | error e => simp [result, hs, Except.bind, Except.isOk, Except.toBool]
  | ok s =>
    cases hn : k.setNonblocking s with
    | error e => simp [result, hs, hn, Except.bind, Except.map, Except.isOk, Except.toBool]
    | ok u =>
      cases hr : k.register s token <;>
        simp [result, hs, hn, hr, Except.bind, Except.map, Except.isOk, Except.toBool]

theorem meets_iff : k.Meets addr (k.setUp r worker reactor_tag token addr waker) ↔
    r.reactorTagBuffer.items.length < r.reactorTagBuffer.bound ∧ worker.receiver = true ∧
      k.FirstDecides token addr := by
  constructor
  · rintro ⟨result, hout, hok⟩
    obtain ⟨hroom, hworker, a, as, haddr, hresult⟩ := setUp_eq_some.1 hout
    obtain rfl := Poll.ready.inj hresult
    refine ⟨hroom, hworker, a, as, haddr, ?_⟩
    rw [isOk_iff] at hok
    refine or_iff_not_imp_left.2 fun hfirst b hb => ?_
    by_contra hbok
    exact hfirst (hok.2 ⟨_, haddr, b, hb, by simpa using hbok⟩)
  · rintro ⟨hroom, hworker, a, as, haddr, hdecides⟩
    refine ⟨_, setUp_eq_some.2 ⟨hroom, hworker, a, as, haddr, rfl⟩, ?_⟩
    rw [isOk_iff]
    rcases hdecides with ⟨s, hs, hrest⟩ | hnone
    · exact ⟨fun _ => ⟨_, haddr, a, by simp, by rw [hs]; rfl⟩, fun _ => ⟨s, hs, hrest⟩⟩
    · constructor
      · rintro ⟨s, hs, -⟩
        have hfalse := hnone a (by simp)
        rw [hs] at hfalse
        cases hfalse
      · rintro ⟨addrs, haddrs, b, hb, hbok⟩
        rw [haddr] at haddrs
        cases haddrs
        rw [hnone b hb] at hbok
        cases hbok


end TcpCalls

/-! ### Streams and listeners -/

/-- The calls that both kinds of socket make. -/
structure TcpSystem (A E S L : Type*) where
  stream : TcpCalls A E S
  listener : TcpCalls A E L

section Both

variable {A E S L W : Type*}

/-- `HoochTcpStream::connect`. -/
def HoochTcpStream.connect (sys : TcpSystem A E S L) :
    Reactor W → SyncChannel (ConnectFn A W) → ReactorTag → Token → Except E (List A) → W →
      Option (Poll (Except E (S × Token))) :=
  sys.stream.setUp

/-- `HoochTcpListener::bind`. -/
def HoochTcpListener.bind (sys : TcpSystem A E S L) :
    Reactor W → SyncChannel (ConnectFn A W) → ReactorTag → Token → Except E (List A) → W →
      Option (Poll (Except E (L × Token))) :=
  sys.listener.setUp

/-- `connect` and `bind` answer as std does exactly if the tag buffer has room, the worker of the
pool lives, and the address resolves to a list whose first address is set up to the end, or
which has no address that can be connected or bound. -/
theorem connect_bind_iff (sys : TcpSystem A E S L) (r : Reactor W)
    (worker : SyncChannel (ConnectFn A W)) (reactor_tag : ReactorTag) (token : Token)
    (addr : Except E (List A)) (waker : W) :
    (sys.stream.Meets addr (HoochTcpStream.connect sys r worker reactor_tag token addr waker) ↔
      r.reactorTagBuffer.items.length < r.reactorTagBuffer.bound ∧ worker.receiver = true ∧
        sys.stream.FirstDecides token addr) ∧
    (sys.listener.Meets addr (HoochTcpListener.bind sys r worker reactor_tag token addr waker) ↔
      r.reactorTagBuffer.items.length < r.reactorTagBuffer.bound ∧ worker.receiver = true ∧
        sys.listener.FirstDecides token addr) :=
  ⟨TcpCalls.meets_iff, TcpCalls.meets_iff⟩

/-- A system where only address 2 can be connected and bound. -/
def onlyTwo : TcpCalls ℕ String ℕ where
  attempt a := if a = 2 then .ok a else .error "refused"
  setNonblocking _ := .ok ()
  register _ _ := .ok ()

/-- A failed resolution and an empty list make both calls panic, and an address that answers as
the second of its list is not tried. -/
theorem unresolved_panics_second_untried :
    HoochTcpStream.connect ⟨onlyTwo, onlyTwo⟩ .new (.new 1) 0 1 (.error "no such host") () = none ∧
    HoochTcpListener.bind ⟨onlyTwo, onlyTwo⟩ .new (.new 1) 0 1 (.ok []) () = none ∧
    HoochTcpStream.connect ⟨onlyTwo, onlyTwo⟩ .new (.new 1) 0 1 (.ok [1, 2]) () =
      some (.ready (.error "refused")) ∧
    ¬ onlyTwo.Meets (.ok [1, 2])
      (HoochTcpStream.connect ⟨onlyTwo, onlyTwo⟩ .new (.new 1) 0 1 (.ok [1, 2]) ()) := by
  refine ⟨rfl, rfl, rfl, fun hmeets => ?_⟩
  obtain ⟨result, hout, hok⟩ := hmeets
  obtain rfl : .error "refused" = result := Poll.ready.inj (Option.some.inj hout)
  have := hok.2 ⟨[1, 2], rfl, 2, by simp, rfl⟩
  cases this

end Both

end Hooch
