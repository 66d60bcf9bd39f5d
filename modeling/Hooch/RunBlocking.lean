import Hooch.Executor
import Hooch.Lib.Sequential

/-!
# `run_blocking`, call after call

`Handle::run_blocking` of `runtime.rs` waits for the result of its future and then looks into the
panic channel. A future that panics is noticed twice: the sender of the result is dropped, and the
executor sends a signal. The call itself only sees the first, and leaves the signal to the next
call.

* `runBlocking`: one call, with what it leaves in the panic channel;
* `AsFuture`, `Prompt`: what one expects of a call, and that every signal is sent before the next
  call starts;
* `panic_reported_twice`: two calls of which the second answers for the first;
* `calls_as_futures_iff`: the main result, for every sequence of calls.
-/

namespace Hooch

open Sequential

/-- What becomes of the future of a call. -/
inductive FutureOutcome (V : Type*)
  | completes (v : V)
  | panics
  deriving DecidableEq

/-- How a call ends. -/
inductive Returned (V : Type*)
  | value (v : V)
  | panicked (msg : String)
  deriving DecidableEq

/-- The panic channel, and the number of executors that wait to send into it. -/
structure PanicSignals where
  panic : SyncChannel Unit
  unsent : ℕ

namespace PanicSignals

variable {V : Type*}

/-- The channel that `RuntimeBuilder::build` creates. -/
def new : PanicSignals := ⟨.new Executors.panicBound, 0⟩

/-- `panic_tx.send(())`, in the executor. The receiver lives as long as the runtime. -/
def signal (p : PanicSignals) : PanicSignals :=
  match p.panic.send () with
  | .ok ch => { p with panic := ch }
  | .error _ => { p with unsent := p.unsent + 1 }

/-- `rx.recv()` in `Runtime::run_blocking`: the future sends its result, or panics and drops the
sender. -/
def recvResult : FutureOutcome V → Option V
  | .completes v => some v
  | .panics => none

/-- `Handle::run_blocking` on a future with the given outcome, with the signal that the executor
sends when the future panics. -/
def runBlocking (p : PanicSignals) (o : FutureOutcome V) : Returned V × PanicSignals :=
  match recvResult o with
  | none => (.panicked "Task failed to complete", p.signal)
  | some res =>
      match p.panic.recv with
      | some (_, ch) => (.panicked "Executor panicked", { p with panic := ch })
      | none => (.value res, p)

/-- The call ends as its own future does. -/
def AsFuture : FutureOutcome V → Returned V → Prop
  | .completes v, r => r = .value v
  | .panics, r => ∃ msg, r = .panicked msg

/-- Every panic signal is sent before the next call starts. -/
def Prompt (p : PanicSignals) : List (FutureOutcome V) → Prop
  | [] => True
  | o :: os => p.unsent = 0 ∧ Prompt (p.runBlocking o).2 os

/-! ### One call -/

/-- The panic channel is open and holds the given signals. -/
structure Holds (p : PanicSignals) (signals : List Unit) : Prop where
  receiver : p.panic.receiver = true
  bound : p.panic.queue.bound = Executors.panicBound
  items : p.panic.items = signals

variable {p : PanicSignals}

theorem Holds.new : Holds new [] := ⟨rfl, rfl, rfl⟩

/-- A panicking call that finds the panic channel empty leaves a signal in it. -/
theorem Holds.panics (h : Holds p []) :
    (p.runBlocking (.panics : FutureOutcome V)).1 = .panicked "Task failed to complete" ∧
      Holds (p.runBlocking (.panics : FutureOutcome V)).2 [()] := by
  obtain ⟨ch, hsend⟩ := SyncChannel.send_ne_error () h.receiver (by rw [h.items, h.bound]; decide)
  obtain ⟨-, hch, hbound, hitems⟩ := SyncChannel.send_eq_ok hsend
  simp only [runBlocking, recvResult, signal, hsend, true_and]
  exact ⟨hch, hbound.trans h.bound, by rw [hitems, h.items]; rfl⟩

/-- A call that completes and finds the panic channel empty returns its value. -/
theorem Holds.completes (h : Holds p []) (v : V) :
    p.runBlocking (.completes v) = (.value v, p) := by
  simp only [runBlocking, recvResult, SyncChannel.recv_eq_none_iff.2 h.items]

/-- A call that completes and finds a signal panics. -/
theorem Holds.leaked (h : Holds p [()]) (v : V) :
    (p.runBlocking (.completes v)).1 = .panicked "Executor panicked" := by
  cases hrecv : p.panic.recv with
  | none =>
    have hnil := SyncChannel.recv_eq_none_iff.1 hrecv
    rw [h.items] at hnil
    cases hnil
  | some q => simp only [runBlocking, recvResult, hrecv]

/-- A panicking call that finds a signal cannot send its own. -/
theorem Holds.unsent (h : Holds p [()]) :
    (p.runBlocking (.panics : FutureOutcome V)).2.unsent = p.unsent + 1 := by
  have hfull : p.panic.queue.push () = none := by
    rw [BoundedQueue.push_eq_none_iff, h.bound]
    exact congrArg List.length h.items
  simp only [runBlocking, recvResult, signal, SyncChannel.send, h.receiver, hfull, if_true]

/-! ### The results -/

/-- Behind a signal that was not received, only panicking calls end as they should. -/
theorem forall₂_of_signal {os : List (FutureOutcome V)} (h : Holds p [()]) (hprompt : Prompt p os) :
    List.Forall₂ AsFuture os (results runBlocking p os) ↔ ∀ o ∈ os, o = .panics := by
  cases os with
  | nil => simp
  | cons o os =>
    cases o with
    | completes v =>
      have hleaked := h.leaked v
      simp [AsFuture, hleaked]
    | panics =>
      have hunsent := h.unsent (V := V)
      -- The signal of this call is not sent, so it is the last one.
      cases os with
      | nil => simp [AsFuture, runBlocking, recvResult]
      | cons o' os =>
        obtain ⟨-, hzero, -⟩ := hprompt
        omega

/-- Every sequence of calls whose panic signals are sent before the next call starts: each call
ends as its own future does exactly when no call whose future completes comes after one whose
future panics. -/
theorem calls_as_futures_iff (os : List (FutureOutcome V)) (h : Prompt new os) :
    List.Forall₂ AsFuture os (results runBlocking new os) ↔
      os.Pairwise fun a b => a = .panics → b = .panics := by
  suffices hgen : ∀ p, Holds p [] → Prompt p os →
      (List.Forall₂ AsFuture os (results runBlocking p os) ↔
        os.Pairwise fun a b => a = .panics → b = .panics) from hgen _ .new h
  clear h
  induction os with
  | nil => simp
  | cons o os ih =>
    rintro p hp ⟨-, hprompt⟩
    rw [results_cons, List.forall₂_cons, List.pairwise_cons]
    cases o with
    | completes v =>
      rw [hp.completes] at hprompt ⊢
      simp [AsFuture, ih p hp hprompt]
    | panics =>
      obtain ⟨hreturned, hsignal⟩ := hp.panics (V := V)
      rw [hreturned, forall₂_of_signal hsignal hprompt]
      constructor
      · rintro ⟨-, hall⟩
        exact ⟨fun o ho _ => hall o ho,
          List.pairwise_of_forall_mem_list fun a _ b hb _ => hall b hb⟩
      · rintro ⟨hall, -⟩
        exact ⟨⟨_, rfl⟩, fun o ho => hall o ho rfl⟩

/-- A call that completes and one that panics after it. -/
theorem calls_as_futures_iff_panicsLast :
    List.Forall₂ AsFuture [.completes 7, .panics]
      (results runBlocking new [.completes 7, .panics]) :=
  (calls_as_futures_iff [.completes 7, .panics] ⟨rfl, rfl, trivial⟩).2 (by decide)

/-- The second call completes, and panics because of the first. -/
theorem panic_reported_twice :
    Prompt new [.panics, .completes 7] ∧
      results runBlocking new [.panics, .completes 7] =
        [.panicked "Task failed to complete", .panicked "Executor panicked"] ∧
      ¬ List.Forall₂ AsFuture [.panics, .completes 7]
        (results runBlocking new [.panics, .completes 7]) := by
  refine ⟨⟨rfl, rfl, trivial⟩, rfl, fun h => ?_⟩
  rcases h with _ | ⟨-, _ | ⟨h, -⟩⟩
  cases h

end PanicSignals

end Hooch
