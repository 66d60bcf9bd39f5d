import Hooch.Lib.TransitionSystem
import Hooch.Reactor

/-!
# A socket behind one token

The loop that `HoochTcpStream::read` and `write`, `HoochTcpListener::accept` and
`HoochUdpSocket::send_to` and `recv_from` have in common: try the operation; when it would block,
await `Reactor::poll` on the object's one token; then try again. Any number of tasks may be inside
such calls on one object, the environment makes the socket ready and unready, and the reactor
thread handles the events of the token.

* `SocketState`, `step`, `socket`: the parties and their steps, on the calls of `Reactor`;
* `Next`: what a step does, one case each.
-/

namespace Hooch

/-- What an operation waits for, `mio::Interest`. -/
inductive Interest
  | readable
  | writable
  deriving DecidableEq

/-- Where a task stands in the loop. -/
inductive WaiterPc (W : Type*)
  /-- Outside any call on the object. -/
  | idle
  /-- About to try the operation. -/
  | trying (op : Interest)
  /-- The operation would have blocked; `Reactor::poll` comes next. -/
  | blocked (op : Interest)
  /-- The last `Reactor::poll`, with this waker, returned `Pending`. -/
  | parked (op : Interest) (waker : W)
  deriving DecidableEq

/-- The task is parked. -/
def WaiterPc.isParked {W : Type*} : WaiterPc W → Bool
  | .parked .. => true
  | _ => false

/-- The task is outside any call. -/
def WaiterPc.isIdle {W : Type*} : WaiterPc W → Bool
  | .idle => true
  | _ => false

/-- The operation that would have blocked when it was last tried. -/
def WaiterPc.waitsFor {W : Type*} : WaiterPc W → Option Interest
  | .blocked op => some op
  | .parked op _ => some op
  | _ => none

/-- Waking `w` wakes the waker that the task has parked with. -/
def WaiterPc.wokenBy {W : Type*} [DecidableEq W] (w : Option W) : WaiterPc W → Bool
  | .parked _ waker => w = some waker
  | _ => false

/-- A socket in use. `queued` counts the events of the token that the reactor thread has not
handled. `woken` and `due` only observe: the waker of the task's last poll was woken since that
poll; an event was handled while the task was parked and it has not tried its operation since. -/
structure SocketState (W τ : Type*) where
  reactor : Reactor W
  ready : Interest → Bool
  queued : ℕ
  task : τ → WaiterPc W
  woken : τ → Bool
  due : τ → Bool

/-- Who moves. -/
inductive SocketLabel (W τ : Type*)
  /-- The task calls an operation on the object. -/
  | start (t : τ) (op : Interest)
  | attempt (t : τ)
  | poll (t : τ) (waker : W)
  /-- The call returns with an error or its future is dropped. -/
  | abandon (t : τ)
  | becomeReady (i : Interest)
  | becomeUnready (i : Interest)
  /-- The reactor thread handles an event of the token. -/
  | event

namespace SocketState

variable {W τ : Type*} [DecidableEq W] [DecidableEq τ]

/-- The task moves. -/
def setTask (s : SocketState W τ) (t : τ) (p : WaiterPc W) : SocketState W τ :=
  { s with task := Function.update s.task t p }

/-- One step of one party. `owner` says which task a waker wakes. -/
def step (token : Token) (owner : W → τ) (s : SocketState W τ) :
    SocketLabel W τ → Option (SocketState W τ)
  | .start t op =>
      match s.task t with
      | .idle => some (s.setTask t (.trying op))
      | _ => none
  | .attempt t =>
      match s.task t with
      | .trying op =>
          some { s.setTask t (if s.ready op then .idle else .blocked op) with
            due := Function.update s.due t false }
      | _ => none
  | .poll t waker =>
      match (s.task t).waitsFor with
      | some op =>
          if owner waker = t then
            match s.reactor.poll token waker with
            | (.pending, r) =>
                some { s.setTask t (.parked op waker) with
                  reactor := r
                  woken := Function.update s.woken t false }
            | (.ready (), r) => some { s.setTask t (.trying op) with reactor := r }
          else none
      | none => none
  | .abandon t => some (s.setTask t .idle)
  | .becomeReady i =>
      some { s with
        ready := Function.update s.ready i true
        -- only a change to ready queues an event
        queued := if s.ready i then s.queued else s.queued + 1 }
  | .becomeUnready i => some { s with ready := Function.update s.ready i false }
  | .event =>
      if 0 < s.queued then
        let (w, r) := s.reactor.event token
        some { s with
          reactor := r
          queued := s.queued - 1
          woken := fun t => (s.task t).wokenBy w || s.woken t
          due := fun t => (s.task t).isParked || s.due t }
      else none

/-- Every interleaving on one object. At the start no task is in a call; the token may have a
status and events from before. -/
def socket (token : Token) (owner : W → τ) :
    TransitionSystem (SocketState W τ) (SocketLabel W τ) where
  init s := ∀ t, s.task t = .idle
  step := step token owner

/-! ### What a step does -/

variable {token : Token} {owner : W → τ} {s s' : SocketState W τ}

/-- The steps, one case each. -/
inductive Next (token : Token) (owner : W → τ) (s : SocketState W τ) :
    SocketLabel W τ → SocketState W τ → Prop
  | start {t : τ} {op : Interest} (ht : s.task t = .idle) :
      Next token owner s (.start t op) (s.setTask t (.trying op))
  | done {t : τ} {op : Interest} (ht : s.task t = .trying op) (hready : s.ready op = true) :
      Next token owner s (.attempt t)
        { s.setTask t .idle with due := Function.update s.due t false }
  | wouldBlock {t : τ} {op : Interest} (ht : s.task t = .trying op)
      (hready : s.ready op = false) :
      Next token owner s (.attempt t)
        { s.setTask t (.blocked op) with due := Function.update s.due t false }
  /-- The status is not `Happened`, and the poll leaves its waker there. -/
  | park {t : τ} {op : Interest} {waker : W} {r : Reactor W}
      (ht : (s.task t).waitsFor = some op) (howner : owner waker = t)
      (hstatus : s.reactor.statuses token ≠ some .happened)
      (hr : r.statuses token = some (.awaited waker)) :
      Next token owner s (.poll t waker) { s.setTask t (.parked op waker) with
        reactor := r
        woken := Function.update s.woken t false }
  /-- The status is `Happened`, and the poll removes it. -/
  | resume {t : τ} {op : Interest} {waker : W} {r : Reactor W}
      (ht : (s.task t).waitsFor = some op) (howner : owner waker = t)
      (hstatus : s.reactor.statuses token = some .happened) (hr : r.statuses token = none) :
      Next token owner s (.poll t waker) { s.setTask t (.trying op) with reactor := r }
  | abandon {t : τ} : Next token owner s (.abandon t) (s.setTask t .idle)
  | becomeReady {i : Interest} :
      Next token owner s (.becomeReady i) { s with
        ready := Function.update s.ready i true
        queued := if s.ready i then s.queued else s.queued + 1 }
  | becomeUnready {i : Interest} :
      Next token owner s (.becomeUnready i) { s with ready := Function.update s.ready i false }
  | event {w : Option W} {r : Reactor W} (hqueued : 0 < s.queued)
      (hw : ∀ waker, s.reactor.statuses token = some (.awaited waker) → w = some waker)
      (hr : r.statuses token = some .happened) :
      Next token owner s .event { s with
        reactor := r
        queued := s.queued - 1
        woken := fun t => (s.task t).wokenBy w || s.woken t
        due := fun t => (s.task t).isParked || s.due t }

theorem next_of_step {a : SocketLabel W τ} (h : s.step token owner a = some s') :
    Next token owner s a s' := by
  cases a with
  | start t op =>
    simp only [step] at h
    split at h
    · rename_i ht
      cases h
      exact .start ht
    · cases h
  | attempt t =>
    simp only [step] at h
    split at h
    · rename_i op ht
      cases h
      by_cases hready : s.ready op = true
      · simp only [hready, if_true]
        exact .done ht hready
      · simp only [hready]
        exact .wouldBlock ht (by simpa using hready)
    · cases h
  | poll t waker =>
    simp only [step] at h
    split at h
    · rename_i op ht
      rw [Option.ite_none_right_eq_some] at h
      obtain ⟨howner, h⟩ := h
      split at h
      · rename_i r hpoll
        cases h
        obtain ⟨hstatus, hr⟩ := Reactor.poll_eq_pending hpoll
        exact .park ht howner hstatus hr
      · rename_i r hpoll
        cases h
        obtain ⟨hstatus, hr⟩ := Reactor.poll_eq_ready hpoll
        exact .resume ht howner hstatus hr
    · cases h
  | abandon t =>
    cases h
    exact .abandon
  | becomeReady i =>
    cases h
    exact .becomeReady
  | becomeUnready i =>
    cases h
    exact .becomeUnready
  | event =>
    simp only [step, Option.ite_none_right_eq_some, Option.some.injEq] at h
    obtain ⟨hqueued, rfl⟩ := h
    exact .event hqueued (fun waker hw => by simp [Reactor.event, hw]) (by simp [Reactor.event])

end SocketState

end Hooch
