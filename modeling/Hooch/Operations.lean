import Hooch.Lib.TransitionSystem
import Hooch.Reactor

/-!
# The operations that use the reactor's tag buffer

Channel sends, the file operations of `fs/file.rs`, `HoochTcpStream::connect` and
`HoochTcpListener::bind` all register a reactor tag. Any number of them run side by side with the
pool threads and the reactor thread, cut at every access to what they share.

* `Tagging`: which operation is what, and its tag;
* `Operations`, `step`, `operations`: the parties and their steps, on the calls of `Reactor`;
* `Next`: what a step does, one case each.

An operation of the type `π` also names the task that awaits it: the wakers are all clones of the
one waker of that task.
-/

namespace Hooch

/-- The call sites of `register_reactor_tag`. The three ways to open a file share the future
`AsyncHoochFile`. -/
inductive OperationKind
  | send
  | file
  | connect
  | bind
  deriving DecidableEq

/-- What each operation is and which tag it registers. The sends on one channel share its tag; a
file operation has a tag of its own. `eager` are the calls of `open_hooch`, which registers the tag
at once; `open` and `create` register it in the first poll of their future. -/
structure Tagging (π : Type*) where
  kind : π → OperationKind
  eager : π → Bool
  tag : π → ReactorTag
  unique : ∀ p q, kind p = .file → tag q = tag p → q = p

/-- Where an operation stands. -/
inductive OperationPc
  | absent
  /-- A send whose item the inner channel has accepted; its tag comes next. -/
  | sent
  /-- A send that has registered its tag; the mio wake comes next. -/
  | wakeDue
  /-- A file operation that has registered its tag and was not polled yet. -/
  | opened
  /-- In the first poll, which has registered the tag again; the waker comes next. -/
  | registered
  /-- In the first poll, which has stored the waker; the job comes next. -/
  | stored
  /-- The last poll of the file operation returned `Pending`. -/
  | parked
  /-- A connect or a bind that has registered its tag. -/
  | connecting
  | done
  /-- The future of the file operation was dropped. -/
  | dropped
  /-- The tag buffer was full. -/
  | panicked
  deriving DecidableEq

/-- Where the pool job of a file operation stands. -/
inductive JobPc
  | absent
  | queued
  /-- The result is stored; the mio wake comes next. -/
  | stored
  | finished
  deriving DecidableEq

/-- How many tags the operation has yet to register. -/
def OperationPc.tagsToCome : OperationPc → ℕ
  | .sent | .opened => 1
  | _ => 0

/-- The operations, the pool and the reactor. `result` is `file_handle`, `woken` says whether the
task that awaits the operation was woken since the end of its first poll or, if there was one since,
the begin of its last poll. `owed` counts the tags that the operations in progress have yet to
register, `begun` those that they and the operations begun since register in all, from the last
moment at which the reactor thread found the buffer empty; the two only observe. -/
structure Operations (π : Type*) where
  reactor : Reactor π
  op : π → OperationPc
  job : π → JobPc
  result : π → Bool
  woken : π → Bool
  owed : ℕ
  begun : ℕ

/-- Who moves. -/
inductive OperationLabel (π : Type*)
  | send (p : π)
  | register (p : π)
  | wake (p : π)
  /-- The receiver of the channel of the send `p` stores its waker. -/
  | listen (p : π)
  | openFile (p : π)
  | pollRegister (p : π)
  | pollStore (p : π)
  | pollSubmit (p : π)
  /-- A poll after the first one. -/
  | poll (p : π)
  | drop (p : π)
  | runJob (p : π)
  | jobWake (p : π)
  /-- A connect or a bind registers its tag. -/
  | connect (p : π)
  /-- Its future ends, or is dropped. -/
  | connected (p : π)
  | reactor
  deriving DecidableEq

namespace Operations

variable {π : Type*} [DecidableEq π]

/-- No operation yet, and a new reactor. -/
def new : Operations π where
  reactor := .new
  op := fun _ => .absent
  job := fun _ => .absent
  result := fun _ => false
  woken := fun _ => false
  owed := 0
  begun := 0

/-- The operation moves. -/
def setOp (s : Operations π) (p : π) (pc : OperationPc) : Operations π :=
  { s with
    op := Function.update s.op p pc
    owed := s.owed + pc.tagsToCome - (s.op p).tagsToCome }

/-- The operation registers its tag and moves, or panics. If it begins with it, `tags` is what it
registers in all. -/
def registerTag (g : Tagging π) (s : Operations π) (p : π) (pc : OperationPc) (tags : ℕ) :
    Operations π :=
  match s.reactor.registerReactorTag (g.tag p) with
  | some r => { s.setOp p pc with reactor := r, begun := s.begun + tags }
  | none => { s.setOp p .panicked with begun := s.begun + tags }

/-- The tasks that were woken, with the one that the reactor thread wakes now. -/
def wakes (s : Operations π) : Option π → π → Bool
  | some p => Function.update s.woken p true
  | none => s.woken

/-- What `begun` is when the reactor thread has gone on to `pc`. -/
def begunAt (s : Operations π) (pc : ReactorPc) : ℕ :=
  match s.reactor.pc, pc with
  -- the buffer was empty
  | .draining, .polling => s.owed
  | _, _ => s.begun

/-- One step of one party. -/
def step (g : Tagging π) (s : Operations π) : OperationLabel π → Option (Operations π)
  | .send p =>
      if g.kind p = .send ∧ s.op p = .absent then
        some { s.setOp p .sent with begun := s.begun + 1 }
      else none
  | .register p => if s.op p = .sent then some (s.registerTag g p .wakeDue 0) else none
  | .wake p =>
      if s.op p = .wakeDue then some { s.setOp p .done with reactor := s.reactor.mioWake }
      else none
  | .listen p =>
      if g.kind p = .send then
        some { s with reactor := s.reactor.storeWakerChannel (g.tag p) p }
      else none
  | .openFile p =>
      if g.kind p = .file ∧ s.op p = .absent then some (s.registerTag g p .opened 2) else none
  | .pollRegister p => if s.op p = .opened then some (s.registerTag g p .registered 0) else none
  | .pollStore p =>
      if s.op p = .registered then
        some { s.setOp p .stored with reactor := s.reactor.storeWakerChannel (g.tag p) p }
      else none
  | .pollSubmit p =>
      if s.op p = .stored then
        some { s.setOp p .parked with
          job := Function.update s.job p .queued
          woken := Function.update s.woken p false }
      else none
  | .poll p =>
      if s.op p = .parked then
        if s.result p then
          some { s.setOp p .done with result := Function.update s.result p false }
        else some { s with woken := Function.update s.woken p false }
      else none
  | .drop p =>
      if s.op p = .parked ∨ s.op p = .opened ∧ g.eager p = true then some (s.setOp p .dropped)
      else none
  | .runJob p =>
      if s.job p = .queued then
        some { s with
          job := Function.update s.job p .stored
          result := Function.update s.result p true }
      else none
  | .jobWake p =>
      if s.job p = .stored then
        some { s with
          job := Function.update s.job p .finished
          reactor := s.reactor.mioWake }
      else none
  | .connect p =>
      if (g.kind p = .connect ∨ g.kind p = .bind) ∧ s.op p = .absent then
        some (s.registerTag g p .connecting 1)
      else none
  | .connected p => if s.op p = .connecting then some (s.setOp p .done) else none
  | .reactor =>
      s.reactor.threadStep.map fun w => { s with
        reactor := w.2
        woken := s.wakes w.1
        begun := s.begunAt w.2.pc }

/-- Every interleaving of the operations, from a new reactor. -/
def operations (g : Tagging π) : TransitionSystem (Operations π) (OperationLabel π) where
  init s := s = new
  step := step g

/-! ### What a step does -/

variable {g : Tagging π} {s s' : Operations π}

omit [DecidableEq π] in
@[simp] theorem begunAt_draining : s.begunAt .draining = s.begun := by
  unfold begunAt
  split <;> first | rfl | simp_all

omit [DecidableEq π] in
@[simp] theorem begunAt_popped (tag : ReactorTag) : s.begunAt (.popped tag) = s.begun := by
  unfold begunAt
  split <;> first | rfl | simp_all

omit [DecidableEq π] in
theorem begunAt_polling (h : s.reactor.pc = .draining) : s.begunAt .polling = s.owed := by
  simp [begunAt, h]

/-- What a registration does. -/
inductive Registers (g : Tagging π) (s : Operations π) (p : π) (pc : OperationPc) (tags : ℕ) :
    Operations π → Prop
  | room {q : BoundedQueue ReactorTag} (hbound : q.bound = s.reactor.reactorTagBuffer.bound)
      (hitems : q.items = s.reactor.reactorTagBuffer.items ++ [g.tag p]) :
      Registers g s p pc tags { s.setOp p pc with
        reactor := { s.reactor with reactorTagBuffer := q }
        begun := s.begun + tags }
  | full (hfull : s.reactor.reactorTagBuffer.items.length = s.reactor.reactorTagBuffer.bound) :
      Registers g s p pc tags { s.setOp p .panicked with begun := s.begun + tags }

theorem registers (g : Tagging π) (s : Operations π) (p : π) (pc : OperationPc) (tags : ℕ) :
    Registers g s p pc tags (s.registerTag g p pc tags) := by
  unfold registerTag
  split
  · rename_i r hreg
    obtain ⟨q, rfl, -, hbound, hitems⟩ := Reactor.registerReactorTag_eq_some hreg
    exact .room hbound hitems
  · rename_i hreg
    exact .full (Reactor.registerReactorTag_eq_none.1 hreg)

/-- The steps, one case each; the registrations share one. -/
inductive Next (g : Tagging π) (s : Operations π) : OperationLabel π → Operations π → Prop
  | send {p : π} (hkind : g.kind p = .send) (hp : s.op p = .absent) :
      Next g s (.send p) { s.setOp p .sent with begun := s.begun + 1 }
  | register {p : π} {t : Operations π} (hp : s.op p = .sent)
      (hs : Registers g s p .wakeDue 0 t) : Next g s (.register p) t
  | wake {p : π} (hp : s.op p = .wakeDue) :
      Next g s (.wake p) { s.setOp p .done with reactor := s.reactor.mioWake }
  | listen {p : π} (hkind : g.kind p = .send) :
      Next g s (.listen p) { s with reactor := s.reactor.storeWakerChannel (g.tag p) p }
  | openFile {p : π} {t : Operations π} (hkind : g.kind p = .file) (hp : s.op p = .absent)
      (hs : Registers g s p .opened 2 t) : Next g s (.openFile p) t
  | pollRegister {p : π} {t : Operations π} (hp : s.op p = .opened)
      (hs : Registers g s p .registered 0 t) : Next g s (.pollRegister p) t
  | pollStore {p : π} (hp : s.op p = .registered) :
      Next g s (.pollStore p)
        { s.setOp p .stored with reactor := s.reactor.storeWakerChannel (g.tag p) p }
  | pollSubmit {p : π} (hp : s.op p = .stored) :
      Next g s (.pollSubmit p) { s.setOp p .parked with
        job := Function.update s.job p .queued
        woken := Function.update s.woken p false }
  | pollReady {p : π} (hp : s.op p = .parked) (hr : s.result p = true) :
      Next g s (.poll p) { s.setOp p .done with result := Function.update s.result p false }
  | pollPending {p : π} (hp : s.op p = .parked) (hr : s.result p = false) :
      Next g s (.poll p) { s with woken := Function.update s.woken p false }
  | drop {p : π} (hp : s.op p = .parked) : Next g s (.drop p) (s.setOp p .dropped)
  | dropUnpolled {p : π} (hp : s.op p = .opened) (heager : g.eager p = true) :
      Next g s (.drop p) (s.setOp p .dropped)
  | runJob {p : π} (hj : s.job p = .queued) :
      Next g s (.runJob p) { s with
        job := Function.update s.job p .stored
        result := Function.update s.result p true }
  | jobWake {p : π} (hj : s.job p = .stored) :
      Next g s (.jobWake p) { s with
        job := Function.update s.job p .finished
        reactor := s.reactor.mioWake }
  | connect {p : π} {t : Operations π} (hkind : g.kind p = .connect ∨ g.kind p = .bind)
      (hp : s.op p = .absent) (hs : Registers g s p .connecting 1 t) : Next g s (.connect p) t
  | connected {p : π} (hp : s.op p = .connecting) : Next g s (.connected p) (s.setOp p .done)
  | reactor {w : Option π} {r : Reactor π} (hr : s.reactor.ThreadNext w r) :
      Next g s .reactor { s with reactor := r, woken := s.wakes w, begun := s.begunAt r.pc }

theorem next_of_step {a : OperationLabel π} (h : s.step g a = some s') : Next g s a s' := by
  cases a with
  | reactor =>
    simp only [step, Option.map_eq_some_iff, Prod.exists] at h
    obtain ⟨w, r, hr, rfl⟩ := h
    exact .reactor (Reactor.threadNext_of_step hr)
  | poll p =>
    simp only [step, Option.ite_none_right_eq_some] at h
    obtain ⟨hp, h⟩ := h
    split at h
    · rename_i hr
      cases h
      exact .pollReady hp hr
    · rename_i hr
      cases h
      exact .pollPending hp (by simpa using hr)
  | drop p =>
    simp only [step, Option.ite_none_right_eq_some, Option.some.injEq] at h
    obtain ⟨hp | ⟨hp, heager⟩, rfl⟩ := h
    · exact .drop hp
    · exact .dropUnpolled hp heager
  | _ =>
    simp only [step, Option.ite_none_right_eq_some, Option.some.injEq] at h
    obtain ⟨hp, rfl⟩ := h
    first
      | exact .send hp.1 hp.2
      | exact .register hp (registers ..)
      | exact .wake hp
      | exact .listen hp
      | exact .openFile hp.1 hp.2 (registers ..)
      | exact .pollRegister hp (registers ..)
      | exact .pollStore hp
      | exact .pollSubmit hp
      | exact .runJob hp
      | exact .jobWake hp
      | exact .connect hp.1 hp.2 (registers ..)
      | exact .connected hp

end Operations

end Hooch
