import Hooch.Lib.TransitionSystem
import Hooch.Utils.RingBuffer

/-!
# Threads on one ring buffer

Any number of threads share a `LockFreeBoundedRingBuffer`; a thread that is in no call may call
`push` or `pop`, and one that is in a call executes its next atomic step. The trace records, in
order, what the steps did to the slots and what the calls returned.
-/

namespace Hooch

namespace LockFreeBoundedRingBuffer

variable {τ T : Type*}

/-- The two calls. -/
inductive Op (T : Type*)
  | push (value : T)
  | pop

/-- The first step of a call. -/
def Op.entry : Op T → Pc T
  | .push v => .pushLen v
  | .pop => .popLoadStart

/-- The buffer, where each thread stands (`none`: in no call), and what happened so far. -/
structure Threads (τ T : Type*) where
  ring : LockFreeBoundedRingBuffer T
  pc : τ → Option (Pc T)
  trace : List (Event T)

/-- Who moves: a thread starts a call or executes one atomic step of its call. -/
inductive Move (τ T : Type*)
  | call (t : τ) (op : Op T)
  | step (t : τ)

variable [DecidableEq τ]

def Threads.next (s : Threads τ T) : Move τ T → Option (Threads τ T)
  | .call t op =>
      match s.pc t with
      | none => some { s with pc := Function.update s.pc t (some op.entry) }
      | some _ => none
  | .step t =>
      match s.pc t with
      | none => none
      | some pc =>
          let (ring, event, pc') := pc.exec s.ring
          some
            { ring := ring
              pc := Function.update s.pc t pc'
              trace := s.trace ++ event.toList }

/-- The threads on the buffer `r₀`, all outside of any call. -/
def threads (r₀ : LockFreeBoundedRingBuffer T) : TransitionSystem (Threads τ T) (Move τ T) where
  init s := s = ⟨r₀, fun _ => none, []⟩
  step := Threads.next

theorem Threads.next_call {s s' : Threads τ T} {t : τ} {op : Op T}
    (h : s.next (.call t op) = some s') :
    s.pc t = none ∧ s' = { s with pc := Function.update s.pc t (some op.entry) } := by
  unfold Threads.next at h
  cases hpc : s.pc t with
  | none =>
    simp only [hpc, Option.some.injEq] at h
    exact ⟨rfl, h.symm⟩
  | some pc => simp [hpc] at h

theorem Threads.next_step {s s' : Threads τ T} {t : τ} (h : s.next (.step t) = some s') :
    ∃ pc, s.pc t = some pc ∧
      s' = { ring := (pc.exec s.ring).1
             pc := Function.update s.pc t (pc.exec s.ring).2.2
             trace := s.trace ++ (pc.exec s.ring).2.1.toList } := by
  unfold Threads.next at h
  cases hpc : s.pc t with
  | none => simp [hpc] at h
  | some pc =>
    simp only [hpc, Option.some.injEq] at h
    exact ⟨pc, rfl, h.symm⟩

/-! ### Reading the trace -/

/-- The slot writes: the slot, what it held, what was written. -/
def writes (trace : List (Event T)) : List (ℕ × Option T × T) :=
  trace.filterMap fun
    | .wrote i old v => some (i, old, v)
    | _ => none

/-- The slot takes: the slot and what it held. -/
def takes (trace : List (Event T)) : List (ℕ × Option T) :=
  trace.filterMap fun
    | .took i v => some (i, v)
    | _ => none

/-- The values whose push returned `Ok`. -/
def oks (trace : List (Event T)) : List T :=
  trace.filterMap fun
    | .returned (.ok v) => some v
    | _ => none

/-- The values that pops returned. -/
def pops (trace : List (Event T)) : List (Option T) :=
  trace.filterMap fun
    | .returned (.popped v) => some v
    | _ => none

/-- The values written into slots, in order. -/
def written (trace : List (Event T)) : List T := (writes trace).map fun w => w.2.2

/-- The values taken out of slots, in order. -/
def taken (trace : List (Event T)) : List (Option T) := (takes trace).map Prod.snd

@[simp] theorem writes_append (l m : List (Event T)) : writes (l ++ m) = writes l ++ writes m :=
  List.filterMap_append
@[simp] theorem takes_append (l m : List (Event T)) : takes (l ++ m) = takes l ++ takes m :=
  List.filterMap_append
@[simp] theorem oks_append (l m : List (Event T)) : oks (l ++ m) = oks l ++ oks m :=
  List.filterMap_append
@[simp] theorem pops_append (l m : List (Event T)) : pops (l ++ m) = pops l ++ pops m :=
  List.filterMap_append
@[simp] theorem written_append (l m : List (Event T)) :
    written (l ++ m) = written l ++ written m := by
  simp [written]
@[simp] theorem taken_append (l m : List (Event T)) : taken (l ++ m) = taken l ++ taken m := by
  simp [taken]

/-! ### Where a call stands -/

/-- The phase of a push that stands here. -/
def pushPhase : Option (Pc T) → PushPhase
  | some (.pushAdd _ _) => .written
  | some (.pushStoreEnd _ _) => .counted
  | _ => .rest

/-- The phase of a pop that stands here. -/
def popPhase : Option (Pc T) → PopPhase
  | some (.popSub _ _) => .taken
  | some (.popStoreStart _ _) => .counted
  | _ => .rest

/-- The value of a push that is written and whose call has not returned. -/
def pendingPush : Option (Pc T) → List T
  | some (.pushAdd v _) | some (.pushStoreEnd v _) => [v]
  | _ => []

/-- The value of a pop that is taken and whose call has not returned. -/
def pendingPop : Option (Pc T) → List (Option T)
  | some (.popSub _ v) | some (.popStoreStart _ v) => [v]
  | _ => []

end LockFreeBoundedRingBuffer

end Hooch
