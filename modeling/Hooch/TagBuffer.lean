import Hooch.Fs.File
import Hooch.Lib.Census

/-!
# The tag buffer is emptied by wakes

A tag leaves the buffer when the reactor thread handles a mio wake. A send requests one after it
has registered its tag, and so does the pool job of a file operation; `connect` and `bind` wake the
task directly and never request one, and neither does an `open_hooch` whose future is dropped before
its first poll. Their tags stay until something else requests a wake.

* `WakeToCome`, `Settled`: an operation that still has a wake to request; nothing of the kind left;
* `tags_pile_up`: any number of connects, one after the other, leaves as many tags behind, until
  the next one panics;
* `Covered`: a tag is left without a wake of its own only while another wake is to come, and not too
  many operations begin between two moments at which the reactor thread finds the buffer empty;
* `buffer_drained`: the main result, for the runs under this condition;
* `not_attended`, `sends_panic`: what becomes of runs against the two parts of it.
-/

namespace Hooch

/-- The operation moves no more. -/
def OperationPc.atRest : OperationPc → Bool
  | .absent | .done | .dropped | .panicked => true
  | _ => false

namespace Operations

variable {π : Type*} [DecidableEq π] {g : Tagging π} {s s' : Operations π} {a : OperationLabel π}

/-- The operation is in progress, or its pool job is. -/
def InProgress (s : Operations π) (p : π) : Prop :=
  (s.op p).atRest = false ∨ s.job p = .queued ∨ s.job p = .stored

/-- A mio wake of this operation is still to come. -/
def WakeToCome (s : Operations π) (p : π) : Prop :=
  s.op p = .sent ∨ s.op p = .wakeDue ∨ s.op p = .opened ∨ s.op p = .registered ∨
    s.op p = .stored ∨ s.job p = .queued ∨ s.job p = .stored

/-- No operation is in progress, and the reactor thread has handled every wake requested so
far. -/
def Settled (s : Operations π) : Prop := (∀ p, ¬ s.InProgress p) ∧ s.reactor.Idle

/-- The reactor thread will look into the buffer once more. -/
def Drains (s : Operations π) : Prop :=
  s.reactor.wakePending = true ∨ s.reactor.pc ≠ .polling ∨ ∃ p, s.WakeToCome p

/-- And not because of the operation `p` alone. -/
def DrainsWithout (s : Operations π) (p : π) : Prop :=
  s.reactor.wakePending = true ∨ s.reactor.pc ≠ .polling ∨ ∃ q, q ≠ p ∧ s.WakeToCome q

/-- A connect or a bind registers its tag only while the reactor thread will look into the buffer
once more, and so it is when an operation is dropped unpolled with tags in the buffer. -/
def Attended (s : Operations π) : OperationLabel π → Prop
  | .connect _ => s.Drains
  | .drop p => s.op p = .opened → s.reactor.reactorTagBuffer.items ≠ [] → s.DrainsWithout p
  | _ => True

/-- The operations begun since the reactor thread last found the buffer empty, with those that were
in progress then, do not register more tags than the buffer has places. -/
def Bounded (s : Operations π) : OperationLabel π → Prop
  | .send _ | .connect _ => s.begun + 1 ≤ Reactor.tagBound
  | .openFile _ => s.begun + 2 ≤ Reactor.tagBound
  | _ => True

/-- Both. -/
def Covered (s : Operations π) (a : OperationLabel π) : Prop := s.Attended a ∧ s.Bounded a

/-- Only finitely many operations have begun, and `owed` is the sum of their tags to come. -/
def Owes (s : Operations π) : Prop :=
  ∃ T : Finset π, (∀ p ∉ T, s.op p = .absent) ∧ s.owed = ∑ p ∈ T, (s.op p).tagsToCome

omit [DecidableEq π] in
theorem Owes.tagsToCome_le (h : Owes s) (p : π) : (s.op p).tagsToCome ≤ s.owed := by
  obtain ⟨T, hT, howed⟩ := h
  by_cases hp : p ∈ T
  · rw [howed]
    exact Finset.single_le_sum (f := fun p => (s.op p).tagsToCome) (fun _ _ => Nat.zero_le _) hp
  · rw [hT p hp]
    exact Nat.zero_le _

theorem Owes.setOp (h : Owes s) (p : π) (pc : OperationPc) : Owes (s.setOp p pc) := by
  obtain ⟨T, hT, howed⟩ := h
  refine ⟨insert p T, fun q hq => ?_, ?_⟩
  · rw [Finset.mem_insert, not_or] at hq
    simpa [Operations.setOp, hq.1] using hT q hq.2
  · have hsum := Census.sum_update OperationPc.tagsToCome s.op (Finset.mem_insert_self p T) pc
    have hsame : ∑ q ∈ insert p T, (s.op q).tagsToCome = ∑ q ∈ T, (s.op q).tagsToCome := by
      refine Finset.sum_insert_of_eq_zero_if_notMem fun hp => ?_
      rw [hT p hp]
      rfl
    show s.owed + pc.tagsToCome - (s.op p).tagsToCome = _
    rw [hsame] at hsum
    simp only [Operations.setOp]
    omega

/-- The tags in the buffer and those to come are of operations begun since it was empty, or in
progress then. -/
structure Counted (s : Operations π) : Prop where
  bound_eq : s.reactor.reactorTagBuffer.bound = Reactor.tagBound
  owes : Owes s
  count : s.reactor.reactorTagBuffer.items.length + s.owed ≤ s.begun

/-- An operation moves, and what it has yet to register does not grow beyond what it begins with. -/
theorem Counted.setOp (h : Counted s) {p : π} {old : OperationPc} (hold : s.op p = old)
    (pc : OperationPc) {n : ℕ} (hn : s.begun + pc.tagsToCome ≤ n + old.tagsToCome) :
    Counted { s.setOp p pc with begun := n } := by
  refine ⟨h.bound_eq, h.owes.setOp p pc, ?_⟩
  have hcount := h.count
  have hle := h.owes.tagsToCome_le p
  rw [hold] at hle
  show s.reactor.reactorTagBuffer.items.length +
    (s.owed + pc.tagsToCome - (s.op p).tagsToCome) ≤ n
  rw [hold]
  omega

theorem Counted.registers (h : Counted s) {p : π} {old pc : OperationPc} {tags : ℕ}
    (hold : s.op p = old) (htags : pc.tagsToCome + 1 = tags + old.tagsToCome)
    (hs : Registers g s p pc tags s') : Counted s' := by
  have hcount := h.count
  have hle := h.owes.tagsToCome_le p
  rw [hold] at hle
  cases hs with
  | room hbound hitems =>
    refine ⟨hbound.trans h.bound_eq, h.owes.setOp p pc, ?_⟩
    show _ + (s.owed + pc.tagsToCome - (s.op p).tagsToCome) ≤ s.begun + tags
    rw [hitems, List.length_append, List.length_singleton, hold]
    omega
  | full => exact h.setOp hold _ (by simp only [OperationPc.tagsToCome]; omega)

theorem Counted.next (h : Counted s) (hs : Next g s a s') : Counted s' := by
  cases hs with
  | register hp hs | pollRegister hp hs | openFile _ hp hs | connect _ hp hs =>
    exact h.registers hp rfl hs
  | send hkind hp => exact h.setOp hp _ (by simp [OperationPc.tagsToCome])
  | wake hp | pollReady hp =>
    have hset := h.setOp hp .done (n := s.begun) (by simp [OperationPc.tagsToCome])
    exact ⟨hset.bound_eq, hset.owes, hset.count⟩
  | pollStore hp =>
    have hset := h.setOp hp .stored (n := s.begun) (by simp [OperationPc.tagsToCome])
    exact ⟨hset.bound_eq, hset.owes, hset.count⟩
  | pollSubmit hp =>
    have hset := h.setOp hp .parked (n := s.begun) (by simp [OperationPc.tagsToCome])
    exact ⟨hset.bound_eq, hset.owes, hset.count⟩
  | drop hp | dropUnpolled hp | connected hp =>
    exact h.setOp hp _ (n := s.begun) (by simp [OperationPc.tagsToCome])
  | reactor hr =>
    have hcount := h.count
    cases hr with
    | @pop _ q hpc hitems hbound =>
      refine ⟨hbound.trans h.bound_eq, h.owes, ?_⟩
      rw [hitems, List.length_cons] at hcount
      show q.items.length + s.owed ≤ s.begunAt (.popped _)
      rw [begunAt_popped]
      omega
    | emptied hpc hitems =>
      refine ⟨h.bound_eq, h.owes, ?_⟩
      show s.reactor.reactorTagBuffer.items.length + s.owed ≤ s.begunAt .polling
      rw [hitems, begunAt_polling hpc, List.length_nil, Nat.zero_add]
    | take hpc | found hpc | missed hpc =>
      refine ⟨h.bound_eq, h.owes, ?_⟩
      show s.reactor.reactorTagBuffer.items.length + s.owed ≤ s.begunAt .draining
      rwa [begunAt_draining]
  | listen | pollPending | runJob | jobWake => exact ⟨h.bound_eq, h.owes, h.count⟩

theorem counted (h : (operations g).Reachable s) : Counted s := by
  refine h.invariant ?_ fun s a s' hI hs => hI.next (next_of_step hs)
  rintro s rfl
  exact ⟨rfl, ⟨∅, fun _ _ => rfl, rfl⟩, le_rfl⟩

/-- A registration whose tag was counted when its operation began finds room. -/
theorem Registers.of_begun (h : Counted s) {p : π} {old pc : OperationPc} {tags : ℕ}
    (hs : Registers g s p pc tags s') (hold : s.op p = old)
    (htags : pc.tagsToCome + 1 = tags + old.tagsToCome)
    (hbegun : s.begun + tags ≤ Reactor.tagBound) :
    ∃ q : BoundedQueue ReactorTag, s' = { s.setOp p pc with
      reactor := { s.reactor with reactorTagBuffer := q }
      begun := s.begun + tags } := by
  cases hs with
  | @room q => exact ⟨q, rfl⟩
  | full hfull =>
    have hcount := h.count
    have hle := h.owes.tagsToCome_le p
    rw [hold] at hle
    rw [hfull, h.bound_eq] at hcount
    omega

/-! ### Wakes to come -/

/-- A tag in the buffer will be popped, nobody has panicked, and the operations begun stay within
the bound. -/
structure Draining (s : Operations π) : Prop where
  drains : s.reactor.reactorTagBuffer.items ≠ [] → s.Drains
  sound : ∀ p, s.op p ≠ .panicked
  begun : s.begun ≤ Reactor.tagBound

theorem WakeToCome.setOp {p q : π} {pc : OperationPc} (h : s.WakeToCome q)
    (hp : ¬ s.WakeToCome p ∨ q ≠ p ∨ (s.setOp p pc).WakeToCome p) :
    (s.setOp p pc).WakeToCome q := by
  by_cases hqp : q = p
  · subst hqp
    rcases hp with hp | hp | hp
    · exact absurd h hp
    · exact absurd rfl hp
    · exact hp
  · simpa [WakeToCome, Operations.setOp, hqp] using h

/-- A connect has no wake to come, from its beginning to its end. -/
theorem wakeToCome_connecting {p : π} (hp : s.op p = .absent) (q : π) :
    (s.setOp p .connecting).WakeToCome q ↔ s.WakeToCome q := by
  by_cases hqp : q = p
  · subst hqp
    simp [WakeToCome, Operations.setOp, hp]
  · simp [WakeToCome, Operations.setOp, hqp]

theorem sound_setOp (h : ∀ q, s.op q ≠ .panicked) {p : π} {pc : OperationPc}
    (hpc : pc ≠ .panicked) : ∀ q, (s.setOp p pc).op q ≠ .panicked :=
  (Function.forall_update_iff s.op fun _ o => o ≠ .panicked).2 ⟨hpc, fun q _ => h q⟩

/-- An operation moves and either keeps its wake to come, or had none. -/
theorem Draining.setOp (h : Draining s) {p : π} {pc : OperationPc} (hpc : pc ≠ .panicked)
    (hp : (s.WakeToCome p → (s.setOp p pc).WakeToCome p)) : Draining (s.setOp p pc) := by
  refine ⟨fun hne => (h.drains hne).imp_right (Or.imp_right ?_), sound_setOp h.sound hpc, h.begun⟩
  rintro ⟨q, hq⟩
  by_cases hqp : q = p
  · subst hqp
    exact ⟨q, hp hq⟩
  · exact ⟨q, hq.setOp (.inr (.inl hqp))⟩

/-- The tag of an operation whose wake is to come goes into the buffer. -/
theorem Draining.registers (h : Draining s) (hcount : Counted s) {p : π} {old pc : OperationPc}
    {tags : ℕ} (hs : Registers g s p pc tags s') (hold : s.op p = old)
    (htags : pc.tagsToCome + 1 = tags + old.tagsToCome) (hbegun : s.begun + tags ≤ Reactor.tagBound)
    (hpc : pc ≠ .panicked) (hwake : (s.setOp p pc).WakeToCome p) : Draining s' := by
  obtain ⟨q, rfl⟩ := hs.of_begun hcount hold htags hbegun
  exact ⟨fun _ => .inr (.inr ⟨p, hwake⟩), sound_setOp h.sound hpc, hbegun⟩

/-- One step that meets `Covered`. -/
theorem Draining.next (h : Draining s) (hcount : Counted s) (hcov : Covered s a)
    (hs : Next g s a s') : Draining s' := by
  obtain ⟨hattended, hbounded⟩ := hcov
  cases hs with
  | @send p hkind hp =>
    have hset : Draining (s.setOp p .sent) := h.setOp (by simp) fun _ => by
      simp [WakeToCome, Operations.setOp]
    exact ⟨hset.drains, hset.sound, hbounded⟩
  | register hp hs =>
    exact h.registers hcount hs hp rfl h.begun (by simp) (by simp [WakeToCome, Operations.setOp])
  | wake hp => exact ⟨fun _ => .inl rfl, sound_setOp h.sound (by simp), h.begun⟩
  | listen => exact ⟨h.drains, h.sound, h.begun⟩
  | openFile hkind hp hs =>
    exact h.registers hcount hs hp rfl hbounded (by simp) (by simp [WakeToCome, Operations.setOp])
  | pollRegister hp hs =>
    exact h.registers hcount hs hp rfl h.begun (by simp) (by simp [WakeToCome, Operations.setOp])
  | @pollStore p hp =>
    have hset : Draining (s.setOp p .stored) := h.setOp (by simp) fun _ => by
      simp [WakeToCome, Operations.setOp]
    exact ⟨hset.drains, hset.sound, h.begun⟩
  | @pollSubmit p hp =>
    refine ⟨fun hne => (h.drains hne).imp_right (Or.imp_right fun _ => ⟨p, ?_⟩),
      sound_setOp h.sound (by simp), h.begun⟩
    simp [WakeToCome]
  | @pollReady p hp hr =>
    have hset : Draining (s.setOp p .done) := h.setOp (by simp) fun hw => by
      simpa [WakeToCome, Operations.setOp, hp] using hw
    exact ⟨hset.drains, hset.sound, h.begun⟩
  | pollPending => exact ⟨h.drains, h.sound, h.begun⟩
  | drop hp =>
    exact h.setOp (by simp) fun hw => by
      simpa [WakeToCome, Operations.setOp, hp] using hw
  | @dropUnpolled p hp =>
    refine ⟨fun hne => (hattended hp hne).imp_right (Or.imp_right ?_),
      sound_setOp h.sound (by simp), h.begun⟩
    rintro ⟨q, hqp, hq⟩
    exact ⟨q, hq.setOp (.inr (.inl hqp))⟩
  | @runJob p hj =>
    refine ⟨fun hne => (h.drains hne).imp_right (Or.imp_right fun _ => ⟨p, ?_⟩), h.sound, h.begun⟩
    simp [WakeToCome]
  | jobWake hj => exact ⟨fun _ => .inl rfl, h.sound, h.begun⟩
  | @connect p _ hkind hp hs =>
    obtain ⟨q, rfl⟩ := hs.of_begun hcount hp rfl hbounded
    refine ⟨fun _ => hattended.imp_right (Or.imp_right ?_), sound_setOp h.sound (by simp), hbounded⟩
    rintro ⟨r, hr⟩
    exact ⟨r, (wakeToCome_connecting hp r).2 hr⟩
  | connected hp =>
    exact h.setOp (by simp) fun hw => by
      simpa [WakeToCome, Operations.setOp, hp] using hw
  | reactor hr =>
    cases hr with
    | emptied hpc hitems =>
      refine ⟨fun hne => absurd hitems hne, h.sound, ?_⟩
      show s.begunAt .polling ≤ _
      rw [begunAt_polling hpc]
      exact (le_of_add_le_right hcount.count).trans h.begun
    | take | pop | found | missed =>
      exact ⟨fun _ => .inr (.inl (by simp)), h.sound, by simpa using h.begun⟩

theorem draining (h : (operations g).ReachableUnder Covered s) : Draining s := by
  induction h with
  | init hinit =>
    cases hinit
    exact ⟨fun hne => absurd rfl hne, fun p => by simp [new], Nat.zero_le _⟩
  | step hreach hcov hs ih => exact ih.next (counted hreach.reachable) hcov (next_of_step hs)

/-! ### The results -/

section Runs

variable [Fintype π]

instance (s : Operations π) (p : π) : Decidable (s.InProgress p) :=
  inferInstanceAs (Decidable (_ ∨ _))

instance (s : Operations π) (p : π) : Decidable (s.WakeToCome p) :=
  inferInstanceAs (Decidable (_ ∨ _))

instance (s : Operations π) : Decidable s.Settled := inferInstanceAs (Decidable (_ ∧ _))

instance (s : Operations π) : Decidable s.Drains := inferInstanceAs (Decidable (_ ∨ _))

instance (s : Operations π) (p : π) : Decidable (s.DrainsWithout p) :=
  inferInstanceAs (Decidable (_ ∨ _))

instance (s : Operations π) : ∀ a, Decidable (s.Attended a)
  | .connect _ => inferInstanceAs (Decidable s.Drains)
  | .drop p => inferInstanceAs (Decidable (s.op p = .opened →
      s.reactor.reactorTagBuffer.items ≠ [] → s.DrainsWithout p))
  | .send _ | .register _ | .wake _ | .listen _ | .openFile _ | .pollRegister _ | .pollStore _
  | .pollSubmit _ | .poll _ | .runJob _ | .jobWake _ | .connected _ | .reactor => .isTrue trivial

instance (s : Operations π) : ∀ a, Decidable (s.Bounded a)
  | .send _ | .connect _ => inferInstanceAs (Decidable (s.begun + 1 ≤ Reactor.tagBound))
  | .openFile _ => inferInstanceAs (Decidable (s.begun + 2 ≤ Reactor.tagBound))
  | .register _ | .wake _ | .listen _ | .pollRegister _ | .pollStore _ | .pollSubmit _ | .poll _
  | .drop _ | .runJob _ | .jobWake _ | .connected _ | .reactor => .isTrue trivial

instance (s : Operations π) (a : OperationLabel π) : Decidable (s.Covered a) :=
  inferInstanceAs (Decidable (_ ∧ _))

end Runs

/-- Nothing but operations of one kind, each with a tag of its own. -/
def only (k : OperationKind) : Tagging ℕ := ⟨fun _ => k, fun _ => false, id, fun _ _ _ h => h⟩

/-- The operations below `n` are done, each of them has left its tag, and the reactor thread has
done nothing. -/
structure PiledUp (n : ℕ) (s : Operations ℕ) : Prop where
  op : ∀ p, s.op p = if p < n then .done else .absent
  job : ∀ p, s.job p = .absent
  pc : s.reactor.pc = .polling
  items : s.reactor.reactorTagBuffer.items = List.range n
  bound_eq : s.reactor.reactorTagBuffer.bound = Reactor.tagBound

section PiledUp

variable {n : ℕ} {s : Operations ℕ} {k : OperationKind}

theorem PiledUp.init : PiledUp 0 (new : Operations ℕ) :=
  ⟨fun p => by simp [new], fun _ => rfl, rfl, rfl, rfl⟩

theorem PiledUp.absent (h : PiledUp n s) : s.op n = .absent := by
  rw [h.op n, if_neg (lt_irrefl n)]

theorem PiledUp.not_inProgress (h : PiledUp n s) (p : ℕ) : ¬ s.InProgress p := by
  rintro (hp | hp | hp)
  · rw [h.op p] at hp
    split at hp <;> cases hp
  · rw [h.job p] at hp
    cases hp
  · rw [h.job p] at hp
    cases hp

/-- There is room for one more tag, or the registration panics. -/
theorem PiledUp.register (h : PiledUp n s) (hn : n < Reactor.tagBound) : ∃ q,
    s.reactor.registerReactorTag n = some { s.reactor with reactorTagBuffer := q } ∧
      q.bound = Reactor.tagBound ∧ q.items = List.range (n + 1) := by
  cases hreg : s.reactor.registerReactorTag n with
  | none =>
    rw [Reactor.registerReactorTag_eq_none, h.items, h.bound_eq, List.length_range] at hreg
    omega
  | some r =>
    obtain ⟨q, rfl, -, hbound, hitems⟩ := Reactor.registerReactorTag_eq_some hreg
    exact ⟨q, rfl, hbound.trans h.bound_eq, by rw [hitems, h.items, List.range_succ]⟩

theorem PiledUp.full (h : PiledUp Reactor.tagBound s) (tag : ReactorTag) :
    s.reactor.registerReactorTag tag = none := by
  rw [Reactor.registerReactorTag_eq_none, h.items, h.bound_eq, List.length_range]

/-- One more operation is done. -/
theorem PiledUp.done (h : PiledUp n s) {s' : Operations ℕ}
    (hop : ∀ p, s'.op p = if p = n then .done else s.op p) (hjob : s'.job = s.job)
    (hpc : s'.reactor.pc = s.reactor.pc)
    (hitems : s'.reactor.reactorTagBuffer.items = List.range (n + 1))
    (hbound : s'.reactor.reactorTagBuffer.bound = Reactor.tagBound) : PiledUp (n + 1) s' := by
  refine ⟨fun p => ?_, fun p => by rw [hjob, h.job], hpc.trans h.pc, hitems, hbound⟩
  rw [hop, h.op]
  by_cases hp : p = n
  · subst hp
    simp
  · rw [if_neg hp]
    split_ifs <;> first | rfl | omega

/-- One more connect, from beginning to end. -/
theorem PiledUp.connect (h : PiledUp n s) (hn : n < Reactor.tagBound) :
    ∃ s', (operations (only .connect)).run s [.connect n, .connected n] = some s' ∧
      PiledUp (n + 1) s' ∧ s'.reactor.wakePending = s.reactor.wakePending := by
  obtain ⟨q, hreg, hbound, hitems⟩ := h.register hn
  have hreg' : s.reactor.registerReactorTag ((only .connect).tag n) = _ := hreg
  refine ⟨_, by
    simp [TransitionSystem.run, operations, step, registerTag, hreg', h.absent, setOp,
      show (only .connect).kind n = .connect from rfl]; rfl, ?_, ?_⟩
  · refine h.done (fun p => ?_) rfl rfl hitems hbound
    by_cases hp : p = n
    · subst hp
      simp
    · simp [hp]
  · rfl

/-- One more send, whose wake the reactor thread does not come to handle. -/
theorem PiledUp.send (h : PiledUp n s) (hn : n < Reactor.tagBound) :
    ∃ s', (operations (only .send)).run s [.send n, .register n, .wake n] = some s' ∧
      PiledUp (n + 1) s' := by
  obtain ⟨q, hreg, hbound, hitems⟩ := h.register hn
  have hreg' : s.reactor.registerReactorTag ((only .send).tag n) = _ := hreg
  refine ⟨_, by
    simp [TransitionSystem.run, operations, step, registerTag, hreg', h.absent, setOp,
      show (only .send).kind n = .send from rfl]; rfl, ?_⟩
  refine h.done (fun p => ?_) rfl rfl hitems hbound
  by_cases hp : p = n
  · subst hp
    simp
  · simp [hp]

end PiledUp

/-- Connects that never overlap leave as many tags behind. -/
theorem tags_pile_up {n : ℕ} (hn : n ≤ Reactor.tagBound) :
    ∃ s, (operations (only .connect)).Reachable s ∧ PiledUp n s ∧ Settled s := by
  have hpiled : ∃ s, (operations (only .connect)).Reachable s ∧ PiledUp n s ∧
      s.reactor.wakePending = false := by
    induction n with
    | zero => exact ⟨new, .init rfl, .init, rfl⟩
    | succ n ih =>
      obtain ⟨s, hs, hpiled, hpending⟩ := ih (by omega)
      obtain ⟨s', hrun, hpiled', hpending'⟩ := hpiled.connect (by omega)
      exact ⟨s', hs.run hrun, hpiled', hpending'.trans hpending⟩
  obtain ⟨s, hs, hpiled, hpending⟩ := hpiled
  exact ⟨s, hs, hpiled, hpiled.not_inProgress, hpiled.pc, hpending⟩

/-- After as many connects as the buffer has room for, each of them finished before the next, one
more connect panics. -/
theorem connect_panics :
    ∃ s, (operations (only .connect)).Reachable s ∧ Settled s ∧ ∃ s',
      (operations (only .connect)).step s (.connect Reactor.tagBound) = some s' ∧
      s'.op Reactor.tagBound = .panicked := by
  obtain ⟨s, hs, hpiled, hsettled⟩ := tags_pile_up (n := Reactor.tagBound) le_rfl
  have hfull := hpiled.full ((only .connect).tag Reactor.tagBound)
  refine ⟨s, hs, hsettled, _, by
    simp [operations, step, registerTag, hfull, hpiled.absent,
      show (only .connect).kind Reactor.tagBound = .connect from rfl]; rfl, by simp [setOp]⟩

/-- The bound on the operations that begin is needed without any connect as well: sends that never
overlap, with a reactor thread that does not come to run, end in a panic. -/
theorem sends_panic :
    ∃ s, (operations (only .send)).Reachable s ∧ (∀ p, ¬ s.InProgress p) ∧ ∃ s',
      (operations (only .send)).run s [.send Reactor.tagBound, .register Reactor.tagBound] =
        some s' ∧ s'.op Reactor.tagBound = .panicked := by
  have hsends : ∀ n ≤ Reactor.tagBound, ∃ s, (operations (only .send)).Reachable s ∧
      PiledUp n s := by
    intro n hn
    induction n with
    | zero => exact ⟨new, .init rfl, .init⟩
    | succ n ih =>
      obtain ⟨s, hs, hpiled⟩ := ih (by omega)
      obtain ⟨s', hrun, hpiled'⟩ := hpiled.send (by omega)
      exact ⟨s', hs.run hrun, hpiled'⟩
  obtain ⟨s, hs, hpiled⟩ := hsends Reactor.tagBound le_rfl
  have hfull := hpiled.full ((only .send).tag Reactor.tagBound)
  refine ⟨s, hs, hpiled.not_inProgress, _, by
    simp [TransitionSystem.run, operations, step, registerTag, hfull, hpiled.absent, setOp,
      show (only .send).kind Reactor.tagBound = .send from rfl]; rfl, by simp⟩

/-! ### A step against the condition -/

theorem Registers.other {p : π} {pc : OperationPc} {tags : ℕ} (hs : Registers g s p pc tags s')
    {q : π} (hq : q ≠ p) : s'.op q = s.op q ∧ s'.job q = s.job q := by
  cases hs with
  | room | full => simp [setOp, hq]

/-- A step moves one operation or its job at most. -/
theorem exists_moved (hs : Next g s a s') :
    ∃ ps : List π, ∀ q ∉ ps, s'.op q = s.op q ∧ s'.job q = s.job q := by
  cases hs with
  | @register p _ _ hs | @openFile p _ _ _ hs | @pollRegister p _ _ hs | @connect p _ _ _ hs =>
    exact ⟨[p], fun q hq => hs.other (by simpa using hq)⟩
  | @send p | @wake p | @pollStore p | @pollSubmit p | @pollReady p | @drop p | @dropUnpolled p
  | @runJob p | @jobWake p | @connected p =>
    refine ⟨[p], fun q hq => ?_⟩
    have hne : q ≠ p := by simpa using hq
    simp [setOp, hne]
  | listen | pollPending | reactor => exact ⟨[], fun q _ => ⟨rfl, rfl⟩⟩

/-- Only finitely many operations have begun. -/
theorem exists_begun (h : (operations g).Reachable s) :
    ∃ ps : List π, ∀ q ∉ ps, s.op q = .absent ∧ s.job q = .absent := by
  refine h.invariant (I := fun s => ∃ ps : List π, ∀ q ∉ ps, s.op q = .absent ∧ s.job q = .absent)
    ?_ ?_
  · rintro s rfl
    exact ⟨[], fun q _ => ⟨rfl, rfl⟩⟩
  · rintro s a s' ⟨ps, hps⟩ hs
    obtain ⟨qs, hqs⟩ := exists_moved (next_of_step hs)
    refine ⟨ps ++ qs, fun q hq => ?_⟩
    rw [List.mem_append, not_or] at hq
    rw [(hqs q hq.2).1, (hqs q hq.2).2]
    exact hps q hq.1

/-- Operations that wait for nothing that has to do with the buffer can all end. -/
theorem exists_run_atRest (g : Tagging π) {ps : List π}
    (hps : ∀ q ∉ ps, (s.op q).atRest = true)
    (hop : ∀ q, (s.op q).atRest = true ∨ s.op q = .parked ∨ s.op q = .connecting) :
    ∃ as t, (operations g).run s as = some t ∧ t.reactor = s.reactor ∧ t.job = s.job ∧
      ∀ q, (t.op q).atRest = true := by
  induction ps generalizing s with
  | nil => exact ⟨[], s, rfl, rfl, rfl, fun q => hps q (by simp)⟩
  | cons p ps ih =>
    -- One step brings the first operation to its end, if it is not there yet.
    have hmoved : ∀ (pc : OperationPc) (a : OperationLabel π), pc.atRest = true →
        (operations g).step s a = some (s.setOp p pc) →
        ∃ as t, (operations g).run s as = some t ∧ t.reactor = s.reactor ∧ t.job = s.job ∧
          ∀ q, (t.op q).atRest = true := by
      intro pc a hpc hs
      have hps' : ∀ q ∉ ps, ((s.setOp p pc).op q).atRest = true := by
        intro q hq
        by_cases hqp : q = p
        · subst hqp
          simpa [setOp] using hpc
        · simpa [setOp, hqp] using hps q (by simp [hqp, hq])
      have hop' : ∀ q, ((s.setOp p pc).op q).atRest = true ∨ (s.setOp p pc).op q = .parked ∨
          (s.setOp p pc).op q = .connecting :=
        (Function.forall_update_iff s.op fun _ o =>
          o.atRest = true ∨ o = .parked ∨ o = .connecting).2 ⟨.inl hpc, fun q _ => hop q⟩
      obtain ⟨as, t, hrun, hreactor, hjob, hrest⟩ := ih hps' hop'
      exact ⟨a :: as, t, by rw [TransitionSystem.run_cons, hs]; exact hrun, hreactor, hjob, hrest⟩
    rcases hop p with hp | hp | hp
    · refine ih (fun q hq => ?_) hop
      by_cases hqp : q = p
      · rwa [hqp]
      · exact hps q (by simp [hqp, hq])
    · exact hmoved .dropped (.drop p) rfl (by simp [operations, step, hp])
    · exact hmoved .done (.connected p) rfl (by simp [operations, step, hp])

/-- Where the reactor thread will not look into the buffer again, everything can settle without
it. -/
theorem exists_run_settled (h : (operations g).Reachable s) (hdrains : ¬ s.Drains) :
    ∃ as t, (operations g).run s as = some t ∧ Settled t ∧ t.reactor = s.reactor := by
  have hnone : ∀ q, ¬ s.WakeToCome q := fun q hq => hdrains (.inr (.inr ⟨q, hq⟩))
  have hop : ∀ q, (s.op q).atRest = true ∨ s.op q = .parked ∨ s.op q = .connecting := by
    intro q
    have hq := hnone q
    unfold WakeToCome at hq
    cases hpc : s.op q <;> simp_all [OperationPc.atRest]
  obtain ⟨ps, hps⟩ := exists_begun h
  obtain ⟨as, t, hrun, hreactor, hjob, hrest⟩ := exists_run_atRest g
    (fun q hq => by rw [(hps q hq).1]; rfl) hop
  refine ⟨as, t, hrun, ⟨fun q => ?_, ?_⟩, hreactor⟩
  · rintro (hq | hq)
    · rw [hrest q] at hq
      cases hq
    · rw [hjob] at hq
      exact hnone q (.inr (.inr (.inr (.inr (.inr hq)))))
  · rw [hreactor]
    exact ⟨by_contra fun hpc => hdrains (.inr (.inl hpc)), by
      simpa using fun hw => hdrains (.inl hw)⟩

/-- The first part of the condition leaves nothing out: after a connect with no wake to come, or
the drop of an unpolled operation that leaves tags with none to come, everything can settle with a
tag in the buffer, if the connect does not panic. -/
theorem not_attended (h : (operations g).Reachable s) (hbreach : ¬ Attended s a)
    (hs : (operations g).step s a = some s') :
    (∃ p, s'.op p = .panicked) ∨ ∃ as t, (operations g).run s' as = some t ∧ Settled t ∧
      t.reactor.reactorTagBuffer.items ≠ [] := by
  have hreach : (operations g).Reachable s' := .step h trivial hs
  have hsettle : ¬ s'.Drains → s'.reactor.reactorTagBuffer.items ≠ [] →
      ∃ as t, (operations g).run s' as = some t ∧ Settled t ∧
        t.reactor.reactorTagBuffer.items ≠ [] := by
    intro hdrains hne
    obtain ⟨as, t, hrun, hsettled, hreactor⟩ := exists_run_settled hreach hdrains
    exact ⟨as, t, hrun, hsettled, by rwa [hreactor]⟩
  cases next_of_step hs with
  | @connect p _ _ hp hreg =>
    cases hreg with
    | @room q hbound hitems =>
      refine .inr (hsettle (fun hd => ?_) (by simp [hitems]))
      -- The connect itself has no wake to come.
      refine hbreach (hd.imp_right (Or.imp_right ?_))
      rintro ⟨r, hr⟩
      exact ⟨r, (wakeToCome_connecting hp r).1 hr⟩
    | full => exact .inl ⟨p, by simp [setOp]⟩
  | drop hp =>
    refine absurd (fun hopened => ?_) hbreach
    rw [hp] at hopened
    cases hopened
  | @dropUnpolled p hp =>
    obtain ⟨-, hne, hdrains⟩ : s.op p = .opened ∧ s.reactor.reactorTagBuffer.items ≠ [] ∧
        ¬ s.DrainsWithout p := by
      simpa [Attended] using hbreach
    refine .inr (hsettle (fun hd => hdrains (hd.imp_right (Or.imp_right ?_))) hne)
    rintro ⟨r, hr⟩
    by_cases hrp : r = p
    · -- It has not been polled, so it has no job.
      subst hrp
      have hjob : s.job r = .absent := by
        by_contra hj
        simpa [hp] using (sound h r).job hj
      simp [WakeToCome, setOp, hjob] at hr
    · exact ⟨r, hrp, by simpa [WakeToCome, setOp, hrp] using hr⟩
  | _ => exact absurd trivial hbreach

end Operations

end Hooch
