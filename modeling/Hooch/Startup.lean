import Hooch.Handle

/-!
# The start of the executors

The closure of `RuntimeBuilder::build` that initializes `RUNTIME`, and the prologue of the threads
that it starts. Each executor thread waits for three values, the task manager, the pool and the
runtime, on a channel of its own for each; the builder first starts all threads, and then sends the
three values in three rounds. When a thread cannot be started the builder panics and drops the
senders, so the threads that already wait panic in their turn.

* `Startup`, `step`, `startup`: the builder and the threads, one channel operation a step;
* `Inv`: how far the builder and each thread are;
* `startup_safe`, `startup_completes`: the main results, for every number of workers and every
  interleaving;
* `cells_startWorkers`: the cells that the threads end up with are those of `startWorkers`.
-/

namespace Hooch

open TransitionSystem

/-- What an executor thread waits for, in this order. -/
inductive Stage
  | taskManager
  | pool
  | runtime
  deriving DecidableEq

/-- The place in the order. -/
def Stage.order : Stage → ℕ
  | .taskManager => 0
  | .pool => 1
  | .runtime => 2

/-- Where the builder stands. -/
inductive BuilderPc
  /-- At the head of the loop over the workers. -/
  | spawning (i : ℕ)
  /-- At `tx.send(..).unwrap()` for worker `i`. -/
  | sending (stage : Stage) (i : ℕ)
  | returned
  | panicked
  deriving DecidableEq

/-- Where an executor thread stands. -/
inductive ThreadPc
  /-- Not started. -/
  | absent
  /-- At `rx.recv().unwrap()`. -/
  | waiting (stage : Stage)
  /-- At `set_runtime_guard` and in `executor.run`. -/
  | running
  | ended
  deriving DecidableEq

/-- The builder, its task manager, and the threads with their channels and cells. `sender` says
whether the builder still has the sender of a channel. -/
structure Startup (ι : Type*) where
  tm : TaskManager ι
  builder : BuilderPc
  thread : ℕ → ThreadPc
  channel : Stage × ℕ → SyncChannel ℕ
  sender : Stage × ℕ → Bool
  cell : Stage × ℕ → Option ℕ

/-- Who moves; `ok` says whether the system starts the thread. -/
inductive StartupLabel
  | builder (ok : Bool)
  | thread (i : ℕ)
  deriving DecidableEq

namespace Startup

variable {ι : Type*}

/-- No worker has been started. -/
def new : Startup ι where
  tm := .new
  builder := .spawning 0
  thread _ := .absent
  channel _ := .new 1
  sender _ := false
  cell _ := none

/-- The builder panics, and its senders are dropped. -/
def unwind (s : Startup ι) : Startup ι := { s with builder := .panicked, sender := fun _ => false }

/-- What comes after the last send of a round. -/
def afterRound : Stage → BuilderPc
  | .taskManager => .sending .pool 0
  | .pool => .sending .runtime 0
  | .runtime => .returned

/-- Where a thread goes with the value it waited for. -/
def afterRecv : Stage → ThreadPc
  | .taskManager => .waiting .pool
  | .pool => .waiting .runtime
  | .runtime => .running

/-- `sync_channel(1)`, three times. -/
def openChannels (s : Startup ι) (i : ℕ) : Startup ι :=
  { s with
    channel := fun p => if p.2 = i then .new 1 else s.channel p
    sender := fun p => if p.2 = i then true else s.sender p }

/-- The three receivers and the executor of worker `i` are dropped. -/
def dropThread (s : Startup ι) (i : ℕ) : Startup ι :=
  { s with
    tm := s.tm.closeChannel i
    channel := fun p => if p.2 = i then (s.channel p).close else s.channel p }

/-- One step of the `num_workers` workers or of the builder; `value` is what the builder sends. -/
def step (num_workers : ℕ) (value : Stage → ℕ) (s : Startup ι) : StartupLabel → Option (Startup ι)
  | .builder ok =>
      match s.builder with
      | .spawning i =>
          if i < num_workers then
            let s := s.openChannels i
            match s.tm.registerExecutor i (.new TaskManager.maxQueuedTasks) with
            | .error (_, tm) => some ({ s with tm := tm }.dropThread i).unwind
            | .ok tm =>
                let s := { s with tm := tm }
                if ok then
                  some { s with
                    thread := Function.update s.thread i (.waiting .taskManager)
                    builder := .spawning (i + 1) }
                else some (s.dropThread i).unwind
          else some { s with builder := .sending .taskManager 0 }
      | .sending stage i =>
          if i < num_workers then
            match (s.channel (stage, i)).send (value stage) with
            | .ok ch =>
                some { s with
                  channel := Function.update s.channel (stage, i) ch
                  sender := Function.update s.sender (stage, i) false
                  builder := .sending stage (i + 1) }
            | .error .wouldBlock => none
            | .error .disconnected => some s.unwind
          else some { s with builder := afterRound stage }
      | .returned | .panicked => none
  | .thread i =>
      match s.thread i with
      | .waiting stage =>
          match (s.channel (stage, i)).recv with
          | some (v, ch) =>
              some { s with
                channel := Function.update s.channel (stage, i) ch
                -- `cell.get_or_init(..)`
                cell := Function.update s.cell (stage, i) (some ((s.cell (stage, i)).getD v))
                thread := Function.update s.thread i (afterRecv stage) }
          | none =>
              if s.sender (stage, i) then none
              else some { s.dropThread i with thread := Function.update s.thread i .ended }
      | _ => none

end Startup

/-- The start of `num_workers` workers. -/
def startup {ι : Type*} (num_workers : ℕ) (value : Stage → ℕ) :
    TransitionSystem (Startup ι) StartupLabel where
  init s := s = .new
  step := Startup.step num_workers value

/-- One more round of the loop of `build`. -/
theorem TaskManager.registerExecutors_append {ι : Type*} {ids : List ExecutorId} {i : ExecutorId}
    {tm tm₁ tm₂ : TaskManager ι} (h : registerExecutors ids tm = .ok tm₁)
    (hi : tm₁.registerExecutor i (.new maxQueuedTasks) = .ok tm₂) :
    registerExecutors (ids ++ [i]) tm = .ok tm₂ := by
  induction ids generalizing tm with
  | nil =>
    cases h
    simp only [List.nil_append, registerExecutors, hi]
  | cons j ids ih =>
    simp only [List.cons_append, registerExecutors] at h ⊢
    split at h
    · exact ih h
    · cases h

namespace Startup

variable {ι : Type*} {n : ℕ} {value : Stage → ℕ} {s s' : Startup ι} {a : StartupLabel} {i : ℕ}
  {st : Stage}

/-- The steps, one case each. -/
inductive Next (n : ℕ) (value : Stage → ℕ) (s : Startup ι) : StartupLabel → Startup ι → Prop
  | spawned {i : ℕ} {tm : TaskManager ι} (hb : s.builder = .spawning i) (hi : i < n)
      (hreg : s.tm.registerExecutor i (.new TaskManager.maxQueuedTasks) = .ok tm) :
      Next n value s (.builder true) { s.openChannels i with
        tm := tm
        thread := Function.update s.thread i (.waiting .taskManager)
        builder := .spawning (i + 1) }
  | failed {ok : Bool} {i : ℕ} {tm : TaskManager ι} (hb : s.builder = .spawning i) (hi : i < n) :
      Next n value s (.builder ok) (({ s.openChannels i with tm := tm }.dropThread i).unwind)
  | looped {ok : Bool} {i : ℕ} (hb : s.builder = .spawning i) (hi : n ≤ i) :
      Next n value s (.builder ok) { s with builder := .sending .taskManager 0 }
  | sent {ok : Bool} {st : Stage} {i : ℕ} {ch : SyncChannel ℕ} (hb : s.builder = .sending st i)
      (hi : i < n) (hch : ch.receiver = true)
      (hbound : ch.queue.bound = (s.channel (st, i)).queue.bound)
      (hitems : ch.items = (s.channel (st, i)).items ++ [value st]) :
      Next n value s (.builder ok) { s with
        channel := Function.update s.channel (st, i) ch
        sender := Function.update s.sender (st, i) false
        builder := .sending st (i + 1) }
  | disconnected {ok : Bool} {st : Stage} {i : ℕ} (hb : s.builder = .sending st i) (hi : i < n)
      (hgone : (s.channel (st, i)).receiver = false) : Next n value s (.builder ok) s.unwind
  | round {ok : Bool} {st : Stage} {i : ℕ} (hb : s.builder = .sending st i) (hi : n ≤ i) :
      Next n value s (.builder ok) { s with builder := afterRound st }
  | received {st : Stage} {i v : ℕ} {ch : SyncChannel ℕ} (ht : s.thread i = .waiting st)
      (hitems : (s.channel (st, i)).items = v :: ch.items)
      (hch : ch.receiver = (s.channel (st, i)).receiver)
      (hbound : ch.queue.bound = (s.channel (st, i)).queue.bound) :
      Next n value s (.thread i) { s with
        channel := Function.update s.channel (st, i) ch
        cell := Function.update s.cell (st, i) (some ((s.cell (st, i)).getD v))
        thread := Function.update s.thread i (afterRecv st) }
  | died {st : Stage} {i : ℕ} (ht : s.thread i = .waiting st)
      (hitems : (s.channel (st, i)).items = []) (hsender : s.sender (st, i) = false) :
      Next n value s (.thread i)
        { s.dropThread i with thread := Function.update s.thread i .ended }

theorem next_of_step (h : s.step n value a = some s') : Next n value s a s' := by
  cases a with
  | builder ok =>
    simp only [step] at h
    split at h
    · rename_i i hb
      split at h
      · rename_i hi
        split at h
        · cases h
          exact .failed hb hi
        · rename_i tm hreg
          split at h
          · rename_i hok
            cases h
            rw [hok]
            exact .spawned hb hi hreg
          · cases h
            exact .failed hb hi
      · rename_i hi
        cases h
        exact .looped hb (not_lt.1 hi)
    · rename_i st i hb
      split at h
      · rename_i hi
        split at h
        · rename_i ch hsend
          cases h
          obtain ⟨-, hch, hbound, hitems⟩ := SyncChannel.send_eq_ok hsend
          exact .sent hb hi hch hbound hitems
        · cases h
        · rename_i hsend
          cases h
          refine .disconnected hb hi ?_
          by_contra hrec
          rw [Bool.not_eq_false] at hrec
          rw [SyncChannel.send, if_pos hrec] at hsend
          split at hsend <;> cases hsend
      · rename_i hi
        cases h
        exact .round hb (not_lt.1 hi)
    · cases h
    · cases h
  | thread i =>
    simp only [step] at h
    split at h
    · rename_i st ht
      split at h
      · rename_i v ch hrecv
        cases h
        obtain ⟨hitems, hch, hbound⟩ := SyncChannel.recv_eq_some hrecv
        exact .received ht hitems hch hbound
      · rename_i hrecv
        split at h
        · cases h
        · rename_i hsender
          cases h
          exact .died ht (SyncChannel.recv_eq_none_iff.1 hrecv) (by simpa using hsender)
    · cases h

/-! ### How far everybody is -/

/-- The builder has sent the value to the thread. -/
def delivered : BuilderPc → Stage → ℕ → Prop
  | .sending st k, st', i => st'.order < st.order ∨ st' = st ∧ i < k
  | .returned, _, _ => True
  | .spawning _, _, _ | .panicked, _, _ => False

/-- The thread has received the value. -/
def received : ThreadPc → Stage → Prop
  | .waiting st, st' => st'.order < st.order
  | .running, _ => True
  | .absent, _ | .ended, _ => False

/-- The thread has been started and has not ended. -/
def Alive (p : ThreadPc) : Prop := p ≠ .absent ∧ p ≠ .ended

/-- The channel of a live thread for one value, and its cell for it. -/
structure Link (v : ℕ) (delivered received : Prop) (ch : SyncChannel ℕ) (cell : Option ℕ) :
    Prop where
  receiver : ch.receiver = true
  bound : ch.queue.bound = 1
  order : received → delivered
  taken : received → ch.items = [] ∧ cell = some v
  waits : ¬ received → delivered → ch.items = [v]
  empty : ¬ delivered → ch.items = []
  unset : ¬ received → cell = none

/-- The invariant of the start. -/
structure Inv (n : ℕ) (value : Stage → ℕ) (s : Startup ι) : Prop where
  spawning : ∀ k, s.builder = .spawning k → k ≤ n ∧ (∀ i, s.thread i ≠ .absent ↔ i < k) ∧
    TaskManager.registerExecutors (List.range k) .new = .ok s.tm
  spawned : (∀ k, s.builder ≠ .spawning k) → s.builder ≠ .panicked →
    (∀ i, s.thread i ≠ .absent ↔ i < n) ∧ TaskManager.build n = .ok s.tm
  bounded : ∀ i, s.thread i ≠ .absent → i < n
  ended : ∀ i, s.thread i = .ended → s.builder = .panicked
  fresh : ∀ i st, s.thread i = .absent → s.cell (st, i) = none
  link : ∀ i st, Alive (s.thread i) → Link (value st) (delivered s.builder st i)
    (received (s.thread i) st) (s.channel (st, i)) (s.cell (st, i))
  sender : ∀ i st, Alive (s.thread i) →
    (s.sender (st, i) = true ↔ ¬ delivered s.builder st i ∧ s.builder ≠ .panicked)

theorem Inv.new : Inv n value (new : Startup ι) where
  spawning k h := by
    cases h
    exact ⟨Nat.zero_le _, by simp [Startup.new], rfl⟩
  spawned h _ := absurd rfl (h 0)
  bounded i h := absurd rfl h
  ended i h := by cases h
  fresh _ _ _ := rfl
  link _ _ h := absurd rfl h.1
  sender _ _ h := absurd rfl h.1

theorem Inv.lt_of_spawning (h : Inv n value s) {k : ℕ} (hb : s.builder = .spawning k)
    (hi : Alive (s.thread i)) : i < k := ((h.spawning k hb).2.1 i).1 hi.1

/-- A thread that has been started is live as long as the builder has not panicked. -/
theorem Inv.alive (h : Inv n value s) (hi : s.thread i ≠ .absent) (hb : s.builder ≠ .panicked) :
    Alive (s.thread i) := ⟨hi, fun hended => hb (h.ended i hended)⟩

theorem Inv.spawn (h : Inv n value s) {tm : TaskManager ι} (hb : s.builder = .spawning i)
    (hi : i < n) (hreg : s.tm.registerExecutor i (.new TaskManager.maxQueuedTasks) = .ok tm) :
    Inv n value { s.openChannels i with
      tm := tm
      thread := Function.update s.thread i (.waiting .taskManager)
      builder := .spawning (i + 1) } := by
  obtain ⟨-, hstarted, hmanager⟩ := h.spawning i hb
  have habsent : s.thread i = .absent := by
    by_contra hne
    exact lt_irrefl i ((hstarted i).1 hne)
  have hlive : ∀ j, Alive (Function.update s.thread i (.waiting .taskManager) j) → j ≠ i →
      Alive (s.thread j) := by
    intro j hj hji
    simpa [hji] using hj
  refine ⟨fun k hk => ?_, fun hk => absurd rfl (hk (i + 1)), fun j hj => ?_, fun j hj => ?_,
    fun j st hj => ?_, fun j st hj => ?_, fun j st hj => ?_⟩
  · cases hk
    refine ⟨hi, fun j => ?_, ?_⟩
    · by_cases hji : j = i
      · subst hji
        simp
      · simp only [Function.update_of_ne hji, hstarted]
        omega
    · rw [List.range_succ]
      exact TaskManager.registerExecutors_append hmanager hreg
  · by_cases hji : j = i
    · rwa [hji]
    · exact h.bounded j (by simpa [hji] using hj)
  · by_cases hji : j = i
    · simp [hji] at hj
    · have hpanicked := h.ended j (by simpa [hji] using hj)
      rw [hb] at hpanicked
      cases hpanicked
  · by_cases hji : j = i
    · simp [hji] at hj
    · exact h.fresh j st (by simpa [hji] using hj)
  · by_cases hji : j = i
    · subst hji
      have hnot : ¬ received (.waiting .taskManager) st := by simp [received, Stage.order]
      simp only [Function.update_self, openChannels, if_pos]
      exact ⟨rfl, rfl, fun hr => absurd hr hnot, fun hr => absurd hr hnot,
        fun _ hd => hd.elim, fun _ => rfl, fun _ => h.fresh j st habsent⟩
    · have hlink := h.link j st (hlive j hj hji)
      rw [hb] at hlink
      simpa [openChannels, hji, delivered] using hlink
  · by_cases hji : j = i
    · simp [openChannels, hji, delivered]
    · have hsender := h.sender j st (hlive j hj hji)
      rw [hb] at hsender
      simpa [openChannels, hji, delivered] using hsender

theorem Inv.fail (h : Inv n value s) {tm : TaskManager ι} (hb : s.builder = .spawning i) :
    Inv n value ({ s.openChannels i with tm := tm }.dropThread i).unwind := by
  refine ⟨fun k hk => (by cases hk), fun _ hp => absurd rfl hp, h.bounded, fun _ _ => rfl, h.fresh,
    fun j st hj => ?_, fun j st _ => by simp [unwind]⟩
  have hji : j ≠ i := (h.lt_of_spawning hb hj).ne
  have hlink := h.link j st hj
  rw [hb] at hlink
  simpa [openChannels, dropThread, unwind, hji, delivered] using hlink

/-- The builder goes on to a round, or returns, and nothing changes for the threads. -/
theorem Inv.advance (h : Inv n value s) {b : BuilderPc} (hb : s.builder ≠ .panicked)
    (hb' : b ≠ .panicked) (hspawning : ∀ k, b ≠ .spawning k)
    (hstarted : (∀ i, s.thread i ≠ .absent ↔ i < n) ∧ TaskManager.build n = .ok s.tm)
    (hdelivered : ∀ i < n, ∀ st, delivered b st i ↔ delivered s.builder st i) :
    Inv n value { s with builder := b } := by
  refine ⟨fun k hk => absurd hk (hspawning k), fun _ _ => hstarted, h.bounded,
    fun j hj => absurd (h.ended j hj) hb, h.fresh, fun j st hj => ?_, fun j st hj => ?_⟩
  · simp only [hdelivered j (h.bounded j hj.1) st]
    exact h.link j st hj
  · simp only [hdelivered j (h.bounded j hj.1) st]
    rw [h.sender j st hj]
    simp [hb, hb']

theorem delivered_afterRound {k : ℕ} (hk : n ≤ k) (st : Stage) :
    ∀ i < n, ∀ st', delivered (afterRound st) st' i ↔ delivered (.sending st k) st' i := by
  intro i hi st'
  have hik : i < k := hi.trans_le hk
  cases st <;> cases st' <;> simp [afterRound, delivered, Stage.order, hik]

theorem Inv.send (h : Inv n value s) {ch : SyncChannel ℕ} (hb : s.builder = .sending st i)
    (hch : ch.receiver = true)
    (hbound : ch.queue.bound = (s.channel (st, i)).queue.bound)
    (hitems : ch.items = (s.channel (st, i)).items ++ [value st]) :
    Inv n value { s with
      channel := Function.update s.channel (st, i) ch
      sender := Function.update s.sender (st, i) false
      builder := .sending st (i + 1) } := by
  have hlive : s.builder ≠ .panicked := by simp [hb]
  obtain ⟨hstarted, hmanager⟩ := h.spawned (by simp [hb]) hlive
  have hother : ∀ j st', (st', j) ≠ (st, i) →
      (delivered (.sending st (i + 1)) st' j ↔ delivered s.builder st' j) := by
    intro j st' hne
    rw [hb]
    simp only [delivered]
    by_cases hst : st' = st
    · subst hst
      have hji : j ≠ i := fun hji => hne (by rw [hji])
      simp only [true_and]
      omega
    · simp [hst]
  have hnot : ¬ delivered s.builder st i := by simp [hb, delivered]
  refine ⟨fun k hk => (by cases hk), fun _ _ => ⟨hstarted, hmanager⟩, h.bounded,
    fun j hj => absurd (h.ended j hj) hlive, h.fresh, fun j st' hj => ?_, fun j st' hj => ?_⟩
  · have hlink := h.link j st' hj
    by_cases hji : (st', j) = (st, i)
    · cases hji
      have hwaits : ¬ received (s.thread i) st := fun hr => hnot (hlink.order hr)
      have hsent : delivered (.sending st (i + 1)) st i := .inr ⟨rfl, i.lt_succ_self⟩
      simp only [Function.update_self]
      exact ⟨hch, hbound.trans hlink.bound, fun _ => hsent, fun hr => absurd hr hwaits,
        fun _ _ => by rw [hitems, hlink.empty hnot, List.nil_append], fun hd => absurd hsent hd,
        hlink.unset⟩
    · simp only [Function.update_of_ne hji, hother j st' hji]
      exact hlink
  · by_cases hji : (st', j) = (st, i)
    · cases hji
      simp [delivered]
    · simp only [Function.update_of_ne hji, hother j st' hji]
      rw [h.sender j st' hj]
      simp [hlive]

/-- What a thread has received before it waits for a value, and after it has it. -/
theorem received_afterRecv {st' : Stage} :
    received (afterRecv st) st' ↔ received (.waiting st) st' ∨ st' = st := by
  cases st <;> cases st' <;> simp [afterRecv, received, Stage.order]

theorem alive_afterRecv : Alive (afterRecv st) := by cases st <;> simp [afterRecv, Alive]

theorem Inv.recv (h : Inv n value s) {v : ℕ} {ch : SyncChannel ℕ} (ht : s.thread i = .waiting st)
    (hitems : (s.channel (st, i)).items = v :: ch.items)
    (hch : ch.receiver = (s.channel (st, i)).receiver)
    (hbound : ch.queue.bound = (s.channel (st, i)).queue.bound) :
    Inv n value { s with
      channel := Function.update s.channel (st, i) ch
      cell := Function.update s.cell (st, i) (some ((s.cell (st, i)).getD v))
      thread := Function.update s.thread i (afterRecv st) } := by
  have hlive : Alive (s.thread i) := by simp [ht, Alive]
  have hthread : ∀ j, Alive (Function.update s.thread i (afterRecv st) j) → Alive (s.thread j) := by
    intro j hj
    by_cases hji : j = i
    · rwa [hji]
    · simpa [hji] using hj
  have habsent : ∀ j, Function.update s.thread i (afterRecv st) j ≠ .absent ↔
      s.thread j ≠ .absent := by
    intro j
    by_cases hji : j = i
    · subst hji
      simp [ht, alive_afterRecv.1]
    · simp [hji]
  have hnot : ¬ received (s.thread i) st := by simp [ht, received]
  have hdelivered : delivered s.builder st i := by
    by_contra hd
    rw [(h.link i st hlive).empty hd] at hitems
    cases hitems
  refine ⟨fun k hk => ?_, fun hk hp => ?_, fun j hj => h.bounded j ((habsent j).1 hj),
    fun j hj => ?_, fun j st' hj => ?_, fun j st' hj => ?_,
    fun j st' hj => h.sender j st' (hthread j hj)⟩
  · obtain ⟨hkn, hstarted, hmanager⟩ := h.spawning k hk
    exact ⟨hkn, fun j => (habsent j).trans (hstarted j), hmanager⟩
  · obtain ⟨hstarted, hmanager⟩ := h.spawned hk hp
    exact ⟨fun j => (habsent j).trans (hstarted j), hmanager⟩
  · by_cases hji : j = i
    · subst hji
      exact absurd (by simpa using hj) alive_afterRecv.2
    · exact h.ended j (by simpa [hji] using hj)
  · have hj' : s.thread j = .absent := not_not.1 fun hne => (habsent j).2 hne hj
    have hne : (st', j) ≠ (st, i) := by
      rintro ⟨rfl, rfl⟩
      rw [ht] at hj'
      cases hj'
    exact (Function.update_of_ne hne _ _).trans (h.fresh j st' hj')
  · have hlink := h.link j st' (hthread j hj)
    by_cases hji : j = i
    · subst hji
      simp only [Function.update_self, received_afterRecv, ← ht]
      by_cases hst : st' = st
      · subst hst
        have hv := hlink.waits hnot hdelivered
        rw [hitems, List.cons.injEq] at hv
        simp only [Function.update_self]
        refine ⟨hch.trans hlink.receiver, hbound.trans hlink.bound, fun _ => hdelivered,
          fun _ => ⟨hv.2, by rw [hlink.unset hnot, Option.getD_none, hv.1]⟩,
          fun hr => absurd (.inr trivial) hr, fun hd => absurd hdelivered hd,
          fun hr => absurd (.inr trivial) hr⟩
      · have hne : (st', j) ≠ (st, j) := fun heq => hst (Prod.mk.inj heq).1
        simp only [Function.update_of_ne hne, hst, or_false]
        exact hlink
    · have hne : (st', j) ≠ (st, i) := fun heq => hji (Prod.mk.inj heq).2
      simp only [Function.update_of_ne hji, Function.update_of_ne hne]
      exact hlink

theorem Inv.die (h : Inv n value s) (ht : s.thread i = .waiting st)
    (hitems : (s.channel (st, i)).items = []) (hsender : s.sender (st, i) = false) :
    Inv n value { s.dropThread i with thread := Function.update s.thread i .ended } := by
  have hlive : Alive (s.thread i) := by simp [ht, Alive]
  have hnot : ¬ received (s.thread i) st := by simp [ht, received]
  -- The value was not sent, so the builder has dropped its sender in a panic.
  have hb : s.builder = .panicked := by
    by_contra hb
    have hd : delivered s.builder st i := by
      by_contra hd
      rw [(h.sender i st hlive).2 ⟨hd, hb⟩] at hsender
      cases hsender
    rw [(h.link i st hlive).waits hnot hd] at hitems
    cases hitems
  have hthread : ∀ j, Alive (Function.update s.thread i .ended j) → j ≠ i ∧ Alive (s.thread j) := by
    intro j hj
    by_cases hji : j = i
    · subst hji
      exact absurd (by simp) hj.2
    · exact ⟨hji, by simpa [hji] using hj⟩
  refine ⟨fun k hk => ?_, fun _ hp => absurd hb hp, fun j hj => ?_, fun _ _ => hb,
    fun j st' hj => ?_, fun j st' hj => ?_, fun j st' hj => ?_⟩
  · rw [dropThread, hb] at hk
    cases hk
  · by_cases hji : j = i
    · exact h.bounded j (by rw [hji, ht]; simp)
    · exact h.bounded j (by simpa [hji] using hj)
  · by_cases hji : j = i
    · simp [hji] at hj
    · exact h.fresh j st' (by simpa [hji] using hj)
  · obtain ⟨hji, hj⟩ := hthread j hj
    simpa [dropThread, hji] using h.link j st' hj
  · obtain ⟨-, hj⟩ := hthread j hj
    exact h.sender j st' hj

theorem Inv.next (h : Inv n value s) (hs : Next n value s a s') : Inv n value s' := by
  cases hs with
  | spawned hb hi hreg => exact h.spawn hb hi hreg
  | failed hb hi => exact h.fail hb
  | @looped _ i hb hi =>
    obtain ⟨hle, hstarted, hmanager⟩ := h.spawning i hb
    obtain rfl : i = n := le_antisymm hle hi
    refine h.advance (by simp [hb]) (by simp) (by simp) ⟨hstarted, hmanager⟩ fun j _ st => ?_
    rw [hb]
    simp [delivered, Stage.order]
  | sent hb hi hch hbound hitems => exact h.send hb hch hbound hitems
  | @disconnected _ st i hb hi hgone =>
    have hlive : s.builder ≠ .panicked := by simp [hb]
    have hstarted := (h.spawned (by simp [hb]) hlive).1
    rw [(h.link i st (h.alive ((hstarted i).2 hi) hlive)).receiver] at hgone
    cases hgone
  | @round _ st k hb hi =>
    have hlive : s.builder ≠ .panicked := by simp [hb]
    refine h.advance hlive ?_ ?_ (h.spawned (by simp [hb]) hlive) fun j hj st' => ?_
    · cases st <;> simp [afterRound]
    · cases st <;> simp [afterRound]
    · rw [hb]
      exact delivered_afterRound hi st j hj st'
  | received ht hitems hch hbound => exact h.recv ht hitems hch hbound
  | died ht hitems hsender => exact h.die ht hitems hsender

theorem inv (h : (startup n value).Reachable s) : Inv n value s := by
  refine h.invariant ?_ fun s a s' hI hs => hI.next (next_of_step hs)
  rintro s rfl
  exact .new

/-! ### The end of the start -/

/-- Nobody can move. -/
def AtRest (n : ℕ) (value : Stage → ℕ) (s : Startup ι) : Prop := ∀ a, s.step n value a = none

/-- A thread whose value has been sent, or whose sender is gone, can move. -/
theorem AtRest.delivered (h : AtRest n value s) (hI : Inv n value s)
    (ht : s.thread i = .waiting st) :
    ¬ delivered s.builder st i ∧ s.builder ≠ .panicked := by
  have hlive : Alive (s.thread i) := by simp [ht, Alive]
  have hthread := h (.thread i)
  rw [← hI.sender i st hlive]
  by_contra hsender
  rw [Bool.not_eq_true] at hsender
  cases hrecv : (s.channel (st, i)).recv with
  | none => simp [step, ht, hrecv, hsender] at hthread
  | some p => simp [step, ht, hrecv] at hthread

/-- The builder is done. -/
theorem AtRest.builder (h : AtRest n value s) (hI : Inv n value s) :
    s.builder = .returned ∨ s.builder = .panicked := by
  have hbuilder := h (.builder true)
  cases hb : s.builder with
  | returned | panicked => simp
  | spawning i =>
    simp only [step, hb] at hbuilder
    split at hbuilder
    · split at hbuilder <;> simp at hbuilder
    · cases hbuilder
  | sending st i =>
    have hlive : s.builder ≠ .panicked := by simp [hb]
    by_cases hi : i < n
    · have hlink := hI.link i st (hI.alive (((hI.spawned (by simp [hb]) hlive).1 i).2 hi) hlive)
      have hempty := hlink.empty (by simp [hb, Startup.delivered])
      obtain ⟨ch, hch⟩ := SyncChannel.send_ne_error (value st) hlink.receiver
        (by rw [hempty, hlink.bound]; decide)
      simp [step, hb, hi, hch] at hbuilder
    · simp [step, hb, hi] at hbuilder

theorem Inv.cell_of_running (h : Inv n value s) (ht : s.thread i = .running) (st : Stage) :
    s.cell (st, i) = some (value st) :=
  ((h.link i st (by simp [ht, Alive])).taken (by simp [ht, received])).2

theorem Inv.not_running_of_panicked (h : Inv n value s) (hb : s.builder = .panicked) (i : ℕ) :
    s.thread i ≠ .running := by
  intro ht
  have hsent := (h.link i .taskManager (by simp [ht, Alive])).order (by simp [ht, received])
  simp [hb, delivered] at hsent

theorem Inv.alive_of_returned (h : Inv n value s) (hb : s.builder = .returned) :
    TaskManager.build n = .ok s.tm ∧ ∀ i < n, Alive (s.thread i) := by
  have hlive : s.builder ≠ .panicked := by simp [hb]
  obtain ⟨hstarted, hmanager⟩ := h.spawned (by simp [hb]) hlive
  exact ⟨hmanager, fun i hi => h.alive ((hstarted i).2 hi) hlive⟩

/-- At every moment of the start: the channel that the builder is about to send on is empty and has
its receiver, so the send neither waits nor fails; an executor runs only with the builder's task
manager, pool and runtime in its cells; a thread ends only after the builder has panicked, and then
none ever runs; and when `build` has its runtime, all workers are registered and their threads
live. -/
theorem startup_safe (h : (startup n value).Reachable s) :
    (∀ st i, s.builder = .sending st i → i < n →
        (s.channel (st, i)).items = [] ∧ (s.channel (st, i)).receiver = true) ∧
      (∀ i, s.thread i = .running → ∀ st, s.cell (st, i) = some (value st)) ∧
      (∀ i, s.thread i = .ended → s.builder = .panicked) ∧
      (s.builder = .panicked → ∀ i, s.thread i ≠ .running) ∧
      (s.builder = .returned → TaskManager.build n = .ok s.tm ∧ ∀ i < n, Alive (s.thread i)) := by
  have hI := inv h
  refine ⟨fun st i hb hi => ?_, fun i => hI.cell_of_running, hI.ended, hI.not_running_of_panicked,
    hI.alive_of_returned⟩
  have hlive : s.builder ≠ .panicked := by simp [hb]
  have hlink := hI.link i st (hI.alive (((hI.spawned (by simp [hb]) hlive).1 i).2 hi) hlive)
  exact ⟨hlink.empty (by simp [hb, delivered]), hlink.receiver⟩

/-- The first of two workers has the task manager when the second thread cannot be started. -/
def secondFails : List StartupLabel :=
  [.builder true, .builder false, .thread 0]

theorem startup_safe_secondFails : ∃ s : Startup ℕ, s.thread 0 = .ended ∧
    s.builder = .panicked := by
  obtain ⟨s, hs, hended⟩ := TransitionSystem.exists_reachableUnder
    (S := startup (ι := ℕ) 2 Stage.order) (C := fun _ _ => True) rfl secondFails
    (p := fun s => s.thread 0 = .ended) (by decide)
  exact ⟨s, hended, (startup_safe hs).2.2.1 0 hended⟩

/-- The steps that the builder still has to make. -/
def builderLeft (n : ℕ) : BuilderPc → ℕ
  | .spawning k => n - k + 1 + 3 * (n + 1)
  | .sending st k => n - k + 1 + (2 - st.order) * (n + 1)
  | .returned | .panicked => 0

/-- The steps that a thread still has to make; one counts for its start. -/
def threadLeft : ThreadPc → ℕ
  | .absent => 4
  | .waiting st => 3 - st.order
  | .running | .ended => 0

def left (n : ℕ) (s : Startup ι) : ℕ :=
  builderLeft n s.builder + ∑ i ∈ Finset.range n, threadLeft (s.thread i)

/-- The thread moves closer to its end. -/
theorem sum_threadLeft_lt {f : ℕ → ThreadPc} {p : ThreadPc} (hi : i < n)
    (hp : threadLeft p < threadLeft (f i)) :
    ∑ j ∈ Finset.range n, threadLeft (Function.update f i p j) <
      ∑ j ∈ Finset.range n, threadLeft (f j) := by
  have hsum := Census.sum_update threadLeft f (Finset.mem_range.2 hi) p
  omega

theorem left_lt (h : Inv n value s) (hs : Next n value s a s') : left n s' < left n s := by
  unfold left
  cases hs with
  | @spawned i tm hb hi hreg =>
    have habsent : s.thread i = .absent := by
      by_contra hne
      exact lt_irrefl i (((h.spawning i hb).2.1 i).1 hne)
    have hlt := sum_threadLeft_lt (f := s.thread) (p := .waiting .taskManager) hi
      (by simp [habsent, threadLeft, Stage.order])
    rw [hb]
    simp only [builderLeft]
    omega
  | failed hb hi =>
    rw [hb]
    simp only [unwind, dropThread, openChannels, builderLeft]
    omega
  | looped hb hi =>
    rw [hb]
    simp only [builderLeft, Stage.order]
    omega
  | sent hb hi =>
    rw [hb]
    simp only [builderLeft]
    omega
  | disconnected hb =>
    rw [hb]
    simp only [unwind, builderLeft]
    omega
  | @round _ st k hb hi =>
    rw [hb]
    cases st <;> simp only [afterRound, builderLeft, Stage.order] <;> omega
  | @received st i v ch ht =>
    have hlt := sum_threadLeft_lt (f := s.thread) (p := afterRecv st)
      (h.bounded i (by simp [ht])) (by cases st <;> simp [ht, afterRecv, threadLeft, Stage.order])
    simp only
    omega
  | @died st i ht =>
    have hlt := sum_threadLeft_lt (f := s.thread) (p := .ended)
      (h.bounded i (by simp [ht])) (by cases st <;> simp [ht, threadLeft, Stage.order])
    simp only [dropThread]
    omega

/-- The start always ends, after at most `8 * n + 4` steps. Then either `build` has its runtime, the
workers `0..n` are registered with its task manager and all of them run with its values in their
cells, or the builder has panicked and no thread is left. -/
theorem startup_completes {as : List StartupLabel}
    (hrun : (startup (ι := ι) n value).run new as = some s) : as.length ≤ 8 * n + 4 ∧
      (AtRest n value s →
        (s.builder = .returned ∧ TaskManager.build n = .ok s.tm ∧
            ∀ i < n, s.thread i = .running ∧ ∀ st, s.cell (st, i) = some (value st)) ∨
          (s.builder = .panicked ∧ ∀ i, s.thread i = .absent ∨ s.thread i = .ended)) := by
  have hreach : (startup (ι := ι) n value).Reachable s :=
    Reachable.run (.init rfl) hrun
  have hI := inv hreach
  refine ⟨?_, fun hrest => ?_⟩
  · have hlen := length_add_le (S := startup n value) (I := Inv n value) (m := left n)
      (fun _ _ _ h hs => h.next (next_of_step hs))
      (fun _ _ _ h hs => left_lt h (next_of_step hs)) Inv.new hrun
    have hnew : left n (new : Startup ι) = 8 * n + 4 := by
      simp only [left, new, builderLeft, threadLeft, Finset.sum_const, Finset.card_range,
        smul_eq_mul]
      omega
    omega
  · rcases hrest.builder hI with hb | hb
    · obtain ⟨hmanager, halive⟩ := hI.alive_of_returned hb
      refine .inl ⟨hb, hmanager, fun i hi => ?_⟩
      have hruns : s.thread i = .running := by
        obtain ⟨habsent, hended⟩ := halive i hi
        cases ht : s.thread i with
        | absent => exact absurd ht habsent
        | ended => exact absurd ht hended
        | running => rfl
        | waiting st => exact absurd (by simp [hb, delivered]) (hrest.delivered hI ht).1
      exact ⟨hruns, hI.cell_of_running hruns⟩
    · refine .inr ⟨hb, fun i => ?_⟩
      cases ht : s.thread i with
      | absent => simp
      | ended => simp
      | running => exact absurd ht (hI.not_running_of_panicked hb i)
      | waiting st => exact absurd hb (hrest.delivered hI ht).2

/-- One worker, which is started before the builder goes on. -/
def oneWorker : List StartupLabel :=
  [.builder true, .builder true, .builder true, .thread 0, .builder true, .builder true, .thread 0,
    .builder true, .builder true, .thread 0, .builder true]

theorem startup_completes_oneWorker : oneWorker.length ≤ 12 ∧ ∃ s : Startup ℕ,
    s.builder = .returned ∧ s.thread 0 = .running ∧ s.cell (.pool, 0) = some 1 := by
  obtain ⟨s, hs⟩ := Option.isSome_iff_exists.1
    (show ((startup (ι := ℕ) 1 Stage.order).run new oneWorker).isSome = true by decide)
  obtain ⟨hlen, hrest⟩ := startup_completes hs
  have hend : ((startup (ι := ℕ) 1 Stage.order).run new oneWorker).all (fun s =>
      s.builder = .returned ∧ s.thread 0 = .running) = true := by decide
  rw [hs, Option.all_some, decide_eq_true_eq] at hend
  obtain ⟨hb, ht⟩ := hend
  have hstuck : AtRest 1 Stage.order s := by
    rintro (ok | i)
    · simp [step, hb]
    · by_cases hi : i = 0
      · subst hi
        simp [step, ht]
      · have habsent : s.thread i = .absent := by
          by_contra hne
          exact hi (Nat.lt_one_iff.1 ((inv (Reachable.run (.init rfl) hs)).bounded i hne))
        simp [step, habsent]
  rcases hrest hstuck with ⟨-, -, hcells⟩ | ⟨hpanicked, -⟩
  · exact ⟨hlen, s, hb, ht, (hcells 0 (by decide)).2 .pool⟩
  · rw [hb] at hpanicked
    cases hpanicked

/-- The task manager that a running thread has is the one that `startWorkers` gives it. -/
theorem cells_startWorkers {θ : Type*} [DecidableEq θ] (h : (startup n value).Reachable s)
    {s₀ : ThreadLocals θ} {t : θ} (b : BuildCall) {threads : List θ}
    (hvalue : value .taskManager = (s₀.getTaskManager t).1) {u : θ} (hu : threads[i]? = some u)
    (ht : s.thread i = .running) :
    (s₀.startWorkers t b threads).taskManager u = s.cell (.taskManager, i) := by
  rw [(inv h).cell_of_running ht, hvalue]
  have hmem : u ∈ threads := List.mem_of_getElem? hu
  simp [ThreadLocals.startWorkers, hmem]

end Startup

end Hooch
