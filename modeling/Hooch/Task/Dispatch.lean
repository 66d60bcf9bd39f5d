import Hooch.Lib.TransitionSystem
import Hooch.Task.Manager

/-!
# Dispatching tasks to executors

The task manager together with the loops of its executors. Any party registers a task at any
moment, the abort flags change at any moment, and an executor receives a task from its channel,
runs it and calls `executor_ready`. Each call of the task manager is one step.

The queues hold registrations, not tasks: a task is registered again by each of its wakes, and
the number of a registration tells one from another.

* `dispatch`: the system, and `Next`, what a step of it can do;
* `Balanced`: every executor has one token, which is in the queue of waiting executors, in its
  channel, or with the executor itself;
* `one_place`: the same over the runs of the system, and what follows for the calls.
-/

namespace Hooch

namespace TaskManager

variable {ι : Type*} {ids : List ExecutorId} {gone : ExecutorId → Bool} {held : ExecutorId → ℕ}
  {tm tm' : TaskManager ι} {has_aborted : ι → Bool} {log : List (Action ι)}

/-! ### One token for each executor -/

/-- The executors `ids` are connected, up to those that are gone, and of each of them there is
one token: in the queue of waiting executors, in its channel, or held by the executor itself,
which takes it along when it goes. -/
structure Balanced (ids : List ExecutorId) (gone : ExecutorId → Bool) (held : ExecutorId → ℕ)
    (tm : TaskManager ι) : Prop where
  connected : ∀ e ∈ ids, gone e = false → ∃ ch, tm.executors e = some ch ∧ ch.receiver = true ∧
    ch.queue.bound = maxQueuedTasks
  gone_held : ∀ e, gone e = true → held e = 1
  tasks : ∀ e, ExecutorTask.finished ∉ tm.inbox e
  tokens : ∀ e, tm.waitingExecutors.items.count e + (tm.inbox e).length + held e =
    if e ∈ ids then 1 else 0
  room : ids.length ≤ tm.waitingExecutors.bound

/-- Whoever waits is one of `ids`, and its channel is empty. -/
theorem Balanced.waiting (h : Balanced ids gone held tm) {e : ExecutorId}
    (he : e ∈ tm.waitingExecutors.items) : e ∈ ids ∧ tm.inbox e = [] ∧ held e = 0 := by
  have hcount := List.count_pos_iff.2 he
  have htok := h.tokens e
  split at htok
  · rename_i hids
    exact ⟨hids, List.eq_nil_of_length_eq_zero (by omega), by omega⟩
  · omega

theorem Balanced.holding (h : Balanced ids gone held tm) {e : ExecutorId} (he : 0 < held e) :
    e ∈ ids ∧ e ∉ tm.waitingExecutors.items ∧ tm.inbox e = [] ∧ held e = 1 := by
  have htok := h.tokens e
  split at htok
  · rename_i hids
    exact ⟨hids, List.count_eq_zero.1 (by omega), List.eq_nil_of_length_eq_zero (by omega),
      by omega⟩
  · omega

/-- No more executors wait than there are. -/
theorem Balanced.waiting_le (h : Balanced ids gone held tm) :
    tm.waitingExecutors.items.length ≤ ids.length := by
  refine (List.nodup_iff_count_le_one.2 fun e => ?_).subperm (fun e he => (h.waiting he).1)
    |>.length_le
  have htok := h.tokens e
  split at htok <;> omega

/-- An executor that holds its token does not wait, so there is room for it. -/
theorem Balanced.waiting_lt (h : Balanced ids gone held tm) {e : ExecutorId} (he : 0 < held e) :
    tm.waitingExecutors.items.length < ids.length := by
  obtain ⟨hids, hnot, -, -⟩ := h.holding he
  have hnodup : (e :: tm.waitingExecutors.items).Nodup := by
    refine List.nodup_cons.2 ⟨hnot, List.nodup_iff_count_le_one.2 fun e' => ?_⟩
    have htok := h.tokens e'
    split at htok <;> omega
  have hsub : e :: tm.waitingExecutors.items ⊆ ids := by
    rintro e' he'
    rcases List.mem_cons.1 he' with rfl | hw
    · exact hids
    · exact (h.waiting hw).1
  exact (hnodup.subperm hsub).length_le

/-- No channel holds more than one message. -/
theorem Balanced.inbox_le (h : Balanced ids gone held tm) (e : ExecutorId) :
    (tm.inbox e).length ≤ 1 := by
  have htok := h.tokens e
  split at htok <;> omega

theorem Balanced.new (hids : ids.Nodup)
    (h : registerExecutors ids (.new : TaskManager ι) = .ok tm) :
    Balanced ids (fun _ => false) (fun _ => 0) tm := by
  obtain ⟨-, hitems, hbound, hmap⟩ := registerExecutors_eq_ok h
  have hinbox : ∀ e, tm.inbox e = [] := by
    intro e
    unfold inbox
    rw [hmap e]
    split_ifs <;> rfl
  refine ⟨fun e he _ => ⟨_, by rw [hmap e, if_pos he], rfl, rfl⟩, by simp, fun e => ?_,
    fun e => ?_, ?_⟩
  · simp [hinbox e]
  · rw [hitems, hinbox e]
    simp [TaskManager.new, List.Nodup.count hids]
  · have := tm.waitingExecutors.length_le
    rw [hitems] at this
    simpa [TaskManager.new] using this

/-- A message more in one channel, all channels still connected and free of `Finished`. -/
theorem Balanced.update (h : Balanced ids gone held tm) {e : ExecutorId}
    {ch ch' : SyncChannel (ExecutorTask ι)} (hch : tm.executors e = some ch)
    (hex : tm'.executors = Function.update tm.executors e (some ch'))
    (hrecv : ch'.receiver = ch.receiver) (hbound : ch'.queue.bound = ch.queue.bound) :
    ∀ e' ∈ ids, gone e' = false → ∃ ch, tm'.executors e' = some ch ∧ ch.receiver = true ∧
      ch.queue.bound = maxQueuedTasks := by
  intro e' he' hgone
  rw [hex]
  obtain ⟨c, hc, hr, hb⟩ := h.connected e' he' hgone
  by_cases he : e' = e
  · subst he
    rw [hch] at hc
    cases hc
    exact ⟨ch', by simp, by rw [hrecv, hr], by rw [hbound, hb]⟩
  · exact ⟨c, by simpa [he] using hc, hr, hb⟩

/-! ### Moving a token -/

/-- Whoever holds its token is connected, unless it took the token along. -/
theorem Balanced.channel (h : Balanced ids gone held tm) {e : ExecutorId} (hgone : gone e = false)
    (he : 0 < held e) : ∃ ch, tm.executors e = some ch ∧ ch.receiver = true ∧
      ch.items.length < ch.queue.bound := by
  obtain ⟨hids, -, hempty, -⟩ := h.holding he
  obtain ⟨ch, hch, hr, hb⟩ := h.connected e hids hgone
  rw [inbox_eq hch] at hempty
  exact ⟨ch, hch, hr, by rw [hempty, hb]; exact maxQueuedTasks_pos⟩

/-- Where an executor's token is held, a task can be sent to it. -/
theorem Balanced.send_ok (h : Balanced ids gone held tm) {e : ExecutorId} (hgone : gone e = false)
    (he : 0 < held e) (t : ι) : ∃ tm', tm.sendTask e t = .ok tm' := by
  obtain ⟨ch, hch, hr, hroom⟩ := h.channel hgone he
  exact sendTask_ok hch hr hroom t

/-- And there is room for it to wait. -/
theorem Balanced.push_ok (h : Balanced ids gone held tm) {e : ExecutorId} (he : 0 < held e) :
    ∃ q, tm.waitingExecutors.push e = some q := by
  rw [← Option.isSome_iff_exists, ← Option.ne_none_iff_isSome, Ne, BoundedQueue.push_eq_none_iff]
  have hlt := h.waiting_lt he
  have hroom := h.room
  omega

theorem Balanced.gone_update (h : Balanced ids gone held tm) {e : ExecutorId} {n : ℕ}
    (he : gone e = true → n = 1) : ∀ e', gone e' = true → Function.update held e n e' = 1 := by
  intro e' hgone
  by_cases hee : e' = e
  · subst hee
    rw [Function.update_self, he hgone]
  · rw [Function.update_of_ne hee]
    exact h.gone_held e' hgone

/-- Taking an executor out of the queue. -/
theorem Balanced.take (h : Balanced ids gone held tm) {e : ExecutorId}
    {q : BoundedQueue ExecutorId} (hpop : tm.waitingExecutors.pop = some (e, q)) :
    gone e = false ∧ held e = 0 ∧
      Balanced ids gone (Function.update held e 1) { tm with waitingExecutors := q } := by
  obtain ⟨hitems, hbound⟩ := BoundedQueue.pop_eq_some hpop
  obtain ⟨hids, hempty, hzero⟩ := h.waiting (e := e) (by rw [hitems]; simp)
  refine ⟨?_, hzero, h.connected, h.gone_update fun _ => rfl, h.tasks, fun e' => ?_,
    h.room.trans hbound.ge⟩
  · rw [← Bool.not_eq_true]
    intro hgone
    have := h.gone_held e hgone
    omega
  · rw [← h.tokens e', hitems, inbox_queues]
    by_cases hee : e' = e
    · subst hee
      simp [hzero]
      omega
    · simp [hee, List.count_cons_of_ne (Ne.symm hee)]

/-- Sending an executor a task. -/
theorem Balanced.give (h : Balanced ids gone held tm) {e : ExecutorId} (hgone : gone e = false)
    (he : 0 < held e) {t : ι} (hsend : tm.sendTask e t = .ok tm') :
    Balanced ids gone (Function.update held e 0) tm' := by
  obtain ⟨-, -, -, hone⟩ := h.holding he
  obtain ⟨ch, ch', hch, hs, rfl⟩ := sendTask_eq_ok hsend
  obtain ⟨hr, hr', hb, hsent⟩ := SyncChannel.send_eq_ok hs
  refine ⟨h.update hch rfl (hr'.trans hr.symm) hb,
    h.gone_update fun hg => absurd hg (by simp [hgone]), fun e' => ?_, fun e' => ?_, h.room⟩
  · rw [inbox_setChannel]
    have htasks := h.tasks e'
    by_cases hee : e' = e
    · subst hee
      rw [inbox_eq hch] at htasks
      simpa [hsent] using htasks
    · simpa [hee] using htasks
  · rw [inbox_setChannel, ← h.tokens e']
    by_cases hee : e' = e
    · subst hee
      simp [hsent, inbox_eq hch, hone]
      omega
    · simp [hee]

/-- Letting an executor wait. -/
theorem Balanced.park (h : Balanced ids gone held tm) {e : ExecutorId} (hgone : gone e = false)
    (he : 0 < held e) {q : BoundedQueue ExecutorId} (hpush : tm.waitingExecutors.push e = some q) :
    Balanced ids gone (Function.update held e 0) { tm with waitingExecutors := q } := by
  obtain ⟨-, -, -, hone⟩ := h.holding he
  obtain ⟨-, hbound, hitems⟩ := BoundedQueue.push_eq_some hpush
  refine ⟨h.connected, h.gone_update fun hg => absurd hg (by simp [hgone]), h.tasks, fun e' => ?_,
    h.room.trans hbound.ge⟩
  rw [hitems, ← h.tokens e', inbox_queues]
  by_cases hee : e' = e
  · subst hee
    simp [hone]
    omega
  · simp [hee, Ne.symm hee]

/-- The tasks that wait carry no token. -/
theorem Balanced.setTasks (h : Balanced ids gone held tm) (q : BoundedQueue ι) :
    Balanced ids gone held { tm with waitingTasks := q } :=
  ⟨h.connected, h.gone_held, h.tasks, h.tokens, h.room⟩

/-! ### The calls -/

theorem Balanced.registration (h : Balanced ids gone held tm) {t : ι}
    (hreg : Registration has_aborted tm t tm' log) : Balanced ids gone held tm' := by
  cases hreg with
  | skipped ha => exact h
  | queued ha q hnone hpush => exact h.setTasks q
  | sent ha exec q ch ch' hpop hch hsend =>
    obtain ⟨hgone, hzero, htaken⟩ := h.take hpop
    have hgiven := htaken.give hgone (by simp) (sendTask_of_send hch hsend)
    rwa [Function.update_idem, ← hzero, Function.update_eq_self] at hgiven

theorem Balanced.readying (h : Balanced ids gone held tm) {e : ExecutorId}
    (hgone : gone e = false) (he : 0 < held e) (hready : Readying has_aborted tm e tm' log) :
    Balanced ids gone (Function.update held e 0) tm' := by
  cases hready with
  | sent skipped task q ch ch' hskipped ha hitems hbound hch hsend =>
    exact (h.setTasks q).give hgone he (sendTask_of_send hch hsend)
  | parked skipped q q' hskipped hitems hempty hbound hpush =>
    exact (h.setTasks q).park hgone he hpush

/-- What a registration that fails has found. -/
theorem Balanced.register_fault (h : Balanced ids gone held tm) {t : ι} {f : Fault}
    (hf : tm.registerOrExecute has_aborted t = .error f) : f = .tasksFull ∧
      has_aborted t = false ∧ tm.waitingExecutors.pop = none ∧ tm.waitingTasks.push t = none := by
  unfold registerOrExecute at hf
  split at hf
  · cases hf
  · rename_i habort
    split at hf
    · rename_i exec q hpop
      obtain ⟨hgone, -, htaken⟩ := h.take hpop
      obtain ⟨tm₁, htm₁⟩ := htaken.send_ok hgone (by simp) t
      rw [htm₁] at hf
      cases hf
    · rename_i hpop
      split at hf
      · cases hf
      · rename_i hpush
        cases hf
        exact ⟨rfl, by simpa using habort, hpop, hpush⟩

/-- Registering a task fails only on a full queue of waiting tasks. -/
theorem Balanced.register_error (h : Balanced ids gone held tm) {t : ι} {f : Fault}
    (hf : tm.registerOrExecute has_aborted t = .error f) : f = .tasksFull :=
  (h.register_fault hf).1

/-- An executor that holds its token gets through `executor_ready`. -/
theorem Balanced.ready_ok (h : Balanced ids gone held tm) (has_aborted : ι → Bool)
    {e : ExecutorId} (hgone : gone e = false) (he : 0 < held e) :
    ∃ p, tm.executorReady has_aborted e = .ok p := by
  unfold executorReady
  simp only
  split
  · rename_i task hp
    obtain ⟨tm₁, htm₁⟩ := (h.setTasks (popLive has_aborted tm.waitingTasks.items.length
      tm.waitingTasks).rest).send_ok hgone he task
    rw [htm₁]
    exact ⟨_, rfl⟩
  · obtain ⟨q, hq⟩ := h.push_ok he
    rw [hq]
    exact ⟨_, rfl⟩

/-- Receiving a message takes the token out of the channel. -/
theorem Balanced.recv (h : Balanced ids gone held tm) {e : ExecutorId} {x : ExecutorTask ι}
    (hx : tm.recvTask e = some (x, tm')) :
    (∃ t, x = .task t) ∧ held e = 0 ∧ tm.inbox e = [x] ∧ tm'.inbox e = [] ∧
      Balanced ids gone (Function.update held e 1) tm' := by
  obtain ⟨ch, ch', hch, hrecv, rfl⟩ := recvTask_eq_some hx
  obtain ⟨hitems, hr, hb⟩ := SyncChannel.recv_eq_some hrecv
  have htok := h.tokens e
  have hmem := h.tasks e
  have hone := h.inbox_le e
  rw [inbox_eq hch, hitems] at htok hmem hone
  simp only [List.length_cons] at htok hone
  have hnil : ch'.items = [] := List.eq_nil_of_length_eq_zero (by omega)
  have hheld : held e = 0 := by split at htok <;> omega
  refine ⟨?_, hheld, by rw [inbox_eq hch, hitems, hnil], by rw [inbox_setChannel]; simp [hnil],
    h.update hch rfl hr hb, fun e' he' => ?_, fun e' => ?_, fun e' => ?_, h.room⟩
  · cases x with
    | task t => exact ⟨t, rfl⟩
    | finished => simp at hmem
  · by_cases hee : e' = e
    · subst hee
      simp
    · rw [Function.update_of_ne hee]
      exact h.gone_held e' he'
  · rw [inbox_setChannel]
    by_cases he' : e' = e
    · subst he'
      simp [hnil]
    · simpa [he'] using h.tasks e'
  · rw [inbox_setChannel, ← h.tokens e']
    by_cases he' : e' = e
    · subst he'
      simp [inbox_eq hch, hitems, hnil, hheld]
    · simp [he']

/-- An executor that goes takes its token along, so nothing is lost with its channel. -/
theorem Balanced.close (h : Balanced ids gone held tm) {e : ExecutorId} (he : 0 < held e) :
    (tm.closeChannel e).inbox = tm.inbox ∧
      Balanced ids (Function.update gone e true) held (tm.closeChannel e) := by
  obtain ⟨hids, hnot, hempty, hone⟩ := h.holding he
  have hinbox : (tm.closeChannel e).inbox = tm.inbox := by
    funext e'
    by_cases hee : e' = e
    · subst hee
      rw [hempty]
      cases hch : tm.executors e' <;> simp [inbox, closeChannel, hch]
    · simp [inbox, closeChannel, hee]
  refine ⟨hinbox, fun e' he' hgone => ?_, fun e' hgone => ?_, fun e' => ?_, fun e' => ?_, h.room⟩
  · have hne : e' ≠ e := by
      rintro rfl
      simp at hgone
    simpa [closeChannel, hne] using h.connected e' he' (by simpa [hne] using hgone)
  · by_cases hee : e' = e
    · subst hee
      exact hone
    · exact h.gone_held e' (by simpa [hee] using hgone)
  · rw [hinbox]
    exact h.tasks e'
  · rw [hinbox]
    exact h.tokens e'

end TaskManager

/-- A registration of a task: the number of the registration, and the task. -/
structure Registered (τ : Type*) where
  number : ℕ
  task : τ
  deriving DecidableEq

/-- Where the loop of `Executor::run` stands. -/
inductive Loop (ι : Type*)
  /-- At `recv`. -/
  | recv
  /-- In `forward_task`. -/
  | running (t : ι)
  /-- At `executor_ready`. -/
  | ready
  /-- Returned, on `ExecutorTask::Finished`. -/
  | stopped
  deriving DecidableEq

/-- The executor is between `recv` and the end of `executor_ready`. -/
def Loop.busy {ι : Type*} : Loop ι → ℕ
  | .recv | .stopped => 0
  | .running _ | .ready => 1

theorem Loop.busy_update {ι : Type*} {l : ExecutorId → Loop ι} {e : ExecutorId} {x : Loop ι} :
    (fun e' => (Function.update l e x e').busy) =
      Function.update (fun e' => (l e').busy) e x.busy := by
  funext e'
  exact Function.apply_update (fun _ => Loop.busy) l e x e'

/-- The task manager, the abort flags, the executors, and what happened so far. -/
structure Dispatch (τ : Type*) where
  tm : TaskManager (Registered τ)
  abort : τ → Bool
  loop : ExecutorId → Loop (Registered τ)
  registered : List (Registered τ)
  log : List (Action (Registered τ))
  /-- The calls that did not return. -/
  faults : List Fault

namespace Dispatch

variable {τ : Type*}

/-- The steps. -/
inductive Label (τ : Type*)
  | register (t : τ)
  | setAbort (t : τ) (value : Bool)
  | recv (e : ExecutorId)
  | run (e : ExecutorId)
  | ready (e : ExecutorId)

def hasAborted (s : Dispatch τ) (r : Registered τ) : Bool := s.abort r.task

/-- The registration a call makes now. -/
def fresh (s : Dispatch τ) (t : τ) : Registered τ := ⟨s.registered.length, t⟩

/-- One step. A call that does not return leaves the task manager as it was and is recorded;
`one_place` says which of them there are. -/
def step [DecidableEq τ] (s : Dispatch τ) : Label τ → Option (Dispatch τ)
  | .register t =>
      match s.tm.registerOrExecute s.hasAborted (s.fresh t) with
      | .ok (tm, log) =>
          some { s with
            tm := tm
            registered := s.registered ++ [s.fresh t]
            log := s.log ++ log }
      | .error f =>
          some { s with registered := s.registered ++ [s.fresh t], faults := s.faults ++ [f] }
  | .setAbort t value => some { s with abort := Function.update s.abort t value }
  | .recv e =>
      match s.loop e, s.tm.recvTask e with
      | .recv, some (.task r, tm) =>
          some { s with tm := tm, loop := Function.update s.loop e (.running r) }
      | .recv, some (.finished, tm) =>
          some { s with tm := tm, loop := Function.update s.loop e .stopped }
      | _, _ => none
  | .run e =>
      match s.loop e with
      | .running _ => some { s with loop := Function.update s.loop e .ready }
      | _ => none
  | .ready e =>
      match s.loop e with
      | .ready =>
          match s.tm.executorReady s.hasAborted e with
          | .ok (tm, log) =>
              some { s with
                tm := tm
                loop := Function.update s.loop e .recv
                log := s.log ++ log }
          | .error f => some { s with faults := s.faults ++ [f] }
      | _ => none

end Dispatch

/-- The runtime whose executors `ids` are registered before the first task. -/
def dispatch {τ : Type*} [DecidableEq τ] (ids : List ExecutorId) :
    TransitionSystem (Dispatch τ) (Dispatch.Label τ) where
  init s := ∃ tm abort, TaskManager.registerExecutors ids .new = .ok tm ∧ ids.Nodup ∧
    s = ⟨tm, abort, fun _ => .recv, [], [], []⟩
  step := Dispatch.step

namespace Dispatch

variable {τ : Type*} [DecidableEq τ] {ids : List ExecutorId} {s s' : Dispatch τ}

/-- What a step can do. -/
inductive Next (s : Dispatch τ) : Label τ → Dispatch τ → Prop
  | registered {t : τ} {tm : TaskManager (Registered τ)} {log : List (Action (Registered τ))}
      (h : s.tm.Registration s.hasAborted (s.fresh t) tm log) :
      Next s (.register t) { s with
        tm := tm
        registered := s.registered ++ [s.fresh t]
        log := s.log ++ log }
  | registerFault {t : τ} {f : Fault}
      (h : s.tm.registerOrExecute s.hasAborted (s.fresh t) = .error f) :
      Next s (.register t)
        { s with registered := s.registered ++ [s.fresh t], faults := s.faults ++ [f] }
  | setAbort {t : τ} {value : Bool} :
      Next s (.setAbort t value) { s with abort := Function.update s.abort t value }
  | recv {e : ExecutorId} {r : Registered τ} {tm : TaskManager (Registered τ)}
      (hloop : s.loop e = .recv) (h : s.tm.recvTask e = some (.task r, tm)) :
      Next s (.recv e) { s with tm := tm, loop := Function.update s.loop e (.running r) }
  | finish {e : ExecutorId} {tm : TaskManager (Registered τ)}
      (hloop : s.loop e = .recv) (h : s.tm.recvTask e = some (.finished, tm)) :
      Next s (.recv e) { s with tm := tm, loop := Function.update s.loop e .stopped }
  | run {e : ExecutorId} {r : Registered τ} (hloop : s.loop e = .running r) :
      Next s (.run e) { s with loop := Function.update s.loop e .ready }
  | readied {e : ExecutorId} {tm : TaskManager (Registered τ)}
      {log : List (Action (Registered τ))} (hloop : s.loop e = .ready)
      (h : s.tm.Readying s.hasAborted e tm log) :
      Next s (.ready e) { s with
        tm := tm
        loop := Function.update s.loop e .recv
        log := s.log ++ log }
  | readyFault {e : ExecutorId} {f : Fault} (hloop : s.loop e = .ready)
      (h : s.tm.executorReady s.hasAborted e = .error f) :
      Next s (.ready e) { s with faults := s.faults ++ [f] }

theorem next_of_step {a : Label τ} (h : s.step a = some s') : Next s a s' := by
  cases a with
  | register t =>
    simp only [step] at h
    split at h
    · rename_i hreg
      cases h
      exact .registered (TaskManager.registration hreg)
    · rename_i hreg
      cases h
      exact .registerFault hreg
  | setAbort t value =>
    cases h
    exact .setAbort
  | recv e =>
    simp only [step] at h
    split at h
    · rename_i hloop hrecv
      cases h
      exact .recv hloop hrecv
    · rename_i hloop hrecv
      cases h
      exact .finish hloop hrecv
    · cases h
  | run e =>
    simp only [step] at h
    split at h
    · rename_i hloop
      cases h
      exact .run hloop
    · cases h
  | ready e =>
    simp only [step] at h
    split at h
    · rename_i hloop
      split at h
      · rename_i hready
        cases h
        exact .readied hloop (TaskManager.readying hready)
      · rename_i hready
        cases h
        exact .readyFault hloop hready
    · cases h

/-! ### Every executor is in one place -/

/-- The tokens that the executors hold. -/
def held (s : Dispatch τ) (e : ExecutorId) : ℕ := (s.loop e).busy

/-- The invariant of the tokens. -/
structure Accounted (ids : List ExecutorId) (s : Dispatch τ) : Prop where
  balanced : s.tm.Balanced ids (fun _ => false) s.held
  faults : ∀ f ∈ s.faults, f = .tasksFull

theorem Accounted.next {a : Label τ} (h : Accounted ids s) (hs : Next s a s') :
    Accounted ids s' := by
  obtain ⟨hbal, hfaults⟩ := h
  cases hs with
  | registered hreg => exact ⟨hbal.registration hreg, hfaults⟩
  | registerFault hreg =>
    refine ⟨hbal, fun f hf => ?_⟩
    rcases List.mem_append.1 hf with hf | hf
    · exact hfaults f hf
    · rw [List.mem_singleton.1 hf]
      exact hbal.register_error hreg
  | setAbort => exact ⟨hbal, hfaults⟩
  | recv hloop hrecv =>
    refine ⟨?_, hfaults⟩
    unfold held
    rw [Loop.busy_update]
    exact (hbal.recv hrecv).2.2.2.2
  | finish hloop hrecv =>
    obtain ⟨⟨t, ht⟩, -⟩ := hbal.recv hrecv
    cases ht
  | @run e r hloop =>
    refine ⟨?_, hfaults⟩
    unfold held
    rw [Loop.busy_update, Function.update_eq_self_iff.2 (by rw [hloop]; rfl)]
    exact hbal
  | readied hloop hready =>
    refine ⟨?_, hfaults⟩
    unfold held
    rw [Loop.busy_update]
    exact hbal.readying rfl (by simp [held, hloop, Loop.busy]) hready
  | @readyFault e f hloop hready =>
    obtain ⟨p, hp⟩ := hbal.ready_ok s.hasAborted (e := e) rfl
      (by simp [held, hloop, Loop.busy])
    rw [hp] at hready
    cases hready

theorem accounted (h : (dispatch ids).Reachable s) : Accounted ids s := by
  refine h.invariant ?_ fun s a s' hI hs => hI.next (next_of_step hs)
  rintro s ⟨tm, abort, htm, hids, rfl⟩
  exact ⟨TaskManager.Balanced.new hids htm, by simp⟩

/-- Every executor is waiting, or has one message in its channel, or is between `recv` and the
end of `executor_ready`, and only one of them. So no channel holds two messages, no call fails
but on a full queue of waiting tasks, and no more executors wait than there are. -/
theorem one_place (h : (dispatch ids).Reachable s) :
    (∀ e ∈ ids, s.tm.waitingExecutors.items.count e + (s.tm.inbox e).length +
        (s.loop e).busy = 1) ∧
      (∀ e, (s.tm.inbox e).length ≤ 1) ∧ (∀ f ∈ s.faults, f = .tasksFull) ∧
      s.tm.waitingExecutors.items.length ≤ ids.length := by
  obtain ⟨hbal, hfaults⟩ := accounted h
  refine ⟨fun e he => ?_, hbal.inbox_le, hfaults, hbal.waiting_le⟩
  have htok := hbal.tokens e
  rwa [if_pos he] at htok

/-- Two executors wait; a task goes to the first of them. -/
def oneSent : List (Label ℕ) := [.register 5, .recv 0]

theorem one_place_oneSent : ∃ s : Dispatch ℕ, s.loop 0 = .running ⟨0, 5⟩ ∧
    s.tm.waitingExecutors.items.count 0 + (s.tm.inbox 0).length + (s.loop 0).busy = 1 := by
  obtain ⟨s, hs, hrun⟩ := TransitionSystem.exists_reachableUnder (S := dispatch [0, 1])
    (C := fun _ _ => True)
    (s := ⟨.registeredWith [0, 1], fun _ => false, fun _ => .recv, [], [], []⟩)
    ⟨_, _, rfl, by decide, rfl⟩ oneSent (p := fun s => s.loop 0 = .running ⟨0, 5⟩) (by decide)
  exact ⟨s, hrun, (one_place hs).1 0 (by decide)⟩

end Dispatch

end Hooch
