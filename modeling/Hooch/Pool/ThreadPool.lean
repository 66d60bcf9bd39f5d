import Hooch.Lib.BoundedQueue
import Hooch.Lib.TransitionSystem

/-!
# The thread pool

`HoochPool` of `pool/thread_pool.rs`: jobs are handed to the workers in turn, each over a channel
of its own, and a worker runs what it receives. A worker does not catch a panic of its job: its
thread ends, the jobs that wait in its channel are lost, and the next job that is due to it makes
`execute` panic.

* `HoochPool`, `getAndUpdateIndex`: the cursor;
* `PoolState`, `step`, `pool`: one caller and the workers, with `Next` for what a step does;
* `Served`: no call fails, and every worker has run, or will run, exactly the jobs it is due;
* `served_iff`: the main result, for which jobs that panic this holds.
-/

namespace Hooch

/-- What the callers share of `HoochPool`, apart from the channels. -/
structure HoochPool where
  numThreads : ℕ
  cursor : ℕ

/-- `HoochPool::get_and_update_index`, of a pool with threads. -/
def HoochPool.getAndUpdateIndex (p : HoochPool) : ℕ × HoochPool :=
  (p.cursor, { p with cursor := (p.cursor + 1) % p.numThreads })

/-- Where a worker stands. -/
inductive WorkerPc
  /-- At `rx.recv()`. -/
  | idle
  | running (job : ℕ)
  /-- The job has panicked and the thread has ended. -/
  | dead
  deriving DecidableEq

/-- Where the caller stands. -/
inductive CallerPc
  | outside
  /-- At `sender.send(boxed_fn)`. -/
  | sending (idx job : ℕ)
  deriving DecidableEq

/-- The pool in use. The jobs are numbered in the order of their `execute` calls. `failed` lists
the jobs whose call panicked and `ran` the jobs that a worker has begun; they only observe. -/
structure PoolState where
  pool : HoochPool
  channel : ℕ → SyncChannel ℕ
  worker : ℕ → WorkerPc
  caller : CallerPc
  submitted : ℕ
  failed : List ℕ
  ran : ℕ → List ℕ

/-- Who moves. -/
inductive PoolLabel
  /-- A call of `execute` chooses the worker. -/
  | execute
  | send
  | recv (i : ℕ)
  /-- The job of the worker ends. -/
  | done (i : ℕ)
  deriving DecidableEq

namespace PoolState

/-- The capacity of a worker's channel. -/
def channelBound : ℕ := 1024

/-- `HoochPool::init`. -/
def init (numThreads : ℕ) : PoolState where
  pool := ⟨numThreads, 0⟩
  channel := fun _ => .new channelBound
  worker := fun _ => .idle
  caller := .outside
  submitted := 0
  failed := []
  ran := fun _ => []

/-- One step; `panics` says which jobs panic, and `total` how many are submitted. -/
def step (panics : ℕ → Bool) (total : ℕ) (s : PoolState) : PoolLabel → Option PoolState
  | .execute =>
      if s.caller = .outside ∧ s.submitted < total then
        let (idx, pool) := s.pool.getAndUpdateIndex
        some { s with
          pool := pool
          caller := .sending idx s.submitted
          submitted := s.submitted + 1 }
      else none
  | .send =>
      match s.caller with
      | .sending idx job =>
          if idx < s.pool.numThreads then
            match (s.channel idx).send job with
            | .ok ch => some { s with
                channel := Function.update s.channel idx ch
                caller := .outside }
            | .error .wouldBlock => none
            | .error .disconnected => some { s with
                caller := .outside
                failed := s.failed ++ [job] }
          -- `self.senders[idx]` out of range
          else some { s with caller := .outside, failed := s.failed ++ [job] }
      | .outside => none
  | .recv i =>
      if i < s.pool.numThreads ∧ s.worker i = .idle then
        (s.channel i).recv.map fun p => { s with
          channel := Function.update s.channel i p.2
          worker := Function.update s.worker i (.running p.1)
          ran := Function.update s.ran i (s.ran i ++ [p.1]) }
      else none
  | .done i =>
      match s.worker i with
      | .running job =>
          if panics job then
            some { s with
              channel := Function.update s.channel i (s.channel i).close
              worker := Function.update s.worker i .dead }
          else some { s with worker := Function.update s.worker i .idle }
      | _ => none

/-- The jobs whose `execute` call has got past its `send`. -/
def sent (s : PoolState) : ℕ :=
  match s.caller with
  | .sending _ job => job
  | .outside => s.submitted

/-- The jobs among the first `m` that are due to worker `i` of `n`. -/
def due (n i m : ℕ) : List ℕ := (List.range m).filter fun k => k % n = i

/-- No `execute` call has failed, and each worker has begun or will receive exactly the jobs that
are due to it, in the order of their submission: the `k`-th job is due to worker `k % n`. When
nothing can move any more, every worker has run all its jobs. -/
structure Served (panics : ℕ → Bool) (total : ℕ) (s : PoolState) : Prop where
  failed : s.failed = []
  share : ∀ i < s.pool.numThreads, s.ran i ++ (s.channel i).items = due s.pool.numThreads i s.sent
  rest : (∀ a, s.step panics total a = none) →
    ∀ i < s.pool.numThreads, s.ran i = due s.pool.numThreads i total

end PoolState

/-- `n` workers and `total` jobs, submitted one after another, in any interleaving. -/
def pool (n : ℕ) (panics : ℕ → Bool) (total : ℕ) : TransitionSystem PoolState PoolLabel where
  init s := s = .init n
  step := PoolState.step panics total

namespace PoolState

variable {n total : ℕ} {panics : ℕ → Bool} {s s' : PoolState} {a : PoolLabel}

/-- The steps, one case each. -/
inductive Next (panics : ℕ → Bool) (total : ℕ) (s : PoolState) : PoolLabel → PoolState → Prop
  | execute (hcaller : s.caller = .outside) (hlt : s.submitted < total) :
      Next panics total s .execute { s with
        pool := s.pool.getAndUpdateIndex.2
        caller := .sending s.pool.cursor s.submitted
        submitted := s.submitted + 1 }
  | send {idx job : ℕ} {ch : SyncChannel ℕ} (hcaller : s.caller = .sending idx job)
      (hch : ch.receiver = true) (hbound : ch.queue.bound = (s.channel idx).queue.bound)
      (hitems : ch.items = (s.channel idx).items ++ [job]) :
      Next panics total s .send { s with
        channel := Function.update s.channel idx ch
        caller := .outside }
  /-- The worker is gone, or there is none with this index. -/
  | fail {idx job : ℕ} (hcaller : s.caller = .sending idx job)
      (hgone : s.pool.numThreads ≤ idx ∨ (s.channel idx).receiver = false) :
      Next panics total s .send { s with caller := .outside, failed := s.failed ++ [job] }
  | recv {i job : ℕ} {ch : SyncChannel ℕ} (hi : i < s.pool.numThreads)
      (hidle : s.worker i = .idle) (hitems : (s.channel i).items = job :: ch.items)
      (hch : ch.receiver = (s.channel i).receiver)
      (hbound : ch.queue.bound = (s.channel i).queue.bound) :
      Next panics total s (.recv i) { s with
        channel := Function.update s.channel i ch
        worker := Function.update s.worker i (.running job)
        ran := Function.update s.ran i (s.ran i ++ [job]) }
  | done {i job : ℕ} (hrun : s.worker i = .running job) (hok : panics job = false) :
      Next panics total s (.done i) { s with worker := Function.update s.worker i .idle }
  | panic {i job : ℕ} (hrun : s.worker i = .running job) (hpanic : panics job = true) :
      Next panics total s (.done i) { s with
        channel := Function.update s.channel i (s.channel i).close
        worker := Function.update s.worker i .dead }

theorem next_of_step (h : s.step panics total a = some s') : Next panics total s a s' := by
  cases a with
  | execute =>
    simp only [step, Option.ite_none_right_eq_some, Option.some.injEq] at h
    obtain ⟨⟨hcaller, hlt⟩, rfl⟩ := h
    exact .execute hcaller hlt
  | send =>
    simp only [step] at h
    split at h
    · rename_i idx job hcaller
      split at h
      · split at h
        · rename_i ch hsend
          cases h
          obtain ⟨-, hch, hbound, hitems⟩ := SyncChannel.send_eq_ok hsend
          exact .send hcaller hch hbound hitems
        · cases h
        · rename_i hsend
          cases h
          refine .fail hcaller (.inr ?_)
          by_contra hrec
          rw [Bool.not_eq_false] at hrec
          rw [SyncChannel.send, if_pos hrec] at hsend
          split at hsend <;> cases hsend
      · rename_i hidx
        cases h
        exact .fail hcaller (.inl (not_lt.1 hidx))
    · cases h
  | recv i =>
    simp only [step, Option.ite_none_right_eq_some, Option.map_eq_some_iff, Prod.exists] at h
    obtain ⟨⟨hi, hidle⟩, job, ch, hrecv, rfl⟩ := h
    obtain ⟨hitems, hch, hbound⟩ := SyncChannel.recv_eq_some hrecv
    exact .recv hi hidle hitems hch hbound
  | done i =>
    simp only [step] at h
    split at h
    · rename_i job hrun
      split at h
      · rename_i hpanic
        cases h
        exact .panic hrun hpanic
      · rename_i hok
        cases h
        exact .done hrun (by simpa using hok)
    · cases h

/-! ### Whose turn it is -/

section Due

variable {i m job k : ℕ}

theorem mem_due : k ∈ due n i m ↔ k < m ∧ k % n = i := by simp [due]

theorem due_succ_self (h : m % n = i) : due n i (m + 1) = due n i m ++ [m] := by
  simp [due, List.range_succ, h]

theorem due_succ_of_ne (h : m % n ≠ i) : due n i (m + 1) = due n i m := by
  simp [due, List.range_succ, h]

theorem due_of_forall_ne (hkm : k ≤ m) (h : ∀ j, k ≤ j → j < m → j % n ≠ i) :
    due n i m = due n i k := by
  induction m, hkm using Nat.le_induction with
  | base => rfl
  | succ m hkm ih =>
    rw [due_succ_of_ne (h m hkm m.lt_succ_self)]
    exact ih fun j hkj hjm => h j hkj (hjm.trans m.lt_succ_self)

/-- Between two turns of a worker every other worker has one. -/
theorem add_le_of_mod_eq (hlt : job < k) (h : job % n = k % n) : job + n ≤ k := by
  obtain ⟨c, hc⟩ := (Nat.modEq_iff_dvd' hlt.le).1 h
  have hpos : 0 < c := Nat.pos_of_ne_zero fun hzero => by
    rw [hzero, Nat.mul_zero] at hc
    omega
  have hle : n ≤ n * c := Nat.le_mul_of_pos_right n hpos
  omega

/-- In the round that begins with job `k`, no job before `m` is due to the worker of job `m`, -/
theorem due_of_round (hkm : k ≤ m) (hround : m < k + n) : due n (m % n) m = due n (m % n) k := by
  refine due_of_forall_ne hkm fun j hkj hjm hmod => ?_
  have hle := add_le_of_mod_eq hjm hmod
  omega

/-- and the worker of job `k` is due no other job. -/
theorem due_round (hkm : k < m) (hround : m ≤ k + n) :
    due n (k % n) m = due n (k % n) k ++ [k] := by
  rw [← due_succ_self rfl]
  refine due_of_forall_ne hkm fun j hkj hjm hmod => ?_
  have hle := add_le_of_mod_eq hkj hmod.symm
  omega

/-- What is due after a job comes at least a round later. -/
theorem add_le_of_due {before after : List ℕ} (h : due n i m = before ++ job :: after)
    (hk : k ∈ after) : job + n ≤ k := by
  have hsorted : (due n i m).Pairwise (· < ·) := List.pairwise_lt_range.filter _
  have hmod : ∀ x ∈ due n i m, x % n = i := fun x hx => (mem_due.1 hx).2
  rw [h] at hsorted hmod
  refine add_le_of_mod_eq (List.rel_of_pairwise_cons (List.pairwise_append.1 hsorted).2.1 hk) ?_
  rw [hmod job (by simp), hmod k (by simp [hk])]

end Due

/-! ### Jobs that panic only when nothing more is due -/

/-- What holds of worker `i` when `m` jobs have been sent. -/
structure WorkerInTurn (n : ℕ) (panics : ℕ → Bool) (m i : ℕ) (ch : SyncChannel ℕ) (w : WorkerPc)
    (ran : List ℕ) : Prop where
  share : i < n → ran ++ ch.items = due n i m
  bound : ch.queue.bound = channelBound
  receiver : w ≠ .dead → ch.receiver = true
  running : ∀ job, w = .running job → i < n ∧ ∃ before, ran = before ++ [job]
  dead : w = .dead → ∃ job ∈ ran, panics job = true

/-- The channels and the workers are in step with the cursor. -/
structure InTurn (n : ℕ) (panics : ℕ → Bool) (total : ℕ) (s : PoolState) : Prop where
  numThreads : s.pool.numThreads = n
  cursor : s.pool.cursor = s.submitted % n
  sending : ∀ idx job, s.caller = .sending idx job → idx = job % n ∧ s.submitted = job + 1
  le_total : s.submitted ≤ total
  failed : s.failed = []
  workers : ∀ i, WorkerInTurn n panics s.sent i (s.channel i) (s.worker i) (s.ran i)

theorem InTurn.init : InTurn n panics total (.init n) where
  numThreads := rfl
  cursor := (Nat.zero_mod n).symm
  sending _ _ h := by cases h
  le_total := Nat.zero_le _
  failed := rfl
  workers _ := ⟨fun _ => rfl, rfl, fun _ => rfl, fun _ h => (by cases h), fun h => (by cases h)⟩

theorem InTurn.sent_le (h : InTurn n panics total s) : s.sent ≤ total := by
  have hle := h.le_total
  unfold sent
  cases hcaller : s.caller with
  | outside => exact hle
  | sending idx job =>
    have := (h.sending idx job hcaller).2
    show job ≤ total
    omega

/-- A panic comes after the last job that is due to the worker. -/
theorem InTurn.nothing_after (h : InTurn n panics total s)
    (hlast : ∀ k < total, panics k = true → total ≤ k + n) {i job : ℕ} {before after : List ℕ}
    (hi : i < n) (hjob : s.ran i ++ (s.channel i).items = before ++ job :: after)
    (hpanic : panics job = true) : after = [] := by
  have hdue : due n i s.sent = before ++ job :: after := by rw [← (h.workers i).share hi, hjob]
  have hlt : ∀ k ∈ job :: after, k < total := fun k hk =>
    (mem_due.1 (by rw [hdue]; exact List.mem_append_right _ hk)).1.trans_le h.sent_le
  rw [List.eq_nil_iff_forall_not_mem]
  intro k hk
  have hround := add_le_of_due hdue hk
  have htotal := hlast job (hlt job (by simp)) hpanic
  exact absurd (hlt k (by simp [hk])) (by omega)

/-- Nothing waits behind a job that panics, -/
theorem InTurn.nothing_waits (h : InTurn n panics total s)
    (hlast : ∀ k < total, panics k = true → total ≤ k + n) {i job : ℕ}
    (hrun : s.worker i = .running job) (hpanic : panics job = true) : (s.channel i).items = [] := by
  obtain ⟨hi, before, hbefore⟩ := (h.workers i).running job hrun
  exact h.nothing_after hlast hi (by rw [hbefore, List.append_assoc]; rfl) hpanic

/-- nor for a worker that is gone. -/
theorem InTurn.nothing_lost (h : InTurn n panics total s)
    (hlast : ∀ k < total, panics k = true → total ≤ k + n) {i : ℕ} (hi : i < n)
    (hdead : s.worker i = .dead) : (s.channel i).items = [] := by
  obtain ⟨job, hjob, hpanic⟩ := (h.workers i).dead hdead
  obtain ⟨before, after, hran⟩ := List.append_of_mem hjob
  have hnil := h.nothing_after hlast hi (by rw [hran, List.append_assoc]; rfl) hpanic
  exact (List.append_eq_nil_iff.1 hnil).2

/-- The worker whose turn it is has not panicked. -/
theorem InTurn.receiver (h : InTurn n panics total s) (hn : 0 < n)
    (hlast : ∀ k < total, panics k = true → total ≤ k + n) {idx job : ℕ}
    (hcaller : s.caller = .sending idx job) : (s.channel idx).receiver = true := by
  obtain ⟨rfl, hsub⟩ := h.sending idx job hcaller
  refine (h.workers _).receiver fun hdead => ?_
  obtain ⟨k, hk, hpanic⟩ := (h.workers _).dead hdead
  have hdue : k ∈ due n (job % n) s.sent := by
    rw [← (h.workers _).share (Nat.mod_lt _ hn)]
    exact List.mem_append_left _ hk
  obtain ⟨hlt, hmod⟩ := mem_due.1 hdue
  rw [show s.sent = job by simp [sent, hcaller]] at hlt
  have hround := add_le_of_mod_eq hlt hmod
  have hle := h.le_total
  have htotal := hlast k (by omega) hpanic
  omega

/-- A step of worker `i` alone. -/
theorem InTurn.work (h : InTurn n panics total s) {i : ℕ} (hpool : s'.pool = s.pool)
    (hcaller : s'.caller = s.caller) (hsubmitted : s'.submitted = s.submitted)
    (hfailed : s'.failed = s.failed)
    (hother : ∀ j, j ≠ i → s'.channel j = s.channel j ∧ s'.worker j = s.worker j ∧
      s'.ran j = s.ran j)
    (hi : WorkerInTurn n panics s.sent i (s'.channel i) (s'.worker i) (s'.ran i)) :
    InTurn n panics total s' where
  numThreads := by rw [hpool, h.numThreads]
  cursor := by rw [hpool, hsubmitted, h.cursor]
  sending idx job hc := by
    rw [hsubmitted]
    exact h.sending idx job (by rw [← hcaller, hc])
  le_total := by rw [hsubmitted]; exact h.le_total
  failed := by rw [hfailed, h.failed]
  workers j := by
    rw [show s'.sent = s.sent by simp only [sent, hcaller, hsubmitted]]
    by_cases hji : j = i
    · rw [hji]
      exact hi
    · obtain ⟨hch, hw, hran⟩ := hother j hji
      rw [hch, hw, hran]
      exact h.workers j

theorem InTurn.next (hn : 0 < n) (hlast : ∀ k < total, panics k = true → total ≤ k + n)
    (h : InTurn n panics total s) (hs : Next panics total s a s') : InTurn n panics total s' := by
  cases hs with
  | execute hcaller hlt =>
    have hsent : s.sent = s.submitted := by simp [sent, hcaller]
    have hworkers := h.workers
    rw [hsent] at hworkers
    refine ⟨h.numThreads, ?_, fun idx job hc => ?_, hlt, h.failed, hworkers⟩
    · simp [HoochPool.getAndUpdateIndex, h.cursor, h.numThreads]
    · cases hc
      exact ⟨h.cursor, rfl⟩
  | @send idx job ch hcaller hch hbound hitems =>
    obtain ⟨hidx, hsub⟩ := h.sending idx job hcaller
    have hworkers := h.workers
    rw [show s.sent = job by simp [sent, hcaller]] at hworkers
    refine ⟨h.numThreads, h.cursor, fun _ _ hc => (by cases hc), h.le_total, h.failed,
      fun i => ?_⟩
    show WorkerInTurn n panics s.submitted i _ _ _
    rw [hsub]
    by_cases hii : i = idx
    · have hwi := hworkers i
      rw [← hii] at hitems
      refine ⟨fun hi => ?_, ?_, fun _ => by simpa [hii] using hch, hwi.running, hwi.dead⟩
      · rw [due_succ_self (by rw [hii, hidx]), ← hwi.share hi]
        simp [hii, hitems]
      · rw [hii] at hwi
        simpa [hii, hbound] using hwi.bound
    · have hdue : due n i (job + 1) = due n i job :=
        due_succ_of_ne fun hmod => hii (by rw [hidx, hmod])
      obtain ⟨hshare, hcap, hreceiver, hrunning, hdead⟩ := hworkers i
      rw [← hdue] at hshare
      simpa [hii] using (⟨hshare, hcap, hreceiver, hrunning, hdead⟩ : WorkerInTurn ..)
  | @fail idx job hcaller hgone =>
    rcases hgone with hidx | hgone
    · rw [(h.sending idx job hcaller).1, h.numThreads] at hidx
      exact absurd (Nat.mod_lt job hn) (not_lt.2 hidx)
    · rw [h.receiver hn hlast hcaller] at hgone
      cases hgone
  | @recv i job ch hi hidle hitems hch hbound =>
    rw [h.numThreads] at hi
    have hshare := (h.workers i).share hi
    rw [hitems] at hshare
    refine h.work (i := i) rfl rfl rfl rfl (fun j hj => by simp [hj]) ⟨fun _ => ?_, ?_,
      fun _ => ?_, fun k hk => ?_, fun hdead => ?_⟩
    · simpa using hshare
    · simpa [hbound] using (h.workers i).bound
    · simpa [hch] using (h.workers i).receiver (by rw [hidle]; simp)
    · have hjob : job = k := by simpa using hk
      exact ⟨hi, s.ran i, by simp [hjob]⟩
    · simp at hdead
  | @done i job hrun hok =>
    obtain ⟨hshare, hcap, hreceiver, -, -⟩ := h.workers i
    refine h.work (i := i) rfl rfl rfl rfl (fun j hj => by simp [hj])
      ⟨hshare, hcap, fun _ => hreceiver (by rw [hrun]; simp), fun k hk => ?_, fun hdead => ?_⟩
    · simp at hk
    · simp at hdead
  | @panic i job hrun hpanic =>
    have hnil := h.nothing_waits hlast hrun hpanic
    obtain ⟨hi, before, hbefore⟩ := (h.workers i).running job hrun
    have hshare := (h.workers i).share hi
    rw [hnil] at hshare
    refine h.work (i := i) rfl rfl rfl rfl (fun j hj => by simp [hj]) ⟨fun _ => ?_, ?_,
      fun hlive => ?_, fun k hk => ?_, fun _ => ⟨job, by rw [hbefore]; simp, hpanic⟩⟩
    · simpa using hshare
    · simpa [SyncChannel.close] using (h.workers i).bound
    · simp at hlive
    · simp at hk

theorem inTurn (hn : 0 < n) (hlast : ∀ k < total, panics k = true → total ≤ k + n)
    (h : (Hooch.pool n panics total).Reachable s) : InTurn n panics total s := by
  refine h.invariant ?_ fun s a s' hI hs => hI.next hn hlast (next_of_step hs)
  rintro s rfl
  exact .init

/-- When nothing can move, nothing waits in a channel. -/
theorem InTurn.items_of_stuck (h : InTurn n panics total s)
    (hlast : ∀ k < total, panics k = true → total ≤ k + n)
    (hstuck : ∀ a, s.step panics total a = none) {i : ℕ} (hi : i < n) :
    (s.channel i).items = [] := by
  cases hw : s.worker i with
  | idle =>
    have hrecv := hstuck (.recv i)
    rw [step, if_pos ⟨by rwa [h.numThreads], hw⟩, Option.map_eq_none_iff] at hrecv
    exact SyncChannel.recv_eq_none_iff.1 hrecv
  | running job =>
    have hdone := hstuck (.done i)
    simp only [step, hw] at hdone
    split at hdone <;> cases hdone
  | dead => exact h.nothing_lost hlast hi hw

theorem InTurn.rest (h : InTurn n panics total s) (hn : 0 < n)
    (hlast : ∀ k < total, panics k = true → total ≤ k + n)
    (hstuck : ∀ a, s.step panics total a = none) {i : ℕ} (hi : i < n) :
    s.ran i = due n i total := by
  have hsent : s.sent = total := by
    cases hcaller : s.caller with
    | outside =>
      have hexecute := hstuck .execute
      by_contra hne
      have hlt : s.submitted < total := h.le_total.lt_of_ne (by simpa [sent, hcaller] using hne)
      simp [step, hcaller, hlt] at hexecute
    | sending idx job =>
      obtain ⟨hidx, -⟩ := h.sending idx job hcaller
      have hlt : idx < n := by rw [hidx]; exact Nat.mod_lt job hn
      have hroom : (s.channel idx).items.length < (s.channel idx).queue.bound := by
        rw [h.items_of_stuck hlast hstuck hlt, (h.workers idx).bound]
        decide
      obtain ⟨ch, hch⟩ := SyncChannel.send_ne_error job (h.receiver hn hlast hcaller) hroom
      have hsend := hstuck .send
      simp [step, hcaller, h.numThreads, hlt, hch] at hsend
  have hshare := (h.workers i).share hi
  rwa [h.items_of_stuck hlast hstuck hi, List.append_nil, hsent] at hshare

theorem InTurn.served (h : InTurn n panics total s) (hn : 0 < n)
    (hlast : ∀ k < total, panics k = true → total ≤ k + n) : Served panics total s where
  failed := h.failed
  share i hi := by
    rw [h.numThreads] at hi ⊢
    exact (h.workers i).share hi
  rest hstuck i hi := by
    rw [h.numThreads] at hi ⊢
    exact h.rest hn hlast hstuck hi

/-! ### A job that panics too early -/

/-- The first `m` jobs are submitted, the first `k` of them have run, and the workers rest. -/
structure Loaded (n k m : ℕ) (s : PoolState) : Prop where
  pool : s.pool = ⟨n, m % n⟩
  caller : s.caller = .outside
  submitted : s.submitted = m
  worker : ∀ i, s.worker i = .idle
  receiver : ∀ i, (s.channel i).receiver = true
  bound : ∀ i, (s.channel i).queue.bound = channelBound
  ran : ∀ i < n, s.ran i = due n i k
  share : ∀ i < n, s.ran i ++ (s.channel i).items = due n i m

theorem Loaded.init : Loaded n 0 0 (.init n) where
  pool := by simp [PoolState.init]
  caller := rfl
  submitted := rfl
  worker _ := rfl
  receiver _ := rfl
  bound _ := rfl
  ran _ _ := rfl
  share _ _ := rfl

variable {k m : ℕ}

/-- One more job, while the round that began with job `k` is not over. -/
theorem Loaded.submit (hn : 0 < n) (h : Loaded n k m s)
    (hr : (Hooch.pool n panics total).Reachable s) (hkm : k ≤ m) (hround : m < k + n)
    (hm : m < total) : ∃ s', (Hooch.pool n panics total).Reachable s' ∧ Loaded n k (m + 1) s' := by
  have hlt : m % n < n := Nat.mod_lt m hn
  have hnil : (s.channel (m % n)).items = [] := by
    have hshare := h.share _ hlt
    rwa [h.ran _ hlt, due_of_round hkm hround, List.append_right_eq_self] at hshare
  obtain ⟨ch, hch⟩ := SyncChannel.send_ne_error m (h.receiver (m % n))
    (by rw [hnil, h.bound]; decide)
  obtain ⟨-, hreceiver, hbound, hitems⟩ := SyncChannel.send_eq_ok hch
  have hexecute : (Hooch.pool n panics total).step s .execute = some { s with
      pool := ⟨n, (m + 1) % n⟩
      caller := .sending (m % n) m
      submitted := m + 1 } := by
    simp [Hooch.pool, step, HoochPool.getAndUpdateIndex, h.caller, h.submitted, h.pool, hm]
  have hsend : (Hooch.pool n panics total).step { s with
      pool := ⟨n, (m + 1) % n⟩
      caller := .sending (m % n) m
      submitted := m + 1 } .send = some { s with
      pool := ⟨n, (m + 1) % n⟩
      channel := Function.update s.channel (m % n) ch
      caller := .outside
      submitted := m + 1 } := by
    simp [Hooch.pool, step, hlt, hch]
  refine ⟨_, (hr.step trivial hexecute).step trivial hsend, rfl, rfl, rfl, h.worker, ?_, ?_, h.ran,
    fun i hi => ?_⟩
  · exact (Function.forall_update_iff _ fun _ (c : SyncChannel ℕ) => c.receiver = true).2
      ⟨hreceiver, fun i _ => h.receiver i⟩
  · exact (Function.forall_update_iff _ fun _ (c : SyncChannel ℕ) => c.queue.bound = channelBound).2
      ⟨by rw [hbound, h.bound], fun i _ => h.bound i⟩
  · by_cases him : i = m % n
    · rw [him, due_succ_self rfl, ← h.share _ hlt]
      simp [hitems]
    · rw [due_succ_of_ne (Ne.symm him), ← h.share i hi]
      simp [him]

/-- The worker of job `k` begins it. -/
theorem Loaded.recv (panics : ℕ → Bool) (total : ℕ) (hn : 0 < n) (h : Loaded n k m s)
    (hkm : k < m) (hround : m ≤ k + n) :
    ∃ ch : SyncChannel ℕ, ch.items = [] ∧ ch.receiver = true ∧ ch.queue.bound = channelBound ∧
      (Hooch.pool n panics total).step s (.recv (k % n)) = some { s with
        channel := Function.update s.channel (k % n) ch
        worker := Function.update s.worker (k % n) (.running k)
        ran := Function.update s.ran (k % n) (due n (k % n) (k + 1)) } := by
  have hlt : k % n < n := Nat.mod_lt k hn
  have hitems : (s.channel (k % n)).items = [k] := by
    have hshare := h.share _ hlt
    rwa [h.ran _ hlt, due_round hkm hround, List.append_cancel_left_eq] at hshare
  cases hrecv : (s.channel (k % n)).recv with
  | none =>
    rw [SyncChannel.recv_eq_none_iff.1 hrecv] at hitems
    cases hitems
  | some p =>
    obtain ⟨job, ch⟩ := p
    obtain ⟨hjob, hreceiver, hbound⟩ := SyncChannel.recv_eq_some hrecv
    rw [hitems, List.cons.injEq] at hjob
    refine ⟨ch, hjob.2.symm, by rw [hreceiver, h.receiver], by rw [hbound, h.bound], ?_⟩
    simp [Hooch.pool, step, h.pool, h.worker, hlt, hrecv, ← hjob.1, h.ran _ hlt, due_succ_self]

/-- The last job that was submitted runs to its end. -/
theorem Loaded.serve (hn : 0 < n) (h : Loaded n k (k + 1) s)
    (hr : (Hooch.pool n panics total).Reachable s) (hok : panics k = false) :
    ∃ s', (Hooch.pool n panics total).Reachable s' ∧ Loaded n (k + 1) (k + 1) s' := by
  obtain ⟨ch, hitems, hreceiver, hbound, hrecv⟩ :=
    h.recv panics total hn k.lt_succ_self (by omega)
  have hdone : (Hooch.pool n panics total).step { s with
      channel := Function.update s.channel (k % n) ch
      worker := Function.update s.worker (k % n) (.running k)
      ran := Function.update s.ran (k % n) (due n (k % n) (k + 1)) } (.done (k % n)) = some { s with
      channel := Function.update s.channel (k % n) ch
      worker := Function.update s.worker (k % n) .idle
      ran := Function.update s.ran (k % n) (due n (k % n) (k + 1)) } := by
    simp [Hooch.pool, step, hok]
  refine ⟨_, (hr.step trivial hrecv).step trivial hdone, h.pool, h.caller, h.submitted,
    ?_, ?_, ?_, fun i hi => ?_, fun i hi => ?_⟩
  · exact (Function.forall_update_iff _ fun _ (w : WorkerPc) => w = .idle).2
      ⟨rfl, fun i _ => h.worker i⟩
  · exact (Function.forall_update_iff _ fun _ (c : SyncChannel ℕ) => c.receiver = true).2
      ⟨hreceiver, fun i _ => h.receiver i⟩
  · exact (Function.forall_update_iff _ fun _ (c : SyncChannel ℕ) => c.queue.bound = channelBound).2
      ⟨hbound, fun i _ => h.bound i⟩
  · by_cases hik : i = k % n
    · simp [hik]
    · simpa [hik, due_succ_of_ne (Ne.symm hik)] using h.ran i hi
  · by_cases hik : i = k % n
    · simp [hik, hitems]
    · simpa [hik] using h.share i hi

/-- The pool has run the first `k` jobs and rests. -/
theorem exists_loaded (hn : 0 < n) (hle : k ≤ total) (hok : ∀ j < k, panics j = false) :
    ∃ s, (Hooch.pool n panics total).Reachable s ∧ Loaded n k k s := by
  induction k with
  | zero => exact ⟨_, .init rfl, .init⟩
  | succ k ih =>
    obtain ⟨s, hr, hs⟩ := ih (by omega) fun j hj => hok j (hj.trans k.lt_succ_self)
    obtain ⟨s', hr', hs'⟩ := hs.submit hn hr le_rfl (by omega) hle
    exact hs'.serve hn hr' (hok k k.lt_succ_self)

/-- The first `k` jobs have run, and those of the next round wait in the channels. -/
theorem Loaded.round (hn : 0 < n) (h : Loaded n k k s)
    (hr : (Hooch.pool n panics total).Reachable s) (hkm : k ≤ m) (hround : m ≤ k + n)
    (hm : m ≤ total) : ∃ s', (Hooch.pool n panics total).Reachable s' ∧ Loaded n k m s' := by
  induction m, hkm using Nat.le_induction with
  | base => exact ⟨s, hr, h⟩
  | succ m hkm ih =>
    obtain ⟨s', hr', hs'⟩ := ih (by omega) (by omega)
    exact hs'.submit hn hr' hkm hround hm

/-- Job `k` ends its worker, and the call that has the next job for this worker fails. -/
theorem Loaded.fails (hn : 0 < n) (h : Loaded n k (k + n) s)
    (hr : (Hooch.pool n panics total).Reachable s) (hpanic : panics k = true)
    (hlt : k + n < total) :
    ∃ s', (Hooch.pool n panics total).Reachable s' ∧ s'.failed ≠ [] := by
  obtain ⟨ch, hitems, hreceiver, hbound, hrecv⟩ :=
    h.recv panics total hn (by omega) le_rfl
  have hidx : (k + n) % n = k % n := Nat.add_mod_right k n
  have hrun : (Hooch.pool n panics total).run { s with
      channel := Function.update s.channel (k % n) ch
      worker := Function.update s.worker (k % n) (.running k)
      ran := Function.update s.ran (k % n) (due n (k % n) (k + 1)) }
      [.done (k % n), .execute, .send] = some { s with
        pool := ⟨n, (k + 1) % n⟩
        channel := Function.update s.channel (k % n) ch.close
        worker := Function.update s.worker (k % n) .dead
        caller := .outside
        submitted := k + n + 1
        failed := s.failed ++ [k + n]
        ran := Function.update s.ran (k % n) (due n (k % n) (k + 1)) } := by
    simp [TransitionSystem.run_cons, Hooch.pool, step, HoochPool.getAndUpdateIndex, h.pool,
      h.caller, h.submitted, hpanic, hlt, hidx, Nat.mod_lt k hn, SyncChannel.send]
  exact ⟨_, TransitionSystem.Reachable.run (hr.step trivial hrecv) hrun, by simp⟩

/-- The pool serves all its jobs in every run exactly if a job panics only when no job is due to
its worker after it. -/
theorem served_iff (hn : 0 < n) :
    (∀ s, (Hooch.pool n panics total).Reachable s → Served panics total s) ↔
      ∀ k < total, panics k = true → total ≤ k + n := by
  refine ⟨fun hserved => ?_, fun hlast s hr => (inTurn hn hlast hr).served hn hlast⟩
  by_contra hbad
  push Not at hbad
  -- The first job that panics is early enough as well.
  have hex : ∃ k, panics k = true := hbad.imp fun k hk => hk.2.1
  obtain ⟨k, hk, hpanic, hlt⟩ := hbad
  have hfirst : Nat.find hex ≤ k := Nat.find_min' hex hpanic
  have hok : ∀ j < Nat.find hex, panics j = false := by
    intro j hj
    simpa using Nat.find_min hex hj
  obtain ⟨s, hr, hs⟩ := exists_loaded hn (hfirst.trans hk.le) hok
  obtain ⟨s', hr', hs'⟩ := hs.round hn hr (Nat.le_add_right _ n) le_rfl (by omega)
  obtain ⟨t, hrt, hfailed⟩ := hs'.fails hn hr' (Nat.find_spec hex) (by omega)
  exact hfailed (hserved t hrt).failed

/-- Two workers, and the last of three jobs panics. -/
theorem served_iff_lastPanics : (fun k => k = 2 : ℕ → Bool) 2 = true ∧
    ∀ s, (Hooch.pool 2 (fun k => k = 2) 3).Reachable s → Served (fun k => k = 2) 3 s := by
  refine ⟨rfl, (served_iff (by decide)).2 fun k _ hk => ?_⟩
  rw [decide_eq_true_eq] at hk
  omega

/-- One worker, as the runtime has. The first of two jobs panics, and the call that has the second
one fails. -/
theorem panic_fails_next : ∃ s, (Hooch.pool 1 (fun k => k = 0) 2).Reachable s ∧
    ¬ Served (fun k => k = 0) 2 s ∧ s.failed = [1] ∧ s.ran 0 = [0] := by
  obtain ⟨s, hr, hfailed, hran⟩ := TransitionSystem.exists_reachableUnder
    (S := Hooch.pool 1 (fun k => k = 0) 2) (C := fun _ _ => True) rfl
    [.execute, .send, .recv 0, .done 0, .execute, .send]
    (p := fun s => s.failed = [1] ∧ s.ran 0 = [0]) (by decide)
  refine ⟨s, hr, fun hs => ?_, hfailed, hran⟩
  rw [hs.failed] at hfailed
  cases hfailed

end PoolState

end Hooch
