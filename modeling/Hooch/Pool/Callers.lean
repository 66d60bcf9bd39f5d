import Hooch.Lib.Fairness
import Hooch.Pool.ThreadPool

/-!
# The thread pool under concurrent calls

`HoochPool::execute` called by any number of threads at once. The cursor is read and written in two
separate accesses, so two calls may choose the same worker and a turn may be skipped; what the pool
keeps all the same is that no index is out of range, no job is lost or given out twice, and each
worker runs its jobs in the order in which they were sent to it, up to the first that panics.

* `CallPc`, `PoolCalls`, `step`, `poolCalls`: the calls and the workers, one access a step;
* `Worked`, `Shared`: what holds of one worker, and of all the calls;
* `concurrent_served`: the main result, for every interleaving;
* `executed_runs`: a job whose call has returned is run, or its worker is gone.
-/

namespace Hooch

open TransitionSystem

/-- Where a call of `execute` stands. -/
inductive CallPc
  /-- Not made yet. -/
  | new
  /-- At `self.cursor.load(..)`. -/
  | loading
  /-- At `self.cursor.store(..)`. -/
  | storing (current_value : ℕ)
  /-- At `sender.send(boxed_fn)`. -/
  | sending (idx : ℕ)
  | returned
  /-- The call has panicked. -/
  | failed
  deriving DecidableEq

/-- The pool in use. A job is named by its call. `sent` and `ran` list the jobs that were sent to
a worker and those that it has begun; they only observe. -/
structure PoolCalls where
  pool : HoochPool
  channel : ℕ → SyncChannel ℕ
  worker : ℕ → WorkerPc
  call : ℕ → CallPc
  sent : ℕ → List ℕ
  ran : ℕ → List ℕ

/-- Who moves. -/
inductive PoolCallsLabel
  | execute (job : ℕ)
  | load (job : ℕ)
  | store (job : ℕ)
  | send (job : ℕ)
  | recv (i : ℕ)
  /-- The job of the worker ends. -/
  | done (i : ℕ)
  deriving DecidableEq

namespace PoolCalls

/-- `HoochPool::init`. -/
def init (numThreads : ℕ) : PoolCalls where
  pool := ⟨numThreads, 0⟩
  channel := fun _ => .new PoolState.channelBound
  worker := fun _ => .idle
  call := fun _ => .new
  sent := fun _ => []
  ran := fun _ => []

def setCall (s : PoolCalls) (job : ℕ) (p : CallPc) : PoolCalls :=
  { s with call := Function.update s.call job p }

/-- One step; `panics` says which jobs panic. -/
def step (panics : ℕ → Bool) (s : PoolCalls) : PoolCallsLabel → Option PoolCalls
  | .execute job =>
      match s.call job with
      | .new => some (s.setCall job .loading)
      | _ => none
  | .load job =>
      match s.call job with
      | .loading => some (s.setCall job (.storing s.pool.cursor))
      | _ => none
  | .store job =>
      match s.call job with
      | .storing current_value => some { s.setCall job (.sending current_value) with
          pool := { s.pool with cursor := (current_value + 1) % s.pool.numThreads } }
      | _ => none
  | .send job =>
      match s.call job with
      | .sending idx =>
          if idx < s.pool.numThreads then
            match (s.channel idx).send job with
            | .ok ch => some { s.setCall job .returned with
                channel := Function.update s.channel idx ch
                sent := Function.update s.sent idx (s.sent idx ++ [job]) }
            | .error .wouldBlock => none
            | .error .disconnected => some (s.setCall job .failed)
          -- `self.senders[idx]` out of range
          else some (s.setCall job .failed)
      | _ => none
  | .recv i =>
      if i < s.pool.numThreads ∧ s.worker i = .idle then
        (s.channel i).recv.map fun p => { s with
          channel := Function.update s.channel i p.2
          worker := Function.update s.worker i (.running p.1)
          ran := Function.update s.ran i (s.ran i ++ [p.1]) }
      else none
  | .done i =>
      match s.worker i with
      | .running job =>
          if panics job then
            some { s with
              channel := Function.update s.channel i (s.channel i).close
              worker := Function.update s.worker i .dead }
          else some { s with worker := Function.update s.worker i .idle }
      | _ => none

end PoolCalls

/-- `n` workers, and calls of `execute` from any number of threads. -/
def poolCalls (n : ℕ) (panics : ℕ → Bool) : TransitionSystem PoolCalls PoolCallsLabel where
  init s := s = .init n
  step := PoolCalls.step panics

namespace PoolCalls

variable {n : ℕ} {panics : ℕ → Bool} {s s' : PoolCalls} {a : PoolCallsLabel}

/-- The steps, one case each. -/
inductive Next (panics : ℕ → Bool) (s : PoolCalls) : PoolCallsLabel → PoolCalls → Prop
  | execute {job : ℕ} (hcall : s.call job = .new) :
      Next panics s (.execute job) (s.setCall job .loading)
  | load {job : ℕ} (hcall : s.call job = .loading) :
      Next panics s (.load job) (s.setCall job (.storing s.pool.cursor))
  | store {job current_value : ℕ} (hcall : s.call job = .storing current_value) :
      Next panics s (.store job) { s.setCall job (.sending current_value) with
        pool := { s.pool with cursor := (current_value + 1) % s.pool.numThreads } }
  | send {job idx : ℕ} {ch : SyncChannel ℕ} (hcall : s.call job = .sending idx)
      (hidx : idx < s.pool.numThreads) (hopen : (s.channel idx).receiver = true)
      (hch : ch.receiver = true) (hbound : ch.queue.bound = (s.channel idx).queue.bound)
      (hitems : ch.items = (s.channel idx).items ++ [job]) :
      Next panics s (.send job) { s.setCall job .returned with
        channel := Function.update s.channel idx ch
        sent := Function.update s.sent idx (s.sent idx ++ [job]) }
  /-- The worker is gone, or there is none with this index. -/
  | fail {job idx : ℕ} (hcall : s.call job = .sending idx)
      (hgone : s.pool.numThreads ≤ idx ∨ (s.channel idx).receiver = false) :
      Next panics s (.send job) (s.setCall job .failed)
  | recv {i job : ℕ} {ch : SyncChannel ℕ} (hi : i < s.pool.numThreads)
      (hidle : s.worker i = .idle) (hitems : (s.channel i).items = job :: ch.items)
      (hch : ch.receiver = (s.channel i).receiver)
      (hbound : ch.queue.bound = (s.channel i).queue.bound) :
      Next panics s (.recv i) { s with
        channel := Function.update s.channel i ch
        worker := Function.update s.worker i (.running job)
        ran := Function.update s.ran i (s.ran i ++ [job]) }
  | done {i job : ℕ} (hrun : s.worker i = .running job) (hok : panics job = false) :
      Next panics s (.done i) { s with worker := Function.update s.worker i .idle }
  | panic {i job : ℕ} (hrun : s.worker i = .running job) (hpanic : panics job = true) :
      Next panics s (.done i) { s with
        channel := Function.update s.channel i (s.channel i).close
        worker := Function.update s.worker i .dead }

theorem next_of_step (h : s.step panics a = some s') : Next panics s a s' := by
  cases a with
  | execute job =>
    simp only [step] at h
    split at h <;> cases h
    exact .execute ‹_›
  | load job =>
    simp only [step] at h
    split at h <;> cases h
    exact .load ‹_›
  | store job =>
    simp only [step] at h
    split at h <;> cases h
    exact .store ‹_›
  | send job =>
    simp only [step] at h
    split at h
    · rename_i idx hcall
      split at h
      · rename_i hidx
        split at h
        · rename_i ch hsend
          cases h
          obtain ⟨hopen, hch, hbound, hitems⟩ := SyncChannel.send_eq_ok hsend
          exact .send hcall hidx hopen hch hbound hitems
        · cases h
        · rename_i hsend
          cases h
          refine .fail hcall (.inr ?_)
          by_contra hrec
          rw [Bool.not_eq_false] at hrec
          rw [SyncChannel.send, if_pos hrec] at hsend
          split at hsend <;> cases hsend
      · rename_i hidx
        cases h
        exact .fail hcall (.inl (not_lt.1 hidx))
    · cases h
  | recv i =>
    simp only [step, Option.ite_none_right_eq_some, Option.map_eq_some_iff, Prod.exists] at h
    obtain ⟨⟨hi, hidle⟩, job, ch, hrecv, rfl⟩ := h
    obtain ⟨hitems, hch, hbound⟩ := SyncChannel.recv_eq_some hrecv
    exact .recv hi hidle hitems hch hbound
  | done i =>
    simp only [step] at h
    split at h
    · rename_i job hrun
      split at h
      · rename_i hpanic
        cases h
        exact .panic hrun hpanic
      · rename_i hok
        cases h
        exact .done hrun (by simpa using hok)
    · cases h

/-! ### One worker -/

/-- The jobs up to the first that panics, and this one. -/
def upToPanic (panics : ℕ → Bool) : List ℕ → List ℕ
  | [] => []
  | job :: jobs => if panics job then [job] else job :: upToPanic panics jobs

theorem upToPanic_of_forall {l : List ℕ} (h : ∀ job ∈ l, panics job = false) (r : List ℕ) :
    upToPanic panics (l ++ r) = l ++ upToPanic panics r := by
  induction l with
  | nil => rfl
  | cons job l ih =>
    have hjob : panics job = false := h job List.mem_cons_self
    simp only [List.cons_append, upToPanic, hjob]
    rw [ih fun k hk => h k (List.mem_cons_of_mem _ hk)]
    rfl

/-- What holds of a worker. -/
structure Worked (panics : ℕ → Bool) (ch : SyncChannel ℕ) (w : WorkerPc) (sent ran : List ℕ) :
    Prop where
  bound : ch.queue.bound = PoolState.channelBound
  receiver : ch.receiver = true ↔ w ≠ .dead
  share : w ≠ .dead → sent = ran ++ ch.items
  idle : w = .idle → ∀ job ∈ ran, panics job = false
  running : ∀ job, w = .running job →
    ∃ before, ran = before ++ [job] ∧ ∀ k ∈ before, panics k = false
  dead : w = .dead → ∃ before job after, ran = before ++ [job] ∧ sent = ran ++ after ∧
    panics job = true ∧ ∀ k ∈ before, panics k = false

variable {ch : SyncChannel ℕ} {w : WorkerPc} {sent ran : List ℕ} {job : ℕ}

theorem Worked.new : Worked panics (.new PoolState.channelBound) .idle [] [] where
  bound := rfl
  receiver := by simp
  share _ := rfl
  idle _ := by simp
  running _ h := by cases h
  dead h := by cases h

theorem Worked.send {ch' : SyncChannel ℕ} (h : Worked panics ch w sent ran)
    (hopen : ch.receiver = true) (hch : ch'.receiver = true)
    (hbound : ch'.queue.bound = ch.queue.bound) (hitems : ch'.items = ch.items ++ [job]) :
    Worked panics ch' w (sent ++ [job]) ran := by
  have hlive : w ≠ .dead := h.receiver.1 hopen
  refine ⟨hbound.trans h.bound, by simp [hch, hlive], fun _ => ?_, h.idle, h.running,
    fun hdead => absurd hdead hlive⟩
  rw [h.share hlive, hitems, List.append_assoc]

theorem Worked.recv {ch' : SyncChannel ℕ} (h : Worked panics ch .idle sent ran)
    (hitems : ch.items = job :: ch'.items) (hch : ch'.receiver = ch.receiver)
    (hbound : ch'.queue.bound = ch.queue.bound) :
    Worked panics ch' (.running job) sent (ran ++ [job]) := by
  refine ⟨hbound.trans h.bound, ?_, fun _ => ?_, fun hidle => (by cases hidle), ?_,
    fun hdead => (by cases hdead)⟩
  · rw [hch, h.receiver]
    simp
  · rw [h.share (by simp), hitems]
    simp
  · rintro k hk
    cases hk
    exact ⟨ran, rfl, h.idle rfl⟩

theorem Worked.done (h : Worked panics ch (.running job) sent ran) (hok : panics job = false) :
    Worked panics ch .idle sent ran := by
  obtain ⟨before, hran, hbefore⟩ := h.running job rfl
  refine ⟨h.bound, by simp [h.receiver], fun _ => h.share (by simp), fun _ k hk => ?_,
    fun k hk => (by cases hk), fun hdead => (by cases hdead)⟩
  rw [hran] at hk
  rcases List.mem_append.1 hk with hk | hk
  · exact hbefore k hk
  · rw [List.mem_singleton.1 hk]
    exact hok

theorem Worked.panic (h : Worked panics ch (.running job) sent ran) (hpanic : panics job = true) :
    Worked panics ch.close .dead sent ran := by
  obtain ⟨before, hran, hbefore⟩ := h.running job rfl
  refine ⟨h.bound, by simp, fun hlive => absurd rfl hlive, fun hidle => (by cases hidle),
    fun k hk => (by cases hk), fun _ => ⟨before, job, ch.items, hran, ?_, hpanic, hbefore⟩⟩
  exact h.share (by simp)

/-- A worker runs its jobs in order, and none after one that panicked. -/
theorem Worked.ran_isPrefix_upToPanic (h : Worked panics ch w sent ran) :
    ran <+: upToPanic panics sent := by
  cases w with
  | idle =>
    rw [h.share (by simp), upToPanic_of_forall (h.idle rfl)]
    exact List.prefix_append _ _
  | running job =>
    obtain ⟨before, hran, hbefore⟩ := h.running job rfl
    rw [h.share (by simp), hran, List.append_assoc, upToPanic_of_forall hbefore,
      List.prefix_append_right_inj, List.singleton_append, upToPanic]
    split
    · exact List.prefix_rfl
    · simp
  | dead =>
    obtain ⟨before, job, after, hran, hsent, hpanic, hbefore⟩ := h.dead rfl
    rw [hsent, hran, List.append_assoc, upToPanic_of_forall hbefore]
    simp [upToPanic, hpanic]

/-- A worker that has nothing to do has run its jobs up to the first that panicked. -/
theorem Worked.ran_eq (h : Worked panics ch w sent ran) (hrunning : ∀ job, w ≠ .running job)
    (hitems : w ≠ .dead → ch.items = []) : ran = upToPanic panics sent := by
  cases w with
  | idle =>
    rw [h.share (by simp), hitems (by simp), upToPanic_of_forall (h.idle rfl)]
    simp [upToPanic]
  | running job => exact absurd rfl (hrunning job)
  | dead =>
    obtain ⟨before, job, after, hran, hsent, hpanic, hbefore⟩ := h.dead rfl
    rw [hsent, hran, List.append_assoc, upToPanic_of_forall hbefore]
    simp [upToPanic, hpanic]

/-! ### All the calls -/

/-- The invariant of the pool. -/
structure Shared (n : ℕ) (panics : ℕ → Bool) (s : PoolCalls) : Prop where
  numThreads : s.pool.numThreads = n
  cursor : s.pool.cursor < n
  storing : ∀ job v, s.call job = .storing v → v < n
  sending : ∀ job idx, s.call job = .sending idx → idx < n
  returned : ∀ job, s.call job = .returned →
    ∃ i < n, (s.sent i).count job = 1 ∧ ∀ i' ≠ i, job ∉ s.sent i'
  waiting : ∀ job, s.call job ≠ .returned → ∀ i, job ∉ s.sent i
  failed : ∀ job, s.call job = .failed → ∃ i < n, s.worker i = .dead
  worked : ∀ i, Worked panics (s.channel i) (s.worker i) (s.sent i) (s.ran i)

theorem Shared.init (hn : 0 < n) : Shared n panics (.init n) where
  numThreads := rfl
  cursor := hn
  storing _ _ h := by cases h
  sending _ _ h := by cases h
  returned _ h := by cases h
  waiting _ _ _ := by simp [PoolCalls.init]
  failed _ h := by cases h
  worked _ := .new

/-- A call moves without a send. -/
theorem Shared.setCall (h : Shared n panics s) {p : CallPc} (hold : s.call job ≠ .returned)
    (hnew : p ≠ .returned) (hstoring : ∀ v, p = .storing v → v < n)
    (hsending : ∀ idx, p = .sending idx → idx < n)
    (hfailed : p = .failed → ∃ i < n, s.worker i = .dead) :
    Shared n panics (s.setCall job p) where
  numThreads := h.numThreads
  cursor := h.cursor
  storing k v hk := by
    by_cases hkj : k = job
    · subst hkj
      exact hstoring v (by simpa [PoolCalls.setCall] using hk)
    · exact h.storing k v (by simpa [PoolCalls.setCall, hkj] using hk)
  sending k idx hk := by
    by_cases hkj : k = job
    · subst hkj
      exact hsending idx (by simpa [PoolCalls.setCall] using hk)
    · exact h.sending k idx (by simpa [PoolCalls.setCall, hkj] using hk)
  returned k hk := by
    by_cases hkj : k = job
    · subst hkj
      exact absurd (by simpa [PoolCalls.setCall] using hk) hnew
    · exact h.returned k (by simpa [PoolCalls.setCall, hkj] using hk)
  waiting k hk := by
    by_cases hkj : k = job
    · subst hkj
      exact h.waiting k hold
    · exact h.waiting k (by simpa [PoolCalls.setCall, hkj] using hk)
  failed k hk := by
    by_cases hkj : k = job
    · subst hkj
      exact hfailed (by simpa [PoolCalls.setCall] using hk)
    · exact h.failed k (by simpa [PoolCalls.setCall, hkj] using hk)
  worked := h.worked

/-- The job has been sent to one worker. -/
theorem Shared.send (h : Shared n panics s) {idx : ℕ} {ch : SyncChannel ℕ}
    (hcall : s.call job = .sending idx) (hopen : (s.channel idx).receiver = true)
    (hch : ch.receiver = true) (hbound : ch.queue.bound = (s.channel idx).queue.bound)
    (hitems : ch.items = (s.channel idx).items ++ [job]) :
    Shared n panics { s.setCall job .returned with
      channel := Function.update s.channel idx ch
      sent := Function.update s.sent idx (s.sent idx ++ [job]) } where
  numThreads := h.numThreads
  cursor := h.cursor
  storing k v hk := by
    by_cases hkj : k = job
    · simp [PoolCalls.setCall, hkj] at hk
    · exact h.storing k v (by simpa [PoolCalls.setCall, hkj] using hk)
  sending k v hk := by
    by_cases hkj : k = job
    · simp [PoolCalls.setCall, hkj] at hk
    · exact h.sending k v (by simpa [PoolCalls.setCall, hkj] using hk)
  returned k hk := by
    by_cases hkj : k = job
    · subst hkj
      have hnot := h.waiting k (by simp [hcall])
      refine ⟨idx, h.sending k idx hcall, ?_, fun i hi => ?_⟩
      · simpa using List.count_eq_zero.2 (hnot idx)
      · simpa [hi] using hnot i
    · obtain ⟨i, hi, hcount, hother⟩ := h.returned k (by simpa [PoolCalls.setCall, hkj] using hk)
      refine ⟨i, hi, ?_, fun i' hi' => ?_⟩
      · by_cases hii : i = idx
        · subst hii
          simpa [List.count_singleton, Ne.symm hkj] using hcount
        · simpa [hii] using hcount
      · by_cases hii : i' = idx
        · subst hii
          simpa [hkj] using hother i' hi'
        · simpa [hii] using hother i' hi'
  waiting k hk i := by
    have hkj : k ≠ job := by
      rintro rfl
      simp [PoolCalls.setCall] at hk
    have hnot := h.waiting k (by simpa [PoolCalls.setCall, hkj] using hk)
    by_cases hii : i = idx
    · subst hii
      simpa [hkj] using hnot i
    · simpa [hii] using hnot i
  failed k hk := by
    by_cases hkj : k = job
    · simp [PoolCalls.setCall, hkj] at hk
    · exact h.failed k (by simpa [PoolCalls.setCall, hkj] using hk)
  worked i := by
    by_cases hii : i = idx
    · subst hii
      simpa [PoolCalls.setCall] using (h.worked i).send hopen hch hbound hitems
    · simpa [PoolCalls.setCall, hii] using h.worked i

/-- One worker moves. -/
theorem Shared.work (h : Shared n panics s) {i : ℕ} {ch : SyncChannel ℕ} {w : WorkerPc}
    {ran : List ℕ} (hlive : s.worker i ≠ .dead)
    (hi : Worked panics ch w (s.sent i) ran) :
    Shared n panics { s with
      channel := Function.update s.channel i ch
      worker := Function.update s.worker i w
      ran := Function.update s.ran i ran } where
  numThreads := h.numThreads
  cursor := h.cursor
  storing := h.storing
  sending := h.sending
  returned := h.returned
  waiting := h.waiting
  failed k hk := by
    obtain ⟨i', hi', hdead⟩ := h.failed k hk
    refine ⟨i', hi', ?_⟩
    have hne : i' ≠ i := by
      rintro rfl
      exact hlive hdead
    simpa [hne] using hdead
  worked i' := by
    by_cases hii : i' = i
    · subst hii
      simpa using hi
    · simpa [hii] using h.worked i'

theorem Shared.next (h : Shared n panics s) (hs : Next panics s a s') : Shared n panics s' := by
  have hn : 0 < n := (Nat.zero_le _).trans_lt h.cursor
  cases hs with
  | execute hcall => exact h.setCall (by simp [hcall]) (by simp) (by simp) (by simp) (by simp)
  | load hcall =>
    refine h.setCall (by simp [hcall]) (by simp) ?_ (by simp) (by simp)
    rintro v ⟨rfl⟩
    exact h.cursor
  | @store job v hcall =>
    have hmoved : Shared n panics (s.setCall job (.sending v)) := by
      refine h.setCall (by simp [hcall]) (by simp) (by simp) ?_ (by simp)
      rintro idx ⟨rfl⟩
      exact h.storing job v hcall
    refine { hmoved with numThreads := h.numThreads, cursor := ?_ }
    rw [h.numThreads]
    exact Nat.mod_lt _ hn
  | send hcall hidx hopen hch hbound hitems => exact h.send hcall hopen hch hbound hitems
  | @fail job idx hcall hgone =>
    refine h.setCall (by simp [hcall]) (by simp) (by simp) (by simp) fun _ => ?_
    have hidx := h.sending job idx hcall
    rcases hgone with hgone | hgone
    · rw [h.numThreads] at hgone
      exact absurd hidx (not_lt.2 hgone)
    · refine ⟨idx, hidx, ?_⟩
      by_contra hlive
      rw [(h.worked idx).receiver.2 hlive] at hgone
      cases hgone
  | @recv i job ch hi hidle hitems hch hbound =>
    have hworked := h.worked i
    rw [hidle] at hworked
    exact h.work (by simp [hidle]) (hworked.recv hitems hch hbound)
  | @done i job hrun hok =>
    have hworked := h.worked i
    rw [hrun] at hworked
    simpa using h.work (i := i) (by simp [hrun]) (hworked.done hok)
  | @panic i job hrun hpanic =>
    have hworked := h.worked i
    rw [hrun] at hworked
    simpa using h.work (i := i) (by simp [hrun]) (hworked.panic hpanic)

theorem shared (hn : 0 < n) (h : (poolCalls n panics).Reachable s) : Shared n panics s := by
  refine h.invariant ?_ fun s a s' hI hs => hI.next (next_of_step hs)
  rintro s rfl
  exact .init hn

/-- Nobody but a new caller can move. -/
def AtRest (panics : ℕ → Bool) (s : PoolCalls) : Prop :=
  ∀ a, (∀ job, a ≠ .execute job) → s.step panics a = none

theorem AtRest.worker (h : AtRest panics s) (i job : ℕ) : s.worker i ≠ .running job := by
  intro hrun
  have hdone := h (.done i) (by simp)
  simp only [step, hrun] at hdone
  split at hdone <;> cases hdone

theorem AtRest.items (h : AtRest panics s) (hs : Shared n panics s) {i : ℕ} (hi : i < n)
    (hlive : s.worker i ≠ .dead) : (s.channel i).items = [] := by
  have hidle : s.worker i = .idle := by
    cases hw : s.worker i with
    | idle => rfl
    | running job => exact absurd hw (h.worker i job)
    | dead => exact absurd hw hlive
  have hrecv := h (.recv i) (by simp)
  rw [step, if_pos ⟨by rwa [hs.numThreads], hidle⟩, Option.map_eq_none_iff] at hrecv
  exact SyncChannel.recv_eq_none_iff.1 hrecv

/-- No call is left inside `execute`. -/
theorem AtRest.call (h : AtRest panics s) (hs : Shared n panics s) (job : ℕ) :
    s.call job = .new ∨ s.call job = .returned ∨ s.call job = .failed := by
  cases hcall : s.call job with
  | new | returned | failed => simp
  | loading =>
    have hload := h (.load job) (by simp)
    simp [step, hcall] at hload
  | storing v =>
    have hstore := h (.store job) (by simp)
    simp [step, hcall] at hstore
  | sending idx =>
    have hsend := h (.send job) (by simp)
    have hidx := hs.sending job idx hcall
    simp only [step, hcall, hs.numThreads, if_pos hidx] at hsend
    by_cases hlive : s.worker idx = .dead
    · have hclosed : (s.channel idx).receiver = false := by
        rw [← Bool.not_eq_true, (hs.worked idx).receiver]
        exact not_not_intro hlive
      simp [SyncChannel.send, hclosed] at hsend
    · obtain ⟨ch, hch⟩ := SyncChannel.send_ne_error job ((hs.worked idx).receiver.2 hlive)
        (by rw [h.items hs hidx hlive, (hs.worked idx).bound]; decide)
      simp [hch] at hsend

/-- For any number of threads that call `execute` at once, with the load and the store of the
cursor apart: every index is in range; a job whose call has returned was sent to one worker, once,
and any other job to none; each worker runs the jobs sent to it in that order, up to the first that
panics; a call fails only after a job has panicked; and when nothing can move, no call is left
inside `execute`, and each worker has run all its jobs up to the first that panics. -/
theorem concurrent_served (hn : 0 < n) (h : (poolCalls n panics).Reachable s) :
    s.pool.cursor < n ∧ (∀ job idx, s.call job = .sending idx → idx < n) ∧
      (∀ job, s.call job = .returned →
        ∃ i < n, (s.sent i).count job = 1 ∧ ∀ i' ≠ i, job ∉ s.sent i') ∧
      (∀ job, s.call job ≠ .returned → ∀ i, job ∉ s.sent i) ∧
      (∀ i, s.ran i <+: upToPanic panics (s.sent i)) ∧
      (∀ job, s.call job = .failed → ∃ i < n, ∃ k ∈ s.ran i, panics k = true) ∧
      (AtRest panics s →
        (∀ job, s.call job = .new ∨ s.call job = .returned ∨ s.call job = .failed) ∧
          ∀ i < n, s.ran i = upToPanic panics (s.sent i)) := by
  have hs := shared hn h
  refine ⟨hs.cursor, hs.sending, hs.returned, hs.waiting,
    fun i => (hs.worked i).ran_isPrefix_upToPanic,
    fun job hjob => ?_, fun hrest => ⟨hrest.call hs, fun i hi => ?_⟩⟩
  · obtain ⟨i, hi, hdead⟩ := hs.failed job hjob
    obtain ⟨before, k, after, hran, -, hpanic, -⟩ := (hs.worked i).dead hdead
    exact ⟨i, hi, k, by simp [hran], hpanic⟩
  · exact (hs.worked i).ran_eq (hrest.worker i) (hrest.items hs hi)

/-- Two calls load the same value of the cursor, and both jobs go to worker `0` of `2`. -/
def sameTurn : List PoolCallsLabel :=
  [.execute 7, .execute 8, .load 7, .load 8, .store 7, .store 8, .send 8, .send 7, .recv 0, .done 0,
    .recv 0]

theorem concurrent_served_sameTurn : ∃ s : PoolCalls, s.sent 0 = [8, 7] ∧ s.pool.cursor = 1 ∧
    s.ran 0 <+: upToPanic (· = 7) (s.sent 0) := by
  obtain ⟨s, hs, hsent, hcursor⟩ := TransitionSystem.exists_reachableUnder
    (S := poolCalls 2 (· = 7)) (C := fun _ _ => True) rfl sameTurn
    (p := fun s => s.sent 0 = [8, 7] ∧ s.pool.cursor = 1) (by decide)
  exact ⟨s, hsent, hcursor, (concurrent_served (by decide) hs).2.2.2.2.1 0⟩

/-! ### Every job is run -/

/-- A step of the worker. -/
def Works (i : ℕ) (a : PoolCallsLabel) : Prop := a = .recv i ∨ a = .done i

/-- What is left of the job that the worker runs. -/
def busy : WorkerPc → ℕ
  | .running _ => 1
  | .idle | .dead => 0

theorem enabled_works (h : Shared n panics s) {i : ℕ} (hi : i < n) (hlive : s.worker i ≠ .dead)
    (hitems : (s.channel i).items ≠ []) : (poolCalls n panics).Enabled (Works i) s := by
  cases hw : s.worker i with
  | idle =>
    refine ⟨.recv i, .inl rfl, ?_⟩
    cases hrecv : (s.channel i).recv with
    | none => exact absurd (SyncChannel.recv_eq_none_iff.1 hrecv) hitems
    | some p => simp [poolCalls, step, h.numThreads, hi, hw, hrecv]
  | running job =>
    refine ⟨.done i, .inr rfl, ?_⟩
    cases hpanic : panics job <;> simp [poolCalls, step, hw, hpanic]
  | dead => exact absurd hw hlive

/-- A job in a channel moves up until its worker takes it, or is gone. -/
theorem ranking_channel {i : ℕ} (hi : i < n) (job : ℕ) :
    (poolCalls n panics).Ranking (fun _ _ => True) (Shared n panics)
      (fun s => job ∈ (s.channel i).items) (fun s => job ∈ s.ran i ∨ s.worker i = .dead)
      {i | i < n} Works (fun k _ => k = i)
      (fun s => 2 * (s.channel i).items.idxOf job + busy (s.worker i)) where
  party _ _ _ _ := ⟨i, hi, rfl⟩
  enabled := by
    rintro s k h hP hQ rfl
    exact enabled_works h hi (fun hdead => hQ (.inr hdead)) (List.ne_nil_of_mem hP)
  step := by
    rintro s a s' k h hP hQ rfl - hs
    cases next_of_step hs with
    | execute | load | store | fail => exact .inr ⟨hP, .inr ⟨rfl, by simp [Works], rfl⟩⟩
    | @send job' idx ch hcall hidx hopen hch hbound hitems =>
      by_cases hki : k = idx
      · subst hki
        refine .inr ⟨by simp [hitems, hP], .inr ⟨?_, by simp [Works], rfl⟩⟩
        simp [PoolCalls.setCall, hitems, List.idxOf_append_of_mem hP]
      · exact .inr ⟨by simpa [hki] using hP,
          .inr ⟨by simp [PoolCalls.setCall, hki], by simp [Works], rfl⟩⟩
    | @recv i job' ch _ hidle hitems =>
      by_cases hki : k = i
      · subst hki
        rw [hitems] at hP
        by_cases hjob : job' = job
        · exact .inl (.inl (by simp [hjob]))
        · have hmem : job ∈ ch.items := (List.mem_cons.1 hP).resolve_left (Ne.symm hjob)
          refine .inr ⟨by simpa using hmem, .inl ?_⟩
          simp only [Function.update_self, hitems, hidle, busy, List.idxOf_cons_ne _ hjob]
          omega
      · exact .inr ⟨by simpa [hki] using hP,
          .inr ⟨by simp [hki], by simp [Works, Ne.symm hki], rfl⟩⟩
    | @done i job' hrun =>
      by_cases hki : k = i
      · subst hki
        refine .inr ⟨hP, .inl ?_⟩
        simp [hrun, busy]
      · exact .inr ⟨hP, .inr ⟨by simp [hki], by simp [Works, Ne.symm hki], rfl⟩⟩
    | @panic i job' hrun =>
      by_cases hki : k = i
      · exact .inl (.inr (by simp [hki]))
      · exact .inr ⟨by simpa [hki] using hP,
          .inr ⟨by simp [hki], by simp [Works, Ne.symm hki], rfl⟩⟩

/-- In a run that leaves no worker aside for ever, a job whose `execute` call has returned is run,
unless a job that panicked has ended the worker to which it was sent. -/
theorem executed_runs (hn : 0 < n) (x : (poolCalls n panics).Execution)
    (hfair : ∀ i < n, x.WeaklyFair (Works i)) {k : ℕ}
    (hjob : (x.state k).call job = .returned) :
    ∃ m ≥ k, ∃ i < n, job ∈ (x.state k).sent i ∧
      (job ∈ (x.state m).ran i ∨ ∃ j ∈ (x.state m).ran i, panics j = true) := by
  have hshared : ∀ m, Shared n panics (x.state m) := fun m =>
    shared hn (x.reachable (C := fun _ _ => True) (fun _ _ _ => trivial) m)
  obtain ⟨i, hi, hcount, -⟩ := (hshared k).returned job hjob
  have hsent : job ∈ (x.state k).sent i := List.count_pos_iff.1 (by omega)
  have hruns : ∃ m ≥ k, job ∈ (x.state m).ran i ∨ (x.state m).worker i = .dead := by
    by_cases hdead : (x.state k).worker i = .dead
    · exact ⟨k, le_rfl, .inr hdead⟩
    · rw [((hshared k).worked i).share hdead] at hsent
      rcases List.mem_append.1 hsent with hran | hitems
      · exact ⟨k, le_rfl, .inl hran⟩
      · exact (ranking_channel hi job).leadsTo (fun _ _ _ => trivial) hshared hfair k hitems
  obtain ⟨m, hkm, hm⟩ := hruns
  refine ⟨m, hkm, i, hi, hsent, hm.imp_right fun hdead => ?_⟩
  obtain ⟨before, j, after, hran, -, hpanic, -⟩ := ((hshared m).worked i).dead hdead
  exact ⟨j, by simp [hran], hpanic⟩

theorem not_enabled_works {i : ℕ} (hidle : s.worker i = .idle) (hitems : (s.channel i).items = []) :
    ¬ (poolCalls n panics).Enabled (Works i) s := by
  have hrecv : (s.channel i).recv = none := SyncChannel.recv_eq_none_iff.2 hitems
  rintro ⟨a, rfl | rfl, hs⟩ <;> simp [poolCalls, step, hidle, hrecv] at hs

/-- One job, from its call to its end, and then nothing more. -/
def oneJob : (poolCalls 1 (fun _ => false)).Execution :=
  .ofRun (s := .init 1)
    [.execute 7, .load 7, .store 7, .send 7, .recv 0, .done 0] rfl (by decide)

theorem executed_runs_oneJob : ∃ m ≥ 4, ∃ i < 1, 7 ∈ (oneJob.state 4).sent i ∧
    (7 ∈ (oneJob.state m).ran i ∨ ∃ j ∈ (oneJob.state m).ran i, (fun _ => false) j = true) := by
  refine executed_runs (by decide) oneJob (fun i hi => ?_) (by decide)
  obtain rfl : i = 0 := by omega
  refine Execution.weaklyFair_of_not_enabled (n := 6) fun m hm => ?_
  have hrests : oneJob.state m = oneJob.state 6 := Execution.ofRun_state_of_length_le _ _ hm
  rw [hrests]
  exact not_enabled_works (by decide) (by decide)

end PoolCalls

end Hooch
