import Hooch.Net.Tcp
import Hooch.Task.Poll

/-!
# The result of a TCP set-up reaches its task

A task of the runtime awaits an `AsyncHoochTcpStream` or an `AsyncHoochTcpListener` while a worker
of the pool runs its job. The job stores its result and then wakes the task; a poll locks the state
once to see whether there is a result and once more to take it.

* `TcpAwait`, `step`, `tcpAwait`: the runtime, the future, the job and the poll of the one task,
  cut where they touch the state;
* `Next`: what a step does, one case each;
* `Ok`: which of the job's steps leave something for a later poll;
* `delivered_once`: the main result.
-/

namespace Hooch

/-- Where the task's poll stands in the poll of the future. -/
inductive AwaitPc
  | outside
  /-- At the first `self.state.lock()`. -/
  | checking
  /-- At the second one, after a result was seen. -/
  | taking
  /-- The poll of the future has returned `Pending`, and the poll of the task is to return it. -/
  | pending
  deriving DecidableEq

/-- The job is still to store its result, or to call `wake`. -/
def TcpJobPc.Unfinished {A W R : Type*} (job : TcpJobPc A W R) : Prop :=
  (∃ j, job = .queued j) ∨ (∃ j result, job = .ran j result) ∨ ∃ j, job = .stored j

/-- The parties. `submitted` counts the jobs that polls have handed to the pool, `outputs` lists
what polls of the future returned as `Ready`, and `failed` says that an `unwrap` has failed. -/
structure TcpAwait (τ A E S : Type*) where
  rt : Runtime τ
  future : AsyncTcp A E S
  pc : AwaitPc
  job : TcpJobPc A τ (Except E S)
  submitted : ℕ
  outputs : List (Except E S)
  failed : Bool

/-- Who moves. -/
inductive AwaitLabel (τ : Type*)
  /-- A step of the runtime that does not end a poll of the task. -/
  | base (a : Runtime.Label τ)
  /-- The task, polled by the executor, polls the future. -/
  | enter (e : ExecutorId)
  | check
  | take
  /-- The poll of the task ends. -/
  | leave (e : ExecutorId) (o : Outcome)
  /-- The job runs the system call. -/
  | run
  | store
  | wake

namespace TcpAwait

variable {τ A E S : Type*} [DecidableEq τ]

/-- The future has been polled and no poll has returned `Ready`. -/
def InFlight (s : TcpAwait τ A E S) : Prop := s.future.hasPolled = true ∧ s.outputs = []

instance (s : TcpAwait τ A E S) : Decidable s.InFlight := inferInstanceAs (Decidable (_ ∧ _))

/-- One step, for the task `t`. While the future is in flight every poll of the task polls it, and
returns `Pending` when it does. -/
def step (k : TcpCalls A E S) (t : τ) (s : TcpAwait τ A E S) :
    AwaitLabel τ → Option (TcpAwait τ A E S)
  | .base a => if s.rt.EndsPoll t a then none else (s.rt.step a).map fun rt => { s with rt := rt }
  | .enter e =>
      if s.rt.x.pc e = .polling t ∧ s.pc = .outside ∧ s.outputs = [] then
        if s.future.hasPolled then some { s with pc := .checking }
        else (s.future.start t).bind fun first => first.job.map fun job => { s with
          future := first.future
          pc := .pending
          job := .queued job
          submitted := s.submitted + 1 }
      else none
  | .check =>
      if s.pc = .checking then
        some { s with pc := if s.future.state.isNone then .pending else .taking }
      else none
  | .take =>
      if s.pc = .taking then
        match s.future.take with
        | some (result, future) => some { s with
            future := future
            pc := .outside
            outputs := s.outputs ++ [result] }
        | none => some { s with pc := .outside, failed := true }
      else none
  | .leave e o =>
      if s.rt.x.pc e = .polling t ∧
          (s.pc = .outside ∧ ¬ s.InFlight ∨ s.pc = .pending ∧ o = .pending) then
        (s.rt.step (.work (.polled e o))).map fun rt => { s with rt := rt, pc := .outside }
      else none
  | .run =>
      match s.job with
      | .queued job => some { s with job := .ran job (k.result job.socketAddr) }
      | _ => none
  | .store =>
      match s.job with
      | .ran job result => some { s with future := s.future.store result, job := .stored job }
      | _ => none
  | .wake =>
      match s.job with
      | .stored job =>
          (s.rt.step (.register job.waker)).map fun rt => { s with rt := rt, job := .finished }
      | _ => none

end TcpAwait

/-- The task `t` awaits a set-up of an address that resolves to `a` and perhaps more. -/
def tcpAwait {τ A E S : Type*} [DecidableEq τ] (k : TcpCalls A E S) (ids : List ExecutorId)
    (t : τ) (a : A) (as : List A) : TransitionSystem (TcpAwait τ A E S) (AwaitLabel τ) where
  init s := (runtime ids).init s.rt ∧
    s = ⟨s.rt, .new (.ok (a :: as)), .outside, .absent, 0, [], false⟩
  step := TcpAwait.step k t

namespace TcpAwait

variable {τ A E S : Type*} [DecidableEq τ] {k : TcpCalls A E S} {ids : List ExecutorId} {t : τ}
  {a : A} {as : List A} {s s' : TcpAwait τ A E S} {l : AwaitLabel τ}

/-- Every wake registers the task, and nobody aborts it. -/
def Woken (t : τ) (s : TcpAwait τ A E S) : AwaitLabel τ → Prop
  | .base (.register u) => u = t → s.rt.Registers t
  | .base (.abort u) => u ≠ t
  | .wake => s.rt.Registers t
  | _ => True

instance (l : AwaitLabel τ) : Decidable (Woken t s l) := by
  unfold Woken
  split <;> infer_instance

/-- The task awaits the future, and no executor polls it. -/
def Parked (t : τ) (s : TcpAwait τ A E S) : Prop :=
  s.InFlight ∧ ∀ e, s.rt.x.pc e ≠ .polling t

/-- How far the job is, and what that means for the future and its outputs. -/
inductive Progress (k : TcpCalls A E S) (t : τ) (a : A) (as : List A) :
    TcpJobPc A τ (Except E S) → AsyncTcp A E S → ℕ → List (Except E S) → Prop
  | absent : Progress k t a as .absent ⟨.ok (a :: as), none, false⟩ 0 []
  | queued : Progress k t a as (.queued ⟨a, t⟩) ⟨.ok (a :: as), none, true⟩ 1 []
  | ran : Progress k t a as (.ran ⟨a, t⟩ (k.result a)) ⟨.ok (a :: as), none, true⟩ 1 []
  | stored : Progress k t a as (.stored ⟨a, t⟩) ⟨.ok (a :: as), some (k.result a), true⟩ 1 []
  | finished : Progress k t a as .finished ⟨.ok (a :: as), some (k.result a), true⟩ 1 []
  /-- A poll, due to something else, has come before the wake. -/
  | early : Progress k t a as (.stored ⟨a, t⟩) ⟨.ok (a :: as), none, true⟩ 1 [k.result a]
  | taken : Progress k t a as .finished ⟨.ok (a :: as), none, true⟩ 1 [k.result a]

/-- The invariant. The last field is why no result is lost: after the wake the task is notified, or
a poll of it goes on that has not yet looked for the result in vain. -/
structure Ok (k : TcpCalls A E S) (ids : List ExecutorId) (t : τ) (a : A) (as : List A)
    (s : TcpAwait τ A E S) : Prop where
  hosted : s.rt.Hosted ids t
  progress : Progress k t a as s.job s.future s.submitted s.outputs
  failed : s.failed = false
  polling : s.pc ≠ .outside → ∃ e, s.rt.x.pc e = .polling t
  inFlight : s.pc ≠ .outside → s.InFlight
  taking : s.pc = .taking → s.future.state.isSome
  live : s.InFlight → (s.rt.x.task t).finished = false ∧ (s.rt.x.task t).panicked = false
  woken : s.InFlight → s.job = .finished →
    (s.rt.x.task t).notified = true ∨ (∃ e, s.rt.x.pc e = .polling t) ∧ s.pc ≠ .pending

theorem Ok.init (h : (tcpAwait k ids t a as).init s) : Ok k ids t a as s := by
  obtain ⟨hrt, hs⟩ := h
  rw [hs]
  exact ⟨.init hrt, .absent, rfl, fun h => absurd rfl h, fun h => absurd rfl h,
    fun h => (by cases h), fun h => absurd h.1 (by simp [AsyncTcp.new]), fun _ h => (by cases h)⟩

/-- A step of the runtime alone. -/
theorem Ok.base (h : Ok k ids t a as s) {b : Runtime.Label τ} {rt : Runtime τ}
    (hc : Woken t s (.base b)) (hends : ¬ s.rt.EndsPoll t b) (hs : s.rt.step b = some rt) :
    Ok k ids t a as { s with rt := rt } := by
  have hund := (Runtime.next_of_step hs).undisturbed hends
  have hwake : b = .register t → s.rt.Registers t := by
    rintro rfl
    exact hc rfl
  have habort : b ≠ .abort t := by
    rintro rfl
    exact hc rfl
  refine ⟨h.hosted.step hs hwake habort, h.progress, h.failed,
    fun hpc => (h.polling hpc).imp hund.polling, h.inFlight, h.taking, fun hin => ?_,
    fun hin hjob => ?_⟩
  · rw [hund.finished, hund.panicked]
    exact h.live hin
  · rcases h.woken hin hjob with hn | ⟨⟨e, he⟩, hpc⟩
    · rcases hund.notified hn with hn | ⟨e, hlocked, he⟩
      · exact .inl hn
      · -- The poll that begins is the only one.
        refine .inr ⟨⟨e, he⟩, fun hpc => ?_⟩
        obtain ⟨e', he'⟩ := h.polling (by rw [hpc]; simp)
        obtain rfl := h.hosted.ok.unique (t := t) (by rw [hlocked]; rfl) (by rw [he']; rfl)
        rw [hlocked] at he'
        cases he'
    · exact .inr ⟨⟨e, hund.polling e he⟩, hpc⟩

/-- The poll of the task ends, before or after the future is in flight or with `Pending`. -/
theorem Ok.leave (h : Ok k ids t a as s) {e : ExecutorId} {o : Outcome} {rt : Runtime τ}
    (hpc : s.rt.x.pc e = .polling t)
    (hend : s.pc = .outside ∧ ¬ s.InFlight ∨ s.pc = .pending ∧ o = .pending)
    (hs : s.rt.step (.work (.polled e o)) = some rt) :
    Ok k ids t a as { s with rt := rt, pc := .outside } := by
  refine ⟨h.hosted.step hs (fun h => by cases h) (fun h => by cases h), h.progress, h.failed,
    fun h => absurd rfl h, fun h => absurd rfl h, fun h => (by cases h), fun hin => ?_,
    fun hin hjob => ?_⟩
  all_goals
    rcases hend with ⟨-, hnot⟩ | ⟨hpending, rfl⟩
    · exact absurd hin hnot
    simp only [Runtime.step, Executors.step, hpc, Option.map_some, Option.some.injEq] at hs
    subst hs
  · exact h.live hin
  · rcases h.woken hin hjob with hn | ⟨-, hne⟩
    · exact .inl hn
    · exact absurd hpending hne

section Task

omit [DecidableEq τ]

/-- The first poll hands the job to the pool. -/
theorem Ok.start (h : Ok k ids t a as s) {e : ExecutorId} {first : AsyncTcp.Polled A E S τ}
    {job : ConnectFn A τ} (hpc : s.rt.x.pc e = .polling t) (hpolled : ¬ s.future.hasPolled = true)
    (hfirst : s.future.start t = some first) (hjob : first.job = some job) :
    Ok k ids t a as { s with
      future := first.future
      pc := .pending
      job := .queued job
      submitted := s.submitted + 1 } := by
  have hfinished := (h.hosted.ok.polling e t hpc).2
  have hpanicked := h.hosted.ok.not_panicked (e := e) (t := t) (by rw [hpc]; rfl) (by simp [hpc])
  obtain ⟨rt, future, pc, job', submitted, outputs, failed⟩ := s
  have hprogress := h.progress
  cases hprogress with
  | absent =>
    cases hfirst
    cases hjob
    exact ⟨h.hosted, .queued, h.failed, fun _ => ⟨e, hpc⟩, fun _ => ⟨rfl, rfl⟩,
      fun h => (by cases h), fun _ => ⟨hfinished, hpanicked⟩, fun _ h => (by cases h)⟩
  | _ => exact absurd rfl hpolled

/-- A later poll begins. -/
theorem Ok.enter (h : Ok k ids t a as s) {e : ExecutorId} (hpc : s.rt.x.pc e = .polling t)
    (hin : s.InFlight) : Ok k ids t a as { s with pc := .checking } :=
  ⟨h.hosted, h.progress, h.failed, fun _ => ⟨e, hpc⟩, fun _ => hin, fun h => (by cases h),
    h.live, fun _ _ => .inr ⟨⟨e, hpc⟩, by simp⟩⟩

/-- After the wake the poll finds the result. -/
theorem Ok.check (h : Ok k ids t a as s) (hpc : s.pc = .checking) :
    Ok k ids t a as { s with pc := if s.future.state.isNone then .pending else .taking } := by
  have hpolling := h.polling (by rw [hpc]; simp)
  have hin := h.inFlight (by rw [hpc]; simp)
  refine ⟨h.hosted, h.progress, h.failed, fun _ => hpolling, fun _ => hin, fun htaking => ?_,
    h.live, fun _ hjob => .inr ⟨hpolling, ?_⟩⟩
  · cases hstate : s.future.state with
    | none => simp [hstate] at htaking
    | some result => rfl
  · obtain ⟨rt, future, pc, job, submitted, outputs, failed⟩ := s
    have hprogress := h.progress
    cases hprogress with
    | finished => simp
    | taken => exact absurd hin.2 (by simp)
    | _ => cases hjob

/-- The second lock finds what the first one has seen. -/
theorem Ok.take (h : Ok k ids t a as s) (hpc : s.pc = .taking) :
    ∃ future, s.future.take = some (k.result a, future) ∧ Ok k ids t a as { s with
      future := future
      pc := .outside
      outputs := s.outputs ++ [k.result a] } := by
  have hsome := h.taking hpc
  obtain ⟨rt, future, pc, job, submitted, outputs, failed⟩ := s
  have hprogress := h.progress
  have hnot : ∀ future : AsyncTcp A E S, ¬ InFlight
      (⟨rt, future, .outside, job, submitted, [k.result a], failed⟩ : TcpAwait τ A E S) :=
    fun _ hin => absurd hin.2 (by simp)
  cases hprogress with
  | stored =>
    exact ⟨_, rfl, h.hosted, .early, h.failed, fun h => absurd rfl h, fun h => absurd rfl h,
      fun h => (by cases h), fun hin => absurd hin (hnot _), fun hin => absurd hin (hnot _)⟩
  | finished =>
    exact ⟨_, rfl, h.hosted, .taken, h.failed, fun h => absurd rfl h, fun h => absurd rfl h,
      fun h => (by cases h), fun hin => absurd hin (hnot _), fun hin => absurd hin (hnot _)⟩
  | _ => cases hsome

/-- The job runs the system call, or stores the result. -/
theorem Ok.job (h : Ok k ids t a as s) {future : AsyncTcp A E S} {job : TcpJobPc A τ (Except E S)}
    (hprogress : Progress k t a as job future s.submitted s.outputs)
    (hpolled : future.hasPolled = s.future.hasPolled) (hjob : job ≠ .finished)
    (hstate : s.future.state.isSome → future.state.isSome) :
    Ok k ids t a as { s with future := future, job := job } := by
  refine ⟨h.hosted, hprogress, h.failed, h.polling, fun hpc => ?_,
    fun hpc => hstate (h.taking hpc), fun hin => h.live ?_, fun _ hf => absurd hf hjob⟩
  · exact ⟨hpolled.trans (h.inFlight hpc).1, (h.inFlight hpc).2⟩
  · exact ⟨hpolled.symm.trans hin.1, hin.2⟩

end Task

/-- The wake notifies the task. -/
theorem Ok.wake (h : Ok k ids t a as s) {job : ConnectFn A τ} {rt : Runtime τ}
    (hjob : s.job = .stored job) (hc : s.rt.Registers t)
    (hs : s.rt.step (.register job.waker) = some rt) :
    Ok k ids t a as { s with rt := rt, job := .finished } := by
  have hwaker : job.waker = t := by
    have hprogress := h.progress
    rw [hjob] at hprogress
    generalize s.future = future, s.submitted = submitted, s.outputs = outputs at hprogress
    cases hprogress <;> rfl
  rw [hwaker] at hs
  have hund := (Runtime.next_of_step hs).undisturbed (t := t) (fun h => h)
  have hnotified : (rt.x.task t).notified = true := by
    simp only [Runtime.step] at hs
    split at hs <;> cases hs <;> simp [Executors.notify]
  refine ⟨h.hosted.step hs (fun _ => hc) (fun h => by cases h), ?_, h.failed,
    fun hpc => (h.polling hpc).imp hund.polling, h.inFlight, h.taking, fun hin => ?_,
    fun _ _ => .inl hnotified⟩
  · have hprogress := h.progress
    rw [hjob] at hprogress
    generalize s.future = future, s.submitted = submitted, s.outputs = outputs at hprogress ⊢
    cases hprogress with
    | stored => exact .finished
    | early => exact .taken
  · rw [hund.finished, hund.panicked]
    exact h.live hin

theorem Ok.step (h : Ok k ids t a as s) (hc : Woken t s l) (hs : s.step k t l = some s') :
    Ok k ids t a as s' := by
  cases l with
  | base b =>
    simp only [TcpAwait.step, Option.ite_none_left_eq_some, Option.map_eq_some_iff] at hs
    obtain ⟨hends, rt, hrt, rfl⟩ := hs
    exact h.base hc hends hrt
  | enter e =>
    simp only [TcpAwait.step, Option.ite_none_right_eq_some] at hs
    obtain ⟨⟨hpc, houtside, houtputs⟩, hs⟩ := hs
    split at hs
    · rename_i hpolled
      cases hs
      exact h.enter hpc ⟨hpolled, houtputs⟩
    · rename_i hpolled
      simp only [Option.bind_eq_some_iff, Option.map_eq_some_iff] at hs
      obtain ⟨first, hfirst, job, hjob, rfl⟩ := hs
      exact h.start hpc hpolled hfirst hjob
  | check =>
    simp only [TcpAwait.step, Option.ite_none_right_eq_some, Option.some.injEq] at hs
    obtain ⟨hpc, rfl⟩ := hs
    exact h.check hpc
  | take =>
    simp only [TcpAwait.step, Option.ite_none_right_eq_some] at hs
    obtain ⟨hpc, hs⟩ := hs
    obtain ⟨future, htake, hok⟩ := h.take hpc
    rw [htake] at hs
    cases hs
    exact hok
  | leave e o =>
    simp only [TcpAwait.step, Option.ite_none_right_eq_some, Option.map_eq_some_iff] at hs
    obtain ⟨⟨hpc, hend⟩, rt, hrt, rfl⟩ := hs
    exact h.leave hpc hend hrt
  | run =>
    simp only [TcpAwait.step] at hs
    split at hs
    · rename_i job hjob
      cases hs
      have hprogress := h.progress
      rw [hjob] at hprogress
      refine h.job ?_ rfl (by simp) id
      generalize s.future = future, s.submitted = submitted, s.outputs = outputs at hprogress ⊢
      cases hprogress
      exact .ran
    · cases hs
  | store =>
    simp only [TcpAwait.step] at hs
    split at hs
    · rename_i job result hjob
      cases hs
      have hprogress := h.progress
      rw [hjob] at hprogress
      refine h.job ?_ rfl (by simp) (fun _ => rfl)
      generalize s.future = future, s.submitted = submitted, s.outputs = outputs at hprogress ⊢
      cases hprogress
      exact .stored
    · cases hs
  | wake =>
    simp only [TcpAwait.step] at hs
    split at hs
    · rename_i job hjob
      rw [Option.map_eq_some_iff] at hs
      obtain ⟨rt, hrt, rfl⟩ := hs
      exact h.wake hjob hc hrt
    · cases hs

theorem ok (h : (tcpAwait k ids t a as).ReachableUnder (Woken t) s) : Ok k ids t a as s :=
  h.invariant (fun _ => .init) fun _ _ _ hok hc hs => hok.step hc hs

omit [DecidableEq τ] in
/-- A parked task that nothing is to deliver waits for the rest of the job. -/
theorem Ok.unfinished (h : Ok k ids t a as s) (hparked : Parked t s)
    (hpending : ¬ s.rt.Pending t) : s.job.Unfinished := by
  obtain ⟨hin, hidle⟩ := hparked
  have hjob : s.job ≠ .finished := by
    intro hjob
    rcases h.woken hin hjob with hn | ⟨⟨e, he⟩, -⟩
    · obtain ⟨hfinished, hpanicked⟩ := h.live hin
      exact hpending (h.hosted.pending ⟨hn, hfinished, hpanicked, h.hosted.abort⟩)
    · exact hidle e he
  have hprogress := h.progress
  obtain ⟨rt, future, pc, job, submitted, outputs, failed⟩ := s
  cases hprogress with
  | absent => cases hin.1
  | queued => exact .inl ⟨_, rfl⟩
  | ran => exact .inr (.inl ⟨_, _, rfl⟩)
  | stored | early => exact .inr (.inr ⟨_, rfl⟩)
  | finished | taken => exact absurd rfl hjob

/-- A stream or a listener, whichever `k` sets up, in every interleaving of one task's polls with
the job and the rest of the runtime: the job is submitted once, a parked task that nothing is to
deliver waits for the rest of the job, no poll but one is `Ready`, and that one with the result,
the task does not rest after the job without it, and no `unwrap` fails. -/
theorem delivered_once (h : (tcpAwait k ids t a as).ReachableUnder (Woken t) s) :
    (s.submitted = if s.future.hasPolled then 1 else 0) ∧
      (Parked t s → ¬ s.rt.Pending t → s.job.Unfinished) ∧
      (s.outputs = [] ∨ s.outputs = [k.result a]) ∧
      (s.job = .finished → (∀ e, s.rt.x.pc e ≠ .polling t) → ¬ s.rt.Pending t →
        s.outputs = [k.result a]) ∧
      s.failed = false := by
  have hok := ok h
  have hprogress := hok.progress
  refine ⟨?_, hok.unfinished, ?_, fun hjob hidle hpending => ?_, hok.failed⟩
  · generalize s.job = job, s.future = future, s.submitted = submitted, s.outputs = outputs
      at hprogress ⊢
    cases hprogress <;> rfl
  · generalize s.job = job, s.future = future, s.submitted = submitted, s.outputs = outputs
      at hprogress ⊢
    cases hprogress <;> simp
  · by_contra houtputs
    have hparked : Parked t s := by
      refine ⟨?_, hidle⟩
      rw [hjob] at hprogress
      unfold InFlight
      generalize s.future = future, s.submitted = submitted, s.outputs = outputs
        at hprogress houtputs ⊢
      cases hprogress with
      | finished => exact ⟨rfl, rfl⟩
      | taken => exact absurd rfl houtputs
    rcases hok.unfinished hparked hpending with ⟨j, hj⟩ | ⟨j, result, hj⟩ | ⟨j, hj⟩ <;>
      rw [hjob] at hj <;> cases hj

/-- The job of the task `5` stores its result, a poll due to something else takes it, and the wake
comes last. -/
def polledBeforeWake : List (AwaitLabel ℕ) :=
  [.base (.register 5), .base (.recv 0), .base (.work (.lock 0)), .base (.work (.look 0)),
    .enter 0, .run, .leave 0 .pending, .base (.work (.unlock 0)), .base (.ready 0), .store,
    .base (.register 5), .base (.recv 0), .base (.work (.lock 0)), .base (.work (.look 0)),
    .enter 0, .check, .take, .wake]

theorem delivered_once_polledBeforeWake :
    ∃ s : TcpAwait ℕ ℕ String ℕ, s.submitted = 1 ∧ s.outputs = [.ok 2] ∧ s.failed = false := by
  obtain ⟨s, hs, hpolled, houtputs⟩ := TransitionSystem.exists_reachableUnder
    (S := tcpAwait onlyTwo [0] 5 2 []) (C := Woken 5)
    (s := ⟨⟨_, .new, []⟩, .new (.ok [2]), .outside, .absent, 0, [], false⟩)
    ⟨⟨_, rfl, by decide, rfl⟩, rfl⟩ polledBeforeWake
    (p := fun s => s.future.hasPolled = true ∧ s.outputs.length = 1) (by decide)
  obtain ⟨hsubmitted, -, hout, -, hfailed⟩ := delivered_once hs
  refine ⟨s, by rw [hsubmitted, if_pos hpolled], ?_, hfailed⟩
  rcases hout with hnil | hone
  · rw [hnil] at houtputs
    cases houtputs
  · exact hone

end TcpAwait

end Hooch
