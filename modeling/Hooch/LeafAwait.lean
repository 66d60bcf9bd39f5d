import Hooch.Task.Await

/-!
# What a task sees of the leaf futures

`Sleep`, `AsyncHoochFile`, `AsyncHoochTcpStream` and `AsyncHoochTcpListener`, each awaited by one
task of the runtime. None of them has the task wait for an event that has come, and the runtime
takes the task from the event to a `Ready`. For a sleep the event is the timer's and comes with the
time; for a TCP set-up it is the wake of its job.

* `SleepLeaf.prompt`, `FileLeaf.prompt`, `TcpLeaf.prompt`: each is ready after its event;
* `leaf_futures_wait`: what a parked task waits for, for all of them;
* `leaf_futures_end`: a fair run gets from the event to a `Ready`, for all of them;
* `SleepLeaf.sleep_ends`: how long a sleep takes, and which sleeps end;
* `TcpLeaf.connect_ends`: every set-up that was polled ends.
-/

namespace Hooch

open TransitionSystem

/-! ### Each is ready after its event -/

namespace SleepLeaf

variable {E W : Type*} [DecidableEq W]

/-- What the others do, one case each. -/
inductive Happens (f : SleepLeaf W) : SleepOther W → SleepLeaf W → Option (Option W) → Prop
  | tick {now : ℕ} : Happens f (.tick now) { f with now := now } none
  | expire {m : ℕ} (htimer : f.sleep.timer = some (some m)) (hm : m ≤ f.now) :
      Happens f .expire
        { f with reactor := (f.reactor.event f.sleep.mioToken).2, expired := true }
        (some (f.reactor.event f.sleep.mioToken).1)
  | reactor {r : Reactor W}
      (hsame : r.statuses f.sleep.mioToken = f.reactor.statuses f.sleep.mioToken) :
      Happens f (.reactor r) { f with reactor := r } none

theorem happens_of_others {k : Timers E} {f f' : SleepLeaf W} {a : SleepOther W}
    {o : Option (Option W)} (h : (leaf k).others f a = some (f', o)) : Happens f a f' o := by
  cases a with
  | tick now =>
    cases h
    exact .tick
  | expire =>
    simp only [leaf] at h
    split at h
    · rename_i m htimer
      rw [Option.ite_none_right_eq_some] at h
      obtain ⟨⟨hm, -⟩, h⟩ := h
      cases h
      exact .expire htimer hm
    · cases h
  | reactor r =>
    simp only [leaf, Option.ite_none_right_eq_some] at h
    obtain ⟨hsame, h⟩ := h
    cases h
    exact .reactor hsame

/-- After the event of the timer the status says so. -/
structure Timed (f : SleepLeaf W) (polled processed : Bool) : Prop where
  hasPolled : f.sleep.hasPolled = polled
  expired : f.expired = processed
  timer : f.sleep.timer.isSome → polled = true
  happened : processed = true →
    polled = true ∧ f.reactor.statuses f.sleep.mioToken = some .happened

omit [DecidableEq W] in
theorem timed_new {d : Duration} {token : Token} {r : Reactor W} {now : ℕ} :
    Timed (.new d token r now) false false :=
  ⟨rfl, rfl, fun h => (by cases h), fun h => (by cases h)⟩

theorem prompt (k : Timers E) : (leaf k : Leaf (SleepLeaf W) W _).Prompt Timed where
  pending f polled w f' h hpoll := by
    simp only [leaf, Option.map_eq_some_iff, Prod.mk.injEq, Prod.exists] at hpoll
    obtain ⟨p, s, r, hpoll, hp, rfl⟩ := hpoll
    cases Sleep.polls_of_eq hpoll with
    | first => exact ⟨rfl, h.expired, fun _ => rfl, fun h => by cases h⟩
    | pending hpolled => exact ⟨hpolled, h.expired, fun _ => rfl, fun h => by cases h⟩
    | ready => cases hp
  panics f processed w h := by
    simp only [leaf, Sleep.poll, h.hasPolled, if_true, Option.isSome_map]
    split <;> rfl
  ready f w p h hpoll := by
    have hstatus := (h.happened rfl).2
    simp only [leaf, Sleep.poll, h.hasPolled, if_true, Reactor.hasTokenProgressed, hstatus,
      Option.map_some, Option.some.injEq] at hpoll
    rw [← hpoll]
    rfl
  unpolled f h := by
    have := (h.happened rfl).1
    cases this
  others f polled processed a p h hothers := by
    obtain ⟨f', o⟩ := p
    cases happens_of_others hothers with
    | tick => exact ⟨h.hasPolled, by simpa using h.expired, h.timer, by simpa using h.happened⟩
    | expire htimer =>
      have hpolled := h.timer (by simp [htimer])
      exact ⟨h.hasPolled, by simp, h.timer, fun _ => ⟨hpolled, by simp [Reactor.event]⟩⟩
    | reactor hsame =>
      refine ⟨h.hasPolled, by simpa using h.expired, h.timer, fun hp => ?_⟩
      rw [Option.isSome_none, Bool.or_false] at hp
      exact ⟨(h.happened hp).1, hsame.trans (h.happened hp).2⟩

end SleepLeaf

namespace FileLeaf

variable {P O R W : Type*} [DecidableEq W]

/-- From the job's store on the result is there, and only then is the event processed. The thread
takes the wake of the job, and when it is through with it the event was processed. -/
structure Stored (f : FileLeaf P O R W) (polled processed : Bool) : Prop where
  hasPolled : f.file.hasPolled = polled
  started : f.stage ≠ .absent → polled = true
  stored : f.file.fileHandle.isSome → f.stage ≠ .absent
  result : f.stage = .stored ∨ f.stage = .finished → f.file.fileHandle.isSome
  due : processed = true → f.file.fileHandle.isSome
  looked : f.file.fileHandle.isSome → f.looked = true → processed = true
  begun : f.jobWake ≠ .untaken → f.stage = .finished
  requested : f.stage = .finished → f.jobWake = .untaken → f.reactor.wakePending = true
  taken : f.jobWake = .taken → f.reactor.pc ≠ .polling
  handled : f.jobWake = .handled → processed = true

omit [DecidableEq W] in
theorem stored_new {path : P} {fileOperation : FileOperation O} {tag : ReactorTag}
    {r : Reactor W} : Stored (R := R) (.new path fileOperation tag r) false false :=
  ⟨rfl, fun h => absurd rfl h, fun h => (by cases h), fun h => (by simp [FileLeaf.new] at h),
    fun h => (by cases h), fun h => (by cases h), fun h => absurd rfl h, fun h => (by cases h),
    fun h => (by cases h), fun h => (by cases h)⟩

section Stored

omit [DecidableEq W]

variable {f : FileLeaf P O R W} {polled processed : Bool}

/-- Once the job has finished and the reactor thread has handled every wake, the event was
processed. -/
theorem Stored.processed_of_idle (h : Stored f polled processed) (hfinished : f.stage = .finished)
    (hidle : f.reactor.Idle) : processed = true := by
  cases hwake : f.jobWake with
  | untaken => exact absurd (h.requested hfinished hwake) (by simp [hidle.2])
  | taken => exact absurd hidle.1 (h.taken hwake)
  | handled => exact h.handled hwake

/-- Before the first poll there is no job. -/
theorem Stored.unpolled (h : Stored f false processed) :
    f.file.fileHandle = none ∧ f.jobWake = .untaken := by
  have habsent : f.stage = .absent := by
    by_contra hstage
    cases h.started hstage
  constructor
  · by_contra hsome
    exact h.stored (Option.isSome_iff_ne_none.2 hsome) habsent
  · by_contra hwake
    rw [h.begun hwake] at habsent
    cases habsent

/-- Before the job has finished, the thread has not taken its wake. -/
theorem Stored.untaken (h : Stored f polled processed) (hstage : f.stage ≠ .finished) :
    f.jobWake = .untaken := by
  by_contra hwake
  exact hstage (h.begun hwake)

/-- The reactor moves, and a wake that the job has requested stays unless the thread takes it. -/
theorem Stored.reactor (h : Stored f polled processed) {r : Reactor W}
    (hwake : f.reactor.wakePending = true → r.wakePending = true)
    (hpc : f.jobWake = .taken → r.pc ≠ .polling) :
    Stored { f with reactor := r } polled processed :=
  ⟨h.hasPolled, h.started, h.stored, h.result, h.due, h.looked, h.begun,
    fun hf hw => hwake (h.requested hf hw), hpc, h.handled⟩

/-- What the others do keeps the job and its wake in step. -/
theorem Stored.next {operate : BlockFn P O → R} {f' : FileLeaf P O R W} {a : FileOther W}
    {o : Option (Option W)} (h : Stored f polled processed) (hn : Happens operate f a f' o) :
    Stored f' polled (processed || o.isSome) := by
  cases hn with
  | run _ hstage =>
    have hpolled := h.started (by simp [hstage])
    have hwake := h.untaken (by simp [hstage])
    simp only [Option.isSome_none, Bool.or_false]
    exact ⟨h.hasPolled, fun _ => hpolled, fun _ => by simp, fun _ => rfl, fun _ => rfl,
      fun _ hl => (by cases hl), fun hw => absurd hwake hw, fun h => (by cases h), h.taken,
      h.handled⟩
  | wake hstage =>
    have hpolled := h.started (by simp [hstage])
    have hwake := h.untaken (by simp [hstage])
    simp only [Option.isSome_none, Bool.or_false]
    exact ⟨h.hasPolled, fun _ => hpolled, fun _ => by simp, fun _ => h.result (.inl hstage),
      h.due, h.looked, fun _ => rfl, fun _ _ => rfl, h.taken, h.handled⟩
  | take hpc hw =>
    simp only [Option.isSome_none, Bool.or_false]
    refine ⟨h.hasPolled, h.started, h.stored, h.result, h.due, h.looked, fun hwake => ?_,
      fun hf hwake => ?_, fun _ => by simp, fun hwake => h.handled ?_⟩
    · by_contra hf
      simp [hf, h.untaken hf] at hwake
    · replace hf : f.stage = .finished := hf
      by_cases hu : f.jobWake = .untaken <;> simp [hf, hu] at hwake
    · split at hwake
      · cases hwake
      · exact hwake
  | pop hpc | pass hpc =>
    simp only [Option.isSome_none, Bool.or_false]
    exact h.reactor id fun _ => by simp
  | emptied _ _ hwake =>
    simp only [Option.isSome_none, Bool.or_false]
    exact h.reactor id fun hw => absurd hw hwake
  | handled hpc hitems hwake =>
    have hfinished := h.begun (by simp [hwake])
    have hresult := h.result (.inr hfinished)
    have hprocessed : (processed || (if f.file.fileHandle.isSome ∧ f.looked = false then
        some (none : Option W) else none).isSome) = true := by
      cases hlooked : f.looked with
      | false => simp [hresult]
      | true => simp [h.looked hresult hlooked]
    rw [hprocessed]
    exact ⟨h.hasPolled, h.started, h.stored, h.result, fun _ => hresult, fun _ _ => rfl,
      fun _ => hfinished, fun _ hw => (by cases hw), fun hw => (by cases hw), fun _ => rfl⟩
  | look hpc hresult =>
    simp only [Option.isSome_some, Bool.or_true]
    exact ⟨h.hasPolled, h.started, h.stored, h.result, fun _ => hresult, fun _ _ => rfl, h.begun,
      h.requested, fun _ => by simp, fun _ => rfl⟩
  | reactor hr =>
    simp only [Option.isSome_none, Bool.or_false]
    exact h.reactor hr.wakePending fun hw => by rw [hr.pc]; exact h.taken hw

end Stored

theorem prompt (operate : BlockFn P O → R) :
    (leaf operate : Leaf (FileLeaf P O R W) W _).Prompt Stored where
  pending f polled w f' h hpoll := by
    simp only [leaf, Option.map_eq_some_iff, Prod.mk.injEq] at hpoll
    obtain ⟨p, hpoll, hp, rfl⟩ := hpoll
    cases AsyncHoochFile.polls_of_eq hpoll with
    | first hnot =>
      obtain rfl := h.hasPolled.symm.trans hnot
      obtain ⟨hnone, hwake⟩ := h.unpolled
      exact ⟨rfl, fun _ => rfl, fun _ => by simp, fun h => by simp at h, fun h => (by cases h),
        fun hr => absurd hr (by simp [hnone]), fun hw => absurd hwake hw, fun h => (by cases h),
        h.taken, fun hw => absurd (hwake.symm.trans hw) (by simp)⟩
    | pending hpolled =>
      exact ⟨hpolled, fun _ => rfl, h.stored, h.result, h.due, h.looked, h.begun, h.requested,
        h.taken, h.handled⟩
    | ready => cases hp
  panics f processed w h := by
    simp only [leaf, AsyncHoochFile.poll, h.hasPolled, Option.isSome_map]
    cases f.file.fileHandle <;> rfl
  ready f w p h hpoll := by
    have hresult := h.due rfl
    simp only [leaf, Option.map_eq_some_iff] at hpoll
    obtain ⟨q, hpoll, rfl⟩ := hpoll
    cases AsyncHoochFile.polls_of_eq hpoll with
    | first hpolled => exact absurd (h.hasPolled.symm.trans hpolled) (by simp)
    | pending _ hnone =>
      rw [hnone] at hresult
      cases hresult
    | ready => rfl
  unpolled f h := by
    have hresult := h.due rfl
    rw [h.unpolled.1] at hresult
    cases hresult
  others _ _ _ _ _ h hothers := h.next (happens_of_others hothers)

end FileLeaf

namespace TcpLeaf

variable {A E S W : Type*}

/-- What the job does, one case each. -/
inductive Happens (k : TcpCalls A E S) (f : TcpLeaf A E S W) :
    TcpOther → TcpLeaf A E S W → Option (Option W) → Prop
  | run {job : ConnectFn A W} (hjob : f.job = .queued job) :
      Happens k f .run { f with job := .ran job (k.result job.socketAddr) } none
  | store {job : ConnectFn A W} {result : Except E S} (hjob : f.job = .ran job result) :
      Happens k f .store ⟨f.tcp.store result, .stored job⟩ none
  | wake {job : ConnectFn A W} (hjob : f.job = .stored job) :
      Happens k f .wake { f with job := .finished } (some (some job.waker))

theorem happens_of_others {k : TcpCalls A E S} {f f' : TcpLeaf A E S W} {a : TcpOther}
    {o : Option (Option W)} (h : (leaf k).others f a = some (f', o)) : Happens k f a f' o := by
  cases a with
  | run =>
    simp only [leaf] at h
    split at h
    · rename_i job hjob
      cases h
      exact .run hjob
    · cases h
  | store =>
    simp only [leaf] at h
    split at h
    · rename_i job result hjob
      cases h
      exact .store hjob
    · cases h
  | wake =>
    simp only [leaf] at h
    split at h
    · rename_i job hjob
      cases h
      exact .wake hjob
    · cases h

/-- The first poll submits the job. From the job's store on the result is there, and after its wake
the job has finished. -/
structure Stored (f : TcpLeaf A E S W) (polled processed : Bool) : Prop where
  hasPolled : f.tcp.hasPolled = polled
  started : f.job ≠ .absent ↔ polled = true
  result : (∃ job, f.job = .stored job) ∨ f.job = .finished → f.tcp.state.isSome
  finished : processed = true ↔ f.job = .finished

theorem stored_new {addr : Except E (List A)} :
    Stored (.new addr : TcpLeaf A E S W) false false :=
  ⟨rfl, by simp [TcpLeaf.new], fun h => (by simp [TcpLeaf.new] at h), by simp [TcpLeaf.new]⟩

theorem prompt (k : TcpCalls A E S) : (leaf k : Leaf (TcpLeaf A E S W) W _).Prompt Stored where
  pending f polled w f' h hpoll := by
    simp only [leaf, Option.map_eq_some_iff, Prod.mk.injEq] at hpoll
    obtain ⟨p, hpoll, hp, rfl⟩ := hpoll
    cases AsyncTcp.polls_of_eq hpoll with
    | first => exact ⟨rfl, by simp, fun h => by simp at h, by simp⟩
    | pending hpolled =>
      have hstarted := h.started.2 (h.hasPolled.symm.trans hpolled)
      exact ⟨hpolled, by simpa using hstarted, h.result, h.finished⟩
    | ready => cases hp
  panics f processed w h := by
    simp only [leaf, AsyncTcp.poll, h.hasPolled, Option.isSome_map]
    cases hstate : f.tcp.state <;> simp [AsyncTcp.take, hstate]
  ready f w p h hpoll := by
    have hresult := h.result (.inr (h.finished.1 rfl))
    simp only [leaf, Option.map_eq_some_iff] at hpoll
    obtain ⟨q, hpoll, rfl⟩ := hpoll
    cases AsyncTcp.polls_of_eq hpoll with
    | first hpolled => exact absurd (h.hasPolled.symm.trans hpolled) (by simp)
    | pending _ hnone =>
      rw [hnone] at hresult
      cases hresult
    | ready => rfl
  unpolled f h := by
    have := h.started.1 (by simp [h.finished.1 rfl])
    cases this
  others f polled processed a p h hothers := by
    obtain ⟨f', o⟩ := p
    have hearly : f.job ≠ .finished → processed = false := by
      intro hjob
      cases processed with
      | false => rfl
      | true => exact absurd (h.finished.1 rfl) hjob
    cases happens_of_others hothers with
    | run hjob =>
      have hpolled := h.started.1 (by simp [hjob])
      exact ⟨h.hasPolled, by simp [hpolled], fun hr => (by simp at hr),
        by simp [hearly (by simp [hjob])]⟩
    | store hjob =>
      have hpolled := h.started.1 (by simp [hjob])
      exact ⟨h.hasPolled, by simp [hpolled], fun _ => rfl, by simp [hearly (by simp [hjob])]⟩
    | wake hjob =>
      have hpolled := h.started.1 (by simp [hjob])
      exact ⟨h.hasPolled, by simp [hpolled], fun _ => h.result (.inl ⟨_, hjob⟩), by simp⟩

end TcpLeaf

/-! ### A sleep ends with the time -/

namespace SleepLeaf

open Awaiting

variable {E τ : Type*} [DecidableEq τ] {k : Timers E} {ids : List ExecutorId} {t : τ}
  {d : Duration} {token : Token} {r : Reactor τ} {now : ℕ} {timer : Option ℕ}
  {f f' : SleepLeaf τ} {b : Bool}

/-- Time goes on. -/
def Forward (s : Awaiting (SleepLeaf τ) τ) : Awaiting.Label τ (SleepOther τ) → Prop
  | .others (.tick now) => s.future.now ≤ now
  | _ => True

/-- What a sleep keeps whose first poll has set the timer: the event does not come early. -/
structure Armed (timer : Option ℕ) (f : SleepLeaf τ) : Prop where
  hasPolled : f.sleep.hasPolled = true
  timer_eq : f.sleep.timer = some timer
  expired : f.expired = true → ∃ m, timer = some m ∧ m ≤ f.now

/-- A step of a run, by what it does to a sleep: nothing, a poll, or a step of the others that does
not turn the clock back. -/
inductive Advances (k : Timers E) (t : τ) (f : SleepLeaf τ) : SleepLeaf τ → Prop
  | same : Advances k t f f
  | poll {b : Bool} {f' : SleepLeaf τ} (hpoll : (leaf k).poll f t = some (b, f')) :
      Advances k t f f'
  | others {a : SleepOther τ} {f' : SleepLeaf τ} {o : Option (Option τ)}
      (hothers : (leaf k).others f a = some (f', o)) (hnow : f.now ≤ f'.now) : Advances k t f f'

theorem Advances.of_others {a : SleepOther τ} {o : Option (Option τ)}
    (hforward : ∀ now, a = .tick now → f.now ≤ now)
    (hothers : (leaf k).others f a = some (f', o)) : Advances k t f f' := by
  refine .others hothers ?_
  cases happens_of_others hothers with
  | tick => exact hforward _ rfl
  | expire | reactor => exact le_rfl

/-- A poll, by what it does to the sleep. -/
theorem polls_of_poll (h : (leaf k).poll f t = some (b, f')) :
    ∃ p s r, f.sleep.Polls f.reactor t p s r ∧ p.isPending = b ∧
      f' = { f with sleep := s, reactor := r } := by
  simp only [leaf, Option.map_eq_some_iff, Prod.mk.injEq, Prod.exists] at h
  obtain ⟨p, s, r, hpoll, hp, rfl⟩ := h
  exact ⟨p, s, r, Sleep.polls_of_eq hpoll, hp, rfl⟩

theorem Advances.duration_eq (h : Advances k t f f') :
    f'.sleep.duration = f.sleep.duration := by
  cases h with
  | same => rfl
  | poll hpoll =>
    obtain ⟨p, s, r, hpolls, -, rfl⟩ := polls_of_poll hpoll
    cases hpolls <;> rfl
  | others hothers => cases happens_of_others hothers <;> rfl

theorem Advances.now_le (h : Advances k t f f') : f.now ≤ f'.now := by
  cases h with
  | same => exact le_rfl
  | poll hpoll =>
    obtain ⟨p, s, r, -, -, rfl⟩ := polls_of_poll hpoll
    exact le_rfl
  | others _ hnow => exact hnow

theorem Advances.expired (h : Advances k t f f') (hexpired : f.expired = true) :
    f'.expired = true := by
  cases h with
  | same => exact hexpired
  | poll hpoll =>
    obtain ⟨p, s, r, -, -, rfl⟩ := polls_of_poll hpoll
    exact hexpired
  | others hothers =>
    cases happens_of_others hothers with
    | expire => rfl
    | tick | reactor => exact hexpired

/-- The later polls change nothing. -/
theorem Armed.poll_eq (h : Armed timer f) (hpoll : (leaf k).poll f t = some (b, f')) :
    f' = f := by
  obtain ⟨p, s, r, hpolls, -, rfl⟩ := polls_of_poll hpoll
  cases hpolls with
  | first hnot => exact absurd (h.hasPolled.symm.trans hnot) (by simp)
  | pending | ready => rfl

theorem Armed.next (h : Armed timer f) (hn : Advances k t f f') : Armed timer f' := by
  cases hn with
  | same => exact h
  | poll hpoll => rwa [h.poll_eq hpoll]
  | others hothers hnow =>
    cases happens_of_others hothers with
    | expire htimer hm =>
      exact ⟨h.hasPolled, h.timer_eq,
        fun _ => ⟨_, Option.some.inj (h.timer_eq.symm.trans htimer), hm⟩⟩
    | tick =>
      refine ⟨h.hasPolled, h.timer_eq, fun hexpired => ?_⟩
      obtain ⟨m, hm, hle⟩ := h.expired hexpired
      exact ⟨m, hm, hle.trans hnow⟩
    | reactor => exact ⟨h.hasPolled, h.timer_eq, h.expired⟩

omit [DecidableEq τ] in
/-- The event comes after the duration, which is not zero, or at the last moment of the clock. -/
theorem Armed.elapsed (h : Armed timer f) (hk : k.Documented) {start : ℕ}
    (hset : k.set start (k.fromDuration d) = .ok timer) (hexpired : f.expired = true) :
    0 < d.toNanos ∧ min (start + d.toNanos) Timers.lastMoment ≤ f.now := by
  obtain ⟨-, hpos, hle⟩ := hk.set_eq_ok hset
  obtain ⟨m, rfl, hm⟩ := h.expired hexpired
  exact ⟨hpos.1 rfl, (hle m rfl).trans hm⟩

/-- A poll is `Ready` after the event only: before, the status still awaits the task. -/
theorem expired_of_ready {ws : List τ} (hfirst : First f ws)
    (hpoll : (leaf k).poll f t = some (false, f')) : f.expired = true := by
  obtain ⟨p, s, r, hpolls, hp, -⟩ := polls_of_poll hpoll
  cases hpolls with
  | ready hpolled hstatus =>
    by_contra hexpired
    rw [Bool.not_eq_true] at hexpired
    rcases hfirst with ⟨hnot, -⟩ | ⟨-, w, ws, -, hw⟩
    · exact absurd (hpolled.symm.trans hnot) (by simp)
    · simp [Reactor.hasTokenProgressed, hw hexpired] at hstatus
  | _ => cases hp

/-- The first poll that does not panic sets the timer. -/
theorem armed_of_first {processed : Bool} (htimed : Timed f false processed)
    (hpoll : (leaf k).poll f t = some (b, f')) : ∃ timer,
      k.set f.now (k.fromDuration f.sleep.duration) = .ok timer ∧ Armed timer f' := by
  have htimer : f.sleep.timer = none := by
    cases htimer : f.sleep.timer with
    | none => rfl
    | some m => exact absurd (htimed.timer (by simp [htimer])) (by simp)
  have hsleep : f.sleep = .fromDuration f.sleep.duration f.sleep.mioToken := by
    rw [Sleep.fromDuration, ← htimer, ← htimed.hasPolled]
  simp only [leaf, Option.map_eq_some_iff, Prod.mk.injEq, Prod.exists] at hpoll
  obtain ⟨p, s, r, hpoll, -, rfl⟩ := hpoll
  rw [hsleep] at hpoll
  obtain ⟨-, -, timer, hset, -, rfl, -⟩ := Sleep.first_poll_eq_some.1 hpoll
  exact ⟨timer, hset, rfl, rfl,
    fun he => absurd (htimed.happened (htimed.expired.symm.trans he)).1 (by simp)⟩

/-- When its moment has come the event can be processed. -/
theorem isSome_expire {m : ℕ} (htimer : f.sleep.timer = some (some m)) (hm : m ≤ f.now)
    (hexpired : f.expired = false) : ((leaf k).others f .expire).isSome := by
  simp [leaf, htimer, hm, hexpired]

/-! ### A sleep inside a system -/

section Inside

variable {σ α : Type*} {S : TransitionSystem σ α} {x : S.Execution} {view : σ → SleepLeaf τ}

/-- In the run the sleep is polled by the task and left to the others otherwise. -/
def Inside (k : Timers E) (t : τ) (view : σ → SleepLeaf τ) (x : S.Execution) : Prop :=
  ∀ n, Advances k t (view (x.state n)) (view (x.state (n + 1)))

theorem Inside.duration_eq (h : Inside k t view x) (n : ℕ) :
    (view (x.state n)).sleep.duration = (view (x.state 0)).sleep.duration := by
  induction n with
  | zero => rfl
  | succ n ih => exact (h n).duration_eq.trans ih

theorem Inside.now_mono (h : Inside k t view x) : Monotone fun n => (view (x.state n)).now :=
  monotone_nat_of_le_succ fun n => (h n).now_le

theorem Inside.armed (h : Inside k t view x) {n m : ℕ} (harmed : Armed timer (view (x.state n)))
    (hnm : n ≤ m) : Armed timer (view (x.state m)) := by
  induction m, hnm using Nat.le_induction with
  | base => exact harmed
  | succ m _ ih => exact ih.next (h m)

/-- The time of a timer comes, and its event is processed. -/
theorem Inside.expires (h : Inside k t view x) {A : α → Prop} {n m n' : ℕ}
    (harmed : Armed (some m) (view (x.state n))) (hclock : m ≤ (view (x.state n')).now)
    (hevents : x.WeaklyFair A)
    (henabled : ∀ j, n ≤ j → ((leaf k).others (view (x.state j)) .expire).isSome →
      S.Enabled A (x.state j))
    (hexpires : ∀ j a, x.act j = some a → A a → (view (x.state (j + 1))).expired = true) :
    ∃ j, n ≤ j ∧ (view (x.state j)).expired = true := by
  by_contra hnever
  push Not at hnever
  obtain ⟨j, hj, a, hact, ha⟩ := hevents (max n n') fun j hj => by
    have hnj : n ≤ j := (le_max_left n n').trans hj
    refine henabled j hnj (isSome_expire (h.armed harmed hnj).timer_eq ?_ ?_)
    · exact hclock.trans (h.now_mono ((le_max_right n n').trans hj))
    · simpa using hnever j hnj
  have hnj : n ≤ j := (le_max_left n n').trans hj
  exact hnever (j + 1) (by omega) (hexpires j a hact ha)

end Inside

/-- What a step is for a sleep that a task awaits. -/
theorem advances_of_next {s s' : Awaiting (SleepLeaf τ) τ} {l : Awaiting.Label τ (SleepOther τ)}
    (hforward : Forward s l) (hn : Next (leaf k) t s l s') :
    Advances k t s.future s'.future := by
  cases hn with
  | base | leave | panic => exact .same
  | pending _ _ _ hpoll | ready _ _ _ hpoll => exact .poll hpoll
  | event hothers | others hothers =>
    refine .of_others ?_ hothers
    rintro now rfl
    exact hforward

theorem enabled_expire {s : Awaiting (SleepLeaf τ) τ} {f : SleepLeaf τ}
    (h : ((leaf k).others s.future .expire).isSome) :
    (awaiting (leaf k) ids t f).Enabled (fun l => l = .others .expire) s :=
  ⟨.others .expire, rfl, isSome_others (t := t) h⟩

theorem expired_of_expire {s s' : Awaiting (SleepLeaf τ) τ}
    (hs : s.step (leaf k) t (.others .expire) = some s') : s'.future.expired = true := by
  cases next_of_step hs with
  | event hothers =>
    cases happens_of_others hothers with
    | expire => rfl
  | others hothers => cases happens_of_others hothers

section Runs

variable {x : (awaiting (leaf k) ids t (.new d token r now)).Execution}

theorem ok_run (hcalm : x.Under (Calm (leaf k) t)) (n : ℕ) : Ok First Timed ids t (x.state n) :=
  ok_of_calm (keepsFirst k) (prompt k) (.inl ⟨rfl, rfl, rfl⟩) timed_new hcalm n

theorem inside_run (hforward : x.Under Forward) : Inside k t Awaiting.future x := by
  intro n
  cases hact : x.act n with
  | none =>
    rw [x.rests n hact]
    exact .same
  | some l => exact advances_of_next (hforward n l hact) (next_of_step (x.steps n l hact))

/-- The first poll that does not panic arms the sleep. -/
theorem armed_run (hcalm : x.Under (Calm (leaf k) t)) (hforward : x.Under Forward) {n : ℕ}
    (hbefore : ¬ (x.state n).InFlight) (hafter : (x.state (n + 1)).InFlight) :
    ∃ timer, k.set (x.state n).future.now (k.fromDuration d) = .ok timer ∧
      Armed timer (x.state (n + 1)).future := by
  cases hact : x.act n with
  | none =>
    rw [x.rests n hact] at hafter
    exact absurd hafter hbefore
  | some l =>
    obtain ⟨hready, hpolls, e, f, -, hpoll, hstate⟩ :=
      (next_of_step (x.steps n l hact)).first_pending hbefore hafter
    have htimed := (ok_run hcalm n).prompt hready
    rw [hpolls] at htimed
    obtain ⟨timer, hset, harmed⟩ := armed_of_first htimed hpoll
    rw [(inside_run hforward).duration_eq n, x.init.2] at hset
    exact ⟨timer, hset, by rw [hstate]; exact harmed⟩

/-- The sleep is ready after the event only. -/
theorem expired_run (hcalm : x.Under (Calm (leaf k) t)) (hforward : x.Under Forward) (n : ℕ)
    (hready : (x.state n).ready = true) : (x.state n).future.expired = true := by
  refine Execution.stable (P := fun s : Awaiting (SleepLeaf τ) τ =>
    s.ready = true → s.future.expired = true) (fun m l _ hact hm hready => ?_) (Nat.zero_le n)
    (fun h => ?_) hready
  · have hn := next_of_step (x.steps m l hact)
    refine (inside_run hforward m).expired ?_
    cases hready' : (x.state m).ready with
    | true => exact hm hready'
    | false =>
      generalize x.state (m + 1) = s' at hn hready
      cases hn with
      | ready _ _ _ hpoll => exact expired_of_ready ((ok_run hcalm m).kept hready') hpoll
      | _ => exact absurd (hready'.symm.trans hready) (by simp)
  · rw [x.init.2] at h
    cases h

/-- A sleep of any duration that a task of the runtime awaits, from its first poll on, in a run in
which every registration goes through, no poll panics, nobody aborts the task, time goes on and
reaches the moment the timer is set to, and neither an executor nor the event of the timer is left
aside for ever: some poll is `Ready` exactly if the duration is not zero, and none before the
duration has passed or the last moment of the clock has come. -/
theorem sleep_ends (hids : ids ≠ []) (hk : k.Documented)
    (x : (awaiting (leaf k) ids t (.new d token r now)).Execution)
    (hcalm : x.Under (Calm (leaf k) t)) (hforward : x.Under Forward)
    (hfair : ∀ e ∈ ids, x.WeaklyFair (Moves e))
    (hevents : x.WeaklyFair fun l => l = .others .expire)
    {n : ℕ} (hbefore : ¬ (x.state n).InFlight) (hafter : (x.state (n + 1)).InFlight)
    (hclock : ∀ m, (x.state (n + 1)).future.sleep.timer = some (some m) →
      ∃ n', m ≤ (x.state n').future.now) :
    ((∃ m, (x.state m).ready = true) ↔ 0 < d.toNanos) ∧
      ∀ m, (x.state m).ready = true →
        min ((x.state n).future.now + d.toNanos) Timers.lastMoment ≤ (x.state m).future.now := by
  obtain ⟨timer, hset, harmed⟩ := armed_run hcalm hforward hbefore hafter
  have hinside := inside_run hforward
  have helapsed : ∀ m, (x.state m).ready = true → 0 < d.toNanos ∧
      min ((x.state n).future.now + d.toNanos) Timers.lastMoment ≤ (x.state m).future.now := by
    intro m hm
    have hnm : n + 1 ≤ m := by
      by_contra hlt
      have hready := Execution.stable (P := fun s : Awaiting (SleepLeaf τ) τ => s.ready = true)
        (fun j l _ hact hj => (next_of_step (x.steps j l hact)).ready_of_ready hj)
        (show m ≤ n + 1 by omega) hm
      exact absurd (hafter.2.symm.trans hready) (by simp)
    exact (hinside.armed harmed hnm).elapsed hk hset (expired_run hcalm hforward m hm)
  refine ⟨⟨fun ⟨m, hm⟩ => (helapsed m hm).1, fun hd => ?_⟩, fun m hm => (helapsed m hm).2⟩
  obtain ⟨m, rfl⟩ := Option.isSome_iff_exists.1 ((hk.set_eq_ok hset).2.1.2 hd)
  by_contra hnever
  push Not at hnever
  have hready : ∀ j, (x.state j).ready = false := fun j => by simpa using hnever j
  obtain ⟨n', hn'⟩ := hclock m harmed.timer_eq
  obtain ⟨j, hj, hexpired⟩ := hinside.expires harmed hn' hevents (fun j _ h => enabled_expire h)
    fun j l hact hl => expired_of_expire (t := t) (hl ▸ x.steps j l hact)
  have htimed := (ok_run hcalm j).prompt (hready j)
  have hpolls : 0 < (x.state j).polls := by
    simpa [(hinside.armed harmed hj).hasPolled] using htimed.hasPolled
  obtain ⟨i, -, hi⟩ := processed_leadsTo hids (keepsFirst k) (prompt k) (.inl ⟨rfl, rfl, rfl⟩)
    timed_new hcalm hfair j ⟨⟨hpolls, hready j⟩, htimed.expired.symm.trans hexpired⟩
  exact hnever i hi

end Runs

/-- A task sleeps for seven nanoseconds, and nothing happens once it has finished. -/
def sleptOnce : List (Awaiting.Label ℕ (SleepOther ℕ)) :=
  [.base (.register 5), .base (.recv 0), .base (.work (.lock 0)), .base (.work (.look 0)),
    .poll 0, .leave 0 .pending, .base (.work (.unlock 0)), .base (.ready 0),
    .others (.tick 107), .others .expire, .base (.recv 0), .base (.work (.lock 0)),
    .base (.work (.look 0)), .poll 0, .leave 0 .ready, .base (.work (.clear 0)),
    .base (.work (.unlock 0)), .base (.ready 0)]

def sleptRun :
    (awaiting (leaf Timers.onTime) [0] 5 (.new ⟨0, 7, by decide⟩ 1 .new 100)).Execution :=
  .ofRun (s := ⟨⟨.registeredWith [0], .new, []⟩, _, .outside, 0, false, false⟩) sleptOnce
    ⟨⟨_, rfl, by decide, rfl⟩, rfl⟩ (by decide)

instance (s : Awaiting (SleepLeaf τ) τ) :
    (l : Awaiting.Label τ (SleepOther τ)) → Decidable (Forward s l)
  | .others (.tick now) => inferInstanceAs (Decidable (s.future.now ≤ now))
  | .base _ | .poll _ | .leave _ _ | .others .expire | .others (.reactor _) => .isTrue trivial

theorem sleptRun_rests {m : ℕ} (hm : 18 ≤ m) : sleptRun.state m = sleptRun.state 18 :=
  Execution.ofRun_state_of_length_le _ _ hm

theorem sleptRun_fair : ∀ e ∈ [0], sleptRun.WeaklyFair (Moves e) := by
  intro e he
  obtain rfl : e = 0 := by simpa using he
  exact weaklyFair_of_idle (fun m hm => sleptRun_rests hm) (by decide) (by decide)

theorem sleep_ends_sleptRun : (∃ m, (sleptRun.state m).ready = true) ∧
    ∀ m, (sleptRun.state m).ready = true → 107 ≤ (sleptRun.state m).future.now := by
  have hends := sleep_ends (n := 4) (by decide) Timers.documented_onTime sleptRun
    (Execution.ofRun_under _ _ (by decide)) (Execution.ofRun_under _ _ (by decide)) sleptRun_fair
    ?_ (by decide) (by decide) fun m hm => ⟨9, ?_⟩
  · refine ⟨hends.1.2 (by decide), fun m hm => le_trans ?_ (hends.2 m hm)⟩
    decide
  · refine Execution.weaklyFair_of_not_enabled (n := 18) fun m hm => ?_
    rw [sleptRun_rests hm]
    rintro ⟨l, rfl, hs⟩
    exact absurd hs (by decide)
  · have htimer : (sleptRun.state 5).future.sleep.timer = some (some 107) := by decide
    rw [htimer] at hm
    cases hm
    decide

end SleepLeaf

/-! ### A set-up ends with its job -/

namespace TcpLeaf

open Awaiting

variable {A E S τ : Type*} [DecidableEq τ] {k : TcpCalls A E S} {ids : List ExecutorId} {t : τ}
  {addr : Except E (List A)}

/-- What the job still has to do. -/
def jobLeft : TcpJobPc A τ (Except E S) → ℕ
  | .absent | .queued _ => 3
  | .ran _ _ => 2
  | .stored _ => 1
  | .finished => 0

omit [DecidableEq τ] in
/-- A poll after the first leaves the job to the pool. -/
theorem job_of_poll {f f' : TcpLeaf A E S τ} {b : Bool} (hpolled : f.tcp.hasPolled = true)
    (h : (leaf k).poll f t = some (b, f')) : f'.job = f.job := by
  simp only [leaf, Option.map_eq_some_iff, Prod.mk.injEq] at h
  obtain ⟨p, hpoll, -, rfl⟩ := h
  cases AsyncTcp.polls_of_eq hpoll with
  | first hnot => exact absurd (hpolled.symm.trans hnot) (by simp)
  | _ => rfl

/-- A job that has not finished can move. -/
theorem enabled_others {f : TcpLeaf A E S τ} {s : Awaiting (TcpLeaf A E S τ) τ}
    (habsent : s.future.job ≠ .absent) (hfinished : s.future.job ≠ .finished) :
    (awaiting (leaf k) ids t f).Enabled (fun l => ∃ a, l = .others a) s := by
  cases hjob : s.future.job with
  | absent => exact absurd hjob habsent
  | queued job => exact ⟨.others .run, ⟨_, rfl⟩, by simp [awaiting, Awaiting.step, leaf, hjob]⟩
  | ran job result =>
    exact ⟨.others .store, ⟨_, rfl⟩, by simp [awaiting, Awaiting.step, leaf, hjob]⟩
  | stored job =>
    refine ⟨.others .wake, ⟨_, rfl⟩, ?_⟩
    simp only [awaiting, Awaiting.step, leaf, hjob, Option.bind_some, Option.isSome_map,
      Awaiting.wake, Runtime.step]
    split <;> rfl
  | finished => exact absurd hjob hfinished

/-- The job takes its steps, whatever the polls do. -/
theorem ranking_job : (awaiting (leaf k) ids t (.new addr)).Ranking (Calm (leaf k) t)
    (Ok First Stored ids t) InFlight (fun s => s.ready = true ∨ s.Due) {()}
    (fun _ l => ∃ a, l = .others a) (fun _ _ => True) (fun s => jobLeft s.future.job) where
  party _ _ _ _ := ⟨(), rfl, trivial⟩
  enabled s _ h hin hnot _ := by
    have hstored := h.prompt hin.2
    rw [decide_eq_true hin.1] at hstored
    refine enabled_others (hstored.started.2 rfl) fun hfinished => hnot (.inr ⟨hin, ?_⟩)
    exact hstored.finished.2 hfinished
  step s l s' _ h hin hnot _ _ hs := by
    have hstored := h.prompt hin.2
    rw [decide_eq_true hin.1] at hstored
    have hn := next_of_step hs
    cases hn with
    | base | panic | leave => exact .inr ⟨hin, .inr ⟨rfl, by simp, trivial⟩⟩
    | pending _ _ hready hpoll =>
      refine .inr ⟨⟨by simp, hready⟩, .inr ⟨?_, by simp, trivial⟩⟩
      rw [job_of_poll hstored.hasPolled hpoll]
    | ready => exact .inl (.inl rfl)
    | event hothers => exact .inl (.inr ⟨hin, rfl⟩)
    | others hothers =>
      refine .inr ⟨hin, .inl ?_⟩
      cases happens_of_others hothers with
      | run hjob | store hjob => simp [hjob, jobLeft]

/-- A stream or a listener, whichever `k` sets up, that a task of the runtime awaits: in a run in
which every registration goes through, no poll panics, nobody aborts the task, and neither an
executor nor the job is left aside for ever, the set-up ends once it was polled. -/
theorem connect_ends (hids : ids ≠ []) (x : (awaiting (leaf k) ids t (.new addr)).Execution)
    (hcalm : x.Under (Calm (leaf k) t)) (hfair : ∀ e ∈ ids, x.WeaklyFair (Moves e))
    (hjob : x.WeaklyFair fun l => ∃ a, l = .others a) :
    x.LeadsTo InFlight fun s => s.ready = true := by
  have hok : ∀ n, Ok First Stored ids t (x.state n) :=
    ok_of_calm (keepsFirst k) (prompt k) (.inl ⟨rfl, rfl, rfl⟩) stored_new hcalm
  have hends : x.LeadsTo Due fun s => s.ready = true := processed_leadsTo hids (keepsFirst k)
    (prompt k) (.inl ⟨rfl, rfl, rfl⟩) stored_new hcalm hfair
  exact (ranking_job.leadsTo hcalm hok (fun _ _ => hjob)).trans (.or (.of_imp fun _ h => h) hends)

/-- A task connects to the address 2. -/
def connectedOnce : List (Awaiting.Label ℕ TcpOther) :=
  [.base (.register 5), .base (.recv 0), .base (.work (.lock 0)), .base (.work (.look 0)),
    .poll 0, .others .run, .leave 0 .pending, .base (.work (.unlock 0)), .base (.ready 0),
    .others .store, .others .wake, .base (.recv 0), .base (.work (.lock 0)),
    .base (.work (.look 0)), .poll 0, .leave 0 .ready, .base (.work (.clear 0)),
    .base (.work (.unlock 0)), .base (.ready 0)]

def connectedRun : (awaiting (leaf onlyTwo) [0] 5 (.new (.ok [2]))).Execution :=
  .ofRun (s := ⟨⟨.registeredWith [0], .new, []⟩, _, .outside, 0, false, false⟩) connectedOnce
    ⟨⟨_, rfl, by decide, rfl⟩, rfl⟩ (by decide)

theorem connect_ends_connectedRun : ∃ m, 5 ≤ m ∧ (connectedRun.state m).ready = true := by
  have hrests : ∀ m, 19 ≤ m → connectedRun.state m = connectedRun.state 19 := fun m hm =>
    Execution.ofRun_state_of_length_le _ _ hm
  refine connect_ends (by decide) connectedRun (Execution.ofRun_under _ _ (by decide)) ?_ ?_ 5
    (by decide)
  · intro e he
    obtain rfl : e = 0 := by simpa using he
    exact weaklyFair_of_idle hrests (by decide) (by decide)
  · refine Execution.weaklyFair_of_not_enabled (n := 19) fun m hm => ?_
    rw [hrests m hm]
    rintro ⟨l, ⟨a, rfl⟩, hs⟩
    cases a <;> exact absurd hs (by decide)

end TcpLeaf

/-! ### All of them -/

section All

open Awaiting

variable {A E E' S L P O R τ : Type*} [DecidableEq τ] {ids : List ExecutorId} {t : τ}

/-- Each leaf future, awaited by a task of the runtime, in every interleaving of its polls with the
others and with the rest of the runtime, in which every wake of the task registers it, nobody
aborts it, and the job of a file operation stores its result while a tag of it is left to be looked
up: while the task is parked and nothing is to deliver it, the event was not processed, and a file
operation's job has not finished or the reactor thread has not handled all wakes. -/
theorem leaf_futures_wait (timers : Timers E) (d : Duration) (token : Token) (now : ℕ)
    (operate : BlockFn P O → R) (path : P) (fileOperation : FileOperation O) (tag : ReactorTag)
    (sys : TcpSystem A E' S L) (addr : Except E' (List A)) (r : Reactor τ) :
    (∀ s, (awaiting (SleepLeaf.leaf timers) ids t (.new d token r now)).ReachableUnder
        (Woken (SleepLeaf.leaf timers) t) s →
      Parked t s → ¬ s.rt.Pending t → s.processed = false) ∧
    (∀ s, (awaiting (FileLeaf.leaf operate) ids t (.new path fileOperation tag r)).ReachableUnder
        (Woken (FileLeaf.leaf operate) t) s →
      Parked t s → ¬ s.rt.Pending t → s.processed = false ∧
        ¬ (s.future.stage = .finished ∧ s.future.reactor.Idle)) ∧
    (∀ s, (awaiting (TcpLeaf.leaf sys.stream) ids t (.new addr)).ReachableUnder
        (Woken (TcpLeaf.leaf sys.stream) t) s →
      Parked t s → ¬ s.rt.Pending t → s.processed = false) ∧
    ∀ s, (awaiting (TcpLeaf.leaf sys.listener) ids t (.new addr)).ReachableUnder
        (Woken (TcpLeaf.leaf sys.listener) t) s →
      Parked t s → ¬ s.rt.Pending t → s.processed = false := by
  refine ⟨fun s hs => ?_, fun s hs hparked hpending => ?_, fun s hs => ?_, fun s hs => ?_⟩
  · have hok := Awaiting.ok (SleepLeaf.keepsFirst timers) (SleepLeaf.prompt timers)
      (.inl ⟨rfl, rfl, rfl⟩) SleepLeaf.timed_new hs
    exact hok.waits
  · have hok := Awaiting.ok (FileLeaf.keepsFirst operate) (FileLeaf.prompt operate)
      FileLeaf.announced_new FileLeaf.stored_new hs
    have hwaits := hok.waits hparked hpending
    refine ⟨hwaits, fun ⟨hfinished, hidle⟩ => ?_⟩
    have hprocessed := (hok.prompt hparked.1.2).processed_of_idle hfinished hidle
    rw [hwaits] at hprocessed
    cases hprocessed
  · have hok := Awaiting.ok (TcpLeaf.keepsFirst sys.stream) (TcpLeaf.prompt sys.stream)
      (.inl ⟨rfl, rfl, rfl⟩) TcpLeaf.stored_new hs
    exact hok.waits
  · have hok := Awaiting.ok (TcpLeaf.keepsFirst sys.listener) (TcpLeaf.prompt sys.listener)
      (.inl ⟨rfl, rfl, rfl⟩) TcpLeaf.stored_new hs
    exact hok.waits

/-- A task opens a file and is parked, and the job has requested its wake. -/
def openedOnce : List (Awaiting.Label ℕ (FileOther ℕ)) :=
  [.base (.register 5), .base (.recv 0), .base (.work (.lock 0)), .base (.work (.look 0)),
    .poll 0, .leave 0 .pending, .base (.work (.unlock 0)), .base (.ready 0), .others .run,
    .others .wake]

/-- The reactor thread has the wake still to take. -/
theorem leaf_futures_wait_openedOnce :
    ∃ s : Awaiting (FileLeaf String Unit Unit ℕ) ℕ, s.future.stage = .finished ∧
      s.processed = false ∧ ¬ s.future.reactor.Idle := by
  obtain ⟨s, hs, hin, hexecutors, htasks, hfinished⟩ := exists_reachableUnder
    (S := awaiting (FileLeaf.leaf fun _ : BlockFn String Unit => ()) [0] 5 (.new "a" .open 7 .new))
    (C := Calm (FileLeaf.leaf fun _ => ()) 5)
    (s := ⟨⟨.registeredWith [0], .new, []⟩, _, .outside, 0, false, false⟩)
    ⟨⟨_, rfl, by decide, rfl⟩, rfl⟩ openedOnce
    (p := fun s => s.InFlight ∧ 0 ∈ s.rt.tm.waitingExecutors.items ∧
      s.rt.tm.waitingTasks.items = [] ∧ s.future.stage = .finished) (by decide)
  have hserving := Runtime.serving
    (runsOn.reachableUnder (fun _ _ _ hc hb => smooth_of_calm hc hb) hs)
  obtain ⟨hidle, hpending⟩ := hserving.resting (by simpa using hexecutors) htasks
  have hwaits := (leaf_futures_wait (.onTime : Timers Unit) ⟨0, 7, by decide⟩ 1 100
    (fun _ : BlockFn String Unit => ()) "a" .open 7 ⟨onlyTwo, onlyTwo⟩ (.ok [2]) .new).2.1 s
    (hs.mono fun _ _ => Calm.woken) ⟨hin, fun e => by simp [hidle e]⟩ (hpending 5)
  exact ⟨s, hfinished, hwaits.1, fun h => hwaits.2 ⟨hfinished, h⟩⟩

/-- Each leaf future, awaited by a task of the runtime with at least one executor: in a run in
which every registration goes through, no poll panics, nobody aborts the task, the job of a file
operation stores its result while a tag of it is left to be looked up, and no executor that can move
is left aside for ever, a poll is `Ready` some time after the event. -/
theorem leaf_futures_end (hids : ids ≠ []) (timers : Timers E) (d : Duration) (token : Token)
    (now : ℕ) (operate : BlockFn P O → R) (path : P) (fileOperation : FileOperation O)
    (tag : ReactorTag) (sys : TcpSystem A E' S L) (addr : Except E' (List A)) (r : Reactor τ) :
    (∀ x : (awaiting (SleepLeaf.leaf timers) ids t (.new d token r now)).Execution,
      x.Under (Calm (SleepLeaf.leaf timers) t) → (∀ e ∈ ids, x.WeaklyFair (Moves e)) →
      x.LeadsTo Due fun s => s.ready = true) ∧
    (∀ x : (awaiting (FileLeaf.leaf operate) ids t (.new path fileOperation tag r)).Execution,
      x.Under (Calm (FileLeaf.leaf operate) t) → (∀ e ∈ ids, x.WeaklyFair (Moves e)) →
      x.LeadsTo Due fun s => s.ready = true) ∧
    (∀ x : (awaiting (TcpLeaf.leaf sys.stream) ids t (.new addr)).Execution,
      x.Under (Calm (TcpLeaf.leaf sys.stream) t) → (∀ e ∈ ids, x.WeaklyFair (Moves e)) →
      x.LeadsTo Due fun s => s.ready = true) ∧
    ∀ x : (awaiting (TcpLeaf.leaf sys.listener) ids t (.new addr)).Execution,
      x.Under (Calm (TcpLeaf.leaf sys.listener) t) → (∀ e ∈ ids, x.WeaklyFair (Moves e)) →
      x.LeadsTo Due fun s => s.ready = true :=
  ⟨fun _ => processed_leadsTo hids (SleepLeaf.keepsFirst timers) (SleepLeaf.prompt timers)
      (.inl ⟨rfl, rfl, rfl⟩) SleepLeaf.timed_new,
    fun _ => processed_leadsTo hids (FileLeaf.keepsFirst operate) (FileLeaf.prompt operate)
      FileLeaf.announced_new FileLeaf.stored_new,
    fun _ => processed_leadsTo hids (TcpLeaf.keepsFirst sys.stream) (TcpLeaf.prompt sys.stream)
      (.inl ⟨rfl, rfl, rfl⟩) TcpLeaf.stored_new,
    fun _ => processed_leadsTo hids (TcpLeaf.keepsFirst sys.listener) (TcpLeaf.prompt sys.listener)
      (.inl ⟨rfl, rfl, rfl⟩) TcpLeaf.stored_new⟩

/-- The event of `sleptRun` comes with its tenth step. -/
theorem leaf_futures_end_sleptRun : ∃ m, 10 ≤ m ∧ (SleepLeaf.sleptRun.state m).ready = true :=
  (leaf_futures_end (by decide) Timers.onTime ⟨0, 7, by decide⟩ 1 100
    (fun _ : BlockFn String Unit => ()) "a" .open 7 ⟨onlyTwo, onlyTwo⟩ (.ok [2]) .new).1
    SleepLeaf.sleptRun (Execution.ofRun_under _ _ (by decide)) SleepLeaf.sleptRun_fair 10
    ⟨by decide, by decide⟩

end All

end Hooch
