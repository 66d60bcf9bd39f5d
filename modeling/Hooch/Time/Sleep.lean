import Hooch.Reactor

/-!
# Sleep

`Sleep` of `time/sleep.rs`. The first poll arms a timer of the operating system with the duration;
the timer's event marks the token in the reactor, and a later poll finds the mark. The duration
passes through a cast from 64 unsigned to 64 signed bits and an interface in which zero means to
disarm, so neither the longest nor the shortest durations arm the timer.

* `Duration`, `TimeSpec`: the two forms of a duration, and a cast between them;
* `Timers`: the calls of other crates and the system, with what their documentation says;
* `Sleep.poll`: a poll of the future, where `none` is the panic of one of its `unwrap`s;
* `arms_iff`: for which durations the first poll arms the timer.
-/

namespace Hooch

/-- `std::time::Duration`. -/
structure Duration where
  secs : UInt64
  nanos : ℕ
  nanos_lt : nanos < 1000000000

/-- The duration in nanoseconds. -/
def Duration.toNanos (d : Duration) : ℕ := d.secs.toNat * 1000000000 + d.nanos

/-- `TimeSpec`. -/
structure TimeSpec where
  tvSec : Int64
  tvNsec : ℕ
  deriving DecidableEq

namespace TimeSpec

/-- The duration with its seconds cast, without a check. -/
def cast (d : Duration) : TimeSpec := ⟨d.secs.toInt64, d.nanos⟩

/-- The value in nanoseconds, when it is not negative. -/
def toNanos (value : TimeSpec) : ℕ := value.tvSec.toInt.toNat * 1000000000 + value.tvNsec

theorem toInt_tvSec {d : Duration} : (cast d).tvSec.toInt =
    if d.secs.toNat < 2 ^ 63 then (d.secs.toNat : ℤ) else (d.secs.toNat : ℤ) - 2 ^ 64 := by
  show d.secs.toBitVec.toInt = _
  rw [BitVec.toInt_eq_toNat_cond]
  simp only [UInt64.toNat_toBitVec]
  split_ifs <;> omega

/-- The seconds become negative exactly from `2 ^ 63` on. -/
theorem cast_neg_iff {d : Duration} :
    (cast d).tvSec < 0 ↔ 2 ^ 63 ≤ d.secs.toNat := by
  have hlt := d.secs.toNat_lt
  rw [Int64.lt_iff_toInt_lt, toInt_tvSec]
  split_ifs <;> simp <;> omega

/-- Below that, nothing is lost. -/
theorem toNanos_cast {d : Duration} (h : d.secs.toNat < 2 ^ 63) :
    (cast d).toNanos = d.toNanos := by
  rw [toNanos, toInt_tvSec, if_pos h, Int.toNat_natCast]
  rfl

/-- A zero duration becomes the value that disarms a timer. -/
theorem cast_zero {d : Duration} (h : d.toNanos = 0) : cast d = ⟨0, 0⟩ := by
  unfold Duration.toNanos at h
  have hsecs : d.secs = 0 := UInt64.toNat_inj.1 (by simp; omega)
  have hnanos : d.nanos = 0 := by omega
  rw [cast, hsecs, hnanos]
  rfl

/-- Any other duration whose seconds fit becomes a value that does not. -/
theorem cast_pos {d : Duration} (hpos : 0 < d.toNanos) (hsecs : d.secs.toNat < 2 ^ 63) :
    0 ≤ (cast d).tvSec ∧ cast d ≠ ⟨0, 0⟩ := by
  constructor
  · rw [← Int64.not_lt, cast_neg_iff]
    omega
  · intro hzero
    have hnanos := toNanos_cast hsecs
    rw [hzero] at hnanos
    simp [toNanos] at hnanos
    omega

end TimeSpec

/-- The calls that a sleep makes: `TimeSpec::from_duration`, `TimerFd::new`, `timer.set` at a
moment, which returns the moment at which the timer will expire or `none` if it is disarmed, and
`register`. Moments are in nanoseconds on the clock of the system. -/
structure Timers (E : Type*) where
  fromDuration : Duration → TimeSpec
  create : Except E Unit
  set : ℕ → TimeSpec → Except E (Option ℕ)
  register : Except E Unit

namespace Timers

variable {E : Type*}

/-- The last moment of the system's clock, `KTIME_MAX`. -/
def lastMoment : ℕ := 2 ^ 63 - 1

/-- What is documented: `from_duration` casts the seconds, and `timerfd_settime` fails on negative
seconds, disarms the timer for zero, and else arms it, though for no later moment than the last. -/
structure Documented (k : Timers E) : Prop where
  casts : ∀ d, k.fromDuration d = .cast d
  negative : ∀ now value, value.tvSec < 0 → ∃ e, k.set now value = .error e
  zero : ∀ now, k.set now ⟨0, 0⟩ = .ok none
  arms : ∀ now value, 0 ≤ value.tvSec → value.tvNsec < 1000000000 → value ≠ ⟨0, 0⟩ →
    now + value.toNanos ≤ lastMoment → ∃ m, k.set now value = .ok (some m) ∧
      now + value.toNanos ≤ m
  clamps : ∀ now value, 0 ≤ value.tvSec → value.tvNsec < 1000000000 → value ≠ ⟨0, 0⟩ →
    lastMoment < now + value.toNanos → k.set now value = .ok (some lastMoment)

/-- A system with enough file descriptors whose timers expire on time. -/
def onTime : Timers Unit where
  fromDuration := .cast
  create := .ok ()
  set now value :=
    if value.tvSec < 0 then .error ()
    else if value = ⟨0, 0⟩ then .ok none
    else .ok (some (min (now + value.toNanos) lastMoment))
  register := .ok ()

theorem documented_onTime : Documented onTime where
  casts _ := rfl
  negative now value h := ⟨(), by simp [onTime, h]⟩
  zero now := rfl
  arms now value h _ hne hlast :=
    ⟨now + value.toNanos, by simp [onTime, hne, Int64.not_lt.2 h, Nat.min_eq_left hlast], le_rfl⟩
  clamps now value h _ hne hlast := by
    simp [onTime, hne, Int64.not_lt.2 h, Nat.min_eq_right hlast.le]

variable {k : Timers E} {now : ℕ} {d : Duration} {timer : Option ℕ}

/-- A call that succeeds disarms the timer exactly for a zero duration, and else sets it to a moment
that is no earlier than the duration demands, or to the last one. -/
theorem Documented.set_eq_ok (hk : k.Documented) (hset : k.set now (k.fromDuration d) = .ok timer) :
    d.secs.toNat < 2 ^ 63 ∧ (timer.isSome ↔ 0 < d.toNanos) ∧
      ∀ m, timer = some m → min (now + d.toNanos) lastMoment ≤ m := by
  rw [hk.casts] at hset
  have hsecs : d.secs.toNat < 2 ^ 63 := by
    by_contra hbig
    obtain ⟨e, he⟩ := hk.negative now (.cast d) (TimeSpec.cast_neg_iff.2 (not_lt.1 hbig))
    rw [he] at hset
    cases hset
  refine ⟨hsecs, ?_⟩
  rcases Nat.eq_zero_or_pos d.toNanos with hzero | hpos
  · rw [TimeSpec.cast_zero hzero, hk.zero] at hset
    cases hset
    simp [hzero]
  · obtain ⟨hsec, hne⟩ := TimeSpec.cast_pos hpos hsecs
    rw [← TimeSpec.toNanos_cast hsecs]
    rcases le_or_gt (now + (TimeSpec.cast d).toNanos) lastMoment with hlast | hlast
    · obtain ⟨m, hm, hle⟩ := hk.arms now (.cast d) hsec d.nanos_lt hne hlast
      rw [hm] at hset
      cases hset
      exact ⟨by simpa [TimeSpec.toNanos_cast hsecs] using hpos, by rintro _ ⟨⟩; omega⟩
    · rw [hk.clamps now (.cast d) hsec d.nanos_lt hne hlast] at hset
      cases hset
      exact ⟨by simpa [TimeSpec.toNanos_cast hsecs] using hpos, by rintro _ ⟨⟩; omega⟩

/-- For a duration that is not zero and ends before the last moment, the call succeeds and sets the
timer to a moment that is no earlier than the duration demands. -/
theorem Documented.set_pos (hk : k.Documented) (hpos : 0 < d.toNanos)
    (hlast : now + d.toNanos ≤ lastMoment) :
    ∃ m, k.set now (k.fromDuration d) = .ok (some m) ∧ now + d.toNanos ≤ m := by
  have hsecs : d.secs.toNat < 2 ^ 63 := by
    simp only [Duration.toNanos, lastMoment] at hlast
    omega
  obtain ⟨hsec, hne⟩ := TimeSpec.cast_pos hpos hsecs
  rw [hk.casts, ← TimeSpec.toNanos_cast hsecs]
  rw [← TimeSpec.toNanos_cast hsecs] at hlast
  exact hk.arms now (.cast d) hsec d.nanos_lt hne hlast

/-- A timer that is set to a moment no earlier than the duration demands is not clamped. -/
theorem Documented.le_lastMoment (hk : k.Documented) {m : ℕ}
    (hset : k.set now (k.fromDuration d) = .ok (some m)) (hm : now + d.toNanos ≤ m) :
    now + d.toNanos ≤ lastMoment := by
  obtain ⟨hsecs, hpos, -⟩ := hk.set_eq_ok hset
  obtain ⟨hsec, hne⟩ := TimeSpec.cast_pos (hpos.1 rfl) hsecs
  by_contra hlast
  rw [hk.casts, hk.clamps now (.cast d) hsec d.nanos_lt hne
    (by rw [TimeSpec.toNanos_cast hsecs]; omega)] at hset
  cases hset
  exact hlast hm

end Timers

/-- The future. The timer is the moment at which it will expire, `none` if it is disarmed. -/
structure Sleep where
  duration : Duration
  hasPolled : Bool
  mioToken : Token
  timer : Option (Option ℕ)

namespace Sleep

variable {E W : Type*}

/-- `Sleep::from_duration`, with the token the reactor gives out. -/
def fromDuration (duration : Duration) (token : Token) : Sleep := ⟨duration, false, token, none⟩

/-- `Sleep::poll` at a moment; `none` is the panic of an `unwrap`. -/
def poll (k : Timers E) (now : ℕ) (s : Sleep) (r : Reactor W) (waker : W) :
    Option (Poll Unit × Sleep × Reactor W) :=
  if s.hasPolled then
    if r.hasTokenProgressed s.mioToken then some (.ready (), s, r) else some (.pending, s, r)
  else
    k.create.toOption.bind fun _ =>
    (k.set now (k.fromDuration s.duration)).toOption.bind fun timer =>
    k.register.toOption.map fun _ =>
      (.pending, { s with timer := some timer, hasPolled := true },
        r.statusStore s.mioToken waker)

variable {k : Timers E} {now : ℕ} {d : Duration} {token : Token} {r r' : Reactor W} {waker : W}
  {s : Sleep}

/-- What a poll does that does not panic, one case each. -/
inductive Polls (s : Sleep) (r : Reactor W) (waker : W) : Poll Unit → Sleep → Reactor W → Prop
  | first {timer : Option ℕ} (hpolled : s.hasPolled = false) :
      Polls s r waker .pending { s with timer := some timer, hasPolled := true }
        (r.statusStore s.mioToken waker)
  | pending (hpolled : s.hasPolled = true) (hstatus : r.hasTokenProgressed s.mioToken = false) :
      Polls s r waker .pending s r
  | ready (hpolled : s.hasPolled = true) (hstatus : r.hasTokenProgressed s.mioToken = true) :
      Polls s r waker (.ready ()) s r

theorem polls_of_eq {p : Poll Unit} {s' : Sleep} (h : s.poll k now r waker = some (p, s', r')) :
    Polls s r waker p s' r' := by
  unfold poll at h
  split at h
  · rename_i hpolled
    split at h
    · rename_i hstatus
      cases h
      exact .ready hpolled hstatus
    · rename_i hstatus
      cases h
      exact .pending hpolled (by simpa using hstatus)
  · rename_i hpolled
    simp only [Option.bind_eq_some_iff, Option.map_eq_some_iff] at h
    obtain ⟨-, -, timer, -, -, -, h⟩ := h
    cases h
    exact .first (by simpa using hpolled)

/-- What the first poll does when it does not panic. -/
theorem first_poll_eq_some {p : Poll Unit} :
    (fromDuration d token).poll k now r waker = some (p, s, r') ↔
      k.create = .ok () ∧ k.register = .ok () ∧ ∃ timer,
        k.set now (k.fromDuration d) = .ok timer ∧ p = .pending ∧
        s = ⟨d, true, token, some timer⟩ ∧ r' = r.statusStore token waker := by
  simp only [poll, fromDuration]
  cases k.create with
  | error e => simp [Except.toOption]
  | ok u =>
    cases k.set now (k.fromDuration d) with
    | error e => simp [Except.toOption]
    | ok timer =>
      cases k.register with
      | error e => simp [Except.toOption]
      | ok v => simp [Except.toOption, eq_comm]

/-- Once the reactor has handled the event of the timer, every poll is ready. -/
theorem poll_event (hs : s.hasPolled = true) :
    s.poll k now (r.event s.mioToken).2 waker = some (.ready (), s, (r.event s.mioToken).2) := by
  simp [poll, hs, Reactor.hasTokenProgressed, Reactor.event]

/-- The first poll does not panic and leaves a timer that expires no earlier than the duration
demands, and the timer's event makes the later polls ready. -/
def Arms (k : Timers E) (now : ℕ) (d : Duration) (token : Token) (r : Reactor W) (waker : W) :
    Prop :=
  ∃ s r' m, (fromDuration d token).poll k now r waker = some (.pending, s, r') ∧
    s.timer = some (some m) ∧ now + d.toNanos ≤ m ∧
    ∀ later waker', (s.poll k later (r'.event token).2 waker').map Prod.fst = some (.ready ())

/-- The first poll arms the timer exactly for the durations that are not zero and end before the
last moment of the clock, when the system has a timer to give and the reactor accepts it. -/
theorem arms_iff (hk : k.Documented) (now : ℕ) (d : Duration) (token : Token) (r : Reactor W)
    (waker : W) : Arms k now d token r waker ↔
      k.create = .ok () ∧ k.register = .ok () ∧ 0 < d.toNanos ∧
        now + d.toNanos ≤ Timers.lastMoment := by
  constructor
  · rintro ⟨s, r', m, hpoll, htimer, hm, -⟩
    obtain ⟨hcreate, hregister, timer, hset, -, rfl, -⟩ := first_poll_eq_some.1 hpoll
    cases htimer
    exact ⟨hcreate, hregister, (hk.set_eq_ok hset).2.1.1 rfl, hk.le_lastMoment hset hm⟩
  · rintro ⟨hcreate, hregister, hpos, hlast⟩
    obtain ⟨m, hset, hm⟩ := hk.set_pos hpos hlast
    refine ⟨_, _, m, first_poll_eq_some.2 ⟨hcreate, hregister, _, hset, rfl, rfl, rfl⟩, rfl, hm,
      fun later waker' => ?_⟩
    rw [poll_event (s := ⟨d, true, token, some (some m)⟩) rfl]
    rfl

/-- Two seconds. -/
theorem arms_iff_twoSeconds : Arms Timers.onTime 5 ⟨2, 0, by decide⟩ 1 .new () :=
  (arms_iff Timers.documented_onTime 5 ⟨2, 0, by decide⟩ 1 .new ()).2
    ⟨rfl, rfl, by decide, by decide⟩

/-- `Duration::ZERO` leaves a timer that never expires, and `Duration::MAX` makes the first poll
panic. -/
theorem zero_disarms_max_panics : ¬ (∀ d : Duration, Arms Timers.onTime 0 d 1 .new ()) ∧
    (∃ s r, (fromDuration ⟨0, 0, by decide⟩ 1).poll Timers.onTime 0 .new () =
      some (.pending, s, r) ∧ s.timer = some none) ∧
    (fromDuration ⟨.ofNat (2 ^ 64 - 1), 999999999, by decide⟩ 1).poll Timers.onTime 0 .new () =
      none := by
  refine ⟨fun hall => ?_, ⟨_, _, rfl, rfl⟩, rfl⟩
  obtain ⟨s, r, m, hpoll, htimer, -⟩ := hall ⟨0, 0, by decide⟩
  obtain ⟨-, -, timer, hset, -, rfl, -⟩ := first_poll_eq_some.1 hpoll
  cases htimer
  cases hset

end Sleep

end Hooch
