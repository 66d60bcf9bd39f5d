import Hooch.LeafAwait
import Hooch.Time.Timeout

/-!
# A timeout on the runtime

A task of the runtime awaits `timeout` of a future. Nothing is assumed of the future: any poll of it
may be ready or not, whoever does whatever to it in between, and it need not wake anybody.

* `TimeoutLeaf`, `leaf`: `timeout` as a leaf future, around a sleep and the future;
* `keepsFirst`, `prompt`: it keeps its first waker and is ready after the event of its timer, as the
  sleep does;
* `timeout_ends`: in a fair run it ends, with the error only after the duration.
-/

namespace Hooch

open TransitionSystem

/-- `timeout` of a future `F` with results in `T`. `output` is what it has returned. -/
structure TimeoutLeaf (F T τ : Type*) where
  timeout : Timeout F (SleepLeaf τ)
  output : Option (Except TimeoutError T)

/-- What happens around a timeout. -/
inductive TimeoutOther (F τ : Type*)
  | sleep (a : SleepOther τ)
  /-- The others do something to the future. -/
  | fut (fut : F)

namespace TimeoutLeaf

variable {E F T τ : Type*} [DecidableEq τ]

/-- `timeout`, before its first poll. -/
def new (fut : F) (d : Duration) (token : Token) (r : Reactor τ) (now : ℕ) : TimeoutLeaf F T τ :=
  ⟨⟨fut, .new d token r now⟩, none⟩

/-- The others do something to the sleep. -/
def othersSleep (k : Timers E) (f : TimeoutLeaf F T τ) (a : SleepOther τ) :
    Option (TimeoutLeaf F T τ × Option (Option τ)) :=
  ((SleepLeaf.leaf k).others f.timeout.sleep a).map fun p =>
    ({ f with timeout := { f.timeout with sleep := p.1 } }, p.2)

def leaf (k : Timers E) (pollFut : F → τ → Poll T × F) :
    Leaf (TimeoutLeaf F T τ) τ (TimeoutOther F τ) where
  poll f waker :=
    -- An `async fn` that has returned panics when it is polled.
    if f.output.isSome then none
    else ((SleepLeaf.leaf k).poll f.timeout.sleep waker).map fun p =>
      let pollSleep := fun _ _ => (if p.1 then Poll.pending else .ready (), p.2)
      match f.timeout.poll pollFut pollSleep waker with
      | (.ready result, timeout) => (false, ⟨timeout, some result⟩)
      | (.pending, timeout) => (true, ⟨timeout, none⟩)
  others f
    -- With the timeout its timer is dropped.
    | .sleep .expire => if f.output.isSome then none else f.othersSleep k .expire
    | .sleep a => f.othersSleep k a
    | .fut fut => some ({ f with timeout := { f.timeout with fut := fut } }, none)

variable {k : Timers E} {pollFut : F → τ → Poll T × F} {f f' : TimeoutLeaf F T τ} {t : τ}

/-- What a poll does that does not panic, one case each. -/
inductive Polls (k : Timers E) (pollFut : F → τ → Poll T × F) (t : τ) (f : TimeoutLeaf F T τ) :
    Bool → TimeoutLeaf F T τ → Prop
  | late {sleep : SleepLeaf τ}
      (hsleep : (SleepLeaf.leaf k).poll f.timeout.sleep t = some (false, sleep)) :
      Polls k pollFut t f false ⟨⟨f.timeout.fut, sleep⟩, some (.error .timeoutError)⟩
  | done {sleep : SleepLeaf τ} {v : T} {fut : F}
      (hsleep : (SleepLeaf.leaf k).poll f.timeout.sleep t = some (true, sleep))
      (hfut : pollFut f.timeout.fut t = (.ready v, fut)) :
      Polls k pollFut t f false ⟨⟨fut, sleep⟩, some (.ok v)⟩
  | pending {sleep : SleepLeaf τ} {fut : F}
      (hsleep : (SleepLeaf.leaf k).poll f.timeout.sleep t = some (true, sleep))
      (hfut : pollFut f.timeout.fut t = (.pending, fut)) :
      Polls k pollFut t f true ⟨⟨fut, sleep⟩, none⟩

theorem polls_of_poll {b : Bool} (h : (leaf k pollFut).poll f t = some (b, f')) :
    f.output = none ∧ Polls k pollFut t f b f' := by
  simp only [leaf, Option.ite_none_left_eq_some, Option.not_isSome_iff_eq_none,
    Option.map_eq_some_iff, Prod.exists] at h
  obtain ⟨hout, late, sleep, hsleep, h⟩ := h
  refine ⟨hout, ?_⟩
  cases late with
  | false =>
    cases h
    exact .late hsleep
  | true =>
    cases hfut : pollFut f.timeout.fut t with
    | mk p fut =>
      cases p with
      | pending =>
        simp only [Timeout.poll, hfut, if_true] at h
        cases h
        exact .pending hsleep hfut
      | ready v =>
        simp only [Timeout.poll, hfut, if_true] at h
        cases h
        exact .done hsleep hfut

/-- What a step of the others does: something to the sleep, or to the future. -/
theorem others_cases {a : TimeoutOther F τ} {o : Option (Option τ)}
    (h : (leaf k pollFut).others f a = some (f', o)) : f'.output = f.output ∧
      (o.isSome → f.output = none) ∧
      ((∃ a', a = .sleep a' ∧
          (SleepLeaf.leaf k).others f.timeout.sleep a' = some (f'.timeout.sleep, o)) ∨
        f'.timeout.sleep = f.timeout.sleep ∧ o = none) := by
  cases a with
  | fut fut =>
    cases h
    exact ⟨rfl, fun h => (by cases h), .inr ⟨rfl, rfl⟩⟩
  | sleep a =>
    have hsleep : f.othersSleep k a = some (f', o) ∧ (o.isSome → f.output = none) := by
      cases a with
      | expire =>
        simp only [leaf, Option.ite_none_left_eq_some, Option.not_isSome_iff_eq_none] at h
        exact ⟨h.2, fun _ => h.1⟩
      | tick | reactor =>
        refine ⟨h, fun ho => ?_⟩
        simp only [leaf, othersSleep, Option.map_eq_some_iff, Prod.mk.injEq, Prod.exists] at h
        obtain ⟨sleep, o, hothers, -, rfl⟩ := h
        cases SleepLeaf.happens_of_others hothers
        cases ho
    obtain ⟨hothers, ho⟩ := hsleep
    simp only [othersSleep, Option.map_eq_some_iff, Prod.mk.injEq, Prod.exists] at hothers
    obtain ⟨sleep, o, hothers, rfl, rfl⟩ := hothers
    exact ⟨rfl, ho, .inl ⟨a, rfl, hothers⟩⟩

/-! ### The first waker, and the event -/

/-- Until the timeout returns, its sleep keeps the first waker. -/
def First (f : TimeoutLeaf F T τ) (ws : List τ) : Prop :=
  f.output = none → SleepLeaf.First f.timeout.sleep ws

theorem keepsFirst (k : Timers E) (pollFut : F → τ → Poll T × F) :
    (leaf k pollFut).KeepsFirst First where
  pending f ws w f' hf hpoll := by
    obtain ⟨hout, hpolls⟩ := polls_of_poll hpoll
    cases hpolls with
    | pending hsleep => exact fun _ => (SleepLeaf.keepsFirst k).pending _ _ _ _ (hf hout) hsleep
  ready f ws w f' hf hpoll := by
    obtain ⟨-, hpolls⟩ := polls_of_poll hpoll
    cases hpolls <;> exact fun h => by cases h
  others f ws a f' o hf hothers := by
    obtain ⟨houtput, ho, ⟨a', -, hsleep⟩ | ⟨hsleep, rfl⟩⟩ := others_cases hothers
    · have hkept := fun hout => (SleepLeaf.keepsFirst k).others _ _ _ _ _ (hf hout) hsleep
      refine ⟨fun hout => (hkept (houtput.symm.trans hout)).1, ?_⟩
      rintro w rfl
      exact (hkept (ho rfl)).2 w rfl
    · refine ⟨fun hout => ?_, fun w hw => by cases hw⟩
      rw [hsleep]
      exact hf (houtput.symm.trans hout)

/-- Until the timeout returns, the status says whether the event of the timer was processed. -/
def Timed (f : TimeoutLeaf F T τ) (polled processed : Bool) : Prop :=
  f.output = none ∧ SleepLeaf.Timed f.timeout.sleep polled processed

theorem prompt (k : Timers E) (pollFut : F → τ → Poll T × F) :
    (leaf k pollFut).Prompt Timed where
  pending f polled w f' hf hpoll := by
    obtain ⟨-, hpolls⟩ := polls_of_poll hpoll
    cases hpolls with
    | pending hsleep => exact ⟨rfl, (SleepLeaf.prompt k).pending _ _ _ _ hf.2 hsleep⟩
  panics f processed w hf := by
    simpa [leaf, hf.1] using (SleepLeaf.prompt k).panics _ _ w hf.2
  ready f w p hf hpoll := by
    obtain ⟨b, f'⟩ := p
    obtain ⟨-, hpolls⟩ := polls_of_poll hpoll
    cases hpolls with
    | late | done => rfl
    | pending hsleep => exact (SleepLeaf.prompt k).ready _ _ _ hf.2 hsleep
  unpolled f hf := (SleepLeaf.prompt k).unpolled _ hf.2
  others f polled processed a p hf hothers := by
    obtain ⟨f', o⟩ := p
    obtain ⟨houtput, -, ⟨a', -, hsleep⟩ | ⟨hsleep, rfl⟩⟩ := others_cases hothers
    · exact ⟨houtput.trans hf.1, (SleepLeaf.prompt k).others _ _ _ _ _ hf.2 hsleep⟩
    · refine ⟨houtput.trans hf.1, ?_⟩
      simp only [Option.isSome_none, Bool.or_false]
      rw [hsleep]
      exact hf.2

/-! ### In the long run -/

open Awaiting

variable {ids : List ExecutorId} {d : Duration} {token : Token} {r : Reactor τ} {now : ℕ}
  {fut : F} {s s' : Awaiting (TimeoutLeaf F T τ) τ}
  {l : Awaiting.Label τ (TimeoutOther F τ)}

/-- Time goes on. -/
def Forward (s : Awaiting (TimeoutLeaf F T τ) τ) : Awaiting.Label τ (TimeoutOther F τ) → Prop
  | .others (.sleep (.tick now)) => s.future.timeout.sleep.now ≤ now
  | _ => True

instance (s : Awaiting (TimeoutLeaf F T τ) τ) :
    (l : Awaiting.Label τ (TimeoutOther F τ)) → Decidable (Forward s l)
  | .others (.sleep (.tick now)) => inferInstanceAs (Decidable (s.future.timeout.sleep.now ≤ now))
  | .base _ | .poll _ | .leave _ _ | .others (.sleep .expire) | .others (.sleep (.reactor _))
  | .others (.fut _) => .isTrue trivial

/-- The sleep in the state. -/
def sleepOf (s : Awaiting (TimeoutLeaf F T τ) τ) : SleepLeaf τ := s.future.timeout.sleep

theorem advances_of_polls {b : Bool} (h : Polls k pollFut t f b f') :
    SleepLeaf.Advances k t f.timeout.sleep f'.timeout.sleep := by
  cases h with
  | late hsleep | done hsleep | pending hsleep => exact .poll hsleep

/-- What a step is for the sleep. -/
theorem advances_of_next (hforward : Forward s l) (hn : Next (leaf k pollFut) t s l s') :
    SleepLeaf.Advances k t (sleepOf s) (sleepOf s') := by
  have hothers : ∀ {a f' o}, l = .others a → (leaf k pollFut).others s.future a = some (f', o) →
      SleepLeaf.Advances k t (sleepOf s) f'.timeout.sleep := by
    rintro a f' o rfl hothers
    obtain ⟨-, -, ⟨a', rfl, hsleep⟩ | ⟨hsleep, -⟩⟩ := others_cases hothers
    · refine .of_others ?_ hsleep
      rintro now rfl
      exact hforward
    · rw [hsleep]
      exact .same
  cases hn with
  | base | leave | panic => exact .same
  | pending _ _ _ hpoll | ready _ _ _ hpoll => exact advances_of_polls (polls_of_poll hpoll).2
  | event h | others h => exact hothers rfl h

theorem enabled_expire (hout : s.future.output = none)
    (h : ((SleepLeaf.leaf k).others (sleepOf s) .expire).isSome) :
    (awaiting (leaf k pollFut) ids t f).Enabled (fun l => l = .others (.sleep .expire)) s :=
  ⟨.others (.sleep .expire), rfl,
    isSome_others (t := t) (by simpa [leaf, hout, othersSleep, sleepOf] using h)⟩

theorem expired_of_expire (hs : s.step (leaf k pollFut) t (.others (.sleep .expire)) = some s') :
    (sleepOf s').expired = true := by
  have hexpired : ∀ {f' o}, (leaf k pollFut).others s.future (.sleep .expire) = some (f', o) →
      f'.timeout.sleep.expired = true := by
    intro f' o h
    simp only [leaf, othersSleep, Option.ite_none_left_eq_some, Option.map_eq_some_iff,
      Prod.mk.injEq, Prod.exists] at h
    obtain ⟨-, sleep, o, hsleep, rfl, rfl⟩ := h
    cases SleepLeaf.happens_of_others hsleep with
    | expire => rfl
  cases next_of_step hs with
  | event h | others h => exact hexpired h

section Runs

variable {x : (awaiting (leaf k pollFut) ids t (.new fut d token r now)).Execution}

theorem ok_run (hcalm : x.Under (Calm (leaf k pollFut) t)) (n : ℕ) :
    Ok First Timed ids t (x.state n) :=
  ok_of_calm (keepsFirst k pollFut) (prompt k pollFut) (fun _ => .inl ⟨rfl, rfl, rfl⟩)
    ⟨rfl, SleepLeaf.timed_new⟩ hcalm n

theorem inside_run (hforward : x.Under Forward) : SleepLeaf.Inside k t sleepOf x := by
  intro n
  cases hact : x.act n with
  | none =>
    rw [x.rests n hact]
    exact .same
  | some l => exact advances_of_next (hforward n l hact) (next_of_step (x.steps n l hact))

/-- The first poll that is `Pending` arms the sleep. -/
theorem armed_run (hcalm : x.Under (Calm (leaf k pollFut) t)) (hforward : x.Under Forward) {n : ℕ}
    (hbefore : ¬ (x.state n).InFlight) (hafter : (x.state (n + 1)).InFlight) :
    ∃ timer, k.set (sleepOf (x.state n)).now (k.fromDuration d) = .ok timer ∧
      SleepLeaf.Armed timer (sleepOf (x.state (n + 1))) := by
  cases hact : x.act n with
  | none =>
    rw [x.rests n hact] at hafter
    exact absurd hafter hbefore
  | some l =>
    obtain ⟨hready, hpolls, e, f, -, hpoll, hstate⟩ :=
      (next_of_step (x.steps n l hact)).first_pending hbefore hafter
    have htimed := ((ok_run hcalm n).prompt hready).2
    rw [hpolls] at htimed
    obtain ⟨-, hpolls⟩ := polls_of_poll hpoll
    cases hpolls with
    | pending hsleep =>
      obtain ⟨timer, hset, harmed⟩ := SleepLeaf.armed_of_first htimed hsleep
      have hduration := (inside_run hforward).duration_eq n
      rw [x.init.2] at hduration
      rw [show (x.state n).future.timeout.sleep.sleep.duration = d from hduration] at hset
      exact ⟨timer, hset, by rw [hstate]; exact harmed⟩

/-- A `timeout` of any duration of any future, awaited by a task of the runtime, from its first
poll on, in a run in which every registration goes through, no poll panics, nobody aborts the task,
time goes on and reaches the moment the timer is set to, and neither an executor nor the event of
the timer is left aside for ever: it ends, if the duration is not zero; and when it ends, it returns
what the future has returned in the same poll, or the error, and that only after the duration or at
the last moment of the clock. -/
theorem timeout_ends (hids : ids ≠ []) (hk : k.Documented)
    (x : (awaiting (leaf k pollFut) ids t (.new fut d token r now)).Execution)
    (hcalm : x.Under (Calm (leaf k pollFut) t)) (hforward : x.Under Forward)
    (hfair : ∀ e ∈ ids, x.WeaklyFair (Moves e))
    (hevents : x.WeaklyFair fun l => l = .others (.sleep .expire))
    {n : ℕ} (hbefore : ¬ (x.state n).InFlight) (hafter : (x.state (n + 1)).InFlight)
    (hclock : ∀ m, (x.state (n + 1)).future.timeout.sleep.sleep.timer = some (some m) →
      ∃ n', m ≤ (x.state n').future.timeout.sleep.now) :
    (0 < d.toNanos → ∃ m, (x.state m).ready = true) ∧
      ∀ m, (x.state m).ready = false → (x.state (m + 1)).ready = true →
        (∃ v, (pollFut (x.state m).future.timeout.fut t).1 = .ready v ∧
          (x.state (m + 1)).future.output = some (.ok v)) ∨
        (x.state (m + 1)).future.output = some (.error .timeoutError) ∧ 0 < d.toNanos ∧
          min ((x.state n).future.timeout.sleep.now + d.toNanos) Timers.lastMoment ≤
            (x.state m).future.timeout.sleep.now := by
  obtain ⟨timer, hset, harmed⟩ := armed_run hcalm hforward hbefore hafter
  have hinside := inside_run hforward
  refine ⟨fun hd => ?_, fun m hm hm' => ?_⟩
  · obtain ⟨m, rfl⟩ := Option.isSome_iff_exists.1 ((hk.set_eq_ok hset).2.1.2 hd)
    by_contra hnever
    push Not at hnever
    have hready : ∀ j, (x.state j).ready = false := fun j => by simpa using hnever j
    obtain ⟨n', hn'⟩ := hclock m harmed.timer_eq
    obtain ⟨j, hj, hexpired⟩ := hinside.expires harmed hn' hevents
      (fun j _ h => enabled_expire ((ok_run hcalm j).prompt (hready j)).1 h)
      fun j l hact hl => expired_of_expire (t := t) (hl ▸ x.steps j l hact)
    have htimed := ((ok_run hcalm j).prompt (hready j)).2
    have hpolls : 0 < (x.state j).polls := by
      have hpolled := htimed.hasPolled
      rw [show (x.state j).future.timeout.sleep.sleep.hasPolled = true from
        (hinside.armed harmed hj).hasPolled] at hpolled
      simpa using hpolled
    obtain ⟨i, -, hi⟩ := processed_leadsTo hids (keepsFirst k pollFut) (prompt k pollFut)
      (fun _ => .inl ⟨rfl, rfl, rfl⟩) ⟨rfl, SleepLeaf.timed_new⟩ hcalm hfair j
      ⟨⟨hpolls, hready j⟩, htimed.expired.symm.trans hexpired⟩
    exact hnever i hi
  · cases hact : x.act m with
    | none =>
      rw [x.rests m hact, hm] at hm'
      cases hm'
    | some l =>
      have hok := ok_run hcalm m
      have hnm : n + 1 ≤ m := by
        by_contra hlt
        have hready := Execution.stable
          (P := fun s : Awaiting (TimeoutLeaf F T τ) τ => s.ready = true)
          (fun j l _ hact hj => (next_of_step (x.steps j l hact)).ready_of_ready hj)
          (show m + 1 ≤ n + 1 by omega) hm'
        exact absurd (hafter.2.symm.trans hready) (by simp)
      obtain ⟨f', hpoll, hstate⟩ := (next_of_step (x.steps m l hact)).ready_poll hm hm'
      rw [hstate]
      obtain ⟨hout, hpolls⟩ := polls_of_poll hpoll
      cases hpolls with
      | done _ hfut => exact .inl ⟨_, by rw [hfut], rfl⟩
      | late hsleep =>
        have hexpired := SleepLeaf.expired_of_ready (hok.kept hm hout) hsleep
        exact .inr ⟨rfl, (hinside.armed harmed hnm).elapsed hk hset hexpired⟩

end Runs

/-- A future that is never ready. -/
def neverReady : Unit → ℕ → Poll Unit × Unit := fun f _ => (.pending, f)

/-- A task waits for it nine nanoseconds at most, and nothing happens once it has finished. -/
def timedOutOnce : List (Awaiting.Label ℕ (TimeoutOther Unit ℕ)) :=
  [.base (.register 5), .base (.recv 0), .base (.work (.lock 0)), .base (.work (.look 0)),
    .poll 0, .leave 0 .pending, .base (.work (.unlock 0)), .base (.ready 0),
    .others (.sleep (.tick 109)), .others (.sleep .expire), .base (.recv 0),
    .base (.work (.lock 0)), .base (.work (.look 0)), .poll 0, .leave 0 .ready,
    .base (.work (.clear 0)), .base (.work (.unlock 0)), .base (.ready 0)]

def timedOutRun : (awaiting (leaf Timers.onTime neverReady) [0] 5
    (.new () ⟨0, 9, by decide⟩ 1 .new 100)).Execution :=
  .ofRun (s := ⟨⟨.registeredWith [0], .new, []⟩, _, .outside, 0, false, false⟩) timedOutOnce
    ⟨⟨_, rfl, by decide, rfl⟩, rfl⟩ (by decide)

theorem timedOutRun_rests {m : ℕ} (hm : 18 ≤ m) : timedOutRun.state m = timedOutRun.state 18 :=
  Execution.ofRun_state_of_length_le _ _ hm

theorem timeout_ends_timedOutRun : (∃ m, (timedOutRun.state m).ready = true) ∧
    (timedOutRun.state 14).future.output = some (.error .timeoutError) := by
  have hends := timeout_ends (n := 4) (by decide) Timers.documented_onTime timedOutRun
    (Execution.ofRun_under _ _ (by decide)) (Execution.ofRun_under _ _ (by decide)) ?_ ?_
    (by decide) (by decide) fun m hm => ⟨9, ?_⟩
  · refine ⟨hends.1 (by decide), ?_⟩
    rcases hends.2 13 (by decide) (by decide) with ⟨v, hv, -⟩ | ⟨hout, -⟩
    · cases hv
    · exact hout
  · intro e he
    obtain rfl : e = 0 := by simpa using he
    exact weaklyFair_of_idle (fun m hm => timedOutRun_rests hm) (by decide) (by decide)
  · refine Execution.weaklyFair_of_not_enabled (n := 18) fun m hm => ?_
    rw [timedOutRun_rests hm]
    rintro ⟨l, rfl, hs⟩
    exact absurd hs (by decide)
  · have htimer : (timedOutRun.state 5).future.timeout.sleep.sleep.timer = some (some 109) := by
      decide
    rw [htimer] at hm
    cases hm
    decide

end TimeoutLeaf

end Hooch
