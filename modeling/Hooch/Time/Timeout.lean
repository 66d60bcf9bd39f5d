import Hooch.Reactor

/-!
# Timeout

`Timeout` of `time/timeout.rs` polls its sleep first and its future second, so a poll that comes
late finds both ready and answers for the sleep.

* `Timeout.poll`, `untilReady`: one poll, for any two futures, and the polls at a list of moments
  up to the first `Ready`;
* `ReadyFrom`: a future that becomes ready at some moment and stays ready;
* `result_untilReady`: what the polls return;
* `honest_iff`: the main result, on which schedules an error means that the future was late.
-/

namespace Hooch

/-- `TimeoutError`. -/
inductive TimeoutError
  | timeoutError
  deriving DecidableEq

/-- The future and the sleep it races with. -/
structure Timeout (F S : Type*) where
  fut : F
  sleep : S

/-- `Timeout::poll` at a moment. -/
def Timeout.poll {F S M T : Type*} (pollFut : F → M → Poll T × F)
    (pollSleep : S → M → Poll Unit × S) (s : Timeout F S) (now : M) :
    Poll (Except TimeoutError T) × Timeout F S :=
  match pollSleep s.sleep now with
  | (.ready (), sleep) => (.ready (.error .timeoutError), { s with sleep := sleep })
  | (.pending, sleep) =>
      match pollFut s.fut now with
      | (.ready value, fut) => (.ready (.ok value), ⟨fut, sleep⟩)
      | (.pending, fut) => (.pending, ⟨fut, sleep⟩)

/-- Polls at the given moments up to the first `Ready`, with what it returned. -/
def untilReady {σ M α : Type*} (poll : σ → M → Poll α × σ) (s : σ) : List M → Option α × σ
  | [] => (none, s)
  | now :: later =>
      match poll s now with
      | (.ready a, s') => (some a, s')
      | (.pending, s') => untilReady poll s' later

/-- A future that becomes ready at some moment, or never, and stays ready. `polls` is what its
polls have returned. -/
structure ReadyFrom (M T : Type*) where
  readyAt : Option M
  value : T
  polls : List (Poll T)

namespace ReadyFrom

variable {M T : Type*} [LinearOrder M]

/-- A future that was not polled yet. -/
def new (readyAt : Option M) (value : T) : ReadyFrom M T := ⟨readyAt, value, []⟩

/-- The future is ready at this moment. -/
def Ready (f : ReadyFrom M T) (now : M) : Prop := ∃ m ∈ f.readyAt, m ≤ now

instance (f : ReadyFrom M T) (now : M) : Decidable (f.Ready now) :=
  match h : f.readyAt with
  | none => .isFalse (by simp [Ready, h])
  | some m => decidable_of_iff (m ≤ now) (by simp [Ready, h])

def poll (f : ReadyFrom M T) (now : M) : Poll T × ReadyFrom M T :=
  if f.Ready now then (.ready f.value, { f with polls := f.polls ++ [.ready f.value] })
  else (.pending, { f with polls := f.polls ++ [.pending] })

end ReadyFrom

namespace Timeout

variable {M T : Type*} [LinearOrder M] {s : Timeout (ReadyFrom M T) (ReadyFrom M Unit)} {now : M}
  {moments : List M}

/-- The timeout at work on such futures. -/
abbrev pollAt (s : Timeout (ReadyFrom M T) (ReadyFrom M Unit)) (now : M) :=
  s.poll ReadyFrom.poll ReadyFrom.poll now

/-- The poll makes an end. -/
def Ends (s : Timeout (ReadyFrom M T) (ReadyFrom M Unit)) (now : M) : Prop :=
  s.fut.Ready now ∨ s.sleep.Ready now

instance (now : M) : Decidable (s.Ends now) := inferInstanceAs (Decidable (_ ∨ _))

/-! ### What the polls return -/

/-- The sleep is ready, and the future is not polled. -/
theorem pollAt_late (hs : s.sleep.Ready now) :
    s.pollAt now = (.ready (.error .timeoutError), { s with sleep := (s.sleep.poll now).2 }) := by
  simp [pollAt, poll, ReadyFrom.poll, hs]

theorem pollAt_ready (hs : ¬ s.sleep.Ready now) (hf : s.fut.Ready now) :
    s.pollAt now = (.ready (.ok s.fut.value), ⟨(s.fut.poll now).2, (s.sleep.poll now).2⟩) := by
  simp [pollAt, poll, ReadyFrom.poll, hs, hf]

theorem pollAt_pending (hs : ¬ s.sleep.Ready now) (hf : ¬ s.fut.Ready now) :
    s.pollAt now = (.pending, ⟨(s.fut.poll now).2, (s.sleep.poll now).2⟩) := by
  simp [pollAt, poll, ReadyFrom.poll, hs, hf]

/-- A poll does not change when the future is ready. -/
theorem ready_poll {f : ReadyFrom M T} (later : M) :
    (f.poll now).2.Ready later ↔ f.Ready later := by
  unfold ReadyFrom.poll
  split <;> rfl

theorem ends_poll (later : M) :
    (⟨(s.fut.poll now).2, (s.sleep.poll now).2⟩ : Timeout _ _).Ends later ↔ s.Ends later := by
  simp only [Ends, ready_poll]

/-- The first moment at which a future is ready decides, and the sleep comes first. -/
theorem result_untilReady : (untilReady pollAt s moments).1 =
    (moments.find? fun now => s.Ends now).map fun now =>
      if s.sleep.Ready now then .error .timeoutError else .ok s.fut.value := by
  induction moments generalizing s with
  | nil => rfl
  | cons now later ih =>
    by_cases hs : s.sleep.Ready now
    · simp [untilReady, pollAt_late hs, Ends, hs]
    · by_cases hf : s.fut.Ready now
      · simp [untilReady, pollAt_ready hs hf, Ends, hs, hf]
      · rw [untilReady, pollAt_pending hs hf]
        simp only [ih, ends_poll, ready_poll]
        have hvalue : (s.fut.poll now).2.value = s.fut.value := by
          unfold ReadyFrom.poll
          split <;> rfl
        simp [Ends, hs, hf, hvalue]

/-- No poll of the future comes after one that returned `Ready`. -/
theorem polls_untilReady {v : T} (h : .ready v ∉ s.fut.polls) :
    .ready v ∉ (untilReady pollAt s moments).2.fut.polls.dropLast := by
  induction moments generalizing s with
  | nil => exact fun hmem => h (List.mem_of_mem_dropLast hmem)
  | cons now later ih =>
    by_cases hs : s.sleep.Ready now
    · rw [untilReady, pollAt_late hs]
      exact fun hmem => h (List.mem_of_mem_dropLast hmem)
    · by_cases hf : s.fut.Ready now
      · simpa [untilReady, pollAt_ready hs hf, ReadyFrom.poll, hf] using h
      · rw [untilReady, pollAt_pending hs hf]
        exact ih (by simpa [ReadyFrom.poll, hf] using h)

/-! ### When an error means that the future was late -/

/-- The result is the output of the future or an error, an error only when the future was not
ready at the moment the sleep became ready, and the future is not polled after it was ready. -/
structure Honest (fut : ReadyFrom M T) (sleep : ReadyFrom M Unit) (moments : List M) : Prop where
  result : ∀ r, (untilReady pollAt ⟨fut, sleep⟩ moments).1 = some r →
    r = .ok fut.value ∨ r = .error .timeoutError
  late : (untilReady pollAt ⟨fut, sleep⟩ moments).1 = some (.error .timeoutError) →
    ∀ m ∈ sleep.readyAt, ¬ fut.Ready m
  polls : ∀ v, .ready v ∉ (untilReady pollAt ⟨fut, sleep⟩ moments).2.fut.polls.dropLast

/-- If the future is ready at the moment the sleep becomes ready, and a poll comes after that
moment, then one comes before it that finds the future ready. -/
def InTime (fut : ReadyFrom M T) (sleep : ReadyFrom M Unit) (moments : List M) : Prop :=
  ∀ m ∈ sleep.readyAt, fut.Ready m → (∃ now ∈ moments, m ≤ now) →
    ∃ now ∈ moments, fut.Ready now ∧ now < m

/-- The polls end with an error exactly when the sleep is ready at the first of the moments at
which one of the two is. -/
theorem result_eq_error_iff : (untilReady pollAt s moments).1 = some (.error .timeoutError) ↔
    ∃ now, moments.find? (fun now => s.Ends now) = some now ∧ s.sleep.Ready now := by
  rw [result_untilReady]
  simp only [Option.map_eq_some_iff]
  refine exists_congr fun now => and_congr_right fun _ => ?_
  by_cases hs : s.sleep.Ready now <;> simp [hs]

/-- At every increasing sequence of moments, an error means that the future was late exactly when
`InTime` holds. -/
theorem honest_iff (futAt sleepAt : Option M) (v : T) (h : moments.Pairwise (· < ·)) :
    Honest (.new futAt v) (.new sleepAt ()) moments ↔
      InTime (.new futAt v : ReadyFrom M T) (.new sleepAt ()) moments := by
  set s : Timeout (ReadyFrom M T) (ReadyFrom M Unit) := ⟨.new futAt v, .new sleepAt ()⟩ with hs
  constructor
  · rintro hhonest m hm hready ⟨later, hlater, hle⟩
    have hfound : (moments.find? fun now => s.Ends now).isSome := by
      rw [List.find?_isSome]
      exact ⟨later, hlater, by simpa using (show s.Ends later from .inr ⟨m, hm, hle⟩)⟩
    obtain ⟨now, hnow⟩ := Option.isSome_iff_exists.1 hfound
    have hearly : ¬ s.sleep.Ready now := fun hsleep =>
      hhonest.late (result_eq_error_iff.2 ⟨now, hnow, hsleep⟩) m hm hready
    have hends : s.Ends now := by simpa using List.find?_some hnow
    refine ⟨now, List.mem_of_find?_eq_some hnow, hends.resolve_right hearly, ?_⟩
    exact not_le.1 fun hmn => hearly ⟨m, hm, hmn⟩
  · intro htime
    refine ⟨fun r hr => ?_, fun herr m hm hready => ?_, fun w => polls_untilReady ?_⟩
    · rw [result_untilReady] at hr
      obtain ⟨now, -, rfl⟩ := Option.map_eq_some_iff.1 hr
      split
      · exact .inr rfl
      · exact .inl rfl
    · obtain ⟨now, hnow, m', hm', hle⟩ := result_eq_error_iff.1 herr
      obtain rfl : m' = m := Option.mem_unique hm' hm
      obtain ⟨early, hearly, hfut, hlt⟩ :=
        htime m' hm hready ⟨now, List.mem_of_find?_eq_some hnow, hle⟩
      -- The moments before the deciding one find nothing ready, and those after it are later.
      obtain ⟨-, before, after, hsplit, hbefore⟩ := List.find?_eq_some_iff_append.1 hnow
      rw [hsplit] at hearly h
      rcases List.mem_append.1 hearly with hmem | hmem
      · have hnot : ¬ s.Ends early := by simpa using hbefore early hmem
        exact absurd (.inl hfut) hnot
      · rcases List.mem_cons.1 hmem with rfl | hmem
        · exact absurd hlt (not_lt.2 hle)
        · have hnext : now < early :=
            List.rel_of_pairwise_cons (List.pairwise_append.1 h).2.1 hmem
          exact absurd (hnext.trans hlt) (not_lt.2 hle)
    · simp [ReadyFrom.new]

/-- Polls at 0, 2 and 5; the future is ready from 1 on and the sleep from 3 on. -/
theorem honest_iff_polledBetween :
    Honest (.new (some 1) true) (.new (some 3) ()) ([0, 2, 5] : List ℕ) ∧
      (untilReady pollAt (⟨.new (some 1) true, .new (some 3) ()⟩ : Timeout _ _) [0, 2, 5]).1 =
        some (.ok true) := by
  refine ⟨(honest_iff (some 1) (some 3) true (by decide)).2 ?_, by decide⟩
  rintro m ⟨⟩ - -
  exact ⟨2, by decide, ⟨1, rfl, by decide⟩, by decide⟩

/-- Polls at 0 and 5 only: the future was ready in time, and the answer is an error. -/
theorem late_poll_errs : ¬ Honest (.new (some 1) true) (.new (some 3) ()) ([0, 5] : List ℕ) :=
  fun hhonest => hhonest.late (by decide) 3 rfl ⟨1, rfl, by decide⟩

end Timeout

end Hooch
