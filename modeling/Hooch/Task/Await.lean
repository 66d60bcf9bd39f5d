import Hooch.LeafFutures
import Hooch.Task.Liveness

/-!
# A task that awaits a leaf future

A leaf future wakes whoever polled it first, and the runtime polls the task that was woken. Between
the two lies a poll that returns `Pending` while the event is processed, or whose executor has not
let go of the task yet.

* `Awaiting`, `step`, `awaiting`: a leaf future, polled by a task of the runtime only, in every
  interleaving with the others and with the rest of the runtime;
* `Leaf.Prompt`: the future is ready once its event was processed;
* `Ok`: the invariant, with the place a wake-up is in;
* `Ok.waits`: a parked task that nothing is to deliver still waits for the event;
* `runsOn`, `weaklyFair_runtime`: a fair run of the system is a fair run of the runtime;
* `processed_leadsTo`: in a fair run the future is ready some time after its event.
-/

namespace Hooch

open TransitionSystem

/-- Polled or not, before or after its event, the future is as `J` says: no poll of it panics but
the first, and it is ready once its event was processed. -/
structure Leaf.Prompt {F W α : Type*} (leaf : Leaf F W α) (J : F → Bool → Bool → Prop) : Prop where
  pending : ∀ f polled w f', J f polled false → leaf.poll f w = some (true, f') → J f' true false
  panics : ∀ f processed w, J f true processed → (leaf.poll f w).isSome
  ready : ∀ f w p, J f true true → leaf.poll f w = some p → p.1 = false
  unpolled : ∀ f, ¬ J f false true
  others : ∀ f polled processed a p, J f polled processed → leaf.others f a = some p →
    J p.1 polled (processed || p.2.isSome)

/-- A poll of the task, by what it has done to the future. -/
inductive Awaiting.Pc
  /-- The future was not polled yet, or it is ready. -/
  | outside
  /-- The poll of the future has returned `Pending`, and the poll of the task is to return it. -/
  | pending
  /-- The poll of the future has panicked. -/
  | unwinding
  deriving DecidableEq

/-- The runtime and the future. `polls` counts the polls that were `Pending`, and `processed` says
that the event that makes the future ready was. -/
structure Awaiting (F τ : Type*) where
  rt : Runtime τ
  future : F
  pc : Awaiting.Pc
  polls : ℕ
  processed : Bool
  ready : Bool

namespace Awaiting

/-- Who moves. -/
inductive Label (τ α : Type*)
  /-- A step of the runtime that does not end a poll of the task. -/
  | base (a : Runtime.Label τ)
  /-- The task, polled by the executor, polls the future. -/
  | poll (e : ExecutorId)
  /-- The poll of the task ends. -/
  | leave (e : ExecutorId) (o : Outcome)
  | others (a : α)

variable {F τ α : Type*} [DecidableEq τ]

/-- The future has been polled and is not ready. -/
def InFlight (s : Awaiting F τ) : Prop := 0 < s.polls ∧ s.ready = false

instance (s : Awaiting F τ) : Decidable s.InFlight := inferInstanceAs (Decidable (_ ∧ _))

/-- The poll of the task may end so. While the future is in flight every poll of the task polls
it. -/
def MayEnd (s : Awaiting F τ) (o : Outcome) : Prop :=
  match s.pc with
  | .outside => ¬ s.InFlight
  | .pending => o = .pending
  | .unwinding => o = .panic

instance (s : Awaiting F τ) (o : Outcome) : Decidable (s.MayEnd o) :=
  match h : s.pc with
  | .outside => decidable_of_iff (¬ s.InFlight) (by simp [MayEnd, h])
  | .pending => decidable_of_iff (o = .pending) (by simp [MayEnd, h])
  | .unwinding => decidable_of_iff (o = .panic) (by simp [MayEnd, h])

/-- Whoever was stored as the waker is woken. -/
def wake (rt : Runtime τ) : Option τ → Option (Runtime τ)
  | some u => rt.step (.register u)
  | none => some rt

/-- One step, for the task `t`. A wake that does not make the future ready is one of the steps of
the runtime. -/
def step (leaf : Leaf F τ α) (t : τ) (s : Awaiting F τ) : Label τ α → Option (Awaiting F τ)
  | .base a => if s.rt.EndsPoll t a then none else (s.rt.step a).map fun rt => { s with rt := rt }
  | .poll e =>
      if s.rt.x.pc e = .polling t ∧ s.pc = .outside ∧ s.ready = false then
        match leaf.poll s.future t with
        | some (true, f) => some { s with future := f, polls := s.polls + 1, pc := .pending }
        | some (false, f) => some { s with future := f, ready := true }
        | none => some { s with pc := .unwinding }
      else none
  | .leave e o =>
      if s.rt.x.pc e = .polling t ∧ s.MayEnd o then
        (s.rt.step (.work (.polled e o))).map fun rt => { s with rt := rt, pc := .outside }
      else none
  | .others a =>
      (leaf.others s.future a).bind fun p =>
        match p.2 with
        | some w => (wake s.rt w).map fun rt =>
            { s with future := p.1, rt := rt, processed := true }
        | none => some { s with future := p.1 }

end Awaiting

/-- The task `t` awaits the future `f`. -/
def awaiting {F τ α : Type*} [DecidableEq τ] (leaf : Leaf F τ α) (ids : List ExecutorId) (t : τ)
    (f : F) : TransitionSystem (Awaiting F τ) (Awaiting.Label τ α) where
  init s := (runtime ids).init s.rt ∧ s = ⟨s.rt, f, .outside, 0, false, false⟩
  step := Awaiting.step leaf t

namespace Awaiting

variable {F τ α : Type*} [DecidableEq τ] {leaf : Leaf F τ α} {ids : List ExecutorId} {t : τ}
  {f : F} {s s' : Awaiting F τ} {l : Label τ α} {I : F → List τ → Prop} {J : F → Bool → Bool → Prop}

/-- The event comes to the waker, every wake of the task registers it, and nobody aborts it. -/
def Woken (leaf : Leaf F τ α) (t : τ) (s : Awaiting F τ) : Label τ α → Prop
  | .base (.register u) => u = t → s.rt.Registers t
  | .base (.abort u) => u ≠ t
  | .others a =>
      (((leaf.others s.future a).bind Prod.snd).isSome → leaf.heard s.future = true) ∧
        ((leaf.others s.future a).bind Prod.snd = some (some t) → s.rt.Registers t)
  | _ => True

/-- The task awaits the future, and no executor polls it. -/
def Parked (t : τ) (s : Awaiting F τ) : Prop :=
  s.InFlight ∧ ∀ e, s.rt.x.pc e ≠ .polling t

/-- What a step does, one case each. -/
inductive Next (leaf : Leaf F τ α) (t : τ) (s : Awaiting F τ) : Label τ α → Awaiting F τ → Prop
  | base {a : Runtime.Label τ} {rt : Runtime τ} (hends : ¬ s.rt.EndsPoll t a)
      (hs : s.rt.step a = some rt) : Next leaf t s (.base a) { s with rt := rt }
  | pending {e : ExecutorId} {f : F} (hpc : s.rt.x.pc e = .polling t) (hout : s.pc = .outside)
      (hready : s.ready = false) (hpoll : leaf.poll s.future t = some (true, f)) :
      Next leaf t s (.poll e) { s with future := f, polls := s.polls + 1, pc := .pending }
  | ready {e : ExecutorId} {f : F} (hpc : s.rt.x.pc e = .polling t) (hout : s.pc = .outside)
      (hready : s.ready = false) (hpoll : leaf.poll s.future t = some (false, f)) :
      Next leaf t s (.poll e) { s with future := f, ready := true }
  | panic {e : ExecutorId} (hpc : s.rt.x.pc e = .polling t) (hout : s.pc = .outside)
      (hready : s.ready = false) (hpoll : leaf.poll s.future t = none) :
      Next leaf t s (.poll e) { s with pc := .unwinding }
  | leave {e : ExecutorId} {o : Outcome} {rt : Runtime τ} (hpc : s.rt.x.pc e = .polling t)
      (hend : s.MayEnd o) (hs : s.rt.step (.work (.polled e o)) = some rt) :
      Next leaf t s (.leave e o) { s with rt := rt, pc := .outside }
  | event {a : α} {f : F} {w : Option τ} {rt : Runtime τ}
      (hothers : leaf.others s.future a = some (f, some w)) (hs : wake s.rt w = some rt) :
      Next leaf t s (.others a) { s with future := f, rt := rt, processed := true }
  | others {a : α} {f : F} (hothers : leaf.others s.future a = some (f, none)) :
      Next leaf t s (.others a) { s with future := f }

theorem next_of_step (h : s.step leaf t l = some s') : Next leaf t s l s' := by
  cases l with
  | base a =>
    simp only [step, Option.ite_none_left_eq_some, Option.map_eq_some_iff] at h
    obtain ⟨hends, rt, hrt, rfl⟩ := h
    exact .base hends hrt
  | poll e =>
    simp only [step, Option.ite_none_right_eq_some] at h
    obtain ⟨⟨hpc, hout, hready⟩, h⟩ := h
    split at h
    · rename_i f hpoll
      cases h
      exact .pending hpc hout hready hpoll
    · rename_i f hpoll
      cases h
      exact .ready hpc hout hready hpoll
    · rename_i hpoll
      cases h
      exact .panic hpc hout hready hpoll
  | leave e o =>
    simp only [step, Option.ite_none_right_eq_some, Option.map_eq_some_iff] at h
    obtain ⟨⟨hpc, hend⟩, rt, hrt, rfl⟩ := h
    exact .leave hpc hend hrt
  | others a =>
    simp only [step, Option.bind_eq_some_iff, Prod.exists] at h
    obtain ⟨f, o, hothers, h⟩ := h
    cases o with
    | none =>
      cases h
      exact .others hothers
    | some w =>
      rw [Option.map_eq_some_iff] at h
      obtain ⟨rt, hrt, rfl⟩ := h
      exact .event hothers hrt

/-! ### No wake-up is lost -/

/-- The invariant. After the event the task is notified, or a poll of it goes on that has not yet
looked at the future in vain. -/
structure Ok (I : F → List τ → Prop) (J : F → Bool → Bool → Prop) (ids : List ExecutorId) (t : τ)
    (s : Awaiting F τ) : Prop where
  hosted : s.rt.Hosted ids t
  kept : s.ready = false → I s.future (List.replicate s.polls t)
  prompt : s.ready = false → J s.future (decide (0 < s.polls)) s.processed
  polling : s.pc ≠ .outside → ∃ e, s.rt.x.pc e = .polling t
  pending : s.pc = .pending → s.InFlight
  unwinding : s.pc = .unwinding → ¬ s.InFlight
  live : s.InFlight → (s.rt.x.task t).finished = false ∧ (s.rt.x.task t).panicked = false
  woken : s.InFlight → s.processed = true →
    (s.rt.x.task t).notified = true ∨ (∃ e, s.rt.x.pc e = .polling t) ∧ s.pc ≠ .pending

theorem Ok.init (hI : I f []) (hJ : J f false false) (h : (awaiting leaf ids t f).init s) :
    Ok I J ids t s := by
  obtain ⟨hrt, hs⟩ := h
  rw [hs]
  exact ⟨.init hrt, fun _ => hI, fun _ => hJ, fun h => absurd rfl h, fun h => (by cases h),
    fun h => (by cases h), fun h => absurd h.1 (by simp), fun h => absurd h.1 (by simp)⟩

/-- The runtime moves, without an end of a poll of the task. -/
theorem Ok.runtime (h : Ok I J ids t s) {b : Runtime.Label τ} {rt : Runtime τ}
    (hwake : b = .register t → s.rt.Registers t) (habort : b ≠ .abort t)
    (hends : ¬ s.rt.EndsPoll t b) (hs : s.rt.step b = some rt) :
    Ok I J ids t { s with rt := rt } := by
  have hund := (Runtime.next_of_step hs).undisturbed hends
  refine ⟨h.hosted.step hs hwake habort, h.kept, h.prompt,
    fun hpc => (h.polling hpc).imp hund.polling, h.pending, h.unwinding, fun hin => ?_,
    fun hin hprocessed => ?_⟩
  · rw [hund.finished, hund.panicked]
    exact h.live hin
  · rcases h.woken hin hprocessed with hn | ⟨⟨e, he⟩, hpc⟩
    · rcases hund.notified hn with hn | ⟨e, hlocked, he⟩
      · exact .inl hn
      · -- The poll that begins is the only one.
        refine .inr ⟨⟨e, he⟩, fun hpc => ?_⟩
        obtain ⟨e', he'⟩ := h.polling (by rw [hpc]; simp)
        obtain rfl := h.hosted.ok.unique (t := t) (by rw [hlocked]; rfl) (by rw [he']; rfl)
        rw [hlocked] at he'
        cases he'
    · exact .inr ⟨⟨e, hund.polling e he⟩, hpc⟩

/-- The poll of the task ends. -/
theorem Ok.leave (h : Ok I J ids t s) {e : ExecutorId} {o : Outcome} {rt : Runtime τ}
    (hpc : s.rt.x.pc e = .polling t) (hend : s.MayEnd o)
    (hs : s.rt.step (.work (.polled e o)) = some rt) :
    Ok I J ids t { s with rt := rt, pc := .outside } := by
  have hpending : s.InFlight → s.pc = .pending ∧ o = .pending := by
    intro hin
    unfold MayEnd at hend
    split at hend
    · exact absurd hin hend
    · rename_i hp
      exact ⟨hp, hend⟩
    · rename_i hp
      exact absurd hin (h.unwinding hp)
  refine ⟨h.hosted.step hs (fun h => by cases h) (fun h => by cases h), h.kept, h.prompt,
    fun h => absurd rfl h, fun h => (by cases h), fun h => (by cases h), fun hin => ?_,
    fun hin hprocessed => ?_⟩
  all_goals
    obtain ⟨hp, rfl⟩ := hpending hin
    simp only [Runtime.step, Executors.step, hpc, Option.map_some, Option.some.injEq] at hs
    subst hs
  · exact h.live hin
  · rcases h.woken hin hprocessed with hn | ⟨-, hne⟩
    · exact .inl hn
    · exact absurd hp hne

section Task

omit [DecidableEq τ]

/-- A poll that is `Pending` comes before the event. -/
theorem Ok.pend (h : Ok I J ids t s) (hI : leaf.KeepsFirst I) (hJ : leaf.Prompt J) {f : F}
    {e : ExecutorId} (hpc : s.rt.x.pc e = .polling t) (hready : s.ready = false)
    (hpoll : leaf.poll s.future t = some (true, f)) :
    Ok I J ids t { s with future := f, polls := s.polls + 1, pc := .pending } := by
  have hprocessed : s.processed = false := by
    have hprompt := h.prompt hready
    by_contra hp
    rw [Bool.not_eq_false] at hp
    rw [hp] at hprompt
    cases hpolls : decide (0 < s.polls) with
    | false => exact hJ.unpolled _ (hpolls ▸ hprompt)
    | true => exact absurd (hJ.ready _ _ _ (hpolls ▸ hprompt) hpoll) (by simp)
  have hlive := h.hosted.ok.polling e t hpc
  refine ⟨h.hosted, fun _ => ?_, fun _ => ?_, fun _ => ⟨e, hpc⟩, fun _ => ⟨by simp, hready⟩,
    fun h => (by cases h), fun _ => ⟨hlive.2, ?_⟩, fun _ hp => ?_⟩
  · have hkept := hI.pending _ _ _ _ (h.kept hready) hpoll
    rwa [← List.replicate_succ'] at hkept
  · have hprompt := h.prompt hready
    rw [hprocessed] at hprompt ⊢
    simpa using hJ.pending _ _ _ _ hprompt hpoll
  · exact h.hosted.ok.not_panicked (e := e) (t := t) (by rw [hpc]; rfl) (by simp [hpc])
  · exact absurd (hprocessed.symm.trans hp) (by simp)

/-- The future is ready. -/
theorem Ok.finish (h : Ok I J ids t s) {f : F} (hout : s.pc = .outside) :
    Ok I J ids t { s with future := f, ready := true } :=
  ⟨h.hosted, fun h => (by cases h), fun h => (by cases h), h.polling,
    fun hpc => absurd (hout.symm.trans hpc) (by simp),
    fun hpc => absurd (hout.symm.trans hpc) (by simp), fun hin => absurd hin.2 (by simp),
    fun hin => absurd hin.2 (by simp)⟩

/-- The poll of the future panics, which is its first. -/
theorem Ok.unwind (h : Ok I J ids t s) (hJ : leaf.Prompt J) {e : ExecutorId}
    (hpc : s.rt.x.pc e = .polling t) (hpoll : leaf.poll s.future t = none) :
    Ok I J ids t { s with pc := .unwinding } := by
  have hnot : ¬ s.InFlight := by
    rintro ⟨hpolls, hready⟩
    have hprompt := h.prompt hready
    rw [decide_eq_true hpolls] at hprompt
    have hsome := hJ.panics _ _ t hprompt
    rw [hpoll] at hsome
    cases hsome
  exact ⟨h.hosted, h.kept, h.prompt, fun _ => ⟨e, hpc⟩, fun h => (by cases h), fun _ => hnot,
    fun hin => absurd hin hnot, fun hin => absurd hin hnot⟩

/-- The others move, and the future keeps what it has to keep. -/
theorem Ok.others (h : Ok I J ids t s) (hI : leaf.KeepsFirst I) (hJ : leaf.Prompt J) {a : α}
    {f : F} {o : Option (Option τ)} (hothers : leaf.others s.future a = some (f, o))
    (ho : s.InFlight → o.isSome → (s.rt.x.task t).notified = true) :
    Ok I J ids t { s with future := f, processed := s.processed || o.isSome } := by
  refine ⟨h.hosted, fun hready => (hI.others _ _ _ _ _ (h.kept hready) hothers).1,
    fun hready => hJ.others _ _ _ _ _ (h.prompt hready) hothers, h.polling, h.pending, h.unwinding,
    h.live, fun hin hprocessed => ?_⟩
  rcases Bool.or_eq_true_iff.1 hprocessed with hp | hp
  · exact h.woken hin hp
  · exact .inl (ho hin hp)

end Task

/-- The event wakes the task, which has polled the future. -/
theorem Ok.event (h : Ok I J ids t s) (hI : leaf.KeepsFirst I) (hJ : leaf.Prompt J) {a : α}
    {f : F} {w : Option τ} {rt : Runtime τ} (hwoken : Woken leaf t s (.others a))
    (hothers : leaf.others s.future a = some (f, some w)) (hs : wake s.rt w = some rt) :
    Ok I J ids t { s with future := f, rt := rt, processed := true } := by
  have hw : s.InFlight → w = some t := by
    rintro ⟨hpolls, hready⟩
    rw [hI.woken (h.kept hready) hothers (hwoken.1 (by rw [hothers]; rfl))]
    obtain ⟨n, hn⟩ := Nat.exists_eq_succ_of_ne_zero hpolls.ne'
    simp [hn, List.replicate_succ]
  have hrt : Ok I J ids t { s with rt := rt } := by
    cases w with
    | none =>
      cases hs
      exact h
    | some u =>
      have hreg : s.rt.step (.register u) = some rt := hs
      have hends : ¬ s.rt.EndsPoll t (.register u) := fun h => h
      refine h.runtime (fun hu => ?_) (by simp) hends hreg
      cases hu
      exact hwoken.2 (by rw [hothers]; rfl)
  have hok := hrt.others (o := some w) hI hJ hothers fun hin _ => by
    obtain rfl := hw hin
    simp only [wake, Runtime.step] at hs
    split at hs <;> cases hs <;> simp [Executors.notify]
  simpa using hok

theorem Ok.step (h : Ok I J ids t s) (hI : leaf.KeepsFirst I) (hJ : leaf.Prompt J)
    (hc : Woken leaf t s l) (hs : s.step leaf t l = some s') : Ok I J ids t s' := by
  cases next_of_step hs with
  | base hends hrt =>
    refine h.runtime (fun hb => ?_) (fun hb => ?_) hends hrt
    · subst hb
      exact hc rfl
    · subst hb
      exact hc rfl
  | pending hpc hout hready hpoll => exact h.pend hI hJ hpc hready hpoll
  | ready hpc hout hready hpoll => exact h.finish hout
  | panic hpc hout hready hpoll => exact h.unwind hJ hpc hpoll
  | leave hpc hend hrt => exact h.leave hpc hend hrt
  | event hothers hrt => exact h.event hI hJ hc hothers hrt
  | others hothers =>
    have hok := h.others hI hJ hothers (fun _ ho => by cases ho)
    simpa using hok

theorem ok (hI : leaf.KeepsFirst I) (hJ : leaf.Prompt J) (hf : I f []) (hnew : J f false false)
    (h : (awaiting leaf ids t f).ReachableUnder (Woken leaf t) s) : Ok I J ids t s :=
  h.invariant (fun _ => .init hf hnew) fun _ _ _ hok hc hs => hok.step hI hJ hc hs

omit [DecidableEq τ] in
/-- A parked task that nothing is to deliver waits for the event. -/
theorem Ok.waits (h : Ok I J ids t s) (hparked : Parked t s) (hpending : ¬ s.rt.Pending t) :
    s.processed = false := by
  obtain ⟨hin, hidle⟩ := hparked
  by_contra hprocessed
  rw [Bool.not_eq_false] at hprocessed
  rcases h.woken hin hprocessed with hn | ⟨⟨e, he⟩, -⟩
  · obtain ⟨hfinished, hpanicked⟩ := h.live hin
    exact hpending (h.hosted.pending ⟨hn, hfinished, hpanicked, h.hosted.abort⟩)
  · exact hidle e he

/-! ### In the long run -/

/-- What a step is for the runtime. -/
def runtimeLabel (leaf : Leaf F τ α) (s : Awaiting F τ) : Label τ α → Option (Runtime.Label τ)
  | .base a => some a
  | .poll _ => none
  | .leave e o => some (.work (.polled e o))
  | .others a => ((leaf.others s.future a).bind Prod.snd).join.map .register

/-- The event comes to the waker, every registration goes through, no poll of a task panics, and
nobody aborts the task. -/
def Calm (leaf : Leaf F τ α) (t : τ) (s : Awaiting F τ) : Label τ α → Prop
  | .base a => s.rt.Smooth a ∧ a ≠ .abort t
  | .poll _ => True
  | .leave _ o => o ≠ .panic
  | .others a =>
      (((leaf.others s.future a).bind Prod.snd).isSome → leaf.heard s.future = true) ∧
        ∀ u, (leaf.others s.future a).bind Prod.snd = some (some u) → s.rt.Registers u

instance (s : Awaiting F τ) : (l : Label τ α) → Decidable (Calm leaf t s l)
  | .base a => inferInstanceAs (Decidable (s.rt.Smooth a ∧ a ≠ .abort t))
  | .poll _ => .isTrue trivial
  | .leave _ o => inferInstanceAs (Decidable (o ≠ .panic))
  | .others a =>
      match h : (leaf.others s.future a).bind Prod.snd with
      | some (some u) =>
          decidable_of_iff (leaf.heard s.future = true ∧ s.rt.Registers u) (by simp [Calm, h])
      | some none => decidable_of_iff (leaf.heard s.future = true) (by simp [Calm, h])
      | none => .isTrue (by simp [Calm, h])

/-- A step of the executor. -/
def Moves (e : ExecutorId) : Label τ α → Prop
  | .base a => Runtime.Moves e a
  | .poll e' | .leave e' _ => e' = e
  | .others _ => False

omit [DecidableEq τ] in
theorem Calm.woken (h : Calm leaf t s l) : Woken leaf t s l := by
  cases l with
  | base a =>
    cases a with
    | register u =>
      rintro rfl
      exact h.1
    | abort u =>
      rintro rfl
      exact h.2 rfl
    | _ => trivial
  | others a => exact ⟨h.1, h.2 t⟩
  | _ => trivial

theorem runsOn : RunsOn (awaiting leaf ids t f) (runtime ids) Awaiting.rt (runtimeLabel leaf) where
  init _ h := h.1
  rests s l s' hs hl := by
    cases next_of_step hs with
    | base | leave => cases hl
    | @event a f w rt hothers hrt =>
      cases w with
      | none =>
        cases hrt
        rfl
      | some u => simp [runtimeLabel, hothers] at hl
    | _ => rfl
  steps s l s' b hs hl := by
    cases next_of_step hs with
    | base _ hrt | leave _ _ hrt =>
      cases hl
      exact hrt
    | @event a f w rt hothers hrt =>
      cases w with
      | none => simp [runtimeLabel, hothers] at hl
      | some u =>
        simp only [runtimeLabel, hothers, Option.bind_some, Option.join_some, Option.map_some,
          Option.some.injEq] at hl
        subst hl
        exact hrt
    | others hothers => simp [runtimeLabel, hothers] at hl
    | _ => cases hl

omit [DecidableEq τ] in
theorem smooth_of_calm {b : Runtime.Label τ} (h : Calm leaf t s l)
    (hb : runtimeLabel leaf s l = some b) : s.rt.Smooth b := by
  cases l with
  | base a =>
    cases hb
    exact h.1
  | poll e => cases hb
  | leave e o =>
    cases hb
    cases o with
    | panic => exact absurd rfl h
    | _ => rfl
  | others a =>
    simp only [runtimeLabel, Option.map_eq_some_iff, Option.join_eq_some_iff] at hb
    obtain ⟨u, hu, rfl⟩ := hb
    exact h.2 u hu

theorem isSome_step_polled {rt : Runtime τ} {e : ExecutorId} (hpc : rt.x.pc e = .polling t)
    (o : Outcome) : (rt.step (.work (.polled e o))).isSome := by
  cases o <;> simp [Runtime.step, Executors.step, hpc]

theorem isSome_poll {e : ExecutorId} (hpc : s.rt.x.pc e = .polling t)
    (hout : s.pc = .outside) (hready : s.ready = false) : (s.step leaf t (.poll e)).isSome := by
  simp only [Awaiting.step, hpc, hout, hready, and_self, if_true]
  split <;> rfl

/-- A step of the others is held up by nobody. -/
theorem isSome_others {a : α} (h : (leaf.others s.future a).isSome) :
    (s.step leaf t (.others a)).isSome := by
  obtain ⟨⟨f, o⟩, hothers⟩ := Option.isSome_iff_exists.1 h
  simp only [Awaiting.step, hothers, Option.bind_some]
  cases o with
  | none => rfl
  | some w =>
    cases w with
    | none => rfl
    | some u =>
      simp only [wake, Runtime.step]
      split <;> rfl

/-- An executor that can move in the runtime can move. -/
theorem enabled_of_enabled {e : ExecutorId} (h : (runtime ids).Enabled (Runtime.Moves e) s.rt) :
    (awaiting leaf ids t f).Enabled (Moves e) s := by
  obtain ⟨b, hb, hsome⟩ := h
  by_cases hends : s.rt.EndsPoll t b
  · cases b with
    | work c =>
      cases c with
      | polled e' o =>
        obtain rfl : e' = e := Option.some.inj hb
        have hpc : s.rt.x.pc e' = .polling t := hends
        have hleave : ∀ o, s.MayEnd o → (s.step leaf t (.leave e' o)).isSome := by
          intro o hend
          simpa [Awaiting.step, hpc, hend] using isSome_step_polled hpc o
        cases hp : s.pc with
        | outside =>
          by_cases hin : s.InFlight
          · exact ⟨.poll e', rfl, isSome_poll hpc hp hin.2⟩
          · exact ⟨.leave e' o, rfl, hleave o (by simpa [MayEnd, hp] using hin)⟩
        | pending => exact ⟨.leave e' .pending, rfl, hleave _ (by simp [MayEnd, hp])⟩
        | unwinding => exact ⟨.leave e' .panic, rfl, hleave _ (by simp [MayEnd, hp])⟩
      | _ => cases hends
    | _ => cases hends
  · exact ⟨.base b, hb, by simpa [awaiting, runtime, Awaiting.step, hends] using hsome⟩

/-- An executor that waits for a task has no step to make. -/
theorem not_enabled_of_idle {e : ExecutorId} (hpc : s.rt.x.pc e = .recv)
    (hinbox : s.rt.tm.inbox e = []) : ¬ (awaiting leaf ids t f).Enabled (Moves e) s := by
  rintro ⟨l, hl, hs⟩
  obtain ⟨s', hs⟩ := Option.isSome_iff_exists.1 hs
  cases next_of_step hs with
  | base _ hrt =>
    have hidle : ¬ (runtime ids).Enabled (Runtime.Moves e) s.rt :=
      Runtime.not_enabled_of_idle hpc hinbox
    exact hidle ⟨_, hl, Option.isSome_of_eq_some hrt⟩
  | pending he | ready he | panic he | leave he =>
    cases hl
    rw [hpc] at he
    cases he
  | event | others => exact hl

/-- The future is still to be polled in the poll that goes on. -/
def pollsLeft (t : τ) (e : ExecutorId) (s : Awaiting F τ) : ℕ :=
  if s.rt.x.pc e = .polling t ∧ s.pc = .outside ∧ s.ready = false then 1 else 0

/-- A step that is none of the executor in the runtime does not give it a poll to do. -/
theorem pollsLeft_le (h : Ok I J ids t s) (e : ExecutorId) (hs : s.step leaf t l = some s') :
    (∃ b, runtimeLabel leaf s l = some b ∧ Runtime.Moves e b) ∨
      pollsLeft t e s' ≤ pollsLeft t e s ∧ (Moves e l → pollsLeft t e s' < pollsLeft t e s) := by
  have hother : ∀ {e'}, e' ≠ e → s.rt.x.pc e' = .polling t → s.rt.x.pc e ≠ .polling t := by
    intro e' hne he' he
    exact hne (h.hosted.ok.unique (t := t) (by rw [he']; rfl) (by rw [he]; rfl))
  have hstays : ∀ {b rt}, s.rt.step b = some rt → ¬ Runtime.Moves e b →
      rt.x.pc e = s.rt.x.pc e :=
    fun hrt hb => Runtime.pc_of_not_moves (Runtime.next_of_step hrt) hb
  cases next_of_step hs with
  | @base b rt hends hrt =>
    by_cases hb : Runtime.Moves e b
    · exact .inl ⟨b, rfl, hb⟩
    · refine .inr ⟨?_, fun hm => absurd hm hb⟩
      simp [pollsLeft, hstays hrt hb]
  | @leave e' o rt hpc hend hrt =>
    by_cases he : e' = e
    · exact .inl ⟨_, rfl, by rw [he]; rfl⟩
    · have hb : ¬ Runtime.Moves e (.work (.polled e' o) : Runtime.Label τ) :=
        fun hm => he (Option.some.inj hm)
      refine .inr ⟨?_, fun hm => absurd hm he⟩
      simp [pollsLeft, hstays hrt hb, hother he hpc]
  | @pending e' f hpc hout hready | @panic e' hpc hout hready | @ready e' f hpc hout hready =>
    refine .inr ?_
    by_cases he : e' = e
    · subst he
      simp [pollsLeft, hpc, hout, hready]
    · exact ⟨by simp [pollsLeft, hother he hpc], fun hm => absurd hm he⟩
  | @event a f w rt hothers hrt =>
    refine .inr ⟨?_, False.elim⟩
    cases w with
    | none =>
      cases hrt
      exact le_rfl
    | some u =>
      have hreg : s.rt.step (.register u) = some rt := hrt
      have hb : ¬ Runtime.Moves e (.register u : Runtime.Label τ) := fun hm => by cases hm
      simp [pollsLeft, hstays hreg hb]
  | others => exact .inr ⟨le_rfl, False.elim⟩

section Runs

variable {x : (awaiting leaf ids t f).Execution}

theorem ok_of_calm (hI : leaf.KeepsFirst I) (hJ : leaf.Prompt J) (hf : I f [])
    (hnew : J f false false) (hcalm : x.Under (Calm leaf t)) (n : ℕ) : Ok I J ids t (x.state n) :=
  ok hI hJ hf hnew (x.reachable (fun n a hact => (hcalm n a hact).woken) n)

/-- What is fair to the executors here is fair to them in the runtime. -/
theorem weaklyFair_runtime (hok : ∀ n, Ok I J ids t (x.state n)) {e : ExecutorId}
    (hfair : x.WeaklyFair (Moves e)) : (runsOn.execution x).WeaklyFair (Runtime.Moves e) := by
  have hsteps : ∀ s l s', Ok I J ids t s → (awaiting leaf ids t f).step s l = some s' →
      (∃ b, runtimeLabel leaf s l = some b ∧ Runtime.Moves e b) ∨
        pollsLeft t e s' ≤ pollsLeft t e s ∧ (Moves e l → pollsLeft t e s' < pollsLeft t e s) :=
    fun _ _ _ h hs => pollsLeft_le h e hs
  exact runsOn.weaklyFair hok (fun _ _ henabled => enabled_of_enabled henabled) hsteps hfair

/-- A run that rests in the end is fair to an executor that waits for a task there. -/
theorem weaklyFair_of_idle {n : ℕ} (hrests : ∀ m, n ≤ m → x.state m = x.state n) {e : ExecutorId}
    (hpc : (x.state n).rt.x.pc e = .recv) (hinbox : (x.state n).rt.tm.inbox e = []) :
    x.WeaklyFair (Moves e) := by
  refine Execution.weaklyFair_of_not_enabled (n := n) fun m hm => ?_
  rw [hrests m hm]
  exact not_enabled_of_idle hpc hinbox

/-- The event was processed, and the future is not ready yet. -/
def Due (s : Awaiting F τ) : Prop := s.InFlight ∧ s.processed = true

/-- A future that is ready stays so. -/
theorem Next.ready_of_ready (hn : Next leaf t s l s') (h : s.ready = true) : s'.ready = true := by
  cases hn with
  | ready => rfl
  | _ => exact h

/-- A poll of the future makes it ready. -/
theorem Next.ready_poll (hn : Next leaf t s l s') (h : s.ready = false) (h' : s'.ready = true) :
    ∃ f, leaf.poll s.future t = some (false, f) ∧ s' = { s with future := f, ready := true } := by
  cases hn with
  | ready _ _ _ hpoll => exact ⟨_, hpoll, rfl⟩
  | _ => exact absurd (h.symm.trans h') (by simp)

/-- The first poll that is `Pending` brings the future in flight. -/
theorem Next.first_pending (hn : Next leaf t s l s') (h : ¬ s.InFlight) (h' : s'.InFlight) :
    s.ready = false ∧ s.polls = 0 ∧ ∃ e f, l = .poll e ∧ leaf.poll s.future t = some (true, f) ∧
      s' = { s with future := f, polls := 1, pc := .pending } := by
  cases hn with
  | @pending e f _ _ hready hpoll =>
    have hpolls : s.polls = 0 := by
      by_contra hne
      exact h ⟨Nat.pos_of_ne_zero hne, hready⟩
    exact ⟨hready, hpolls, e, f, rfl, hpoll, by rw [hpolls]⟩
  | ready => exact absurd h'.2 (by simp)
  | _ => exact absurd h' h

/-- A poll of the task goes on that is still to poll the future. -/
def Looks (t : τ) (e : ExecutorId) (s : Awaiting F τ) : Prop :=
  s.Due ∧ s.pc = .outside ∧ s.rt.x.pc e = .polling t

theorem Due.next (h : s.Due) (hn : Next leaf t s l s') : s'.ready = true ∨ s'.Due := by
  obtain ⟨⟨hpolls, hready⟩, hprocessed⟩ := h
  cases hn with
  | ready => exact .inl rfl
  | pending => exact .inr ⟨⟨by simp, hready⟩, hprocessed⟩
  | event => exact .inr ⟨⟨hpolls, hready⟩, rfl⟩
  | _ => exact .inr ⟨⟨hpolls, hready⟩, hprocessed⟩

/-- After the event, who polls the task and has not polled the future finds it ready. -/
theorem ranking_looks (hJ : leaf.Prompt J) (e : ExecutorId) :
    (awaiting leaf ids t f).Ranking (Calm leaf t) (Ok I J ids t) (Looks t e)
      (fun s => s.ready = true) {e} Moves (fun k _ => k = e) (fun _ => 0) where
  party _ _ _ _ := ⟨e, rfl, rfl⟩
  enabled := by
    rintro s k - ⟨⟨hin, -⟩, hout, hpc⟩ - rfl
    exact ⟨.poll k, rfl, isSome_poll hpc hout hin.2⟩
  step := by
    rintro s l s' k h ⟨hdue, hout, hpc⟩ - rfl - hs
    have hprompt := h.prompt hdue.1.2
    rw [decide_eq_true hdue.1.1, hdue.2] at hprompt
    have hn := next_of_step hs
    have hdue' := hdue.next hn
    refine hdue'.imp_right fun hdue' => ?_
    cases hn with
    | @base b rt hends hrt =>
      have hnext := Runtime.next_of_step hrt
      refine ⟨⟨hdue', hout, (hnext.undisturbed hends).polling k hpc⟩, .inr ⟨rfl, fun hm => ?_, rfl⟩⟩
      have hturn := Runtime.isTurn_of_moves hnext hm
      rw [hpc] at hturn
      obtain ⟨o, rfl⟩ := hturn
      exact hends hpc
    | pending _ _ _ hpoll => exact absurd (hJ.ready _ _ _ hprompt hpoll) (by simp)
    | ready => exact absurd hdue'.1.2 (by simp)
    | panic _ _ _ hpoll =>
      have hsome := hJ.panics _ _ t hprompt
      rw [hpoll] at hsome
      cases hsome
    | leave _ hend => exact absurd hdue.1 (by simpa [MayEnd, hout] using hend)
    | @event a f w rt _ hrt =>
      refine ⟨⟨hdue', hout, ?_⟩, .inr ⟨rfl, id, rfl⟩⟩
      cases w with
      | none =>
        cases hrt
        exact hpc
      | some u =>
        have hreg : s.rt.step (.register u) = some rt := hrt
        exact ((Runtime.next_of_step hreg).undisturbed fun h => h).polling k hpc
    | others => exact ⟨⟨hdue', hout, hpc⟩, .inr ⟨rfl, id, rfl⟩⟩

/-- Until the future is ready it is a poll of the task that ends that the task is due. -/
theorem Ok.poll_begins (h : Ok I J ids t s) (hdue : s.Due) (hc : Calm leaf t s l)
    (hn : Next leaf t s l s') {b : Runtime.Label τ} (hb : runtimeLabel leaf s l = some b)
    (hends : (∃ e, b = .work (.look e) ∧ s.rt.x.pc e = .locked t ∧ s'.rt.x.pc e = .polling t) ∨
      (∃ e, b = .work (.polled e .ready) ∧ s.rt.x.pc e = .polling t) ∨ b = .abort t) :
    ∃ e, s'.pc ≠ .pending ∧ s'.rt.x.pc e = .polling t := by
  cases hn with
  | base hnot =>
    cases hb
    rcases hends with ⟨e, -, hlocked, hpolling⟩ | ⟨e, rfl, hpolling⟩ | rfl
    · refine ⟨e, fun hp => ?_, hpolling⟩
      obtain ⟨e', he'⟩ := h.polling (by simp [show s.pc = .pending from hp])
      obtain rfl := h.hosted.ok.unique (t := t) (by rw [hlocked]; rfl) (by rw [he']; rfl)
      rw [hlocked] at he'
      cases he'
    · exact absurd hpolling hnot
    · exact absurd rfl hc.2
  | leave hpc hend =>
    cases hb
    rcases hends with ⟨e, he, -⟩ | ⟨e, he, -⟩ | he <;> cases he
    cases hp : s.pc with
    | outside => exact absurd hdue.1 (by simpa [MayEnd, hp] using hend)
    | pending => simp [MayEnd, hp] at hend
    | unwinding => simp [MayEnd, hp] at hend
  | event | others =>
    simp only [runtimeLabel, Option.map_eq_some_iff] at hb
    obtain ⟨u, -, rfl⟩ := hb
    rcases hends with ⟨e, he, -⟩ | ⟨e, he, -⟩ | he <;> cases he
  | _ => cases hb

/-- After the event a poll of the task begins, or the poll that goes on still looks. -/
theorem due_leadsTo_looks (hids : ids ≠ []) (hok : ∀ n, Ok I J ids t (x.state n))
    (hcalm : x.Under (Calm leaf t)) (hfair : ∀ e ∈ ids, x.WeaklyFair (Moves e)) :
    x.LeadsTo Due fun s => s.ready = true ∨ ∃ e, Looks t e s := by
  intro n hdue
  by_contra hnever
  push Not at hnever
  have hstays : ∀ m, n ≤ m → (x.state m).Due := fun m hnm =>
    Execution.stable (fun k l hnk hact hk =>
      (hk.next (next_of_step (x.steps k l hact))).resolve_left (hnever (k + 1) (by omega)).1)
      hnm hdue
  -- So whoever polls the task has not looked yet, or has looked in vain.
  have hlooks : ∀ m e, n ≤ m → (x.state m).pc ≠ .pending →
      (x.state m).rt.x.pc e ≠ .polling t := by
    intro m e hnm hpc he
    refine (hnever m hnm).2 e ⟨hstays m hnm, ?_, he⟩
    cases hp : (x.state m).pc with
    | outside => rfl
    | pending => exact absurd hp hpc
    | unwinding => exact absurd (hstays m hnm).1 ((hok m).unwinding hp)
  rcases (hok n).woken hdue.1 hdue.2 with hn | ⟨⟨e, he⟩, hpc⟩
  · obtain ⟨hfinished, hpanicked⟩ := (hok n).live hdue.1
    obtain ⟨m, b, hnm, hact, hb⟩ := Runtime.woken_is_polled hids (runsOn.execution x)
      (runsOn.under hcalm fun _ _ _ hc hb => smooth_of_calm hc hb)
      (fun e he => weaklyFair_runtime hok (hfair e he)) (n := n) (t := t)
      ⟨hn, hfinished, hpanicked, (hok n).hosted.abort⟩
    obtain ⟨l, hl, hlb⟩ := Option.bind_eq_some_iff.1 hact
    obtain ⟨e, hpc, he⟩ := (hok m).poll_begins (hstays m hnm) (hcalm m l hl)
      (next_of_step (x.steps m l hl)) hlb hb
    exact hlooks (m + 1) e (by omega) hpc he
  · exact hlooks n e le_rfl hpc he

/-- In a run in which every registration goes through, no poll panics and no executor that can move
is left aside for ever, the future is ready some time after its event. -/
theorem processed_leadsTo (hids : ids ≠ []) (hI : leaf.KeepsFirst I) (hJ : leaf.Prompt J)
    (hf : I f []) (hnew : J f false false) (hcalm : x.Under (Calm leaf t))
    (hfair : ∀ e ∈ ids, x.WeaklyFair (Moves e)) : x.LeadsTo Due fun s => s.ready = true := by
  have hok := ok_of_calm hI hJ hf hnew hcalm
  refine (due_leadsTo_looks hids hok hcalm hfair).trans (.or (.of_imp fun _ h => h) ?_)
  rintro n ⟨e, hlooks⟩
  have he : e ∈ ids := by
    have hserving := Runtime.serving ((runsOn.execution x).reachable
      (runsOn.under hcalm fun _ _ _ hc hb => smooth_of_calm hc hb) n)
    refine hserving.mem_ids ?_
    show (x.state n).rt.x.pc e ≠ .recv
    simp [hlooks.2.2]
  exact (ranking_looks hJ e).leadsTo hcalm hok (by rintro k rfl; exact hfair k he) n hlooks

end Runs

end Awaiting

end Hooch
