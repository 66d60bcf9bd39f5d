import Hooch.Task.Interleaving

/-!
# Stranded tasks

A registration that found no executor waiting pushes its task, and an `executor_ready` that found
no task waiting pushes its executor; neither looks again. When the two overlap, a task and an
executor wait for each other (`stranded`).

`Apart` is the condition that excludes the overlap: a call finds its queue empty only while no
call of the other kind stands between its own empty pop and its push. Under it no task is
stranded (`no_stranding`), and a run that breaches it is two steps away from stranding one
(`not_apart_strands`).
-/

namespace Hooch

namespace Interleaving

variable {κ τ : Type*} [DecidableEq κ] [DecidableEq τ] {ids : List ExecutorId}
  {s s' : Interleaving κ τ}

/-- No call is in progress. -/
def Quiescent (s : Interleaving κ τ) : Prop :=
  (∀ k, s.caller k = none) ∧ ∀ e, s.readying e = none

/-- A task that was not aborted waits, and an executor waits as well. -/
def Stranded (s : Interleaving κ τ) : Prop :=
  (∃ t ∈ s.tm.waitingTasks.items, (s.x.task t).abort = false) ∧ s.tm.waitingExecutors.items ≠ []

/-- The registration is about to push a task that was not aborted. -/
def pushesLive (x : Executors τ) : Option (RegisterPc τ) → Bool
  | some (.push t) => !(x.task t).abort
  | _ => false

/-- The registration is about to look for an executor for a task that was not aborted. -/
def popsLive (x : Executors τ) : Option (RegisterPc τ) → Bool
  | some (.pop t) => !(x.task t).abort
  | _ => false

/-- A call does not find its queue empty while a call of the other kind stands between its own
empty pop and its push. -/
def Apart (s : Interleaving κ τ) : Label κ τ → Prop
  | .register k => popsLive s.x (s.caller k) = true →
      s.tm.waitingExecutors.items = [] → ∀ e, s.readying e ≠ some .push
  | .ready e => s.readying e = some .pop → s.tm.waitingTasks.items = [] →
      ∀ k, pushesLive s.x (s.caller k) = false
  | _ => True

/-! ### The invariant -/

/-- While a registration is about to push, no executor waits or is about to; while an executor is
about to, or does, only aborted tasks wait. -/
structure Unstranded (s : Interleaving κ τ) : Prop where
  waiting : s.tm.waitingExecutors.items ≠ [] →
    ∀ t ∈ s.tm.waitingTasks.items, (s.x.task t).abort = true
  pushing : ∀ k, pushesLive s.x (s.caller k) = true →
    s.tm.waitingExecutors.items = [] ∧ ∀ e, s.readying e ≠ some .push
  parking : ∀ e, s.readying e = some .push →
    ∀ t ∈ s.tm.waitingTasks.items, (s.x.task t).abort = true

omit [DecidableEq κ] [DecidableEq τ] in
theorem Unstranded.not_stranded (h : Unstranded s) : ¬ Stranded s := by
  rintro ⟨⟨t, ht, ha⟩, hne⟩
  rw [h.waiting hne t ht] at ha
  cases ha

omit [DecidableEq κ] [DecidableEq τ] in
/-- A step that adds no waiting task and no waiting executor, starts no push and sets abort flags
at most. -/
theorem Unstranded.mono (h : Unstranded s)
    (htasks : s'.tm.waitingTasks.items ⊆ s.tm.waitingTasks.items)
    (hexecs : s'.tm.waitingExecutors.items = s.tm.waitingExecutors.items)
    (hcaller : ∀ k, s'.caller k = s.caller k ∨ ∀ t, s'.caller k ≠ some (.push t))
    (hready : ∀ e, s'.readying e = some .push → s.readying e = some .push)
    (habort : ∀ t, (s.x.task t).abort = true → (s'.x.task t).abort = true) : Unstranded s' := by
  refine ⟨fun hne t ht => ?_, fun k hk => ?_, fun e he t ht => ?_⟩
  · rw [hexecs] at hne
    exact habort t (h.waiting hne t (htasks ht))
  · unfold pushesLive at hk
    split at hk
    · rename_i t hpush
      have hold : s.caller k = some (.push t) := by
        rcases hcaller k with hsame | hnot
        · rw [← hsame, hpush]
        · exact absurd hpush (hnot t)
      obtain ⟨hnil, hnone⟩ := h.pushing k (by
        rw [hold]
        simp only [pushesLive, Bool.not_eq_true', ← Bool.not_eq_true] at hk ⊢
        exact fun ha => hk (habort t ha))
      exact ⟨by rw [hexecs, hnil], fun e he => hnone e (hready e he)⟩
    · cases hk
  · exact habort t (h.parking e (hready e he) t (htasks ht))

omit [DecidableEq τ] in
theorem caller_update {k : κ} {p : Option (RegisterPc τ)} (hp : ∀ t, p ≠ some (.push t)) (k' : κ) :
    Function.update s.caller k p k' = s.caller k' ∨
      ∀ t, Function.update s.caller k p k' ≠ some (.push t) := by
  by_cases hk : k' = k
  · subst hk
    exact .inr (by simpa using hp)
  · exact .inl (Function.update_of_ne hk ..)

omit [DecidableEq κ] [DecidableEq τ] in
theorem readying_update {e : ExecutorId} {p : Option (ReadyPc τ)} (hp : p ≠ some .push)
    (e' : ExecutorId) (he : Function.update s.readying e p e' = some .push) :
    s.readying e' = some .push := by
  by_cases hee : e' = e
  · subst hee
    exact absurd (by simpa using he) hp
  · simpa [hee] using he

omit [DecidableEq τ] in
/-- A step of a registration that meets `Apart`. -/
theorem Unstranded.register {k : κ} {p : RegisterPc τ} {tm : TaskManager τ}
    {a : After (RegisterPc τ)} (h : Unstranded s) (hapart : Apart s (.register k))
    (hk : s.caller k = some p) (hp : p.Next s.hasAborted s.tm tm a) :
    Unstranded { s with tm := tm, caller := Function.update s.caller k a.pc } := by
  -- A registration that moves elsewhere is about to push afterwards only if it is another one.
  have hother : ∀ {p' : Option (RegisterPc τ)} {k' : κ}, pushesLive s.x p' = false →
      pushesLive s.x (Function.update s.caller k p' k') = true →
      pushesLive s.x (s.caller k') = true := by
    intro p' k' hp' hk'
    have hkk : k' ≠ k := by
      rintro rfl
      rw [Function.update_self, hp'] at hk'
      cases hk'
    rwa [Function.update_of_ne hkk] at hk'
  cases hp with
  | skip | live | pushPanic | sendPanic | sent =>
    exact h.mono (List.Subset.refl _) rfl (caller_update (by simp [After.pc])) (fun _ => id)
      fun _ => id
  | found hpop =>
    have hne : s.tm.waitingExecutors.items ≠ [] := by simp [hpop]
    have hold := h.waiting hne
    exact ⟨fun _ => hold, fun k' hk' => absurd (h.pushing k' (hother rfl hk')).1 hne,
      fun _ _ => hold⟩
  | @none t hnone =>
    refine ⟨h.waiting, fun k' hk' => ⟨hnone, ?_⟩, h.parking⟩
    by_cases hkk : k' = k
    · subst hkk
      refine hapart ?_ hnone
      rw [hk]
      simpa [pushesLive, popsLive, After.pc] using hk'
    · exact (h.pushing k' (by simpa [hkk] using hk')).2
  | @pushed t q hpush =>
    by_cases hlive : (s.x.task t).abort = true
    · -- An aborted task may join those that wait.
      have hadd : (∀ u ∈ s.tm.waitingTasks.items, (s.x.task u).abort = true) →
          ∀ u ∈ q.items, (s.x.task u).abort = true := by
        intro hold u hu
        rw [hpush] at hu
        rcases List.mem_append.1 hu with hu | hu
        · exact hold u hu
        · rw [List.mem_singleton.1 hu]
          exact hlive
      exact ⟨fun hne => hadd (h.waiting hne), fun k' hk' => h.pushing k' (hother rfl hk'),
        fun e he => hadd (h.parking e he)⟩
    · obtain ⟨hnil, hnone⟩ := h.pushing k (by simp [hk, pushesLive, hlive])
      exact ⟨fun hne => absurd hnil hne, fun k' _ => ⟨hnil, hnone⟩,
        fun e he => absurd he (hnone e)⟩

omit [DecidableEq κ] [DecidableEq τ] in
/-- A step of `executor_ready` that meets `Apart`. -/
theorem Unstranded.ready {e : ExecutorId} {p : ReadyPc τ} {tm : TaskManager τ}
    {a : After (ReadyPc τ)} {x : Executors τ} (h : Unstranded s) (hapart : Apart s (.ready e))
    (he : s.readying e = some p) (hp : p.Next s.hasAborted s.tm e tm a)
    (htask : x.task = s.x.task) :
    Unstranded { s with tm := tm, x := x, readying := Function.update s.readying e a.pc } := by
  have habort : ∀ t, (s.x.task t).abort = true → (x.task t).abort = true := by
    rw [htask]
    exact fun _ => id
  cases hp with
  | found hpop =>
    exact h.mono (by rw [hpop]; exact List.subset_cons_self _ _) rfl (fun _ => .inl rfl)
      (readying_update (by simp [After.pc])) habort
  | none hnone =>
    have hnil : ∀ t ∈ s.tm.waitingTasks.items, (x.task t).abort = true := by simp [hnone]
    refine ⟨fun _ => hnil, fun k hk => ?_, fun _ _ => hnil⟩
    rw [show pushesLive x (s.caller k) = pushesLive s.x (s.caller k) by
      unfold pushesLive; rw [htask], hapart he hnone k] at hk
    cases hk
  | skip | live | pushPanic | sendPanic | sent =>
    exact h.mono (List.Subset.refl _) rfl (fun _ => .inl rfl)
      (readying_update (by simp [After.pc])) habort
  | pushed =>
    have hold := fun t ht => habort t (h.parking e he t ht)
    refine ⟨fun _ => hold, fun k hk => ?_, fun _ _ => hold⟩
    rw [show pushesLive x (s.caller k) = pushesLive s.x (s.caller k) by
      unfold pushesLive; rw [htask]] at hk
    exact absurd he ((h.pushing k hk).2 e)

/-- One step that meets `Apart` strands nothing. -/
theorem Unstranded.next {a : Label κ τ} (h : Unstranded s) (hapart : Apart s a)
    (hs : Next s a s') : Unstranded s' := by
  cases hs with
  | @call k t hk =>
    refine h.mono (List.Subset.refl _) rfl (caller_update (by simp)) (fun _ => id) fun u hu => ?_
    by_cases hut : u = t
    · subst hut
      simpa [Executors.notify] using hu
    · simpa [Executors.notify, hut] using hu
  | register hk hp => exact h.register hapart hk hp
  | registered hk hp ha =>
    have hnext := h.register hapart hk hp
    rwa [After.pc_eq_none ha] at hnext
  | @abort t =>
    refine h.mono (List.Subset.refl _) rfl (fun _ => .inl rfl) (fun _ => id) fun u hu => ?_
    by_cases hut : u = t
    · subst hut
      simp
    · simpa [hut] using hu
  | @recv e t tm hpc hrecv =>
    obtain ⟨ch, ch', -, -, rfl⟩ := TaskManager.recvTask_eq_some hrecv
    exact h.mono (List.Subset.refl _) rfl (fun _ => .inl rfl) (fun _ => id) fun _ => id
  | @finish e tm hpc hrecv =>
    obtain ⟨ch, ch', -, -, rfl⟩ := TaskManager.recvTask_eq_some hrecv
    exact h.mono (List.Subset.refl _) rfl (fun _ => .inl rfl) (fun _ => id) fun _ => id
  | @work a x hx =>
    exact h.mono (List.Subset.refl _) rfl (fun _ => .inl rfl) (fun _ => id)
      fun t ht => by rwa [Executors.abort_next hx t]
  | @enter e hpc he =>
    exact h.mono (List.Subset.refl _) rfl (fun _ => .inl rfl) (readying_update (by simp))
      fun _ => id
  | ready he hp => exact h.ready hapart he hp rfl
  | readied he hp ha =>
    rcases ha with ⟨rfl, -⟩ | ⟨rfl, -⟩ <;> exact h.ready hapart he hp rfl
  | @close e hpc =>
    exact h.mono (List.Subset.refl _) rfl (fun _ => .inl rfl) (fun _ => id) fun _ => id

theorem unstranded (h : (interleaving ids).ReachableUnder Apart s) : Unstranded s := by
  refine h.invariant ?_ fun s a s' hI hc hs => hI.next hc (next_of_step hs)
  rintro s ⟨tm, htm, -, rfl⟩
  obtain ⟨htasks, -⟩ := TaskManager.registerExecutors_eq_ok htm
  have hnil : tm.waitingTasks.items = [] := by rw [htasks]; rfl
  exact ⟨by simp [hnil], by simp [pushesLive], by simp⟩

/-! ### The results -/

/-- Any number of callers, any interleaving: as long as no call finds its queue empty between the
empty pop and the push of a call of the other kind, no task waits together with an executor. -/
theorem no_stranding (h : (interleaving ids).ReachableUnder Apart s) : ¬ Stranded s :=
  (unstranded h).not_stranded

/-- A registration that pushes what an executor about to park missed, and the other way round:
two more pushes, and the two wait for each other. -/
theorem pushes_strand (ids : List ExecutorId) {k : κ} {t : τ} {e : ExecutorId}
    (hk : s.caller k = some (.push t))
    (habort : (s.x.task t).abort = false) (he : s.readying e = some .push)
    (htasks : s.tm.waitingTasks.items.length < s.tm.waitingTasks.bound)
    (hexecs : s.tm.waitingExecutors.items.length < s.tm.waitingExecutors.bound) :
    ∃ s', (interleaving ids).run s [.register k, .ready e] = some s' ∧ Stranded s' := by
  obtain ⟨q, hq⟩ : ∃ q, s.tm.waitingTasks.push t = some q := by
    rw [← Option.isSome_iff_exists, ← Option.ne_none_iff_isSome, Ne,
      BoundedQueue.push_eq_none_iff]
    omega
  obtain ⟨q', hq'⟩ : ∃ q', s.tm.waitingExecutors.push e = some q' := by
    rw [← Option.isSome_iff_exists, ← Option.ne_none_iff_isSome, Ne,
      BoundedQueue.push_eq_none_iff]
    omega
  refine ⟨_, by simp [TransitionSystem.run, interleaving, step, hk, he, RegisterPc.step,
    ReadyPc.step, hq, hq']; rfl, ⟨t, ?_, ?_⟩, ?_⟩
  · simp [(BoundedQueue.push_eq_some hq).2.2]
  · exact habort
  · simp [(BoundedQueue.push_eq_some hq').2.2]

/-- The condition leaves nothing out: from a state in which a step breaches it, that step and two
pushes strand a task, if there is room for it. -/
theorem not_apart_strands (h : (interleaving ids).ReachableUnder Apart s) {a : Label κ τ}
    (hbreach : ¬ Apart s a) (htasks : s.tm.waitingTasks.items.length < s.tm.waitingTasks.bound)
    (hexecs : 0 < s.tm.waitingExecutors.bound) :
    ∃ as s', (interleaving ids).run s (a :: as) = some s' ∧ Stranded s' := by
  cases a with
  | register k =>
    simp only [Apart, not_forall, not_not] at hbreach
    obtain ⟨hpop, hnil, e, he⟩ := hbreach
    unfold popsLive at hpop
    split at hpop
    · rename_i t hk
      have hnone := BoundedQueue.pop_eq_none_iff.2 hnil
      have hs : (interleaving ids).step s (.register k) =
          some { s with caller := Function.update s.caller k (some (.push t)) } := by
        simp [interleaving, step, hk, RegisterPc.step, hnone]
      obtain ⟨s', hrun, hstranded⟩ := pushes_strand ids
        (s := { s with caller := Function.update s.caller k (some (.push t)) }) (k := k) (t := t)
        (by simp) (by simpa using hpop) he htasks (by simpa [hnil] using hexecs)
      refine ⟨[.register k, .ready e], s', ?_, hstranded⟩
      rw [TransitionSystem.run_cons, hs]
      exact hrun
    · cases hpop
  | ready e =>
    simp only [Apart, not_forall, Bool.not_eq_false] at hbreach
    obtain ⟨he, hnil, k, hpush⟩ := hbreach
    obtain ⟨hexecs', -⟩ := (unstranded h).pushing k hpush
    unfold pushesLive at hpush
    split at hpush
    · rename_i t hk
      have hnone := BoundedQueue.pop_eq_none_iff.2 hnil
      have hs : (interleaving ids).step s (.ready e) =
          some { s with readying := Function.update s.readying e (some .push) } := by
        simp [interleaving, step, he, ReadyPc.step, hnone]
      obtain ⟨s', hrun, hstranded⟩ := pushes_strand ids
        (s := { s with readying := Function.update s.readying e (some .push) }) (e := e)
        hk (by simpa using hpush) (by simp) htasks (by simpa [hexecs'] using hexecs)
      refine ⟨[.register k, .ready e], s', ?_, hstranded⟩
      rw [TransitionSystem.run_cons, hs]
      exact hrun
    · cases hpush
  | _ => exact absurd trivial hbreach

/-- A step leaves the call of an executor that does not move. -/
theorem readying_of_step {a : Label κ τ} {e : ExecutorId} (h : s.step a = some s')
    (henter : a ≠ .enter e) (hready : a ≠ .ready e) : s'.readying e = s.readying e := by
  cases next_of_step h with
  | enter | ready | readied =>
    refine Function.update_of_ne ?_ ..
    rintro rfl
    contradiction
  | _ => rfl

theorem readying_of_run {as : List (Label κ τ)} {e : ExecutorId}
    (h : (interleaving ids).run s as = some s') (hne : ∀ a ∈ as, a ≠ .enter e ∧ a ≠ .ready e) :
    s'.readying e = s.readying e := by
  induction as generalizing s with
  | nil =>
    cases h
    rfl
  | cons a as ih =>
    rw [TransitionSystem.run_cons, Option.bind_eq_some_iff] at h
    obtain ⟨t, ht, h⟩ := h
    obtain ⟨henter, hready⟩ := hne a (by simp)
    rw [ih h fun b hb => hne b (by simp [hb]), readying_of_step ht henter hready]

/-- The executor `0` runs the task `5` and finds no task waiting; before it parks, the task `6` is
registered and finds no executor waiting. -/
def overlap : List (Label Unit ℕ) :=
  [.call () 5, .register (), .register (), .register (), .recv 0, .work (.lock 0),
    .work (.look 0), .work (.polled 0 .pending), .work (.unlock 0), .enter 0, .ready 0,
    .call () 6, .register (), .register (), .ready 0, .register ()]

/-- After `overlap` the task `6` and the executor `0` wait, and no call is in progress. -/
theorem stranded : ¬ ∀ s : Interleaving Unit ℕ,
    (interleaving [0]).Reachable s → Quiescent s → ¬ Stranded s := by
  intro hall
  have hrun : ((interleaving [0]).run
      (⟨.registeredWith [0], .new, fun _ => none, fun _ => none⟩ : Interleaving Unit ℕ)
      overlap).any (fun s => s.caller () = none ∧ s.readying 0 = none ∧
        s.tm.waitingTasks.items = [6] ∧ (s.x.task 6).abort = false ∧
        s.tm.waitingExecutors.items = [0]) = true := by decide
  obtain ⟨s, hs, hp⟩ := (Option.any_eq_true _ _).1 hrun
  simp only [decide_eq_true_eq] at hp
  obtain ⟨hcaller, hready, htasks, habort, hexecs⟩ := hp
  refine hall s (.run (.init ⟨_, rfl, by decide, rfl⟩) hs) ⟨fun k => hcaller, fun e => ?_⟩
    ⟨⟨6, by simp [htasks], habort⟩, by simp [hexecs]⟩
  by_cases he : e = 0
  · rw [he]
    exact hready
  · rw [readying_of_run hs]
    simp [overlap, Ne.symm he]

/-- A condition that can be evaluated and implies `Apart`. -/
def ApartAlone (s : Interleaving Unit ℕ) : Label Unit ℕ → Prop
  | .register () => popsLive s.x (s.caller ()) = true → s.tm.waitingExecutors.items ≠ []
  | .ready _ => pushesLive s.x (s.caller ()) = false
  | _ => True

instance (s : Interleaving Unit ℕ) (a : Label Unit ℕ) : Decidable (ApartAlone s a) :=
  match a with
  | .register _ => inferInstanceAs (Decidable
      (popsLive s.x (s.caller ()) = true → s.tm.waitingExecutors.items ≠ []))
  | .ready _ => inferInstanceAs (Decidable (pushesLive s.x (s.caller ()) = false))
  | .call .. | .abort _ | .recv _ | .work _ | .enter _ | .close _ =>
      inferInstanceAs (Decidable True)

/-- Executor `0` runs the task `5` and parks again. -/
def parked : List (Label Unit ℕ) :=
  [.call () 5, .register (), .register (), .register (), .recv 0, .work (.lock 0),
    .work (.look 0), .work (.polled 0 .pending), .work (.unlock 0), .enter 0, .ready 0, .ready 0]

theorem no_stranding_parked : ∃ s : Interleaving Unit ℕ,
    s.tm.waitingExecutors.items = [0] ∧ ¬ Stranded s := by
  obtain ⟨s, hs, hexecs⟩ := TransitionSystem.exists_reachableUnder (S := interleaving [0])
    (C := ApartAlone) (s := ⟨.registeredWith [0], .new, fun _ => none, fun _ => none⟩)
    ⟨_, rfl, by decide, rfl⟩ parked (p := fun s => s.tm.waitingExecutors.items = [0]) (by decide)
  have happart : (interleaving [0]).ReachableUnder Apart s := by
    refine hs.mono fun s a ha => ?_
    cases a with
    | register k => exact fun hpop hnil => absurd hnil (ha hpop)
    | ready e => exact fun _ _ k => ha
    | _ => trivial
  exact ⟨s, hexecs, no_stranding happart⟩

end Interleaving

end Hooch
