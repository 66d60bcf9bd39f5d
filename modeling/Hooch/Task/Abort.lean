import Hooch.Task.Interleaving

/-!
# Aborting a task

The abort flag is looked at when a task is registered and when it is popped from the queue of
waiting tasks. From there the task goes through an executor's channel, and nothing looks at the
flag again before the poll: a task that is aborted on this way is polled all the same
(`polled_after_abort`).

`Uncommitted` is the condition that a task is not aborted on this way, and that a registration
that was caught between its look at the flag and its look for an executor finds none. Under it no
poll of an aborted task starts (`no_poll_after_abort`).
-/

namespace Hooch

namespace Interleaving

variable {κ τ : Type*} [DecidableEq κ] [DecidableEq τ] {ids : List ExecutorId}
  {s s' : Interleaving κ τ}

/-- The task whose poll the step starts. -/
def pollStart (s : Interleaving κ τ) : Label κ τ → Option τ
  | .work (.look e) =>
      match s.x.pc e with
      | .locked t => if (s.x.task t).future then some t else none
      | _ => none
  | _ => none

/-- The task is past the last look at its abort flag: about to be sent, in a channel, or received
by an executor that has not started to poll it. -/
def Committed (s : Interleaving κ τ) (t : τ) : Prop :=
  (∃ e, .task t ∈ s.tm.inbox e) ∨ s.x.Received t ∨ (∃ k e, s.caller k = some (.send e t)) ∨
    ∃ e, s.readying e = some (.send t)

/-- No poll of the task returned `Ready` or panicked. -/
def Pollable (k : Task) : Prop := k.finished = false ∧ k.panicked = false

/-- A task that may be polled again is not aborted past the last look at its flag, and one that
was aborted since a registration looked at it is not handed to an executor. -/
def Uncommitted (s : Interleaving κ τ) : Label κ τ → Prop
  | .abort t => Pollable (s.x.task t) → ¬ Committed s t
  | .register k => ∀ t, s.caller k = some (.pop t) → (s.x.task t).abort = true →
      Pollable (s.x.task t) → s.tm.waitingExecutors.items = []
  | _ => True

/-- No aborted task is past the last look at its flag, unless it cannot be polled any more. -/
def NoneCommitted (s : Interleaving κ τ) : Prop :=
  ∀ t, (s.x.task t).abort = true → Pollable (s.x.task t) → ¬ Committed s t

omit [DecidableEq κ] [DecidableEq τ] in
/-- A step that sets no abort flag and commits no task. -/
theorem NoneCommitted.mono (h : NoneCommitted s)
    (habort : ∀ t, (s'.x.task t).abort = true → (s.x.task t).abort = true)
    (hpoll : ∀ t, Pollable (s'.x.task t) → Pollable (s.x.task t))
    (hcommit : ∀ t, (s'.x.task t).abort = true → Committed s' t → Committed s t) :
    NoneCommitted s' := fun t ha hp hc =>
  h t (habort t ha) (hpoll t hp) (hcommit t ha hc)

omit [DecidableEq τ] in
/-- What is in a channel after a send was there before or was sent. -/
theorem mem_inbox_sent {tm : TaskManager τ} {e e' : ExecutorId} {t u : τ}
    {ch ch' : SyncChannel (ExecutorTask τ)} (hch : tm.executors e = some ch)
    (hsend : ch'.items = ch.items ++ [.task t])
    (hu : .task u ∈ TaskManager.inbox
      { tm with executors := Function.update tm.executors e (some ch') } e') :
    .task u ∈ tm.inbox e' ∨ u = t := by
  rw [TaskManager.inbox_setChannel] at hu
  by_cases he : e' = e
  · subst he
    rw [Function.update_self, hsend, List.mem_append, List.mem_singleton] at hu
    rcases hu with hu | hu
    · exact .inl (by rwa [TaskManager.inbox_eq hch])
    · cases hu
      exact .inr rfl
  · rw [Function.update_of_ne he] at hu
    exact .inl hu

omit [DecidableEq κ] [DecidableEq τ] in
/-- Being committed, place by place. -/
theorem Committed.elim {t : τ} {P : Prop} (h : Committed s t)
    (hinbox : ∀ e, .task t ∈ s.tm.inbox e → P) (hreceived : s.x.Received t → P)
    (hcaller : ∀ k e, s.caller k = some (.send e t) → P)
    (hready : ∀ e, s.readying e = some (.send t) → P) : P := by
  rcases h with ⟨e, he⟩ | hr | ⟨k, e, hk⟩ | ⟨e, he⟩
  · exact hinbox e he
  · exact hreceived hr
  · exact hcaller k e hk
  · exact hready e he

section Places

omit [DecidableEq κ] [DecidableEq τ]

variable {t : τ}

theorem committed_inbox (e : ExecutorId) (h : .task t ∈ s.tm.inbox e) : Committed s t := .inl ⟨e, h⟩
theorem committed_received (h : s.x.Received t) : Committed s t := .inr (.inl h)
theorem committed_caller (k : κ) (e : ExecutorId) (h : s.caller k = some (.send e t)) :
    Committed s t := .inr (.inr (.inl ⟨k, e, h⟩))
theorem committed_ready (e : ExecutorId) (h : s.readying e = some (.send t)) : Committed s t :=
  .inr (.inr (.inr ⟨e, h⟩))

end Places

omit [DecidableEq τ] in
/-- A step of a registration that meets `Uncommitted` commits no aborted task. -/
theorem NoneCommitted.register {k : κ} {p : RegisterPc τ} {tm : TaskManager τ}
    {a : After (RegisterPc τ)} (h : NoneCommitted s) (hunc : Uncommitted s (.register k))
    (hk : s.caller k = some p) (hp : p.Next s.hasAborted s.tm tm a) {p' : Option (RegisterPc τ)}
    (ha : ∀ e t, p' = some (.send e t) → a = .next (.send e t)) :
    NoneCommitted { s with tm := tm, caller := Function.update s.caller k p' } := by
  intro t habort hpoll hc
  refine h t habort hpoll (hc.elim (fun e hin => ?_) (committed_received (s := s))
    (fun k' e hk' => ?_) (committed_ready (s := s)))
  · cases hp with
    | sent hch hsend =>
      rcases mem_inbox_sent hch hsend hin with hin | rfl
      · exact committed_inbox e hin
      · exact committed_caller k _ hk
    | _ => exact committed_inbox e hin
  · by_cases hkk : k' = k
    · subst hkk
      simp only [Function.update_self] at hk'
      rw [ha e t hk'] at hp
      cases hp with
      | found hpop =>
        have hnil := hunc t hk habort hpoll
        rw [hpop] at hnil
        cases hnil
    · exact committed_caller k' e (by simpa [hkk] using hk')

omit [DecidableEq κ] [DecidableEq τ] in
/-- A step of `executor_ready` commits no aborted task. -/
theorem NoneCommitted.ready {e : ExecutorId} {p : ReadyPc τ} {tm : TaskManager τ}
    {a : After (ReadyPc τ)} {x : Executors τ} (h : NoneCommitted s) (he : s.readying e = some p)
    (hp : p.Next s.hasAborted s.tm e tm a) (htask : x.task = s.x.task)
    (hx : ∀ t, x.Received t → s.x.Received t) {p' : Option (ReadyPc τ)}
    (ha : ∀ t, p' = some (.send t) → a = .next (.send t)) :
    NoneCommitted { s with tm := tm, x := x, readying := Function.update s.readying e p' } := by
  intro t habort hpoll hc
  simp only [htask] at habort hpoll
  refine h t habort hpoll (hc.elim (fun e' hin => ?_) (fun hr => committed_received (hx t hr))
    (committed_caller (s := s)) fun e' he' => ?_)
  · cases hp with
    | sent hch hsend =>
      rcases mem_inbox_sent hch hsend hin with hin | rfl
      · exact committed_inbox e' hin
      · exact committed_ready e he
    | _ => exact committed_inbox e' hin
  · by_cases hee : e' = e
    · subst hee
      simp only [Function.update_self] at he'
      rw [ha t he'] at hp
      cases hp with
      | live hlive =>
        have : (s.x.task t).abort = false := hlive
        rw [habort] at this
        cases this
    · exact committed_ready e' (by simpa [hee] using he')

/-- One step that meets `Uncommitted` commits no aborted task. -/
theorem NoneCommitted.next {a : Label κ τ} (h : NoneCommitted s) (hunc : Uncommitted s a)
    (hs : Next s a s') : NoneCommitted s' := by
  cases hs with
  | @call k t hk =>
    have htask : ∀ u, ((s.x.notify t).task u).abort = (s.x.task u).abort ∧
        (Pollable ((s.x.notify t).task u) → Pollable (s.x.task u)) := by
      intro u
      by_cases hut : u = t
      · subst hut
        simp [Executors.notify, Pollable]
      · simp [Executors.notify, hut]
    refine h.mono (fun u hu => by rwa [← (htask u).1]) (fun u => (htask u).2) fun u _ hc => ?_
    exact hc.elim (committed_inbox (s := s)) (fun hr => committed_received (s := s) (hr.mono rfl))
      (fun k' e hk' => committed_caller k' e (of_update_eq hk' (by simp)))
      (committed_ready (s := s))
  | @register k p p' tm hk hp =>
    exact h.register hunc hk hp fun e t hp' => by rw [Option.some.inj hp']
  | @registered k p tm a hk hp ha =>
    exact h.register hunc hk hp fun e t hp' => by cases hp'
  | @abort t =>
    intro u hu hpoll hc
    have hold : Committed s u := hc
    by_cases hut : u = t
    · subst hut
      exact hunc (by simpa [Pollable] using hpoll) hold
    · exact h u (by simpa [hut] using hu) (by simpa [hut] using hpoll) hold
  | @recv e t tm hpc hrecv =>
    obtain ⟨hmem, hsub⟩ := TaskManager.inbox_recvTask hrecv
    refine h.mono (fun u hu => hu) (fun u hu => hu) fun u _ hc => ?_
    refine hc.elim (fun e' hin => committed_inbox e' (hsub e' hin)) (fun hr => ?_)
      (committed_caller (s := s)) (committed_ready (s := s))
    by_cases hut : u = t
    · subst hut
      exact committed_inbox e hmem
    · exact committed_received (hr.of_setPc (by simpa using Ne.symm hut) (by simp))
  | @finish e tm hpc hrecv =>
    obtain ⟨-, hsub⟩ := TaskManager.inbox_recvTask hrecv
    refine h.mono (fun u hu => hu) (fun u hu => hu) fun u _ hc => ?_
    exact hc.elim (fun e' hin => committed_inbox e' (hsub e' hin))
      (fun hr => committed_received (hr.of_setPc (by simp) (by simp)))
      (committed_caller (s := s)) (committed_ready (s := s))
  | @work a x hx =>
    refine h.mono (fun u hu => by rwa [← Executors.abort_next hx u])
      (fun u hu => ⟨(Executors.finished_next hx u).1 hu.1, (Executors.finished_next hx u).2 hu.2⟩)
      fun u _ hc => ?_
    exact hc.elim (committed_inbox (s := s))
      (fun hr => committed_received (Executors.received_next hx hr))
      (committed_caller (s := s)) (committed_ready (s := s))
  | @enter e hpc he =>
    refine h.mono (fun u hu => hu) (fun u hu => hu) fun u _ hc => ?_
    exact hc.elim (committed_inbox (s := s)) (committed_received (s := s))
      (committed_caller (s := s)) (fun e' he' => committed_ready e' (of_update_eq he' (by simp)))
  | @ready e p p' tm he hp =>
    exact h.ready he hp rfl (fun _ => id) fun t hp' => by rw [Option.some.inj hp']
  | @readied e p tm a pc he hp ha =>
    refine h.ready (x := s.x.setPc e pc) he hp rfl (fun t hr => ?_)
      fun t hp' => by cases hp'
    rcases ha with ⟨-, rfl⟩ | ⟨-, rfl⟩ <;> exact hr.of_setPc (by simp) (by simp)
  | @close e hpc =>
    refine h.mono (fun u hu => hu) (fun u hu => hu) fun u _ hc => ?_
    refine hc.elim (fun e' hin => committed_inbox e' (TaskManager.inbox_closeChannel e e' hin))
      (fun hr => committed_received ?_) (committed_caller (s := s)) (committed_ready (s := s))
    exact Executors.Received.of_setPc (x := s.x) (e := e) (p := .gone) (hr.mono rfl) (by simp)
      (by simp)

theorem Ok.next {a : Label κ τ} (h : s.x.Ok) (hs : Next s a s')
    (hready : ∀ e, s.readying e ≠ none → s.x.pc e = .ready) : s'.x.Ok := by
  cases hs with
  | call | abort => exact h.setTask rfl rfl rfl rfl rfl
  | register | registered | enter | ready => exact h
  | recv hpc | finish hpc => exact h.setPc (by rw [hpc]; rfl) rfl
  | work hx => exact h.next hx
  | @readied e p tm a pc he hp ha =>
    refine h.setPc (by rw [hready e (by rw [he]; simp)]; rfl) ?_
    rcases ha with ⟨-, rfl⟩ | ⟨-, rfl⟩ <;> rfl
  | @close e hpc => exact (h.setPc (e := e) (p := .gone) (by rw [hpc]; rfl) rfl).setPanics

/-- An executor in a call of `executor_ready` stands at it. -/
theorem readying_next {a : Label κ τ} (h : ∀ e, s.readying e ≠ none → s.x.pc e = .ready)
    (hs : Next s a s') : ∀ e, s'.readying e ≠ none → s'.x.pc e = .ready := by
  -- An executor that stood elsewhere is in no call.
  have hmove : ∀ {e : ExecutorId} {p : ExecutorPc τ}, s.x.pc e ≠ .ready →
      ∀ e', s.readying e' ≠ none → (s.x.setPc e p).pc e' = .ready := by
    intro e p hne e' he'
    have hee : e' ≠ e := by
      rintro rfl
      exact hne (h e' he')
    simpa [hee] using h e' he'
  cases hs with
  | call | abort | register | registered => exact h
  | recv hpc | finish hpc | close hpc => exact hmove (by rw [hpc]; simp)
  | work hx => exact fun e he => Executors.ready_next hx (h e he)
  | @enter e hpc he =>
    intro e' he'
    by_cases hee : e' = e
    · rw [hee, hpc]
    · exact h e' (by simpa [hee] using he')
  | @ready e p p' tm he hp =>
    intro e' he'
    by_cases hee : e' = e
    · rw [hee]
      exact h e (by rw [he]; simp)
    · exact h e' (by simpa [hee] using he')
  | @readied e p tm a pc he hp ha =>
    intro e' he'
    have hee : e' ≠ e := by
      rintro rfl
      simp at he'
    simpa [hee] using h e' (by simpa [hee] using he')

/-! ### The results -/

theorem noneCommitted (h : (interleaving ids).ReachableUnder Uncommitted s) :
    NoneCommitted s ∧ s.x.Ok ∧ ∀ e, s.readying e ≠ none → s.x.pc e = .ready := by
  refine h.invariant (I := fun s => NoneCommitted s ∧ s.x.Ok ∧
    ∀ e, s.readying e ≠ none → s.x.pc e = .ready) ?_ ?_
  · rintro s ⟨tm, htm, -, rfl⟩
    exact ⟨fun t ht => by simp [Executors.new, Task.new] at ht, Executors.Ok.new, by simp⟩
  · rintro s a s' ⟨hnone, hok, hready⟩ hc hs
    have hnext := next_of_step hs
    exact ⟨hnone.next hc hnext, Ok.next hok hnext hready, readying_next hready hnext⟩

/-- In every run whose steps meet `Uncommitted`, no poll of a task starts after the task was
aborted. -/
theorem no_poll_after_abort (h : (interleaving ids).ReachableUnder Uncommitted s)
    {a : Label κ τ} {t : τ} (hpoll : s.pollStart a = some t) : (s.x.task t).abort = false := by
  obtain ⟨hnone, hok, -⟩ := noneCommitted h
  unfold pollStart at hpoll
  split at hpoll
  · rename_i e
    split at hpoll
    · rename_i u hpc
      split at hpoll
      · rename_i hfut
        cases hpoll
        have hold : (s.x.pc e).holds = some t := by rw [hpc]; rfl
        have hfin : (s.x.task t).finished = false := by
          rw [← Bool.not_eq_true]
          intro hf
          rw [hok.finished_of_holds hold (by rw [hpc]; simp) hf] at hfut
          cases hfut
        rw [← Bool.not_eq_true]
        intro ha
        exact hnone t ha ⟨hfin, hok.not_panicked hold (by rw [hpc]; simp)⟩
          (committed_received ⟨e, .inr hpc⟩)
      · cases hpoll
    · cases hpoll
  · cases hpoll

/-- The task `5` is sent to the executor `0` and then aborted. -/
def abortedInChannel : List (Label Unit ℕ) :=
  [.call () 5, .register (), .register (), .register (), .abort 5, .recv 0, .work (.lock 0)]

/-- After `abortedInChannel`, the next step of the executor polls the aborted task. -/
theorem polled_after_abort : ¬ ∀ (s : Interleaving Unit ℕ) (a : Label Unit ℕ) (t : ℕ),
    (interleaving [0]).Reachable s → s.pollStart a = some t → (s.x.task t).abort = false := by
  intro hall
  obtain ⟨s, hs, hpoll, habort⟩ := TransitionSystem.exists_reachableUnder (S := interleaving [0])
    (C := fun _ _ => True) (s := ⟨.registeredWith [0], .new, fun _ => none, fun _ => none⟩)
    ⟨_, rfl, by decide, rfl⟩ abortedInChannel
    (p := fun s => s.pollStart (.work (.look 0)) = some 5 ∧ (s.x.task 5).abort = true) (by decide)
  rw [hall s _ 5 hs hpoll] at habort
  cases habort

/-- The registration is about to look for an executor for a task that was aborted. -/
def popsAborted (x : Executors τ) : Option (RegisterPc τ) → Bool
  | some (.pop t) => (x.task t).abort
  | _ => false

/-- A condition that can be evaluated and implies `Uncommitted`: tasks are aborted once they are
finished. -/
def AbortsFinished (s : Interleaving Unit ℕ) : Label Unit ℕ → Prop
  | .abort t => (s.x.task t).finished = true
  | .register k => popsAborted s.x (s.caller k) = false
  | _ => True

instance (s : Interleaving Unit ℕ) (a : Label Unit ℕ) : Decidable (AbortsFinished s a) :=
  match a with
  | .abort t => inferInstanceAs (Decidable ((s.x.task t).finished = true))
  | .register k => inferInstanceAs (Decidable (popsAborted s.x (s.caller k) = false))
  | .call .. | .recv _ | .work _ | .enter _ | .ready _ | .close _ =>
      inferInstanceAs (Decidable True)

/-- The task `5` finishes and is aborted; then the task `6` is locked. -/
def abortedFinished : List (Label Unit ℕ) :=
  [.call () 5, .register (), .register (), .register (), .recv 0, .work (.lock 0),
    .work (.look 0), .work (.polled 0 .ready), .abort 5, .work (.clear 0), .work (.unlock 0),
    .enter 0, .ready 0, .ready 0, .call () 6, .register (), .register (), .register (), .recv 0,
    .work (.lock 0)]

theorem no_poll_after_abort_abortedFinished : ∃ s : Interleaving Unit ℕ,
    (s.x.task 5).abort = true ∧ s.pollStart (.work (.look 0)) = some 6 ∧
      (s.x.task 6).abort = false := by
  obtain ⟨s, hs, habort, hpoll⟩ := TransitionSystem.exists_reachableUnder (S := interleaving [0])
    (C := AbortsFinished) (s := ⟨.registeredWith [0], .new, fun _ => none, fun _ => none⟩)
    ⟨_, rfl, by decide, rfl⟩ abortedFinished
    (p := fun s => (s.x.task 5).abort = true ∧ s.pollStart (.work (.look 0)) = some 6) (by decide)
  have hunc : (interleaving [0]).ReachableUnder Uncommitted s := by
    refine hs.mono fun s a ha => ?_
    cases a with
    | abort t =>
      rintro ⟨hfin, -⟩
      rw [show (s.x.task t).finished = true from ha] at hfin
      cases hfin
    | register k =>
      intro t hk habort
      simp only [AbortsFinished, hk, popsAborted] at ha
      rw [ha] at habort
      cases habort
    | _ => trivial
  exact ⟨s, habort, hpoll, no_poll_after_abort hunc hpoll⟩

end Interleaving

end Hooch
