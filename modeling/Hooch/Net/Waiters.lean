import Hooch.Net.Socket

/-!
# Tasks that share a socket

The status of a token has room for one waker and one `Happened` mark. A second task that polls
while another is parked replaces its waker, so that the next event does not wake it, or takes the
mark that it was woken for, so that it parks again without having tried its operation.

* `Prompted`: what the tasks may expect of an event; `Alone`: the reactor is polled only while no
  other task is parked;
* `replaced_waker_sleeps`: two tasks, one event, one of them not woken;
* `events_prompt`: the main result, for any number of tasks that poll alone;
* `not_alone_unprompted`: the condition leaves nothing out.
-/

namespace Hooch

namespace SocketState

variable {W τ : Type*} [DecidableEq W] [DecidableEq τ] {token : Token} {owner : W → τ}
  {s s' : SocketState W τ} {a : SocketLabel W τ}

/-- Every task that was parked when an event was handled, and has not tried its operation since,
is not parked any more or has been woken since its last poll. So the event woke it, and it did not
park again without trying. -/
def Prompted (s : SocketState W τ) : Prop :=
  ∀ t, (s.task t).isParked = true → s.due t = true → s.woken t = true

/-- A task polls the reactor only while no other task is parked. -/
def Alone (s : SocketState W τ) : SocketLabel W τ → Prop
  | .poll t _ => ∀ u, u ≠ t → (s.task u).isParked = false
  | _ => True

/-- A parked task that has seen no event is the one whose waker is stored; one that has seen an
event has been woken, and finds its mark. -/
structure Waiters (token : Token) (s : SocketState W τ) : Prop where
  waits : ∀ t op w, s.task t = .parked op w → s.due t = false →
    s.reactor.statuses token = some (.awaited w)
  prompted : ∀ t, (s.task t).isParked = true → s.due t = true →
    s.reactor.statuses token = some .happened ∧ s.woken t = true
  /-- Only a parked task, or one that is to try again, is due. -/
  fresh : ∀ t op, s.task t = .blocked op → s.due t = false

omit [DecidableEq W] [DecidableEq τ] in
theorem Waiters.toPrompted (h : Waiters token s) : Prompted s :=
  fun t hp hd => (h.prompted t hp hd).2

/-- What `Waiters` says of one task. -/
structure WaitsAt (token : Token) (s : SocketState W τ) (t : τ) : Prop where
  waits : ∀ op w, s.task t = .parked op w → s.due t = false →
    s.reactor.statuses token = some (.awaited w)
  prompted : (s.task t).isParked = true → s.due t = true →
    s.reactor.statuses token = some .happened ∧ s.woken t = true
  fresh : ∀ op, s.task t = .blocked op → s.due t = false

omit [DecidableEq W] [DecidableEq τ] in
theorem waiters_iff : Waiters token s ↔ ∀ t, WaitsAt token s t :=
  ⟨fun h t => ⟨h.waits t, h.prompted t, h.fresh t⟩,
    fun h => ⟨fun t => (h t).waits, fun t => (h t).prompted, fun t => (h t).fresh⟩⟩

section Stay

omit [DecidableEq W] [DecidableEq τ]

/-- A task that is neither blocked nor parked waits for nothing. -/
theorem WaitsAt.of_waitsFor {t : τ} (ht : (s.task t).waitsFor = none) : WaitsAt token s t := by
  cases hpc : s.task t with
  | idle | trying => constructor <;> simp [hpc, WaiterPc.isParked]
  | blocked | parked =>
    rw [hpc] at ht
    cases ht

/-- A task that has seen no event. -/
theorem WaitsAt.of_not_due {t : τ} (hdue : s.due t = false) (hparked : ∀ op w,
    s.task t = .parked op w → s.reactor.statuses token = some (.awaited w)) : WaitsAt token s t :=
  ⟨fun op w ht _ => hparked op w ht, fun _ hd => absurd (hdue.symm.trans hd) (by simp),
    fun _ _ => hdue⟩

/-- A task that does not move. -/
theorem WaitsAt.stay {t : τ} (h : WaitsAt token s t) (htask : s'.task t = s.task t)
    (hdue : s'.due t = s.due t) (hparked : (s.task t).isParked = true →
      s'.reactor.statuses token = s.reactor.statuses token ∧ s'.woken t = s.woken t) :
    WaitsAt token s' t := by
  refine ⟨fun op w ht hd => ?_, fun ht hd => ?_, fun op ht => ?_⟩ <;> rw [htask] at ht
  · rw [hdue] at hd
    rw [(hparked (by rw [ht]; rfl)).1]
    exact h.waits op w ht hd
  · rw [hdue] at hd
    rw [(hparked ht).1, (hparked ht).2]
    exact h.prompted ht hd
  · rw [hdue]
    exact h.fresh op ht

end Stay

section Move

omit [DecidableEq W]

/-- One task moves, and the others notice at most when they are not parked. -/
theorem Waiters.move (h : Waiters token s) {t : τ} {p : WaiterPc W}
    (htask : s'.task = Function.update s.task t p) (hmoved : WaitsAt token s' t)
    (hdue : ∀ u, u ≠ t → s'.due u = s.due u)
    (hother : ∀ u, u ≠ t → (s.task u).isParked = true →
      s'.reactor.statuses token = s.reactor.statuses token ∧ s'.woken u = s.woken u) :
    Waiters token s' := by
  refine waiters_iff.2 fun u => ?_
  by_cases hut : u = t
  · rwa [hut]
  · exact (waiters_iff.1 h u).stay (by rw [htask, Function.update_of_ne hut]) (hdue u hut)
      (hother u hut)

/-- A step that moves one task to a place where it is neither blocked nor parked. -/
theorem Waiters.leave (h : Waiters token s) {t : τ} {p : WaiterPc W} (hp : p.waitsFor = none)
    {due : τ → Bool} (hdue : ∀ u, u ≠ t → due u = s.due u) :
    Waiters token { s.setTask t p with due := due } :=
  h.move rfl (.of_waitsFor (by simpa [setTask] using hp)) hdue fun _ _ _ => ⟨rfl, rfl⟩

/-- The operation would have blocked. -/
theorem Waiters.wouldBlock (h : Waiters token s) {t : τ} {op : Interest} :
    Waiters token
      { s.setTask t (.blocked op) with due := Function.update s.due t false } :=
  h.move rfl (.of_not_due (by simp) fun op' w ht => by simp [setTask] at ht)
    (fun u hut => Function.update_of_ne hut ..) fun _ _ _ => ⟨rfl, rfl⟩

/-- A task that polls alone and parks has not seen an event: otherwise its mark would be there. -/
theorem Waiters.park (h : Waiters token s) {t : τ} {op : Interest} {waker : W} {r : Reactor W}
    (halone : ∀ u, u ≠ t → (s.task u).isParked = false)
    (ht : (s.task t).waitsFor = some op)
    (hstatus : s.reactor.statuses token ≠ some .happened)
    (hr : r.statuses token = some (.awaited waker)) :
    Waiters token { s.setTask t (.parked op waker) with
      reactor := r
      woken := Function.update s.woken t false } := by
  have hdue : s.due t = false := by
    cases hpc : s.task t with
    | idle | trying => rw [hpc] at ht; cases ht
    | blocked op' => exact h.fresh t op' hpc
    | parked op' w =>
      by_contra hd
      exact hstatus (h.prompted t (by rw [hpc]; rfl) (by simpa using hd)).1
  refine h.move rfl (.of_not_due hdue fun op' w hpc => ?_) (fun _ _ => rfl) fun u hut hu => ?_
  · have hsame : WaiterPc.parked op waker = .parked op' w := by simpa [setTask] using hpc
    cases hsame
    exact hr
  · rw [halone u hut] at hu
    cases hu

/-- A task that polls alone takes the mark from nobody. -/
theorem Waiters.resume (h : Waiters token s) {t : τ} {op : Interest} {r : Reactor W}
    (halone : ∀ u, u ≠ t → (s.task u).isParked = false) :
    Waiters token { s.setTask t (.trying op) with reactor := r } := by
  refine h.move rfl (.of_waitsFor (by simp [setTask, WaiterPc.waitsFor])) (fun _ _ => rfl)
    fun u hut hu => ?_
  rw [halone u hut] at hu
  cases hu

end Move

omit [DecidableEq τ] in
/-- An event marks the token and wakes the one task whose waker is stored. -/
theorem Waiters.event (h : Waiters token s) {w : Option W} {r : Reactor W}
    (hw : ∀ waker, s.reactor.statuses token = some (.awaited waker) → w = some waker)
    (hr : r.statuses token = some .happened) :
    Waiters token { s with
      reactor := r
      queued := s.queued - 1
      woken := fun t => (s.task t).wokenBy w || s.woken t
      due := fun t => (s.task t).isParked || s.due t } := by
  refine ⟨fun t op waker ht hd => ?_, fun t ht hd => ⟨hr, ?_⟩, fun t op ht => ?_⟩
  · simp [show s.task t = .parked op waker from ht, WaiterPc.isParked] at hd
  · cases hpc : s.task t with
    | idle | trying | blocked => simp [hpc, WaiterPc.isParked] at ht
    | parked op waker =>
      cases hdue : s.due t with
      | true => simp [(h.prompted t (by rw [hpc]; rfl) hdue).2]
      | false => simp [WaiterPc.wokenBy, hpc, hw waker (h.waits t op waker hpc hdue)]
  · simp [show s.task t = .blocked op from ht, WaiterPc.isParked, h.fresh t op ht]

/-- One step that meets `Alone`. -/
theorem Waiters.next (h : Waiters token s) (halone : Alone s a) (hs : Next token owner s a s') :
    Waiters token s' := by
  cases hs with
  | start => exact h.leave rfl fun _ _ => rfl
  | done => exact h.leave rfl fun u hu => Function.update_of_ne hu ..
  | wouldBlock => exact h.wouldBlock
  | park ht _ hstatus hr => exact h.park halone ht hstatus hr
  | resume => exact h.resume halone
  | abandon => exact h.leave rfl fun _ _ => rfl
  | becomeReady => exact ⟨h.waits, h.prompted, h.fresh⟩
  | becomeUnready => exact ⟨h.waits, h.prompted, h.fresh⟩
  | event _ hw hr => exact h.event hw hr

theorem waiters (h : (socket token owner).ReachableUnder Alone s) : Waiters token s := by
  refine h.invariant ?_ fun s a s' hI hc hs => hI.next hc (next_of_step hs)
  intro s hidle
  exact ⟨fun t op w ht => by simp [hidle t] at ht,
    fun t ht => by simp [hidle t, WaiterPc.isParked] at ht, fun t op ht => by simp [hidle t] at ht⟩

/-! ### The results -/

/-- Any number of tasks, any interleaving: as long as each task polls while no other is parked,
an event wakes every parked task, and none parks again before it has tried its operation. -/
theorem events_prompt (h : (socket token owner).ReachableUnder Alone s) : Prompted s :=
  (waiters h).toPrompted

/-- A new object, whose token has no status yet. -/
def new : SocketState W τ where
  reactor := .new
  ready := fun _ => false
  queued := 0
  task := fun _ => .idle
  woken := fun _ => false
  due := fun _ => false

instance [Fintype τ] : DecidablePred (Prompted : SocketState W τ → Prop) := fun _ =>
  inferInstanceAs (Decidable (∀ _, _))

instance [Fintype τ] (s : SocketState W τ) : ∀ a, Decidable (Alone s a)
  | .poll t _ => inferInstanceAs (Decidable (∀ u, u ≠ t → (s.task u).isParked = false))
  | .start .. | .attempt _ | .abandon _ | .becomeReady _ | .becomeUnready _ | .event =>
    inferInstanceAs (Decidable True)

/-- One task parks and is woken; another one waits with its poll until the first has tried. -/
theorem events_prompt_inTurn :
    ∃ s, (socket 1 (id : Bool → Bool)).ReachableUnder Alone s ∧
      ((s.task true).isParked = true ∧ s.due true = true ∧ s.woken true = true) ∧
      Prompted s := by
  obtain ⟨s, hs, hp⟩ := TransitionSystem.exists_reachableUnder
    (S := socket 1 (id : Bool → Bool)) (C := Alone) (s := new) (fun _ => rfl)
    [.start true .readable, .start false .writable, .attempt true, .attempt false,
      .poll true true, .becomeReady .readable, .event]
    (p := fun s => (s.task true).isParked = true ∧ s.due true = true ∧ s.woken true = true)
    (by decide)
  exact ⟨s, hs, hp, events_prompt hs⟩

/-- Two tasks wait to read, and the second poll replaces the waker of the first. -/
theorem replaced_waker_sleeps :
    ∃ s, (socket 1 (id : Bool → Bool)).Reachable s ∧ ¬ Prompted s :=
  TransitionSystem.exists_reachableUnder (S := socket 1 (id : Bool → Bool))
    (C := fun _ _ => True) (s := new) (fun _ => rfl)
    [.start true .readable, .start false .readable, .attempt true, .attempt false,
      .poll true true, .poll false false, .becomeReady .readable, .event]
    (by decide)

/-! ### The condition leaves nothing out -/

/-- A parked task has parked with a waker of its own, and sleeps until it sees an event. -/
structure Parked (owner : W → τ) (s : SocketState W τ) : Prop where
  own : ∀ t op w, s.task t = .parked op w → owner w = t
  asleep : ∀ t, (s.task t).isParked = true → s.due t = false → s.woken t = false

omit [DecidableEq W] in
theorem Parked.setTask (h : Parked owner s) {t : τ} {p : WaiterPc W} (hp : p.isParked = false)
    {reactor : Reactor W} {due : τ → Bool} (hdue : ∀ u, u ≠ t → due u = s.due u) :
    Parked owner { s.setTask t p with reactor := reactor, due := due } := by
  refine ⟨fun u op w hu => ?_, fun u hu hd => ?_⟩
  · by_cases hut : u = t
    · subst hut
      cases p <;> simp_all [SocketState.setTask, WaiterPc.isParked]
    · exact h.own u op w (by simpa [SocketState.setTask, hut] using hu)
  · by_cases hut : u = t
    · subst hut
      simp [SocketState.setTask, hp] at hu
    · simp only [hdue u hut] at hd
      exact h.asleep u (by simpa [SocketState.setTask, hut] using hu) hd

theorem Parked.next (h : Parked owner s) (hs : Next token owner s a s') : Parked owner s' := by
  cases hs with
  | start => exact h.setTask rfl fun _ _ => rfl
  | done => exact h.setTask rfl fun u hu => Function.update_of_ne hu ..
  | wouldBlock => exact h.setTask rfl fun u hu => Function.update_of_ne hu ..
  | resume => exact h.setTask rfl fun _ _ => rfl
  | abandon => exact h.setTask rfl fun _ _ => rfl
  | becomeReady | becomeUnready => exact ⟨h.own, h.asleep⟩
  | @park t op waker r ht howner =>
    refine ⟨fun u op' w hu => ?_, fun u hu hd => ?_⟩
    · by_cases hut : u = t
      · subst hut
        have hsame : WaiterPc.parked op waker = .parked op' w := by
          simpa [SocketState.setTask] using hu
        cases hsame
        exact howner
      · exact h.own u op' w (by simpa [SocketState.setTask, hut] using hu)
    · by_cases hut : u = t
      · subst hut
        simp
      · show Function.update s.woken t false u = false
        rw [Function.update_of_ne hut]
        exact h.asleep u (by simpa [SocketState.setTask, hut] using hu) hd
  | event =>
    refine ⟨h.own, fun t ht hd => ?_⟩
    simp [show (s.task t).isParked = true from ht] at hd

theorem parked (h : (socket token owner).Reachable s) : Parked owner s := by
  refine h.invariant ?_ fun s a s' hI hs => hI.next (next_of_step hs)
  intro s hidle
  exact ⟨fun t op w ht => by simp [hidle t] at ht,
    fun t ht => by simp [hidle t, WaiterPc.isParked] at ht⟩

/-- A poll while another task is parked: either the next event does not wake that task, or the
task, already woken, parks again at its next poll. -/
theorem not_alone_unprompted (h : (socket token owner).ReachableUnder Alone s) {t : τ} {w : W}
    (hbreach : ¬ Alone s (.poll t w)) (hs : (socket token owner).step s (.poll t w) = some s') :
    ∃ as s'', (socket token owner).run s' as = some s'' ∧ ¬ Prompted s'' := by
  obtain ⟨u, hut, hu⟩ : ∃ u, u ≠ t ∧ (s.task u).isParked = true := by
    simpa [Alone] using hbreach
  obtain ⟨op, wu, hpc⟩ : ∃ op wu, s.task u = .parked op wu := by
    cases hpc : s.task u <;> simp_all [WaiterPc.isParked]
  have hown := (parked h.reachable).own u op wu hpc
  have hnext : Next token owner s (.poll t w) s' := next_of_step hs
  cases hnext with
  | @park _ op' _ r ht howner hstatus hr =>
    have hdue : s.due u = false := by
      by_contra hd
      exact hstatus ((waiters h).prompted u hu (by simpa using hd)).1
    have hasleep := (parked h.reachable).asleep u hu hdue
    have hne : w ≠ wu := by
      rintro rfl
      exact hut (hown.symm.trans howner)
    -- The socket becomes ready, and the event wakes the other task only.
    refine ⟨[.becomeUnready .readable, .becomeReady .readable, .event], _, by
      simp [TransitionSystem.run, socket, step, Reactor.event, hr]; rfl, fun hprompted => ?_⟩
    have hwoken := hprompted u (by simp [SocketState.setTask, hut, hu])
      (by simp [SocketState.setTask, hut, hu])
    simp [SocketState.setTask, hut, hpc, WaiterPc.wokenBy, hne, hasleep] at hwoken
  | @resume _ op' _ r ht howner hstatus hr =>
    have hdue : s.due u = true := by
      by_contra hd
      have := (waiters h).waits u op wu hpc (by simpa using hd)
      rw [hstatus] at this
      cases this
    -- The mark is gone when the parked task polls.
    refine ⟨[.poll u wu], _, by
      simp [TransitionSystem.run, socket, step, SocketState.setTask, hut, hpc, WaiterPc.waitsFor,
        hown, Reactor.poll, hr]; rfl, fun hprompted => ?_⟩
    have hwoken := hprompted u (by simp [WaiterPc.isParked]) (by
      simp [hdue])
    simp at hwoken

end SocketState

end Hooch
