import Hooch.Net.Waiters

/-!
# One waiter at a time

Events of a socket are edge triggered: there is one for each change to ready, so an event that is
overwritten or consumed at the wrong moment would leave its task asleep on a ready socket. With one
task at a time in a call on the object this does not happen, whatever the status of the token is
when the call begins.

* `OneAtATime`: a call begins only while no other task is in one;
* `Readiness.next`: between a `WouldBlock` and the next try, a ready socket has an event queued or
  its mark in the status;
* `readiness_kept`: the main result.
-/

namespace Hooch

namespace SocketState

variable {W τ : Type*} [DecidableEq W] [DecidableEq τ] {token : Token} {owner : W → τ}
  {s s' : SocketState W τ} {a : SocketLabel W τ}

/-- A task begins a call only while every other task is outside. -/
def OneAtATime (s : SocketState W τ) : SocketLabel W τ → Prop
  | .start t _ => ∀ u, u ≠ t → (s.task u).isIdle = true
  | _ => True

instance [Fintype τ] (s : SocketState W τ) : ∀ a, Decidable (OneAtATime s a)
  | .start t _ => inferInstanceAs (Decidable (∀ u, u ≠ t → (s.task u).isIdle = true))
  | .poll .. | .attempt _ | .abandon _ | .becomeReady _ | .becomeUnready _ | .event =>
    inferInstanceAs (Decidable True)

/-- One task is in a call, and the socket does not become ready behind its back. -/
structure Readiness (token : Token) (s : SocketState W τ) : Prop extends Waiters token s where
  single : ∀ t u, (s.task t).isIdle = false → (s.task u).isIdle = false → t = u
  noticed : ∀ t op, (s.task t).waitsFor = some op → s.ready op = true →
    0 < s.queued ∨ s.reactor.statuses token = some .happened

omit [DecidableEq W] in
theorem isIdle_of_waitsFor {p : WaiterPc W} {op : Interest} (h : p.waitsFor = some op) :
    p.isIdle = false := by
  cases p with
  | blocked | parked => rfl
  | idle | trying => cases h

omit [DecidableEq W] [DecidableEq τ] in
/-- A task that is in a call is the only one, so it polls alone. -/
theorem Readiness.alone (h : Readiness token s) {t : τ} (ht : (s.task t).isIdle = false) :
    ∀ u, u ≠ t → (s.task u).isParked = false := by
  intro u hut
  cases hu : s.task u with
  | parked op w => exact absurd (h.single u t (by rw [hu]; rfl) ht) hut
  | idle | trying | blocked => rfl

omit [DecidableEq W] in
/-- The one task that is in a call moves within it. -/
theorem Readiness.single_setTask (h : Readiness token s) {t : τ} {p : WaiterPc W}
    (ht : (s.task t).isIdle = false ∨ p.isIdle = true) {u v : τ}
    (hu : ((s.setTask t p).task u).isIdle = false)
    (hv : ((s.setTask t p).task v).isIdle = false) : u = v := by
  have hback : ∀ x, ((s.setTask t p).task x).isIdle = false → (s.task x).isIdle = false := by
    intro x hx
    by_cases hxt : x = t
    · subst hxt
      rcases ht with ht | hp
      · exact ht
      · simp [setTask, hp] at hx
    · simpa [setTask, hxt] using hx
  exact h.single u v (hback u hu) (hback v hv)

omit [DecidableEq W] in
/-- The task that moves does not wait for the socket afterwards. -/
theorem Readiness.noticed_setTask (h : Readiness token s) {t : τ} {p : WaiterPc W}
    (hp : p.waitsFor = none) {u : τ} {op : Interest}
    (hu : ((s.setTask t p).task u).waitsFor = some op) (hready : s.ready op = true) :
    0 < s.queued ∨ s.reactor.statuses token = some .happened := by
  by_cases hut : u = t
  · subst hut
    simp [setTask, hp] at hu
  · exact h.noticed u op (by simpa [setTask, hut] using hu) hready

/-- One step, with one task at a time. -/
theorem Readiness.next (h : Readiness token s) (hone : OneAtATime s a)
    (hs : Next token owner s a s') : Readiness token s' := by
  have halone : Alone s a := by
    cases hs with
    | park ht | resume ht => exact h.alone (isIdle_of_waitsFor ht)
    | _ => trivial
  have hwaiters := h.toWaiters.next halone hs
  cases hs with
  | @start t op ht =>
    refine ⟨hwaiters, fun u v hu hv => ?_, fun u op' => h.noticed_setTask rfl⟩
    have hall : ∀ x, ((s.setTask t (.trying op)).task x).isIdle = false → x = t := by
      intro x hx
      by_contra hxt
      rw [show (s.setTask t (.trying op)).task x = s.task x from Function.update_of_ne hxt ..,
        hone x hxt] at hx
      cases hx
    rw [hall u hu, hall v hv]
  | done ht =>
    exact ⟨hwaiters, fun u v => h.single_setTask (.inr rfl), fun u op' => h.noticed_setTask rfl⟩
  | @wouldBlock t op ht hready =>
    refine ⟨hwaiters, fun u v => h.single_setTask (.inl (by rw [ht]; rfl)),
      fun u op' hu hready' => ?_⟩
    by_cases hut : u = t
    · -- The socket was not ready just now.
      subst hut
      have hop : op = op' := by simpa [setTask, WaiterPc.waitsFor] using hu
      rw [← hop] at hready'
      exact absurd (hready.symm.trans hready') (by simp)
    · exact h.noticed u op' (by simpa [setTask, hut] using hu) hready'
  | @park t op waker r ht _ hstatus =>
    refine ⟨hwaiters, fun u v => h.single_setTask (.inl (isIdle_of_waitsFor ht)),
      fun u op' hu hready => .inl ?_⟩
    have hu' : (s.task u).waitsFor = some op' := by
      by_cases hut : u = t
      · subst hut
        rw [ht]
        simpa [setTask, WaiterPc.waitsFor] using hu
      · simpa [setTask, hut] using hu
    exact (h.noticed u op' hu' hready).resolve_right hstatus
  | @resume t op waker r ht =>
    refine ⟨hwaiters, fun u v => h.single_setTask (.inl (isIdle_of_waitsFor ht)),
      fun u op' hu => ?_⟩
    -- The mark is gone, and so is every other waiter.
    by_cases hut : u = t
    · subst hut
      simp [setTask, WaiterPc.waitsFor] at hu
    · have hidle := isIdle_of_waitsFor (show (s.task u).waitsFor = some op' by
        simpa [setTask, hut] using hu)
      exact absurd (h.single u t hidle (isIdle_of_waitsFor ht)) hut
  | abandon =>
    exact ⟨hwaiters, fun u v => h.single_setTask (.inr rfl), fun u op' => h.noticed_setTask rfl⟩
  | @becomeReady i =>
    refine ⟨hwaiters, h.single, fun u op hu hready => ?_⟩
    by_cases hi : s.ready i = true
    · have hready' : s.ready op = true := by
        by_cases hop : op = i
        · rw [hop, hi]
        · simpa [hop] using hready
      simpa [hi] using h.noticed u op hu hready'
    · exact .inl (by simp [hi])
  | @becomeUnready i =>
    refine ⟨hwaiters, h.single, fun u op hu hready => ?_⟩
    by_cases hop : op = i
    · simp [hop] at hready
    · exact h.noticed u op hu (by simpa [hop] using hready)
  | event _ _ hr => exact ⟨hwaiters, h.single, fun _ _ _ _ => .inr hr⟩

theorem readiness (h : (socket token owner).ReachableUnder OneAtATime s) : Readiness token s := by
  refine h.invariant ?_ fun s a s' hI hc hs => hI.next hc (next_of_step hs)
  intro s hidle
  exact
    { waits := fun t op w ht => by simp [hidle t] at ht
      prompted := fun t ht => by simp [hidle t, WaiterPc.isParked] at ht
      fresh := fun t op ht => by simp [hidle t] at ht
      single := fun t u ht => by simp [hidle t, WaiterPc.isIdle] at ht
      noticed := fun t op ht => by simp [hidle t, WaiterPc.waitsFor] at ht }

/-- One task at a time, any wakers, any order of polls, events and changes of the socket, any
status left over from before: while a task is parked, its waker not woken since its last poll, on a
socket that is ready for its operation, an event is queued. -/
theorem readiness_kept (h : (socket token owner).ReachableUnder OneAtATime s) {t : τ}
    {op : Interest} {waker : W} (ht : s.task t = .parked op waker) (hwoken : s.woken t = false)
    (hready : s.ready op = true) : 0 < s.queued := by
  have hr := readiness h
  have hdue : s.due t = false := by
    by_contra hd
    have := (hr.prompted t (by rw [ht]; rfl) (by simpa using hd)).2
    exact absurd (hwoken.symm.trans this) (by simp)
  have hstatus := hr.waits t op waker ht hdue
  refine (hr.noticed t op (by rw [ht]; rfl) hready).resolve_right fun hh => ?_
  rw [hstatus] at hh
  cases hh

/-- A wait is abandoned, its event marks the token, the next call takes the stale mark and parks,
and the socket becomes ready. -/
theorem readiness_kept_staleMark :
    ∃ s, (socket 1 (fun _ : Bool => ())).ReachableUnder OneAtATime s ∧ 0 < s.queued := by
  obtain ⟨s, hs, hp⟩ := TransitionSystem.exists_reachableUnder
    (S := socket 1 (fun _ : Bool => ())) (C := OneAtATime) (s := new) (fun _ => rfl)
    [.start () .readable, .attempt (), .poll () true, .abandon (), .becomeReady .writable, .event,
      .start () .readable, .attempt (), .poll () true, .attempt (), .poll () false,
      .becomeReady .readable]
    (p := fun s => s.task () = .parked .readable false ∧ s.woken () = false ∧
      s.ready .readable = true) (by decide)
  exact ⟨s, hs, readiness_kept hs hp.1 hp.2.1 hp.2.2⟩

end SocketState

end Hooch
