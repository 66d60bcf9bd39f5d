import Hooch.Task.Dispatch

/-!
# Delivery in the order of registration

A task that finds an executor waiting is handed over past the queue of waiting tasks, and
`executor_ready` lets the aborted tasks at the front of that queue go. The order of registration
is kept all the same (`delivered_in_order`), because no task waits while an executor does; this
is one clause of the invariant `InOrder`.
-/

namespace Hooch

namespace Dispatch

variable {τ : Type*} [DecidableEq τ] {ids : List ExecutorId} {s s' : Dispatch τ}

/-- The registrations sent to executors, in order. -/
def sentOf (log : List (Action (Registered τ))) : List (Registered τ) :=
  log.filterMap fun
    | .sent _ r => some r
    | _ => none

/-- The registrations whose abort flag was found set. -/
def skippedOf (log : List (Action (Registered τ))) : List (Registered τ) :=
  log.filterMap fun
    | .skipped r => some r
    | _ => none

/-- The registrations that were not skipped. -/
def kept (registered : List (Registered τ)) (log : List (Action (Registered τ))) :
    List (Registered τ) :=
  registered.filter fun r => r ∉ skippedOf log

section Log

omit [DecidableEq τ]

variable {l m : List (Action (Registered τ))} {r : Registered τ} {e : ExecutorId}

@[simp] theorem sentOf_append : sentOf (l ++ m) = sentOf l ++ sentOf m := List.filterMap_append
@[simp] theorem skippedOf_append : skippedOf (l ++ m) = skippedOf l ++ skippedOf m :=
  List.filterMap_append
@[simp] theorem sentOf_sent : sentOf [.sent e r] = [r] := rfl
@[simp] theorem skippedOf_sent : skippedOf [.sent e r] = [] := rfl
@[simp] theorem sentOf_parked : sentOf [(.parked e : Action (Registered τ))] = [] := rfl
@[simp] theorem skippedOf_parked : skippedOf [(.parked e : Action (Registered τ))] = [] := rfl
@[simp] theorem sentOf_queued : sentOf [.queued r] = [] := rfl
@[simp] theorem skippedOf_queued : skippedOf [.queued r] = [] := rfl
@[simp] theorem sentOf_skipped (rs : List (Registered τ)) : sentOf (rs.map .skipped) = [] := by
  simp [sentOf, List.filterMap_map]
@[simp] theorem skippedOf_skipped (rs : List (Registered τ)) :
    skippedOf (rs.map .skipped) = rs := by
  simp [skippedOf, List.filterMap_map]

end Log

/-- The invariant of the order of delivery. -/
structure InOrder (s : Dispatch τ) : Prop where
  numbers : ∀ r ∈ s.registered, r.number < s.registered.length
  nodup : s.registered.Nodup
  skipped : skippedOf s.log ⊆ s.registered
  order : sentOf s.log ++ s.tm.waitingTasks.items = kept s.registered s.log
  idle : s.tm.waitingExecutors.items ≠ [] → s.tm.waitingTasks.items = []

theorem InOrder.fresh_notMem (h : InOrder s) (t : τ) : s.fresh t ∉ s.registered := fun hmem =>
  lt_irrefl _ (h.numbers _ hmem)

theorem InOrder.numbers_append (h : InOrder s) (t : τ) :
    ∀ r ∈ s.registered ++ [s.fresh t], r.number < (s.registered ++ [s.fresh t]).length := by
  intro r hr
  rw [List.length_append, List.length_singleton]
  rcases List.mem_append.1 hr with hr | hr
  · exact Nat.lt_succ_of_lt (h.numbers r hr)
  · rw [List.mem_singleton.1 hr]
    exact Nat.lt_succ_self _

theorem InOrder.nodup_append (h : InOrder s) (t : τ) : (s.registered ++ [s.fresh t]).Nodup := by
  rw [List.nodup_append_comm]
  exact List.nodup_cons.2 ⟨h.fresh_notMem t, h.nodup⟩

/-- A registration that was not skipped is kept, behind the others. -/
theorem kept_append {rs : List (Registered τ)} {log : List (Action (Registered τ))}
    {r : Registered τ} (h : r ∉ skippedOf log) : kept (rs ++ [r]) log = kept rs log ++ [r] := by
  simp [kept, h]

/-- The log matters only for what it skips. -/
theorem kept_congr {rs : List (Registered τ)} {log log' : List (Action (Registered τ))}
    (h : skippedOf log' = skippedOf log) : kept rs log' = kept rs log := by
  unfold kept
  rw [h]

/-- Skipping `m` leaves the rest of what was kept. -/
theorem kept_skip {rs l m r : List (Registered τ)} {log log' : List (Action (Registered τ))}
    (hlog : skippedOf log' = skippedOf log ++ m) (hrs : rs.Nodup)
    (h : kept rs log = l ++ (m ++ r)) : kept rs log' = l ++ r := by
  have hnodup : (l ++ (m ++ r)).Nodup := h ▸ hrs.filter _
  obtain ⟨-, hmr, hdisj⟩ := List.nodup_append.1 hnodup
  obtain ⟨-, -, hdisj'⟩ := List.nodup_append.1 hmr
  have hl : l.filter (fun x => x ∉ m) = l := List.filter_eq_self.2 fun x hx => by
    simpa using fun hm => hdisj x hx x (List.mem_append_left _ hm) rfl
  have hm : m.filter (fun x => x ∉ m) = [] := List.filter_eq_nil_iff.2 fun x hx => by simpa
  have hr : r.filter (fun x => x ∉ m) = r := List.filter_eq_self.2 fun x hx => by
    simpa using fun hm => hdisj' x hm x hx rfl
  have hfilter : kept rs log' = (kept rs log).filter fun x => x ∉ m := by
    unfold kept
    rw [hlog, List.filter_filter]
    congr 1
    funext x
    simp [and_comm]
  rw [hfilter, h, List.filter_append, List.filter_append, hl, hm, hr, List.nil_append]

theorem InOrder.fresh_notMem_skipped (h : InOrder s) (t : τ) : s.fresh t ∉ skippedOf s.log :=
  fun hmem => h.fresh_notMem t (h.skipped hmem)

theorem InOrder.registered (h : InOrder s) {t : τ} {tm : TaskManager (Registered τ)}
    {log : List (Action (Registered τ))}
    (hreg : s.tm.Registration s.hasAborted (s.fresh t) tm log) :
    InOrder { s with
      tm := tm
      registered := s.registered ++ [s.fresh t]
      log := s.log ++ log } := by
  have hsub : skippedOf s.log ⊆ s.registered ++ [s.fresh t] := fun r hr =>
    List.mem_append_left _ (h.skipped hr)
  have hkept : kept (s.registered ++ [s.fresh t]) s.log = kept s.registered s.log ++ [s.fresh t] :=
    kept_append (h.fresh_notMem_skipped t)
  cases hreg with
  | skipped ha =>
    have hlog : skippedOf (s.log ++ [.skipped (s.fresh t)]) = skippedOf s.log ++ [s.fresh t] := by
      rw [skippedOf_append]
      rfl
    refine ⟨h.numbers_append t, h.nodup_append t, ?_, ?_, h.idle⟩
    · rw [hlog]
      exact List.append_subset.2 ⟨hsub, fun r hr => List.mem_append_right _ hr⟩
    · have hrest := kept_skip (l := kept s.registered s.log) (r := []) hlog (h.nodup_append t)
        (by rw [hkept, List.append_nil])
      rw [hrest, List.append_nil, sentOf_append, ← h.order]
      simp [sentOf]
  | sent ha exec q ch ch' hpop hch hsend =>
    obtain ⟨hitems, -⟩ := BoundedQueue.pop_eq_some hpop
    have hnil : s.tm.waitingTasks.items = [] := h.idle (by rw [hitems]; simp)
    have horder := h.order
    rw [hnil, List.append_nil] at horder
    refine ⟨h.numbers_append t, h.nodup_append t, by simpa using hsub, ?_, fun _ => hnil⟩
    have hsame : kept (s.registered ++ [s.fresh t]) (s.log ++ [.sent exec (s.fresh t)]) =
        kept (s.registered ++ [s.fresh t]) s.log := kept_congr (by simp)
    rw [hsame, hkept, ← horder]
    simp [hnil]
  | queued ha q hnone hpush =>
    obtain ⟨-, -, hitems⟩ := BoundedQueue.push_eq_some hpush
    refine ⟨h.numbers_append t, h.nodup_append t, by simpa using hsub, ?_,
      fun hne => absurd hnone hne⟩
    have hsame : kept (s.registered ++ [s.fresh t]) (s.log ++ [.queued (s.fresh t)]) =
        kept (s.registered ++ [s.fresh t]) s.log := kept_congr (by simp)
    rw [hsame, hkept, ← h.order]
    simp [hitems]

theorem InOrder.readied (h : InOrder s) {e : ExecutorId} {tm : TaskManager (Registered τ)}
    {log : List (Action (Registered τ))} (hready : s.tm.Readying s.hasAborted e tm log) :
    InOrder { s with
      tm := tm
      loop := Function.update s.loop e .recv
      log := s.log ++ log } := by
  have hwaits : ∀ r ∈ s.tm.waitingTasks.items, r ∈ s.registered := fun r hr =>
    List.mem_of_mem_filter (h.order ▸ List.mem_append_right _ hr)
  cases hready with
  | sent skipped task q ch ch' hskipped ha hitems hbound hch hsend =>
    rw [hitems] at hwaits
    refine ⟨h.numbers, h.nodup, ?_, ?_, fun hne => ?_⟩
    · simpa using List.append_subset.2
        ⟨h.skipped, fun r hr => hwaits r (List.mem_append_left _ hr)⟩
    · have horder := h.order
      rw [hitems] at horder
      rw [kept_skip (by simp) h.nodup horder.symm]
      simp
    · have hnil := h.idle hne
      rw [hitems] at hnil
      simp at hnil
  | parked skipped q q' hskipped hitems hempty hbound hpush =>
    rw [hitems] at hwaits
    refine ⟨h.numbers, h.nodup, ?_, ?_, fun _ => hempty⟩
    · simpa using List.append_subset.2 ⟨h.skipped, hwaits⟩
    · have horder := h.order
      rw [hitems] at horder
      have hkept : kept s.registered s.log = sentOf s.log ++ (skipped ++ []) := by
        rw [← horder, List.append_nil]
      rw [kept_skip (by simp) h.nodup hkept]
      simp [hempty]

theorem InOrder.next {a : Label τ} (h : InOrder s) (hacc : Accounted ids s) (hs : Next s a s')
    (hfull : .tasksFull ∉ s'.faults) : InOrder s' := by
  cases hs with
  | registered hreg => exact h.registered hreg
  | registerFault hreg =>
    have hf := hacc.balanced.register_error hreg
    simp [hf] at hfull
  | setAbort => exact ⟨h.numbers, h.nodup, h.skipped, h.order, h.idle⟩
  | recv hloop hrecv =>
    obtain ⟨ch, ch', -, -, rfl⟩ := TaskManager.recvTask_eq_some hrecv
    exact ⟨h.numbers, h.nodup, h.skipped, h.order, h.idle⟩
  | finish hloop hrecv =>
    obtain ⟨ch, ch', -, -, rfl⟩ := TaskManager.recvTask_eq_some hrecv
    exact ⟨h.numbers, h.nodup, h.skipped, h.order, h.idle⟩
  | run hloop => exact ⟨h.numbers, h.nodup, h.skipped, h.order, h.idle⟩
  | readied hloop hready => exact h.readied hready
  | readyFault hloop hready => exact ⟨h.numbers, h.nodup, h.skipped, h.order, h.idle⟩

/-- What a step skips had its abort flag set; what it sends had not, and is put into the channel of
the executor. -/
theorem logged_of_next {a : Label τ} (hs : Next s a s') : ∃ log, s'.log = s.log ++ log ∧
    (∀ r ∈ skippedOf log, s.hasAborted r = true) ∧ (∀ r ∈ sentOf log, s.hasAborted r = false) ∧
      ∀ e r, .sent e r ∈ log → s'.tm.inbox e = s.tm.inbox e ++ [.task r] := by
  cases hs with
  | @registered t tm log hreg =>
    refine ⟨log, rfl, ?_, ?_, fun e r hsent => hreg.sends hsent⟩
    · cases hreg with
      | skipped ha => simpa [skippedOf] using ha
      | sent | queued => simp
    · cases hreg with
      | skipped => simp [sentOf]
      | sent ha => simpa using ha
      | queued => simp
  | @readied e tm log hloop hready =>
    refine ⟨log, rfl, ?_, ?_, fun e r hsent => hready.sends hsent⟩
    · cases hready with
      | sent skipped task q ch ch' hskipped => simpa using hskipped
      | parked skipped q q' hskipped => simpa using hskipped
    · cases hready with
      | sent skipped task q ch ch' hskipped ha => simpa using ha
      | parked => simp
  | _ => exact ⟨[], (List.append_nil _).symm, by simp [skippedOf], by simp [sentOf], by simp⟩

/-- The tasks that the steps of a run register. -/
def registrations (as : List (Label τ)) : List τ :=
  as.filterMap fun
    | .register t => some t
    | _ => none

theorem registered_of_next {a : Label τ} (hs : Next s a s') :
    s'.registered.map Registered.task = s.registered.map Registered.task ++ registrations [a] := by
  cases hs <;> simp [registrations, fresh]

/-- The registrations of a run are those of its labels, in order. -/
theorem registered_of_run {as : List (Label τ)} (h : (dispatch ids).run s as = some s') :
    s'.registered.map Registered.task = s.registered.map Registered.task ++ registrations as := by
  induction as generalizing s with
  | nil =>
    cases h
    simp [registrations]
  | cons a as ih =>
    rw [TransitionSystem.run_cons, Option.bind_eq_some_iff] at h
    obtain ⟨t, ht, h⟩ := h
    rw [ih h, registered_of_next (next_of_step ht), List.append_assoc]
    congr 1
    simp only [registrations, ← List.filterMap_append, List.singleton_append]

/-- A fault stays recorded. -/
theorem faults_subset {a : Label τ} (hs : Next s a s') : s.faults ⊆ s'.faults := by
  cases hs with
  | registerFault | readyFault => exact List.subset_append_left _ _
  | _ => exact List.Subset.refl _

theorem inOrder (h : (dispatch ids).Reachable s) (hfull : .tasksFull ∉ s.faults) :
    InOrder s := by
  have hinv : Accounted ids s ∧ (.tasksFull ∉ s.faults → InOrder s) := by
    refine h.invariant (I := fun s => Accounted ids s ∧ (.tasksFull ∉ s.faults → InOrder s))
      ?_ fun s a s' ⟨hacc, hI⟩ hs => ?_
    · intro s hs
      refine ⟨accounted (.init hs), fun _ => ?_⟩
      obtain ⟨tm, abort, htm, hids, rfl⟩ := hs
      obtain ⟨htasks, -⟩ := TaskManager.registerExecutors_eq_ok htm
      exact ⟨by simp, by simp, by simp [skippedOf], by rw [htasks]; rfl,
        fun _ => by rw [htasks]; rfl⟩
    · have hnext := next_of_step hs
      refine ⟨hacc.next hnext, fun hfull => ?_⟩
      exact (hI fun hmem => hfull (faults_subset hnext hmem)).next hacc hnext hfull
  exact hinv.2 hfull

/-- As long as no push on the queue of waiting tasks failed: the registrations sent to executors,
followed by those that wait, are the registrations made, in order, without those whose abort flag
was found set; and no task waits while an executor does. The registrations made are those of the
run, what a step skips has its abort flag set then, and what it sends has not and is put into the
channel of the executor. -/
theorem delivered_in_order (h : (dispatch ids).Reachable s) (hfull : .tasksFull ∉ s.faults) :
    sentOf s.log ++ s.tm.waitingTasks.items =
        s.registered.filter (fun r => r ∉ skippedOf s.log) ∧
      (s.tm.waitingExecutors.items ≠ [] → s.tm.waitingTasks.items = []) ∧
      (∀ as s', (dispatch ids).run s as = some s' → s'.registered.map Registered.task =
        s.registered.map Registered.task ++ registrations as) ∧
      ∀ a s', (dispatch ids).step s a = some s' → ∃ log, s'.log = s.log ++ log ∧
        (∀ r ∈ skippedOf log, s.hasAborted r = true) ∧
        (∀ r ∈ sentOf log, s.hasAborted r = false) ∧
        ∀ e r, .sent e r ∈ log → s'.tm.inbox e = s.tm.inbox e ++ [.task r] :=
  ⟨(inOrder h hfull).order, (inOrder h hfull).idle, fun _ _ => registered_of_run,
    fun _ _ hs => logged_of_next (next_of_step hs)⟩

/-- One executor and three tasks, of which the second is aborted while it waits. -/
def abortedWhileWaiting : List (Label ℕ) :=
  [.register 5, .register 6, .register 7, .setAbort 6 true, .recv 0, .run 0, .ready 0]

theorem delivered_in_order_abortedWhileWaiting : ∃ s : Dispatch ℕ,
    sentOf s.log = [⟨0, 5⟩, ⟨2, 7⟩] ∧ sentOf s.log ++ s.tm.waitingTasks.items =
      s.registered.filter fun r => r ∉ skippedOf s.log := by
  obtain ⟨s, hs, hfull, hsent⟩ := TransitionSystem.exists_reachableUnder (S := dispatch [0])
    (C := fun _ _ => True)
    (s := ⟨.registeredWith [0], fun _ => false, fun _ => .recv, [], [], []⟩)
    ⟨_, _, rfl, by decide, rfl⟩ abortedWhileWaiting
    (p := fun s => .tasksFull ∉ s.faults ∧ sentOf s.log = [⟨0, 5⟩, ⟨2, 7⟩]) (by decide)
  exact ⟨s, hsent, (delivered_in_order hs hfull).1⟩

end Dispatch

end Hooch
