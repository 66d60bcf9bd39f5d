import Hooch.Operations

/-!
# Wake-ups of file operations

A file operation announces itself before its work is done: its tag goes into the tag buffer when
it is opened and once more in its first poll, and the pool thread requests a mio wake when the
result is stored. A wake requested by anything else in between takes both tags out of the buffer,
and the wake that matters finds none.

* `Announced.next`: the tag of an operation stays on its way until the task is woken to its result,
  unless a lookup spends it (`Kept`);
* `early_wake_spends_tags`: one file, one send in between, and the task sleeps on its result;
* `file_wakes_kept`: the main result, for any number of operations of all kinds.
-/

namespace Hooch

/-- The operation is a file operation that was opened, and its future was not dropped. -/
def OperationPc.ofFile : OperationPc → Bool
  | .opened | .registered | .stored | .parked => true
  | _ => false

/-- The first poll of the file operation has registered its tag. -/
def OperationPc.announced : OperationPc → Bool
  | .registered | .stored | .parked => true
  | _ => false

/-- The waker of the file operation is stored. -/
def OperationPc.listens : OperationPc → Bool
  | .stored | .parked => true
  | _ => false

namespace Operations

variable {π : Type*} [DecidableEq π] {g : Tagging π} {s s' : Operations π} {a : OperationLabel π}

/-- The tag of the operation is in the tag buffer or about to be looked up. -/
def OnItsWay (g : Tagging π) (s : Operations π) (p : π) : Prop :=
  g.tag p ∈ s.reactor.reactorTagBuffer.items ∨ s.reactor.pc = .popped (g.tag p)

/-- The task sleeps on a result that is there: the file operation's last poll returned `Pending`
and its task was not woken since, its result is stored and its job finished, no mio wake is pending
and the reactor thread is idle. -/
def Lost (s : Operations π) (p : π) : Prop :=
  s.op p = .parked ∧ s.woken p = false ∧ s.result p = true ∧ s.job p = .finished ∧ s.reactor.Idle

/-- A lookup of the tag of a file operation, after its first poll has registered it, comes when the
result is stored, or while the buffer holds the tag once more. -/
def Kept (g : Tagging π) (s : Operations π) : OperationLabel π → Prop
  | .reactor => ∀ p, (s.op p).announced = true → s.reactor.pc = .popped (g.tag p) →
      s.result p = true ∨ g.tag p ∈ s.reactor.reactorTagBuffer.items
  | _ => True

/-! ### What holds in every run -/

/-- Where one operation, its job, its result and its waker can be. -/
structure Sound (g : Tagging π) (s : Operations π) (p : π) : Prop where
  kind : (s.op p).ofFile = true → g.kind p = .file
  result : s.result p = true → s.op p = .parked ∨ s.op p = .dropped ∨ s.op p = .done
  job : s.job p ≠ .absent → s.op p = .parked ∨ s.op p = .dropped ∨ s.op p = .done
  waker : (s.op p).listens = true → s.reactor.reactorTags (g.tag p) = some p
  /-- After the job's wake, a tag that is left in the buffer will be popped. -/
  finished : g.kind p = .file → s.job p = .finished →
    g.tag p ∈ s.reactor.reactorTagBuffer.items →
    s.reactor.wakePending = true ∨ s.reactor.pc ≠ .polling

/-- A step of `p` touches no tag but its own, and takes no wake back. -/
structure Keeps (g : Tagging π) (p : π) (r r' : Reactor π) : Prop where
  tags : ∀ tag, tag ≠ g.tag p → r'.reactorTags tag = r.reactorTags tag
  buffer : ∀ tag, tag ≠ g.tag p →
    (tag ∈ r'.reactorTagBuffer.items ↔ tag ∈ r.reactorTagBuffer.items)
  wake : r.wakePending = true → r'.wakePending = true
  pc : r'.pc = r.pc

section Kept

omit [DecidableEq π]

theorem Keeps.refl (p : π) (r : Reactor π) : Keeps g p r r :=
  ⟨fun _ _ => rfl, fun _ _ => Iff.rfl, id, rfl⟩

theorem Keeps.mioWake (p : π) (r : Reactor π) : Keeps g p r r.mioWake :=
  ⟨fun _ _ => rfl, fun _ _ => Iff.rfl, fun _ => rfl, rfl⟩

theorem Keeps.storeWakerChannel (p q : π) (r : Reactor π) :
    Keeps g p r (r.storeWakerChannel (g.tag p) q) :=
  ⟨fun _ htag => Function.update_of_ne htag .., fun _ _ => Iff.rfl, id, rfl⟩

theorem Keeps.register {p : π} {r : Reactor π} {q : BoundedQueue ReactorTag}
    (hitems : q.items = r.reactorTagBuffer.items ++ [g.tag p]) :
    Keeps g p r { r with reactorTagBuffer := q } := by
  refine ⟨fun _ _ => rfl, fun tag htag => ?_, id, rfl⟩
  simp [hitems, htag]

/-- The other file operations do not notice the step. -/
theorem Sound.other {p q : π} (h : Sound g s q) (hqp : q ≠ p)
    (hkeeps : Keeps g p s.reactor s'.reactor) (hop : s'.op q = s.op q)
    (hjob : s'.job q = s.job q) (hresult : s'.result q = s.result q) : Sound g s' q := by
  have htag : g.kind q = .file → g.tag q ≠ g.tag p := fun hkind he =>
    hqp (g.unique q p hkind he.symm).symm
  refine ⟨?_, ?_, ?_, fun hl => ?_, fun hkind hj hmem => ?_⟩
  · rw [hop]
    exact h.kind
  · rw [hop, hresult]
    exact h.result
  · rw [hop, hjob]
    exact h.job
  · rw [hop] at hl
    have hfile : (s.op q).ofFile = true := by
      cases hq : s.op q <;> simp_all [OperationPc.listens, OperationPc.ofFile]
    rw [hkeeps.tags _ (htag (h.kind hfile))]
    exact h.waker hl
  · rw [hjob] at hj
    rw [hkeeps.pc]
    exact (h.finished hkind hj ((hkeeps.buffer _ (htag hkind)).1 hmem)).imp_left hkeeps.wake

end Kept

/-- The step of `p` is all that changes. -/
theorem Sound.step {p : π} (h : ∀ q, Sound g s q) (hkeeps : Keeps g p s.reactor s'.reactor)
    (hop : ∀ q, q ≠ p → s'.op q = s.op q) (hjob : ∀ q, q ≠ p → s'.job q = s.job q)
    (hresult : ∀ q, q ≠ p → s'.result q = s.result q) (hp : Sound g s' p) (q : π) :
    Sound g s' q := by
  by_cases hqp : q = p
  · rwa [hqp]
  · exact (h q).other hqp hkeeps (hop q hqp) (hjob q hqp) (hresult q hqp)

/-- An operation without a result and without a job moves to a place that needs no waker, or has
just stored it. -/
theorem Sound.moveEarly {p : π} (h : ∀ q, Sound g s q) {pc old : OperationPc}
    (hold : s.op p = old) (hearly : old ≠ .parked ∧ old ≠ .dropped ∧ old ≠ .done)
    (hkind : pc.ofFile = true → g.kind p = .file) {r : Reactor π} {n : ℕ}
    (hkeeps : Keeps g p s.reactor r)
    (hwaker : pc.listens = true → r.reactorTags (g.tag p) = some p) (q : π) :
    Sound g { s.setOp p pc with reactor := r, begun := n } q := by
  obtain ⟨hparked, hdropped, hdone⟩ := hearly
  have hnone : ¬ (s.op p = .parked ∨ s.op p = .dropped ∨ s.op p = .done) := by
    rw [hold]
    simp [hparked, hdropped, hdone]
  have hjob : s.job p = .absent := by
    by_contra hj
    exact hnone ((h p).job hj)
  have hresult : s.result p = false := by
    by_contra hr
    exact hnone ((h p).result (by simpa using hr))
  refine Sound.step (p := p) h ?_ (fun q hqp => ?_) (fun q _ => ?_) (fun q _ => ?_) ?_ q
  · exact hkeeps
  · simp [setOp, hqp]
  · rfl
  · rfl
  · exact
      { kind := by simpa [setOp] using hkind
        result := fun hr => absurd (hresult.symm.trans hr) (by simp)
        job := fun hj => absurd hjob hj
        waker := by simpa [setOp] using hwaker
        finished := fun _ hj => absurd (hjob.symm.trans hj) (by simp) }

/-- A registration of an operation that has no job yet. -/
theorem Sound.registers {p : π} (h : ∀ q, Sound g s q) {pc old : OperationPc} {tags : ℕ}
    (hold : s.op p = old) (hearly : old ≠ .parked ∧ old ≠ .dropped ∧ old ≠ .done)
    (hkind : pc.ofFile = true → g.kind p = .file) (hlistens : pc.listens = false)
    (hs : Registers g s p pc tags s') (q : π) : Sound g s' q := by
  cases hs with
  | room hbound hitems =>
    exact Sound.moveEarly h hold hearly hkind (.register hitems) (by simp [hlistens]) q
  | full =>
    exact Sound.moveEarly h (r := s.reactor) hold hearly
      (by simp [OperationPc.ofFile]) (.refl p _) (by simp [OperationPc.listens]) q

/-- The file operation has been given to the pool: only its place, its job and its result change. -/
theorem Sound.moveLate (h : ∀ q, Sound g s q) (p : π) (pc : OperationPc) (job : JobPc)
    (result : Bool) (woken : π → Bool) (hpc : pc = .parked ∨ pc = .dropped ∨ pc = .done)
    (hlistens : pc.listens = true → (s.op p).listens = true)
    (hjob : job = .finished → s.job p = .finished) (q : π) :
    Sound g { s.setOp p pc with
      job := Function.update s.job p job
      result := Function.update s.result p result
      woken := woken } q := by
  refine Sound.step (p := p) h ?_ (fun q hqp => ?_) (fun q hqp => ?_) (fun q hqp => ?_) ?_ q
  · exact .refl p _
  · simp [setOp, hqp]
  · simp [hqp]
  · simp [hqp]
  · have hplace : Function.update s.op p pc p = .parked ∨ Function.update s.op p pc p = .dropped ∨
        Function.update s.op p pc p = .done := by simpa using hpc
    exact
      { kind := fun hf => (h p).kind (by
          rcases hpc with rfl | rfl | rfl
          · have := hlistens rfl
            cases hq : s.op p <;> simp_all [OperationPc.listens, OperationPc.ofFile]
          · simp [setOp, OperationPc.ofFile] at hf
          · simp [setOp, OperationPc.ofFile] at hf)
        result := fun _ => hplace
        job := fun _ => hplace
        waker := fun hl => (h p).waker (hlistens (by simpa [setOp] using hl))
        finished := fun hkind hj => (h p).finished hkind (hjob (by simpa [setOp] using hj)) }

/-- Every step keeps every operation sound. -/
theorem Sound.next (h : ∀ q, Sound g s q) (hs : Next g s a s') (q : π) : Sound g s' q := by
  cases hs with
  | send hkind hp =>
    exact Sound.moveEarly h (r := s.reactor) hp (by simp)
      (by simp [OperationPc.ofFile]) (.refl _ _) (by simp [OperationPc.listens]) q
  | register hp hs =>
    exact Sound.registers h hp (by simp) (by simp [OperationPc.ofFile]) rfl hs q
  | wake hp =>
    exact Sound.moveEarly h (r := s.reactor.mioWake) (n := s.begun) hp (by simp)
      (by simp [OperationPc.ofFile]) (.mioWake _ _) (by simp [OperationPc.listens]) q
  | @listen p hkind =>
    refine Sound.step (p := p) h ?_ (fun q _ => ?_) (fun q _ => ?_) (fun q _ => ?_) ?_ q
    · exact .storeWakerChannel p p _
    · rfl
    · rfl
    · rfl
    · exact ⟨(h p).kind, (h p).result, (h p).job, fun _ => by simp [Reactor.storeWakerChannel],
        fun hfile => absurd (hkind.symm.trans hfile) (by simp)⟩
  | openFile hkind hp hs => exact Sound.registers h hp (by simp) (fun _ => hkind) rfl hs q
  | pollRegister hp hs =>
    exact Sound.registers h hp (by simp) (fun _ => (h _).kind (by rw [hp]; rfl)) rfl hs q
  | @pollStore p hp =>
    exact Sound.moveEarly h (r := s.reactor.storeWakerChannel (g.tag p) p) (n := s.begun) hp
      (by simp) (fun _ => (h p).kind (by rw [hp]; rfl)) (.storeWakerChannel p p _)
      (fun _ => by simp [Reactor.storeWakerChannel]) q
  | @pollSubmit p hp =>
    have hlate := Sound.moveLate h p .parked .queued (s.result p)
      (Function.update s.woken p false) (.inl rfl) (fun _ => by rw [hp]; rfl) (by simp) q
    rwa [Function.update_eq_self] at hlate
  | @pollReady p hp =>
    have hlate := Sound.moveLate h p .done (s.job p) false s.woken (.inr (.inr rfl))
      (by simp [OperationPc.listens]) id q
    rwa [Function.update_eq_self] at hlate
  | pollPending => exact ⟨(h q).kind, (h q).result, (h q).job, (h q).waker, (h q).finished⟩
  | @drop p hp =>
    have hlate := Sound.moveLate h p .dropped (s.job p) (s.result p) s.woken (.inr (.inl rfl))
      (by simp [OperationPc.listens]) id q
    rwa [Function.update_eq_self, Function.update_eq_self] at hlate
  | dropUnpolled hp =>
    exact Sound.moveEarly h (r := s.reactor) (n := s.begun) hp (by simp)
      (by simp [OperationPc.ofFile]) (.refl _ _) (by simp [OperationPc.listens]) q
  | @runJob p hj =>
    have hlate := Sound.moveLate h p (s.op p) .stored true s.woken ((h p).job (by rw [hj]; simp))
      id (by simp) q
    rwa [show s.setOp p (s.op p) = s by simp [setOp]] at hlate
  | @jobWake p hj =>
    refine Sound.step (p := p) h ?_ (fun q _ => ?_) (fun q hqp => ?_) (fun q _ => ?_) ?_ q
    · exact .mioWake p _
    · rfl
    · simp [hqp]
    · rfl
    · have hplace := (h p).job (by rw [hj]; simp)
      exact ⟨(h p).kind, (h p).result, fun _ => hplace, (h p).waker, fun _ _ _ => .inl rfl⟩
  | connect hkind hp hs =>
    exact Sound.registers h hp (by simp) (by simp [OperationPc.ofFile]) rfl hs q
  | connected hp =>
    exact Sound.moveEarly h (r := s.reactor) (n := s.begun) hp (by simp)
      (by simp [OperationPc.ofFile]) (.refl _ _) (by simp [OperationPc.listens]) q
  | reactor hr =>
    refine ⟨(h q).kind, (h q).result, (h q).job, fun hl => ?_, fun hkind hj hmem => ?_⟩
    · have hw := (h q).waker hl
      cases hr <;> exact hw
    · cases hr with
      | emptied hpc hitems => simp [hitems] at hmem
      | take | pop | found | missed => exact .inr (by simp)

theorem sound (h : (operations g).Reachable s) (p : π) : Sound g s p := by
  refine h.invariant (I := fun s => ∀ p, Sound g s p) ?_
    (fun s a s' hI hs => Sound.next hI (next_of_step hs)) p
  rintro s rfl p
  exact
    { kind := fun hf => by cases hf
      result := fun hr => by cases hr
      job := fun hj => absurd rfl hj
      waker := fun hl => by cases hl
      finished := fun _ hj => by cases hj }

/-! ### What becomes of the tag -/

/-- Once the first poll has registered it, the tag is on its way, or the task was woken to its
result. -/
def Announced (g : Tagging π) (s : Operations π) (p : π) : Prop :=
  (s.op p).announced = true →
    OnItsWay g s p ∨ (s.op p = .parked ∧ s.woken p = true ∧ s.result p = true)

section Announced

omit [DecidableEq π]

theorem Announced.of_not {p : π} (h : (s.op p).announced = false) : Announced g s p :=
  fun ha => absurd (h.symm.trans ha) (by simp)

theorem kind_of_announced {p : π} (h : Sound g s p) (hp : (s.op p).announced = true) :
    g.kind p = .file := by
  refine h.kind ?_
  cases hq : s.op p <;> simp_all [OperationPc.announced, OperationPc.ofFile]

/-- An announced operation whose result is there is parked, and the waker under its tag is its
own. -/
theorem Sound.waker_of_result {p : π} (h : Sound g s p) (ha : (s.op p).announced = true)
    (hresult : s.result p = true) :
    s.op p = .parked ∧ s.reactor.reactorTags (g.tag p) = some p := by
  have hparked : s.op p = .parked := by
    rcases h.result hresult with hp | hp | hp
    · exact hp
    · simp [hp, OperationPc.announced] at ha
    · simp [hp, OperationPc.announced] at ha
  exact ⟨hparked, h.waker (by rw [hparked]; rfl)⟩

/-- A step of another operation. -/
theorem Announced.other {p q : π} (h : Announced g s p) (hsound : Sound g s p) (hpq : p ≠ q)
    (hkeeps : Keeps g q s.reactor s'.reactor) (hop : s'.op p = s.op p)
    (hwoken : s'.woken p = s.woken p) (hresult : s'.result p = s.result p) :
    Announced g s' p := by
  intro ha
  rw [hop] at ha
  have htag : g.tag p ≠ g.tag q := fun he =>
    hpq (g.unique p q (kind_of_announced hsound ha) he.symm).symm
  rw [hop, hwoken, hresult]
  refine (h ha).imp_left (Or.imp (fun hmem => (hkeeps.buffer _ htag).2 hmem) fun hpc => ?_)
  rw [hkeeps.pc]
  exact hpc

end Announced

/-- An operation moves to a place that is not announced. -/
theorem Announced.leave {p q : π} {pc : OperationPc} (h : Announced g s p) (hsound : Sound g s p)
    (hpc : pc.announced = false) (hkeeps : Keeps g q s.reactor s'.reactor)
    (hop : s'.op = Function.update s.op q pc) (hwoken : s'.woken = s.woken)
    (hresult : p ≠ q → s'.result p = s.result p) : Announced g s' p := by
  by_cases hpq : p = q
  · subst hpq
    exact .of_not (by rw [hop, Function.update_self, hpc])
  · exact h.other hsound hpq hkeeps (by rw [hop, Function.update_of_ne hpq]) (by rw [hwoken])
      (hresult hpq)

/-- Some operation registers its tag, perhaps this one. -/
theorem Announced.registers {p q : π} (h : Announced g s p) (hsound : Sound g s p)
    {pc : OperationPc} {tags : ℕ} (hs : Registers g s q pc tags s') : Announced g s' p := by
  cases hs with
  | room hbound hitems =>
    by_cases hpq : p = q
    · subst hpq
      exact fun _ => .inl (.inl (by simp [hitems]))
    · refine h.other hsound hpq ?_ ?_ ?_ ?_
      · exact .register hitems
      · simp [setOp, hpq]
      · rfl
      · rfl
  | full => exact h.leave hsound rfl (.refl q _) rfl rfl fun _ => rfl

/-- The reactor thread moves on: the tag stays on its way, or finds the waker of a task whose
result is there. -/
theorem Announced.reactor {p : π} (h : Announced g s p) (hsound : Sound g s p)
    (hkept : Kept g s .reactor) {w : Option π} {r : Reactor π} (hr : s.reactor.ThreadNext w r)
    {n : ℕ} : Announced g { s with reactor := r, woken := s.wakes w, begun := n } p := by
  intro ha
  have hold := h ha
  cases hr with
  | take hpc =>
    exact hold.imp_left fun hway => .inl (hway.resolve_right (by simp [hpc]))
  | @pop tag q hpc hitems =>
    refine hold.imp_left fun hway => ?_
    have hmem := hway.resolve_right (by simp [hpc])
    rw [hitems] at hmem
    rcases List.mem_cons.1 hmem with rfl | hmem
    · exact .inr rfl
    · exact .inl hmem
  | emptied hpc hitems =>
    refine .inr (hold.resolve_left ?_)
    rintro (hmem | hpopped)
    · simp [hitems] at hmem
    · simp [hpc] at hpopped
  | @found tag w hpc hw =>
    by_cases htag : tag = g.tag p
    · subst htag
      rcases hkept p ha hpc with hresult | hmem
      · obtain ⟨hparked, hwaker⟩ := hsound.waker_of_result ha hresult
        rw [hw, Option.some.injEq] at hwaker
        subst hwaker
        exact .inr ⟨hparked, by simp [wakes], hresult⟩
      · exact .inl (.inl hmem)
    · rcases hold with hway | ⟨hparked, hwoken, hresult⟩
      · refine .inl (.inl (hway.resolve_right ?_))
        rw [hpc, ReactorPc.popped.injEq]
        exact htag
      · refine .inr ⟨hparked, ?_, hresult⟩
        show Function.update s.woken w true p = true
        by_cases hpw : p = w
        · subst hpw
          simp
        · rw [Function.update_of_ne hpw]
          exact hwoken
  | @missed tag hpc hw =>
    by_cases htag : tag = g.tag p
    · subst htag
      rcases hkept p ha hpc with hresult | hmem
      · obtain ⟨-, hwaker⟩ := hsound.waker_of_result ha hresult
        rw [hw] at hwaker
        cases hwaker
      · exact .inl (.inl hmem)
    · refine hold.imp_left fun hway => .inl (hway.resolve_right ?_)
      rw [hpc, ReactorPc.popped.injEq]
      exact htag

omit [DecidableEq π] in
/-- A place that is announced and not parked has its tag on its way. -/
theorem Announced.onItsWay {p : π} (h : Announced g s p) (ha : (s.op p).announced = true)
    (hnot : ¬ (s.op p = .parked ∧ s.woken p = true ∧ s.result p = true)) : OnItsWay g s p :=
  (h ha).resolve_right hnot

/-- One step that meets `Kept`. -/
theorem Announced.next {p : π} (h : Announced g s p) (hsound : Sound g s p) (hkept : Kept g s a)
    (hs : Next g s a s') : Announced g s' p := by
  cases hs with
  | register hp hs | openFile _ hp hs | pollRegister hp hs | connect _ hp hs =>
    exact h.registers hsound hs
  | reactor hr => exact h.reactor hsound hkept hr
  | listen => exact h
  | jobWake => exact h
  | @send q | @drop q | @dropUnpolled q | @connected q =>
    exact h.leave hsound rfl (.refl q _) rfl rfl fun _ => rfl
  | @wake q => exact h.leave hsound rfl (.mioWake q _) rfl rfl fun _ => rfl
  | @pollStore q hq =>
    by_cases hpq : p = q
    · subst hpq
      exact fun _ => .inl (h.onItsWay (by rw [hq]; rfl) (by simp [hq]))
    · exact h.other hsound hpq (.storeWakerChannel q q _) (by simp [setOp, hpq]) rfl rfl
  | @pollSubmit q hq =>
    by_cases hpq : p = q
    · subst hpq
      exact fun _ => .inl (h.onItsWay (by rw [hq]; rfl) (by simp [hq]))
    · exact h.other hsound hpq (.refl q _) (by simp [setOp, hpq]) (by simp [hpq]) rfl
  | @pollReady q hq hr =>
    exact h.leave hsound rfl (.refl q _) rfl rfl fun hpq => by simp [hpq]
  | @pollPending q hq hr =>
    by_cases hpq : p = q
    · subst hpq
      exact fun _ => .inl (h.onItsWay (by rw [hq]; rfl) (by simp [hr]))
    · exact h.other hsound hpq (.refl q _) rfl (by simp [hpq]) rfl
  | @runJob q hj =>
    by_cases hpq : p = q
    · subst hpq
      exact fun ha => (h ha).imp_right fun hwoken => ⟨hwoken.1, hwoken.2.1, by simp⟩
    · exact h.other hsound hpq (.refl q _) rfl rfl (by simp [hpq])

theorem announced (h : (operations g).ReachableUnder (Kept g) s) (p : π) : Announced g s p := by
  induction h with
  | init hinit =>
    cases hinit
    exact .of_not rfl
  | step hreach hkept hs ih => exact ih.next (sound hreach.reachable p) hkept (next_of_step hs)

/-! ### The results -/

/-- Any number of file operations, sends, connects and binds, any interleaving: as long as no
lookup spends the last tag of a file operation before its result is stored, no task sleeps on a
result that is there. -/
theorem file_wakes_kept (h : (operations g).ReachableUnder (Kept g) s) (p : π) : ¬ Lost s p := by
  rintro ⟨hparked, hwoken, hresult, hjob, hpc, hpending⟩
  have hsound := sound h.reachable p
  have ha : (s.op p).announced = true := by rw [hparked]; rfl
  rcases (announced h p).onItsWay ha (by simp [hwoken]) with hmem | hpopped
  · rcases hsound.finished (kind_of_announced hsound ha) hjob hmem with hw | hp
    · rw [hpending] at hw
      cases hw
    · exact hp hpc
  · rw [hpc] at hpopped
    cases hpopped

instance [Fintype π] (s : Operations π) : ∀ a, Decidable (Kept g s a)
  | .reactor => inferInstanceAs (Decidable (∀ _, _ → _ → _))
  | .send _ | .register _ | .wake _ | .listen _ | .openFile _ | .pollRegister _ | .pollStore _
  | .pollSubmit _ | .poll _ | .drop _ | .runJob _ | .jobWake _ | .connect _ | .connected _ =>
    inferInstanceAs (Decidable True)

instance (s : Operations π) (p : π) : Decidable (Lost s p) := inferInstanceAs (Decidable (_ ∧ _))

/-- One file operation and one send. -/
def fileAndSend : Tagging Bool where
  kind p := if p then .file else .send
  eager p := p
  tag p := if p then 0 else 1
  unique p q h := by cases p <;> cases q <;> simp at h ⊢

/-- The pool is fast: the job's own wake is the first, and wakes the task to its result. -/
theorem file_wakes_kept_fastPool :
    ∃ s, (operations fileAndSend).ReachableUnder (Kept fileAndSend) s ∧
      (s.op true = .parked ∧ s.result true = true ∧ s.woken true = true) ∧ ¬ Lost s true := by
  obtain ⟨s, hs, hp⟩ := TransitionSystem.exists_reachableUnder (S := operations fileAndSend)
    (C := Kept fileAndSend) (s := new) rfl
    [.openFile true, .pollRegister true, .pollStore true, .pollSubmit true, .runJob true,
      .jobWake true, .reactor, .reactor, .reactor, .reactor, .reactor, .reactor]
    (p := fun s => s.op true = .parked ∧ s.result true = true ∧ s.woken true = true) (by decide)
  exact ⟨s, hs, hp, file_wakes_kept hs true⟩

/-- A send in between requests a wake, and the reactor thread spends both tags of the file
operation, before the pool has run its job; the job's own wake finds an empty buffer. -/
theorem early_wake_spends_tags :
    ∃ s, (operations fileAndSend).Reachable s ∧ Lost s true :=
  TransitionSystem.exists_reachableUnder (S := operations fileAndSend) (C := fun _ _ => True)
    (s := new) rfl
    [.openFile true, .pollRegister true, .pollStore true, .pollSubmit true, .send false,
      .register false, .wake false, .reactor, .reactor, .reactor, .reactor, .reactor, .reactor,
      .reactor, .reactor, .poll true, .runJob true, .jobWake true, .reactor, .reactor]
    (by decide)

end Operations

end Hooch
