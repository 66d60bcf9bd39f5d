import Hooch.Fs.AsyncFile
import Hooch.Lib.TransitionSystem
import Hooch.Net.Tcp
import Hooch.Operations
import Hooch.Time.Sleep

/-!
# The wakers of the leaf futures

`Sleep`, `AsyncHoochFile`, `AsyncHoochTcpStream` and `AsyncHoochTcpListener` keep the waker of their
first poll, each in a place of its own, and later polls leave it there. So the event that completes
the future wakes the first waker, also if the future was polled with another one since. A file
operation is found through its tag, and its event wakes nobody if the tag was used up before.

* `Leaf`: a future with what it is in touch with, polled with any wakers in any interleaving with
  the others; `Latest` is what a user of the future counts on at the completing event;
* `Leaf.latest_iff`: the rule for a future that keeps its first waker;
* `SleepLeaf`, `FileLeaf`, `TcpLeaf`: the three kinds of futures; `FileLeaf.Happens` says what the
  job, the reactor thread and the others do to a file operation, one case each;
* `latest_iff_first`: the main result.
-/

namespace Hooch

/-- A future `F`, with all it is in touch with. `poll` says whether the poll is `Pending` and what
it leaves. `others` is a step of the others: what it leaves and, if it processes the event that
makes the future ready, the waker that it wakes. `heard` says that the event comes to the place
where the waker is. -/
structure Leaf (F W α : Type*) where
  poll : F → W → Option (Bool × F)
  others : F → α → Option (F × Option (Option W))
  heard : F → Bool := fun _ => true

namespace Leaf

variable {F W α : Type*}

/-- A run: the future, and the wakers of the polls that were `Pending`. -/
structure State (F W : Type*) where
  future : F
  pending : List W

/-- Who moves. -/
inductive Label (W α : Type*)
  | poll (waker : W)
  | others (a : α)

def step (leaf : Leaf F W α) (s : State F W) : Label W α → Option (State F W)
  | .poll waker => (leaf.poll s.future waker).map fun p =>
      ⟨p.2, if p.1 then s.pending ++ [waker] else s.pending⟩
  | .others a => (leaf.others s.future a).map fun p => { s with future := p.1 }

/-- The future `f` and its polls, in every interleaving. -/
def system (leaf : Leaf F W α) (f : F) : TransitionSystem (State F W) (Label W α) where
  init s := s = ⟨f, []⟩
  step := leaf.step

/-- The waker that the step wakes, if it processes the event that makes the future ready. -/
def woken (leaf : Leaf F W α) (s : State F W) : Label W α → Option (Option W)
  | .poll _ => none
  | .others a => (leaf.others s.future a).bind Prod.snd

/-- The event wakes the waker of the latest `Pending` poll. -/
def Latest (leaf : Leaf F W α) (s : State F W) (a : Label W α) : Prop :=
  ∀ w, leaf.woken s a = some w → w = s.pending.getLast?

/-- When the event is processed, it comes to the waker, and the latest `Pending` poll has the waker
of the first one. -/
def SameAsFirst (leaf : Leaf F W α) (s : State F W) (a : Label W α) : Prop :=
  (leaf.woken s a).isSome →
    leaf.heard s.future = true ∧ s.pending.getLast? = s.pending.head?

instance [DecidableEq W] (leaf : Leaf F W α) (s : State F W) (a : Label W α) :
    Decidable (leaf.Latest s a) :=
  match h : leaf.woken s a with
  | none => .isTrue fun w hw => by rw [h] at hw; cases hw
  | some w => decidable_of_iff (w = s.pending.getLast?) (by simp [Latest, h])

/-- In the run, every event that makes the future ready wakes the latest waker. -/
def WakesLatest (leaf : Leaf F W α) (f : F) (as : List (Label W α)) : Prop :=
  (leaf.system f).EachStep leaf.Latest ⟨f, []⟩ as

instance [DecidableEq W] (leaf : Leaf F W α) (f : F) (as : List (Label W α)) :
    Decidable (leaf.WakesLatest f as) :=
  inferInstanceAs (Decidable (TransitionSystem.EachStep ..))

/-- In the run, whenever such an event is processed, it comes to the waker and the latest waker is
the first one. -/
def PolledAlike (leaf : Leaf F W α) (f : F) (as : List (Label W α)) : Prop :=
  (leaf.system f).EachStep leaf.SameAsFirst ⟨f, []⟩ as

/-- The future keeps the waker of its first `Pending` poll, as `I` says. The event comes after that
poll, and wakes the waker if it comes to it, and nobody otherwise. -/
structure KeepsFirst (leaf : Leaf F W α) (I : F → List W → Prop) : Prop where
  pending : ∀ f ws w f', I f ws → leaf.poll f w = some (true, f') → I f' (ws ++ [w])
  ready : ∀ f ws w f', I f ws → leaf.poll f w = some (false, f') → I f' ws
  others : ∀ f ws a f' o, I f ws → leaf.others f a = some (f', o) →
    I f' ws ∧ ∀ w, o = some w → ws ≠ [] ∧
      (leaf.heard f = true ∧ w = ws.head? ∨ leaf.heard f = false ∧ w = none)

/-- The event wakes the first waker, if it comes to it. -/
theorem KeepsFirst.woken {leaf : Leaf F W α} {I : F → List W → Prop} (h : leaf.KeepsFirst I)
    {f f' : F} {ws : List W} {a : α} {w : Option W} (hf : I f ws)
    (hothers : leaf.others f a = some (f', some w)) (hheard : leaf.heard f = true) :
    w = ws.head? := by
  obtain ⟨-, ⟨-, hw⟩ | ⟨hnot, -⟩⟩ := (h.others _ _ _ _ _ hf hothers).2 w rfl
  · exact hw
  · rw [hheard] at hnot
    cases hnot

theorem latest_iff {leaf : Leaf F W α} {I : F → List W → Prop} (h : leaf.KeepsFirst I) {f : F}
    (hf : I f []) (as : List (Label W α)) : leaf.WakesLatest f as ↔ leaf.PolledAlike f as := by
  refine TransitionSystem.eachStep_congr (I := fun s => I s.future s.pending) ?_ ?_ hf as
  · intro s a s' hI hs
    cases a with
    | poll w =>
      simp only [system, step, Option.map_eq_some_iff, Prod.exists] at hs
      obtain ⟨b, f', hpoll, rfl⟩ := hs
      cases b with
      | true => exact h.pending _ _ _ _ hI hpoll
      | false => exact h.ready _ _ _ _ hI hpoll
    | others a =>
      simp only [system, step, Option.map_eq_some_iff, Prod.exists] at hs
      obtain ⟨f', o, hothers, rfl⟩ := hs
      exact (h.others _ _ _ _ _ hI hothers).1
  · intro s a hI
    cases a with
    | poll w => simp [Latest, SameAsFirst, woken]
    | others a =>
      simp only [Latest, SameAsFirst, woken]
      cases hothers : leaf.others s.future a with
      | none => simp
      | some p =>
        obtain ⟨f', o⟩ := p
        cases o with
        | none => simp
          | some w =>
          obtain ⟨hne, ⟨hheard, rfl⟩ | ⟨hnot, rfl⟩⟩ := (h.others _ _ _ _ _ hI hothers).2 w rfl
          · simp [hheard, eq_comm]
          · simp [hnot, hne, eq_comm]

/-- Before its first poll the future is `fresh`, and from then on it `holds` the waker of it. -/
def Kept (polled : Bool) (fresh : Prop) (holds : W → Prop) (ws : List W) : Prop :=
  polled = false ∧ fresh ∧ ws = [] ∨ polled = true ∧ ∃ w ws', ws = w :: ws' ∧ holds w

variable {polled : Bool} {fresh fresh' : Prop} {holds holds' : W → Prop} {ws : List W} {waker : W}

theorem Kept.first (h : Kept polled fresh holds ws) (hnot : polled = false)
    (hholds : holds' waker) : Kept true fresh' holds' (ws ++ [waker]) := by
  rcases h with ⟨-, -, rfl⟩ | ⟨hpolled, -⟩
  · exact .inr ⟨rfl, waker, [], rfl, hholds⟩
  · rw [hpolled] at hnot
    cases hnot

theorem Kept.later (h : Kept polled fresh holds ws) (hpolled : polled = true) :
    Kept polled fresh holds (ws ++ [waker]) := by
  rcases h with ⟨hnot, -, -⟩ | ⟨-, w, ws', rfl, hw⟩
  · rw [hpolled] at hnot
    cases hnot
  · exact .inr ⟨hpolled, w, ws' ++ [waker], rfl, hw⟩

theorem Kept.mono (h : Kept polled fresh holds ws) (hfresh : fresh → fresh')
    (hholds : ∀ w, holds w → holds' w) : Kept polled fresh' holds' ws := by
  rcases h with ⟨hnot, hf, rfl⟩ | ⟨hpolled, w, ws', rfl, hw⟩
  · exact .inl ⟨hnot, hfresh hf, rfl⟩
  · exact .inr ⟨hpolled, w, ws', rfl, hholds w hw⟩

theorem Kept.head (h : Kept polled fresh holds ws) (hstarted : ¬ fresh) :
    ∃ w, ws ≠ [] ∧ ws.head? = some w ∧ holds w := by
  rcases h with ⟨-, hfresh, -⟩ | ⟨-, w, ws', rfl, hw⟩
  · exact absurd hfresh hstarted
  · exact ⟨w, List.cons_ne_nil w ws', rfl, hw⟩

end Leaf

/-! ### Sleep -/

/-- A sleep at a moment, with the reactor. `expired` says that the event of its timer was
processed. -/
structure SleepLeaf (W : Type*) where
  sleep : Sleep
  reactor : Reactor W
  now : ℕ
  expired : Bool

/-- What happens around a sleep. -/
inductive SleepOther (W : Type*)
  | tick (now : ℕ)
  /-- The reactor thread processes the event of the timer. -/
  | expire
  /-- The others use the reactor, whose status for the token of the sleep is left to it. -/
  | reactor (r : Reactor W)

namespace SleepLeaf

variable {E W : Type*} [DecidableEq W]

/-- `sleep`, before its first poll. -/
def new (d : Duration) (token : Token) (r : Reactor W) (now : ℕ) : SleepLeaf W :=
  ⟨.fromDuration d token, r, now, false⟩

def leaf (k : Timers E) : Leaf (SleepLeaf W) W (SleepOther W) where
  poll f waker := (f.sleep.poll k f.now f.reactor waker).map fun p =>
    (p.1.isPending, { f with sleep := p.2.1, reactor := p.2.2 })
  others f
    | .tick now => some ({ f with now := now }, none)
    | .expire =>
        match f.sleep.timer with
        | some (some m) =>
            if m ≤ f.now ∧ f.expired = false then
              let (w, r) := f.reactor.event f.sleep.mioToken
              some ({ f with reactor := r, expired := true }, some w)
            else none
        | _ => none
    | .reactor r =>
        if r.statuses f.sleep.mioToken = f.reactor.statuses f.sleep.mioToken then
          some ({ f with reactor := r }, none)
        else none

/-- Until the event the status of the token awaits the first waker. -/
def First (f : SleepLeaf W) (ws : List W) : Prop :=
  f.sleep.hasPolled = false ∧ f.sleep.timer = none ∧ ws = [] ∨
    f.sleep.hasPolled = true ∧ ∃ w ws', ws = w :: ws' ∧
      (f.expired = false → f.reactor.statuses f.sleep.mioToken = some (.awaited w))

theorem keepsFirst (k : Timers E) : (leaf k : Leaf (SleepLeaf W) W _).KeepsFirst First where
  pending f ws waker f' hf hpoll := by
    simp only [leaf, Option.map_eq_some_iff, Prod.mk.injEq, Prod.exists] at hpoll
    obtain ⟨p, s, r, hpoll, hp, rfl⟩ := hpoll
    cases Sleep.polls_of_eq hpoll with
    | first hnot => exact Leaf.Kept.first hf hnot fun _ => by simp [Reactor.statusStore]
    | pending hpolled => exact Leaf.Kept.later hf hpolled
    | ready => cases hp
  ready f ws waker f' hf hpoll := by
    simp only [leaf, Option.map_eq_some_iff, Prod.mk.injEq, Prod.exists] at hpoll
    obtain ⟨p, s, r, hpoll, hp, rfl⟩ := hpoll
    cases Sleep.polls_of_eq hpoll with
    | ready => exact hf
    | _ => cases hp
  others f ws a f' o hf hothers := by
    cases a with
    | tick now =>
      cases hothers
      exact ⟨hf, fun _ h => by cases h⟩
    | expire =>
      simp only [leaf] at hothers
      split at hothers
      · rename_i m htimer
        rw [Option.ite_none_right_eq_some] at hothers
        obtain ⟨⟨-, hexpired⟩, hothers⟩ := hothers
        cases hothers
        obtain ⟨w, hne, hhead, hstatus⟩ := Leaf.Kept.head hf (by simp [htimer])
        refine ⟨Leaf.Kept.mono hf id (fun _ _ h => by cases h), fun v hv => ?_⟩
        cases hv
        refine ⟨hne, .inl ⟨rfl, ?_⟩⟩
        simp [Reactor.event, hstatus hexpired, hhead]
      · cases hothers
    | reactor r =>
      simp only [leaf, Option.ite_none_right_eq_some] at hothers
      obtain ⟨hsame, hothers⟩ := hothers
      cases hothers
      exact ⟨Leaf.Kept.mono hf id fun _ hstatus he => hsame.trans (hstatus he),
        fun _ h => by cases h⟩

end SleepLeaf

/-! ### Files -/

/-- How far the reactor thread is with the wake that the job requests. -/
inductive JobWake
  | untaken
  /-- The thread has taken the wake and empties the tag buffer. -/
  | taken
  | handled
  deriving DecidableEq

/-- A file operation with its job and the reactor. `tagLeft` says that the tag was still to be
looked up when the job stored the result, and `looked` that it was looked up since. -/
structure FileLeaf (P O R W : Type*) where
  file : AsyncHoochFile P O R
  reactor : Reactor W
  job : Option (BlockFn P O)
  stage : JobPc
  jobWake : JobWake
  tagLeft : Bool
  looked : Bool

/-- What happens around a file operation. -/
inductive FileOther (W : Type*)
  /-- The job runs its operation and stores the result. -/
  | run
  /-- The job calls `mio_waker().wake()`. -/
  | wake
  /-- The reactor thread takes a step. -/
  | thread
  /-- The others use the reactor. -/
  | reactor (r : Reactor W)

/-- What the others do to the reactor: the step of its thread is left to the thread, and the tag,
which is not theirs, to its operation. -/
structure Reactor.LeavesTag {W : Type*} (tag : ReactorTag) (r r' : Reactor W) : Prop where
  pc : r'.pc = r.pc
  reactorTags : r'.reactorTags tag = r.reactorTags tag
  items : r.reactorTagBuffer.items <+: r'.reactorTagBuffer.items
  others : tag ∉ r'.reactorTagBuffer.items.drop r.reactorTagBuffer.items.length
  wakePending : r.wakePending = true → r'.wakePending = true

instance {W : Type*} [DecidableEq W] (tag : ReactorTag) (r r' : Reactor W) :
    Decidable (r.LeavesTag tag r') :=
  decidable_of_iff
    ((r'.pc = r.pc ∧ r'.reactorTags tag = r.reactorTags tag) ∧
      (r.reactorTagBuffer.items <+: r'.reactorTagBuffer.items ∧
        tag ∉ r'.reactorTagBuffer.items.drop r.reactorTagBuffer.items.length) ∧
      (r.wakePending = true → r'.wakePending = true))
    ⟨fun ⟨⟨hpc, htags⟩, ⟨hitems, hothers⟩, hwake⟩ => ⟨hpc, htags, hitems, hothers, hwake⟩,
      fun h => ⟨⟨h.pc, h.reactorTags⟩, ⟨h.items, h.others⟩, h.wakePending⟩⟩

namespace FileLeaf

variable {P O R W : Type*}

/-- The operation, before its first poll. -/
def new (path : P) (fileOperation : FileOperation O) (tag : ReactorTag) (r : Reactor W) :
    FileLeaf P O R W :=
  ⟨.new path fileOperation tag, r, none, .absent, .untaken, false, false⟩

/-- The tag is in the buffer, or was popped and is to be looked up. -/
def TagOnItsWay (f : FileLeaf P O R W) : Prop :=
  f.file.reactorTag ∈ f.reactor.reactorTagBuffer.items ∨ f.reactor.pc = .popped f.file.reactorTag

instance (f : FileLeaf P O R W) : Decidable f.TagOnItsWay :=
  inferInstanceAs (Decidable (_ ∨ _))

/-- The reactor thread wakes `w` and leaves `r`. While the result is there, the event that makes
the future ready is processed with each lookup of the tag, and without one when the thread is
through with the wake of the job. -/
def threadMoves (f : FileLeaf P O R W) (w : Option W) (r : Reactor W) :
    FileLeaf P O R W × Option (Option W) :=
  match f.reactor.pc with
  | .polling =>
      ({ f with
          reactor := r
          jobWake := if f.stage = .finished ∧ f.jobWake = .untaken then .taken else f.jobWake },
        none)
  | .draining =>
      -- the thread polls again once the buffer is empty
      if r.pc = .polling ∧ f.jobWake = .taken then
        ({ f with reactor := r, jobWake := .handled },
          if f.file.fileHandle.isSome ∧ f.looked = false then some none else none)
      else ({ f with reactor := r }, none)
  | .popped tag =>
      if tag = f.file.reactorTag ∧ f.file.fileHandle.isSome then
        ({ f with reactor := r, looked := true }, some w)
      else ({ f with reactor := r }, none)

variable [DecidableEq W]

/-- The operations are those of the system. -/
def leaf (operate : BlockFn P O → R) : Leaf (FileLeaf P O R W) W (FileOther W) where
  poll f waker := (f.file.poll f.reactor waker).map fun p =>
    (p.result.isPending, match p.job with
      | some job =>
          { f with file := p.future, reactor := p.reactor, job := some job, stage := .queued }
      | none => { f with file := p.future, reactor := p.reactor })
  others f
    | .run =>
        match f.job, f.stage with
        | some job, .queued =>
            some ({ f with
              file := f.file.store (operate job)
              stage := .stored
              tagLeft := f.TagOnItsWay
              looked := false }, none)
        | _, _ => none
    | .wake =>
        match f.stage with
        | .stored => some ({ f with reactor := f.reactor.mioWake, stage := .finished }, none)
        | _ => none
    | .thread => f.reactor.threadStep.map fun p => f.threadMoves p.1 p.2
    | .reactor r =>
        if f.reactor.LeavesTag f.file.reactorTag r then some ({ f with reactor := r }, none)
        else none
  heard f := f.tagLeft

/-- What the others do, one case each. -/
inductive Happens (operate : BlockFn P O → R) (f : FileLeaf P O R W) :
    FileOther W → FileLeaf P O R W → Option (Option W) → Prop
  | run {job : BlockFn P O} (hjob : f.job = some job) (hstage : f.stage = .queued) :
      Happens operate f .run
        { f with
          file := f.file.store (operate job)
          stage := .stored
          tagLeft := f.TagOnItsWay
          looked := false } none
  | wake (hstage : f.stage = .stored) :
      Happens operate f .wake { f with reactor := f.reactor.mioWake, stage := .finished } none
  | take (hpc : f.reactor.pc = .polling) (hw : f.reactor.wakePending = true) :
      Happens operate f .thread
        { f with
          reactor := { f.reactor with wakePending := false, pc := .draining }
          jobWake := if f.stage = .finished ∧ f.jobWake = .untaken then .taken else f.jobWake }
        none
  | pop {tag : ReactorTag} {q : BoundedQueue ReactorTag} (hpc : f.reactor.pc = .draining)
      (hitems : f.reactor.reactorTagBuffer.items = tag :: q.items) :
      Happens operate f .thread
        { f with reactor := { f.reactor with reactorTagBuffer := q, pc := .popped tag } } none
  /-- The thread was in a pass that the wake of the job has not begun. -/
  | emptied (hpc : f.reactor.pc = .draining) (hitems : f.reactor.reactorTagBuffer.items = [])
      (hwake : f.jobWake ≠ .taken) :
      Happens operate f .thread { f with reactor := { f.reactor with pc := .polling } } none
  /-- The thread is through with the wake of the job. -/
  | handled (hpc : f.reactor.pc = .draining) (hitems : f.reactor.reactorTagBuffer.items = [])
      (hwake : f.jobWake = .taken) :
      Happens operate f .thread
        { f with reactor := { f.reactor with pc := .polling }, jobWake := .handled }
        (if f.file.fileHandle.isSome ∧ f.looked = false then some none else none)
  | look (hpc : f.reactor.pc = .popped f.file.reactorTag) (hresult : f.file.fileHandle.isSome) :
      Happens operate f .thread
        { f with reactor := { f.reactor with pc := .draining }, looked := true }
        (some (f.reactor.reactorTags f.file.reactorTag))
  /-- The tag is another one, or the result is not there. -/
  | pass {tag : ReactorTag} (hpc : f.reactor.pc = .popped tag)
      (hnot : ¬ (tag = f.file.reactorTag ∧ f.file.fileHandle.isSome)) :
      Happens operate f .thread { f with reactor := { f.reactor with pc := .draining } } none
  | reactor {r : Reactor W} (hr : f.reactor.LeavesTag f.file.reactorTag r) :
      Happens operate f (.reactor r) { f with reactor := r } none

omit [DecidableEq W] in
/-- The thread looks its popped tag up. -/
theorem happens_of_popped {operate : BlockFn P O → R} {f f' : FileLeaf P O R W}
    {tag : ReactorTag} {w : Option W} {r : Reactor W} {o : Option (Option W)}
    (hpc : f.reactor.pc = .popped tag) (hw : f.reactor.reactorTags tag = w)
    (hr : { f.reactor with pc := .draining } = r) (h : f.threadMoves w r = (f', o)) :
    Happens operate f .thread f' o := by
  subst hw hr
  simp only [threadMoves, hpc] at h
  split at h
  · rename_i hown
    obtain ⟨rfl, hresult⟩ := hown
    cases h
    exact .look hpc hresult
  · rename_i hnot
    cases h
    exact .pass hpc hnot

omit [DecidableEq W] in
theorem happens_of_threadMoves {operate : BlockFn P O → R} {f f' : FileLeaf P O R W}
    {w : Option W} {r : Reactor W} {o : Option (Option W)}
    (hr : f.reactor.threadStep = some (w, r)) (h : f.threadMoves w r = (f', o)) :
    Happens operate f .thread f' o := by
  cases Reactor.threadNext_of_step hr with
  | take hpc hw =>
    simp only [threadMoves, hpc] at h
    cases h
    exact .take hpc hw
  | pop hpc hitems =>
    simp only [threadMoves, hpc, reduceCtorEq, false_and, if_false] at h
    cases h
    exact .pop hpc hitems
  | emptied hpc hitems =>
    simp only [threadMoves, hpc, true_and] at h
    split at h
    · rename_i hwake
      cases h
      exact .handled hpc hitems hwake
    · rename_i hwake
      cases h
      exact .emptied hpc hitems hwake
  | found hpc hw | missed hpc hw => exact happens_of_popped hpc hw rfl h

theorem happens_of_others {operate : BlockFn P O → R} {f f' : FileLeaf P O R W} {a : FileOther W}
    {o : Option (Option W)} (h : (leaf operate).others f a = some (f', o)) :
    Happens operate f a f' o := by
  cases a with
  | run =>
    simp only [leaf] at h
    split at h
    · rename_i hjob hstage
      cases h
      exact .run hjob hstage
    · cases h
  | wake =>
    simp only [leaf] at h
    split at h
    · rename_i hstage
      cases h
      exact .wake hstage
    · cases h
  | thread =>
    simp only [leaf, Option.map_eq_some_iff, Prod.exists] at h
    obtain ⟨w, r, hr, h⟩ := h
    exact happens_of_threadMoves hr h
  | reactor r =>
    simp only [leaf, Option.ite_none_right_eq_some] at h
    obtain ⟨hr, h⟩ := h
    cases h
    exact .reactor hr

/-- The waker under the tag is the first one, and `tagLeft` and `looked` say where the tag is: as
long as it was not looked up, it is on its way if it was when the result was stored. -/
structure Announced (f : FileLeaf P O R W) (ws : List W) : Prop where
  first : Leaf.Kept f.file.hasPolled (f.stage = .absent)
    (fun w => f.reactor.reactorTags f.file.reactorTag = some w) ws
  stored : f.file.fileHandle.isSome → f.stage ≠ .absent
  way : f.file.fileHandle.isSome → f.looked = false → (f.tagLeft = true ↔ f.TagOnItsWay)
  looked : f.file.fileHandle.isSome → f.looked = true → f.tagLeft = true

omit [DecidableEq W] in
theorem announced_new {path : P} {fileOperation : FileOperation O} {tag : ReactorTag}
    {r : Reactor W} : Announced (R := R) (.new path fileOperation tag r) [] :=
  ⟨.inl ⟨rfl, rfl, rfl⟩, fun h => (by cases h), fun h => (by cases h), fun h => (by cases h)⟩

omit [DecidableEq W] in
/-- The reactor moves, and neither the waker nor the tag is lost. -/
theorem Announced.reactor {f : FileLeaf P O R W} {ws : List W} (h : Announced f ws)
    {r : Reactor W} {wake : JobWake}
    (htags : r.reactorTags f.file.reactorTag = f.reactor.reactorTags f.file.reactorTag)
    (hway : f.file.fileHandle.isSome →
      (({ f with reactor := r } : FileLeaf P O R W).TagOnItsWay ↔ f.TagOnItsWay)) :
    Announced { f with reactor := r, jobWake := wake } ws where
  first := by
    show Leaf.Kept _ _ (fun w => r.reactorTags f.file.reactorTag = some w) ws
    rw [htags]
    exact h.first
  stored := h.stored
  way hresult hlooked := (h.way hresult hlooked).trans (hway hresult).symm
  looked := h.looked

omit [DecidableEq W] in
/-- The others leave the tag where it is. -/
theorem tagOnItsWay_of_leavesTag {f : FileLeaf P O R W} {r : Reactor W}
    (hr : f.reactor.LeavesTag f.file.reactorTag r) :
    ({ f with reactor := r } : FileLeaf P O R W).TagOnItsWay ↔ f.TagOnItsWay := by
  obtain ⟨new, hnew⟩ := hr.items
  have hnot : f.file.reactorTag ∉ new := by
    have hothers := hr.others
    rwa [← hnew, List.drop_left] at hothers
  simp only [TagOnItsWay, hr.pc, ← hnew, List.mem_append, hnot, or_false]

omit [DecidableEq W] in
theorem Announced.next {operate : BlockFn P O → R} {f f' : FileLeaf P O R W} {ws : List W}
    {a : FileOther W} {o : Option (Option W)} (h : Announced f ws)
    (hn : Happens operate f a f' o) : Announced f' ws := by
  cases hn with
  | run hjob hstage =>
    refine ⟨h.first.mono (fun hs => ?_) fun _ => id, fun _ => by simp, fun _ _ => ?_,
      fun _ hlooked => by cases hlooked⟩
    · rw [hstage] at hs
      cases hs
    · exact decide_eq_true_iff
  | wake hstage =>
    refine ⟨h.first.mono (fun hs => ?_) fun _ => id, fun _ => by simp, h.way, h.looked⟩
    rw [hstage] at hs
    cases hs
  | take hpc => exact h.reactor rfl fun _ => by simp [TagOnItsWay, hpc]
  | pop hpc hitems =>
    refine h.reactor rfl fun _ => ?_
    simp only [TagOnItsWay, hpc, hitems, List.mem_cons, ReactorPc.popped.injEq, reduceCtorEq,
      or_false]
    rw [or_comm, eq_comm]
  | emptied hpc | handled hpc => exact h.reactor rfl fun _ => by simp [TagOnItsWay, hpc]
  | look hpc hresult =>
    refine ⟨h.first, h.stored, fun _ hlooked => (by cases hlooked), fun _ _ => ?_⟩
    cases hlooked : f.looked with
    | false => exact (h.way hresult hlooked).2 (.inr hpc)
    | true => exact h.looked hresult hlooked
  | @pass tag hpc hnot =>
    refine h.reactor rfl fun hresult => ?_
    have hne : tag ≠ f.file.reactorTag := fun htag => hnot ⟨htag, hresult⟩
    simp [TagOnItsWay, hpc, hne]
  | reactor hr => exact h.reactor hr.reactorTags fun _ => tagOnItsWay_of_leavesTag hr

theorem keepsFirst (operate : BlockFn P O → R) :
    (leaf operate : Leaf (FileLeaf P O R W) W _).KeepsFirst Announced where
  pending f ws waker f' hf hpoll := by
    simp only [leaf, Option.map_eq_some_iff, Prod.mk.injEq] at hpoll
    obtain ⟨p, hpoll, hp, rfl⟩ := hpoll
    cases AsyncHoochFile.polls_of_eq hpoll with
    | first hnot =>
      have hnone : ¬ f.file.fileHandle.isSome := by
        intro hresult
        rcases hf.first with ⟨-, habsent, -⟩ | ⟨hpolled, -⟩
        · exact hf.stored hresult habsent
        · exact absurd (hnot.symm.trans hpolled) (by simp)
      exact ⟨hf.first.first hnot (by simp [Reactor.storeWakerChannel]),
        fun hresult => absurd hresult hnone, fun hresult => absurd hresult hnone,
        fun hresult => absurd hresult hnone⟩
    | pending hpolled => exact ⟨hf.first.later hpolled, hf.stored, hf.way, hf.looked⟩
    | ready => cases hp
  ready f ws waker f' hf hpoll := by
    simp only [leaf, Option.map_eq_some_iff, Prod.mk.injEq] at hpoll
    obtain ⟨p, hpoll, hp, rfl⟩ := hpoll
    cases AsyncHoochFile.polls_of_eq hpoll with
    | ready =>
      exact ⟨hf.first, fun h => (by cases h), fun h => (by cases h), fun h => (by cases h)⟩
    | _ => cases hp
  others f ws a f' o hf hothers := by
    have hn := happens_of_others hothers
    have hf' := hf.next hn
    refine ⟨hf', ?_⟩
    rintro w rfl
    generalize hevent : some w = o at hn
    cases hn with
    | look hpc hresult =>
      cases hevent
      obtain ⟨v, hne, hhead, hv⟩ := hf.first.head (hf.stored hresult)
      exact ⟨hne, .inl ⟨hf'.looked hresult rfl, hv.trans hhead.symm⟩⟩
    | handled hpc hitems =>
      rw [eq_comm, Option.ite_none_right_eq_some] at hevent
      obtain ⟨⟨hresult, hlooked⟩, hw⟩ := hevent
      cases hw
      obtain ⟨v, hne, -⟩ := hf.first.head (hf.stored hresult)
      refine ⟨hne, .inr ⟨?_, rfl⟩⟩
      show f.tagLeft = false
      by_contra hleft
      rw [Bool.not_eq_false] at hleft
      have hway := (hf.way hresult hlooked).1 hleft
      simp [TagOnItsWay, hpc, hitems] at hway
    | _ => cases hevent

end FileLeaf

/-! ### Streams and listeners -/

/-- A TCP set-up with its job. -/
structure TcpLeaf (A E S W : Type*) where
  tcp : AsyncTcp A E S
  job : TcpJobPc A W (Except E S)

/-- The job that is not done. -/
def TcpJobPc.job {A W R : Type*} : TcpJobPc A W R → Option (ConnectFn A W)
  | .queued job | .ran job _ | .stored job => some job
  | .absent | .finished => none

/-- The steps of the job. -/
inductive TcpOther
  | run
  | store
  | wake

namespace TcpLeaf

variable {A E S W : Type*}

/-- The set-up, before its first poll. -/
def new (addr : Except E (List A)) : TcpLeaf A E S W := ⟨.new addr, .absent⟩

/-- The event that makes the future ready is processed when the job calls `waker.wake()`. -/
def leaf (k : TcpCalls A E S) : Leaf (TcpLeaf A E S W) W TcpOther where
  poll f waker := (f.tcp.poll waker).map fun p =>
    (p.result.isPending, ⟨p.future, match p.job with
      | some job => .queued job
      | none => f.job⟩)
  others f
    | .run =>
        match f.job with
        | .queued job => some ({ f with job := .ran job (k.result job.socketAddr) }, none)
        | _ => none
    | .store =>
        match f.job with
        | .ran job result => some (⟨f.tcp.store result, .stored job⟩, none)
        | _ => none
    | .wake =>
        match f.job with
        | .stored job => some ({ f with job := .finished }, some (some job.waker))
        | _ => none

/-- The waker that the job has captured is the first one. -/
def First (f : TcpLeaf A E S W) (ws : List W) : Prop :=
  f.tcp.hasPolled = false ∧ f.job = .absent ∧ ws = [] ∨
    f.tcp.hasPolled = true ∧ ∃ w ws', ws = w :: ws' ∧ ∀ job, f.job.job = some job → job.waker = w

/-- A step of the job, from one that is there to one that is the same or done. -/
theorem First.move {f : TcpLeaf A E S W} {ws : List W} (h : First f ws) (hjob : f.job ≠ .absent)
    {tcp : AsyncTcp A E S} {stage : TcpJobPc A W (Except E S)}
    (hpolled : tcp.hasPolled = f.tcp.hasPolled)
    (hstage : ∀ job, stage.job = some job → f.job.job = some job) : First ⟨tcp, stage⟩ ws := by
  unfold First
  rw [hpolled]
  exact Leaf.Kept.mono h (fun habsent => absurd habsent hjob)
    fun _ hwaker job hj => hwaker job (hstage job hj)

theorem keepsFirst (k : TcpCalls A E S) :
    (leaf k : Leaf (TcpLeaf A E S W) W _).KeepsFirst First where
  pending f ws waker f' hf hpoll := by
    simp only [leaf, Option.map_eq_some_iff, Prod.mk.injEq] at hpoll
    obtain ⟨p, hpoll, hp, rfl⟩ := hpoll
    cases AsyncTcp.polls_of_eq hpoll with
    | first hnot =>
      refine Leaf.Kept.first hf hnot fun job hjob => ?_
      cases hjob
      rfl
    | pending hpolled => exact Leaf.Kept.later hf hpolled
    | ready => cases hp
  ready f ws waker f' hf hpoll := by
    simp only [leaf, Option.map_eq_some_iff, Prod.mk.injEq] at hpoll
    obtain ⟨p, hpoll, hp, rfl⟩ := hpoll
    cases AsyncTcp.polls_of_eq hpoll with
    | ready => exact hf
    | _ => cases hp
  others f ws a f' o hf hothers := by
    cases a with
    | run =>
      simp only [leaf] at hothers
      split at hothers
      · rename_i job hjob
        cases hothers
        exact ⟨hf.move (by simp [hjob]) rfl (by rw [hjob]; exact fun _ => id),
          fun _ h => by cases h⟩
      · cases hothers
    | store =>
      simp only [leaf] at hothers
      split at hothers
      · rename_i job result hjob
        cases hothers
        exact ⟨hf.move (by simp [hjob]) rfl (by rw [hjob]; exact fun _ => id),
          fun _ h => by cases h⟩
      · cases hothers
    | wake =>
      simp only [leaf] at hothers
      split at hothers
      · rename_i job hjob
        cases hothers
        have hstarted : f.job ≠ .absent := by simp [hjob]
        obtain ⟨w, hne, hhead, hwaker⟩ := Leaf.Kept.head hf hstarted
        refine ⟨hf.move hstarted rfl (fun _ h => by cases h), fun v hv => ?_⟩
        cases hv
        refine ⟨hne, .inl ⟨rfl, ?_⟩⟩
        rw [hhead, hwaker job (by rw [hjob]; rfl)]
      · cases hothers

end TcpLeaf

/-! ### All of them -/

section All

variable {A E S L P O R W : Type*} [DecidableEq W]

/-- For each leaf future, and every sequence of polls in every interleaving: the events that make
the future ready wake the waker of the latest `Pending` poll exactly if, at each such event, that
is the waker of the first poll and, for a file operation, the job has stored its result before the
last lookup of the tag. -/
theorem latest_iff_first (timers : Timers E) (d : Duration) (token : Token) (now : ℕ)
    (operate : BlockFn P O → R) (path : P) (fileOperation : FileOperation O) (tag : ReactorTag)
    (sys : TcpSystem A E S L) (addr : Except E (List A)) (r : Reactor W) :
    (∀ as, (SleepLeaf.leaf timers).WakesLatest (.new d token r now) as ↔
      (SleepLeaf.leaf timers).PolledAlike (.new d token r now) as) ∧
    (∀ as, (FileLeaf.leaf operate).WakesLatest (.new path fileOperation tag r) as ↔
      (FileLeaf.leaf operate).PolledAlike (.new path fileOperation tag r) as) ∧
    (∀ as, (TcpLeaf.leaf (W := W) sys.stream).WakesLatest (.new addr) as ↔
      (TcpLeaf.leaf sys.stream).PolledAlike (.new addr) as) ∧
    ∀ as, (TcpLeaf.leaf (W := W) sys.listener).WakesLatest (.new addr) as ↔
      (TcpLeaf.leaf sys.listener).PolledAlike (.new addr) as :=
  ⟨Leaf.latest_iff (SleepLeaf.keepsFirst timers) (.inl ⟨rfl, rfl, rfl⟩),
    Leaf.latest_iff (FileLeaf.keepsFirst operate) FileLeaf.announced_new,
    Leaf.latest_iff (TcpLeaf.keepsFirst sys.stream) (.inl ⟨rfl, rfl, rfl⟩),
    Leaf.latest_iff (TcpLeaf.keepsFirst sys.listener) (.inl ⟨rfl, rfl, rfl⟩)⟩

/-- Somebody else requests a wake after the first poll of the operation with the tag 7. -/
def otherWake : Reactor ℕ :=
  { Reactor.new with
    reactorTagBuffer := ⟨Reactor.tagBound, [7], by decide⟩
    reactorTags := fun t => if t = 7 then some 1 else none
    wakePending := true }

/-- Each future is polled with waker 1 and then with waker 2, and the event wakes waker 1. A file
operation that is polled with waker 1 only, and whose tag the reactor thread looks up before the
job runs, wakes nobody. -/
theorem second_waker_forgotten :
    ¬ (SleepLeaf.leaf .onTime).WakesLatest (.new ⟨2, 0, by decide⟩ 1 .new 0)
      [.poll 1, .poll 2, .others (.tick 3000000000), .others .expire] ∧
    ¬ (FileLeaf.leaf (fun _ : BlockFn String Unit => ())).WakesLatest (.new "a" .open 7 .new)
      [.poll 1, .poll 2, .others .run, .others .wake, .others .thread, .others .thread,
        .others .thread] ∧
    ¬ (FileLeaf.leaf (fun _ : BlockFn String Unit => ())).WakesLatest (.new "a" .open 7 .new)
      [.poll 1, .others (.reactor otherWake), .others .thread, .others .thread, .others .thread,
        .others .thread, .others .run, .others .wake, .others .thread, .others .thread] ∧
    ¬ (TcpLeaf.leaf onlyTwo).WakesLatest (.new (.ok [2]))
      [.poll 1, .poll 2, .others .run, .others .store, .others .wake] := by
  refine ⟨by decide, by decide, by decide, by decide⟩

end All

end Hooch
