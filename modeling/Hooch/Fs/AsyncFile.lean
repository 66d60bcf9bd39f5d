import Hooch.Reactor

/-!
# The future of a file operation

`AsyncHoochFile` of `fs/file.rs`. The first poll registers the tag of the operation, stores the
waker under it and hands the operation to the pool; later polls look for the result.
-/

namespace Hooch

/-- `FileOperation`, where `O` is `OpenOptions`. -/
inductive FileOperation (O : Type*)
  | create
  | open
  | option (options : O)

/-- The closure `block_fn` that the pool runs: what it has captured. -/
structure BlockFn (P O : Type*) where
  path : P
  fileOperation : FileOperation O

/-- The future. `R` is the result of the operation. -/
structure AsyncHoochFile (P O R : Type*) where
  path : P
  fileOperation : Option (FileOperation O)
  reactorTag : ReactorTag
  fileHandle : Option R
  hasPolled : Bool

namespace AsyncHoochFile

variable {P O R W : Type*}

/-- The future as `HoochFile::open`, `HoochFile::create` and `OpenOptions::open` make it. -/
def new (path : P) (fileOperation : FileOperation O) (reactorTag : ReactorTag) :
    AsyncHoochFile P O R :=
  ⟨path, some fileOperation, reactorTag, none, false⟩

/-- What a poll returns and leaves, and the job it hands to the pool. -/
structure Polled (P O R W : Type*) where
  result : Poll R
  future : AsyncHoochFile P O R
  reactor : Reactor W
  job : Option (BlockFn P O)

/-- `AsyncHoochFile::poll`; `none` is a failing `unwrap`. -/
def poll (f : AsyncHoochFile P O R) (r : Reactor W) (waker : W) : Option (Polled P O R W) :=
  if !f.hasPolled then
    (r.registerReactorTag f.reactorTag).bind fun r =>
    f.fileOperation.map fun fileOperation =>
      ⟨.pending, { f with hasPolled := true, fileOperation := none },
        r.storeWakerChannel f.reactorTag waker, some ⟨f.path, fileOperation⟩⟩
  else if f.fileHandle.isNone then some ⟨.pending, f, r, none⟩
  else f.fileHandle.map fun result => ⟨.ready result, { f with fileHandle := none }, r, none⟩

/-- The job stores its result. -/
def store (f : AsyncHoochFile P O R) (result : R) : AsyncHoochFile P O R :=
  { f with fileHandle := some result }

variable {f : AsyncHoochFile P O R} {r : Reactor W} {waker : W} {p : Polled P O R W}

/-- What a poll does, one case each. -/
inductive Polls (f : AsyncHoochFile P O R) (r : Reactor W) (waker : W) : Polled P O R W → Prop
  | first {q : BoundedQueue ReactorTag} {fileOperation : FileOperation O}
      (hpolled : f.hasPolled = false) (hoperation : f.fileOperation = some fileOperation)
      (hitems : q.items = r.reactorTagBuffer.items ++ [f.reactorTag]) :
      Polls f r waker ⟨.pending, { f with hasPolled := true, fileOperation := none },
        ({ r with reactorTagBuffer := q } : Reactor W).storeWakerChannel f.reactorTag waker,
        some ⟨f.path, fileOperation⟩⟩
  | pending (hpolled : f.hasPolled = true) (hresult : f.fileHandle = none) :
      Polls f r waker ⟨.pending, f, r, none⟩
  | ready {result : R} (hpolled : f.hasPolled = true) (hresult : f.fileHandle = some result) :
      Polls f r waker ⟨.ready result, { f with fileHandle := none }, r, none⟩

theorem polls_of_eq (h : f.poll r waker = some p) : Polls f r waker p := by
  unfold poll at h
  split at h
  · rename_i hpolled
    simp only [Option.bind_eq_some_iff, Option.map_eq_some_iff] at h
    obtain ⟨r', hr', fileOperation, hoperation, rfl⟩ := h
    obtain ⟨q, rfl, -, -, hitems⟩ := Reactor.registerReactorTag_eq_some hr'
    exact .first (by simpa using hpolled) hoperation hitems
  · rename_i hpolled
    have hpolled : f.hasPolled = true := by simpa using hpolled
    split at h
    · rename_i hnone
      cases h
      exact .pending hpolled (by simpa using hnone)
    · rw [Option.map_eq_some_iff] at h
      obtain ⟨result, hresult, rfl⟩ := h
      exact .ready hpolled hresult

end AsyncHoochFile

end Hooch
