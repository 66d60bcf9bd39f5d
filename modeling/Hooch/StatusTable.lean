import Hooch.Lib.Table
import Hooch.Lib.TransitionSystem
import Hooch.Net.Socket
import Hooch.Time.Sleep

/-!
# The table of statuses

`statuses` of the reactor, with everything that puts tokens into it: sleeps, UDP sockets, TCP
streams and listeners. Entries are made by the first poll of a sleep, by a poll of `Reactor::poll`
that finds none, and by every event; the one branch that removes an entry is that of `Reactor::poll`
on `Happened`. A sleep does not go through it, and no source does when it is dropped.

A timeout is a sleep beside a future: it drops the sleep when the future is ready first, and what
the future holds when the sleep is.

* `Source`, `TokenUser`: what a token was given out for, and whether that has ended;
* `StatusTable`, `step`, `statusTable`: any number of sources on one reactor, whose thread handles
  their events;
* `Live`: unless an event of an ended source is queued, the table holds the tokens of sources that
  have not ended, and no more entries than there are such sources;
* `next_of_step`: a step makes a source or moves one, and what is left behind;
* `statuses_live_iff`: the main result, for every run.
-/

namespace Hooch

open TransitionSystem Table

/-! ### One source -/

namespace Sleep

variable {E W : Type*} {k : Timers E} {now : ℕ} {s s' : Sleep} {r r' : Reactor W} {waker : W}

/-- What a poll that panics leaves in the reactor: `status_store` comes before the `unwrap`s. -/
def unwound (s : Sleep) (r : Reactor W) (waker : W) : Reactor W := r.statusStore s.mioToken waker

/-- The calls of the system that the first poll makes succeed. -/
def Arming (k : Timers E) (now : ℕ) (s : Sleep) : Prop :=
  k.create.isOk = true ∧ (k.set now (k.fromDuration s.duration)).isOk = true ∧
    k.register.isOk = true

instance : Decidable (s.Arming k now) := inferInstanceAs (Decidable (_ ∧ _ ∧ _))

/-- A poll is the last one: it finds that the timer's event was handled, or it is the first one and
a call of the system fails. -/
def Ends (k : Timers E) (now : ℕ) (s : Sleep) (r : Reactor W) : Prop :=
  if s.hasPolled = true then r.hasTokenProgressed s.mioToken = true else ¬ s.Arming k now

instance : Decidable (s.Ends k now r) := inferInstanceAs (Decidable (ite _ _ _))

theorem ends_of_none (h : s.poll k now r waker = none) : s.Ends k now r := by
  unfold poll at h
  unfold Ends
  split at h
  · split at h <;> cases h
  · rename_i hpolled
    rw [if_neg hpolled]
    rintro ⟨hcreate, hset, hregister⟩
    cases hc : k.create with
    | error => simp [hc, Except.isOk, Except.toBool] at hcreate
    | ok =>
      cases hs : k.set now (k.fromDuration s.duration) with
      | error => simp [hs, Except.isOk, Except.toBool] at hset
      | ok =>
        cases hr : k.register with
        | error => simp [hr, Except.isOk, Except.toBool] at hregister
        | ok => simp [hc, hs, hr, Except.toOption] at h

/-- A poll that does not panic is the last one if it returns `Ready`. -/
theorem ends_iff {p : Poll Unit} (h : s.poll k now r waker = some (p, s', r')) :
    s.Ends k now r ↔ p.isPending = false := by
  unfold poll at h
  unfold Ends
  split at h
  · rename_i hpolled
    rw [if_pos hpolled]
    split at h <;> rename_i hprogressed <;> cases h <;> simp [hprogressed, Poll.isPending]
  · rename_i hpolled
    rw [if_neg hpolled]
    cases hc : k.create with
    | error => simp [hc, Except.toOption] at h
    | ok =>
      cases hs : k.set now (k.fromDuration s.duration) with
      | error => simp [hc, hs, Except.toOption] at h
      | ok =>
        cases hr : k.register with
        | error => simp [hc, hs, hr, Except.toOption] at h
        | ok =>
          simp only [hc, hs, hr, Except.toOption, Option.bind_some, Option.map_some] at h
          cases h
          simp [Arming, hc, hs, hr, Except.isOk, Except.toBool, Poll.isPending]

end Sleep

/-- A poll of a socket changes the table at its own token. -/
theorem Reactor.statuses_poll_of_ne {W : Type*} [DecidableEq W] {r r' : Reactor W}
    {token t : Token} {waker : W} {p : Poll Unit} (h : r.poll token waker = (p, r'))
    (ht : t ≠ token) : r'.statuses t = r.statuses t := by
  unfold Reactor.poll at h
  split at h
  · cases h
    exact Function.update_of_ne ht _ _
  · split at h
    · cases h
      exact Function.update_of_ne ht _ _
    · cases h
      rfl
  · cases h
    exact Function.update_of_ne ht _ _

namespace SocketState

variable {W τ : Type*}

/-- A socket that was registered with the reactor just now. -/
def registered (r : Reactor W) : SocketState W τ :=
  ⟨r, fun _ => false, 0, fun _ => .idle, fun _ => false, fun _ => false⟩

variable [DecidableEq W] [DecidableEq τ] {token t : Token} {owner : W → τ}
  {x x' : SocketState W τ} {a : SocketLabel W τ}

/-- A socket changes the table at its own token. -/
theorem statuses_of_ne (h : x.step token owner a = some x') (ht : t ≠ token) :
    x'.reactor.statuses t = x.reactor.statuses t := by
  cases a with
  | poll i waker =>
    simp only [step] at h
    split at h
    · rw [Option.ite_none_right_eq_some] at h
      obtain ⟨-, h⟩ := h
      split at h
      · rename_i r hpoll
        cases h
        exact Reactor.statuses_poll_of_ne hpoll ht
      · rename_i r hpoll
        cases h
        exact Reactor.statuses_poll_of_ne hpoll ht
    · cases h
  | event =>
    simp only [step, Option.ite_none_right_eq_some, Option.some.injEq] at h
    obtain ⟨-, rfl⟩ := h
    exact Function.update_of_ne ht _ _
  | start i op =>
    simp only [step] at h
    split at h <;> cases h
    rfl
  | attempt i =>
    simp only [step] at h
    split at h <;> cases h
    rfl
  | abandon | becomeReady | becomeUnready =>
    cases h
    rfl

end SocketState

/-! ### The sources of one reactor -/

/-- What a token was given out for: a sleep, or a UDP socket, a TCP stream or a listener. The timer
of a sleep expires once. `queued` counts the events that the reactor thread has not handled. The
reactor in a socket is the shared one only during its own steps. -/
inductive Source (W τ : Type*)
  | sleep (x : Sleep) (expired : Bool) (queued : ℕ)
  | socket (x : SocketState W τ)

/-- The events of the source that are queued. -/
def Source.queued {W τ : Type*} : Source W τ → ℕ
  | .sleep _ _ queued => queued
  | .socket x => x.queued

/-- The source, with some of the queued events taken away. -/
def Source.setQueued {W τ : Type*} : Source W τ → ℕ → Source W τ
  | .sleep x expired _, queued => .sleep x expired queued
  | .socket x, queued => .socket { x with queued := queued }

/-- Who has a token: `ended` says that the sleep has completed or was dropped, or that the socket
was dropped. -/
structure TokenUser (W τ : Type*) where
  source : Source W τ
  ended : Bool

/-- The reactor, `CURRENT_TOKEN`, and what the tokens were given out for. -/
structure StatusTable (W τ : Type*) where
  reactor : Reactor W
  currentToken : Token
  users : Token → Option (TokenUser W τ)

/-- Who moves. A source is named by its token. -/
inductive StatusLabel (W τ E : Type*)
  /-- `Sleep::from_duration`, by `sleep` or `timeout`. -/
  | sleep (duration : Duration)
  /-- A socket is bound, connected or accepted, and registered. -/
  | socket
  | pollSleep (token : Token) (k : Timers E) (now : ℕ) (waker : W)
  /-- The timer of a sleep expires. -/
  | expire (token : Token)
  /-- A task works with a socket, or the environment changes what it is ready for. -/
  | useSocket (token : Token) (a : SocketLabel W τ)
  /-- The reactor thread handles an event. -/
  | event (token : Token)
  /-- The source is dropped. So many of its events the thread has got already. -/
  | drop (token : Token) (kept : ℕ)

namespace StatusTable

variable {W τ E : Type*}

/-- Nothing has a token yet. -/
def new : StatusTable W τ := ⟨.new, 1, fun _ => none⟩

/-- `Reactor::unique_token`, for the given source. -/
def uniqueToken (s : StatusTable W τ) (x : Source W τ) : StatusTable W τ :=
  { s with
    currentToken := s.currentToken + 1
    users := Function.update s.users s.currentToken (some ⟨x, false⟩) }

/-- The user of a token moves and leaves the reactor `r`. -/
def move (s : StatusTable W τ) (token : Token) (v : TokenUser W τ) (r : Reactor W) :
    StatusTable W τ :=
  { s with reactor := r, users := Function.update s.users token (some v) }

section Step

variable [DecidableEq W] [DecidableEq τ] (owner : W → τ)

/-- One step of one party. -/
def step (s : StatusTable W τ) : StatusLabel W τ E → Option (StatusTable W τ)
  | .sleep duration => some (s.uniqueToken
      (.sleep (.fromDuration duration s.currentToken) false 0))
  | .socket => some (s.uniqueToken (.socket (.registered s.reactor)))
  | .pollSleep token k now waker =>
      match s.users token with
      | some ⟨.sleep x expired queued, false⟩ =>
          match x.poll k now s.reactor waker with
          | some (p, x', r) => some (s.move token ⟨.sleep x' expired queued, !p.isPending⟩ r)
          -- the unwinding drops the sleep
          | none => some (s.move token ⟨.sleep x expired queued, true⟩ (x.unwound s.reactor waker))
      | _ => none
  | .expire token =>
      match s.users token with
      | some ⟨.sleep x false queued, false⟩ =>
          if x.timer.join.isSome then
            some (s.move token ⟨.sleep x true (queued + 1), false⟩ s.reactor)
          else none
      | _ => none
  | .useSocket token a =>
      match s.users token with
      | some ⟨.socket x, false⟩ =>
          (SocketState.step token owner { x with reactor := s.reactor } a).map fun x' =>
            s.move token ⟨.socket x', false⟩ x'.reactor
      | _ => none
  | .event token =>
      match s.users token with
      | some ⟨.sleep x expired (queued + 1), ended⟩ =>
          some (s.move token ⟨.sleep x expired queued, ended⟩ (s.reactor.event token).2)
      | some ⟨.socket x, ended⟩ =>
          (SocketState.step token owner { x with reactor := s.reactor } .event).map fun x' =>
            s.move token ⟨.socket x', ended⟩ x'.reactor
      | _ => none
  | .drop token kept =>
      match s.users token with
      | some ⟨x, false⟩ =>
          if kept ≤ x.queued then some (s.move token ⟨x.setQueued kept, true⟩ s.reactor)
          else none
      | _ => none

/-- The sleeps and sockets of a program. -/
def statusTable (E : Type*) (owner : W → τ) :
    TransitionSystem (StatusTable W τ) (StatusLabel W τ E) where
  init s := s = new
  step := step owner

end Step

/-! ### The property and the condition -/

/-- The tokens in the table. -/
def keys (s : StatusTable W τ) : Set Token := {token | s.reactor.statuses token ≠ none}

/-- The tokens of the sources that have not ended. -/
def live (s : StatusTable W τ) : Set Token := {token | ∃ u ∈ s.users token, u.ended = false}

/-- No event of an ended source is queued. -/
def Quiet (s : StatusTable W τ) : Prop :=
  ∀ token, ∀ u ∈ s.users token, u.ended = true → u.source.queued = 0

/-- Unless an event of an ended source is queued, the tokens in the table are those of sources that
have not ended, and there are no more of them than of these. -/
def Live (s : StatusTable W τ) : Prop :=
  s.Quiet → s.keys ⊆ s.live ∧ s.keys.ncard ≤ s.live.ncard

/-- An event of an ended source is queued, where the source of this token has so many. -/
def Waiting (s : StatusTable W τ) (token : Token) (queued : ℕ) : Prop :=
  0 < queued ∨ ∃ t < s.currentToken, t ≠ token ∧
    ∃ u ∈ s.users t, u.ended = true ∧ 0 < u.source.queued

/-- The token whose entry the step leaves without a source, with the number of events of it that
stay queued: a sleep is polled for the last time, a source is dropped while the table holds its
token, or an event of an ended source is handled. -/
def leaves (s : StatusTable W τ) : StatusLabel W τ E → Option (Token × ℕ)
  | .pollSleep token k now _ =>
      match s.users token with
      | some ⟨.sleep x _ queued, false⟩ =>
          if x.Ends k now s.reactor then some (token, queued) else none
      | _ => none
  | .drop token kept => if (s.reactor.statuses token).isSome then some (token, kept) else none
  | .event token =>
      match s.users token with
      | some ⟨x, true⟩ => some (token, x.queued - 1)
      | _ => none
  | _ => none

/-- A step leaves an entry without a source only while an event of an ended source stays queued. -/
def Clean (s : StatusTable W τ) (a : StatusLabel W τ E) : Prop :=
  ∀ p ∈ s.leaves a, s.Waiting p.1 p.2

instance (s : StatusTable W τ) (token : Token) (queued : ℕ) : Decidable (s.Waiting token queued) :=
  inferInstanceAs (Decidable (_ ∨ ∃ t < s.currentToken, t ≠ token ∧ ∃ u ∈ s.users t, _))

instance (s : StatusTable W τ) (a : StatusLabel W τ E) : Decidable (s.Clean a) :=
  inferInstanceAs (Decidable (∀ p ∈ s.leaves a, _))

/-! ### What a step does -/

variable {s s' : StatusTable W τ} {token : Token}

/-- A sleep has its own token. -/
def At (token : Token) : Source W τ → Prop
  | .sleep x _ _ => x.mioToken = token
  | .socket _ => True

/-- A token that was not given out is in nobody's hands. -/
structure Inv (s : StatusTable W τ) : Prop where
  own : ∀ token u, s.users token = some u → At token u.source
  unused : ∀ token, s.users token = none → s.reactor.statuses token = none
  fresh : Below s.currentToken s.users

/-- A step makes a source, or it moves one, whose token is then left behind if the source has ended
and the table holds the token. -/
inductive Next (s : StatusTable W τ) (a : StatusLabel W τ E) : StatusTable W τ → Prop
  | create {x : Source W τ} (hx : At s.currentToken x) (hleaves : s.leaves a = none) :
      Next s a (s.uniqueToken x)
  | move {token : Token} {u v : TokenUser W τ} {r : Reactor W} (hu : s.users token = some u)
      (hv : At token v.source) (hr : ∀ t, t ≠ token → r.statuses t = s.reactor.statuses t)
      (hended : u.ended = true → v.ended = true ∧ r.statuses token ≠ none)
      (hleaves : ∀ p, p ∈ s.leaves a ↔
        (v.ended = true ∧ r.statuses token ≠ none) ∧ p = (token, v.source.queued)) :
      Next s a (s.move token v r)

section NextOfStep

variable [DecidableEq W] [DecidableEq τ] {owner : W → τ}

/-- A poll that panics has put the token into the table, and a poll that returns `Ready` has found
it there. -/
theorem next_of_pollSleep (hI : Inv s) {k : Timers E} {now : ℕ} {waker : W}
    (h : s.step owner (.pollSleep token k now waker) = some s') :
    Next s (.pollSleep token k now waker : StatusLabel W τ E) s' := by
  simp only [step] at h
  split at h
  · rename_i x expired queued hx
    have hown : x.mioToken = token := hI.own token _ hx
    split at h
    · rename_i p x' r hpoll
      cases h
      have hends := Sleep.ends_iff hpoll
      cases Sleep.polls_of_eq hpoll with
      | first =>
        refine .move hx hown (fun t ht => ?_) (fun hended => by cases hended) fun p => ?_
        · exact Function.update_of_ne (hown ▸ ht) _ _
        · simp [leaves, hx, hends, Poll.isPending]
      | pending =>
        refine .move hx hown (fun t _ => rfl) (fun hended => by cases hended) fun p => ?_
        simp [leaves, hx, hends, Poll.isPending]
      | ready _ hprogressed =>
        have hsome : s.reactor.statuses token ≠ none := by
          intro hnone
          simp [Reactor.hasTokenProgressed, hown, hnone] at hprogressed
        refine .move hx hown (fun t _ => rfl) (fun hended => by cases hended) fun p => ?_
        simp [leaves, hx, hends, Poll.isPending, hsome, Source.queued, eq_comm]
    · rename_i hpoll
      cases h
      have hends := Sleep.ends_of_none hpoll
      refine .move hx hown ?_ (fun hended => by cases hended) fun p => ?_
      · intro t ht
        exact Function.update_of_ne (hown ▸ ht) _ _
      · simp [leaves, hx, hends, Sleep.unwound, Reactor.statusStore, hown, Source.queued, eq_comm]
  · cases h

/-- An event makes the table hold its token, also when the source has ended. -/
theorem next_of_event (hI : Inv s)
    (h : s.step owner (.event token : StatusLabel W τ E) = some s') :
    Next s (.event token : StatusLabel W τ E) s' := by
  simp only [step] at h
  split at h
  · rename_i x expired queued ended hx
    cases h
    have hown : x.mioToken = token := hI.own token _ hx
    have hsome : (s.reactor.event token).2.statuses token ≠ none := by simp [Reactor.event]
    refine .move hx hown (fun t ht => Function.update_of_ne ht _ _)
      (fun hended => ⟨hended, hsome⟩) fun p => ?_
    cases ended with
    | false => simp [leaves, hx]
    | true => simp [leaves, hx, hsome, Source.queued, eq_comm]
  · rename_i x ended hx
    rw [Option.map_eq_some_iff] at h
    obtain ⟨x', hstep, rfl⟩ := h
    have hothers := fun t ht => SocketState.statuses_of_ne (t := t) hstep ht
    cases SocketState.next_of_step hstep with
    | event _ _ hr =>
      have hsome := Option.ne_none_iff_exists'.2 ⟨_, hr⟩
      refine .move hx trivial hothers (fun hended => ⟨hended, hsome⟩) fun p => ?_
      cases ended with
      | false => simp [leaves, hx]
      | true => simp [leaves, hx, hr, Source.queued, eq_comm]
  · cases h

/-- A source that is dropped leaves its entry as it is. -/
theorem next_of_drop (hI : Inv s) {kept : ℕ}
    (h : s.step owner (.drop token kept : StatusLabel W τ E) = some s') :
    Next s (.drop token kept : StatusLabel W τ E) s' := by
  simp only [step] at h
  split at h
  · rename_i x hx
    rw [Option.ite_none_right_eq_some] at h
    obtain ⟨-, h⟩ := h
    cases h
    have hat : At token (x.setQueued kept) ∧ (x.setQueued kept).queued = kept := by
      cases x with
      | sleep y expired queued => exact ⟨hI.own token _ hx, rfl⟩
      | socket y => exact ⟨trivial, rfl⟩
    refine .move hx hat.1 (fun t _ => rfl) (fun hended => by cases hended) fun p => ?_
    cases hstatus : s.reactor.statuses token <;> simp [leaves, hstatus, hat.2, eq_comm]
  · cases h

theorem next_of_step (hI : Inv s) {a : StatusLabel W τ E} (h : s.step owner a = some s') :
    Next s a s' := by
  cases a with
  | sleep duration =>
    cases h
    exact .create rfl rfl
  | socket =>
    cases h
    exact .create trivial rfl
  | pollSleep token k now waker => exact next_of_pollSleep hI h
  | expire token =>
    simp only [step] at h
    split at h
    · rename_i x queued hx
      rw [Option.ite_none_right_eq_some] at h
      obtain ⟨-, h⟩ := h
      cases h
      have hown : x.mioToken = token := hI.own token _ hx
      exact .move hx hown (fun t _ => rfl) (fun hended => by cases hended)
        fun p => by simp [leaves]
    · cases h
  | useSocket token a =>
    simp only [step] at h
    split at h
    · rename_i x hx
      rw [Option.map_eq_some_iff] at h
      obtain ⟨x', hstep, rfl⟩ := h
      exact .move hx trivial (fun t ht => SocketState.statuses_of_ne hstep ht)
        (fun hended => by cases hended) fun p => by simp [leaves]
    · cases h
  | event token => exact next_of_event hI h
  | drop token kept => exact next_of_drop hI h

end NextOfStep

/-! ### What holds in every run -/

theorem Inv.new : Inv (new : StatusTable W τ) where
  own _ _ h := by cases h
  unused _ _ := rfl
  fresh _ _ := rfl

theorem users_move_of_ne {v : TokenUser W τ} {r : Reactor W} {t : Token} (ht : t ≠ token) :
    (s.move token v r).users t = s.users t :=
  Function.update_of_ne ht _ _

theorem users_move_self {v : TokenUser W τ} {r : Reactor W} :
    (s.move token v r).users token = some v :=
  Function.update_self _ _ _

theorem users_uniqueToken_of_ne {x : Source W τ} {t : Token} (ht : t ≠ s.currentToken) :
    (s.uniqueToken x).users t = s.users t :=
  Function.update_of_ne ht _ _

theorem Inv.next (hI : Inv s) {a : StatusLabel W τ E} (h : Next s a s') : Inv s' := by
  cases h with
  | create hx =>
    refine ⟨fun t u hu => ?_, fun t ht => ?_, hI.fresh.insert _⟩
    · exact forall_update (p := fun t u => At t u.source) hx (fun t u _ hu => hI.own t u hu) hu
    · exact hI.unused t (update_eq_none.1 ht).2
  | move hu hv hr =>
    refine ⟨fun t w hw => ?_, fun t ht => ?_, hI.fresh.update hu _⟩
    · exact forall_update (p := fun t u => At t u.source) hv (fun t w _ hw => hI.own t w hw) hw
    · obtain ⟨htt, ht⟩ := update_eq_none.1 ht
      exact (hr t htt).trans (hI.unused t ht)

/-- The size of the table follows from what is in it. -/
theorem live_iff_subset (hI : Inv s) : s.Live ↔ (s.Quiet → s.keys ⊆ s.live) := by
  have hfinite : s.live.Finite := hI.fresh.finite _
  exact ⟨fun h hQ => (h hQ).1, fun h hQ => ⟨h hQ, Set.ncard_le_ncard (h hQ) hfinite⟩⟩

/-! ### One token and the others -/

/-- No event of another ended source is queued. -/
def OthersQuiet (s : StatusTable W τ) (token : Token) : Prop :=
  ∀ t, t ≠ token → ∀ u ∈ s.users t, u.ended = true → u.source.queued = 0

/-- The other tokens in the table are those of sources that have not ended. -/
def OthersLive (s : StatusTable W τ) (token : Token) : Prop :=
  ∀ t, t ≠ token → t ∈ s.keys → t ∈ s.live

theorem quiet_iff {u : TokenUser W τ} (hu : s.users token = some u) :
    s.Quiet ↔ (u.ended = true → u.source.queued = 0) ∧ s.OthersQuiet token := by
  constructor
  · exact fun h => ⟨h token u hu, fun t _ => h t⟩
  · rintro ⟨hself, hothers⟩ t w hw
    by_cases ht : t = token
    · subst ht
      rw [Option.mem_unique hw hu]
      exact hself
    · exact hothers t ht w hw

theorem keys_subset_iff {u : TokenUser W τ} (hu : s.users token = some u) :
    s.keys ⊆ s.live ↔ (s.reactor.statuses token ≠ none → u.ended = false) ∧ s.OthersLive token := by
  constructor
  · intro h
    refine ⟨fun hkey => ?_, fun t _ ht => h ht⟩
    obtain ⟨w, hw, hended⟩ := h hkey
    rwa [← Option.mem_unique hw hu]
  · rintro ⟨hself, hothers⟩ t ht
    by_cases htt : t = token
    · subst htt
      exact ⟨u, hu, hself ht⟩
    · exact hothers t htt ht

/-- What waits is of this source, or of another one. -/
theorem waiting_iff (hI : Inv s) {queued : ℕ} :
    s.Waiting token queued ↔ 0 < queued ∨ ¬ s.OthersQuiet token := by
  refine or_congr_right ⟨?_, fun h => ?_⟩
  · rintro ⟨t, -, ht, u, hu, hended, hpos⟩ hothers
    exact absurd (hothers t ht u hu hended) hpos.ne'
  · simp only [OthersQuiet, not_forall] at h
    obtain ⟨t, ht, u, hu, hended, hpos⟩ := h
    exact ⟨t, hI.fresh.lt hu, ht, u, hu, hended, Nat.pos_of_ne_zero hpos⟩

section Move

variable {v : TokenUser W τ} {r : Reactor W}

theorem othersQuiet_move : (s.move token v r).OthersQuiet token ↔ s.OthersQuiet token := by
  refine forall_congr' fun t => forall_congr' fun ht => ?_
  rw [users_move_of_ne ht]

theorem othersLive_move (hr : ∀ t, t ≠ token → r.statuses t = s.reactor.statuses t) :
    (s.move token v r).OthersLive token ↔ s.OthersLive token := by
  refine forall_congr' fun t => forall_congr' fun ht => ?_
  simp only [keys, live, Set.mem_ofPred_eq, users_move_of_ne ht]
  rw [show (s.move token v r).reactor.statuses t = s.reactor.statuses t from hr t ht]

end Move

/-! ### The results -/

theorem Live.new : (StatusTable.new : StatusTable W τ).Live := by
  refine (live_iff_subset .new).2 fun _ t ht => ?_
  exact absurd rfl ht

/-- A new source has no entry. -/
theorem live_uniqueToken (hI : Inv s) (hL : s.Quiet → s.keys ⊆ s.live) {x : Source W τ} :
    (s.uniqueToken x).Quiet → (s.uniqueToken x).keys ⊆ (s.uniqueToken x).live := by
  intro hQ t ht
  have hne : ∀ {t u}, s.users t = some u → t ≠ s.currentToken := fun hu => (hI.fresh.lt hu).ne
  have hQ' : s.Quiet := fun t u hu => hQ t u (by rwa [users_uniqueToken_of_ne (hne hu)])
  obtain ⟨u, hu, hended⟩ := hL hQ' ht
  exact ⟨u, by rwa [users_uniqueToken_of_ne (hne hu)], hended⟩

/-- A source that moves leaves the table live unless it has ended, the table holds its token, and
nothing waits. -/
theorem live_move_iff (hI : Inv s) (hL : s.Quiet → s.keys ⊆ s.live) {u v : TokenUser W τ}
    {r : Reactor W} (hu : s.users token = some u)
    (hr : ∀ t, t ≠ token → r.statuses t = s.reactor.statuses t)
    (hended : u.ended = true → v.ended = true ∧ r.statuses token ≠ none) :
    ((s.move token v r).Quiet → (s.move token v r).keys ⊆ (s.move token v r).live) ↔
      (v.ended = true ∧ r.statuses token ≠ none → s.Waiting token v.source.queued) := by
  rw [quiet_iff users_move_self, keys_subset_iff users_move_self, othersQuiet_move,
    othersLive_move hr, waiting_iff hI]
  constructor
  · rintro h ⟨hv, hkey⟩
    by_contra hwaiting
    rw [not_or, not_not, not_lt, Nat.le_zero] at hwaiting
    have hlive := (h ⟨fun _ => hwaiting.1, hwaiting.2⟩).1 hkey
    rw [hv] at hlive
    cases hlive
  · rintro h ⟨hself, hothers⟩
    have hleft : ¬ (v.ended = true ∧ r.statuses token ≠ none) := by
      intro hleft
      rcases h hleft with hpos | hnot
      · exact absurd (hself hleft.1) hpos.ne'
      · exact hnot hothers
    -- the source had not ended before, so the table was live
    have hu' : u.ended ≠ true := fun hu' => hleft (hended hu')
    have hquiet : s.Quiet := (quiet_iff hu).2 ⟨fun h => absurd h hu', hothers⟩
    refine ⟨fun hkey => ?_, ((keys_subset_iff hu).1 (hL hquiet)).2⟩
    by_contra hv
    exact hleft ⟨by simpa using hv, hkey⟩

/-- A step keeps the table live if it meets the condition, and only then. -/
theorem live_next_iff (hI : Inv s) (hL : s.Live) {a : StatusLabel W τ E} (h : Next s a s') :
    s'.Live ↔ s.Clean a := by
  rw [live_iff_subset (hI.next h)]
  rw [live_iff_subset hI] at hL
  cases h with
  | create hx hleaves =>
    exact iff_of_true (live_uniqueToken hI hL) (by simp [Clean, hleaves])
  | move hu hv hr hended hleaves =>
    rw [live_move_iff hI hL hu hr hended]
    simp only [Clean, hleaves]
    constructor
    · rintro h p ⟨hleft, rfl⟩
      exact h hleft
    · exact fun h hleft => h _ ⟨hleft, rfl⟩

/-- All sources have ended, no event is queued, and the table is not empty. -/
theorem not_live_of_ended (token : Token) (hkey : s.reactor.statuses token ≠ none)
    (h : ∀ t, ∀ u ∈ s.users t, u.ended = true ∧ u.source.queued = 0) :
    s.Quiet ∧ s.live = ∅ ∧ ¬ s.Live := by
  have hlive : s.live = ∅ := by
    refine Set.eq_empty_of_forall_notMem ?_
    rintro t ⟨u, hu, hended⟩
    rw [(h t u hu).1] at hended
    cases hended
  have hquiet : s.Quiet := fun t u hu _ => (h t u hu).2
  refine ⟨hquiet, hlive, fun hL => ?_⟩
  have hmem : token ∈ s.live := (hL hquiet).1 hkey
  rw [hlive] at hmem
  exact hmem

/-- Every run: as long as no event of an ended source is queued, the table holds the tokens of
sources that have not ended, exactly if every step that leaves an entry without a source is made
while an event of an ended source stays queued. -/
theorem statuses_live_iff [DecidableEq W] [DecidableEq τ] {owner : W → τ}
    {labels : List (StatusLabel W τ E)}
    (hrun : ((statusTable E owner).run new labels).isSome) :
    (statusTable E owner).Throughout Live new labels ↔
      (statusTable E owner).EachStep Clean new labels := by
  refine throughout_iff_eachStep (I := fun s => Inv s ∧ s.Live) (fun _ h => h.2) ?_ ?_
    ⟨.new, .new⟩ hrun
  · rintro s a s' ⟨hI, hL⟩ hC hs
    have hnext := next_of_step hI hs
    exact ⟨hI.next hnext, (live_next_iff hI hL hnext).2 hC⟩
  · rintro s a s' ⟨hI, hL⟩ hC hs hL'
    exact hC ((live_next_iff hI hL (next_of_step hI hs)).1 hL')

/-- A sleep is dropped before its first poll, another one is waited for, a socket is dropped after a
`Ready` of its last poll, and one that was never polled with an event still queued. -/
theorem statuses_live_iff_dropped :
    (statusTable Unit (id : Unit → Unit)).Throughout Live new
      [.sleep ⟨1, 0, by decide⟩, .sleep ⟨2, 0, by decide⟩, .drop 1 0,
        .pollSleep 2 Timers.onTime 0 (), .socket, .useSocket 3 (.start () .readable),
        .useSocket 3 (.attempt ()), .useSocket 3 (.poll () ()),
        .useSocket 3 (.becomeReady .readable), .event 3, .useSocket 3 (.poll () ()),
        .useSocket 3 (.attempt ()), .drop 3 0, .socket, .useSocket 4 (.becomeReady .writable),
        .drop 4 1] :=
  (statuses_live_iff (by decide)).2 (by decide)

/-- A sleep completes, and a socket is dropped while a task waits for it, as by a timeout: both
entries stay. -/
theorem statuses_left_behind :
    ∃ s, (statusTable Unit (id : Unit → Unit)).run new
        [.sleep ⟨1, 0, by decide⟩, .pollSleep 1 Timers.onTime 0 (), .expire 1, .event 1,
          .pollSleep 1 Timers.onTime 2000000000 (), .socket, .useSocket 2 (.start () .readable),
          .useSocket 2 (.attempt ()), .useSocket 2 (.poll () ()), .drop 2 0] = some s ∧
      s.reactor.statuses 1 = some .happened ∧ s.reactor.statuses 2 = some (.awaited ()) ∧
      s.Quiet ∧ s.live = ∅ ∧ ¬ s.Live := by
  refine ⟨_, rfl, rfl, rfl, not_live_of_ended 1 (by decide) ?_⟩
  rintro (_ | _ | _ | t) u hu <;> cases hu <;> exact ⟨rfl, rfl⟩

end StatusTable

end Hooch
