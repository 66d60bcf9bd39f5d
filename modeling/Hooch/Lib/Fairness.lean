import Hooch.Lib.TransitionSystem

/-!
# Infinite runs under fairness

What a transition system does in the long run. An `Execution` is an infinite run, in which also
nothing may happen at a moment, so a finite run is one that rests for ever. It is weakly fair to a
class of actions if it does not leave them aside for ever while one of them can be taken, and
strongly fair if it does not while one of them can be taken again and again.

* `Execution`, `Under`, `WeaklyFair`, `StronglyFair`: the runs, a condition on their steps, and
  fairness;
* `LeadsTo`: after every state with `P` comes one with `Q`, with the rules to compose it;
* `leadsTo_of_stronglyFair`: the rule for one action that is not always possible;
* `Ranking`: a rank and, for every state, a party whose action brings the rank down while the
  others do not raise it;
* `Ranking.leadsTo`: the rule for such a rank;
* `Lockstep.execution`: what a system in lockstep with another inherits;
* `RunsOn`: a system on top of another, and when its runs are fair to the parties of that one.
-/

universe u v w

namespace TransitionSystem

variable {σ : Type u} {α : Type v} {S : TransitionSystem σ α}

/-- An infinite run. Nothing happens where `act` is `none`. -/
structure Execution (S : TransitionSystem σ α) where
  state : ℕ → σ
  act : ℕ → Option α
  init : S.init (state 0)
  rests : ∀ n, act n = none → state (n + 1) = state n
  steps : ∀ n a, act n = some a → S.step (state n) a = some (state (n + 1))

/-- An action of the class can be taken. -/
def Enabled (S : TransitionSystem σ α) (A : α → Prop) (s : σ) : Prop :=
  ∃ a, A a ∧ (S.step s a).isSome

namespace Execution

/-- Every step meets the condition. -/
def Under (x : S.Execution) (C : σ → α → Prop) : Prop := ∀ n a, x.act n = some a → C (x.state n) a

/-- A class of actions one of which can be taken from some moment on is taken. -/
def WeaklyFair (x : S.Execution) (A : α → Prop) : Prop :=
  ∀ n, (∀ m, n ≤ m → S.Enabled A (x.state m)) → ∃ m, n ≤ m ∧ ∃ a, x.act m = some a ∧ A a

/-- A class one of whose actions can be taken again and again is taken. -/
def StronglyFair (x : S.Execution) (A : α → Prop) : Prop :=
  ∀ n, (∀ m, n ≤ m → ∃ k, m ≤ k ∧ S.Enabled A (x.state k)) →
    ∃ m, n ≤ m ∧ ∃ a, x.act m = some a ∧ A a

/-- After every state with `P` comes one with `Q`, or it is one. -/
def LeadsTo (x : S.Execution) (P Q : σ → Prop) : Prop :=
  ∀ n, P (x.state n) → ∃ m, n ≤ m ∧ Q (x.state m)

variable {x : S.Execution} {C : σ → α → Prop} {P P' Q R : σ → Prop}

theorem reachable (hC : x.Under C) (n : ℕ) : S.ReachableUnder C (x.state n) := by
  induction n with
  | zero => exact .init x.init
  | succ n ih =>
    cases hact : x.act n with
    | none => rwa [x.rests n hact]
    | some a => exact .step ih (hC n a hact) (x.steps n a hact)

theorem LeadsTo.of_imp (h : ∀ s, P s → Q s) : x.LeadsTo P Q := fun n hn => ⟨n, le_rfl, h _ hn⟩

theorem LeadsTo.trans (hPQ : x.LeadsTo P Q) (hQR : x.LeadsTo Q R) : x.LeadsTo P R := by
  intro n hn
  obtain ⟨m, hnm, hm⟩ := hPQ n hn
  obtain ⟨k, hmk, hk⟩ := hQR m hm
  exact ⟨k, hnm.trans hmk, hk⟩

theorem LeadsTo.or (hP : x.LeadsTo P Q) (hP' : x.LeadsTo P' Q) :
    x.LeadsTo (fun s => P s ∨ P' s) Q := by
  rintro n (hn | hn)
  · exact hP n hn
  · exact hP' n hn

theorem LeadsTo.exists {ι : Sort w} {P : ι → σ → Prop} (h : ∀ i, x.LeadsTo (P i) Q) :
    x.LeadsTo (fun s => ∃ i, P i s) Q := by
  rintro n ⟨i, hi⟩
  exact h i n hi

/-- A stage on the way to the end of `D`: it leads to the next stage or to that end. -/
theorem LeadsTo.stage {D : σ → Prop} (hP : x.LeadsTo P fun s => ¬ D s ∨ R s)
    (hR : x.LeadsTo (fun s => D s ∧ R s) fun s => ¬ D s) : x.LeadsTo P fun s => ¬ D s := by
  refine hP.trans fun n hn => ?_
  by_cases hD : D (x.state n)
  · exact hR n ⟨hD, hn.resolve_left (not_not_intro hD)⟩
  · exact ⟨n, le_rfl, hD⟩

/-- What every step keeps holds on. -/
theorem stable {n m : ℕ} (hstep : ∀ k a, n ≤ k → x.act k = some a → P (x.state k) →
    P (x.state (k + 1))) (hnm : n ≤ m) (hn : P (x.state n)) : P (x.state m) := by
  induction m, hnm using Nat.le_induction with
  | base => exact hn
  | succ m hnm ih =>
    cases hact : x.act m with
    | none => rwa [x.rests m hact]
    | some a => exact hstep m a hnm hact ih

/-- What holds at a moment and not at a later one ends at a step between them. -/
theorem exists_step_of_not {n m : ℕ} (hnm : n ≤ m) (hn : P (x.state n)) (hm : ¬ P (x.state m)) :
    ∃ k a, n ≤ k ∧ x.act k = some a ∧ P (x.state k) ∧ ¬ P (x.state (k + 1)) := by
  induction m, hnm using Nat.le_induction with
  | base => exact absurd hn hm
  | succ m hnm ih =>
    by_cases hP : P (x.state m)
    · cases hact : x.act m with
      | none =>
        rw [x.rests m hact] at hm
        exact absurd hP hm
      | some a => exact ⟨m, a, hnm, hact, hP, hm⟩
    · exact ih hP

/-- A class none of whose actions can be taken in the end is not left aside. -/
theorem stronglyFair_of_not_enabled {A : α → Prop} {n : ℕ}
    (h : ∀ m, n ≤ m → ¬ S.Enabled A (x.state m)) : x.StronglyFair A := by
  intro k hk
  obtain ⟨m, hm, henabled⟩ := hk (max n k) (le_max_right n k)
  exact absurd henabled (h m ((le_max_left n k).trans hm))

theorem StronglyFair.weaklyFair {A : α → Prop} (h : x.StronglyFair A) : x.WeaklyFair A :=
  fun n hn => h n fun m hnm => ⟨m, le_rfl, hn m hnm⟩

theorem weaklyFair_of_not_enabled {A : α → Prop} {n : ℕ}
    (h : ∀ m, n ≤ m → ¬ S.Enabled A (x.state m)) : x.WeaklyFair A :=
  (stronglyFair_of_not_enabled h).weaklyFair

/-- What ends only with `Q` comes to it, if an action that leads there can be taken again and
again. -/
theorem leadsTo_of_stronglyFair {A : α → Prop} (hfair : x.StronglyFair A)
    (hkeep : ∀ n a, x.act n = some a → P (x.state n) → P (x.state (n + 1)) ∨ Q (x.state (n + 1)))
    (hact : ∀ n a, x.act n = some a → P (x.state n) → A a → Q (x.state (n + 1)))
    (hR : x.LeadsTo P R) (henabled : ∀ n, P (x.state n) → R (x.state n) → S.Enabled A (x.state n)) :
    x.LeadsTo P Q := by
  intro n hn
  by_contra hnever
  push Not at hnever
  have hstays : ∀ m, n ≤ m → P (x.state m) := by
    intro m hnm
    refine stable (fun k a hnk hka hk => ?_) hnm hn
    exact (hkeep k a hka hk).resolve_right (hnever (k + 1) (by omega))
  obtain ⟨m, hnm, a, hma, ha⟩ := hfair n fun m hnm => by
    obtain ⟨k, hmk, hk⟩ := hR m (hstays m hnm)
    exact ⟨k, hmk, henabled k (hstays k (hnm.trans hmk)) hk⟩
  exact hnever (m + 1) (by omega) (hact m a hma (hstays m hnm) ha)

section OfRun

variable {s : σ} {as : List α}

theorem isSome_run_take (hrun : (S.run s as).isSome) (n : ℕ) :
    (S.run s (as.take n)).isSome := by
  rw [← List.take_append_drop n as, run_append] at hrun
  exact Option.isSome_of_isSome_bind hrun

/-- A finite run, after which nothing happens. -/
def ofRun (as : List α) (h0 : S.init s) (hrun : (S.run s as).isSome) : S.Execution where
  state n := (S.run s (as.take n)).get (isSome_run_take hrun n)
  act n := as[n]?
  init := by simpa using h0
  rests n hact := by
    have hlen := List.getElem?_eq_none_iff.1 hact
    simp only [List.take_of_length_le hlen, List.take_of_length_le (Nat.le_succ_of_le hlen)]
  steps n a hact := by
    have htake : as.take (n + 1) = as.take n ++ [a] := by
      rw [List.take_add_one, hact, Option.toList_some]
    obtain ⟨t, ht⟩ := Option.isSome_iff_exists.1 (isSome_run_take hrun n)
    have hnext := isSome_run_take hrun (n + 1)
    simp only [htake, run_append, ht, Option.bind_some, run_cons] at hnext ⊢
    simp

@[simp] theorem ofRun_act (h0 : S.init s) (hrun : (S.run s as).isSome) (n : ℕ) :
    (ofRun as h0 hrun).act n = as[n]? := rfl

theorem ofRun_state (h0 : S.init s) (hrun : (S.run s as).isSome) (n : ℕ) :
    S.run s (as.take n) = some ((ofRun as h0 hrun).state n) := by
  simp [ofRun]

/-- At the end the run rests. -/
theorem ofRun_state_of_length_le (h0 : S.init s) (hrun : (S.run s as).isSome) {n : ℕ}
    (hn : as.length ≤ n) : (ofRun as h0 hrun).state n = (ofRun as h0 hrun).state as.length := by
  simp only [ofRun, List.take_of_length_le hn, List.take_length]

theorem ofRun_under (h0 : S.init s) (hrun : (S.run s as).isSome) (h : S.EachStep C s as) :
    (ofRun as h0 hrun).Under C := by
  intro n a hact
  have hstate := ofRun_state h0 hrun n
  revert hstate hact
  generalize (ofRun as h0 hrun).state n = t
  rw [ofRun_act]
  clear hrun h0
  intro hact hstate
  induction n generalizing s as with
  | zero =>
    cases as with
    | nil => cases hact
    | cons b as =>
      cases hact
      cases hstate
      exact h.1
  | succ n ih =>
    cases as with
    | nil => cases hact
    | cons b as =>
      rw [List.take_succ_cons, run_cons, Option.bind_eq_some_iff] at hstate
      obtain ⟨u, hu, hstate⟩ := hstate
      exact ih (h.2 u hu) (by simpa using hact) hstate

end OfRun

end Execution

/-- While `P` holds and `Q` does not, there is a party in `K` that can move and is `helpful`. Its
moves bring the rank down or lead to `Q`, and so do the moves of others, unless they leave the rank
as it is and the party helpful. -/
structure Ranking {κ : Type*} {β : Type*} [Preorder β] (S : TransitionSystem σ α)
    (C : σ → α → Prop) (I P Q : σ → Prop) (K : Set κ) (moves : κ → α → Prop)
    (helpful : κ → σ → Prop) (rank : σ → β) : Prop where
  party : ∀ s, I s → P s → ¬ Q s → ∃ k ∈ K, helpful k s
  enabled : ∀ s k, I s → P s → ¬ Q s → helpful k s → S.Enabled (moves k) s
  step : ∀ s a s' k, I s → P s → ¬ Q s → helpful k s → C s a → S.step s a = some s' →
    Q s' ∨ P s' ∧ (rank s' < rank s ∨ rank s' = rank s ∧ ¬ moves k a ∧ helpful k s')

/-- A run that is fair to the parties gets from `P` to `Q`: the rank does not fall for ever. -/
theorem Ranking.leadsTo {κ : Type*} {β : Type*} [Preorder β] [WellFoundedLT β]
    {x : S.Execution} {C : σ → α → Prop} {I P Q : σ → Prop} {K : Set κ} {moves : κ → α → Prop}
    {helpful : κ → σ → Prop} {rank : σ → β} (h : S.Ranking C I P Q K moves helpful rank)
    (hC : x.Under C) (hI : ∀ n, I (x.state n)) (hfair : ∀ k ∈ K, x.WeaklyFair (moves k)) :
    x.LeadsTo P Q := by
  intro n hP
  induction hr : rank (x.state n) using WellFoundedLT.induction generalizing n with
  | ind b ih =>
    subst hr
    by_contra hnever
    push Not at hnever
    obtain ⟨k, hk, hhelp⟩ := h.party _ (hI n) hP (hnever n le_rfl)
    have hstep : ∀ m a, n ≤ m → P (x.state m) → helpful k (x.state m) → x.act m = some a →
        P (x.state (m + 1)) ∧ (rank (x.state (m + 1)) < rank (x.state m) ∨
          rank (x.state (m + 1)) = rank (x.state m) ∧ ¬ moves k a ∧
            helpful k (x.state (m + 1))) := by
      intro m a hnm hPm hm hact
      exact (h.step _ a _ k (hI m) hPm (hnever m hnm) hm (hC m a hact)
        (x.steps m a hact)).resolve_left (hnever (m + 1) (by omega))
    -- The rank never falls below that of moment `n`, so the party stays helpful.
    have hstays : ∀ m, n ≤ m →
        P (x.state m) ∧ rank (x.state m) = rank (x.state n) ∧ helpful k (x.state m) := by
      intro m hnm
      induction m, hnm using Nat.le_induction with
      | base => exact ⟨hP, rfl, hhelp⟩
      | succ m hnm ihm =>
        obtain ⟨hPm, hrank, hm⟩ := ihm
        cases hact : x.act m with
        | none =>
          rw [x.rests m hact]
          exact ⟨hPm, hrank, hm⟩
        | some a =>
          obtain ⟨hP', hlt | ⟨heq, -, hm'⟩⟩ := hstep m a hnm hPm hm hact
          · rw [hrank] at hlt
            obtain ⟨m', hm', hQ⟩ := ih _ hlt (m + 1) hP' rfl
            exact absurd hQ (hnever m' (by omega))
          · exact ⟨hP', heq.trans hrank, hm'⟩
    obtain ⟨m, hnm, a, hact, ha⟩ := hfair k hk n fun m hnm =>
      h.enabled _ k (hI m) (hstays m hnm).1 (hnever m hnm) (hstays m hnm).2.2
    obtain ⟨hPm, hrank, hm⟩ := hstays m hnm
    rcases (hstep m a hnm hPm hm hact).2 with hlt | ⟨-, hnot, -⟩
    · rw [hrank, (hstays (m + 1) (by omega)).2.1] at hlt
      exact absurd hlt (lt_irrefl _)
    · exact hnot ha

/-! ### Systems in step with each other -/

section Lockstep

variable {τ : Type*} {T : TransitionSystem τ α} {R : σ → τ → Prop}

/-- What the other system does meanwhile. -/
def follow (T : TransitionSystem τ α) (t : τ) (act : ℕ → Option α) : ℕ → τ
  | 0 => t
  | n + 1 => (act n).elim (follow T t act n) fun a =>
      (T.step (follow T t act n) a).getD (follow T t act n)

/-- A run of one of two systems in lockstep is a run of the other. -/
theorem Lockstep.execution (h : Lockstep S T R) (x : S.Execution) :
    ∃ y : T.Execution, y.act = x.act ∧ ∀ n, R (x.state n) (y.state n) := by
  obtain ⟨t, ht, hst⟩ := h.init _ x.init
  have hrel : ∀ n, R (x.state n) (follow T t x.act n) := by
    intro n
    induction n with
    | zero => exact hst
    | succ n ih =>
      cases hact : x.act n with
      | none =>
        rw [x.rests n hact, follow, hact]
        exact ih
      | some a =>
        obtain ⟨t', ht', hrel⟩ := h.step_some ih (x.steps n a hact)
        rw [follow, hact, Option.elim_some, ht', Option.getD_some]
        exact hrel
  refine ⟨⟨follow T t x.act, x.act, ht, fun n hact => by rw [follow, hact]; rfl,
    fun n a hact => ?_⟩, rfl, hrel⟩
  obtain ⟨t', ht', -⟩ := h.step_some (hrel n) (x.steps n a hact)
  rw [follow, hact, Option.elim_some, ht', Option.getD_some]

theorem Lockstep.enabled_iff (h : Lockstep S T R) {s : σ} {t : τ} (hst : R s t) {A : α → Prop} :
    S.Enabled A s ↔ T.Enabled A t :=
  exists_congr fun a => and_congr_right fun _ => h.isSome_step hst a

theorem Lockstep.weaklyFair (h : Lockstep S T R) {x : S.Execution} {y : T.Execution}
    (hact : y.act = x.act) (hrel : ∀ n, R (x.state n) (y.state n)) {A : α → Prop}
    (hfair : x.WeaklyFair A) : y.WeaklyFair A := by
  intro n hn
  rw [hact]
  exact hfair n fun m hm => (h.enabled_iff (hrel m)).2 (hn m hm)

end Lockstep

/-! ### Systems on top of another -/

section RunsOn

variable {τ : Type w} {β : Type*} {T : TransitionSystem τ β} {part : σ → τ}
  {label : σ → α → Option β} {x : S.Execution}

/-- Each step of `S` is a step of `T` on a part of the state, or it leaves that part as it is. -/
structure RunsOn (S : TransitionSystem σ α) (T : TransitionSystem τ β) (part : σ → τ)
    (label : σ → α → Option β) : Prop where
  init : ∀ s, S.init s → T.init (part s)
  rests : ∀ s a s', S.step s a = some s' → label s a = none → part s' = part s
  steps : ∀ s a s' b, S.step s a = some s' → label s a = some b →
    T.step (part s) b = some (part s')

/-- What `S` can reach is for `T` what `T` can reach. -/
theorem RunsOn.reachableUnder (h : RunsOn S T part label) {C : σ → α → Prop} {D : τ → β → Prop}
    (hD : ∀ s a b, C s a → label s a = some b → D (part s) b) {s : σ}
    (hs : S.ReachableUnder C s) : T.ReachableUnder D (part s) := by
  induction hs with
  | init h0 => exact .init (h.init _ h0)
  | @step s s' a _ hc hstep ih =>
    cases hlabel : label s a with
    | none => rwa [h.rests _ _ _ hstep hlabel]
    | some b => exact .step ih (hD _ _ _ hc hlabel) (h.steps _ _ _ _ hstep hlabel)

/-- What the run is for `T`. -/
def RunsOn.execution (h : RunsOn S T part label) (x : S.Execution) : T.Execution where
  state n := part (x.state n)
  act n := (x.act n).bind (label (x.state n))
  init := h.init _ x.init
  rests n hact := by
    cases ha : x.act n with
    | none => rw [x.rests n ha]
    | some a =>
      rw [ha, Option.bind_some] at hact
      exact h.rests _ _ _ (x.steps n a ha) hact
  steps n b hact := by
    obtain ⟨a, ha, hb⟩ := Option.bind_eq_some_iff.1 hact
    exact h.steps _ _ _ _ (x.steps n a ha) hb

theorem RunsOn.under (h : RunsOn S T part label) {C : σ → α → Prop} {D : τ → β → Prop}
    (hC : x.Under C) (hD : ∀ s a b, C s a → label s a = some b → D (part s) b) :
    (h.execution x).Under D := by
  intro n b hact
  obtain ⟨a, ha, hb⟩ := Option.bind_eq_some_iff.1 hact
  exact hD _ _ _ (hC n a ha) hb

/-- What leads `T` to a state leads `S` to one whose part it is. -/
theorem RunsOn.leadsTo (h : RunsOn S T part label) {P Q : τ → Prop}
    (hPQ : (h.execution x).LeadsTo P Q) : x.LeadsTo (fun s => P (part s)) fun s => Q (part s) :=
  hPQ

/-- A run is fair to a class of `T` if it is fair to a class of `S` that can act whenever that one
can, and whose own steps come to an end: they bring a rank down, and only a step of the class of `T`
raises it. -/
theorem RunsOn.weaklyFair (h : RunsOn S T part label) {A : α → Prop} {B : β → Prop} {I : σ → Prop}
    {rank : σ → ℕ} (hI : ∀ n, I (x.state n))
    (henabled : ∀ s, I s → T.Enabled B (part s) → S.Enabled A s)
    (hstep : ∀ s a s', I s → S.step s a = some s' →
      (∃ b, label s a = some b ∧ B b) ∨ rank s' ≤ rank s ∧ (A a → rank s' < rank s))
    (hfair : x.WeaklyFair A) : (h.execution x).WeaklyFair B := by
  intro n hn
  by_contra hnever
  push Not at hnever
  have hquiet : ∀ m a, n ≤ m → x.act m = some a →
      rank (x.state (m + 1)) ≤ rank (x.state m) ∧
        (A a → rank (x.state (m + 1)) < rank (x.state m)) := by
    intro m a hnm hact
    rcases hstep _ _ _ (hI m) (x.steps m a hact) with ⟨b, hb, hB⟩ | hrank
    · exact absurd hB (hnever m hnm b (by simp [execution, hact, hb]))
    · exact hrank
  have hmono : ∀ m m', n ≤ m → m ≤ m' → rank (x.state m') ≤ rank (x.state m) := by
    intro m m' hnm hmm'
    induction m', hmm' using Nat.le_induction with
    | base => exact le_rfl
    | succ m' hmm' ih =>
      cases hact : x.act m' with
      | none => rwa [x.rests m' hact]
      | some a => exact (hquiet m' a (hnm.trans hmm') hact).1.trans ih
  -- The class acts again and again, and each time the rank falls.
  have hfalls : ∀ m, n ≤ m → ∃ m', m < m' ∧ rank (x.state m') < rank (x.state m) := by
    intro m hnm
    obtain ⟨k, hmk, a, hact, ha⟩ := hfair m fun k hmk => henabled _ (hI k) (hn k (hnm.trans hmk))
    exact ⟨k + 1, by omega, ((hquiet k a (hnm.trans hmk) hact).2 ha).trans_le (hmono m k hnm hmk)⟩
  have hnone : ∀ r m, n ≤ m → rank (x.state m) ≠ r := by
    intro r
    induction r using Nat.strong_induction_on with
    | _ r ih =>
      rintro m hnm rfl
      obtain ⟨m', hmm', hlt⟩ := hfalls m hnm
      exact ih _ hlt m' (by omega) rfl
  exact hnone _ n le_rfl rfl

/-- The rule for a class of `S` all of whose steps are steps of the class of `T`. -/
theorem RunsOn.weaklyFair_of_steps (h : RunsOn S T part label) {A : α → Prop} {B : β → Prop}
    (henabled : ∀ s, T.Enabled B (part s) → S.Enabled A s)
    (hstep : ∀ s a s', S.step s a = some s' → A a → ∃ b, label s a = some b ∧ B b)
    (hfair : x.WeaklyFair A) : (h.execution x).WeaklyFair B := by
  intro n hn
  obtain ⟨m, hnm, a, hact, ha⟩ := hfair n fun m hm => henabled _ (hn m hm)
  obtain ⟨b, hb, hB⟩ := hstep _ _ _ (x.steps m a hact) ha
  exact ⟨m, hnm, b, by simp [execution, hact, hb], hB⟩

end RunsOn

end TransitionSystem
