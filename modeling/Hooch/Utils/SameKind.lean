import Hooch.Utils.RingThreads

/-!
# Concurrent calls of the same kind

Any number of threads push at once, or any number of threads pop at once. A push tests fullness,
later loads `end`, writes the slot it found there and only then stores the next `end`; two pushes
that overlap write the same slot, and pops overlap in the same way (`same_kind_share_slot`).

`SlotClaimedAlone` and `SlotTakenAlone` say when the load that claims a slot is harmless. Under
them any number of pushes fill the free space in the order of their writes and any number of pops
empty the buffer from the front (`same_kind_safe`); the invariants are `Pushers` and `Poppers`.
-/

namespace Hooch

namespace LockFreeBoundedRingBuffer

variable {τ T : Type*}

/-! ### Popping until `None` -/

/-- Pop until `None`, for at most `fuel` pops. -/
def drain : ℕ → LockFreeBoundedRingBuffer T → Option (List (Option T))
  | 0, _ => none
  | fuel + 1, r =>
      match r.pop with
      | (none, _) => some []
      | (some v, r') => (drain fuel r').map fun vs => v :: vs

theorem Holds.drain {r : LockFreeBoundedRingBuffer T} {q : List T} (h : Holds r q) {fuel : ℕ}
    (hf : q.length < fuel) : drain fuel r = some (q.map some) := by
  induction fuel generalizing r q with
  | zero => omega
  | succ fuel ih =>
    rw [LockFreeBoundedRingBuffer.drain]
    cases q with
    | nil => rw [h.pop_nil]; rfl
    | cons x q =>
      obtain ⟨hx, hq⟩ := h.pop
      rw [show r.pop = (some (some x), r.pop.2) from Prod.ext hx rfl]
      simp only [ih hq (by simpa using hf), Option.map_some, List.map_cons]

/-! ### The calls and the conditions -/

/-- No thread pops. -/
def PushesOnly : Move τ T → Prop
  | .call _ .pop => False
  | _ => True

/-- No thread pushes. -/
def PopsOnly : Move τ T → Prop
  | .call _ (.push _) => False
  | _ => True

/-- The next step of the call is a push's load of `end`. -/
def claimsNext : Option (Pc T) → Bool
  | some (.pushLoadEnd _) => true
  | _ => false

/-- The push has loaded `end` and has not yet stored the next one. -/
def claimsSlot : Option (Pc T) → Bool
  | some (.pushWrite _ _) | some (.pushAdd _ _) | some (.pushStoreEnd _ _) => true
  | _ => false

/-- A push loads `end` only when no other push stands between its own load and store of `end`,
and when the buffer is still not full. -/
def SlotClaimedAlone (s : Threads τ T) : Move τ T → Prop
  | .step t => claimsNext (s.pc t) = true →
      s.ring.count ≠ s.ring.capacity ∧ ∀ t', claimsSlot (s.pc t') = false
  | .call _ _ => True

/-- The next step of the call is a pop's load of `start`. -/
def popsNext : Option (Pc T) → Bool
  | some .popLoadStart => true
  | _ => false

/-- The pop has loaded `start` and has neither returned nor stored the next one. -/
def holdsStart : Option (Pc T) → Bool
  | some (.popLoadEnd _) | some (.popLoadCount _) | some (.popTake _) | some (.popSub _ _)
  | some (.popStoreStart _ _) => true
  | _ => false

/-- The pop has decided to take the slot at the `start` it loaded. -/
def takesSlot : Option (Pc T) → Bool
  | some (.popTake _) | some (.popSub _ _) | some (.popStoreStart _ _) => true
  | _ => false

/-- A pop loads `start` only when no other pop stands between its own load of `start` and its
end, or when the buffer is empty and no pop is taking a slot. -/
def SlotTakenAlone (s : Threads τ T) : Move τ T → Prop
  | .step t => popsNext (s.pc t) = true →
      (∀ t', holdsStart (s.pc t') = false) ∨
        s.ring.start = s.ring.end_ ∧ s.ring.count = 0 ∧ ∀ t', takesSlot (s.pc t') = false
  | .call _ _ => True

instance (a : Move τ T) : Decidable (PushesOnly a) :=
  match a with
  | .call _ .pop => inferInstanceAs (Decidable False)
  | .call _ (.push _) => inferInstanceAs (Decidable True)
  | .step _ => inferInstanceAs (Decidable True)

instance (a : Move τ T) : Decidable (PopsOnly a) :=
  match a with
  | .call _ .pop => inferInstanceAs (Decidable True)
  | .call _ (.push _) => inferInstanceAs (Decidable False)
  | .step _ => inferInstanceAs (Decidable True)

instance [Fintype τ] (s : Threads τ T) (a : Move τ T) : Decidable (SlotClaimedAlone s a) :=
  match a with
  | .step t => inferInstanceAs (Decidable (claimsNext (s.pc t) = true →
      s.ring.count ≠ s.ring.capacity ∧ ∀ t', claimsSlot (s.pc t') = false))
  | .call _ _ => inferInstanceAs (Decidable True)

instance [Fintype τ] (s : Threads τ T) (a : Move τ T) : Decidable (SlotTakenAlone s a) :=
  match a with
  | .step t => inferInstanceAs (Decidable (popsNext (s.pc t) = true →
      (∀ t', holdsStart (s.pc t') = false) ∨
        s.ring.start = s.ring.end_ ∧ s.ring.count = 0 ∧ ∀ t', takesSlot (s.pc t') = false))
  | .call _ _ => inferInstanceAs (Decidable True)

/-- What concurrent pushes owe, from a buffer of the given capacity that held `q₀`. -/
structure PushersSafe (capacity : ℕ) (q₀ : List T) (s : Threads τ T) : Prop where
  /-- No two of them write the same slot. -/
  distinct : ((writes s.trace).map Prod.fst).Nodup
  /-- No more of them return `Ok` than there was free space. -/
  room : (oks s.trace).length ≤ capacity - q₀.length
  /-- When all have finished, popping until `None` yields the earlier contents and then the
  values whose push returned `Ok`, each once. -/
  drained : (∀ t, s.pc t = none) → ∀ fuel, q₀.length + (oks s.trace).length < fuel →
    ∃ vs, vs.Perm (oks s.trace) ∧ drain fuel s.ring = some ((q₀ ++ vs).map some)

/-- What concurrent pops owe, from a buffer that held `q₀`. -/
structure PoppersSafe (q₀ : List T) (s : Threads τ T) : Prop where
  /-- No slot is taken twice. -/
  distinct : ((takes s.trace).map Prod.fst).Nodup
  /-- No element is returned twice. -/
  returned : (pops s.trace).Subperm (q₀.map some)
  /-- No empty slot is taken. -/
  full : ∀ w ∈ takes s.trace, w.2 ≠ none

/-! ### Concurrent pushes -/

/-- What a pushing thread has read, when the buffer holds `q`. -/
def PusherOk (r : LockFreeBoundedRingBuffer T) (q : List T) : Option (Pc T) → Prop
  | none | some (.pushLen _) | some (.pushLoadEnd _) => True
  | some (.pushWrite _ e) => q.length < r.capacity ∧ e = r.end_
  | some (.pushAdd _ e) | some (.pushStoreEnd _ e) => e = r.end_
  | _ => False

/-- The buffer holds `q` up to a push that stands at `pc`. -/
def PushedUpTo (s : Threads τ T) (q : List T) (pc : Option (Pc T)) : Prop :=
  Mid s.ring (pushPhase pc) .rest q ∧ oks s.trace ++ pendingPush pc = written s.trace

/-- At most one push holds a slot, and the buffer holds `q` up to that push. -/
structure Pushers (capacity : ℕ) (q₀ q : List T) (s : Threads τ T) : Prop where
  ok : ∀ t, PusherOk s.ring q (s.pc t)
  unique : ∀ t t', claimsSlot (s.pc t) = true → claimsSlot (s.pc t') = true → t = t'
  busy : ∀ t, claimsSlot (s.pc t) = true → PushedUpTo s q (s.pc t)
  idle : (∀ t, claimsSlot (s.pc t) = false) → PushedUpTo s q none
  contents : q = q₀ ++ written s.trace
  capacity_eq : s.ring.capacity = capacity
  distinct : ((writes s.trace).map Prod.fst).Nodup
  occupied : ∀ i ∈ (writes s.trace).map Prod.fst, s.ring.buffer i ≠ none

variable {capacity : ℕ} {q₀ q : List T} {s : Threads τ T}

theorem PusherOk.of_not_claims {r : LockFreeBoundedRingBuffer T} {pc : Option (Pc T)}
    (h : PusherOk r q pc) (hpc : claimsSlot pc = false) (r' : LockFreeBoundedRingBuffer T)
    (q' : List T) : PusherOk r' q' pc := by
  unfold PusherOk at h ⊢
  split at h <;> simp_all [claimsSlot]

theorem Pushers.length_eq (h : Pushers capacity q₀ q s) :
    q.length = q₀.length + (written s.trace).length := by
  rw [h.contents, List.length_append]

theorem Pushers.oks_sublist (h : Pushers capacity q₀ q s) :
    (oks s.trace).length ≤ (written s.trace).length ∧ q.length ≤ capacity := by
  by_cases hall : ∀ t, claimsSlot (s.pc t) = false
  · obtain ⟨hmid, hoks⟩ := h.idle hall
    have hlen : q.length + 0 ≤ s.ring.capacity := hmid.length_le
    exact ⟨by rw [← hoks]; simp, h.capacity_eq ▸ hlen⟩
  · obtain ⟨t, ht⟩ := not_forall.1 hall
    obtain ⟨hmid, hoks⟩ := h.busy t (by simpa using ht)
    have hlen : q.length + 0 ≤ s.ring.capacity := hmid.length_le
    exact ⟨by rw [← hoks]; simp, h.capacity_eq ▸ hlen⟩

theorem Pushers.safe (h : Pushers capacity q₀ q s) : PushersSafe capacity q₀ s where
  distinct := h.distinct
  room := by
    obtain ⟨hoks, hle⟩ := h.oks_sublist
    have := h.length_eq
    omega
  drained := by
    intro hnone fuel hfuel
    obtain ⟨hmid, hoks⟩ := h.idle fun t => by rw [hnone t]; rfl
    refine ⟨oks s.trace, .refl _, ?_⟩
    have hq : q = q₀ ++ oks s.trace := by
      rw [h.contents, ← hoks]
      exact congrArg _ (List.append_nil _)
    rw [← hq]
    exact Holds.drain hmid (by rw [hq, List.length_append]; exact hfuel)

variable [DecidableEq τ]

/-- Where `p` holds of no other thread, it holds at most of the one that moves. -/
theorem eq_of_update {p : Option (Pc T) → Bool} {pcs : τ → Option (Pc T)} {t u : τ}
    {pc : Option (Pc T)} (halone : ∀ u, u ≠ t → p (pcs u) = false)
    (hu : p (Function.update pcs t pc u) = true) : u = t := by
  by_contra hne
  rw [Function.update_of_ne hne, halone u hne] at hu
  cases hu

/-- A step that neither claims nor holds a slot. -/
theorem Pushers.of_unclaimed (h : Pushers capacity q₀ q s) {t : τ} {pc : Option (Pc T)}
    {event : Option (Event T)} (hold : claimsSlot (s.pc t) = false) (hnew : claimsSlot pc = false)
    (hok : PusherOk s.ring q pc) (hwrites : writes event.toList = [])
    (hoks : oks event.toList = []) :
    Pushers capacity q₀ q ⟨s.ring, Function.update s.pc t pc, s.trace ++ event.toList⟩ := by
  have hclaims : ∀ u, claimsSlot (Function.update s.pc t pc u) = claimsSlot (s.pc u) := by
    intro u
    by_cases hu : u = t
    · subst hu; rw [Function.update_self, hnew, hold]
    · rw [Function.update_of_ne hu]
  have hupto : ∀ pc', PushedUpTo s q pc' →
      PushedUpTo ⟨s.ring, Function.update s.pc t pc, s.trace ++ event.toList⟩ q pc' := by
    rintro pc' ⟨hmid, hpend⟩
    exact ⟨hmid, by simpa [hoks, written, hwrites] using hpend⟩
  constructor
  · intro u
    by_cases hu : u = t
    · subst hu; simpa only [Function.update_self] using hok
    · simpa only [Function.update_of_ne hu] using h.ok u
  · intro u u' hu hu'
    exact h.unique u u' (by rwa [← hclaims]) (by rwa [← hclaims])
  · intro u hu
    have hut : u ≠ t := by
      rintro rfl
      simp only [Function.update_self, hnew] at hu
      cases hu
    simp only [hclaims] at hu
    simpa only [Function.update_of_ne hut] using hupto _ (h.busy u hu)
  · intro hall
    exact hupto _ (h.idle fun u => by rw [← hclaims]; exact hall u)
  · simpa [written, hwrites] using h.contents
  · exact h.capacity_eq
  · simpa [hwrites] using h.distinct
  · simpa [hwrites] using h.occupied

/-- A step of the only push that holds a slot, before or after it. -/
theorem Pushers.of_claimed (h : Pushers capacity q₀ q s) {t : τ}
    (halone : ∀ u, u ≠ t → claimsSlot (s.pc u) = false)
    {r : LockFreeBoundedRingBuffer T} {pc : Option (Pc T)} {event : Option (Event T)} {q' : List T}
    (hmid : Mid r (pushPhase pc) .rest q')
    (hpend : oks s.trace ++ oks event.toList ++ pendingPush pc =
      written s.trace ++ written event.toList)
    (hrest : claimsSlot pc = false → pushPhase pc = .rest ∧ pendingPush pc = [])
    (hok : PusherOk r q' pc) (hq : q' = q ++ written event.toList)
    (hcap : r.capacity = s.ring.capacity)
    (hslots : ∀ i, s.ring.buffer i ≠ none → r.buffer i ≠ none)
    (hdistinct : ((writes s.trace).map Prod.fst ++ (writes event.toList).map Prod.fst).Nodup)
    (hoccupied : ∀ i ∈ (writes event.toList).map Prod.fst, r.buffer i ≠ none) :
    Pushers capacity q₀ q' ⟨r, Function.update s.pc t pc, s.trace ++ event.toList⟩ := by
  have honly : ∀ u, claimsSlot (Function.update s.pc t pc u) = true → u = t :=
    fun _ => eq_of_update halone
  constructor
  · intro u
    by_cases hu : u = t
    · subst hu; simpa only [Function.update_self] using hok
    · simpa only [Function.update_of_ne hu] using (h.ok u).of_not_claims (halone u hu) r q'
  · intro u u' hu hu'
    rw [honly u hu, honly u' hu']
  · intro u hu
    obtain rfl := honly u hu
    exact ⟨by simpa only [Function.update_self] using hmid, by simpa using hpend⟩
  · intro hall
    have hpc : claimsSlot pc = false := by simpa using hall t
    obtain ⟨hphase, hnil⟩ := hrest hpc
    rw [hphase] at hmid
    rw [hnil] at hpend
    exact ⟨hmid, by simpa [pendingPush] using hpend⟩
  · rw [hq, h.contents]
    simp
  · exact hcap.trans h.capacity_eq
  · simpa using hdistinct
  · intro i hi
    rw [writes_append, List.map_append, List.mem_append] at hi
    exact hi.elim (fun hi => hslots i (h.occupied i hi)) (hoccupied i)

theorem Pushers.step (h : Pushers capacity q₀ q s) {t : τ} {pc : Pc T} (ht : s.pc t = some pc)
    (hclaim : SlotClaimedAlone s (.step t)) :
    ∃ q', Pushers capacity q₀ q'
      ⟨(pc.exec s.ring).1, Function.update s.pc t (pc.exec s.ring).2.2,
        s.trace ++ (pc.exec s.ring).2.1.toList⟩ := by
  have hok := h.ok t
  rw [ht] at hok
  -- a thread that holds a slot is the only one
  have halone : claimsSlot (some pc) = true → ∀ u, u ≠ t → claimsSlot (s.pc u) = false := by
    intro hpc u hu
    by_contra hne
    exact hu (h.unique u t (by simpa using hne) (by rw [ht]; exact hpc))
  have hbusy : claimsSlot (some pc) = true → PushedUpTo s q (some pc) := by
    intro hpc
    rw [← ht]
    exact h.busy t (by rw [ht]; exact hpc)
  cases pc with
  | pushLen v =>
    have hold : claimsSlot (s.pc t) = false := by rw [ht]; rfl
    by_cases hfull : s.ring.len = s.ring.capacity
    · simp only [Pc.exec, if_pos hfull]
      exact ⟨q, h.of_unclaimed hold rfl trivial rfl rfl⟩
    · simp only [Pc.exec, if_neg hfull]
      exact ⟨q, h.of_unclaimed hold rfl trivial rfl rfl⟩
  | pushLoadEnd v =>
    obtain ⟨hcount, hfree⟩ := hclaim (by rw [ht]; rfl)
    obtain ⟨hmid, hpend⟩ := h.idle hfree
    have hce : s.ring.count + 0 = q.length + 0 := hmid.count_eq
    have := hmid.count_le
    exact ⟨q, h.of_claimed (fun u _ => hfree u) hmid (by simpa [Pc.exec, oks, written, writes,
      pendingPush] using hpend) (fun hf => by simp [Pc.exec, claimsSlot] at hf)
      ⟨show q.length < s.ring.capacity by omega, rfl⟩ (by simp [Pc.exec, written, writes]) rfl
      (fun _ hi => hi)
      (by simpa [Pc.exec, writes] using h.distinct) (by simp [Pc.exec, writes])⟩
  | pushWrite v e =>
    obtain ⟨hroom, rfl⟩ := hok
    obtain ⟨hmid, hpend⟩ := hbusy rfl
    obtain ⟨hnone, hmid'⟩ := Mid.write hmid (by simpa [PopPhase.uncounted] using hroom) v
    refine ⟨q ++ [v], h.of_claimed (halone rfl) hmid' ?_ (fun hf => by
      simp [Pc.exec, claimsSlot] at hf) rfl (by simp [Pc.exec, written, writes]) rfl ?_ ?_ ?_⟩
    · simpa [Pc.exec, oks, written, writes, pendingPush] using hpend
    · intro i hi
      by_cases he : i = s.ring.end_
      · subst he; simp [Pc.exec, insertValue]
      · simpa [Pc.exec, insertValue, Function.update_of_ne he] using hi
    · -- the slot was empty, so it is none of those written before
      have hnew : s.ring.end_ ∉ (writes s.trace).map Prod.fst := fun hmem =>
        h.occupied _ hmem hnone
      exact h.distinct.append (List.nodup_singleton _) (List.disjoint_singleton.2 hnew)
    · simp [Pc.exec, writes, insertValue]
  | pushAdd v e =>
    obtain rfl : e = s.ring.end_ := hok
    obtain ⟨hmid, hpend⟩ := hbusy rfl
    exact ⟨q, h.of_claimed (halone rfl) (Mid.add hmid).2 (by simpa [Pc.exec, oks, written, writes,
      pendingPush] using hpend) (fun hf => by simp [Pc.exec, claimsSlot] at hf) rfl
      (by simp [Pc.exec, written, writes]) rfl (fun _ hi => hi)
      (by simpa [Pc.exec, writes] using h.distinct) (by simp [Pc.exec, writes])⟩
  | pushStoreEnd v e =>
    obtain rfl : e = s.ring.end_ := hok
    obtain ⟨hmid, hpend⟩ := hbusy rfl
    exact ⟨q, h.of_claimed (halone rfl) (Mid.storeEnd hmid) (by simpa [Pc.exec, oks, written,
      writes, pendingPush] using hpend) (fun _ => ⟨rfl, rfl⟩) trivial
      (by simp [Pc.exec, written, writes]) rfl (fun _ hi => hi)
      (by simpa [Pc.exec, writes] using h.distinct) (by simp [Pc.exec, writes])⟩
  | _ => exact hok.elim

theorem Pushers.call (h : Pushers capacity q₀ q s) {t : τ} {op : Op T}
    (hpush : PushesOnly (.call t op)) (ht : s.pc t = none) :
    Pushers capacity q₀ q { s with pc := Function.update s.pc t (some op.entry) } := by
  cases op with
  | pop => exact hpush.elim
  | push v =>
    have hentry : Pushers capacity q₀ q ⟨s.ring, Function.update s.pc t (some (.pushLen v)),
        s.trace ++ (none : Option (Event T)).toList⟩ :=
      h.of_unclaimed (by rw [ht]; rfl) rfl trivial rfl rfl
    simpa [Op.entry] using hentry

/-! ### Concurrent pops -/

/-- What a popping thread has read, when the buffer holds `q`. -/
def PopperOk (r : LockFreeBoundedRingBuffer T) (q : List T) : Option (Pc T) → Prop
  | none | some .popLoadStart => True
  | some (.popLoadEnd i) | some (.popLoadCount i) => i = r.start
  | some (.popTake i) => i = r.start ∧ q ≠ []
  | some (.popSub i _) | some (.popStoreStart i _) => i = r.start
  | _ => False

/-- The buffer holds `q` down to a pop that stands at `pc`. -/
def PoppedDownTo (s : Threads τ T) (q : List T) (pc : Option (Pc T)) : Prop :=
  Mid s.ring .rest (popPhase pc) q ∧ pops s.trace ++ pendingPop pc = taken s.trace

/-- Two pops that both hold a `start` found the buffer empty; the buffer holds `q` down to the
pop that takes a slot. -/
structure Poppers (q₀ q : List T) (s : Threads τ T) : Prop where
  ok : ∀ t, PopperOk s.ring q (s.pc t)
  apart : ∀ t t', t ≠ t' → holdsStart (s.pc t) = true → holdsStart (s.pc t') = true →
    q = [] ∧ takesSlot (s.pc t) = false
  busy : ∀ t, takesSlot (s.pc t) = true → PoppedDownTo s q (s.pc t)
  idle : (∀ t, takesSlot (s.pc t) = false) → PoppedDownTo s q none
  contents : q₀.map some = taken s.trace ++ q.map some
  distinct : ((takes s.trace).map Prod.fst).Nodup
  emptied : ∀ i ∈ (takes s.trace).map Prod.fst, s.ring.buffer i = none

theorem holdsStart_of_takesSlot {pc : Option (Pc T)} (h : takesSlot pc = true) :
    holdsStart pc = true := by
  unfold takesSlot at h
  split at h <;> first | rfl | cases h

theorem none_takes {t : τ} (hold : takesSlot (s.pc t) = false)
    (hothers : ∀ u, u ≠ t → takesSlot (s.pc u) ≠ true) (u : τ) : takesSlot (s.pc u) = false := by
  by_cases hu : u = t
  · rw [hu]; exact hold
  · exact Bool.eq_false_iff.2 (hothers u hu)

/-- A thread that holds no `start` has read nothing. -/
theorem PopperOk.of_not_holds {r : LockFreeBoundedRingBuffer T} {pc : Option (Pc T)}
    (h : PopperOk r q pc) (hpc : holdsStart pc = false) (r' : LockFreeBoundedRingBuffer T)
    (q' : List T) : PopperOk r' q' pc := by
  unfold PopperOk at h ⊢
  split at h <;> simp_all [holdsStart]

omit [DecidableEq τ] in
theorem Poppers.safe (h : Poppers q₀ q s) : PoppersSafe q₀ s where
  distinct := h.distinct
  returned := by
    have hprefix : ∃ pc, pops s.trace ++ pendingPop pc = taken s.trace := by
      by_cases hall : ∀ t, takesSlot (s.pc t) = false
      · exact ⟨none, (h.idle hall).2⟩
      · obtain ⟨t, ht⟩ := not_forall.1 hall
        exact ⟨s.pc t, (h.busy t (by simpa using ht)).2⟩
    obtain ⟨pc, hpc⟩ := hprefix
    rw [h.contents, ← hpc, List.append_assoc]
    exact (List.sublist_append_left _ _).subperm
  full := by
    intro w hw hnone
    have hmem : (none : Option T) ∈ q₀.map some := by
      rw [h.contents, List.mem_append]
      exact Or.inl (List.mem_map.2 ⟨w, hw, hnone⟩)
    simp at hmem

/-- A step that does not touch the buffer and, if it holds a `start` afterwards, is alone or on
an empty buffer. -/
theorem Poppers.of_looking (h : Poppers q₀ q s) {t : τ} {pc : Option (Pc T)}
    {event : Option (Event T)} (hold : takesSlot (s.pc t) = false)
    (hnew : ∀ u, u ≠ t → holdsStart (s.pc u) = true → holdsStart pc = true →
      q = [] ∧ takesSlot (s.pc u) = false ∧ takesSlot pc = false)
    (hphase : takesSlot pc = true → popPhase pc = .rest ∧ pendingPop pc = [])
    (hidle : takesSlot pc = true → ∀ u, takesSlot (s.pc u) = false)
    (hok : PopperOk s.ring q pc) (htakes : takes event.toList = [])
    (hpops : pops event.toList = []) :
    Poppers q₀ q ⟨s.ring, Function.update s.pc t pc, s.trace ++ event.toList⟩ := by
  have hdown : ∀ pc', PoppedDownTo s q pc' →
      PoppedDownTo ⟨s.ring, Function.update s.pc t pc, s.trace ++ event.toList⟩ q pc' := by
    rintro pc' ⟨hmid, hpend⟩
    exact ⟨hmid, by simpa [hpops, taken, htakes] using hpend⟩
  constructor
  · intro u
    by_cases hu : u = t
    · subst hu; simpa only [Function.update_self] using hok
    · simpa only [Function.update_of_ne hu] using h.ok u
  · intro u u' hne hu hu'
    by_cases hut : u = t
    · subst hut
      simp only [Function.update_self, Function.update_of_ne hne.symm] at hu hu' ⊢
      exact ⟨(hnew u' hne.symm hu' hu).1, (hnew u' hne.symm hu' hu).2.2⟩
    · by_cases hut' : u' = t
      · subst hut'
        simp only [Function.update_self, Function.update_of_ne hut] at hu hu' ⊢
        exact ⟨(hnew u hut hu hu').1, (hnew u hut hu hu').2.1⟩
      · simp only [Function.update_of_ne hut, Function.update_of_ne hut'] at hu hu' ⊢
        exact h.apart u u' hne hu hu'
  · intro u hu
    by_cases hut : u = t
    · subst hut
      simp only [Function.update_self] at hu ⊢
      obtain ⟨hrest, hnil⟩ := hphase hu
      obtain ⟨hmid, hpend⟩ := hdown _ (h.idle (hidle hu))
      exact ⟨by rw [hrest]; exact hmid, by rw [hnil]; exact hpend⟩
    · simp only [Function.update_of_ne hut] at hu ⊢
      exact hdown _ (h.busy u hu)
  · intro hall
    refine hdown _ (h.idle fun u => ?_)
    by_cases hut : u = t
    · rw [hut]; exact hold
    · simpa only [Function.update_of_ne hut] using hall u
  · simpa [taken, htakes] using h.contents
  · simpa [htakes] using h.distinct
  · simpa [htakes] using h.emptied

/-- A step of the pop that takes a slot: it is the only one that holds a `start`. -/
theorem Poppers.of_taking (h : Poppers q₀ q s) {t : τ}
    (halone : ∀ u, u ≠ t → holdsStart (s.pc u) = false)
    {r : LockFreeBoundedRingBuffer T} {pc : Option (Pc T)} {event : Option (Event T)} {q' : List T}
    (hmid : Mid r .rest (popPhase pc) q')
    (hpend : pops s.trace ++ pops event.toList ++ pendingPop pc =
      taken s.trace ++ taken event.toList)
    (hrest : takesSlot pc = false → popPhase pc = .rest ∧ pendingPop pc = [])
    (hok : PopperOk r q' pc) (hq : q.map some = taken event.toList ++ q'.map some)
    (hslots : ∀ i, s.ring.buffer i = none → r.buffer i = none)
    (hdistinct : ((takes s.trace).map Prod.fst ++ (takes event.toList).map Prod.fst).Nodup)
    (hemptied : ∀ i ∈ (takes event.toList).map Prod.fst, r.buffer i = none) :
    Poppers q₀ q' ⟨r, Function.update s.pc t pc, s.trace ++ event.toList⟩ := by
  have honly : ∀ u, holdsStart (Function.update s.pc t pc u) = true → u = t :=
    fun _ => eq_of_update halone
  constructor
  · intro u
    by_cases hu : u = t
    · subst hu; simpa only [Function.update_self] using hok
    · simpa only [Function.update_of_ne hu] using (h.ok u).of_not_holds (halone u hu) r q'
  · intro u u' hne hu hu'
    exact absurd ((honly u hu).trans (honly u' hu').symm) hne
  · intro u hu
    obtain rfl := honly u (holdsStart_of_takesSlot hu)
    exact ⟨by simpa only [Function.update_self] using hmid, by simpa using hpend⟩
  · intro hall
    have hpc : takesSlot pc = false := by simpa using hall t
    obtain ⟨hphase, hnil⟩ := hrest hpc
    rw [hphase] at hmid
    rw [hnil] at hpend
    exact ⟨hmid, by simpa [pendingPop] using hpend⟩
  · rw [taken_append, List.append_assoc, ← hq]
    exact h.contents
  · simpa using hdistinct
  · intro i hi
    rw [takes_append, List.map_append, List.mem_append] at hi
    exact hi.elim (fun hi => hslots i (h.emptied i hi)) (hemptied i)

/-- A pop whose loads tell that the buffer is not empty takes the slot at `start`; it is the only
one that holds a `start`. -/
theorem Poppers.of_deciding (h : Poppers q₀ q s) {t : τ} (hhold : holdsStart (s.pc t) = true)
    (hold : takesSlot (s.pc t) = false)
    (hloads : ¬ (s.ring.start = s.ring.end_ ∧ s.ring.count = 0)) :
    Poppers q₀ q
      ⟨s.ring, Function.update s.pc t (some (.popTake s.ring.start)), s.trace ++ []⟩ := by
  have hq : q ≠ [] := by
    rintro rfl
    have hfree : ∀ u, takesSlot (s.pc u) = false := none_takes hold fun u hu htakes => by
      rw [(h.apart u t hu (holdsStart_of_takesSlot htakes) hhold).2] at htakes
      cases htakes
    exact hloads (Holds.empty_iff (h.idle hfree).1 |>.2 rfl)
  have halone : ∀ u, u ≠ t → holdsStart (s.pc u) = false := by
    intro u hu
    by_contra hne
    exact hq (h.apart u t hu (by simpa using hne) hhold).1
  have hfree : ∀ u, takesSlot (s.pc u) = false := none_takes hold fun u hu htakes => by
    have := holdsStart_of_takesSlot htakes
    rw [halone u hu] at this
    cases this
  show Poppers q₀ q ⟨_, _, s.trace ++ (none : Option (Event T)).toList⟩
  refine h.of_looking hold (fun u hu hholds _ => ?_) (fun _ => ⟨rfl, rfl⟩)
    (fun _ => hfree) ⟨rfl, hq⟩ rfl rfl
  rw [halone u hu] at hholds
  cases hholds

theorem Poppers.step (h : Poppers q₀ q s) {t : τ} {pc : Pc T} (ht : s.pc t = some pc)
    (htake : SlotTakenAlone s (.step t)) :
    ∃ q', Poppers q₀ q'
      ⟨(pc.exec s.ring).1, Function.update s.pc t (pc.exec s.ring).2.2,
        s.trace ++ (pc.exec s.ring).2.1.toList⟩ := by
  have hok := h.ok t
  rw [ht] at hok
  have hnot : takesSlot (some pc) = false → holdsStart (some pc) = true →
      ∀ u, u ≠ t → holdsStart (s.pc u) = true → q = [] ∧ takesSlot (s.pc u) = false := by
    intro _ hhold u hu hholds
    exact h.apart u t hu hholds (by rw [ht]; exact hhold)
  -- a pop that takes a slot holds a `start`, and no other pop does
  have halone : takesSlot (some pc) = true → ∀ u, u ≠ t → holdsStart (s.pc u) = false := by
    intro hpc u hu
    by_contra hne
    have := (h.apart t u hu.symm (by rw [ht]; exact holdsStart_of_takesSlot hpc)
      (by simpa using hne)).2
    rw [ht, hpc] at this
    cases this
  have hbusy : takesSlot (some pc) = true → PoppedDownTo s q (some pc) := by
    intro hpc
    rw [← ht]
    exact h.busy t (by rw [ht]; exact hpc)
  cases pc with
  | popLoadStart =>
    refine ⟨q, h.of_looking (by rw [ht]; rfl) ?_ (fun hf => by cases hf)
      (fun hf => by cases hf) rfl rfl rfl⟩
    intro u hu hholds _
    rcases htake (by rw [ht]; rfl) with hfree | ⟨hse, hcount, hfree⟩
    · rw [hfree u] at hholds
      cases hholds
    · exact ⟨(Holds.empty_iff (h.idle hfree).1).1 ⟨hse, hcount⟩, hfree u, rfl⟩
  | popLoadEnd i =>
    obtain rfl : i = s.ring.start := hok
    by_cases he : s.ring.start = s.ring.end_
    · simp only [Pc.exec, if_pos he]
      refine ⟨q, h.of_looking (by rw [ht]; rfl) ?_ (fun hf => by cases hf)
        (fun hf => by cases hf) rfl rfl rfl⟩
      intro u hu hholds _
      exact ⟨(hnot rfl rfl u hu hholds).1, (hnot rfl rfl u hu hholds).2, rfl⟩
    · simp only [Pc.exec, if_neg he]
      exact ⟨q, h.of_deciding (by rw [ht]; rfl) (by rw [ht]; rfl) fun hl => he hl.1⟩
  | popLoadCount i =>
    obtain rfl : i = s.ring.start := hok
    by_cases h0 : s.ring.count = 0
    · simp only [Pc.exec, if_pos h0]
      exact ⟨q, h.of_looking (by rw [ht]; rfl) (fun _ _ _ hf => by cases hf)
        (fun hf => by cases hf) (fun hf => by cases hf) trivial rfl rfl⟩
    · simp only [Pc.exec, if_neg h0]
      exact ⟨q, h.of_deciding (by rw [ht]; rfl) (by rw [ht]; rfl) fun hl => h0 hl.2⟩
  | popTake i =>
    obtain ⟨rfl, hne⟩ := hok
    obtain ⟨hmid, hpend⟩ := hbusy rfl
    obtain ⟨x, q', rfl⟩ := List.exists_cons_of_ne_nil hne
    obtain ⟨hx, hmid'⟩ := Mid.take hmid
    refine ⟨q', h.of_taking (halone rfl) hmid' ?_ (fun hf => by cases hf) rfl ?_ ?_ ?_ ?_⟩
    · simpa [Pc.exec, pops, taken, takes, pendingPop, getValue] using hpend
    · simp [Pc.exec, taken, takes, getValue, hx]
    · intro i hi
      by_cases he : i = s.ring.start
      · subst he; simp [Pc.exec, getValue]
      · simpa [Pc.exec, getValue, Function.update_of_ne he] using hi
    · -- the slot holds a value, so it is none of those taken before
      have hnew : s.ring.start ∉ (takes s.trace).map Prod.fst := fun hmem => by
        rw [h.emptied _ hmem] at hx
        cases hx
      exact h.distinct.append (List.nodup_singleton _) (List.disjoint_singleton.2 hnew)
    · simp [Pc.exec, takes, getValue]
  | popSub i v =>
    obtain rfl : i = s.ring.start := hok
    obtain ⟨hmid, hpend⟩ := hbusy rfl
    have hcount : s.ring.count + 0 = q.length + 1 := hmid.count_eq
    exact ⟨q, h.of_taking (halone rfl) (Mid.sub hmid (by omega)).2 (by simpa [Pc.exec, pops, taken,
      takes, pendingPop] using hpend) (fun hf => by cases hf) rfl (by simp [Pc.exec, taken, takes])
      (fun _ hi => hi) (by simpa [Pc.exec, takes] using h.distinct) (by simp [Pc.exec, takes])⟩
  | popStoreStart i v =>
    obtain rfl : i = s.ring.start := hok
    obtain ⟨hmid, hpend⟩ := hbusy rfl
    exact ⟨q, h.of_taking (halone rfl) (Mid.storeStart hmid) (by simpa [Pc.exec, pops, taken,
      takes, pendingPop] using hpend) (fun _ => ⟨rfl, rfl⟩) trivial
      (by simp [Pc.exec, taken, takes])
      (fun _ hi => hi) (by simpa [Pc.exec, takes] using h.distinct) (by simp [Pc.exec, takes])⟩
  | _ => exact hok.elim

theorem Poppers.call (h : Poppers q₀ q s) {t : τ} {op : Op T}
    (hpop : PopsOnly (.call t op)) (ht : s.pc t = none) :
    Poppers q₀ q { s with pc := Function.update s.pc t (some op.entry) } := by
  cases op with
  | push v => exact hpop.elim
  | pop =>
    have hentry : Poppers q₀ q ⟨s.ring, Function.update s.pc t (some .popLoadStart),
        s.trace ++ (none : Option (Event T)).toList⟩ :=
      h.of_looking (by rw [ht]; rfl) (fun _ _ _ hf => by cases hf) (fun hf => by cases hf)
        (fun hf => by cases hf) trivial rfl rfl
    simpa [Op.entry] using hentry

/-! ### The results -/

/-- From a buffer at rest that holds `q₀`: any number of pushes in any interleaving fill its free
space, each in a slot of its own, as long as each push loads `end` while no other push holds a
slot and the buffer is still not full; any number of pops in any interleaving take its elements,
each once, as long as each pop loads `start` while no other pop holds a `start`, or on an empty
buffer. -/
theorem same_kind_safe {r₀ : LockFreeBoundedRingBuffer T} (h₀ : Holds r₀ q₀) :
    (∀ s : Threads τ T,
      (threads r₀).ReachableUnder (fun s a => PushesOnly a ∧ SlotClaimedAlone s a) s →
        PushersSafe r₀.capacity q₀ s) ∧
    ∀ s : Threads τ T,
      (threads r₀).ReachableUnder (fun s a => PopsOnly a ∧ SlotTakenAlone s a) s →
        PoppersSafe q₀ s := by
  constructor
  · intro s hs
    have hinv : ∃ q, Pushers r₀.capacity q₀ q s := by
      refine hs.invariant (I := fun s => ∃ q, Pushers r₀.capacity q₀ q s) ?_ ?_
      · rintro s rfl
        exact ⟨q₀, fun _ => trivial, (fun _ _ ht => by cases ht), (fun _ ht => by cases ht),
          fun _ => ⟨h₀, rfl⟩, by simp [written, writes], rfl, by simp [writes], by simp [writes]⟩
      · rintro s a s' ⟨q, hq⟩ ⟨hpush, hclaim⟩ hstep
        cases a with
        | call t op =>
          obtain ⟨ht, rfl⟩ := Threads.next_call hstep
          exact ⟨q, hq.call hpush ht⟩
        | step t =>
          obtain ⟨pc, ht, rfl⟩ := Threads.next_step hstep
          exact hq.step ht hclaim
    obtain ⟨q, hq⟩ := hinv
    exact hq.safe
  · intro s hs
    have hinv : ∃ q, Poppers q₀ q s := by
      refine hs.invariant (I := fun s => ∃ q, Poppers q₀ q s) ?_ ?_
      · rintro s rfl
        exact ⟨q₀, fun _ => trivial, (fun _ _ _ ht => by cases ht), (fun _ ht => by cases ht),
          fun _ => ⟨h₀, rfl⟩, by simp [taken, takes], by simp [takes], by simp [takes]⟩
      · rintro s a s' ⟨q, hq⟩ ⟨hpop, htake⟩ hstep
        cases a with
        | call t op =>
          obtain ⟨ht, rfl⟩ := Threads.next_call hstep
          exact ⟨q, hq.call hpop ht⟩
        | step t =>
          obtain ⟨pc, ht, rfl⟩ := Threads.next_step hstep
          exact hq.step ht htake
    obtain ⟨q, hq⟩ := hinv
    exact hq.safe

/-- Two pushes on an empty buffer of two slots: both load `end` before either stores it. -/
def overlappingPushes : List (Move Bool ℕ) :=
  [.call true (.push 7), .call false (.push 8), .step true, .step false, .step true, .step false,
    .step true, .step false]

/-- Two pops on a full buffer of two slots: both load `start` before either stores it. -/
def overlappingPops : List (Move Bool ℕ) :=
  [.call true .pop, .call false .pop] ++
    (List.replicate 4 [.step true, .step false]).flatten

/-- Without the conditions two pushes write the slot `0`, and two pops take it. -/
theorem same_kind_share_slot :
    (¬ ∀ s : Threads Bool ℕ, (threads (new 2)).ReachableUnder (fun _ a => PushesOnly a) s →
      PushersSafe 2 [] s) ∧
    ¬ ∀ s : Threads Bool ℕ,
      (threads (((new 2 : LockFreeBoundedRingBuffer ℕ).push 7).2.push 8).2).ReachableUnder
        (fun _ a => PopsOnly a) s → PoppersSafe [7, 8] s := by
  constructor
  · intro hall
    obtain ⟨s, hs, hslots⟩ := TransitionSystem.exists_reachableUnder
      (S := threads (new 2)) (C := fun _ a => PushesOnly a) rfl overlappingPushes
      (p := fun s => (writes s.trace).map Prod.fst = [0, 0]) (by decide)
    have hdistinct := (hall s hs).distinct
    rw [hslots] at hdistinct
    exact absurd hdistinct (by decide)
  · intro hall
    obtain ⟨s, hs, htakes⟩ := TransitionSystem.exists_reachableUnder
      (S := threads (((new 2 : LockFreeBoundedRingBuffer ℕ).push 7).2.push 8).2)
      (C := fun _ a => PopsOnly a) rfl overlappingPops
      (p := fun s => takes s.trace = [(0, some 7), (0, none)]) (by decide)
    exact (hall s hs).full (0, none) (by rw [htakes]; simp) rfl

/-- Two pushes, one after the other up to the load of `end`. -/
def alternatingPushes : List (Move Bool ℕ) :=
  [.call true (.push 7), .call false (.push 8), .step true, .step false, .step true, .step true,
    .step true, .step true, .step false, .step false, .step false, .step false]

/-- Two pops, one after the other up to the load of `start`. -/
def alternatingPops : List (Move Bool ℕ) :=
  [.call true .pop, .call false .pop] ++ List.replicate 6 (.step true) ++
    List.replicate 5 (.step false)

theorem same_kind_safe_alternating :
    (∃ s : Threads Bool ℕ, PushersSafe 2 [] s ∧ oks s.trace = [7, 8]) ∧
      ∃ s : Threads Bool ℕ, PoppersSafe [7, 8] s ∧ pops s.trace = [some 7, some 8] := by
  have hnew : Holds (new 2 : LockFreeBoundedRingBuffer ℕ) [] := Holds.new (by decide)
  have hfull : Holds (((new 2 : LockFreeBoundedRingBuffer ℕ).push 7).2.push 8).2 [7, 8] :=
    ((hnew.push (by decide) 7).2.push (by decide) 8).2
  constructor
  · obtain ⟨s, hs, hoks⟩ := TransitionSystem.exists_reachableUnder
      (S := threads (new 2)) (C := fun s a => PushesOnly a ∧ SlotClaimedAlone s a) rfl
      alternatingPushes (p := fun s => oks s.trace = [7, 8]) (by decide)
    exact ⟨s, (same_kind_safe hnew).1 s hs, hoks⟩
  · obtain ⟨s, hs, hpops⟩ := TransitionSystem.exists_reachableUnder
      (S := threads (((new 2 : LockFreeBoundedRingBuffer ℕ).push 7).2.push 8).2)
      (C := fun s a => PopsOnly a ∧ SlotTakenAlone s a) rfl alternatingPops
      (p := fun s => pops s.trace = [some 7, some 8]) (by decide)
    exact ⟨s, (same_kind_safe hfull).2 s hs, hpops⟩

end LockFreeBoundedRingBuffer

end Hooch
