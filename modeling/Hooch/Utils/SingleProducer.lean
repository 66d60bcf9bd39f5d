import Hooch.Utils.RingThreads

/-!
# One producer and one consumer

One thread pushes and another pops, in any interleaving of their atomic steps. A push adds to
`count` before it stores `end`; in between, a pop may take the element and leave `start` one
place past `end`, so that the next pop finds the two indices different on an empty buffer and
takes a slot that holds nothing (`takes_empty_slot`).

`EndStored` is the condition that excludes exactly this load. Under it the buffer is a queue
(`spsc_safe`): the invariant `Spsc` ties the half-finished push and the half-finished pop to the
shape `Mid` of the buffer.
-/

namespace Hooch

open Circular

namespace LockFreeBoundedRingBuffer

variable {τ T : Type*}

/-- Only `p` pushes and only `c` pops. -/
def Roles (p c : τ) : Move τ T → Prop
  | .call t (.push _) => t = p
  | .call t .pop => t = c
  | .step _ => True

instance [DecidableEq τ] (p c : τ) (a : Move τ T) : Decidable (Roles p c a) :=
  match a with
  | .call t (.push _) => inferInstanceAs (Decidable (t = p))
  | .call t .pop => inferInstanceAs (Decidable (t = c))
  | .step _ => inferInstanceAs (Decidable True)

/-- The next step of the call is a pop's load of `end`. -/
def loadsEnd : Option (Pc T) → Bool
  | some (.popLoadEnd _) => true
  | _ => false

/-- A pop does not load `end` while `count` is `0` and `start` and `end` differ: no push stands
between its `fetch_add` and its store of `end` with its value already popped. -/
def EndStored (s : Threads τ T) : Move τ T → Prop
  | .step t => loadsEnd (s.pc t) = true → s.ring.count = 0 → s.ring.start = s.ring.end_
  | .call _ _ => True

instance (s : Threads τ T) (a : Move τ T) : Decidable (EndStored s a) :=
  match a with
  | .step t => inferInstanceAs
      (Decidable (loadsEnd (s.pc t) = true → s.ring.count = 0 → s.ring.start = s.ring.end_))
  | .call _ _ => inferInstanceAs (Decidable True)

/-- What a queue shared by one producer and one consumer owes them. -/
structure QueueSafe (s : Threads τ T) : Prop where
  /-- No pop took a slot that held no value. -/
  take_full : ∀ w ∈ takes s.trace, w.2 ≠ none
  /-- `fetch_sub` is never executed on `0`. -/
  sub_pos : ∀ t i v, s.pc t = some (.popSub i v) → 0 < s.ring.count
  count_le : s.ring.count ≤ s.ring.capacity
  /-- No push overwrote a slot that held a value. -/
  write_empty : ∀ w ∈ writes s.trace, w.2.1 = none
  /-- What was taken out of slots is a prefix of what was written into them, in order. -/
  taken_prefix : taken s.trace <+: (written s.trace).map some
  /-- So is what the pops returned. -/
  pops_prefix : pops s.trace <+: (written s.trace).map some

/-! ### The invariant -/

/-- What the producer has read, `n` being the number of elements not yet counted out. -/
def ProducerOk (r : LockFreeBoundedRingBuffer T) (n : ℕ) : Option (Pc T) → Prop
  | none | some (.pushLen _) => True
  | some (.pushLoadEnd _) => n < r.capacity
  | some (.pushWrite _ e) => n < r.capacity ∧ e = r.end_
  | some (.pushAdd _ e) | some (.pushStoreEnd _ e) => e = r.end_
  | _ => False

/-- What the consumer has read. -/
def ConsumerOk (r : LockFreeBoundedRingBuffer T) : Option (Pc T) → Prop
  | none | some .popLoadStart => True
  | some (.popLoadEnd i) | some (.popLoadCount i) => i = r.start
  | some (.popTake i) | some (.popSub i _) => i = r.start ∧ 0 < r.count
  | some (.popStoreStart i _) => i = r.start
  | _ => False

/-- The buffer holds `q`, up to the half-finished push of `p` and pop of `c`. -/
structure Spsc (p c : τ) (q : List T) (s : Threads τ T) : Prop where
  others : ∀ t, t ≠ p → t ≠ c → s.pc t = none
  shape : Mid s.ring (pushPhase (s.pc p)) (popPhase (s.pc c)) q
  producer : ProducerOk s.ring (q.length + (popPhase (s.pc c)).uncounted) (s.pc p)
  consumer : ConsumerOk s.ring (s.pc c)
  write_empty : ∀ w ∈ writes s.trace, w.2.1 = none
  take_full : ∀ w ∈ takes s.trace, w.2 ≠ none
  order : (written s.trace).map some = taken s.trace ++ q.map some
  returned : pops s.trace ++ pendingPop (s.pc c) = taken s.trace

variable {p c : τ} {q : List T} {s : Threads τ T}

theorem ProducerOk.mono {r r' : LockFreeBoundedRingBuffer T} {n n' : ℕ} {pc : Option (Pc T)}
    (h : ProducerOk r n pc) (hn : n' ≤ n) (hc : r'.capacity = r.capacity) (he : r'.end_ = r.end_) :
    ProducerOk r' n' pc := by
  unfold ProducerOk at h ⊢
  split at h <;> simp_all <;> omega

theorem ConsumerOk.mono {r r' : LockFreeBoundedRingBuffer T} {pc : Option (Pc T)}
    (h : ConsumerOk r pc) (hs : r'.start = r.start) (hc : r.count ≤ r'.count) :
    ConsumerOk r' pc := by
  unfold ConsumerOk at h ⊢
  split at h <;> simp_all <;> omega

theorem Spsc.safe (h : Spsc p c q s) : QueueSafe s where
  take_full := h.take_full
  sub_pos := by
    intro t i v ht
    by_cases htc : t = c
    · subst htc
      have hc := h.consumer
      rw [ht] at hc
      exact hc.2
    · by_cases htp : t = p
      · subst htp
        have hp := h.producer
        rw [ht] at hp
        exact hp.elim
      · rw [h.others t htp htc] at ht
        cases ht
  count_le := h.shape.count_le
  write_empty := h.write_empty
  taken_prefix := ⟨q.map some, h.order.symm⟩
  pops_prefix := by
    refine ⟨pendingPop (s.pc c) ++ q.map some, ?_⟩
    rw [← List.append_assoc, h.returned, h.order]

/-- When the two indices differ on a counter of `0`, the slot at `start` is empty. -/
theorem Spsc.start_empty (h : Spsc p c q s) (hc : popPhase (s.pc c) = .rest)
    (hcount : s.ring.count = 0) (hne : s.ring.start ≠ s.ring.end_) :
    s.ring.buffer s.ring.start = none := by
  have hmid := h.shape
  rw [hc] at hmid
  have hcap : 0 < s.ring.capacity := by
    have := hmid.start_lt
    have := hmid.end_lt
    omega
  have hstart := hmid.start_lt_capacity hcap
  have hq : q = [] := by
    cases hp : pushPhase (s.pc p) with
    | written =>
      -- the one element is at `end`, which is then `start`
      exfalso
      rw [hp] at hmid
      have hlen : q.length = 1 := by
        have hce : s.ring.count + 1 = q.length + 0 := hmid.count_eq
        omega
      have hend : succ s.ring.capacity s.ring.end_ = shift s.ring.capacity s.ring.start 1 := by
        rw [← hlen]
        exact hmid.end_eq
      have hone : succ s.ring.capacity s.ring.start = shift s.ring.capacity s.ring.start 1 := by
        have := succ_shift hstart hcap
        rwa [shift_zero hstart] at this
      exact hne
        (succ_injective (hmid.end_lt_capacity hcap) hstart (hend.trans hone.symm)).symm
    | rest | counted =>
      rw [hp] at hmid
      have hce : s.ring.count + 0 = q.length + 0 := hmid.count_eq
      exact List.eq_nil_of_length_eq_zero (by omega)
  subst hq
  exact hmid.window.head hstart

variable [DecidableEq τ]

/-- What a step of the producer has to preserve; `event` is a slot write or nothing. -/
theorem Spsc.of_producer (hpc : p ≠ c) (h : Spsc p c q s) {r : LockFreeBoundedRingBuffer T}
    {pc : Option (Pc T)} {event : Option (Event T)} {q' : List T}
    (shape : Mid r (pushPhase pc) (popPhase (s.pc c)) q')
    (producer : ProducerOk r (q'.length + (popPhase (s.pc c)).uncounted) pc)
    (start_eq : r.start = s.ring.start) (count_le : s.ring.count ≤ r.count)
    (hwrite : ∀ w ∈ writes event.toList, w.2.1 = none)
    (horder : q' = q ++ written event.toList)
    (htakes : takes event.toList = []) (hpops : pops event.toList = []) :
    Spsc p c q' ⟨r, Function.update s.pc p pc, s.trace ++ event.toList⟩ := by
  have hc : Function.update s.pc p pc c = s.pc c := Function.update_of_ne hpc.symm _ _
  constructor
  · intro t htp htc
    simp only [Function.update_of_ne htp]
    exact h.others t htp htc
  · simpa only [Function.update_self, hc] using shape
  · simpa only [Function.update_self, hc] using producer
  · simpa only [hc] using h.consumer.mono start_eq count_le
  · intro w hw
    rw [writes_append, List.mem_append] at hw
    exact hw.elim (h.write_empty w) (hwrite w)
  · simpa [htakes] using h.take_full
  · simp [taken, htakes, horder, h.order]
  · simpa [hc, hpops, taken, htakes] using h.returned

/-- What a step of the consumer has to preserve; `event` is a slot take, a return or nothing. -/
theorem Spsc.of_consumer (hpc : p ≠ c) (h : Spsc p c q s) {r : LockFreeBoundedRingBuffer T}
    {pc : Option (Pc T)} {event : Option (Event T)} {q' : List T}
    (shape : Mid r (pushPhase (s.pc p)) (popPhase pc) q')
    (consumer : ConsumerOk r pc)
    (count_le : q'.length + (popPhase pc).uncounted ≤
      q.length + (popPhase (s.pc c)).uncounted)
    (capacity_eq : r.capacity = s.ring.capacity) (end_eq : r.end_ = s.ring.end_)
    (htake : ∀ w ∈ takes event.toList, w.2 ≠ none)
    (horder : q.map some = taken event.toList ++ q'.map some)
    (hreturn : pops event.toList ++ pendingPop pc = pendingPop (s.pc c) ++ taken event.toList)
    (hwrites : writes event.toList = []) :
    Spsc p c q' ⟨r, Function.update s.pc c pc, s.trace ++ event.toList⟩ := by
  have hp : Function.update s.pc c pc p = s.pc p := Function.update_of_ne hpc _ _
  constructor
  · intro t htp htc
    simp only [Function.update_of_ne htc]
    exact h.others t htp htc
  · simpa only [Function.update_self, hp] using shape
  · simpa only [Function.update_self, hp] using h.producer.mono count_le capacity_eq end_eq
  · simpa only [Function.update_self] using consumer
  · simpa [hwrites] using h.write_empty
  · intro w hw
    rw [takes_append, List.mem_append] at hw
    exact hw.elim (h.take_full w) (htake w)
  · rw [written_append, show written event.toList = [] by simp [written, hwrites],
      List.append_nil, taken_append, List.append_assoc, ← horder]
    exact h.order
  · simp only [Function.update_self, pops_append, taken_append, List.append_assoc, hreturn]
    rw [← List.append_assoc, h.returned]

theorem Spsc.producer_step (hpc : p ≠ c) (h : Spsc p c q s) {pc : Pc T} (hp : s.pc p = some pc) :
    ∃ q', Spsc p c q'
      ⟨(pc.exec s.ring).1, Function.update s.pc p (pc.exec s.ring).2.2,
        s.trace ++ (pc.exec s.ring).2.1.toList⟩ := by
  have hshape := h.shape
  have hok := h.producer
  rw [hp] at hshape hok
  cases pc with
  | pushLen v =>
    by_cases hfull : s.ring.len = s.ring.capacity
    · simp only [Pc.exec, if_pos hfull]
      exact ⟨q, h.of_producer hpc hshape trivial rfl le_rfl (by simp [writes])
        (by simp [written, writes]) rfl rfl⟩
    · simp only [Pc.exec, if_neg hfull]
      refine ⟨q, h.of_producer hpc hshape ?_ rfl le_rfl (by simp [writes])
        (by simp [written, writes]) rfl rfl⟩
      -- no element of this push is uncounted, so `count` bounds the queue
      have hcount : s.ring.count = _ := hshape.count_eq
      have := hshape.count_le
      have : ¬ s.ring.count = s.ring.capacity := hfull
      show q.length + (popPhase (s.pc c)).uncounted < s.ring.capacity
      omega
  | pushLoadEnd v =>
    exact ⟨q, h.of_producer hpc hshape ⟨hok, rfl⟩ rfl le_rfl (by simp [Pc.exec, writes])
      (by simp [Pc.exec, written, writes]) rfl rfl⟩
  | pushWrite v e =>
    obtain ⟨hroom, rfl⟩ := hok
    obtain ⟨hnone, hmid⟩ := Mid.write hshape hroom v
    exact ⟨q ++ [v], h.of_producer hpc hmid rfl rfl le_rfl (by simp [Pc.exec, writes, hnone])
      (by simp [Pc.exec, written, writes]) rfl rfl⟩
  | pushAdd v e =>
    obtain rfl : e = s.ring.end_ := hok
    obtain ⟨hcount, hmid⟩ := Mid.add hshape
    exact ⟨q, h.of_producer hpc hmid rfl rfl (by simp only [Pc.exec]; omega)
      (by simp [Pc.exec, writes]) (by simp [Pc.exec, written, writes]) rfl rfl⟩
  | pushStoreEnd v e =>
    obtain rfl : e = s.ring.end_ := hok
    exact ⟨q, h.of_producer hpc hshape.storeEnd trivial rfl le_rfl (by simp [Pc.exec, writes])
      (by simp [Pc.exec, written, writes]) rfl rfl⟩
  | _ => exact hok.elim

/-- The step where the condition is needed is the load of `end`. -/
theorem Spsc.consumer_step (hpc : p ≠ c) (h : Spsc p c q s) {pc : Pc T} (hc : s.pc c = some pc)
    (hend : loadsEnd (some pc) = true → s.ring.count = 0 → s.ring.start = s.ring.end_) :
    ∃ q', Spsc p c q'
      ⟨(pc.exec s.ring).1, Function.update s.pc c (pc.exec s.ring).2.2,
        s.trace ++ (pc.exec s.ring).2.1.toList⟩ := by
  have hshape := h.shape
  have hok := h.consumer
  have hlen : q.length + (popPhase (s.pc c)).uncounted =
      q.length + (popPhase (some pc)).uncounted := by
    rw [hc]
  rw [hc] at hshape hok
  cases pc with
  | popLoadStart =>
    exact ⟨q, h.of_consumer hpc hshape rfl hlen.ge rfl rfl (by simp [Pc.exec, takes])
      (by simp [Pc.exec, taken, takes]) (by simp [hc]; rfl) rfl⟩
  | popLoadEnd i =>
    obtain rfl : i = s.ring.start := hok
    by_cases he : s.ring.start = s.ring.end_
    · simp only [Pc.exec, if_pos he]
      exact ⟨q, h.of_consumer hpc hshape rfl hlen.ge rfl rfl (by simp [takes])
        (by simp [taken, takes]) (by simp [hc]; rfl) rfl⟩
    · simp only [Pc.exec, if_neg he]
      have hpos : 0 < s.ring.count := Nat.pos_of_ne_zero fun h0 => he (hend rfl h0)
      exact ⟨q, h.of_consumer hpc hshape ⟨rfl, hpos⟩ hlen.ge rfl rfl (by simp [takes])
        (by simp [taken, takes]) (by simp [hc]; rfl) rfl⟩
  | popLoadCount i =>
    obtain rfl : i = s.ring.start := hok
    by_cases h0 : s.ring.count = 0
    · simp only [Pc.exec, if_pos h0]
      exact ⟨q, h.of_consumer hpc hshape trivial hlen.ge rfl rfl (by simp [takes])
        (by simp [taken, takes]) (by simp [hc]; rfl) rfl⟩
    · simp only [Pc.exec, if_neg h0]
      exact ⟨q, h.of_consumer hpc hshape ⟨rfl, Nat.pos_of_ne_zero h0⟩ hlen.ge rfl rfl
        (by simp [takes]) (by simp [taken, takes]) (by simp [hc]; rfl) rfl⟩
  | popTake i =>
    obtain ⟨rfl, hpos⟩ := hok
    cases q with
    | nil =>
      -- `count` cannot exceed the queue, so there is something to take
      have hcount : s.ring.count + _ = 0 := hshape.count_eq
      omega
    | cons x q =>
      obtain ⟨hx, hmid⟩ := Mid.take hshape
      exact ⟨q, h.of_consumer hpc hmid ⟨rfl, hpos⟩ hlen.ge rfl rfl
        (by simp [Pc.exec, takes, getValue, hx]) (by simp [Pc.exec, taken, takes, getValue, hx])
        (by simp [hc, Pc.exec, getValue, hx]; rfl) rfl⟩
  | popSub i v =>
    obtain ⟨rfl, hpos⟩ := hok
    obtain ⟨-, hmid⟩ := Mid.sub hshape hpos
    exact ⟨q, h.of_consumer hpc hmid rfl (by rw [hlen]; exact Nat.le_succ _) rfl rfl
      (by simp [Pc.exec, takes]) (by simp [Pc.exec, taken, takes]) (by simp [hc]; rfl) rfl⟩
  | popStoreStart i v =>
    obtain rfl : i = s.ring.start := hok
    exact ⟨q, h.of_consumer hpc hshape.storeStart trivial hlen.ge rfl rfl
      (by simp [Pc.exec, takes]) (by simp [Pc.exec, taken, takes]) (by simp [hc]; rfl) rfl⟩
  | _ => exact hok.elim

theorem Spsc.call (hpc : p ≠ c) (h : Spsc p c q s) {t : τ} {op : Op T}
    (hrole : Roles p c (.call t op)) (ht : s.pc t = none) :
    Spsc p c q { s with pc := Function.update s.pc t (some op.entry) } := by
  have hshape := h.shape
  cases op with
  | push v =>
    obtain rfl : t = p := hrole
    rw [ht] at hshape
    have hentry : Spsc t c q ⟨s.ring, Function.update s.pc t (some (.pushLen v)),
        s.trace ++ (none : Option (Event T)).toList⟩ :=
      h.of_producer hpc hshape trivial rfl le_rfl (by simp [writes]) (by simp [written, writes])
        rfl rfl
    simpa [Op.entry] using hentry
  | pop =>
    obtain rfl : t = c := hrole
    rw [ht] at hshape
    have hentry : Spsc p t q ⟨s.ring, Function.update s.pc t (some .popLoadStart),
        s.trace ++ (none : Option (Event T)).toList⟩ :=
      h.of_consumer hpc hshape trivial (by rw [ht]; exact le_rfl) rfl rfl (by simp [takes])
        (by simp [taken, takes]) (by simp [ht, pendingPop]; rfl) rfl
    simpa [Op.entry] using hentry

theorem exists_spsc (hpc : p ≠ c) {bound : ℕ} (hb : bound < usizeSize)
    (h : (threads (new bound)).ReachableUnder (fun s a => Roles p c a ∧ EndStored s a) s) :
    ∃ q, Spsc p c q s := by
  refine h.invariant (I := fun s => ∃ q, Spsc p c q s) ?_ ?_
  · rintro s rfl
    exact ⟨[], fun _ _ _ => rfl, Holds.new hb, trivial, trivial, by simp [writes],
      by simp [takes], rfl, rfl⟩
  · rintro s a s' ⟨q, hq⟩ ⟨hrole, hend⟩ hs
    cases a with
    | call t op =>
      obtain ⟨ht, rfl⟩ := Threads.next_call hs
      exact ⟨q, hq.call hpc hrole ht⟩
    | step t =>
      obtain ⟨pc, ht, rfl⟩ := Threads.next_step hs
      by_cases htp : t = p
      · subst htp
        exact hq.producer_step hpc ht
      · by_cases htc : t = c
        · subst htc
          simp only [EndStored, ht] at hend
          exact hq.consumer_step hpc ht hend
        · rw [hq.others t htp htc] at ht
          cases ht

/-! ### The results -/

/-- One producer and one consumer, a buffer of any bound, any interleaving of the atomic steps:
as long as no pop loads `end` between a push's `fetch_add` and its store of `end` with the value
of that push already popped, the buffer is a queue. -/
theorem spsc_safe (hpc : p ≠ c) {bound : ℕ} (hb : bound < usizeSize)
    (h : (threads (new bound)).ReachableUnder (fun s a => Roles p c a ∧ EndStored s a) s) :
    QueueSafe s := by
  obtain ⟨q, hq⟩ := exists_spsc hpc hb h
  exact hq.safe

/-- The condition leaves nothing out: a pop that loads `end` against it takes, with its next
step, a slot that holds no value. -/
theorem not_endStored_unsafe (hpc : p ≠ c) {bound : ℕ} (hb : bound < usizeSize)
    (h : (threads (new bound)).ReachableUnder (fun s a => Roles p c a ∧ EndStored s a) s)
    {t : τ} (hbreach : ¬ EndStored s (.step t)) :
    ∃ s', (threads (new bound)).run s [.step t, .step t] = some s' ∧ ¬ QueueSafe s' := by
  obtain ⟨q, hq⟩ := exists_spsc hpc hb h
  simp only [EndStored, Classical.not_imp] at hbreach
  obtain ⟨hload, hcount, hne⟩ := hbreach
  obtain ⟨i, hi⟩ : ∃ i, s.pc t = some (.popLoadEnd i) := by
    unfold loadsEnd at hload
    split at hload
    · rename_i i hi
      exact ⟨i, hi⟩
    · cases hload
  have htc : t = c := by
    by_contra htc
    by_cases htp : t = p
    · have hok := hq.producer
      rw [← htp, hi] at hok
      exact hok
    · rw [hq.others t htp htc] at hi
      cases hi
  subst htc
  have hok := hq.consumer
  rw [hi] at hok
  obtain rfl : i = s.ring.start := hok
  have hnone := hq.start_empty (by rw [hi]; rfl) hcount hne
  refine ⟨_, by simp [TransitionSystem.run, threads, Threads.next, hi, Pc.exec, hne]; rfl, ?_⟩
  intro hsafe
  exact hsafe.take_full (s.ring.start, none) (by simp [takes, getValue, hnone]) rfl

/-- The run of one push that is counted, popped, and overtaken by a second pop before it stores
`end`. -/
def overtakenPush : List (Move Bool ℕ) :=
  .call true (.push 7) :: List.replicate 4 (.step true) ++
    (.call false .pop :: List.replicate 6 (.step false)) ++
    (.call false .pop :: List.replicate 3 (.step false))

/-- A whole push and a whole pop, one after the other. -/
def pushThenPop : List (Move Bool ℕ) :=
  .call true (.push 7) :: List.replicate 5 (.step true) ++
    (.call false .pop :: List.replicate 5 (.step false))

/-- The second pop of `overtakenPush` takes the slot `1`, which was never written. -/
theorem takes_empty_slot :
    ¬ ∀ s, (threads (new 2)).ReachableUnder (fun _ a => Roles true false a) s →
      QueueSafe (s : Threads Bool ℕ) := by
  intro hall
  obtain ⟨s, hs, htakes⟩ := TransitionSystem.exists_reachableUnder
    (S := threads (new 2)) (C := fun _ a => Roles true false a) rfl overtakenPush
    (p := fun s => takes s.trace = [(0, some 7), (1, none)]) (by decide)
  exact (hall s hs).take_full (1, none) (by rw [htakes]; simp) rfl

theorem spsc_safe_pushThenPop :
    ∃ s : Threads Bool ℕ, QueueSafe s ∧ taken s.trace = [some 7] := by
  obtain ⟨s, hs, htaken⟩ := TransitionSystem.exists_reachableUnder
    (S := threads (new 2)) (C := fun s a => Roles true false a ∧ EndStored s a) rfl pushThenPop
    (p := fun s => taken s.trace = [some 7]) (by decide)
  exact ⟨s, spsc_safe (by decide) (by decide) hs, htaken⟩

end LockFreeBoundedRingBuffer

end Hooch
