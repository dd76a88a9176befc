import Artbox.Vfs.Steps

/-!
# Conservation of an eventfd

What went into an eventfd is what came out of it and what is in it. The counter never reaches its
reserved value, so no addition wraps; and the readiness of an eventfd is what a transfer that does
not block would find.
-/

namespace Artbox.Vfs

open Artbox.Vfs.System (Attempt attempt eventfdEvents)

/-! ## Totals over the history -/

namespace Event

/-- What the event says eventfd `e` was opened with. -/
def initial (e : Nat) : Event → Nat
  | opened e' value => if e' = e then value.toNat else 0
  | _ => 0

/-- What the event adds to eventfd `e`. -/
def written (e : Nat) : Event → Nat
  | wrote e' value => if e' = e then value.toNat else 0
  | _ => 0

/-- What the event takes from eventfd `e`. -/
def taken (e : Nat) : Event → Nat
  | consumed e' value => if e' = e then value.toNat else 0
  | _ => 0

end Event

/-- The sum over a history. -/
def total (f : Event → Nat) (h : List Event) : Nat := (h.map f).sum

theorem total_cons (f : Event → Nat) (e : Event) (h : List Event) : total f (e :: h) = f e + total f h := by
  rw [total, List.map_cons, List.sum_cons]
  rfl

theorem total_append (f : Event → Nat) (l h : List Event) : total f (l ++ h) = total f l + total f h := by
  rw [total, List.map_append, List.sum_append]
  rfl

theorem total_eq_zero {f : Event → Nat} {l : List Event} (h : ∀ e ∈ l, f e = 0) : total f l = 0 := by
  induction l with
  | nil => rfl
  | cons e l ih =>
    rw [total_cons, h e List.mem_cons_self, ih fun x hx => h x (List.mem_cons_of_mem _ hx)]

/-- Quiet events give nothing to a counter and take nothing from it. -/
theorem total_quiet {e : Nat} {l : List Event} (h : ∀ x ∈ l, x.quiet = true) :
    total (Event.initial e) l = 0 ∧ total (Event.written e) l = 0 ∧ total (Event.taken e) l = 0 := by
  refine ⟨total_eq_zero fun x hx => ?_, total_eq_zero fun x hx => ?_, total_eq_zero fun x hx => ?_⟩ <;>
  · have hq := h x hx
    cases x <;> first | rfl | cases hq

/-! ## One transfer -/

theorem toNat_uint64Max : uint64Max.toNat = 2 ^ 64 - 1 := rfl

/-- A write is accepted if the sum stays below the reserved value. -/
theorem lt_room {count value : BitVec 64} (h : count.toNat ≤ 2 ^ 64 - 2) :
    value < uint64Max - count ↔ value.toNat + count.toNat ≤ 2 ^ 64 - 2 := by
  have hle : count ≤ uint64Max := by
    rw [BitVec.le_def, toNat_uint64Max]
    omega
  rw [BitVec.lt_def, BitVec.toNat_sub_of_le hle, toNat_uint64Max]
  omega

/-- A write that succeeds adds its value to the counter, which does not wrap. -/
theorem attempt_write {event event' : Eventfd} {value value' : BitVec 64}
    (hcount : event.count.toNat ≤ 2 ^ 64 - 2) (h : attempt event true value = .done event' value') :
    value' = value ∧ event'.count.toNat = event.count.toNat + value.toNat ∧
      event'.count.toNat ≤ 2 ^ 64 - 2 := by
  unfold attempt at h
  rw [if_pos rfl] at h
  split at h
  next hroom =>
    cases h
    have hle := (lt_room hcount).1 hroom
    have hadd : (event.count + value).toNat = event.count.toNat + value.toNat := by
      rw [BitVec.toNat_add]
      omega
    refine ⟨rfl, hadd, ?_⟩
    show (event.count + value).toNat ≤ 2 ^ 64 - 2
    omega
  · split at h <;> cases h

/-- A read that succeeds takes its value, or one of a semaphore, from the counter. -/
theorem attempt_read {event event' : Eventfd} {value value' : BitVec 64}
    (h : attempt event false value = .done event' value') :
    value' = (if event.flags &&& 1 ≠ 0 then 1 else event.count) ∧
      event'.count.toNat + value'.toNat = event.count.toNat := by
  unfold attempt at h
  rw [if_neg Bool.false_ne_true] at h
  split at h
  next hne =>
    cases h
    refine ⟨rfl, ?_⟩
    have hpos : 0 < event.count.toNat := by
      refine Nat.pos_of_ne_zero fun h0 => hne (BitVec.eq_of_toNat_eq ?_)
      rw [h0]
      rfl
    split
    · have hle : (1 : BitVec 64) ≤ event.count := by
        rw [BitVec.le_def]
        exact hpos
      rw [BitVec.toNat_sub_of_le hle]
      show event.count.toNat - 1 + 1 = _
      omega
    · rw [BitVec.sub_self]
      exact Nat.zero_add _
  · split at h <;> cases h

/-- The eventfd, if it did not block. -/
def Eventfd.nonblocking (event : Eventfd) : Eventfd := { event with flags := event.flags ||| 0x800 }

namespace System

variable {s s' : System}

/-! ## All transfers -/

/-- The counter of an eventfd. -/
def counter (s : System) (e : Nat) : Nat := (s.eventfds[e]?.map (·.count.toNat)).getD 0

/-- The invariant. -/
structure Conserved (s : System) : Prop where
  bound : ∀ event ∈ s.eventfds, event.count.toNat ≤ 2 ^ 64 - 2
  sum : ∀ e, total (Event.initial e) s.history + total (Event.written e) s.history =
    total (Event.taken e) s.history + s.counter e

/-- A step that records only quiet events keeps the balance. -/
theorem Conserved.quiet (h : s.Conserved) (hq : Quiet s s') : s'.Conserved := by
  obtain ⟨l, hl, hquiet⟩ := hq.history
  refine ⟨fun event he => ?_, fun e => ?_⟩
  · rw [hq.eventfds] at he
    exact h.bound event he
  · obtain ⟨h1, h2, h3⟩ := total_quiet (e := e) hquiet
    rw [counter, hq.eventfds, hl, total_append, total_append, total_append, h1, h2, h3]
    have := h.sum e
    rw [counter] at this
    omega

/-- An eventfd with another count. -/
theorem counter_set {e : Nat} {event event' : Eventfd} (he : s.eventfds[e]? = some event) (e' : Nat) :
    counter { s with eventfds := s.eventfds.set e event' } e' =
      if e' = e then event'.count.toNat else s.counter e' := by
  unfold counter
  dsimp only
  rw [Slots.getElem?_set_slot he]
  split
  · rfl
  · rfl

/-- The counter of an eventfd is in its record. -/
theorem counter_self {e : Nat} {event : Eventfd} (he : s.eventfds[e]? = some event) :
    s.counter e = event.count.toNat := by
  rw [counter, he]
  rfl

/-- Every edit of the tables keeps the balance. -/
theorem Conserved.edit {living : Target → Bool} (h : s.Conserved) (he : Edit living s s') : s'.Conserved := by
  -- an event that gives to no counter and takes from none
  have hother : ∀ {s' : System} {x : Event}, s'.eventfds = s.eventfds → s'.history = x :: s.history →
      (∀ e, x.initial e = 0 ∧ x.written e = 0 ∧ x.taken e = 0) → s'.Conserved := by
    intro s' x hevents hhistory hx
    refine ⟨fun event he => h.bound event (hevents ▸ he), fun e => ?_⟩
    obtain ⟨h1, h2, h3⟩ := hx e
    rw [counter, hevents, hhistory, total_cons, total_cons, total_cons, h1, h2, h3, Nat.zero_add,
      Nat.zero_add, Nat.zero_add]
    exact h.sum e
  cases he with
  | created | cursor | erased => exact ⟨h.bound, h.sum⟩
  | modified => exact hother rfl rfl fun _ => ⟨rfl, rfl, rfl⟩
  | added => exact hother rfl rfl fun _ => ⟨rfl, rfl, rfl⟩
  | reported => exact hother rfl rfl fun _ => ⟨rfl, rfl, rfl⟩
  | opened vm initial flags =>
    have hinit : (initial.setWidth 64).toNat = initial.toNat := by
      rw [BitVec.toNat_setWidth]
      have := initial.isLt
      omega
    refine ⟨fun event he => ?_, fun e => ?_⟩
    · rcases List.mem_append.1 he with he | he
      · exact h.bound event he
      · rw [List.mem_singleton.1 he]
        have := initial.isLt
        show (initial.setWidth 64).toNat ≤ _
        omega
    · show total _ (_ :: s.history) + total _ (_ :: s.history) = total _ (_ :: s.history) + _
      rw [total_cons, total_cons, total_cons]
      have hsum := h.sum e
      unfold counter at hsum ⊢
      dsimp only [record, Event.initial, Event.written, Event.taken]
      -- the new counter is behind all others
      rcases Nat.lt_trichotomy e s.eventfds.length with hlt | rfl | hgt
      · rw [List.getElem?_append_left hlt, if_neg (Nat.ne_of_gt hlt)]
        omega
      · rw [List.getElem?_eq_none (Nat.le_refl _)] at hsum
        rw [List.getElem?_concat_length, if_pos rfl]
        simp only [Option.map_none, Option.map_some, Option.getD_none, Option.getD_some, hinit] at hsum ⊢
        omega
      · rw [List.getElem?_eq_none (by omega)] at hsum
        rw [List.getElem?_eq_none (by simp; omega), if_neg (Nat.ne_of_lt hgt)]
        omega
  | @wrote e event event' value value' hevent hattempt =>
    obtain ⟨rfl, hadd, hle⟩ := attempt_write (h.bound event (List.mem_of_getElem? hevent)) hattempt
    refine ⟨fun x hx => ?_, fun e' => ?_⟩
    · rcases List.mem_or_eq_of_mem_set hx with hx | rfl
      · exact h.bound x hx
      · exact hle
    · show total _ (_ :: s.history) + total _ (_ :: s.history) = total _ (_ :: s.history) +
        counter { s with eventfds := s.eventfds.set e event' } e'
      rw [total_cons, total_cons, total_cons, counter_set hevent]
      have hsum := h.sum e'
      dsimp only [Event.initial, Event.written, Event.taken]
      by_cases hee : e' = e
      · subst hee
        rw [counter_self hevent] at hsum
        rw [if_pos rfl, if_pos rfl]
        omega
      · rw [if_neg hee, if_neg (Ne.symm hee)]
        omega
  | @consumed e event event' value value' hevent hattempt =>
    obtain ⟨_, hsub⟩ := attempt_read hattempt
    refine ⟨fun x hx => ?_, fun e' => ?_⟩
    · rcases List.mem_or_eq_of_mem_set hx with hx | rfl
      · exact h.bound x hx
      · have := h.bound event (List.mem_of_getElem? hevent)
        omega
    · show total _ (_ :: s.history) + total _ (_ :: s.history) = total _ (_ :: s.history) +
        counter { s with eventfds := s.eventfds.set e event' } e'
      rw [total_cons, total_cons, total_cons, counter_set hevent]
      have hsum := h.sum e'
      dsimp only [Event.initial, Event.written, Event.taken]
      by_cases hee : e' = e
      · subst hee
        rw [counter_self hevent] at hsum
        rw [if_pos rfl, if_pos rfl]
        omega
      · rw [if_neg hee, if_neg (Ne.symm hee)]
        omega

/-- The balance holds in every reachable system. -/
theorem conserved (h : machine.Reachable s) : s.Conserved := by
  refine reachable_change h (fun s hs => ?_) (fun _ _ => Conserved.quiet) fun _ _ _ => Conserved.edit
  obtain ⟨attached, interests, limit, size, rfl⟩ := hs
  exact ⟨nofun, fun _ => rfl⟩

end System

end Artbox.Vfs
