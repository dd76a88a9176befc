import Artbox.Binder.Returns

/-!
# Callers wait undisturbed, unless they are overtaken

A thread awaits a synchronous call from its acceptance until the reply, or the dead
reply that replaced it, is read (`CallStage`, `Awaits`). Up to the reply's acceptance
`outgoing` keeps process work away from it; `transfer_packet` clears the field when it
queues the reply, and from then on only the order of the queue does. So a waiting
thread is handed process work exactly if its own reply stands behind that work in the
queue (`undisturbed_iff`).
-/

namespace Artbox.Binder

open Slots Trace

/-! ## Stages of a call -/

/-- Where a call stands for its caller. -/
inductive CallStage
  | absent
  /-- Sent, not answered. -/
  | waiting
  /-- Answered, the reply is queued. -/
  | answered (reply : Work)
  /-- Cancelled, the dead reply is unread. -/
  | dead
  | finished
deriving DecidableEq

/-- The stage of the call `x` of thread `(k, i)` after one more event. -/
def CallStage.next (k : Nat) (i : Int) (x : Nat) (s : CallStage) : Event → CallStage
  | .accepted p =>
    if p.source = k ∧ p.sourceTid = i ∧ p.work.transaction = x then .waiting
    else if p.answers = x ∧ p.work.endpoint = k ∧ p.work.tid = i then .answered p.work
    else s
  | .cancelled k' i' x' _ => if k' = k ∧ i' = i ∧ x' = x then .dead else s
  | .delivered _ _ _ w | .dropped _ _ w => if s = .answered w then .finished else s
  | .returned k' i' word => if k' = k ∧ i' = i ∧ word = .deadReply ∧ s = .dead then .finished else s
  | .exited k' i' => if k' = k ∧ i' = i ∧ s = .dead then .finished else s
  | .released k' => if k' = k ∧ s = .dead then .finished else s
  | _ => s

/-- The stage of the call `x` of thread `(k, i)`. -/
def callStage (k : Nat) (i : Int) (x : Nat) : List Event → CallStage
  | [] => .absent
  | e :: h => (callStage k i x h).next k i x e

/-- The caller has yet to read the outcome. -/
def CallStage.Open : CallStage → Prop
  | waiting | answered _ | dead => True
  | absent | finished => False

/-- A synchronous call of the thread was refused and the error return is unread. -/
def refusalDue (k : Nat) (i : Int) : List Event → Bool
  | [] => false
  | .refused k' i' call _ :: h => if k' = k ∧ i' = i then call else refusalDue k i h
  | .returned k' i' word :: h =>
    if k' = k ∧ i' = i ∧ word ≠ .transactionComplete then false else refusalDue k i h
  | .exited k' i' :: h => if k' = k ∧ i' = i then false else refusalDue k i h
  | .released k' :: h => if k' = k then false else refusalDue k i h
  | _ :: h => refusalDue k i h

/-- The thread has yet to read the outcome of a synchronous call. -/
def Awaits (k : Nat) (i : Int) (h : List Event) : Prop :=
  (∃ x, x ≠ 0 ∧ (callStage k i x h).Open) ∨ refusalDue k i h = true

/-! ## The error slot -/

/-- The error slot of the thread, by the events. -/
def errorOf (k : Nat) (i : Int) : List Event → Option BR
  | [] => none
  | .refused k' i' _ word :: h => if k' = k ∧ i' = i then some word else errorOf k i h
  | .cancelled k' i' _ _ :: h => if k' = k ∧ i' = i then some .deadReply else errorOf k i h
  | .returned k' i' word :: h =>
    if k' = k ∧ i' = i ∧ word ≠ .transactionComplete then none else errorOf k i h
  | .exited k' i' :: h => if k' = k ∧ i' = i then none else errorOf k i h
  | .released k' :: h => if k' = k then none else errorOf k i h
  | _ :: h => errorOf k i h

/-- Packets are refused into an empty slot, and what is returned was in it. -/
def SlotRight (e : Event) (older : List Event) : Prop :=
  (∀ k i call word, e = .refused k i call word → errorOf k i older = none) ∧
    ∀ k i word, e = .returned k i word → word ≠ .transactionComplete →
      errorOf k i older = some word

/-- The events tell what the error slots hold. -/
structure ErrorSlots (d : Device) : Prop where
  right : Always SlotRight d.history
  live : ∀ k i n u, d.accountFor k i = some (n, u) → errorOf k i d.history = u
  dead : ∀ k i, d.accountFor k i = none → errorOf k i d.history = none

/-- Idle events touch no error slot. -/
theorem errorOf_idle {k : Nat} {i : Int} {new h : List Event} (hn : ∀ e ∈ new, e.Idle) :
    errorOf k i (new ++ h) = errorOf k i h := by
  induction new with
  | nil => rfl
  | cons e es ih =>
    have he := hn e List.mem_cons_self
    rw [List.cons_append, ← ih fun e he => hn e (List.mem_cons_of_mem _ he)]
    cases e <;> first | exact he.elim | rfl

theorem SlotRight.of_idle {e : Event} (he : e.Idle) (older : List Event) : SlotRight e older :=
  ⟨fun _ _ _ _ heq => by rw [heq] at he; exact he.elim,
    fun _ _ _ heq => by rw [heq] at he; exact he.elim⟩

namespace ErrorSlots

variable {d d' : Device}

/-- A step that sets the slot of one thread. -/
theorem edit (h : ErrorSlots d) {k : Nat} {i : Int} {n : Nat} {u : Option BR}
    (ha : ∀ k' i', d'.accountFor k' i' = if k' = k ∧ i' = i then some (n, u) else d.accountFor k' i')
    (hr : Always SlotRight d'.history)
    (he : ∀ k' i', errorOf k' i' d'.history = if k' = k ∧ i' = i then u else errorOf k' i' d.history) :
    ErrorSlots d' := by
  refine ⟨hr, fun k' i' n' u' hacc => ?_, fun k' i' hacc => ?_⟩ <;> rw [ha] at hacc <;>
    split at hacc
  next hk =>
    rw [he, if_pos hk]
    cases hacc
    rfl
  next hk =>
    rw [he, if_neg hk]
    exact h.live k' i' n' u' hacc
  next => cases hacc
  next hk =>
    rw [he, if_neg hk]
    exact h.dead k' i' hacc

/-- A step after which some threads are gone. -/
theorem remove (h : ErrorSlots d) {p : Nat → Int → Prop} [∀ k i, Decidable (p k i)]
    (ha : ∀ k i, d'.accountFor k i = if p k i then none else d.accountFor k i)
    (hr : Always SlotRight d'.history)
    (he : ∀ k i, errorOf k i d'.history = if p k i then none else errorOf k i d.history) :
    ErrorSlots d' := by
  refine ⟨hr, fun k i n u hacc => ?_, fun k i hacc => ?_⟩ <;> rw [ha] at hacc <;> split at hacc
  next => cases hacc
  next hp =>
    rw [he, if_neg hp]
    exact h.live k i n u hacc
  next hp => rw [he, if_pos hp]
  next hp =>
    rw [he, if_neg hp]
    exact h.dead k i hacc

/-- The slot of the one thread `(k, i)` that an event is about. -/
theorem errorOf_ite {k k' : Nat} {i i' : Int} {u v : Option BR} :
    (if k = k' ∧ i = i' then u else v) = if k' = k ∧ i' = i then u else v :=
  if_congr ⟨fun h => ⟨h.1.symm, h.2.symm⟩, fun h => ⟨h.1.symm, h.2.symm⟩⟩ rfl rfl

theorem step (h : ErrorSlots d) (hb : Balanced d) (ht : Turn d d') : ErrorSlots d' := by
  cases ht with
  | quiet ha hh hn =>
    refine ⟨hh ▸ h.right.append fun e he => .of_idle (hn e he), fun k i n u hacc => ?_,
      fun k i hacc => ?_⟩
    · rw [hh, errorOf_idle hn]
      exact h.live k i n u (ha k i ▸ hacc)
    · rw [hh, errorOf_idle hn]
      exact h.dead k i (ha k i ▸ hacc)
  | @admission k i hnone ha hh =>
    refine h.edit ha (hh ▸ h.right) fun k' i' => ?_
    rw [hh]
    split
    next hk => rw [hk.1, hk.2, h.dead k i hnone]
    next => rfl
  | @fail k i n call word c hacc _ ha hh =>
    refine h.edit ha (hh ▸ ⟨⟨fun _ _ _ _ heq => (by cases heq), fun _ _ _ heq => (by cases heq)⟩,
      ⟨fun k' i' call' word' heq => ?_, fun _ _ _ heq => (by cases heq)⟩, h.right⟩) fun k' i' => ?_
    · cases heq
      exact h.live k i n none hacc
    · rw [hh]
      exact errorOf_ite
  | @send p n c hacc ha hh =>
    refine h.edit ha (hh ▸ ⟨⟨fun _ _ _ _ heq => (by cases heq), fun _ _ _ heq => (by cases heq)⟩,
      ⟨fun _ _ _ _ heq => (by cases heq), fun _ _ _ heq => (by cases heq)⟩, h.right⟩) fun k' i' => ?_
    rw [hh]
    split
    next hk => rw [hk.1, hk.2]; exact h.live _ _ n none hacc
    next => rfl
  | @error k i n word hacc ha hh =>
    refine h.edit ha (hh ▸ ⟨⟨fun _ _ _ _ heq => (by cases heq), fun k' i' w heq _ => ?_⟩, h.right⟩)
      fun k' i' => ?_
    · cases heq
      exact h.live k i n (some word) hacc
    · rw [hh, errorOf]
      have hne : word ≠ .transactionComplete := by
        rcases hb.word k i n word hacc with rfl | rfl <;> decide
      simp only [hne, ne_eq, not_false_iff, and_true]
      exact errorOf_ite
  | @completion k i n hacc ha hh =>
    refine h.edit ha (hh ▸ ⟨⟨fun _ _ _ _ heq => (by cases heq), fun k' i' w heq hw => ?_⟩, h.right⟩)
      fun k' i' => ?_
    · cases heq
      exact absurd rfl hw
    · rw [hh, errorOf, if_neg fun hk => hk.2.2 rfl]
      split
      next hk => rw [hk.1, hk.2]; exact h.live _ _ _ none hacc
      next => rfl
  | @cancel k i n x u new hacc ha hh hn =>
    refine h.edit ha ?_ fun k' i' => ?_
    · rw [hh]
      exact Always.append ⟨⟨fun _ _ _ _ heq => (by cases heq), fun _ _ _ heq => (by cases heq)⟩,
        h.right⟩ fun e he => .of_idle (hn e he)
    · rw [hh, errorOf_idle hn]
      exact errorOf_ite
  | @erase k i ha hh =>
    refine h.remove ha (hh ▸ ⟨⟨fun _ _ _ _ heq => (by cases heq), fun _ _ _ heq => (by cases heq)⟩,
      h.right⟩) fun k' i' => ?_
    rw [hh]
    exact errorOf_ite
  | @retire k ha hh =>
    refine h.remove ha (hh ▸ ⟨⟨fun _ _ _ _ heq => (by cases heq), fun _ _ _ heq => (by cases heq)⟩,
      h.right⟩) fun k' i' => ?_
    rw [hh, errorOf]
    exact if_congr eq_comm rfl rfl

end ErrorSlots

theorem Device.Reachable.errorSlots {d : Device} (h : d.Reachable) : ErrorSlots d :=
  h.inv_turn (fun d hacc hh => ⟨by simp [hh], by simp [hacc], fun _ _ _ => by rw [hh]; rfl⟩)
    fun _ _ hr hinv ht => hinv.step hr.balanced ht

/-- A dead call is one a teardown ended, until its thread reads the dead reply or goes. -/
theorem CallStage.next_dead {k : Nat} {i : Int} {x : Nat} {s : CallStage} {e : Event}
    (h : s.next k i x e = .dead) : (∃ u, e = .cancelled k i x u) ∨ s = .dead ∧
      e ≠ .returned k i .deadReply ∧ e ≠ .exited k i ∧ e ≠ .released k := by
  cases e with
  | accepted p =>
    rw [next] at h
    split at h
    · cases h
    · split at h
      · cases h
      · exact .inr ⟨h, by simp⟩
  | cancelled k' i' x' u =>
    rw [next] at h
    split at h
    next hk => exact .inl ⟨u, by rw [hk.1, hk.2.1, hk.2.2]⟩
    next => exact .inr ⟨h, by simp⟩
  | delivered | dropped =>
    rw [next] at h
    split at h
    · cases h
    · exact .inr ⟨h, by simp⟩
  | returned | exited | released =>
    rw [next] at h
    split at h
    · cases h
    next hk => exact .inr ⟨h, by simpa [h] using hk⟩
  | _ => exact .inr ⟨h, by simp⟩

/-- The dead reply of a dead call is in its caller's error slot. -/
theorem errorOf_dead {k : Nat} {i : Int} {x : Nat} {h : List Event} (hr : Always SlotRight h)
    (hs : callStage k i x h = .dead) : errorOf k i h = some .deadReply := by
  induction h with
  | nil => cases hs
  | cons e h ih =>
    rcases CallStage.next_dead hs with ⟨u, rfl⟩ | ⟨hs, hret, hex, hrel⟩
    · exact if_pos ⟨rfl, rfl⟩
    · have hold := ih hr.2 hs
      cases e with
      | refused k' i' call word =>
        have hnone := hr.1.1 k' i' call word rfl
        rw [errorOf, if_neg]
        · exact hold
        · rintro ⟨rfl, rfl⟩
          rw [hold] at hnone
          cases hnone
      | cancelled k' i' x' u =>
        rw [errorOf, hold]
        exact ite_self _
      | returned k' i' word =>
        rw [errorOf, if_neg]
        · exact hold
        · rintro ⟨rfl, rfl, hne⟩
          have hword := hr.1.2 k' i' word rfl hne
          rw [hold] at hword
          cases hword
          exact hret rfl
      | exited k' i' =>
        rw [errorOf, if_neg]
        · exact hold
        · rintro ⟨rfl, rfl⟩
          exact hex rfl
      | released k' =>
        rw [errorOf, if_neg]
        · exact hold
        · rintro rfl
          exact hrel rfl
      | _ => exact hold

/-- The error slot of a thread whose call was refused is not empty. -/
theorem errorOf_due {k : Nat} {i : Int} {h : List Event} (hd : refusalDue k i h = true) :
    errorOf k i h ≠ none := by
  induction h with
  | nil => cases hd
  | cons e h ih =>
    cases e with
    | refused k' i' call word =>
      rw [refusalDue] at hd
      rw [errorOf]
      split at hd
      next hk => simp [hk]
      next hk => simpa [hk] using ih hd
    | cancelled k' i' x u =>
      rw [errorOf]
      split
      · simp
      · exact ih hd
    | returned | exited | released =>
      rw [refusalDue] at hd
      rw [errorOf]
      split at hd
      · cases hd
      next hk => simpa [hk] using ih hd
    | _ => exact ih hd

/-! ## Stages and the state -/

/-- The call `x` is live and thread `(k, i)` is its caller. -/
def Device.Calls (d : Device) (k : Nat) (i : Int) (x : Nat) : Prop :=
  ∃ t, d.transactionFor x = some t ∧ t.source = k ∧ t.sourceTid = i

theorem SameCalls.calls_iff {d d' : Device} (h : SameCalls d d') {k : Nat} {i : Int} {x : Nat} :
    d'.Calls k i x ↔ d.Calls k i x := by
  have hends := h.calls x
  simp only [Device.Calls]
  cases hx : d'.transactionFor x <;> cases hx' : d.transactionFor x <;>
    simp_all [Transaction.ends]

theorem EndsCall.calls_iff {d d' : Device} {id : Nat} (h : EndsCall d d' id) {k : Nat} {i : Int}
    {x : Nat} : d'.Calls k i x ↔ x ≠ id ∧ d.Calls k i x := by
  rw [Device.Calls, h.calls]
  split
  next hx => simp [hx]
  next hx => simp [hx, Device.Calls]

/-- Calls that wait are live, and the replies to those that were answered are queued. -/
structure Stages (d : Device) : Prop where
  waiting : ∀ k i x, x ≠ 0 → (callStage k i x d.history = .waiting ↔ d.Calls k i x)
  answered : ∀ k i x w, x ≠ 0 → callStage k i x d.history = .answered w →
    w ∈ d.work ∧ w.endpoint = k ∧ w.tid = i
  reply : ∀ w ∈ d.work, w.tid ≠ 0 → ∃ x, x ≠ 0 ∧ Issued d.nextTransaction x ∧
    callStage w.endpoint w.tid x d.history = .answered w

/-- Plain events answer no call and read no reply. -/
theorem CallStage.next_plain {k : Nat} {i : Int} {x : Nat} {s : CallStage} {e : Event} (he : e.Plain) :
    (s.next k i x e = .waiting ↔ s = .waiting) ∧ ∀ w, s.next k i x e = .answered w ↔ s = .answered w := by
  cases e with
  | returned | exited | released =>
    rw [next]
    split
    next hk => simp [hk]
    next => exact ⟨.rfl, fun _ => .rfl⟩
  | accepted | delivered | dropped | cancelled => exact he.elim
  | _ => exact ⟨.rfl, fun _ => .rfl⟩

theorem callStage_plain {k : Nat} {i : Int} {x : Nat} {new h : List Event} (hn : ∀ e ∈ new, e.Plain) :
    (callStage k i x (new ++ h) = .waiting ↔ callStage k i x h = .waiting) ∧
      ∀ w, callStage k i x (new ++ h) = .answered w ↔ callStage k i x h = .answered w := by
  induction new with
  | nil => exact ⟨.rfl, fun _ => .rfl⟩
  | cons e es ih =>
    obtain ⟨hw, ha⟩ := ih fun e he => hn e (List.mem_cons_of_mem _ he)
    obtain ⟨hw', ha'⟩ := CallStage.next_plain (k := k) (i := i) (x := x)
      (s := callStage k i x (es ++ h)) (hn e List.mem_cons_self)
    exact ⟨hw'.trans hw, fun w => (ha' w).trans (ha w)⟩

/-- Dropped replies end their calls. -/
theorem callStage_drops {k token : Nat} {i tid : Int} {x : Nat} {l : List Work} {h : List Event} :
    callStage k i x (l.map (Event.dropped token tid) ++ h) =
      if ∃ w ∈ l, callStage k i x h = .answered w then .finished else callStage k i x h := by
  induction l with
  | nil => simp
  | cons w l ih =>
    rw [List.map_cons, List.cons_append, callStage, ih, CallStage.next]
    by_cases hl : ∃ w ∈ l, callStage k i x h = .answered w
    · obtain ⟨w', hw', hs⟩ := hl
      simp [hs, hw']
    · rw [if_neg hl]
      by_cases hs : callStage k i x h = .answered w
      · simp [hs]
      · simp only [List.mem_cons, exists_eq_or_imp, hs, false_or, hl, if_false]

namespace Stages

variable {d d' : Device}

/-- The caller of an ended call has it no longer waiting, and queued replies stay. -/
theorem cancelled (h : Stages d) {t : Transaction} (ht : d.transactionFor t.id = some t)
    (he : EndsCall d d' t.id) {u : Option BR} :
    (∀ k i x, x ≠ 0 → (callStage k i x (.cancelled t.source t.sourceTid t.id u :: d.history) =
      .waiting ↔ d'.Calls k i x)) ∧
      ∀ k i x w, x ≠ 0 → (callStage k i x (.cancelled t.source t.sourceTid t.id u :: d.history) =
        .answered w ↔ callStage k i x d.history = .answered w) := by
  have hwait := (h.waiting t.source t.sourceTid t.id (Device.transactionFor_spec ht).2.2).2
    ⟨t, ht, rfl, rfl⟩
  refine ⟨fun k i x h0 => ?_, fun k i x w h0 => ?_⟩
  · rw [callStage, CallStage.next, he.calls_iff]
    split
    next hx => simp [hx.2.2]
    next hx =>
      rw [h.waiting k i x h0]
      refine ⟨fun hc => ⟨fun heq => hx ?_, hc⟩, And.right⟩
      obtain ⟨t', ht', hs, hst⟩ := hc
      rw [heq, ht] at ht'
      cases ht'
      exact ⟨hs, hst, heq.symm⟩
  · rw [callStage, CallStage.next]
    split
    next hx =>
      obtain ⟨rfl, rfl, rfl⟩ := hx
      simp [hwait]
    next => rfl

/-- The acceptance of a parcel. -/
theorem accept (h : Stages d) (hi : CallIds d) {p : Parcel} (hs : Sent d d' p)
    (hw : d'.work = d.work ++ [p.work])
    (hnext : ∀ k i x, callStage k i x d'.history =
      (callStage k i x d.history).next k i x (.accepted p)) : Stages d' := by
  simp only [CallStage.next] at hnext
  have hmem : ∀ w, w ∈ d'.work ↔ w ∈ d.work ∨ w = p.work := fun w => by
    rw [hw, List.mem_append, List.mem_singleton]
  cases hs with
  | @reply th t _ _ ht hans _ hend htid h0 hk =>
    have hid := (Device.transactionFor_spec ht).2.2
    have hwait := (h.waiting t.source t.sourceTid t.id hid).2 ⟨t, ht, rfl, rfl⟩
    -- the stage of the answered call changes, and no other
    have hnext : ∀ k i x, x ≠ 0 → callStage k i x d'.history =
        if t.id = x ∧ t.source = k ∧ t.sourceTid = i then .answered p.work
          else callStage k i x d.history := fun k i x hx => by
      rw [hnext, if_neg fun hp => hx (hp.2.2.symm.trans h0), hans, hend, htid]
    refine ⟨fun k i x hx => ?_, fun k i x w hx ha => ?_, fun w hmem' hwt => ?_⟩
    · rw [hnext k i x hx, hk.calls_iff]
      split
      next hp => simp [hp.1]
      next hp =>
        rw [h.waiting k i x hx]
        refine ⟨fun hc => ⟨fun heq => hp ?_, hc⟩, And.right⟩
        obtain ⟨t', ht', hs, hst⟩ := hc
        rw [heq, ht] at ht'
        cases ht'
        exact ⟨heq.symm, hs, hst⟩
    · rw [hnext k i x hx] at ha
      split at ha
      next hp =>
        cases ha
        exact ⟨(hmem _).2 (.inr rfl), hend.trans hp.2.1, htid.trans hp.2.2⟩
      next =>
        obtain ⟨hw', hat⟩ := h.answered k i x w hx ha
        exact ⟨(hmem w).2 (.inl hw'), hat⟩
    · rcases (hmem w).1 hmem' with hmem' | rfl
      · obtain ⟨x, hx, hxi, ha⟩ := h.reply w hmem' hwt
        refine ⟨x, hx, hk.next ▸ hxi, ?_⟩
        rw [hnext _ _ x hx, if_neg]
        · exact ha
        · rintro ⟨rfl, hs, hst⟩
          rw [← hs, ← hst, hwait] at ha
          cases ha
      · refine ⟨t.id, hid, ?_, ?_⟩
        · rw [hk.next]
          exact hi.issued t (Device.transactionFor_spec ht).1 hid
        · rw [hnext _ _ _ hid, if_pos ⟨rfl, hend.symm, htid.symm⟩]
  | oneway hans _ htid h0 hk =>
    have hnext : ∀ k i x, x ≠ 0 → callStage k i x d'.history = callStage k i x d.history :=
      fun k i x hx => by
        rw [hnext, if_neg fun hp => hx (hp.2.2.symm.trans h0),
          if_neg fun hp => hx (hp.1.symm.trans hans)]
    refine ⟨fun k i x hx => ?_, fun k i x w hx ha => ?_, fun w hmem' hwt => ?_⟩
    · rw [hnext k i x hx, h.waiting k i x hx, hk.calls_iff]
    · obtain ⟨hw', hat⟩ := h.answered k i x w hx (hnext k i x hx ▸ ha)
      exact ⟨(hmem w).2 (.inl hw'), hat⟩
    · rcases (hmem w).1 hmem' with hmem' | rfl
      · obtain ⟨x, hx, hxi, ha⟩ := h.reply w hmem' hwt
        exact ⟨x, hx, hk.next ▸ hxi, by rwa [hnext _ _ x hx]⟩
      · exact absurd htid hwt
  | @call t hans _ htid htr h0 hn hts htt htrans =>
    have hnext : ∀ k i x, x ≠ 0 → callStage k i x d'.history =
        if p.source = k ∧ p.sourceTid = i ∧ d.nextTransaction = x then .waiting
          else callStage k i x d.history := fun k i x hx => by
      have hno : ¬ (p.answers = x ∧ p.work.endpoint = k ∧ p.work.tid = i) :=
        fun hp => hx (hp.1.symm.trans hans)
      rw [hnext, htr, if_neg hno]
    refine ⟨fun k i x hx => ?_, fun k i x w hx ha => ?_, fun w hmem' hwt => ?_⟩
    · rw [hnext k i x hx, Device.Calls, htrans]
      by_cases hxn : x = d.nextTransaction
      · have hfresh : ¬ d.Calls k i x := fun ⟨t', ht', _⟩ => by
          rw [hxn, hi.fresh] at ht'
          cases ht'
        rw [if_pos hxn]
        simp only [Option.some.injEq, exists_eq_left', hts, htt]
        split
        next hp => simp [hp.1, hp.2.1]
        next hp =>
          rw [h.waiting k i x hx]
          exact ⟨fun hc => absurd hc hfresh, fun hc => absurd ⟨hc.1, hc.2, hxn.symm⟩ hp⟩
      · rw [if_neg hxn, if_neg fun hp => hxn hp.2.2.symm, h.waiting k i x hx, Device.Calls]
    · rw [hnext k i x hx] at ha
      split at ha
      · cases ha
      · obtain ⟨hw', hat⟩ := h.answered k i x w hx ha
        exact ⟨(hmem w).2 (.inl hw'), hat⟩
    · rcases (hmem w).1 hmem' with hmem' | rfl
      · obtain ⟨x, hx, hxi, ha⟩ := h.reply w hmem' hwt
        refine ⟨x, hx, hn ▸ Issued.succ hi.bounded h0 (.inl hxi), ?_⟩
        rw [hnext _ _ x hx, if_neg fun hp => hxi.ne h0 hp.2.2.symm]
        exact ha
      · exact absurd htid hwt

theorem step (h : Stages d) (hi : CallIds d) (hq : d.work.Nodup) (ht : Traffic d d') :
    Stages d' := by
  cases ht with
  | quiet hk hw hh hn =>
    refine ⟨fun k i x h0 => ?_, fun k i x w h0 ha => ?_, fun w hmem htid => ?_⟩
    · rw [hh, (callStage_plain hn).1, h.waiting k i x h0, hk.calls_iff]
    · rw [hh, (callStage_plain hn).2] at ha
      rw [hw]
      exact h.answered k i x w h0 ha
    · obtain ⟨x, h0, hx, ha⟩ := h.reply w (hw ▸ hmem) htid
      exact ⟨x, h0, hk.next ▸ hx, by rwa [hh, (callStage_plain hn).2]⟩
  | accept hsent _ hw hh => exact h.accept hi hsent hw fun k i x => by rw [hh]; rfl
  | @deliver e th index w hk hth herr hfor hw hwork hh =>
    have hmem := Device.mem_eraseIdx hq hw
    have hnext : ∀ k i x, callStage k i x d'.history =
        if callStage k i x d.history = .answered w then .finished else callStage k i x d.history :=
      fun k i x => by rw [hh]; rfl
    refine ⟨fun k i x h0 => ?_, fun k i x w' h0 ha => ?_, fun w' hmem' htid => ?_⟩
    · rw [hnext, hk.calls_iff, ← h.waiting k i x h0]
      split
      next hs => simp [hs]
      next => rfl
    · rw [hnext] at ha
      split at ha
      · cases ha
      next hs =>
        obtain ⟨hw', hat⟩ := h.answered k i x w' h0 ha
        exact ⟨hwork ▸ (hmem w').2 ⟨hw', fun heq => hs (heq ▸ ha)⟩, hat⟩
    · rw [hwork] at hmem'
      obtain ⟨hw', hne⟩ := (hmem w').1 hmem'
      obtain ⟨x, h0, hx, ha⟩ := h.reply w' hw' htid
      refine ⟨x, h0, hk.next ▸ hx, ?_⟩
      rw [hnext, if_neg]
      · exact ha
      · rw [ha]
        exact fun heq => hne (CallStage.answered.inj heq)
  | @drop token tid l new hcut ht hl hsub hcause hmem hsubl hh =>
    -- what the end of a call does to the stages, the drops aside
    have hcuts : (∀ k i x, x ≠ 0 → (callStage k i x (new ++ d.history) = .waiting ↔ d'.Calls k i x)) ∧
        ∀ k i x w, x ≠ 0 → (callStage k i x (new ++ d.history) = .answered w ↔
          callStage k i x d.history = .answered w) := by
      cases hcut with
      | none hk => exact ⟨fun k i x h0 => (h.waiting k i x h0).trans hk.calls_iff.symm,
          fun _ _ _ _ _ => .rfl⟩
      | call u ht he => exact h.cancelled ht he
    have hnext : ∀ k i x, callStage k i x d'.history = if ∃ w ∈ l,
        callStage k i x (new ++ d.history) = .answered w then .finished
          else callStage k i x (new ++ d.history) := fun k i x => by
      rw [hh, ← List.map_reverse, callStage_drops]
      simp only [List.mem_reverse]
    refine ⟨fun k i x h0 => ?_, fun k i x w h0 ha => ?_, fun w hmem' htid => ?_⟩
    · rw [hnext, ← hcuts.1 k i x h0]
      split
      next hs =>
        obtain ⟨w, _, hs⟩ := hs
        simp [hs]
      next => rfl
    · rw [hnext] at ha
      split at ha
      · cases ha
      next hs =>
        obtain ⟨hw', hat⟩ := h.answered k i x w h0 ((hcuts.2 k i x w h0).1 ha)
        exact ⟨(hmem w).2 ⟨hw', fun hl => hs ⟨w, hl, ha⟩⟩, hat⟩
    · obtain ⟨hw', hnl⟩ := (hmem w).1 hmem'
      obtain ⟨x, h0, hx, ha⟩ := h.reply w hw' htid
      have ha' := (hcuts.2 _ _ x w h0).2 ha
      refine ⟨x, h0, hcut.keeps.next ▸ hx, ?_⟩
      rw [hnext, if_neg]
      · exact ha'
      · rintro ⟨w', hl', hs⟩
        rw [ha'] at hs
        exact hnl (CallStage.answered.inj hs ▸ hl')

end Stages

theorem Device.Reachable.stages {d : Device} (h : d.Reachable) : Stages d := by
  refine h.inv_traffic (fun d hw hh ht => ?_) fun _ _ hr hinv ht =>
    hinv.step hr.callIds hr.queueIds.nodup ht
  refine ⟨fun k i x _ => ?_, fun k i x w _ hs => ?_, by simp [hw]⟩
  · simp [hh, callStage, Device.Calls, ht x]
  · rw [hh] at hs
    cases hs

/-! ## Who is disturbed -/

/-- No process-wide parcel is delivered to a thread that awaits a call. -/
def Undisturbed (e : Event) (older : List Event) : Prop :=
  ∀ k i q w, e = .delivered k i q w → w.tid = 0 → ¬ Awaits k i older

/-- A process-wide parcel is taken from a queue that holds one addressed to the thread. -/
def Event.overtakes : Event → Bool
  | .delivered k i q w => w.tid == 0 && q.any fun w' => w'.endpoint == k && w'.tid == i
  | _ => false

/-- No process-wide parcel overtakes one addressed to the thread that is given it. -/
abbrev NotOvertaken (e : Event) (_ : List Event) : Prop := e.overtakes = false

/-- A thread that is given process work calls nobody and has no error to read, so it
awaits a call exactly if the call's reply is queued. -/
theorem awaits_iff {d : Device} (h : d.Reachable) {k : Nat} {i : Int} {th : Thread}
    (hth : d.threadFor k i = some th) (hout : th.outgoing = 0) (herr : th.error = none) :
    Awaits k i d.history ↔ ∃ w ∈ d.work, w.endpoint = k ∧ w.tid = i := by
  have hnone : errorOf k i d.history = none := by
    refine h.errorSlots.live k i th.completions none ?_
    rw [Device.accountFor, hth, Option.map_some, Thread.account, herr]
  constructor
  · rintro (⟨x, h0, hopen⟩ | hdue)
    · cases hs : callStage k i x d.history with
      | waiting =>
        obtain ⟨t, ht, rfl, rfl⟩ := (h.stages.waiting k i x h0).1 hs
        obtain ⟨th', hth', hx⟩ := h.callInv.caller x t ht
        rw [hth] at hth'
        cases hth'
        exact absurd (hx.symm.trans hout) h0
      | answered w =>
        obtain ⟨hw, hat⟩ := h.stages.answered k i x w h0 hs
        exact ⟨w, hw, hat⟩
      | dead =>
        rw [errorOf_dead h.errorSlots.right hs] at hnone
        cases hnone
      | absent | finished =>
        rw [hs] at hopen
        exact hopen.elim
    · exact absurd hnone (errorOf_due hdue)
  · rintro ⟨w, hw, rfl, rfl⟩
    have hpos := h.endpointIds.tid_pos hth
    obtain ⟨x, h0, _, hs⟩ := h.stages.reply w hw (ne_of_gt hpos)
    exact .inl ⟨x, h0, by rw [hs]; trivial⟩

/-- A thread is disturbed exactly if it is overtaken. -/
theorem disturbed_step {d d' : Device} (h : d.Reachable) (ht : Traffic d d')
    (ha : Always (fun e older => Undisturbed e older ↔ NotOvertaken e older) d.history) :
    Always (fun e older => Undisturbed e older ↔ NotOvertaken e older) d'.history := by
  -- events that deliver nothing are neither
  have hother : ∀ e : Event, (∀ k i q w, e ≠ .delivered k i q w) → ∀ older,
      Undisturbed e older ↔ NotOvertaken e older := by
    intro e he _
    refine iff_of_true (fun _ _ _ _ heq => absurd heq (he _ _ _ _)) ?_
    cases e with
    | delivered => exact absurd rfl (he _ _ _ _)
    | _ => rfl
  cases ht with
  | quiet _ _ hh hn =>
    refine hh ▸ ha.append fun e he => hother e fun _ _ _ _ heq => ?_
    have hp := hn e he
    rw [heq] at hp
    exact hp
  | accept _ _ _ hh => exact hh ▸ ⟨hother _ (by simp) _, hother _ (by simp) _, ha⟩
  | @deliver e th index w _ hth herr hfor hw _ hh =>
    refine hh ▸ ⟨?_, ha⟩
    obtain ⟨w', hw', hready, _⟩ := Device.workFor_spec hfor
    rw [hw] at hw'
    cases hw'
    have hpos := h.endpointIds.tid_pos hth
    -- only an idle thread is given process work
    have hidle : w.tid = 0 → (Awaits e.token th.tid d.history ↔
        ∃ w ∈ d.work, w.endpoint = e.token ∧ w.tid = th.tid) := by
      intro htid
      rcases (CallInv.ready_thread hready).2 with heq | hacc
      · exact absurd (heq.symm.trans htid) (ne_of_gt hpos)
      · exact awaits_iff h hth hacc.2.2.1 herr
    have hover : NotOvertaken (.delivered e.token th.tid d.work w) d.history ↔
        (w.tid = 0 → ¬ ∃ w ∈ d.work, w.endpoint = e.token ∧ w.tid = th.tid) := by
      simp [NotOvertaken, Event.overtakes]
    rw [hover]
    constructor
    · exact fun hu htid => (hidle htid).not.1 (hu _ _ _ _ rfl htid)
    · rintro ho _ _ _ _ heq htid
      cases heq
      exact (hidle htid).not.2 (ho htid)
  | drop hcut _ _ _ _ _ _ hh =>
    rw [← List.append_assoc] at hh
    refine hh ▸ ha.append fun e he => hother e fun _ _ _ _ heq => ?_
    rcases List.mem_append.1 he with he | he
    · simp [heq] at he
    · obtain ⟨_, _, _, _, hc⟩ := hcut.cancelled e he
      rw [hc] at heq
      cases heq

/-- In every run, waiting callers are left alone exactly as long as no thread is handed
process work over a reply of its own further back in the queue. -/
theorem undisturbed_iff {d : Device} (h : d.Reachable) :
    Always Undisturbed d.history ↔ Always NotOvertaken d.history :=
  Always.congr (h.inv_traffic (fun d _ hh _ => by simp [hh]) fun _ _ hr ha ht =>
    disturbed_step hr ht ha)

/-- The client's looper thread `2` calls the manager and exports an object; the manager's
thread reads the call, sends a one-way call to the object and then replies; the client
reads its node commands and its completion, and then one parcel. -/
def overtakeScript : Script :=
  [(2, 256, Header.bytes ⟨72, 0, 512, 0, 0, 0⟩), (2, 512, Bytes.writeLE 4 BC.enterLooper.word),
    (2, 516, packetBytes .transaction 0 0 24 8 1024 2048), (2, 1024, objectBytes .binder 16 17),
    (2, 2048, Bytes.writeLE 8 0),
    (1, 256, Header.bytes ⟨4, 0, 512, 128, 0, 8192⟩), (1, 512, Bytes.writeLE 4 BC.enterLooper.word),
    (1, 1024, Header.bytes ⟨136, 0, 1280, 0, 0, 0⟩), (1, 1280, packetBytes .transaction 1 1 0 0 0 0),
    (1, 1348, packetBytes .reply 0 0 0 0 0 0),
    (2, 4096, Header.bytes ⟨0, 0, 0, 48, 0, 8192⟩), (2, 4352, Header.bytes ⟨0, 0, 0, 75, 0, 8192⟩)]

def overtakeCalls : List Call :=
  [.writeRead 2 2 256, .writeRead 1 1 256, .writeRead 1 1 1024, .writeRead 2 2 4096]

/-- Before it reads the parcel nobody was overtaken. -/
theorem undisturbed_before : Always Undisturbed (replay overtakeScript overtakeCalls).history :=
  (undisturbed_iff (replay_reachable overtakeScript overtakeCalls)).2 (by decide)

/-- The parcel is the one-way call, and the reply is behind it. -/
theorem caller_overtaken : ¬ ∀ d : Device, d.Reachable → Always Undisturbed d.history := by
  intro h
  have hall := h _ (replay_reachable overtakeScript (overtakeCalls ++ [.writeRead 2 2 4352]))
  have hread : (replay overtakeScript (overtakeCalls ++ [.writeRead 2 2 4352])).history =
      .delivered 2 2 (replay overtakeScript overtakeCalls).work
        ((replay overtakeScript overtakeCalls).work.head (by decide)) ::
          (replay overtakeScript overtakeCalls).history := by
    decide
  rw [hread] at hall
  have hreply : callStage 2 2 1 (replay overtakeScript overtakeCalls).history =
      .answered ((replay overtakeScript overtakeCalls).work.getLast (by decide)) := by
    decide
  exact hall.1 _ _ _ _ rfl (by decide) (.inl ⟨1, by decide, hreply ▸ trivial⟩)

end Artbox.Binder
