import Artbox.Binder.Queue

/-!
# Synchronous calls

A call in flight has two ends. Its caller's thread carries its id in `outgoing`. On
the other side it is either still queued, and no thread serves it, or delivered, and
the thread that read it carries its id in `incoming` (`CallInv`). Threads, calls and
queue are three tables, so every step that starts, delivers, answers or ends a call
has to move all of them at once; the others are *quiet*: they may edit threads and
queue, but not the parts that say who calls whom (`SameBusy`).
-/

namespace Artbox.Binder

open Slots

/-! ## Call identities -/

/-- Live calls have distinct ids, and the counter has passed them. -/
structure CallIds (d : Device) : Prop where
  unique : Unique (fun t : Transaction => t.id ≠ 0) (·.id) d.transactions
  issued : ∀ t ∈ d.transactions, t.id ≠ 0 → Issued d.nextTransaction t.id
  bounded : d.nextTransaction < 2 ^ 64

namespace CallIds

variable {d d' : Device}

/-- A listed call is found by its id. -/
theorem transactionFor (h : CallIds d) {t : Transaction} (ht : t ∈ d.transactions)
    (h0 : t.id ≠ 0) : d.transactionFor t.id = some t :=
  h.unique.find? ht h0 fun x => by
    simp only [Bool.and_eq_true, beq_iff_eq, bne_iff_ne]
    exact ⟨fun hx => ⟨hx.2 ▸ h0, hx.2⟩, fun hx => ⟨h0, hx.2⟩⟩

/-- The counter's value names no call. -/
theorem fresh (h : CallIds d) : d.transactionFor d.nextTransaction = none := by
  cases hf : d.transactionFor d.nextTransaction with
  | none => rfl
  | some t =>
    obtain ⟨hmem, hid, h0⟩ := Device.transactionFor_spec hf
    exact absurd hid ((h.issued t hmem (hid ▸ h0)).ne h0)

theorem congr (h : CallIds d) (ht : d'.transactions = d.transactions)
    (hn : d'.nextTransaction = d.nextTransaction) : CallIds d' :=
  ⟨ht ▸ h.unique, by rw [ht, hn]; exact h.issued, hn ▸ h.bounded⟩

/-- An update may end calls, but gives none a new id. -/
theorem update (h : CallIds d) {p : Transaction → Bool} {f : Transaction → Transaction}
    (hf : ∀ t, (f t).id ≠ 0 → (f t).id = t.id)
    (ht : d'.transactions = Slots.update p f d.transactions)
    (hn : d'.nextTransaction = d.nextTransaction) : CallIds d' := by
  refine ⟨?_, ?_, hn ▸ h.bounded⟩
  · rw [ht]
    exact h.unique.update fun t _ _ hl => ⟨hf t hl ▸ hl, hf t hl⟩
  · rw [ht, hn]
    intro t hmem h0
    obtain ⟨s, hs, rfl⟩ := mem_update.1 hmem
    by_cases hp : p s = true
    · simp only [hp, if_true] at h0 ⊢
      have hid := hf s h0
      rw [hid] at h0 ⊢
      exact h.issued s hs h0
    · simp only [hp] at h0 ⊢
      exact h.issued s hs h0

end CallIds

/-! ## The invariant -/

/-- A queued parcel is a reply to a thread, a call in flight or a one-way call. -/
inductive Work.Shaped (w : Work) : Prop
  | reply : w.command = .reply → w.tid ≠ 0 → w.transaction = 0 → w.asyncNode = 0 → Shaped w
  | call : w.command = .transaction → w.tid = 0 → w.transaction ≠ 0 → w.asyncNode = 0 → Shaped w
  | oneway : w.command = .transaction → w.tid = 0 → w.transaction = 0 → w.asyncNode ≠ 0 → Shaped w

/-- Threads, calls and queue agree about every call in flight. -/
structure CallInv (d : Device) : Prop where
  caller : ∀ x t, d.transactionFor x = some t →
    ∃ th, d.threadFor t.source t.sourceTid = some th ∧ th.outgoing = x
  calling : ∀ k i th, d.threadFor k i = some th → th.outgoing ≠ 0 →
    ∃ t, d.transactionFor th.outgoing = some t ∧ t.source = k ∧ t.sourceTid = i
  server : ∀ x t, d.transactionFor x = some t → t.targetTid ≠ 0 →
    ∃ th, d.threadFor t.target t.targetTid = some th ∧ th.incoming = x
  serving : ∀ k i th, d.threadFor k i = some th → th.incoming ≠ 0 → th.deadReply = false ∧
    ∃ t, d.transactionFor th.incoming = some t ∧ t.target = k ∧ t.targetTid = i
  queued : ∀ x t, d.transactionFor x = some t → t.targetTid = 0 →
    ∃ w ∈ d.work, w.transaction = x
  work : ∀ w ∈ d.work, w.transaction ≠ 0 →
    ∃ t, d.transactionFor w.transaction = some t ∧ t.target = w.endpoint ∧ t.targetTid = 0
  once : ∀ w ∈ d.work, ∀ w' ∈ d.work, w.transaction ≠ 0 → w.transaction = w'.transaction → w = w'
  apart : ∀ x t, d.transactionFor x = some t → t.source ≠ t.target
  shaped : ∀ w ∈ d.work, w.Shaped

/-- The thread no longer calls or serves the call with this id. -/
def Thread.EndsCall (id : Nat) (th th' : Thread) : Prop :=
  th'.incoming = (if th.incoming = id then 0 else th.incoming) ∧
    th'.outgoing = (if th.outgoing = id then 0 else th.outgoing) ∧
    (th'.incoming ≠ 0 → th'.deadReply = th.deadReply)

/-! ## Quiet steps -/

/-- The thread calls and serves what it did before. -/
def Thread.SameCall (th th' : Thread) : Prop :=
  th'.incoming = th.incoming ∧ th'.outgoing = th.outgoing ∧
    (th.incoming ≠ 0 → th'.deadReply = th.deadReply)

/-- The threads that call or serve are the same before and after. -/
structure SameBusy (d d' : Device) : Prop where
  fwd : ∀ k i th, d.threadFor k i = some th → th.incoming ≠ 0 ∨ th.outgoing ≠ 0 →
    ∃ th', d'.threadFor k i = some th' ∧ th.SameCall th'
  bwd : ∀ k i th', d'.threadFor k i = some th' → th'.incoming ≠ 0 ∨ th'.outgoing ≠ 0 →
    ∃ th, d.threadFor k i = some th ∧ th.SameCall th'

/-- Editing threads in place is quiet if each edit is. -/
theorem SameBusy.of_map {d d' : Device}
    (h : ∀ k i, ∃ g : Thread → Thread, d'.threadFor k i = (d.threadFor k i).map g ∧
      ∀ th, d.threadFor k i = some th → th.SameCall (g th)) : SameBusy d d' := by
  refine ⟨fun k i th hth _ => ?_, fun k i th' hth' _ => ?_⟩
  · obtain ⟨g, hg, hsame⟩ := h k i
    exact ⟨g th, by rw [hg, hth]; rfl, hsame th hth⟩
  · obtain ⟨g, hg, hsame⟩ := h k i
    rw [hg] at hth'
    obtain ⟨th, hth, rfl⟩ := Option.map_eq_some_iff.1 hth'
    exact ⟨th, hth, hsame th hth⟩

theorem SameBusy.of_eq {d d' : Device} (h : ∀ k i, d'.threadFor k i = d.threadFor k i) :
    SameBusy d d' :=
  .of_map fun k i => ⟨id, by simp [h k i], fun _ _ => ⟨rfl, rfl, fun _ => rfl⟩⟩

/-- One edited thread. -/
theorem SameBusy.of_updateThread {d d' : Device} {k : Nat} {i : Int} {f : Thread → Thread}
    (he : d'.endpoints = (d.updateThread k i f).endpoints) (ht : ∀ th : Thread, (f th).tid = th.tid)
    (hf : ∀ th, d.threadFor k i = some th → th.SameCall (f th)) : SameBusy d d' := by
  refine .of_map fun k' i' => ?_
  rw [Device.threadFor_congr he, Device.threadFor_updateThread ht]
  by_cases h : k' = k ∧ i' = i
  · refine ⟨f, by rw [if_pos h], fun th hth => hf th ?_⟩
    rw [← h.1, ← h.2]
    exact hth
  · exact ⟨id, by rw [if_neg h]; simp, fun _ _ => ⟨rfl, rfl, fun _ => rfl⟩⟩

namespace CallInv

variable {d d' : Device}

/-- A quiet step keeps the invariant. -/
theorem quiet (h : CallInv d) (hb : SameBusy d d')
    (ht : ∀ x, d'.transactionFor x = d.transactionFor x)
    (hw : ∀ w, w.transaction ≠ 0 → (w ∈ d'.work ↔ w ∈ d.work))
    (hs : ∀ w ∈ d'.work, w ∈ d.work ∨ w.Shaped) : CallInv d' where
  caller x t hx := by
    rw [ht] at hx
    have h0 := (Device.transactionFor_spec hx).2.2
    obtain ⟨th, hth, hout⟩ := h.caller x t hx
    obtain ⟨th', hth', hsame⟩ := hb.fwd _ _ th hth (.inr (hout ▸ h0))
    exact ⟨th', hth', hsame.2.1.trans hout⟩
  calling k i th' hth' h0 := by
    obtain ⟨th, hth, hsame⟩ := hb.bwd k i th' hth' (.inr h0)
    rw [ht, hsame.2.1]
    exact h.calling k i th hth (hsame.2.1 ▸ h0)
  server x t hx h0 := by
    rw [ht] at hx
    have hx0 := (Device.transactionFor_spec hx).2.2
    obtain ⟨th, hth, hin⟩ := h.server x t hx h0
    obtain ⟨th', hth', hsame⟩ := hb.fwd _ _ th hth (.inl (hin ▸ hx0))
    exact ⟨th', hth', hsame.1.trans hin⟩
  serving k i th' hth' h0 := by
    obtain ⟨th, hth, hsame⟩ := hb.bwd k i th' hth' (.inl h0)
    have h0' : th.incoming ≠ 0 := hsame.1 ▸ h0
    rw [ht, hsame.1, hsame.2.2 h0']
    exact h.serving k i th hth h0'
  queued x t hx h0 := by
    rw [ht] at hx
    obtain ⟨w, hmem, hwx⟩ := h.queued x t hx h0
    exact ⟨w, (hw w (hwx ▸ (Device.transactionFor_spec hx).2.2)).2 hmem, hwx⟩
  work w hmem h0 := by
    rw [ht]
    exact h.work w ((hw w h0).1 hmem) h0
  once w hmem w' hmem' h0 heq :=
    h.once w ((hw w h0).1 hmem) w' ((hw w' (heq ▸ h0)).1 hmem') h0 heq
  apart x t hx := h.apart x t (ht x ▸ hx)
  shaped w hmem := (hs w hmem).elim (h.shaped w) id

/-- A quiet step that leaves the queue alone. -/
theorem quiet' (h : CallInv d) (hb : SameBusy d d') (ht : d'.transactions = d.transactions)
    (hw : d'.work = d.work) : CallInv d' :=
  h.quiet hb (Device.transactionFor_congr ht) (fun _ _ => by rw [hw]) fun w hmem =>
    .inl (hw ▸ hmem)

/-- A step that takes a parcel without a call off the queue. -/
theorem unqueue (h : CallInv d) (hb : SameBusy d d')
    (ht : d'.transactions = d.transactions) {w : Work} (h0 : w.transaction = 0)
    (hw : ∀ x, x ∈ d'.work ↔ x ∈ d.work ∧ x ≠ w) : CallInv d' :=
  h.quiet hb (Device.transactionFor_congr ht)
    (fun x hx => (hw x).trans (and_iff_left fun heq => hx (heq ▸ h0)))
    fun x hx => .inl ((hw x).1 hx).1

/-- Only its caller's thread calls it. -/
theorem only_caller (h : CallInv d) {x : Nat} {t : Transaction} (ht : d.transactionFor x = some t)
    {k : Nat} {i : Int} {th : Thread} (hth : d.threadFor k i = some th) (hout : th.outgoing = x) :
    k = t.source ∧ i = t.sourceTid := by
  have h0 := (Device.transactionFor_spec ht).2.2
  obtain ⟨t', ht', hk, hi⟩ := h.calling k i th hth (hout ▸ h0)
  rw [hout, ht] at ht'
  cases ht'
  exact ⟨hk.symm, hi.symm⟩

/-- Only its server's thread serves it. -/
theorem only_server (h : CallInv d) {x : Nat} {t : Transaction} (ht : d.transactionFor x = some t)
    {k : Nat} {i : Int} {th : Thread} (hth : d.threadFor k i = some th) (hin : th.incoming = x) :
    k = t.target ∧ i = t.targetTid := by
  have h0 := (Device.transactionFor_spec ht).2.2
  obtain ⟨_, t', ht', hk, hi⟩ := h.serving k i th hth (hin ▸ h0)
  rw [hin, ht] at ht'
  cases ht'
  exact ⟨hk.symm, hi.symm⟩

/-! ## Starting, serving and ending a call -/

/-- A call starts: its caller's thread, its transaction and its parcel appear together. -/
theorem start (h : CallInv d) {t : Transaction} {w : Work} {th : Thread}
    (hfresh : d.transactionFor t.id = none) (h0 : t.id ≠ 0)
    (hth : d.threadFor t.source t.sourceTid = some th) (hout : th.outgoing = 0)
    (htid : t.targetTid = 0) (hapart : t.source ≠ t.target)
    (ht : ∀ x, d'.transactionFor x = if x = t.id then some t else d.transactionFor x)
    (hd : ∀ k i, d'.threadFor k i = if k = t.source ∧ i = t.sourceTid then
      (d.threadFor k i).map fun th => { th with outgoing := t.id, completions := th.completions + 1 }
      else d.threadFor k i)
    (hw : d'.work = d.work ++ [w]) (hwt : w.transaction = t.id) (hwe : w.endpoint = t.target)
    (hws : w.Shaped) : CallInv d' := by
  have hnone : ∀ w' ∈ d.work, w'.transaction ≠ t.id := by
    intro w' hw' heq
    obtain ⟨t', ht', _⟩ := h.work w' hw' (heq ▸ h0)
    rw [heq, hfresh] at ht'
    cases ht'
  have hmem : ∀ x, x ∈ d'.work ↔ x ∈ d.work ∨ x = w := by
    intro x
    rw [hw, List.mem_append, List.mem_singleton]
  -- threads other than the caller's keep both ends
  have hback : ∀ k i th', d'.threadFor k i = some th' → ∃ th0, d.threadFor k i = some th0 ∧
      th'.incoming = th0.incoming ∧ th'.deadReply = th0.deadReply ∧
      (th'.outgoing = th0.outgoing ∨
        (k = t.source ∧ i = t.sourceTid ∧ th'.outgoing = t.id)) := by
    intro k i th' hth'
    rw [hd] at hth'
    split at hth'
    next hki =>
      obtain ⟨th0, hth0, rfl⟩ := Option.map_eq_some_iff.1 hth'
      exact ⟨th0, hth0, rfl, rfl, .inr ⟨hki.1, hki.2, rfl⟩⟩
    next => exact ⟨th', hth', rfl, rfl, .inl rfl⟩
  have hfwd : ∀ k i th0, d.threadFor k i = some th0 → ∃ th', d'.threadFor k i = some th' ∧
      th'.incoming = th0.incoming ∧
      (th0.outgoing ≠ 0 → th'.outgoing = th0.outgoing) := by
    intro k i th0 hth0
    rw [hd]
    split
    next hki =>
      rw [hki.1, hki.2] at hth0 ⊢
      refine ⟨_, Option.map_eq_some_iff.2 ⟨th0, hth0, rfl⟩, rfl, fun hne => absurd ?_ hne⟩
      rw [hth] at hth0
      cases hth0
      exact hout
    next => exact ⟨th0, hth0, rfl, fun _ => rfl⟩
  refine ⟨?_, ?_, ?_, ?_, ?_, ?_, ?_, ?_, ?_⟩
  · intro x t' hx
    rw [ht] at hx
    split at hx
    next hxt =>
      cases hx
      exact ⟨_, by rw [hd, if_pos ⟨rfl, rfl⟩, hth]; rfl, hxt.symm⟩
    next =>
      obtain ⟨th0, hth0, hx0⟩ := h.caller x t' hx
      obtain ⟨th', hth', _, ho⟩ := hfwd _ _ th0 hth0
      exact ⟨th', hth', (ho (hx0 ▸ (Device.transactionFor_spec hx).2.2)).trans hx0⟩
  · intro k i th' hth' hne
    obtain ⟨th0, hth0, _, _, ho | ⟨hk, hi, ho⟩⟩ := hback k i th' hth'
    · obtain ⟨t', ht', hk, hi⟩ := h.calling k i th0 hth0 (ho ▸ hne)
      refine ⟨t', ?_, hk, hi⟩
      rw [ht, ho, if_neg, ht']
      intro heq
      rw [heq, hfresh] at ht'
      cases ht'
    · exact ⟨t, by rw [ht, if_pos ho], hk.symm, hi.symm⟩
  · intro x t' hx hne
    rw [ht] at hx
    split at hx
    next =>
      cases hx
      exact absurd htid hne
    next =>
      obtain ⟨th0, hth0, hx0⟩ := h.server x t' hx hne
      obtain ⟨th', hth', hi, _⟩ := hfwd _ _ th0 hth0
      exact ⟨th', hth', hi.trans hx0⟩
  · intro k i th' hth' hne
    obtain ⟨th0, hth0, hi, hdead, _⟩ := hback k i th' hth'
    obtain ⟨hdr, t', ht', hk⟩ := h.serving k i th0 hth0 (hi ▸ hne)
    refine ⟨hdead.trans hdr, t', ?_, hk⟩
    rw [ht, hi, if_neg, ht']
    intro heq
    rw [heq, hfresh] at ht'
    cases ht'
  · intro x t' hx hne
    rw [ht] at hx
    split at hx
    next hxt =>
      exact ⟨w, (hmem w).2 (.inr rfl), hwt.trans hxt.symm⟩
    next =>
      obtain ⟨w', hw', hwx⟩ := h.queued x t' hx hne
      exact ⟨w', (hmem w').2 (.inl hw'), hwx⟩
  · intro w' hw' hne
    rcases (hmem w').1 hw' with hw' | rfl
    · obtain ⟨t', ht', hrest⟩ := h.work w' hw' hne
      exact ⟨t', by rw [ht, if_neg (hnone w' hw'), ht'], hrest⟩
    · exact ⟨t, by rw [ht, if_pos hwt], hwe.symm, htid⟩
  · intro w1 hw1 w2 hw2 hne heq
    rcases (hmem w1).1 hw1 with hw1 | rfl <;> rcases (hmem w2).1 hw2 with hw2 | rfl
    · exact h.once w1 hw1 w2 hw2 hne heq
    · exact absurd (heq.trans hwt) (hnone w1 hw1)
    · exact absurd (heq.symm.trans hwt) (hnone w2 hw2)
    · rfl
  · intro x t' hx
    rw [ht] at hx
    split at hx
    next =>
      cases hx
      exact hapart
    next => exact h.apart x t' hx
  · intro w' hw'
    rcases (hmem w').1 hw' with hw' | rfl
    · exact h.shaped w' hw'
    · exact hws

/-- A call is delivered: its parcel goes, its server's thread is named. -/
theorem serve (h : CallInv d) {w : Work} {th : Thread} {k : Nat} {i : Int} (hw : w ∈ d.work)
    (h0 : w.transaction ≠ 0) (hwe : w.endpoint = k)
    (hpos : ∀ k i th, d.threadFor k i = some th → i ≠ 0)
    (hth : d.threadFor k i = some th) (hin : th.incoming = 0) (hdead : th.deadReply = false)
    (ht : ∀ x, d'.transactionFor x = if x = w.transaction then
      (d.transactionFor x).map fun t => { t with targetTid := i } else d.transactionFor x)
    (hd : ∀ k' i', d'.threadFor k' i' = if k' = k ∧ i' = i then
      (d.threadFor k' i').map fun th => { th with incoming := w.transaction }
      else d.threadFor k' i')
    (hmem : ∀ x, x ∈ d'.work ↔ x ∈ d.work ∧ x ≠ w) : CallInv d' := by
  obtain ⟨t, htw, htt, htid0⟩ := h.work w hw h0
  -- a call's ends do not move, only its server's tid does
  have hcall : ∀ x t', d'.transactionFor x = some t' → ∃ t0, d.transactionFor x = some t0 ∧
      t'.source = t0.source ∧ t'.sourceTid = t0.sourceTid ∧ t'.target = t0.target ∧
      ((x ≠ w.transaction ∧ t'.targetTid = t0.targetTid) ∨
        (x = w.transaction ∧ t0 = t ∧ t'.targetTid = i)) := by
    intro x t' hx
    rw [ht] at hx
    split at hx
    next hxw =>
      obtain ⟨t0, ht0, rfl⟩ := Option.map_eq_some_iff.1 hx
      refine ⟨t0, ht0, rfl, rfl, rfl, .inr ⟨hxw, ?_, rfl⟩⟩
      rw [hxw, htw] at ht0
      exact (Option.some.inj ht0).symm
    next hxw => exact ⟨t', hx, rfl, rfl, rfl, .inl ⟨hxw, rfl⟩⟩
  have hback : ∀ k' i' th', d'.threadFor k' i' = some th' → ∃ th0, d.threadFor k' i' = some th0 ∧
      th'.outgoing = th0.outgoing ∧ th'.deadReply = th0.deadReply ∧
      (th'.incoming = th0.incoming ∨
        (k' = k ∧ i' = i ∧ th0 = th ∧ th'.incoming = w.transaction)) := by
    intro k' i' th' hth'
    rw [hd] at hth'
    split at hth'
    next hki =>
      obtain ⟨th0, hth0, rfl⟩ := Option.map_eq_some_iff.1 hth'
      refine ⟨th0, hth0, rfl, rfl, .inr ⟨hki.1, hki.2, ?_, rfl⟩⟩
      rw [hki.1, hki.2, hth] at hth0
      exact (Option.some.inj hth0).symm
    next => exact ⟨th', hth', rfl, rfl, .inl rfl⟩
  have hfwd : ∀ k' i' th0, d.threadFor k' i' = some th0 → ∃ th', d'.threadFor k' i' = some th' ∧
      th'.outgoing = th0.outgoing ∧ (th0.incoming ≠ 0 → th'.incoming = th0.incoming) := by
    intro k' i' th0 hth0
    rw [hd]
    split
    next hki =>
      rw [hki.1, hki.2] at hth0 ⊢
      refine ⟨_, Option.map_eq_some_iff.2 ⟨th0, hth0, rfl⟩, rfl, fun hne => absurd ?_ hne⟩
      rw [hth] at hth0
      cases hth0
      exact hin
    next => exact ⟨th0, hth0, rfl, fun _ => rfl⟩
  have hkeep : ∀ x t0, d.transactionFor x = some t0 → ∃ t', d'.transactionFor x = some t' ∧
      t'.source = t0.source ∧ t'.sourceTid = t0.sourceTid ∧ t'.target = t0.target ∧
      (x ≠ w.transaction → t'.targetTid = t0.targetTid) := by
    intro x t0 hx
    rw [ht]
    split
    next hxw =>
      exact ⟨_, Option.map_eq_some_iff.2 ⟨t0, hx, rfl⟩, rfl, rfl, rfl, fun hne => absurd hxw hne⟩
    next => exact ⟨t0, hx, rfl, rfl, rfl, fun _ => rfl⟩
  refine ⟨?_, ?_, ?_, ?_, ?_, ?_, ?_, ?_, ?_⟩
  · intro x t' hx
    obtain ⟨t0, hx0, hs, hst, _, _⟩ := hcall x t' hx
    obtain ⟨th0, hth0, ho⟩ := h.caller x t0 hx0
    obtain ⟨th', hth', ho', _⟩ := hfwd _ _ th0 hth0
    exact ⟨th', by rw [hs, hst]; exact hth', ho'.trans ho⟩
  · intro k' i' th' hth' hne
    obtain ⟨th0, hth0, ho, _, _⟩ := hback k' i' th' hth'
    obtain ⟨t0, ht0, hk, hi⟩ := h.calling k' i' th0 hth0 (ho ▸ hne)
    obtain ⟨t', ht', hs, hst, _⟩ := hkeep _ t0 ht0
    exact ⟨t', by rw [ho]; exact ht', hs.trans hk, hst.trans hi⟩
  · intro x t' hx hne
    obtain ⟨t0, hx0, _, _, htt', ⟨hxw, heq⟩ | ⟨hxw, rfl, heq⟩⟩ := hcall x t' hx
    · obtain ⟨th0, hth0, hi⟩ := h.server x t0 hx0 (heq ▸ hne)
      obtain ⟨th', hth', _, hi'⟩ := hfwd _ _ th0 hth0
      refine ⟨th', by rw [htt', heq]; exact hth', (hi' ?_).trans hi⟩
      rw [hi]
      exact (Device.transactionFor_spec hx0).2.2
    · refine ⟨{ th with incoming := w.transaction }, ?_, hxw.symm⟩
      rw [htt', heq, htt, hwe, hd, if_pos ⟨rfl, rfl⟩, hth]
      rfl
  · intro k' i' th' hth' hne
    obtain ⟨th0, hth0, _, hdr, hi | ⟨rfl, rfl, rfl, hi⟩⟩ := hback k' i' th' hth'
    · obtain ⟨hdead', t0, ht0, hk, htid⟩ := h.serving k' i' th0 hth0 (hi ▸ hne)
      obtain ⟨t', ht', _, _, htt', heq⟩ := hkeep _ t0 ht0
      refine ⟨hdr.trans hdead', t', by rw [hi]; exact ht', htt'.trans hk, (heq ?_).trans htid⟩
      intro hxw
      rw [hxw, htw] at ht0
      cases ht0
      -- the queued call has no server yet
      exact hpos k' i' th0 hth0 (htid.symm.trans htid0)
    · refine ⟨hdr.trans hdead, { t with targetTid := i' }, ?_, htt.trans hwe, rfl⟩
      rw [hi, ht, if_pos rfl, htw]
      rfl
  · intro x t' hx h0'
    obtain ⟨t0, hx0, _, _, _, ⟨hxw, heq⟩ | ⟨_, _, heq⟩⟩ := hcall x t' hx
    · obtain ⟨w', hw', hwx⟩ := h.queued x t0 hx0 (heq ▸ h0')
      refine ⟨w', (hmem w').2 ⟨hw', fun heq' => hxw ?_⟩, hwx⟩
      rw [← hwx, heq']
    · exact absurd (heq.symm.trans h0') (hpos k i th hth)
  · intro w' hw' hne
    obtain ⟨hw', hww⟩ := (hmem w').1 hw'
    obtain ⟨t0, ht0', htt', htid⟩ := h.work w' hw' hne
    obtain ⟨t', ht', _, _, htt'', heq⟩ := hkeep _ t0 ht0'
    refine ⟨t', ht', htt''.trans htt', (heq fun hxw => hww ?_).trans htid⟩
    exact h.once w' hw' w hw hne hxw
  · intro w1 hw1 w2 hw2
    exact h.once w1 ((hmem w1).1 hw1).1 w2 ((hmem w2).1 hw2).1
  · intro x t' hx
    obtain ⟨t0, hx0, hs, _, htt', _⟩ := hcall x t' hx
    rw [hs, htt']
    exact h.apart x t0 hx0
  · intro w' hw'
    exact h.shaped w' ((hmem w').1 hw').1

/-- A call ends: both its ends, its transaction and its parcel go together. -/
theorem ended (h : CallInv d) {id : Nat}
    (ht : ∀ x, d'.transactionFor x = if x = id then none else d.transactionFor x)
    (hd : ∀ k i, ∃ g : Thread → Thread, d'.threadFor k i = (d.threadFor k i).map g ∧
      ∀ th, d.threadFor k i = some th → th.EndsCall id (g th))
    (hw : ∀ w, w.transaction ≠ 0 → (w ∈ d'.work ↔ w ∈ d.work ∧ w.transaction ≠ id))
    (hs : ∀ w ∈ d'.work, w ∈ d.work ∨ w.Shaped) : CallInv d' := by
  -- each thread of either device is one of the other, with this call taken from it
  have hback : ∀ k i th', d'.threadFor k i = some th' →
      ∃ th, d.threadFor k i = some th ∧ th.EndsCall id th' := by
    intro k i th' hth'
    obtain ⟨g, hg, hends⟩ := hd k i
    rw [hg] at hth'
    obtain ⟨th, hth, rfl⟩ := Option.map_eq_some_iff.1 hth'
    exact ⟨th, hth, hends th hth⟩
  have hfwd : ∀ k i th, d.threadFor k i = some th →
      ∃ th', d'.threadFor k i = some th' ∧ th.EndsCall id th' := by
    intro k i th hth
    obtain ⟨g, hg, hends⟩ := hd k i
    exact ⟨g th, by rw [hg, hth]; rfl, hends th hth⟩
  have hlive : ∀ x t, d'.transactionFor x = some t → x ≠ id ∧ d.transactionFor x = some t := by
    intro x t hx
    rw [ht] at hx
    split at hx
    · cases hx
    next hne => exact ⟨hne, hx⟩
  refine ⟨?_, ?_, ?_, ?_, ?_, ?_, ?_, ?_, ?_⟩
  · intro x t hx
    obtain ⟨hne, hx⟩ := hlive x t hx
    obtain ⟨th, hth, ho⟩ := h.caller x t hx
    obtain ⟨th', hth', _, ho', _⟩ := hfwd _ _ th hth
    rw [if_neg (ho ▸ hne)] at ho'
    exact ⟨th', hth', ho'.trans ho⟩
  · intro k i th' hth' h0
    obtain ⟨th, hth, _, ho, _⟩ := hback k i th' hth'
    split at ho
    · exact absurd ho h0
    next hne =>
      obtain ⟨t, htx, hk⟩ := h.calling k i th hth (ho ▸ h0)
      exact ⟨t, by rw [ht, ho, if_neg hne, htx], hk⟩
  · intro x t hx h0
    obtain ⟨hne, hx⟩ := hlive x t hx
    obtain ⟨th, hth, hi⟩ := h.server x t hx h0
    obtain ⟨th', hth', hi', _, _⟩ := hfwd _ _ th hth
    rw [if_neg (hi ▸ hne)] at hi'
    exact ⟨th', hth', hi'.trans hi⟩
  · intro k i th' hth' h0
    obtain ⟨th, hth, hi, _, hdr⟩ := hback k i th' hth'
    split at hi
    · exact absurd hi h0
    next hne =>
      obtain ⟨hdead, t, htx, hk⟩ := h.serving k i th hth (hi ▸ h0)
      exact ⟨(hdr h0).trans hdead, t, by rw [ht, hi, if_neg hne, htx], hk⟩
  · intro x t hx h0
    obtain ⟨hne, hx⟩ := hlive x t hx
    obtain ⟨w, hmem, hwx⟩ := h.queued x t hx h0
    refine ⟨w, (hw w ?_).2 ⟨hmem, hwx ▸ hne⟩, hwx⟩
    rw [hwx]
    exact (Device.transactionFor_spec hx).2.2
  · intro w hmem h0
    obtain ⟨hmem, hne⟩ := (hw w h0).1 hmem
    obtain ⟨t, htx, hrest⟩ := h.work w hmem h0
    exact ⟨t, by rw [ht, if_neg hne, htx], hrest⟩
  · intro w hmem w' hmem' h0 heq
    exact h.once w ((hw w h0).1 hmem).1 w' ((hw w' (heq ▸ h0)).1 hmem').1 h0 heq
  · intro x t hx
    exact h.apart x t (hlive x t hx).2
  · intro w hmem
    exact (hs w hmem).elim (h.shaped w) fun hw => hw

end CallInv

/-! ## Every step -/

open Device in
/-- Every step keeps the call identities. -/
theorem CallIds.step {d d' : Device} (h : CallIds d) (hs : Step d d') : CallIds d' := by
  cases hs with
  | configure | tune | refer | nodeDone | refuse | bounce | reserve | teardown | oneway | drop
  | erase => exact h.congr rfl rfl
  | openEndpoint ho =>
    obtain ⟨ht, _, _, _, hn⟩ := openEndpoint_frame ho
    exact h.congr ht hn
  | admission _ _ ha =>
    obtain ⟨ht, _, _, _, hn⟩ := admitThread_frame ha
    exact h.congr ht hn
  | setContextMgr flags pointer cookie =>
    obtain ⟨_, _, ht, hn, _⟩ := setContextMgr_frame d _ flags pointer cookie
    exact h.congr ht hn
  | requestDeath | clearDeath | doneDeath =>
    simp only [requestDeath, clearDeath, doneDeath]
    obtain ⟨_, _, ht, _, hn, _⟩ := recordSlot_frame _ _ _
    exact h.congr ht hn
  | free buffer =>
    obtain ⟨_, ht, hn, _⟩ := freePacket_frame d _ buffer
    exact h.congr ht hn
  | @reply e th target t =>
    exact h.update (f := fun t => { t with id := 0 }) (fun t h0 => absurd rfl h0) rfl rfl
  | @call e th target node input r _ _ _ _ _ h0 hslot =>
    -- the new call takes a free slot and the next number
    obtain ⟨l, hl, ht⟩ := startCall_transactions (d := d.storeReservation target.token r)
      hslot
    refine ⟨?_, ?_, succ64_lt _⟩
    · rw [record_transactions, sendCall, (acceptParcel_frame _).2.1, ht]
      exact h.unique.insertFree hl fun t htm hlive => (h.issued t htm hlive).ne h0
    · rw [record_transactions, sendCall, (acceptParcel_frame _).2.1, ht]
      intro t htm hlive
      refine Issued.succ h.bounded h0 ?_
      rcases mem_of_insertFree hl htm with rfl | htm
      · exact .inr rfl
      · exact .inl (h.issued t htm hlive)
  | @deliver e th record =>
    -- only the delivery of a transaction touches the calls
    by_cases hwork : ∃ index w, record = .work index w
    · obtain ⟨index, w, rfl⟩ := hwork
      simp only [deliver]
      rcases deliverWork_cases d e th index w with ⟨_, hd | hd⟩ | ⟨_, _, hd⟩
      · exact h.congr (by rw [hd]) (by rw [hd])
      · exact h.congr (by rw [hd]; rfl) (by rw [hd]; rfl)
      · rw [hd]
        unfold serve
        split
        · exact h.congr rfl rfl
        · exact h.update (f := fun t => { t with targetTid := th.tid }) (fun _ _ => rfl) rfl rfl
    · obtain ⟨_, _, ht, hn, _⟩ := deliver_frame d e th fun index w heq => hwork ⟨index, w, heq⟩
      exact h.congr ht hn
  | @cancel token tid t =>
    obtain ⟨_, ht, _, _, _, _, _⟩ := cancelEnds_frame d t
    obtain ⟨ht', _⟩ := dropWorks_frame ((d.cancelCaller t).cancelServer t) token tid
      fun w => w.transaction == t.id
    refine h.update (p := fun s => s.id == t.id) (f := fun t => { t with id := 0 })
      (fun t h0 => absurd rfl h0) ?_ (cancelTransaction_frame d token tid t).2.2.2.2.1
    change Slots.update _ _ (dropWorks _ _ _ _).transactions = _
    rw [ht', ht]
  | retire =>
    obtain ⟨ht, _, _, hn⟩ := retire_frame
    exact h.congr ht hn

theorem Device.Reachable.callIds {d : Device} (h : d.Reachable) : CallIds d := by
  refine h.inv (fun d hi => ?_) fun _ _ => CallIds.step
  obtain ⟨_, ht, _, _, _, _, hn, _⟩ := machine_init hi
  exact ⟨ht ▸ Unique.nil, by simp [ht], by omega⟩

/-! ## Every step keeps the calls -/

namespace CallInv

open Device

variable {d d' : Device}

/-- Parcels go only to threads that call and serve nobody, replies apart. -/
theorem ready_thread {token : Nat} {th : Thread} {w : Work}
    (h : d.workReady token th false w = true) :
    w.endpoint = token ∧ (w.tid = th.tid ∨
      (w.tid = 0 ∧ th.incoming = 0 ∧ th.outgoing = 0 ∧ th.deadReply = false)) := by
  simp only [workReady, acceptsProcessWork, Bool.and_eq_true, beq_iff_eq, Bool.or_eq_true,
    Bool.not_eq_true'] at h
  exact ⟨h.1.2, h.2.imp_right fun h => ⟨h.1, h.2.1.1.1, h.2.1.1.2, h.2.1.2⟩⟩

theorem deliver (h : CallInv d) (hi : EndpointIds d) (hq : d.work.Nodup) {e : Endpoint}
    {th : Thread} {record : Record} (he : d.endpointFor e.token = some e)
    (hth : e.threadFor th.tid = some th) (hr : d.nextRecord e.token th = some record) :
    CallInv (d.deliver e th record).2 := by
  have hth : d.threadFor e.token th.tid = some th := by rwa [threadFor_of he]
  rcases nextRecord_cases hr with ⟨word, _, rfl⟩ | ⟨_, n, c, _, rfl⟩ | ⟨_, _, rfl⟩ |
    ⟨_, _, index, w, hfor, hw, rfl⟩ | ⟨_, slot, death, _, _, rfl⟩
  · exact h.quiet' (.of_updateThread rfl (fun _ => rfl) fun _ _ => ⟨rfl, rfl, fun _ => rfl⟩) rfl
      rfl
  · exact h.quiet' (.of_eq fun _ _ => rfl) rfl rfl
  · exact h.quiet' (.of_updateThread rfl (fun _ => rfl) fun _ _ => ⟨rfl, rfl, fun _ => rfl⟩) rfl
      rfl
  · simp only [Device.deliver]
    have hmem := mem_eraseIdx hq hw
    have hwmem : w ∈ d.work := List.mem_of_getElem? hw
    rcases deliverWork_cases d e th index w with ⟨_, hd | hd⟩ | ⟨_, _, hd⟩
    · rwa [hd]
    · rw [hd]
      exact h.quiet' (.of_eq fun _ _ => threadFor_updateArena _) rfl rfl
    · rw [hd]
      by_cases h0 : w.transaction = 0
      · rw [h0, Device.serve, if_pos rfl]
        exact h.unqueue (.of_eq fun _ _ => threadFor_updateArena _) rfl h0 hmem
      · obtain ⟨w', hw', hready, _⟩ := workFor_spec hfor
        rw [hw] at hw'
        cases hw'
        obtain ⟨hwe, hwt⟩ := ready_thread hready
        have hthread : w.tid = 0 ∧ th.incoming = 0 ∧ th.outgoing = 0 ∧ th.deadReply = false := by
          refine hwt.resolve_left fun htid => ?_
          cases h.shaped w hwmem with
          | reply _ _ hw0 => exact h0 hw0
          | call _ hw0 => exact absurd (htid.symm.trans hw0) (ne_of_gt (hi.tid_pos hth))
          | oneway _ _ hw0 => exact h0 hw0
        refine h.serve hwmem h0 hwe (fun k i th hth => ne_of_gt (hi.tid_pos hth)) hth hthread.2.1
          hthread.2.2.2 (fun x => ?_) (fun k i => ?_) hmem
        · exact transactionFor_serve _ _ _ _ _
        · exact (threadFor_serve _ _ _ h0).trans (by rw [threadFor_updateArena])
  · exact h.quiet' (.of_eq fun _ _ => rfl) rfl rfl

theorem reply (h : CallInv d) (hi : EndpointIds d) {e : Endpoint} {th : Thread} {target : Endpoint}
    {t : Transaction} {input : TransactionData} {r : Reservation}
    (hr : Reserved d e th target none input r)
    (ht : d.replyTarget th = some (target, t)) :
    CallInv (((d.storeReservation target.token r).sendReply e th t input r).record
      (.consumed e.token th.tid (packetWord true))) := by
  obtain ⟨htin, _, _, caller, hcaller, hout⟩ := replyTarget_spec ht
  have hid := (transactionFor_spec htin).2.1
  have hth : d.threadFor e.token th.tid = some th := by
    rw [threadFor_of hr.sourceFound]
    exact hr.threadFound
  rw [← hid] at htin
  have hid0 := (transactionFor_spec htin).2.2
  have hpos := ne_of_gt (hi.tid_pos hcaller)
  have hview : ∀ k i, ((d.storeReservation target.token r).sendReply e th t input r).threadFor k i =
      (d.threadFor k i).map (answered e.token th.tid t k i) := fun k i => threadFor_sendReply
  refine h.ended (fun x => transactionFor_endTransaction t.id x)
    (fun k i => ⟨_, hview k i, fun x hx => ⟨?_, ?_, fun _ => rfl⟩⟩) (fun w h0 => ?_) fun w hw => ?_
  · -- only the replying thread serves the call
    change (if k = e.token ∧ i = th.tid then 0 else x.incoming) = _
    by_cases hin : x.incoming = t.id
    · have h1 := h.only_server htin hx hin
      have h2 := h.only_server htin hth hid.symm
      rw [if_pos hin, if_pos ⟨h1.1.trans h2.1.symm, h1.2.trans h2.2.symm⟩]
    · rw [if_neg hin, if_neg]
      rintro ⟨rfl, rfl⟩
      rw [hth] at hx
      cases hx
      exact hin hid.symm
  · -- only the caller's thread waits for it
    change (if k = t.source ∧ i = t.sourceTid then 0 else x.outgoing) = _
    by_cases ho : x.outgoing = t.id
    · rw [if_pos ho, if_pos (h.only_caller htin hx ho)]
    · rw [if_neg ho, if_neg]
      rintro ⟨rfl, rfl⟩
      rw [hcaller] at hx
      cases hx
      exact ho hout
  · change w ∈ d.work ++ [replyWork d.history.length e t input r] ↔ _
    rw [List.mem_append, List.mem_singleton]
    refine ⟨fun hw => ?_, fun hw => .inl hw.1⟩
    rcases hw with hw | rfl
    · refine ⟨hw, fun heq => ?_⟩
      -- a served call is not queued
      obtain ⟨t', ht', _, htid⟩ := h.work w hw h0
      rw [heq, htin] at ht'
      cases ht'
      exact absurd ((h.only_server htin hth hid.symm).2.trans htid) (ne_of_gt (hi.tid_pos hth))
    · exact absurd rfl h0
  · rcases List.mem_append.1 hw with hw | hw
    · exact .inl hw
    · rw [List.mem_singleton.1 hw]
      exact .inr (.reply rfl hpos rfl rfl)

theorem call (h : CallInv d) (hc : CallIds d) {e : Endpoint} {th : Thread} {target : Endpoint}
    {node : Node} {input : TransactionData} {r : Reservation}
    (hr : Reserved d e th target (some node) input r) (hne : target.token ≠ e.token)
    (hout : th.outgoing = 0) (h0 : d.nextTransaction ≠ 0) (hslot : d.transactionSlot = true) :
    CallInv (((d.storeReservation target.token r).sendCall e th target.token node input r).record
      (.consumed e.token th.tid (packetWord false))) := by
  have hth : d.threadFor e.token th.tid = some th := by
    rw [threadFor_of hr.sourceFound]
    exact hr.threadFound
  have hfresh := hc.fresh
  have hview : ∀ k i,
      ((d.storeReservation target.token r).sendCall e th target.token node input r).threadFor k i =
        if k = e.token ∧ i = th.tid then (d.threadFor k i).map (called d.nextTransaction)
        else d.threadFor k i := fun k i => threadFor_sendCall
  refine h.start (t := d.callOf e.token th.tid target.token)
    (w := callWork d.history.length e d.nextTransaction target.token node input r) hfresh h0 hth
    hout rfl hne.symm (fun x => ?_) hview rfl rfl rfl (.call rfl rfl h0 rfl)
  exact transactionFor_startCall (d := d.storeReservation target.token r) hslot h0 hfresh x

theorem cancel (h : CallInv d) (hc : CallIds d) (hq : d.work.Nodup)
    {token : Nat} {tid : Int} {t : Transaction} (ht : t ∈ d.transactions)
    (hm : cancelMatches token tid t = true) : CallInv (cancelTransaction token tid d t) := by
  have h0 : t.id ≠ 0 := by
    simp only [cancelMatches, Bool.and_eq_true, bne_iff_ne] at hm
    exact hm.1
  have htin := hc.transactionFor ht h0
  obtain ⟨_, hwork, htrans, hth, _, _⟩ := cancelTransaction_frame d token tid t
  obtain ⟨caller, hcaller, hout⟩ := h.caller t.id t htin
  have hcut : ∀ k i x, d.threadFor k i = some x →
      (k = t.source ∧ i = t.sourceTid ↔ x.outgoing = t.id) ∧
        (x.incoming = t.id → k = t.target ∧ i = t.targetTid) := by
    refine fun k i x hx => ⟨⟨?_, fun ho => h.only_caller htin hx ho⟩, fun hin =>
      h.only_server htin hx hin⟩
    rintro ⟨rfl, rfl⟩
    rw [hcaller] at hx
    cases hx
    exact hout
  refine h.ended htrans (fun k i => ⟨fun x =>
    if k = t.target ∧ i = t.targetTid then
      endServer t.id (if k = t.source ∧ i = t.sourceTid then endCaller t.id x else x)
    else if k = t.source ∧ i = t.sourceTid then endCaller t.id x else x, ?_, fun x hx => ?_⟩)
    (fun w _ => hwork hq w) fun w hw => .inl ((hwork hq w).1 hw).1
  · rw [hth, threadFor_cancelServer, threadFor_cancelCaller]
    cases d.threadFor k i with
    | none => simp
    | some x =>
      simp only [Option.map_some]
      split_ifs <;> rfl
  · obtain ⟨hsource, htarget⟩ := hcut k i x hx
    by_cases ho : x.outgoing = t.id
    · have h1 := hsource.2 ho
      have h2 : ¬ (k = t.target ∧ i = t.targetTid) :=
        fun h2 => h.apart t.id t htin (h1.1.symm.trans h2.1)
      have hin : x.incoming ≠ t.id := fun hin => h2 (htarget hin)
      simp only [Thread.EndsCall, if_neg h2, if_pos h1, endCaller, if_pos ho, if_neg hin]
      exact ⟨trivial, trivial, fun _ => trivial⟩
    · have h1 : ¬ (k = t.source ∧ i = t.sourceTid) := fun h1 => ho (hsource.1 h1)
      simp only [Thread.EndsCall, if_neg h1, if_neg ho]
      by_cases hin : x.incoming = t.id
      · simp only [if_pos (htarget hin), endServer, if_pos hin]
        exact ⟨trivial, trivial, fun h0 => absurd rfl h0⟩
      · simp only [endServer, if_neg hin, ite_self]
        exact ⟨trivial, trivial, fun _ => trivial⟩

/-- Once its calls are ended, a thread neither calls nor serves. -/
theorem unmatched (h : CallInv d) {token : Nat} {tid : Int}
    (hm : ∀ t ∈ d.transactions, cancelMatches token tid t = false) {th : Thread} {i : Int}
    (hti : tid = 0 ∨ i = tid) (hth : d.threadFor token i = some th) :
    th.incoming = 0 ∧ th.outgoing = 0 := by
  have hno : ∀ x t, d.transactionFor x = some t →
      ¬ ((t.source = token ∧ t.sourceTid = i) ∨ (t.target = token ∧ t.targetTid = i)) := by
    intro x t ht hor
    obtain ⟨hmem, hid, h0⟩ := transactionFor_spec ht
    have hf := hm t hmem
    simp only [cancelMatches, hid, Bool.and_eq_false_iff, bne_eq_false_iff_eq, h0, false_or,
      Bool.or_eq_false_iff, beq_eq_false_iff_ne] at hf
    rcases hor with ⟨hk, hi⟩ | ⟨hk, hi⟩
    · rcases hf.1 with hne | ⟨h1, h2⟩
      · exact hne hk
      · exact hti.elim h1 fun heq => h2 (hi.trans heq)
    · rcases hf.2 with hne | ⟨h1, h2⟩
      · exact hne hk
      · exact hti.elim h1 fun heq => h2 (hi.trans heq)
  refine ⟨?_, ?_⟩
  · by_contra h0
    obtain ⟨_, t, ht, hk⟩ := h.serving token i th hth h0
    exact hno _ t ht (.inr hk)
  · by_contra h0
    obtain ⟨t, ht, hk⟩ := h.calling token i th hth h0
    exact hno _ t ht (.inl hk)

/-- Removing idle threads is quiet. -/
theorem remove (h : CallInv d) {p : Nat → Int → Prop} [∀ k i, Decidable (p k i)]
    (hd : ∀ k i, d'.threadFor k i = if p k i then none else d.threadFor k i)
    (hidle : ∀ k i th, p k i → d.threadFor k i = some th → th.incoming = 0 ∧ th.outgoing = 0)
    (ht : d'.transactions = d.transactions) (hw : d'.work = d.work) : CallInv d' := by
  refine h.quiet' ⟨fun k i th hth hbusy => ⟨th, ?_, rfl, rfl, fun _ => rfl⟩,
    fun k i th hth _ => ⟨th, ?_, rfl, rfl, fun _ => rfl⟩⟩ ht hw
  · rw [hd, if_neg, hth]
    intro hp
    obtain ⟨h1, h2⟩ := hidle k i th hp hth
    exact hbusy.elim (fun h => h h1) fun h => h h2
  · rw [hd] at hth
    split at hth
    · cases hth
    · exact hth

theorem drop (h : CallInv d) (hq : d.work.Nodup) {token : Nat} {tid : Int} {w : Work}
    (hm : ∀ t ∈ d.transactions, cancelMatches token tid t = false) (hw : w ∈ d.work)
    (hwm : workMatches token tid w = true) : CallInv (dropWork token tid d w) := by
  have h0 : w.transaction = 0 := by
    by_contra h0
    obtain ⟨t, ht, htt, htid⟩ := h.work w hw h0
    obtain ⟨hmem, hid, hid0⟩ := transactionFor_spec ht
    have hf := hm t hmem
    simp only [workMatches, Bool.and_eq_true, beq_iff_eq, Bool.or_eq_true] at hwm
    simp only [cancelMatches, hid, Bool.and_eq_false_iff, bne_eq_false_iff_eq, hid0, false_or,
      Bool.or_eq_false_iff, beq_eq_false_iff_ne, htt, htid] at hf
    have hwtid : w.tid = 0 := by
      cases h.shaped w hw with
      | reply _ _ hw0 => exact absurd hw0 h0
      | call _ hw0 => exact hw0
      | oneway _ hw0 => exact hw0
    rcases hf.2 with hne | ⟨h1, h2⟩
    · exact hne hwm.1
    · exact hwm.2.elim h1 fun heq => h2 (hwtid.symm.trans heq)
  refine h.unqueue (.of_eq fun _ _ => threadFor_dropWork _ _ _ _ _ _) rfl h0 fun x => ?_
  rw [dropWork_work, hq.mem_erase_iff]
  exact and_comm

theorem step (h : CallInv d) (hi : EndpointIds d) (hc : CallIds d) (hq : QueueIds d)
    (hs : Step d d') : CallInv d' := by
  cases hs with
  | configure | refer | nodeDone | teardown => exact h.quiet' (.of_eq fun _ _ => rfl) rfl rfl
  | openEndpoint ho =>
    obtain ⟨ht, hw, _⟩ := openEndpoint_frame ho
    exact h.quiet' (.of_eq fun _ _ => (hi.lookups_openEndpoint ho).1) ht hw
  | tune token hf =>
    obtain ⟨g, hg, hd⟩ := threadFor_tune (d := d) (k := token) hf
    refine h.quiet' (.of_map fun k i => ?_) rfl rfl
    by_cases hk : k = token
    · exact ⟨g, by rw [hd, if_pos hk], fun th _ =>
        ⟨(hg th).incoming, (hg th).outgoing, fun _ => (hg th).deadReply⟩⟩
    · exact ⟨id, by rw [hd, if_neg hk]; simp, fun _ _ => ⟨rfl, rfl, fun _ => rfl⟩⟩
  | admission he hpos ha =>
    obtain ⟨ht, hw, _⟩ := admitThread_frame ha
    have hd := fun k i => threadFor_admitThread (k := k) (i := i) he ha
    refine h.quiet' ⟨fun k i th hth _ => ⟨th, ?_, rfl, rfl, fun _ => rfl⟩, fun k i th hth hbusy => ?_⟩
      ht hw
    · rw [hd, hth]
      simp
    · rw [hd] at hth
      split at hth
      · cases hth
        simp at hbusy
      · exact ⟨th, hth, rfl, rfl, fun _ => rfl⟩
  | setContextMgr flags pointer cookie =>
    obtain ⟨he, hw, ht, _⟩ := setContextMgr_frame d _ flags pointer cookie
    exact h.quiet' (.of_eq fun _ _ => threadFor_congr he _ _) ht hw
  | requestDeath | clearDeath | doneDeath =>
    simp only [requestDeath, clearDeath, doneDeath]
    obtain ⟨he, hw, ht, _⟩ := recordSlot_frame _ _ _
    exact h.quiet' (.of_eq fun _ _ => threadFor_congr he _ _) ht hw
  | free buffer =>
    obtain ⟨hw, ht, _, _, hth⟩ := freePacket_frame d _ buffer
    exact h.quiet' (.of_eq hth) ht hw
  | refuse =>
    exact h.quiet' (.of_updateThread rfl (fun _ => rfl) fun _ _ => ⟨rfl, rfl, fun _ => rfl⟩) rfl rfl
  | @bounce e th he hth _ hdead =>
    have hth : d.threadFor e.token th.tid = some th := by rwa [threadFor_of he]
    -- the flag that is cleared says nothing of a thread that serves
    have hq : CallInv (d.updateThread e.token th.tid fun th => { th with deadReply := false }) := by
      refine h.quiet' (.of_updateThread rfl (fun _ => rfl) fun x hx => ⟨rfl, rfl, fun h0 => ?_⟩) rfl
        rfl
      exact (h.serving _ _ x hx h0).1.symm
    exact hq.quiet' (.of_updateThread rfl (fun _ => rfl) fun _ _ => ⟨rfl, rfl, fun _ => rfl⟩) rfl rfl
  | reserve => exact h.quiet' (.of_eq fun _ _ => threadFor_storeReservation _ _ _) rfl rfl
  | reply hr _ _ ht => exact h.reply hi hr ht
  | @oneway e th target node input r hr =>
    have hn : node.id ≠ 0 := by
      have := List.find?_some (hr.nodeFound node rfl).1
      simp only [Bool.and_eq_true, bne_iff_ne] at this
      exact this.1
    have hb : SameBusy d (((d.storeReservation target.token r).sendOneway e th target.token node
        input r).record (.consumed e.token th.tid (packetWord false))) :=
      .of_map fun k i => by
        rw [threadFor_record, threadFor_sendOneway]
        split
        · exact ⟨_, rfl, fun _ _ => ⟨rfl, rfl, fun _ => rfl⟩⟩
        · exact ⟨id, by simp, fun _ _ => ⟨rfl, rfl, fun _ => rfl⟩⟩
    refine h.quiet hb (fun _ => rfl) (fun w h0 => ?_) fun w hw => ?_
    · change w ∈ d.work ++ [onewayWork d.history.length e target.token node input r] ↔ _
      rw [List.mem_append, List.mem_singleton, or_iff_left]
      rintro rfl
      exact h0 rfl
    · rcases List.mem_append.1 hw with hw | hw
      · exact .inl hw
      · rw [List.mem_singleton.1 hw]
        exact .inr (.oneway rfl rfl rfl hn)
  | call hr _ hne _ hout h0 hslot => exact h.call hc hr hne hout h0 hslot
  | deliver he hth hr => exact h.deliver hi hq.nodup he hth hr
  | cancel _ ht hm => exact h.cancel hc hq.nodup ht hm
  | drop _ hm hw hwm => exact h.drop hq.nodup hm hw hwm
  | erase _ _ hm =>
    exact h.remove (fun _ _ => threadFor_eraseThread) (fun k i th hk hth =>
      h.unmatched hm (.inr hk.2) (hk.1 ▸ hth)) rfl rfl
  | retire _ _ hm =>
    obtain ⟨ht, hw, _⟩ := retire_frame
    exact h.remove (p := fun k _ => k = _) (fun _ _ => threadFor_retire) (fun k i th hk hth =>
      h.unmatched hm (.inl rfl) (hk ▸ hth)) ht hw

/-- A new device has neither threads nor calls nor queued parcels. -/
theorem init (h : machine.init d) : CallInv d := by
  obtain ⟨he, ht, hw, _⟩ := machine_init h
  have hno : ∀ k i th, ¬ d.threadFor k i = some th := by
    intro k i th hth
    obtain ⟨e, hfor, hth⟩ := threadFor_eq_some.1 hth
    rw [he e (endpointFor_spec hfor).1] at hth
    cases hth
  have hcall : ∀ x t, ¬ d.transactionFor x = some t := by
    intro x t hx
    have := (transactionFor_spec hx).1
    rw [ht] at this
    cases this
  exact ⟨fun x t hx => absurd hx (hcall x t), fun k i th hth => absurd hth (hno k i th),
    fun x t hx => absurd hx (hcall x t), fun k i th hth => absurd hth (hno k i th),
    fun x t hx => absurd hx (hcall x t), by simp [hw], by simp [hw],
    fun x t hx => absurd hx (hcall x t), by simp [hw]⟩

end CallInv

theorem Device.Reachable.callInv {d : Device} (h : d.Reachable) : CallInv d :=
  h.inv_of (J := fun d => d.Reachable) (fun _ h => h) (fun _ => CallInv.init) fun _ _ hr hinv =>
    hinv.step hr.endpointIds hr.callIds hr.queueIds

end Artbox.Binder
