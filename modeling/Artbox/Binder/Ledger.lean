import Artbox.Binder.Traffic

/-!
# The fate of a parcel

Acceptances, deliveries, drops and queued items balance (`Ledger`): an accepted parcel
is queued, was delivered once, or was dropped once. Every drop belongs to a teardown
that had a reason for it, every delivery goes to the parcel's endpoint (`Fates`), and
synchronous calls leave an endpoint's queue in the order they entered (`InOrder`).
-/

namespace Artbox.Binder

open Slots Trace

/-! ## The balance -/

/-- Stamps date the acceptances, and every accepted parcel is accounted for. -/
structure Ledger (d : Device) : Prop where
  stamped : Always (fun e older => ∀ p, e = .accepted p → p.work.stamp = older.length) d.history
  balance : ∀ w, d.history.countP (·.accepts w) =
    d.work.count w + d.history.countP (·.delivers w) + d.history.countP (·.drops w)

namespace Ledger

variable {d d' : Device}

/-- An item is accepted at most once. -/
theorem accepted_once (h : Ledger d) (w : Work) : d.history.countP (·.accepts w) ≤ 1 := by
  refine (h.stamped.mono fun e older hp he => ?_).countP_le_one (n := w.stamp)
  cases e with
  | accepted p =>
    have hw : p.work = w := by simpa [Event.accepts] using he
    rw [← hw, hp p rfl]
  | _ => cases he

/-- The stamp of the item that an accepted parcel becomes. -/
def stampOf : Event → Option Nat
  | .accepted p => some p.work.stamp
  | _ => none

/-- An item is one parcel's. -/
theorem parcel_unique (h : Ledger d) {p p' : Parcel} (hp : .accepted p ∈ d.history)
    (hp' : .accepted p' ∈ d.history) (hw : p.work = p'.work) : p = p' := by
  have hstamp : Always (fun e older => ∀ n, stampOf e = some n → n = older.length) d.history := by
    refine h.stamped.mono fun e older hp n hn => ?_
    cases e with
    | accepted p => exact (Option.some.inj hn).symm.trans (hp p rfl)
    | _ => cases hn
  have hsame : stampOf (.accepted p') = some p.work.stamp := by
    rw [hw]
    rfl
  exact Event.accepted.inj (hstamp.eq_of_length hp hp' rfl hsame)

/-- Plain events count for nothing. -/
theorem countP_plain {new : List Event} {q : Event → Bool} (hq : ∀ e : Event, e.Plain → q e = false)
    (hn : ∀ e ∈ new, e.Plain) : new.countP q = 0 :=
  List.countP_eq_zero.2 fun e he => by simp [hq e (hn e he)]

/-- The ledger agrees behind every step. -/
theorem step (h : Ledger d) (hq : QueueIds d) (ht : Traffic d d') : Ledger d' := by
  -- plain events are no acceptances, so stamps need no care
  have hplain : ∀ e : Event, e.Plain → ∀ older : List Event, ∀ p, e = .accepted p →
      p.work.stamp = older.length := fun e he _ p heq => by rw [heq] at he; exact he.elim
  cases ht with
  | @quiet new _ hw hh hn =>
    refine ⟨hh ▸ h.stamped.append fun e he => hplain e (hn e he), fun w => ?_⟩
    rw [hh, hw, List.countP_append, List.countP_append, List.countP_append,
      countP_plain (fun e he => he.not_accepts w) hn, countP_plain (fun e he => he.not_delivers w) hn,
      countP_plain (fun e he => he.not_drops w) hn]
    simpa using h.balance w
  | @accept p command _ hst hw hh =>
    refine ⟨?_, fun w => ?_⟩
    · rw [hh]
      refine ⟨fun p heq => (by cases heq), fun q heq => ?_, h.stamped⟩
      cases heq
      exact hst
    · have := h.balance w
      rw [hh, hw, List.count_append, List.count_singleton]
      simp only [List.countP_cons, Event.accepts_consumed, Event.accepts_accepted,
        Event.delivers_consumed, Event.delivers_accepted, Event.drops_consumed,
        Event.drops_accepted, Bool.false_eq_true, if_false, Nat.add_zero]
      by_cases heq : p.work = w <;> simp only [heq, beq_self_eq_true, beq_iff_eq, if_true, if_false] <;>
        omega
  | @deliver e th index w' _ _ _ _ hw' hw hh =>
    refine ⟨hh ▸ ⟨fun p heq => (by cases heq), h.stamped⟩, fun w => ?_⟩
    have hbal := h.balance w
    obtain ⟨hlt, hget⟩ := List.getElem?_eq_some_iff.1 hw'
    have hmem : w' ∈ d.work := List.mem_of_getElem? hw'
    rw [hh, hw, ← hq.nodup.erase_getElem index hlt, hget, List.count_erase]
    simp only [List.countP_cons, Event.accepts_delivered, Event.delivers_delivered,
      Event.drops_delivered, Bool.false_eq_true, if_false, Nat.add_zero]
    by_cases heq : w' = w
    · have : 0 < d.work.count w := List.count_pos_iff.2 (heq ▸ hmem)
      simp only [heq, beq_self_eq_true, if_true]
      omega
    · simp only [beq_iff_eq, heq, if_false]
      omega
  | @drop token tid l new hcut _ hl hsub _ hmem hsubl hh =>
    have hdrops : ∀ e ∈ (l.map (Event.dropped token tid)).reverse, ∃ w ∈ l,
        e = .dropped token tid w := by
      intro e he
      obtain ⟨w, hw, rfl⟩ := List.mem_map.1 (List.mem_reverse.1 he)
      exact ⟨w, hw, rfl⟩
    refine ⟨?_, fun w => ?_⟩
    · rw [hh]
      refine (h.stamped.append fun e he older p heq => ?_).append fun e he older p heq => ?_
      · obtain ⟨_, _, _, _, rfl⟩ := hcut.cancelled e he
        cases heq
      · obtain ⟨_, _, rfl⟩ := hdrops e he
        cases heq
    · have hbal := h.balance w
      -- the events of the drop count for nothing else
      have hzero : ∀ q : Event → Bool, (∀ x, q (.dropped token tid x) = false) →
          (l.map (Event.dropped token tid)).reverse.countP q = 0 := by
        intro q hq
        refine List.countP_eq_zero.2 fun e he => ?_
        obtain ⟨x, _, rfl⟩ := hdrops e he
        simp [hq x]
      have hcancel : ∀ q : Event → Bool, (∀ k i x u, q (.cancelled k i x u) = false) →
          new.countP q = 0 := by
        intro q hq
        refine List.countP_eq_zero.2 fun e he => ?_
        obtain ⟨k, i, x, u, rfl⟩ := hcut.cancelled e he
        simp [hq k i x u]
      have hcount : (l.map (Event.dropped token tid)).reverse.countP (·.drops w) = l.count w := by
        rw [List.countP_reverse, List.countP_map]
        rfl
      rw [hh, List.countP_append, List.countP_append, List.countP_append, List.countP_append,
        List.countP_append, List.countP_append, hzero _ fun _ => rfl, hzero _ fun _ => rfl, hcount,
        hcancel _ fun _ _ _ _ => rfl, hcancel _ fun _ _ _ _ => rfl, hcancel _ fun _ _ _ _ => rfl]
      -- each item is queued at most once, so counting is membership
      have hold := hq.nodup.count (a := w)
      have hnow := (hq.nodup.sublist hsubl).count (a := w)
      have hthis := hl.count (a := w)
      have hiff := hmem w
      have hin := hsub w
      rw [hold] at hbal
      rw [hnow, hthis]
      by_cases h1 : w ∈ d.work <;> by_cases h2 : w ∈ l <;> simp_all
      omega

end Ledger

/-- Every step of a reachable device is traffic. -/
theorem Device.Reachable.traffic {d d' : Device} (h : d.Reachable) (hs : Step d d') :
    Traffic d d' :=
  .of_step h.callIds h.queueIds h.callInv h.parcelInv hs

/-- The invariant rule for what queue and history say. -/
theorem Device.Reachable.inv_traffic {I : Device → Prop}
    (h0 : ∀ d : Device, d.work = [] → d.history = [] → (∀ x, d.transactionFor x = none) → I d)
    (hstep : ∀ d d' : Device, d.Reachable → I d → Traffic d d' → I d') {d : Device}
    (h : d.Reachable) : I d := by
  refine h.inv_of (J := fun d => d.Reachable) (fun _ h => h) (fun d hi => ?_) fun d d' hr hinv hs =>
    hstep d d' hr hinv (hr.traffic hs)
  obtain ⟨_, ht, hw, _, hh, _⟩ := machine_init hi
  refine h0 d hw hh fun x => ?_
  rw [Device.transactionFor, ht]
  rfl

/-- The ledger of every reachable device agrees. -/
theorem Device.Reachable.ledger {d : Device} (h : d.Reachable) : Ledger d :=
  h.inv_traffic (fun d hw hh _ => ⟨by simp [hh], by simp [hw, hh]⟩) fun _ _ hr hinv ht =>
    hinv.step hr.queueIds ht

/-! ## Who sent a call -/

/-- A live call was sent by the thread that waits for it, and a call's id by nobody else. -/
structure Callers (d : Device) : Prop where
  sent : ∀ x t, d.transactionFor x = some t → ∃ p, .accepted p ∈ d.history ∧
    p.work.transaction = x ∧ p.source = t.source ∧ p.sourceTid = t.sourceTid
  issued : ∀ p, .accepted p ∈ d.history → p.work.transaction ≠ 0 →
    Issued d.nextTransaction p.work.transaction
  once : ∀ p p', .accepted p ∈ d.history → .accepted p' ∈ d.history → p.work.transaction ≠ 0 →
    p.work.transaction = p'.work.transaction → p = p'

/-- Either no parcel is accepted and no call starts, or one parcel is accepted. -/
theorem Traffic.accepted_cases {d d' : Device} (ht : Traffic d d') :
    (KeepsCalls d d' ∧ ∀ p, .accepted p ∈ d'.history ↔ .accepted p ∈ d.history) ∨
      ∃ p, Sent d d' p ∧ ∀ p', .accepted p' ∈ d'.history ↔ p' = p ∨ .accepted p' ∈ d.history := by
  cases ht with
  | quiet hk _ hh hn =>
    refine .inl ⟨hk.keeps, fun p => ?_⟩
    rw [hh, List.mem_append]
    exact or_iff_right fun hp => hn _ hp
  | accept hs _ _ hh =>
    refine .inr ⟨_, hs, fun p' => ?_⟩
    rw [hh]
    simp
  | deliver hk _ _ _ _ _ hh => exact .inl ⟨hk.keeps, fun p => by rw [hh]; simp⟩
  | drop hcut _ _ _ _ _ _ hh =>
    refine .inl ⟨hcut.keeps, fun p => ?_⟩
    rw [hh, List.mem_append, List.mem_append]
    refine ⟨fun hp => ?_, fun hp => .inr (.inr hp)⟩
    rcases hp with hp | hp | hp
    · simp at hp
    · obtain ⟨k, i, x, u, he⟩ := hcut.cancelled _ hp
      cases he
    · exact hp

namespace Callers

variable {d d' : Device}

/-- A step that sends no call. -/
theorem keep (h : Callers d) (hk : KeepsCalls d d')
    (ha : ∀ p, .accepted p ∈ d'.history → .accepted p ∈ d.history ∨ p.work.transaction = 0)
    (hold : ∀ p, .accepted p ∈ d.history → .accepted p ∈ d'.history) : Callers d' := by
  have hcall : ∀ p, .accepted p ∈ d'.history → p.work.transaction ≠ 0 → .accepted p ∈ d.history :=
    fun p hp h0 => (ha p hp).resolve_right h0
  refine ⟨fun x t' hx => ?_, fun p hp h0 => ?_, fun p p' hp hp' h0 heq => ?_⟩
  · obtain ⟨t, ht, hs, hst⟩ := hk.calls x t' hx
    obtain ⟨p, hp, hpx, hps, hpt⟩ := h.sent x t ht
    exact ⟨p, hold p hp, hpx, hps.trans hs.symm, hpt.trans hst.symm⟩
  · rw [hk.next]
    exact h.issued p (hcall p hp h0) h0
  · exact h.once p p' (hcall p hp h0) (hcall p' hp' (heq ▸ h0)) h0 heq

theorem step (h : Callers d) (hb : d.nextTransaction < 2 ^ 64) (ht : Traffic d d') : Callers d' := by
  rcases ht.accepted_cases with ⟨hk, ha⟩ | ⟨p, hs, ha⟩
  · exact h.keep hk (fun q hq => .inl ((ha q).1 hq)) fun q hq => (ha q).2 hq
  · have hold : ∀ q, .accepted q ∈ d.history → .accepted q ∈ d'.history :=
      fun q hq => (ha q).2 (.inr hq)
    have hzero : p.work.transaction = 0 → ∀ q, .accepted q ∈ d'.history →
        .accepted q ∈ d.history ∨ q.work.transaction = 0 := fun h0 q hq =>
      ((ha q).1 hq).elim (fun heq => .inr (heq ▸ h0)) .inl
    cases hs with
    | reply _ _ _ _ _ _ _ h0 hk => exact h.keep hk.keeps (hzero h0) hold
    | oneway _ _ _ h0 hk => exact h.keep hk.keeps (hzero h0) hold
    | @call t _ _ _ hx h0 hn hts htt htrans =>
      have hne : ∀ q, .accepted q ∈ d.history → q.work.transaction ≠ d.nextTransaction := by
        intro q hq heq
        exact (h.issued q hq (heq ▸ h0)).ne h0 heq
      refine ⟨fun x t' hx' => ?_, fun q hq hq0 => ?_, fun q q' hq hq' hq0 heq => ?_⟩
      · rw [htrans] at hx'
        split at hx'
        next hxn =>
          cases hx'
          exact ⟨p, (ha p).2 (.inl rfl), hx.trans hxn.symm, hts.symm, htt.symm⟩
        next =>
          obtain ⟨q, hq, hrest⟩ := h.sent x t' hx'
          exact ⟨q, hold q hq, hrest⟩
      · rw [hn]
        refine Issued.succ hb h0 ?_
        rcases (ha q).1 hq with rfl | hq
        · exact .inr hx
        · exact .inl (h.issued q hq hq0)
      · rcases (ha q).1 hq with rfl | hq <;> rcases (ha q').1 hq' with rfl | hq'
        · rfl
        · exact absurd (heq.symm.trans hx) (hne q' hq')
        · exact absurd (heq.trans hx) (hne q hq)
        · exact h.once q q' hq hq' hq0 heq

end Callers

/-- In every reachable device a live call was sent by the thread that waits for it. -/
theorem Device.Reachable.callers {d : Device} (h : d.Reachable) : Callers d := by
  refine h.inv_traffic (fun d _ hh ht => ?_) fun _ _ hr hinv ht => hinv.step hr.callIds.bounded ht
  exact ⟨fun x t hx => by simp [ht x] at hx, by simp [hh], by simp [hh]⟩

/-! ## Deliveries and drops -/

/-- What entitles the teardown of `(token, tid)` to drop a parcel: its target goes, it is
a synchronous call whose caller goes, or a reply whose addressee goes. -/
inductive Parcel.Cause (p : Parcel) (token : Nat) (tid : Int) : Prop
  | target : tid = 0 → p.work.endpoint = token → Cause p token tid
  | caller : p.work.transaction ≠ 0 → p.source = token → tid = 0 ∨ p.sourceTid = tid →
    Cause p token tid
  | addressee : p.work.command = .reply → p.work.endpoint = token → p.work.tid = tid →
    Cause p token tid

/-- A delivery brings an accepted parcel to a thread of its endpoint. -/
def DeliveredRight (e : Event) (older : List Event) : Prop :=
  ∀ k i q w, e = .delivered k i q w →
    ∃ p, .accepted p ∈ older ∧ p.work = w ∧ w.endpoint = k ∧ (w.tid = 0 ∨ w.tid = i)

/-- A drop belongs to a teardown that has a cause for it. -/
def DroppedRight (e : Event) (older : List Event) : Prop :=
  ∀ k i w, e = .dropped k i w →
    InTeardown k i older ∧ ∃ p, .accepted p ∈ older ∧ p.work = w ∧ p.Cause k i

/-- All deliveries and drops so far were right. -/
structure Fates (d : Device) : Prop where
  delivered : Always DeliveredRight d.history
  dropped : Always DroppedRight d.history

/-- A teardown goes on while it drops items. -/
theorem inTeardown_drops {token : Nat} {tid : Int} {h : List Event} (ht : InTeardown token tid h)
    (l : List Work) : InTeardown token tid (l.map (Event.dropped token tid) ++ h) := by
  induction l with
  | nil => exact ht
  | cons w ws ih => exact ⟨rfl, rfl, ih⟩

/-- A teardown goes on while it cancels calls. -/
theorem inTeardown_cancels {token : Nat} {tid : Int} {h new : List Event}
    (ht : InTeardown token tid h) (hn : ∀ e ∈ new, ∃ k i x u, e = .cancelled k i x u) :
    InTeardown token tid (new ++ h) := by
  induction new with
  | nil => exact ht
  | cons e es ih =>
    obtain ⟨k, i, x, u, rfl⟩ := hn _ List.mem_cons_self
    exact ih fun e he => hn e (List.mem_cons_of_mem _ he)

/-- The drops of one teardown are right if its causes are. -/
theorem always_drops {token : Nat} {tid : Int} {h : List Event} (ha : Always DroppedRight h)
    (ht : InTeardown token tid h) {l : List Work}
    (hl : ∀ w ∈ l, ∃ p, .accepted p ∈ h ∧ p.work = w ∧ p.Cause token tid) :
    Always DroppedRight (l.map (Event.dropped token tid) ++ h) := by
  induction l with
  | nil => exact ha
  | cons w ws ih =>
    refine ⟨fun k i w' heq => ?_, ih fun w' hw' => hl w' (List.mem_cons_of_mem _ hw')⟩
    cases heq
    obtain ⟨p, hp, hrest⟩ := hl w List.mem_cons_self
    exact ⟨inTeardown_drops ht ws, p, List.mem_append_right _ hp, hrest⟩

/-- What a step delivers and drops, it does by right. -/
theorem Fates.step {d d' : Device} (h : Fates d) (hp : ParcelInv d) (hc : Callers d)
    (ht : Traffic d d') : Fates d' := by
  have hplain : ∀ e : Event, e.Plain → ∀ older, DeliveredRight e older ∧ DroppedRight e older :=
    fun e he older => ⟨fun k i q w heq => by rw [heq] at he; exact he.elim,
      fun k i w heq => by rw [heq] at he; exact he.elim⟩
  cases ht with
  | quiet _ _ hh hn =>
    exact ⟨hh ▸ h.delivered.append fun e he older => (hplain e (hn e he) older).1,
      hh ▸ h.dropped.append fun e he older => (hplain e (hn e he) older).2⟩
  | accept _ _ _ hh =>
    exact ⟨hh ▸ ⟨fun _ _ _ _ heq => (by cases heq), fun _ _ _ _ heq => (by cases heq), h.delivered⟩,
      hh ▸ ⟨fun _ _ _ heq => (by cases heq), fun _ _ _ heq => (by cases heq), h.dropped⟩⟩
  | @deliver e th index w _ _ _ hfor hw _ hh =>
    obtain ⟨w', hw', hready, _⟩ := Device.workFor_spec hfor
    rw [hw] at hw'
    cases hw'
    obtain ⟨p, hacc, hpw, _⟩ := hp.stored w (List.mem_of_getElem? hw)
    obtain ⟨hwe, hwt⟩ := CallInv.ready_thread hready
    refine ⟨hh ▸ ⟨fun k i q x heq => ?_, h.delivered⟩, hh ▸ ⟨fun _ _ _ heq => (by cases heq), h.dropped⟩⟩
    cases heq
    exact ⟨p, hacc, hpw, hwe, hwt.elim .inr fun h => .inl h.1⟩
  | @drop token tid l new hcut ht _ hsub hcause _ _ hh =>
    have hcauses : ∀ w ∈ l, ∃ p, .accepted p ∈ new ++ d.history ∧ p.work = w ∧ p.Cause token tid := by
      intro w hw
      obtain ⟨p, hacc, hpw, _⟩ := hp.stored w (hsub w hw)
      refine ⟨p, List.mem_append_right _ hacc, hpw, ?_⟩
      cases hcause w hw with
      | target h0 hwe => exact .target h0 (hpw ▸ hwe)
      | caller h0 hx hs hst =>
        obtain ⟨p', hacc', hx', hs', hst'⟩ := hc.sent _ _ hx
        rw [← hpw] at h0 hx'
        cases hc.once p p' hacc hacc' h0 hx'.symm
        exact .caller h0 (hs'.trans hs) (hst.imp_right hst'.trans)
      | addressee hcmd hwe hwt => exact .addressee (hpw ▸ hcmd) (hpw ▸ hwe) (hpw ▸ hwt)
    have hcancel : ∀ e ∈ new, ∀ older, DeliveredRight e older ∧ DroppedRight e older := by
      intro e he older
      obtain ⟨k, i, x, u, rfl⟩ := hcut.cancelled e he
      exact ⟨fun _ _ _ _ heq => (by cases heq), fun _ _ _ heq => (by cases heq)⟩
    rw [← List.map_reverse] at hh
    refine ⟨hh ▸ ?_, hh ▸ ?_⟩
    · refine (h.delivered.append fun e he older => (hcancel e he older).1).append
        fun e he _ _ _ _ _ heq => ?_
      obtain ⟨w, _, rfl⟩ := List.mem_map.1 he
      cases heq
    · refine always_drops (h.dropped.append fun e he older => (hcancel e he older).2)
        (inTeardown_cancels ht hcut.cancelled) fun w hw => hcauses w (List.mem_reverse.1 hw)

/-- In every reachable device items were delivered and dropped by right. -/
theorem Device.Reachable.fates {d : Device} (h : d.Reachable) : Fates d :=
  h.inv_traffic (fun d _ hh _ => ⟨by simp [hh], by simp [hh]⟩) fun _ _ hr hinv ht =>
    hinv.step hr.parcelInv hr.callers ht

/-! ## The order of synchronous calls -/

/-- The delivery of a synchronous call comes after the deliveries of all calls of its
endpoint that were accepted before it, and of no other. -/
def CallsInOrder (e : Event) (older : List Event) : Prop :=
  ∀ k i q w, e = .delivered k i q w → w.transaction ≠ 0 →
    ∀ k' i' q' w', .delivered k' i' q' w' ∈ older → w'.transaction ≠ 0 →
      w'.endpoint = w.endpoint → w'.stamp < w.stamp

/-- Delivered calls were accepted before the ones still queued. -/
structure InOrder (d : Device) : Prop where
  delivered : Always CallsInOrder d.history
  queued : ∀ k i q w, .delivered k i q w ∈ d.history → w.transaction ≠ 0 → ∀ w' ∈ d.work,
    w'.transaction ≠ 0 → w'.endpoint = w.endpoint → w.stamp < w'.stamp
  past : ∀ k i q w, .delivered k i q w ∈ d.history → w.stamp < d.history.length

namespace InOrder

variable {d d' : Device}

/-- A thread that may take one call of an endpoint may take all of them, so the scan
stops at the oldest. -/
theorem oldest (hc : CallInv d) (hq : QueueIds d) {token : Nat} {th : Thread} {index : Nat} {w w' : Work}
    (hfor : d.workFor token th = some index) (hw : d.work[index]? = some w)
    (h0 : w.transaction ≠ 0) (hw' : w' ∈ d.work) (h0' : w'.transaction ≠ 0)
    (he : w'.endpoint = w.endpoint) : w' = w ∨ w.stamp < w'.stamp := by
  obtain ⟨w0, hw0, hready, hfirst⟩ := Device.workFor_spec hfor
  rw [hw] at hw0
  cases hw0
  have hshape : ∀ x ∈ d.work, x.transaction ≠ 0 → x.tid = 0 ∧ x.asyncNode = 0 := by
    intro x hx hx0
    cases hc.shaped x hx with
    | reply _ _ h => exact absurd h hx0
    | call _ htid _ hnode => exact ⟨htid, hnode⟩
    | oneway _ _ h => exact absurd h hx0
  obtain ⟨htid, hnode⟩ := hshape w (List.mem_of_getElem? hw) h0
  obtain ⟨htid', hnode'⟩ := hshape w' hw' h0'
  have hready' : d.workReady token th false w' = true := by
    simp only [Device.workReady, Device.asyncReady, htid, hnode, htid', hnode', he] at hready ⊢
    exact hready
  obtain ⟨j, hj⟩ := List.mem_iff_getElem?.1 hw'
  have hle : index ≤ j := by
    by_contra hlt
    rw [hfirst j (by omega) w' hj] at hready'
    cases hready'
  rcases Nat.lt_or_eq_of_le hle with hlt | rfl
  · obtain ⟨h1, rfl⟩ := List.getElem?_eq_some_iff.1 hw
    obtain ⟨h2, rfl⟩ := List.getElem?_eq_some_iff.1 hj
    exact .inr (List.pairwise_iff_getElem.1 hq.sorted index j h1 h2 hlt)
  · rw [hw] at hj
    exact .inl (Option.some.inj hj).symm

theorem step (h : InOrder d) (hq : QueueIds d) (hc : CallInv d)
    (ht : Traffic d d') : InOrder d' := by
  have hplain : ∀ e : Event, e.Plain → ∀ k i q w, e ≠ .delivered k i q w :=
    fun e he k i q w heq => by rw [heq] at he; exact he.elim
  -- steps that deliver nothing and queue no older call
  have hquiet : ∀ new : List Event, d'.history = new ++ d.history →
      (∀ e ∈ new, ∀ k i q w, e ≠ .delivered k i q w) →
      (∀ w ∈ d'.work, w ∈ d.work ∨ w.stamp = d.history.length) → InOrder d' := by
    intro new hh hn hw
    have hback : ∀ k i q w, .delivered k i q w ∈ d'.history → .delivered k i q w ∈ d.history := by
      intro k i q w hmem
      rw [hh] at hmem
      exact (List.mem_append.1 hmem).resolve_left fun he => hn _ he k i q w rfl
    refine ⟨?_, fun k i q w hmem h0 w' hw' h0' he => ?_, fun k i q w hmem => ?_⟩
    · rw [hh]
      exact h.delivered.append fun e he older k i q w heq => absurd heq (hn e he k i q w)
    · rcases hw w' hw' with hw' | hst
      · exact h.queued k i q w (hback k i q w hmem) h0 w' hw' h0' he
      · rw [hst]
        exact h.past k i q w (hback k i q w hmem)
    · rw [hh, List.length_append]
      have := h.past k i q w (hback k i q w hmem)
      omega
  cases ht with
  | quiet _ hw hh hn => exact hquiet _ hh (fun e he => hplain e (hn e he)) fun w hmem => .inl (hw ▸ hmem)
  | @accept p command _ hst hw hh =>
    refine hquiet [_, _] hh (by simp) fun w hmem => ?_
    rw [hw] at hmem
    exact (List.mem_append.1 hmem).imp_right fun h => by rw [List.mem_singleton.1 h, hst]
  | @deliver e th index w _ hth _ hfor hw hwork hh =>
    have hmem := Device.mem_eraseIdx hq.nodup hw
    have hold := fun w' => @oldest _ hc hq _ _ _ _ w' hfor hw
    refine ⟨hh ▸ ⟨fun k i q x heq h0 k' i' q' w' hmem' h0' he => ?_, h.delivered⟩,
      fun k i q x hmem' h0 w' hw' h0' he => ?_, fun k i q x hmem' => ?_⟩
    · cases heq
      exact h.queued k' i' q' w' hmem' h0' w (List.mem_of_getElem? hw) h0 he.symm
    · rw [hwork] at hw'
      obtain ⟨hw', hne⟩ := (hmem w').1 hw'
      rw [hh] at hmem'
      rcases List.mem_cons.1 hmem' with heq | hmem'
      · cases heq
        exact (hold w' h0 hw' h0' he).resolve_left hne
      · exact h.queued k i q x hmem' h0 w' hw' h0' he
    · rw [hh, List.length_cons]
      rw [hh] at hmem'
      rcases List.mem_cons.1 hmem' with heq | hmem'
      · cases heq
        have := hq.past w (List.mem_of_getElem? hw)
        omega
      · have := h.past k i q x hmem'
        omega
  | drop hcut _ _ _ _ hmem _ hh =>
    rw [← List.append_assoc] at hh
    refine hquiet _ hh (fun e he k i q w heq => ?_) fun w hw => .inl ((hmem w).1 hw).1
    rcases List.mem_append.1 he with he | he
    · rw [heq] at he
      simp at he
    · obtain ⟨_, _, _, _, rfl⟩ := hcut.cancelled e he
      cases heq

end InOrder

/-- In every reachable device the calls are in order. -/
theorem Device.Reachable.inOrder {d : Device} (h : d.Reachable) : InOrder d :=
  h.inv_traffic (fun d hw hh _ => ⟨by simp [hh], by simp [hh], by simp [hh]⟩) fun _ _ hr hinv ht =>
    hinv.step hr.queueIds hr.callInv ht

end Artbox.Binder
