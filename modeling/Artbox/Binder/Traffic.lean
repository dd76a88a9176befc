import Artbox.Binder.Parcels

/-!
# What a step does to the parcels

Every statement about the fate of parcels is a statement about the queue and the
history together. `Traffic` says once what a step can do to the two: nothing, queue
one accepted parcel, deliver one, or drop some in a teardown. The events a step adds
besides those about parcels are *plain*.
-/

namespace Artbox.Binder

open Slots Trace

/-! ## Events about parcels -/

namespace Event

/-- The acceptance of this item. -/
def accepts (w : Work) : Event → Bool
  | accepted p => p.work == w
  | _ => false

/-- The delivery of this item. -/
def delivers (w : Work) : Event → Bool
  | delivered _ _ _ w' => w' == w
  | _ => false

/-- The removal of this item by a teardown. -/
def drops (w : Work) : Event → Bool
  | dropped _ _ w' => w' == w
  | _ => false

section Counting

variable {w w' : Work} {p : Parcel} {k : Nat} {i : Int} {q : List Work} {c : BC}

@[simp] theorem accepts_consumed : (consumed k i c).accepts w = false := rfl
@[simp] theorem accepts_accepted : (accepted p).accepts w = (p.work == w) := rfl
@[simp] theorem accepts_delivered : (delivered k i q w').accepts w = false := rfl
@[simp] theorem accepts_dropped : (dropped k i w').accepts w = false := rfl
@[simp] theorem delivers_consumed : (consumed k i c).delivers w = false := rfl
@[simp] theorem delivers_accepted : (accepted p).delivers w = false := rfl
@[simp] theorem delivers_delivered : (delivered k i q w').delivers w = (w' == w) := rfl
@[simp] theorem delivers_dropped : (dropped k i w').delivers w = false := rfl
@[simp] theorem drops_consumed : (consumed k i c).drops w = false := rfl
@[simp] theorem drops_accepted : (accepted p).drops w = false := rfl
@[simp] theorem drops_delivered : (delivered k i q w').drops w = false := rfl
@[simp] theorem drops_dropped : (dropped k i w').drops w = (w' == w) := rfl

end Counting

/-- An event that is neither about a parcel nor the end of a call. -/
def Plain : Event → Prop
  | accepted _ | delivered _ _ _ _ | dropped _ _ _ | cancelled _ _ _ _ => False
  | _ => True

/-- A plain event accepts no parcel. -/
theorem Plain.not_accepts {e : Event} (h : e.Plain) (w : Work) : e.accepts w = false := by
  cases e <;> first | rfl | exact h.elim

/-- A plain event delivers none. -/
theorem Plain.not_delivers {e : Event} (h : e.Plain) (w : Work) : e.delivers w = false := by
  cases e <;> first | rfl | exact h.elim

/-- A plain event drops none. -/
theorem Plain.not_drops {e : Event} (h : e.Plain) (w : Work) : e.drops w = false := by
  cases e <;> first | rfl | exact h.elim

end Event

/-! ## Acceptance and removal -/

/-- The endpoints and the caller's tid of a call. -/
def Transaction.ends (t : Transaction) : Nat × Int × Nat := (t.source, t.sourceTid, t.target)

/-- The same calls are in flight between the same ends. -/
structure SameCalls (d d' : Device) : Prop where
  next : d'.nextTransaction = d.nextTransaction
  calls : ∀ x, (d'.transactionFor x).map Transaction.ends = (d.transactionFor x).map Transaction.ends

/-- One call is over. -/
structure EndsCall (d d' : Device) (id : Nat) : Prop where
  next : d'.nextTransaction = d.nextTransaction
  calls : ∀ x, d'.transactionFor x = if x = id then none else d.transactionFor x

/-- Devices with the same table of calls have the same calls. -/
theorem SameCalls.of_eq {d d' : Device} (hn : d'.nextTransaction = d.nextTransaction)
    (ht : d'.transactions = d.transactions) : SameCalls d d' :=
  ⟨hn, fun x => by rw [Device.transactionFor_congr ht]⟩

/-- No call starts, and the calls that stay have the ends they had. -/
structure KeepsCalls (d d' : Device) : Prop where
  next : d'.nextTransaction = d.nextTransaction
  calls : ∀ x t', d'.transactionFor x = some t' → ∃ t, d.transactionFor x = some t ∧
    t'.source = t.source ∧ t'.sourceTid = t.sourceTid

/-- The same calls are in particular kept. -/
theorem SameCalls.keeps {d d' : Device} (h : SameCalls d d') : KeepsCalls d d' := by
  refine ⟨h.next, fun x t' hx => ?_⟩
  have hends := h.calls x
  rw [hx] at hends
  obtain ⟨t, ht, heq⟩ := Option.map_eq_some_iff.1 hends.symm
  simp only [Transaction.ends, Prod.mk.injEq] at heq
  exact ⟨t, ht, heq.1.symm, heq.2.1.symm⟩

/-- The end of one call keeps the others. -/
theorem EndsCall.keeps {d d' : Device} {id : Nat} (h : EndsCall d d' id) : KeepsCalls d d' := by
  refine ⟨h.next, fun x t' hx => ⟨t', ?_, rfl, rfl⟩⟩
  rw [h.calls] at hx
  split at hx
  · cases hx
  · exact hx

/-- What a drop does to the calls: nothing, or it is the end of one, and its caller is
told. -/
inductive Cut (d d' : Device) : List Event → Prop
  | none : SameCalls d d' → Cut d d' []
  | call {t : Transaction} (u : Option BR) : d.transactionFor t.id = some t → EndsCall d d' t.id →
    Cut d d' [.cancelled t.source t.sourceTid t.id u]

/-- A drop starts no call. -/
theorem Cut.keeps {d d' : Device} {new : List Event} (h : Cut d d' new) : KeepsCalls d d' := by
  cases h with
  | none hs => exact hs.keeps
  | call _ _ he => exact he.keeps

/-- What a drop records are cancellations. -/
theorem Cut.cancelled {d d' : Device} {new : List Event} (h : Cut d d' new) :
    ∀ e ∈ new, ∃ k i x u, e = .cancelled k i x u := by
  cases h with
  | none => simp
  | call u =>
    intro e he
    exact ⟨_, _, _, u, List.mem_singleton.1 he⟩

/-- How a parcel comes to be sent: as the answer of the thread that serves a call, as a
one-way call, or as a synchronous call under a new id. -/
inductive Sent (d d' : Device) (p : Parcel) : Prop
  | reply {th : Thread} {t : Transaction} : d.threadFor p.source p.sourceTid = some th →
    th.incoming = t.id → d.transactionFor t.id = some t → p.answers = t.id →
      p.work.command = .reply → p.work.endpoint = t.source → p.work.tid = t.sourceTid →
        p.work.transaction = 0 → EndsCall d d' t.id → Sent d d' p
  | oneway : p.answers = 0 → p.work.command = .transaction → p.work.tid = 0 →
    p.work.transaction = 0 → SameCalls d d' → Sent d d' p
  | call {t : Transaction} : p.answers = 0 → p.work.command = .transaction → p.work.tid = 0 →
    p.work.transaction = d.nextTransaction → d.nextTransaction ≠ 0 →
      d'.nextTransaction = succ64 d.nextTransaction → t.source = p.source →
        t.sourceTid = p.sourceTid → (∀ x, d'.transactionFor x =
          if x = d.nextTransaction then some t else d.transactionFor x) → Sent d d' p

/-- Why the teardown of `(token, tid)` may drop a queued item: the item's endpoint goes,
it is a call whose caller goes, or a reply whose addressee goes. -/
inductive DropReason (d : Device) (token : Nat) (tid : Int) (w : Work) : Prop
  | target : tid = 0 → w.endpoint = token → DropReason d token tid w
  | caller {t : Transaction} : w.transaction ≠ 0 → d.transactionFor w.transaction = some t →
    t.source = token → tid = 0 ∨ t.sourceTid = tid → DropReason d token tid w
  | addressee : w.command = .reply → w.endpoint = token → w.tid = tid → DropReason d token tid w

/-- What a step does to queue and history. -/
inductive Traffic (d d' : Device) : Prop
  | quiet {l : List Event} : SameCalls d d' → d'.work = d.work →
    d'.history = l ++ d.history → (∀ e ∈ l, e.Plain) → Traffic d d'
  | accept {p : Parcel} {command : BC} : Sent d d' p → p.work.stamp = d.history.length →
    d'.work = d.work ++ [p.work] →
      d'.history = .consumed p.source p.sourceTid command :: .accepted p :: d.history → Traffic d d'
  | deliver {e : Endpoint} {th : Thread} {index : Nat} {w : Work} :
    SameCalls d d' → d.threadFor e.token th.tid = some th → th.error = none →
      d.workFor e.token th = some index → d.work[index]? = some w →
        d'.work = d.work.eraseIdx index →
          d'.history = .delivered e.token th.tid d.work w :: d.history → Traffic d d'
  | drop {token : Nat} {tid : Int} {ws : List Work} {l : List Event} :
    Cut d d' l → InTeardown token tid d.history → ws.Nodup → (∀ w ∈ ws, w ∈ d.work) →
      (∀ w ∈ ws, DropReason d token tid w) →
        (∀ w, w ∈ d'.work ↔ w ∈ d.work ∧ w ∉ ws) → d'.work.Sublist d.work →
          d'.history = (ws.map (Event.dropped token tid)).reverse ++ (l ++ d.history) → Traffic d d'

namespace Traffic

open Device

variable {d d' : Device}

/-- A delivery takes the item it hands out from the queue, and no other. -/
theorem of_deliver (hp : ParcelInv d) (hc : CallInv d) {e : Endpoint} {th : Thread}
    {record : Record} (he : d.endpointFor e.token = some e)
    (hth : e.threadFor th.tid = some th) (hr : d.nextRecord e.token th = some record) :
    Traffic d (d.deliver e th record).2 := by
  have hfind : d.threadFor e.token th.tid = some th := by rwa [threadFor_of he]
  rcases nextRecord_cases hr with ⟨word, _, rfl⟩ | ⟨_, n, c, _, rfl⟩ | ⟨_, _, rfl⟩ |
    ⟨herr, _, index, w, hfor, hw, rfl⟩ | ⟨_, slot, death, _, _, rfl⟩
  · exact .quiet (l := [_]) (.of_eq rfl rfl) rfl rfl (by simp [Event.Plain])
  · exact .quiet (l := [_]) (.of_eq rfl rfl) rfl rfl (by simp [Event.Plain])
  · exact .quiet (l := [_]) (.of_eq rfl rfl) rfl rfl (by simp [Event.Plain])
  · obtain ⟨_, _, hd⟩ := hp.delivered hc he hfor hw
    simp only [Device.deliver]
    rw [hd]
    refine .deliver ⟨by simp, fun x => ?_⟩ hfind herr hfor hw rfl (by simp)
    change (((d.updateArena e.token _).serve e.token th.tid w.transaction).transactionFor x).map _ = _
    rw [transactionFor_serve, transactionFor_updateArena]
    split
    · rw [Option.map_map]
      rfl
    · rfl
  · exact .quiet (l := [_]) (.of_eq rfl rfl) rfl rfl (by simp [Event.Plain])

/-- A cancelled call takes its parcel along and tells the caller. -/
theorem of_cancel (hi : CallIds d) (hc : CallInv d) (hq : d.work.Nodup) {token : Nat} {tid : Int}
    {t : Transaction} (ht : InTeardown token tid d.history) (hmem : t ∈ d.transactions)
    (hm : cancelMatches token tid t = true) : Traffic d (cancelTransaction token tid d t) := by
  obtain ⟨hsub, hwork, htrans, _, hn, _⟩ := cancelTransaction_frame d token tid t
  simp only [cancelMatches, Bool.and_eq_true, bne_iff_ne, Bool.or_eq_true, beq_iff_eq] at hm
  have htin := hi.transactionFor hmem hm.1
  obtain ⟨caller, hcaller, hout⟩ := hc.caller t.id t htin
  refine .drop (l := [.cancelled t.source t.sourceTid t.id caller.error])
    (.call _ htin ⟨hn, htrans⟩) ht (hq.filter _) (fun w hw => (List.mem_filter.1 hw).1)
    (fun w hw => ?_) (fun w => ?_) hsub (cancelTransaction_history hcaller hout)
  · obtain ⟨hw, heq⟩ := List.mem_filter.1 hw
    have heq : w.transaction = t.id := by simpa using heq
    rw [← heq] at htin
    obtain ⟨t', ht', htarget, htid⟩ := hc.work w hw (heq ▸ hm.1)
    rw [htin] at ht'
    cases ht'
    rcases hm.2 with ⟨hs, hst⟩ | ⟨htt, htid'⟩
    · exact .caller (heq ▸ hm.1) htin hs hst
    · exact .target (htid'.elim id fun h => h.symm.trans htid) (htarget.symm.trans htt)
  · rw [hwork hq, List.mem_filter]
    refine and_congr_right fun hw => ?_
    simp [hw]

/-- The item that the second loop of a teardown drops. -/
theorem of_drop (hc : CallInv d) (hq : d.work.Nodup) {token : Nat} {tid : Int} {w : Work}
    (ht : InTeardown token tid d.history) (hw : w ∈ d.work)
    (hm : workMatches token tid w = true) : Traffic d (dropWork token tid d w) := by
  simp only [workMatches, Bool.and_eq_true, beq_iff_eq, Bool.or_eq_true] at hm
  refine .drop (.none (.of_eq rfl rfl)) ht (List.nodup_singleton w) (by simpa using hw)
    (fun x hx => ?_) (fun x => ?_) List.erase_sublist (by simp)
  · rw [List.mem_singleton.1 hx]
    by_cases h0 : tid = 0
    · exact .target h0 hm.1
    · have htid := hm.2.resolve_left h0
      cases hc.shaped w hw with
      | reply hcmd _ => exact .addressee hcmd hm.1 htid
      | call _ hw0 => exact absurd (htid.symm.trans hw0) h0
      | oneway _ hw0 => exact absurd (htid.symm.trans hw0) h0
  · rw [dropWork_work, hq.mem_erase_iff, List.mem_singleton]
    exact and_comm

/-- Every step is of one of the four kinds. -/
theorem of_step (hci : CallIds d) (hq : QueueIds d) (hc : CallInv d)
    (hp : ParcelInv d) (hs : Step d d') : Traffic d d' := by
  cases hs with
  | configure | refer | reserve => exact .quiet (l := []) (.of_eq rfl rfl) rfl rfl (by simp)
  | openEndpoint ho =>
    obtain ⟨ht, hw, _, hh, hn⟩ := openEndpoint_frame ho
    exact .quiet (l := []) (.of_eq hn ht) hw hh (by simp)
  | tune => exact .quiet (l := []) (.of_eq rfl rfl) rfl rfl (by simp)
  | admission _ _ ha =>
    obtain ⟨ht, hw, _, hh, hn⟩ := admitThread_frame ha
    exact .quiet (l := []) (.of_eq hn ht) hw hh (by simp)
  | setContextMgr flags pointer cookie =>
    obtain ⟨_, hw, ht, hn, hh⟩ := setContextMgr_frame d _ flags pointer cookie
    exact .quiet (l := []) (.of_eq hn ht) hw hh (by simp)
  | nodeDone | teardown => exact .quiet (l := [_]) (.of_eq rfl rfl) rfl rfl (by simp [Event.Plain])
  | requestDeath | clearDeath | doneDeath =>
    simp only [requestDeath, clearDeath, doneDeath]
    obtain ⟨_, hw, ht, _, hn, new, hh, hnew⟩ := recordSlot_frame _ _ _
    refine .quiet (.of_eq hn ht) hw hh fun e he => ?_
    obtain ⟨slot, rfl⟩ := hnew e he
    trivial
  | free buffer =>
    obtain ⟨hw, ht, hn, ⟨new, hh, hnew⟩, _⟩ := freePacket_frame d _ buffer
    refine .quiet (.of_eq hn ht) hw hh fun e he => ?_
    rw [hnew e he]
    trivial
  | refuse | bounce => exact .quiet (l := [_, _]) (.of_eq rfl rfl) rfl rfl (by simp [Event.Plain])
  | @reply e th target t input r hr _ _ ht =>
    obtain ⟨htin, _, _, _⟩ := replyTarget_spec ht
    have hid := (transactionFor_spec htin).2.1
    refine .accept (p := ⟨e.token, th.tid, t.id, replyWork d.history.length e t input r, r.sent,
      r.data, r.offsets, r.nodes⟩) (.reply ?_ hid.symm ?_ rfl rfl rfl rfl rfl
        ⟨rfl, fun x => transactionFor_endTransaction t.id x⟩) rfl rfl rfl
    · rw [threadFor_of hr.sourceFound]
      exact hr.threadFound
    · rw [hid]
      exact htin
  | @oneway e th target node input r =>
    exact .accept (p := ⟨e.token, th.tid, 0, onewayWork d.history.length e target.token node input r,
      r.sent, r.data, r.offsets, r.nodes⟩) (.oneway rfl rfl rfl rfl (.of_eq rfl rfl)) rfl rfl rfl
  | @call e th target node input r _ _ _ _ _ h0 hslot =>
    refine .accept (p := ⟨e.token, th.tid, 0, callWork d.history.length e d.nextTransaction
      target.token node input r, r.sent, r.data, r.offsets, r.nodes⟩) (.call rfl rfl rfl rfl h0 rfl
        (t := d.callOf e.token th.tid target.token) rfl rfl fun x => ?_) rfl rfl rfl
    exact transactionFor_startCall (d := d.storeReservation target.token r) hslot h0 hci.fresh x
  | deliver he hth hr => exact of_deliver hp hc he hth hr
  | cancel ht hmem hm => exact of_cancel hci hc hq.nodup ht hmem hm
  | drop ht _ hw hm => exact of_drop hc hq.nodup ht hw hm
  | erase => exact .quiet (l := [_]) (.of_eq rfl rfl) rfl rfl (by simp [Event.Plain])
  | retire =>
    obtain ⟨ht, hw, hh, hn⟩ := retire_frame
    exact .quiet (l := [_]) (.of_eq hn ht) hw hh (by simp [Event.Plain])

end Traffic

end Artbox.Binder
