import Artbox.Binder.Delivery

/-!
# Threads, calls, queue and arenas agree

The call invariant (`CallInv`) and the parcel invariant (`ParcelInv`) read together:
every live call has one caller and is either queued, with its data reserved, or served
by one thread; and a read never finds them in disagreement.
-/

namespace Artbox.Binder

/-- Where a live call is on its server's side. -/
inductive ServerSide (d : Device) (t : Transaction) : Prop
  /-- It is queued once, its data is reserved, and nobody serves it. -/
  | queued {w : Work} {data offsets : List UInt8} : t.targetTid = 0 →
    d.work.filter (fun w => w.transaction == t.id) = [w] → w.endpoint = t.target → w.tid = 0 →
      w.command = .transaction →
        d.Stores t.target w.value.dataBuffer w.value.offsetsBuffer data offsets →
          (∀ e ∈ d.endpoints, ∀ th ∈ e.threads, th.incoming ≠ t.id) → ServerSide d t
  /-- It is not queued, and one thread serves it. -/
  | served {th : Thread} : d.work.filter (fun w => w.transaction == t.id) = [] →
    d.threadFor t.target t.targetTid = some th → th.incoming = t.id →
      (∀ e ∈ d.endpoints, ∀ th ∈ e.threads, th.incoming = t.id →
        e.token = t.target ∧ th.tid = t.targetTid) → ServerSide d t

/-- The one thread that waits for a call. -/
def CallerSide (d : Device) (t : Transaction) : Prop :=
  (∃ th, d.threadFor t.source t.sourceTid = some th ∧ th.outgoing = t.id) ∧
    ∀ e ∈ d.endpoints, ∀ th ∈ e.threads, th.outgoing = t.id →
      e.token = t.source ∧ th.tid = t.sourceTid

section Sides

variable {d : Device}

theorem callerSide (h : d.Reachable) {t : Transaction} (ht : d.transactionFor t.id = some t) :
    CallerSide d t :=
  ⟨h.callInv.caller t.id t ht, fun _ he _ hth hout =>
    h.callInv.only_caller ht (h.endpointIds.threadFor he hth) hout⟩

theorem serverSide (h : d.Reachable) {t : Transaction} (ht : d.transactionFor t.id = some t) :
    ServerSide d t := by
  have hc := h.callInv
  have hserver : ∀ e ∈ d.endpoints, ∀ th ∈ e.threads, th.incoming = t.id →
      e.token = t.target ∧ th.tid = t.targetTid := fun e he th hth hin =>
    hc.only_server ht (h.endpointIds.threadFor he hth) hin
  by_cases h0 : t.targetTid = 0
  · obtain ⟨w, hw, hwt⟩ := hc.queued t.id t ht h0
    have hid := (Device.transactionFor_spec ht).2.2
    obtain ⟨t', ht', htarget, _⟩ := hc.work w hw (hwt ▸ hid)
    rw [hwt, ht] at ht'
    cases ht'
    obtain ⟨p, _, _, hst⟩ := h.parcelInv.stored w hw
    have hone : d.work.filter (fun w => w.transaction == t.id) = [w] := by
      have hall : ∀ x ∈ d.work.filter (fun w => w.transaction == t.id), x = w := by
        intro x hx
        obtain ⟨hx, hxt⟩ := List.mem_filter.1 hx
        have hxt : x.transaction = t.id := by simpa using hxt
        exact hc.once x hx w hw (hxt ▸ hid) (hxt.trans hwt.symm)
      have hnd := h.queueIds.nodup.filter fun w => w.transaction == t.id
      have hmem : w ∈ d.work.filter (fun w => w.transaction == t.id) :=
        List.mem_filter.2 ⟨hw, by simpa using hwt⟩
      have hrep := List.eq_replicate_of_mem hall
      have hlen := List.nodup_replicate.1 (hrep ▸ hnd)
      have hpos := List.length_pos_of_mem hmem
      rw [hrep, show (d.work.filter fun w => w.transaction == t.id).length = 1 by omega]
      rfl
    have hcall : w.tid = 0 ∧ w.command = .transaction := by
      cases hc.shaped w hw with
      | reply _ _ hw0 => exact absurd (hwt.symm.trans hw0) hid
      | call hcmd htid => exact ⟨htid, hcmd⟩
      | oneway _ _ hw0 => exact absurd (hwt.symm.trans hw0) hid
    refine .queued h0 hone htarget.symm hcall.1 hcall.2 (htarget ▸ hst) fun e he th hth hin => ?_
    have htid := (hserver e he th hth hin).2
    exact absurd (htid.trans h0) (ne_of_gt (h.endpointIds.positive e he th hth))
  · obtain ⟨th, hth, hin⟩ := hc.server t.id t ht h0
    refine .served (List.filter_eq_nil_iff.2 fun w hw hwt => ?_) hth hin hserver
    have hwt : w.transaction = t.id := by simpa using hwt
    obtain ⟨t', ht', _, htid⟩ := hc.work w hw (hwt ▸ (Device.transactionFor_spec ht).2.2)
    rw [hwt, ht] at ht'
    cases ht'
    exact h0 htid

end Sides

/-- In every reachable state each live call has its one caller and its one place on the
server's side, every thread that calls or serves names a live call, and no read fails
behind a record it has written. -/
theorem calls_agree {d : Device} (h : d.Reachable) :
    (∀ t ∈ d.transactions, t.id ≠ 0 → CallerSide d t ∧ ServerSide d t) ∧
      (∀ e ∈ d.endpoints, ∀ th ∈ e.threads,
        (th.incoming ≠ 0 → ∃ t ∈ d.transactions, t.id = th.incoming) ∧
          (th.outgoing ≠ 0 → ∃ t ∈ d.transactions, t.id = th.outgoing)) ∧
      ∀ (ω : Type) (host : Host ω) (w : ω) (e : Endpoint) (th : Thread) (header : Header),
        (readWork host w d e th header).result ≠ -5 := by
  refine ⟨fun t ht h0 => ?_, fun e he th hth => ⟨fun h0 => ?_, fun h0 => ?_⟩, fun ω host w e th header => ?_⟩
  · have hfor := h.callIds.transactionFor ht h0
    exact ⟨callerSide h hfor, serverSide h hfor⟩
  · obtain ⟨_, t, ht, _⟩ := h.callInv.serving _ _ th (h.endpointIds.threadFor he hth) h0
    exact ⟨t, (Device.transactionFor_spec ht).1, (Device.transactionFor_spec ht).2.1⟩
  · obtain ⟨t, ht, _⟩ := h.callInv.calling _ _ th (h.endpointIds.threadFor he hth) h0
    exact ⟨t, (Device.transactionFor_spec ht).1, (Device.transactionFor_spec ht).2.1⟩
  · exact (readWork_kept closed_reachable _ _ h e th header).2

/-- The client's call while it is queued and while it is served. -/
theorem call_agrees : (∀ t ∈ (replay callScript (callCalls.take 1)).transactions, t.id ≠ 0 →
    ServerSide (replay callScript (callCalls.take 1)) t) ∧
      ∀ t ∈ (replay callScript callCalls).transactions, t.id ≠ 0 →
        ServerSide (replay callScript callCalls) t :=
  ⟨fun t ht h0 => ((calls_agree (replay_reachable callScript (callCalls.take 1))).1 t ht h0).2,
    fun t ht h0 => ((calls_agree (replay_reachable callScript callCalls)).1 t ht h0).2⟩

end Artbox.Binder
