import Artbox.Binder.Runs

/-!
# Exactly-once delivery

What the ledger, the fates and the order of the parcels say together, and what their
buffers hold meanwhile.
-/

namespace Artbox.Binder

open Trace

/-- What a parcel's buffer holds while the parcel is queued. -/
theorem queued_stores {d : Device} (h : d.Reachable) {p : Parcel} (hp : .accepted p ∈ d.history)
    (hw : p.work ∈ d.work) : d.Stores p.work.endpoint p.work.value.dataBuffer
      p.work.value.offsetsBuffer p.data p.offsets := by
  obtain ⟨p', hp', heq, hst⟩ := h.parcelInv.stored p.work hw
  rw [h.ledger.parcel_unique hp hp' heq.symm]
  exact heq ▸ hst

/-- An accepted parcel is in one place: queued, delivered in one record, or dropped. -/
theorem accepted_once {d : Device} (h : d.Reachable) {p : Parcel} (hp : .accepted p ∈ d.history) :
    d.work.count p.work + d.history.countP (·.delivers p.work) +
      d.history.countP (·.drops p.work) = 1 := by
  have hpos : 0 < d.history.countP (·.accepts p.work) :=
    List.countP_pos_iff.2 ⟨_, hp, by simp⟩
  have hle := h.ledger.accepted_once p.work
  have hbal := h.ledger.balance p.work
  omega

/-- Every parcel accepted in a run is queued, delivered or dropped, exactly once; while
it is queued its buffer is reserved and holds what was written at acceptance; deliveries
go to a thread of its target, drops have a cause, and synchronous calls to one endpoint
are delivered in the order of their acceptance. -/
theorem exactly_once_delivery {d : Device} (h : d.Reachable) :
    (∀ p, .accepted p ∈ d.history →
      d.work.count p.work + d.history.countP (·.delivers p.work) +
        d.history.countP (·.drops p.work) = 1 ∧
      (p.work ∈ d.work → d.Stores p.work.endpoint p.work.value.dataBuffer
        p.work.value.offsetsBuffer p.data p.offsets)) ∧
      Always DeliveredRight d.history ∧ Always DroppedRight d.history ∧
      Always (fun e older => ∀ p, e = .accepted p → p.work.stamp = older.length) d.history ∧
      Always CallsInOrder d.history :=
  ⟨fun _ hp => ⟨accepted_once h hp, queued_stores h hp⟩, h.fates.delivered, h.fates.dropped,
    h.ledger.stamped, h.inOrder.delivered⟩

/-- The thread `1` of endpoint `1` after a list of calls. -/
def managerThread (script : Script) (calls : List Call) : Option (Endpoint × Thread) :=
  ((replay script calls).endpointFor 1).bind fun e => (e.threadFor 1).map fun th => (e, th)

theorem managerThread_found {script : Script} {calls : List Call} {e : Endpoint} {th : Thread}
    (h : managerThread script calls = some (e, th)) : Found (replay script calls) e th := by
  obtain ⟨e', he, hmap⟩ := Option.bind_eq_some_iff.1 h
  obtain ⟨th', hth, heq⟩ := Option.map_eq_some_iff.1 hmap
  obtain ⟨rfl, rfl⟩ := Prod.mk.inj heq
  exact .of_threadFor he (by rw [Device.threadFor_of he, hth])

/-- The client's thread `2` calls the manager with data; the manager's looper thread `1`
reads the call. -/
def callScript : Script :=
  [(2, 256, Header.bytes ⟨68, 0, 512, 0, 0, 0⟩), (2, 512, packetBytes .transaction 0 0 8 0 1024 0),
    (2, 1024, Bytes.writeLE 8 77),
    (1, 256, Header.bytes ⟨4, 0, 512, 256, 0, 8192⟩), (1, 512, Bytes.writeLE 4 BC.enterLooper.word)]

def callCalls : List Call := [.writeRead 2 2 256, .writeRead 1 1 256]

/-- The call is off the queue, delivered where it was sent. -/
theorem call_delivered_once : (replay callScript callCalls).work = [] ∧
    Always DeliveredRight (replay callScript callCalls).history ∧
      Always CallsInOrder (replay callScript callCalls).history :=
  have h := exactly_once_delivery (replay_reachable callScript callCalls)
  ⟨List.isEmpty_iff.1 (by decide +kernel), h.2.1, h.2.2.2.2⟩

end Artbox.Binder
