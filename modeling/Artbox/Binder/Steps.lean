import Artbox.Binder.View

/-!
# The steps of the device

A call to the device is a sequence of small steps: a write command, the reservation
of a payload, the acceptance of a parcel, one delivered record, the cancellation of
one call in a teardown. `Step` lists them, each with the conditions the source has
established when it gets there, and `machine` is the transition system they form.

Invariants are proved of `machine`, one lemma for each step. `Artbox.Binder.Runs`
shows that every run of a system on every host is a run of `machine`, so what holds
in all its reachable states holds in every state a device passes through, also in
the middle of a call.
-/

namespace Artbox.Binder

open Slots Bytes

/-! ## Conditions -/

/-- `t'` differs from `t` in looper state and in the marks of the ioctl in progress. -/
structure Thread.Tuned (t t' : Thread) : Prop where
  tid : t'.tid = t.tid
  incoming : t'.incoming = t.incoming
  outgoing : t'.outgoing = t.outgoing
  error : t'.error = t.error
  completions : t'.completions = t.completions
  deadReply : t'.deadReply = t.deadReply

/-- An update that keeps what calls and parcels depend on. -/
structure Endpoint.Tuned (f : Endpoint → Endpoint) : Prop where
  token : ∀ e, (f e).token = e.token
  uid : ∀ e, (f e).uid = e.uid
  arena : ∀ e, (f e).arena = e.arena
  threads : ∃ g : Thread → Thread, (∀ t : Thread, t.Tuned (g t)) ∧ ∀ e, (f e).threads = e.threads.map g

/-- The latest events are those of the teardown of `(token, tid)`. -/
def InTeardown (token : Nat) (tid : Int) : List Event → Prop
  | .teardown k i :: _ => k = token ∧ i = tid
  | .dropped k i _ :: h => k = token ∧ i = tid ∧ InTeardown token tid h
  | .cancelled _ _ _ _ :: h => InTeardown token tid h
  | _ => False

/-- `r` is what `reserve_payload` made of a parcel that thread `th` of `e` may send to
`target`, to the object `node` if it is a call. -/
structure Reserved (d : Device) (e : Endpoint) (th : Thread) (target : Endpoint)
    (node : Option Node) (input : TransactionData) (r : Reservation) : Prop where
  sourceFound : d.endpointFor e.token = some e
  threadFound : e.threadFor th.tid = some th
  targetFound : d.endpointFor target.token = some target
  nodeFound : ∀ n, node = some n → d.objects.nodeFor n.id = some n ∧ n.owner = target.token
  ready : th.error = none
  room : d.work.length ≠ packetLimit
  result : ∃ (ω : Type) (host : Host ω) (w w' : ω),
    reservePayload host w d.objects e th.tid target input node = (r, w')

/-- The word of a packet command. -/
def packetWord (reply : Bool) : BC := if reply then .reply else .transaction

/-! ## Steps -/

/-- The steps of the device. -/
inductive Step : Device → Device → Prop
  /-- `set_memory`. -/
  | configure {d : Device} (receiveLimit pageSize : Nat) :
    Step d { d with receiveLimit, pageSize }
  /-- `open`. -/
  | openEndpoint {d d' : Device} {vm : Nat} {pid : Int} {uid : Nat} :
    d.openEndpoint vm pid uid = some d' → Step d d'
  /-- Bookkeeping on an endpoint: `close`, `mmap`, looper commands, ioctl entry and exit. -/
  | tune {d : Device} (token : Nat) {f : Endpoint → Endpoint} :
    Endpoint.Tuned f → Step d (d.updateEndpoint token f)
  /-- A thread is seen for the first time. -/
  | admission {d d' : Device} {e : Endpoint} {tid : Int} :
    d.endpointFor e.token = some e → 0 < tid → d.admitThread e tid = some d' → Step d d'
  /-- `BINDER_SET_CONTEXT_MGR`. -/
  | setContextMgr {d : Device} {e : Endpoint} (flags pointer cookie : Nat) :
    d.endpointFor e.token = some e → pointer < 2 ^ 64 → cookie < 2 ^ 64 →
      Step d (d.setContextMgr e flags pointer cookie).2
  /-- `BC_INCREFS`, `BC_ACQUIRE`, `BC_RELEASE`, `BC_DECREFS`. -/
  | refer {d : Device} {e : Endpoint} (handle : Nat) (increment strong : Bool) :
    d.endpointFor e.token = some e → handle < 2 ^ 32 →
      Step d { d with
        objects := (d.objects.referenceCommand d.manager e.token handle increment strong).2 }
  /-- `BC_INCREFS_DONE` and `BC_ACQUIRE_DONE`. -/
  | nodeDone {d : Device} {e : Endpoint} {node : Node} {pointer cookie : Nat} (increfs : Bool) :
    d.endpointFor e.token = some e → d.objects.doneNode e.token pointer cookie = some node →
      Step d ({ d with objects := d.objects.nodeDone node increfs }.record
        (.nodeDone e.token node.id (if increfs then .increfsDone else .acquireDone)))
  /-- `BC_REQUEST_DEATH_NOTIFICATION`. -/
  | requestDeath {d : Device} {e : Endpoint} {ref : Reference} {handle : Nat} (cookie : Nat) :
    d.endpointFor e.token = some e → d.objects.referenceFor e.token handle = some ref →
      Step d (d.requestDeath ref cookie).2
  /-- `BC_CLEAR_DEATH_NOTIFICATION`. -/
  | clearDeath {d : Device} {e : Endpoint} {th : Thread} {ref : Reference} {handle : Nat}
      (cookie : Nat) :
    d.endpointFor e.token = some e → d.objects.referenceFor e.token handle = some ref →
      Step d (d.clearDeath th ref cookie)
  /-- `BC_DEAD_BINDER_DONE`. -/
  | doneDeath {d : Device} {e : Endpoint} {th : Thread} (cookie : Nat) :
    d.endpointFor e.token = some e → Step d (d.doneDeath e.token th cookie)
  /-- `BC_FREE_BUFFER`. -/
  | free {d : Device} {e : Endpoint} (buffer : Nat) :
    d.endpointFor e.token = some e → Step d (d.freePacket e buffer).2
  /-- A packet is consumed with an error return. -/
  | refuse {d : Device} {e : Endpoint} {th : Thread} (reply call : Bool) {word : BR} :
    d.endpointFor e.token = some e → e.threadFor th.tid = some th → th.error = none →
      word = .failedReply ∨ word = .deadReply → (reply = true → call = false) →
        Step d ((d.failThread e.token th.tid call word).record
          (.consumed e.token th.tid (packetWord reply)))
  /-- A reply whose caller died is consumed. -/
  | bounce {d : Device} {e : Endpoint} {th : Thread} :
    d.endpointFor e.token = some e → e.threadFor th.tid = some th → th.error = none →
      th.deadReply = true →
        Step d (((d.updateThread e.token th.tid fun th => { th with deadReply := false }).failThread
          e.token th.tid false .deadReply).record (.consumed e.token th.tid (packetWord true)))
  /-- A reservation fails and is taken back. -/
  | reserve {d : Device} {e : Endpoint} {th : Thread} {target : Endpoint} {node : Option Node}
      {input : TransactionData} {r : Reservation} :
    Reserved d e th target node input r → r.result ≠ 0 →
      Step d (d.storeReservation target.token r)
  /-- A reply is accepted. -/
  | reply {d : Device} {e : Endpoint} {th : Thread} {target : Endpoint} {t : Transaction}
      {input : TransactionData} {r : Reservation} :
    Reserved d e th target none input r → r.result = 0 → th.deadReply = false →
      d.replyTarget th = some (target, t) →
        Step d (((d.storeReservation target.token r).sendReply e th t input r).record
          (.consumed e.token th.tid (packetWord true)))
  /-- A one-way call is accepted. -/
  | oneway {d : Device} {e : Endpoint} {th : Thread} {target : Endpoint} {node : Node}
      {input : TransactionData} {r : Reservation} :
    Reserved d e th target (some node) input r → r.result = 0 → target.token ≠ e.token →
      Step d (((d.storeReservation target.token r).sendOneway e th target.token node input r).record
        (.consumed e.token th.tid (packetWord false)))
  /-- A synchronous call is accepted. -/
  | call {d : Device} {e : Endpoint} {th : Thread} {target : Endpoint} {node : Node}
      {input : TransactionData} {r : Reservation} :
    Reserved d e th target (some node) input r → r.result = 0 → target.token ≠ e.token →
      th.incoming = 0 → th.outgoing = 0 → d.nextTransaction ≠ 0 → d.transactionSlot = true →
        Step d (((d.storeReservation target.token r).sendCall e th target.token node input
          r).record (.consumed e.token th.tid (packetWord false)))
  /-- A record is written. -/
  | deliver {d : Device} {e : Endpoint} {th : Thread} {record : Record} :
    d.endpointFor e.token = some e → e.threadFor th.tid = some th →
      d.nextRecord e.token th = some record → Step d (d.deliver e th record).2
  /-- A thread exits or an endpoint is released. -/
  | teardown {d : Device} (token : Nat) (tid : Int) : Step d (d.record (.teardown token tid))
  /-- Teardown ends a call. -/
  | cancel {d : Device} {token : Nat} {tid : Int} {t : Transaction} :
    InTeardown token tid d.history → t ∈ d.transactions →
      Device.cancelMatches token tid t = true → Step d (Device.cancelTransaction token tid d t)
  /-- Teardown drops a queued parcel, its calls being ended. -/
  | drop {d : Device} {token : Nat} {tid : Int} {w : Work} :
    InTeardown token tid d.history →
      (∀ t ∈ d.transactions, Device.cancelMatches token tid t = false) →
        w ∈ d.work → Device.workMatches token tid w = true →
          Step d (Device.dropWork token tid d w)
  /-- A thread is gone. -/
  | erase {d : Device} {token : Nat} {tid : Int} :
    InTeardown token tid d.history → 0 < tid →
      (∀ t ∈ d.transactions, Device.cancelMatches token tid t = false) →
        (∀ w ∈ d.work, Device.workMatches token tid w = false) → Step d (d.eraseThread token tid)
  /-- An endpoint is gone. -/
  | retire {d : Device} {token : Nat} :
    InTeardown token 0 d.history → token ≠ 0 →
      (∀ t ∈ d.transactions, Device.cancelMatches token 0 t = false) →
        (∀ w ∈ d.work, Device.workMatches token 0 w = false) → Step d (d.retire token)

/-- The device as a transition system. -/
def machine : Machine Device where
  init d := ∃ endpoints threads, create endpoints threads = some d
  step := Step

/-- A new device is empty. -/
theorem machine_init {d : Device} (h : machine.init d) :
    (∀ e ∈ d.endpoints, e = {}) ∧ d.transactions = [] ∧ d.work = [] ∧ d.objects = {} ∧
      d.history = [] ∧ d.nextToken = 1 ∧ d.nextTransaction = 1 ∧ d.manager = 0 := by
  obtain ⟨endpoints, threads, hc⟩ := h
  unfold create at hc
  split at hc
  · cases hc
  · cases hc
    exact ⟨fun e he => List.eq_of_mem_replicate he, rfl, rfl, rfl, rfl, rfl, rfl, rfl⟩

/-- The states a device passes through. -/
abbrev Device.Reachable (d : Device) : Prop := machine.Reachable d

end Artbox.Binder
