import Artbox.Binder.Objects

/-!
# Sending: from a write command to a queued parcel

The write half of `core/src/binder_device.cpp`: payload reservation, packet
transfer, buffer frees, and the teardown that takes queued parcels back.

Everything the device learns from outside (guest memory, the watch on a receive
mapping, whether the host has memory for a snapshot) comes through a `Host`: one
function for each call the source makes, over a world `ω` of any kind. The world
is threaded through, so two reads of one address may differ, as they do when guest
threads run meanwhile. No theorem assumes anything about a host.
-/

namespace Artbox.Binder

open Bytes Slots

/-- The device's environment. -/
structure Host (ω : Type) where
  /-- `artbox_vm_read`, nothing standing for any failure. -/
  read : ω → (vm address size : Nat) → Option { bs : List UInt8 // bs.length = size } × ω
  /-- Whether `artbox_vm_write` succeeds. -/
  write : ω → (vm address : Nat) → List UInt8 → Bool × ω
  /-- `artbox_vm_mapping_watch_state` of a watch that is not null. -/
  watchState : ω → (watch : Nat) → Nat × ω
  /-- Whether the host has memory for snapshots of this size. -/
  allocate : ω → (size : Nat) → Bool × ω
  /-- `artbox_vm_destroy` of a receive owner. -/
  destroy : ω → (vm : Nat) → Int × ω
  /-- `artbox_vm_page_size`. -/
  vmPageSize : ω → (vm : Nat) → Nat
  /-- The chain of `artbox_binder_device_mmap` from `artbox_vm_create` to
  `artbox_vm_map_file_watched`: owner, watch, writable alias and guest address of a
  receive mapping, or the error of the step that failed. -/
  mapReceive : ω → (vm address size prot : Nat) → Except Int (Nat × Nat × Nat × Nat) × ω

/-- `artbox_vm_mapping_watch_state`. -/
def Host.watchBits {ω : Type} (host : Host ω) (w : ω) (watch : Nat) : Nat × ω :=
  if watch = 0 then (0, w) else host.watchState w watch

/-- `ARTBOX_VM_MAPPING_LIVE`. -/
def mappingLive (bits : Nat) : Bool := bits % 2 == 1

/-- `LIVE` and `INTACT` together. -/
def mappingIntact (bits : Nat) : Bool := bits % 4 == 3

/-! ## Lookups and pointers -/

/-- `thread_for`. -/
def Endpoint.threadFor (e : Endpoint) (tid : Int) : Option Thread :=
  e.threads.find? fun t => t.tid == tid

namespace Device

/-- `endpoint_for`. -/
def endpointFor (d : Device) (token : Nat) : Option Endpoint :=
  d.endpoints.find? fun e => e.token == token && token != 0

/-- `transaction_for`. -/
def transactionFor (d : Device) (id : Nat) : Option Transaction :=
  d.transactions.find? fun t => id != 0 && t.id == id

/-- `thread_for(endpoint_for(device, token), tid)`. -/
def threadFor (d : Device) (token : Nat) (tid : Int) : Option Thread :=
  (d.endpointFor token).bind fun e => e.threadFor tid

/-- Write through an `Endpoint *`; live tokens are unique. -/
def updateEndpoint (d : Device) (token : Nat) (f : Endpoint → Endpoint) : Device :=
  { d with endpoints := update (fun e => e.token == token) f d.endpoints }

/-- Write through a `Thread *`; an endpoint's tids are unique. -/
def updateThread (d : Device) (token : Nat) (tid : Int) (f : Thread → Thread) : Device :=
  d.updateEndpoint token fun e => { e with threads := update (fun t => t.tid == tid) f e.threads }

/-- Change the arena of an endpoint that has one. -/
def updateArena (d : Device) (token : Nat) (f : Arena → Arena) : Device :=
  d.updateEndpoint token fun e => { e with arena := e.arena.map f }

/-! ## Teardown -/

/-- `drop_work`, in the teardown of `(token, tid)`. -/
def dropWork (token : Nat) (tid : Int) (d : Device) (work : Work) : Device :=
  let d := d.updateArena work.endpoint fun a => (a.cancel work.value.dataBuffer).2
  { d with
    objects := d.objects.releaseClaims work.endpoint work.value.dataBuffer
    work := d.work.erase work }.record (.dropped token tid work)

/-- A loop that drops the queued items satisfying `p`. -/
def dropWorks (d : Device) (token : Nat) (tid : Int) (p : Work → Bool) : Device :=
  (d.work.filter p).foldl (dropWork token tid) d

/-- Whether the teardown of `(token, tid)` ends the call `t`. -/
def cancelMatches (token : Nat) (tid : Int) (t : Transaction) : Bool :=
  t.id != 0 && ((t.source == token && (tid == 0 || t.sourceTid == tid)) ||
    (t.target == token && (tid == 0 || t.targetTid == tid)))

/-- The caller's end of a cancelled call: a dead reply in its error slot. -/
def cancelCaller (d : Device) (t : Transaction) : Device :=
  match d.threadFor t.source t.sourceTid with
  | none => d
  | some source =>
    if source.outgoing = t.id then
      (d.updateThread t.source t.sourceTid fun th =>
        { th with outgoing := 0, error := some .deadReply }).record
        (.cancelled t.source t.sourceTid t.id source.error)
    else d

/-- The server's end of a cancelled call. -/
def cancelServer (d : Device) (t : Transaction) : Device :=
  match d.threadFor t.target t.targetTid with
  | none => d
  | some target =>
    if target.incoming = t.id then
      d.updateThread t.target t.targetTid fun th => { th with incoming := 0, deadReply := true }
    else d

/-- `t.id = 0` for the call with this id. -/
def endTransaction (d : Device) (id : Nat) : Device :=
  { d with
    transactions := update (fun t => t.id == id) (fun t => { t with id := 0 }) d.transactions }

/-- The body of the transaction loop of `cancel_transactions`. -/
def cancelTransaction (token : Nat) (tid : Int) (d : Device) (t : Transaction) : Device :=
  ((cancelServer (cancelCaller d t) t).dropWorks token tid
    fun w => w.transaction == t.id).endTransaction t.id

/-- Whether the second loop of `cancel_transactions` drops a parcel. -/
def workMatches (token : Nat) (tid : Int) (w : Work) : Bool :=
  w.endpoint == token && (tid == 0 || w.tid == tid)

/-- `cancel_transactions`; `tid = 0` means every thread of the endpoint. -/
def cancelTransactions (d : Device) (token : Nat) (tid : Int := 0) : Device :=
  let d := (d.transactions.filter (cancelMatches token tid)).foldl (cancelTransaction token tid) d
  d.dropWorks token tid (workMatches token tid)

end Device

/-! ## Payload reservation -/

/-- The result of `reserve_payload`: the tables and the target's arena afterwards and,
when `result` is zero, the buffer and what was put into it. -/
structure Reservation where
  result : Int
  objects : Objects
  arena : Option Arena
  buffer : Buffer := ⟨0, 0, 0, 0, 0, 0, 0⟩
  sent : List UInt8 := []
  data : List UInt8 := []
  offsets : List UInt8 := []
  nodes : List Node := []

/-- The size checks at the head of `reserve_payload`. -/
def checkSizes (bits : Nat) (target : Endpoint) (input : TransactionData) : Int :=
  if !mappingIntact bits then -95
  else if target.receiveSize < input.dataSize ∨ target.receiveSize < input.offsetsSize then -12
  else if input.offsetsSize % 8 ≠ 0 then -22
  else if objectLimit < input.offsetsSize / 8 then -7
  else 0

/-- The target's arena, created over its fresh storage on first use. -/
def receiveArena (target : Endpoint) : Option Arena :=
  match target.arena with
  | some arena => some arena
  | none => Arena.create target.receiveWritable target.receiveBase target.receiveSize packetLimit
      fun _ => 0

/-- The snapshot of the parcel's data and offset table. -/
def readPayload {ω : Type} (host : Host ω) (w : ω) (source : Endpoint) (input : TransactionData) :
    Except Int (List UInt8 × List UInt8) × ω :=
  match host.allocate w (input.dataSize + input.offsetsSize) with
  | (false, w) => (.error (-12), w)
  | (true, w) =>
    match host.read w source.vm input.dataBuffer input.dataSize with
    | (none, w) => (.error (-14), w)
    | (some data, w) =>
      match host.read w source.vm input.offsetsBuffer input.offsetsSize with
      | (none, w) => (.error (-14), w)
      | (some offsets, w) => (.ok (data.1, offsets.1), w)

/-- Object table and object types. -/
def checkObjects (data offsets : List UInt8) : Int :=
  match validateObjects data offsets with
  | .error _ => -22
  | .ok _ =>
    if (offsetTable offsets).all fun offset =>
        read32 data offset == ObjectType.binder.word ||
          read32 data offset == ObjectType.handle.word then 0
    else -95

/-- The hold a call's buffer takes on the node it is addressed to. -/
def claimTarget (o : Objects) (target buffer : Nat) (node : Option Node) : Int × Objects :=
  match node with
  | none => (0, o)
  | some node =>
    if node.manager then (0, o)
    else
      match o.addClaim target buffer node false with
      | (none, o) => (-12, o)
      | (some _, o) => (0, o)

/-- `reserve_payload` from the arena reservation on: claim, translate, store, and take
everything back if one of them fails. -/
def storePayload (o : Objects) (source : Endpoint) (tid : Int) (target : Endpoint) (arena : Arena)
    (input : TransactionData) (targetNode : Option Node) (data offsets : List UInt8) :
    Reservation :=
  match arena.reserve input.dataSize input.offsetsSize 0 false with
  | .error r => { result := r, objects := o, arena := some arena }
  | .ok (buffer, arena) =>
    let held := claimTarget o target.token buffer.address targetNode
    let t := if held.1 = 0 then
        Objects.translate source.token tid target.token buffer.address (offsetTable offsets) held.2 data
      else ⟨held.1, held.2, data, []⟩
    let first := if t.result = 0 then arena.write buffer.address 0 t.data else (t.result, arena)
    let second := if first.1 = 0 then
        first.2.write buffer.address (buffer.offsetsAddress - buffer.address) offsets
      else first
    if second.1 ≠ 0 then
      { result := second.1, objects := t.objects.releaseClaims target.token buffer.address
        arena := some (second.2.cancel buffer.address).2 }
    else
      { result := 0, objects := t.objects, arena := some second.2, buffer, sent := data
        data := t.data, offsets, nodes := t.nodes }

/-- `reserve_payload`. -/
def reservePayload {ω : Type} (host : Host ω) (w : ω) (o : Objects) (source : Endpoint) (tid : Int)
    (target : Endpoint) (input : TransactionData) (targetNode : Option Node) : Reservation × ω :=
  let bits := host.watchBits w target.receiveWatch
  if checkSizes bits.1 target input ≠ 0 then
    ({ result := checkSizes bits.1 target input, objects := o, arena := target.arena }, bits.2)
  else
    match receiveArena target with
    | none => ({ result := -12, objects := o, arena := none }, bits.2)
    | some arena =>
      match readPayload host bits.2 source input with
      | (.error r, w) => ({ result := r, objects := o, arena := some arena }, w)
      | (.ok (data, offsets), w) =>
        if checkObjects data offsets ≠ 0 then
          ({ result := checkObjects data offsets, objects := o, arena := some arena }, w)
        else (storePayload o source tid target arena input targetNode data offsets, w)

/-! ## Packet transfer -/

/-- What the target selection of `transfer_packet` decides for a call. -/
inductive CallTarget
  /-- The packet is not consumed. -/
  | refuse (result : Int)
  /-- The packet is consumed with this error return. -/
  | fail (word : BR)
  | send (target : Endpoint) (node : Node)

/-- Whether the transaction pool has a free slot. -/
def Device.transactionSlot (d : Device) : Bool :=
  decide (d.transactions.length < packetLimit) || d.transactions.any fun t => t.id == 0

/-- Target selection for `BC_TRANSACTION`. -/
def Device.callTarget (d : Device) (source : Endpoint) (thread : Thread) (input : TransactionData)
    (oneway : Bool) : CallTarget :=
  if !oneway ∧ (thread.incoming ≠ 0 ∨ thread.outgoing ≠ 0) then .refuse (-95)
  else
    let handle := input.target % 2 ^ 32
    let node :=
      if handle = 0 then d.objects.nodeFor d.objects.managerNode
      else ((d.objects.referenceFor source.token handle).filter fun ref =>
        ref.strong != 0 || ref.temporaryStrong != 0).bind fun ref => d.objects.nodeFor ref.node
    match node with
    | none => .fail (if handle = 0 then .deadReply else .failedReply)
    | some node =>
      match if node.dead then none else d.endpointFor node.owner with
      | none => .fail .deadReply
      | some target =>
        if target.token = source.token ∨ (handle = 0 ∧ target.pid = source.pid) then
          .fail .failedReply
        else if oneway then .send target node
        else if d.nextTransaction = 0 ∨ d.transactionSlot = false then .refuse (-12)
        else .send target node

/-- Target selection for `BC_REPLY` by a thread without a dead reply: the endpoint
called from and the call to answer. -/
def Device.replyTarget (d : Device) (thread : Thread) : Option (Endpoint × Transaction) :=
  match d.transactionFor thread.incoming with
  | none => none
  | some t =>
    if thread.outgoing ≠ 0 then none
    else
      match d.endpointFor t.source with
      | none => none
      | some target =>
        match target.threadFor t.sourceTid with
        | none => none
        | some caller => if caller.outgoing = t.id then some (target, t) else none

/-- The record a receiver will see, from the sender's. -/
def deliveredValue (input : TransactionData) (source : Endpoint) (r : Reservation)
    (target cookie senderPid : Nat) : TransactionData :=
  { input with
    target, cookie, senderPid, senderEuid := source.uid
    dataBuffer := r.buffer.address, offsetsBuffer := r.buffer.offsetsAddress }

/-- The parcel of a reply. -/
def replyWork (stamp : Nat) (source : Endpoint) (t : Transaction) (input : TransactionData)
    (r : Reservation) : Work :=
  { endpoint := t.source, tid := t.sourceTid, command := .reply, transaction := 0, asyncNode := 0
    value := deliveredValue input source r 0 0 0, stamp }

/-- The parcel of a one-way call. -/
def onewayWork (stamp : Nat) (source : Endpoint) (target : Nat) (node : Node)
    (input : TransactionData) (r : Reservation) : Work :=
  { endpoint := target, tid := 0, command := .transaction, transaction := 0, asyncNode := node.id
    value := deliveredValue input source r node.pointer node.cookie 0, stamp }

/-- The parcel of a synchronous call. -/
def callWork (stamp : Nat) (source : Endpoint) (id target : Nat) (node : Node)
    (input : TransactionData) (r : Reservation) : Work :=
  { endpoint := target, tid := 0, command := .transaction, transaction := id, asyncNode := 0
    value := deliveredValue input source r node.pointer node.cookie source.pid.toNat, stamp }

namespace Device

/-- Keep what a reservation did to the tables and to the target's arena. -/
def storeReservation (d : Device) (target : Nat) (r : Reservation) : Device :=
  { (d.updateEndpoint target fun e => { e with arena := r.arena }) with objects := r.objects }

/-- Queue an accepted parcel and count its completion. -/
def acceptParcel (d : Device) (source : Endpoint) (tid : Int) (answers : Nat) (work : Work)
    (r : Reservation) : Device :=
  { (d.updateThread source.token tid fun th =>
      { th with completions := th.completions + 1 }) with
    work := d.work ++ [work] }.record
    (.accepted ⟨source.token, tid, answers, work, r.sent, r.data, r.offsets, r.nodes⟩)

/-- The call a thread answers is over: `thread.incoming`, `caller->outgoing` and
`transaction->id` become zero. -/
def finishCall (d : Device) (token : Nat) (tid : Int) (t : Transaction) : Device :=
  ((d.updateThread token tid fun th => { th with incoming := 0 }).updateThread t.source t.sourceTid
    fun th => { th with outgoing := 0 }).endTransaction t.id

/-- The end of `transfer_packet` for a reply. -/
def sendReply (d : Device) (source : Endpoint) (thread : Thread) (t : Transaction)
    (input : TransactionData) (r : Reservation) : Device :=
  (d.finishCall source.token thread.tid t).acceptParcel source thread.tid t.id
    (replyWork d.history.length source t input r) r

/-- The end of `transfer_packet` for a one-way call. -/
def sendOneway (d : Device) (source : Endpoint) (thread : Thread) (target : Nat) (node : Node)
    (input : TransactionData) (r : Reservation) : Device :=
  let nodes := update (fun n => n.id == node.id && n.asyncBuffer == 0)
    (fun n => { n with asyncBuffer := r.buffer.address }) d.objects.nodes
  let d := { d with objects := { d.objects with nodes } }
  d.acceptParcel source thread.tid 0
    (onewayWork d.history.length source target node input r) r

/-- The transaction of an accepted call. -/
abbrev callOf (d : Device) (token : Nat) (tid : Int) (target : Nat) : Transaction :=
  { id := d.nextTransaction, source := token, target, sourceTid := tid }

/-- A transaction slot is taken and the caller's thread waits for it. -/
def startCall (d : Device) (token : Nat) (tid : Int) (target : Nat) : Device :=
  { (d.updateThread token tid fun th => { th with outgoing := d.nextTransaction }) with
    nextTransaction := succ64 d.nextTransaction
    transactions := (insertFree packetLimit (fun s : Transaction => s.id == 0)
      (d.callOf token tid target) d.transactions).getD d.transactions }

/-- The end of `transfer_packet` for a synchronous call. -/
def sendCall (d : Device) (source : Endpoint) (thread : Thread) (target : Nat) (node : Node)
    (input : TransactionData) (r : Reservation) : Device :=
  (d.startCall source.token thread.tid target).acceptParcel source thread.tid 0
    (callWork d.history.length source d.nextTransaction target node input r) r

/-- Set the sender's error slot; `call` tells whether a synchronous call failed. -/
def failThread (d : Device) (token : Nat) (tid : Int) (call : Bool) (word : BR) : Device :=
  (d.updateThread token tid fun th => { th with error := some word }).record
    (.refused token tid call word)

/-- What a failed reservation leaves: malformed parcels are consumed with an error
return, admission limits are not consumed. -/
def refusePayload (d : Device) (source : Endpoint) (thread : Thread) (call : Bool) (result : Int) :
    Int × Device :=
  if result = -22 ∨ result = -14 then (0, d.failThread source.token thread.tid call .failedReply)
  else (result, d)

end Device

/-- `transfer_packet` for `BC_TRANSACTION`, behind the common checks. -/
def transferCall {ω : Type} (host : Host ω) (w : ω) (d : Device) (source : Endpoint)
    (thread : Thread) (input : TransactionData) : Int × Device × ω :=
  let oneway := input.flags % 2 == 1
  match d.callTarget source thread input oneway with
  | .refuse r => (r, d, w)
  | .fail word => (0, d.failThread source.token thread.tid (!oneway) word, w)
  | .send target node =>
    let r := reservePayload host w d.objects source thread.tid target input (some node)
    let d := d.storeReservation target.token r.1
    if r.1.result ≠ 0 then
      let refused := d.refusePayload source thread (!oneway) r.1.result
      (refused.1, refused.2, r.2)
    else if oneway then (0, d.sendOneway source thread target.token node input r.1, r.2)
    else (0, d.sendCall source thread target.token node input r.1, r.2)

/-- `transfer_packet` for `BC_REPLY`, behind the common checks. -/
def transferReply {ω : Type} (host : Host ω) (w : ω) (d : Device) (source : Endpoint)
    (thread : Thread) (input : TransactionData) : Int × Device × ω :=
  if thread.deadReply then
    (0, (d.updateThread source.token thread.tid fun th =>
      { th with deadReply := false }).failThread source.token thread.tid false .deadReply, w)
  else
    match d.replyTarget thread with
    | none => (-95, d, w)
    | some (target, t) =>
      let r := reservePayload host w d.objects source thread.tid target input none
      let d := d.storeReservation target.token r.1
      if r.1.result ≠ 0 then
        let refused := d.refusePayload source thread false r.1.result
        (refused.1, refused.2, r.2)
      else (0, d.sendReply source thread t input r.1, r.2)

/-- The flags a packet may carry: `TF_ACCEPT_FDS`, and `TF_ONE_WAY` on a call. -/
def flagsAllowed (reply : Bool) (flags : Nat) : Bool :=
  flags == 0 || flags == 0x10 || (!reply && (flags == 1 || flags == 0x11))

/-- `transfer_packet`; `reply` tells `BC_REPLY` from `BC_TRANSACTION`. -/
def transferPacket {ω : Type} (host : Host ω) (w : ω) (d : Device) (source : Endpoint)
    (thread : Thread) (address : Nat) (reply : Bool) : Int × Device × ω :=
  if d.receiveLimit = 0 then (-95, d, w)
  else
    match host.read w source.vm address 68 with
    | (none, w) => (-14, d, w)
    | (some bytes, w) =>
      match decodeTransaction
          ⟨if reply then BC.reply.word else BC.transaction.word, bytes.1.drop 4⟩ with
      | .error _ => (-22, d, w)
      | .ok input =>
        if !flagsAllowed reply input.flags then (-95, d, w)
        else if thread.error.isSome ∨ thread.completions = packetLimit ∨
            d.work.length = packetLimit then (-12, d, w)
        else if reply then transferReply host w d source thread input
        else transferCall host w d source thread input

/-! ## Freeing -/

/-- The queue behind a freed one-way buffer: the node's first undispatched call
becomes process work. -/
def advanceAsync (work : List Work) (endpoint buffer : Nat) : List Node → List Node
  | [] => []
  | n :: rest =>
    if n.owner ≠ endpoint ∨ n.asyncBuffer ≠ buffer then n :: advanceAsync work endpoint buffer rest
    else
      { n with asyncBuffer :=
          ((work.find? fun w => w.asyncNode == n.id).map fun w => w.value.dataBuffer).getD 0 } ::
        rest

/-- `free_packet` behind its guest read. -/
def Device.freePacket (d : Device) (endpoint : Endpoint) (buffer : Nat) : Int × Device :=
  match endpoint.arena with
  | none => (-95, d)
  | some arena =>
    if (arena.release buffer).1 ≠ 0 then (-95, d)
    else
      let d := d.updateArena endpoint.token fun a => (a.release buffer).2
      let o := { d.objects with
        nodes := advanceAsync d.work endpoint.token buffer d.objects.nodes }
      (0, { d with objects := o.releaseClaims endpoint.token buffer }.record
        (.freed endpoint.token buffer))

end Artbox.Binder
