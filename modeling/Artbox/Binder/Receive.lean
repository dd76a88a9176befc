import Artbox.Binder.Transfer

/-!
# Receiving: from the pending state of a thread to return records

The read half of `core/src/binder_device.cpp`. A read fills the guest's buffer with
records, one at a time; `nextRecord` chooses the record (errors first, then node
commands, completions, parcels and death notifications), `deliver` is what writing
it does to the device, and `readLoop` is the loop of `read_work` around the two.
-/

namespace Artbox.Binder

open Bytes Slots

/-- `accepts_process_work`. -/
def acceptsProcessWork (thread : Thread) (polling : Bool := false) : Bool :=
  thread.incoming == 0 && thread.outgoing == 0 && !thread.deadReply &&
    (polling || (thread.looper.entered && !(thread.looper.invalid || thread.looper.exited)))

/-- `node_command`: what the node's owner has to be told next. -/
def Objects.nodeCommand (o : Objects) (node : Node) : Option BR :=
  if o.weakUse node && !node.hasWeak then some .increfs
  else if o.strongUse node && !node.hasStrong then some .acquire
  else if !o.strongUse node && node.hasStrong then some .release
  else if !o.weakUse node && node.hasWeak then some .decrefs
  else none

namespace Device

/-- `node_event_for`, with the command it found. -/
def nodeEventFor (d : Device) (token : Nat) (thread : Thread) (polling : Bool := false) :
    Option (Node × BR) :=
  d.objects.nodes.findSome? fun n =>
    if n.id != 0 && n.owner == token && !n.dead && !n.manager &&
        (n.notificationTid == thread.tid ||
          (n.notificationTid == 0 && acceptsProcessWork thread polling)) then
      (d.objects.nodeCommand n).map fun c => (n, c)
    else none

/-- `death_for`. -/
def deathFor (d : Device) (token : Nat) (thread : Thread) (polling : Bool := false) :
    Option Nat :=
  d.objects.deaths.findIdx? fun death =>
    death.endpoint == token &&
      (death.state == .deathQueued || death.state == .clearQueued) &&
      (death.tid == thread.tid || (death.tid == 0 && acceptsProcessWork thread polling))

/-- Whether a one-way parcel is its node's active one; other parcels always pass. -/
def asyncReady (d : Device) (work : Work) : Bool :=
  work.asyncNode == 0 ||
    match d.objects.nodeFor work.asyncNode with
    | none => false
    | some node => node.asyncBuffer == work.value.dataBuffer

/-- Whether the scan of `work_for` stops at this parcel. -/
def workReady (d : Device) (token : Nat) (thread : Thread) (polling : Bool) (work : Work) : Bool :=
  d.asyncReady work && work.endpoint == token &&
    (work.tid == thread.tid || (work.tid == 0 && acceptsProcessWork thread polling))

/-- `work_for`. -/
def workFor (d : Device) (token : Nat) (thread : Thread) (polling : Bool := false) : Option Nat :=
  d.work.findIdx? (d.workReady token thread polling)

/-- `read_ready`. -/
def readReady (d : Device) (token : Nat) (thread : Thread) (polling : Bool := false) : Bool :=
  thread.initialReturn || thread.error.isSome || thread.completions != 0 ||
    (d.workFor token thread polling).isSome || (d.deathFor token thread polling).isSome ||
    (d.nodeEventFor token thread polling).isSome

end Device

/-! ## Records -/

/-- A return record about to be written. -/
inductive Record
  | error (word : BR)
  | node (node : Node) (command : BR)
  | completion
  | notification (slot : Nat) (death : Death)
  | work (index : Nat) (work : Work)

/-- The word of a death record. -/
def Death.returnWord (death : Death) : BR :=
  if death.state = .clearQueued then .clearDeathNotificationDone else .deadBinder

/-- The bytes of a record. -/
def Record.bytes : Record → List UInt8
  | .error word => writeLE 4 word.word
  | .node n command => writeLE 4 command.word ++ writeLE 8 n.pointer ++ writeLE 8 n.cookie
  | .completion => writeLE 4 BR.transactionComplete.word
  | .notification _ death => writeLE 4 death.returnWord.word ++ writeLE 8 death.cookie
  | .work _ w =>
    writeLE 4 w.command.word ++ writeLE 8 w.value.target ++ writeLE 8 w.value.cookie ++
      writeLE 4 w.value.code ++ writeLE 4 w.value.flags ++ writeLE 4 w.value.senderPid ++
      writeLE 4 w.value.senderEuid ++ writeLE 8 w.value.dataSize ++
      writeLE 8 w.value.offsetsSize ++ writeLE 8 w.value.dataBuffer ++
      writeLE 8 w.value.offsetsBuffer

/-- A death return ends the read, a clear return does not. -/
def Record.endsRead : Record → Bool
  | .notification _ death => death.state != .clearQueued
  | _ => false

/-- A work record carries its queued item with it. -/
def Device.workRecord (d : Device) (token : Nat) (thread : Thread) : Option Record :=
  (d.workFor token thread).bind fun i => d.work[i]?.map (.work i)

/-- A death record carries its subscription with it. -/
def Device.deathRecord (d : Device) (token : Nat) (thread : Thread) : Option Record :=
  (d.deathFor token thread).bind fun i => d.objects.deaths[i]?.map (.notification i)

/-- The record the next round of `read_work` writes. -/
def Device.nextRecord (d : Device) (token : Nat) (thread : Thread) : Option Record :=
  match thread.error with
  | some word => some (.error word)
  | none =>
    match d.nodeEventFor token thread with
    | some (n, c) => some (.node n c)
    | none =>
      if thread.completions ≠ 0 then some .completion
      else
        match d.workRecord token thread with
        | some r => some r
        | none => d.deathRecord token thread

/-- The flags of a node after one of its commands was delivered. -/
def Node.commanded (n : Node) : BR → Node
  | .increfs => { n with hasWeak := true, pendingWeak := true }
  | .acquire => { n with hasStrong := true, pendingStrong := true }
  | .release => { n with hasStrong := false }
  | _ => { n with hasWeak := false }

namespace Device

/-- Make the thread serve a call; a parcel without one has transaction `0`. -/
def serve (d : Device) (token : Nat) (tid : Int) (transaction : Nat) : Device :=
  if transaction = 0 then d
  else
    { (d.updateThread token tid fun th => { th with incoming := transaction }) with
      transactions := update (fun t => t.id == transaction) (fun t => { t with targetTid := tid })
        d.transactions }

/-- Deliver a parcel: publish its buffer, make the thread serve the call if it is
one, and take it off the queue. -/
def deliverWork (d : Device) (endpoint : Endpoint) (thread : Thread) (index : Nat) (work : Work) :
    Int × Device :=
  if (endpoint.arena.map fun a => (a.publish work.value.dataBuffer).1).getD (-22) ≠ 0 then (-5, d)
  else
    let published := d.updateArena endpoint.token fun a => (a.publish work.value.dataBuffer).2
    if work.transaction ≠ 0 ∧ (d.transactionFor work.transaction).isNone then (-5, published)
    else
      (0, { published.serve endpoint.token thread.tid work.transaction with
        work := d.work.eraseIdx index }.record
          (.delivered endpoint.token thread.tid d.work work))

/-- What writing a record does to the device. -/
def deliver (d : Device) (endpoint : Endpoint) (thread : Thread) : Record → Int × Device
  | .error word =>
    (0, (d.updateThread endpoint.token thread.tid fun th => { th with error := none }).record
      (.returned endpoint.token thread.tid word))
  | .node n command =>
    let o := d.objects.setNode (n.commanded command)
    (0, { d with objects := o.collectNodes }.record
      (.nodeCommand endpoint.token thread.tid n.id command))
  | .completion =>
    (0, (d.updateThread endpoint.token thread.tid fun th =>
      { th with completions := th.completions - 1 }).record
      (.returned endpoint.token thread.tid .transactionComplete))
  | .notification slot death =>
    let death' : Death :=
      if death.state = .clearQueued then {} else { death with state := .deathDelivered }
    (0, { d with objects := { d.objects with deaths := d.objects.deaths.set slot death' } }.record
      (.deathReturned endpoint.token thread.tid slot death.returnWord death.cookie))
  | .work index w => d.deliverWork endpoint thread index w

end Device

/-! ## The read loop -/

/-- Where a read stopped: its result, the bytes written, the device and the world. -/
structure ReadResult (ω : Type) where
  result : Int
  consumed : Nat
  device : Device
  world : ω

/-- The loop of `read_work`. Every record takes at least four bytes, so `size` rounds
are more than the buffer has room for. -/
def readLoop {ω : Type} (host : Host ω) (token : Nat) (tid : Int) (address size : Nat) :
    (rounds consumed : Nat) → Device → ω → ReadResult ω
  | 0, consumed, d, w => ⟨0, consumed, d, w⟩
  | rounds + 1, consumed, d, w =>
    match d.endpointFor token, d.threadFor token tid with
    | some endpoint, some thread =>
      if size - consumed < 4 then ⟨0, consumed, d, w⟩
      else
        match d.nextRecord token thread with
        | none => ⟨0, consumed, d, w⟩
        | some record =>
          if size - consumed < record.bytes.length then ⟨0, consumed, d, w⟩
          else
            match host.write w endpoint.vm (address + consumed) record.bytes with
            | (false, w) => ⟨-14, consumed, d, w⟩
            | (true, w) =>
              let delivered := d.deliver endpoint thread record
              if delivered.1 ≠ 0 then ⟨delivered.1, 0, delivered.2, w⟩
              else if record.endsRead then
                ⟨0, consumed + record.bytes.length, delivered.2, w⟩
              else
                readLoop host token tid address size rounds (consumed + record.bytes.length)
                  delivered.2 w
    | _, _ => ⟨0, consumed, d, w⟩

/-- The transfer header, `struct binder_write_read`. -/
structure Header where
  writeSize : Nat
  writeConsumed : Nat
  writeBuffer : Nat
  readSize : Nat
  readConsumed : Nat
  readBuffer : Nat
deriving DecidableEq, Repr

def Header.ofBytes (bs : List UInt8) : Header :=
  ⟨read64 bs 0, read64 bs 8, read64 bs 16, read64 bs 24, read64 bs 32, read64 bs 40⟩

def Header.bytes (h : Header) : List UInt8 :=
  writeLE 8 h.writeSize ++ writeLE 8 h.writeConsumed ++ writeLE 8 h.writeBuffer ++
    writeLE 8 h.readSize ++ writeLE 8 h.readConsumed ++ writeLE 8 h.readBuffer

/-- `read_work`; `consumed` is the header's `read_consumed` afterwards. -/
def readWork {ω : Type} (host : Host ω) (w : ω) (d : Device) (endpoint : Endpoint) (thread : Thread)
    (header : Header) : ReadResult ω :=
  if d.receiveLimit = 0 then ⟨-95, header.readConsumed, d, w⟩
  else if header.readSize < 4 ∨ header.readConsumed ≠ 0 then ⟨-95, header.readConsumed, d, w⟩
  else if 65536 < header.readSize then ⟨-7, header.readConsumed, d, w⟩
  else if uint64Max - header.readSize < header.readBuffer then ⟨-14, header.readConsumed, d, w⟩
  else
    match host.write w endpoint.vm header.readBuffer (writeLE 4 BR.noop.word) with
    | (false, w) => ⟨-14, header.readConsumed, d, w⟩
    | (true, w) =>
      if !d.readReady endpoint.token thread then ⟨-11, 0, d, w⟩
      else readLoop host endpoint.token thread.tid header.readBuffer header.readSize
        header.readSize 4 d w

end Artbox.Binder
