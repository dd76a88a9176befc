import Artbox.Binder.Wire
import Artbox.Binder.Arena

/-!
# The state of the Binder device

The records of `core/src/binder_device.cpp` under their own names. Identities
(endpoint tokens, node and transaction ids), addresses and sizes are 64-bit in
the source and natural numbers here; the three counters that hand identities out
wrap at `2^64` exactly as the source's do (`succ64`), and `0` is never an identity.
The slot pools keep the source's slots in order, blank records marking the free
ones (`Artbox.Lib.Slots`).

The object tables (nodes, references, deaths, claims) are a record of their own,
`Objects`: the functions over them read and write nothing else.

`Device.history` and `Work.stamp` are history variables. The functions of the
device write them and never read them; they exist so that statements about runs
("was delivered at most once") can be made about the state a run ends in. The
most recent event comes first.
-/

namespace Artbox.Binder

/-- `packet_limit`. -/
def packetLimit : Nat := 1024

/-- `object_limit`. -/
def objectLimit : Nat := 64

/-- `claim_limit`. -/
def claimLimit : Nat := 4096

/-- `UINT32_MAX`. -/
abbrev uint32Max : Nat := 2 ^ 32 - 1

/-- `counter++` on a 64-bit counter. -/
def succ64 (n : Nat) : Nat := (n + 1) % 2 ^ 64

/-! ## Threads and endpoints -/

/-- The `entered`, `registered`, `exited` and `invalid` bits of a thread. -/
structure Looper where
  entered : Bool := false
  registered : Bool := false
  exited : Bool := false
  invalid : Bool := false
deriving DecidableEq, Repr

/-- A thread of an endpoint. `incoming` and `outgoing` are transaction ids; `error`
is the pending error return. -/
structure Thread where
  tid : Int
  looper : Looper := {}
  incoming : Nat := 0
  outgoing : Nat := 0
  error : Option BR := none
  completions : Nat := 0
  deadReply : Bool := false
  initialReturn : Bool := true
  active : Bool := false
deriving DecidableEq, Repr

/-- An endpoint slot; it is in use while `token` is not zero. Pointers are numbers
with `0` for null: `vm` the guest address space, `receiveOwner` the driver's alias
of the receive mapping, `receiveWatch` the passive watch on the guest's view. -/
structure Endpoint where
  token : Nat := 0
  opened : Bool := false
  mappedOnce : Bool := false
  nonblocking : Bool := false
  vm : Nat := 0
  receiveOwner : Nat := 0
  receiveWatch : Nat := 0
  receiveBase : Nat := 0
  receiveSize : Nat := 0
  receiveWritable : Nat := 0
  arena : Option Arena := none
  pid : Int := 0
  uid : Nat := 0
  maxThreads : Nat := 0
  activeCalls : Nat := 0
  threads : List Thread := []

/-! ## Calls -/

/-- A synchronous call in flight; the slot is free when `id` is zero. -/
structure Transaction where
  id : Nat := 0
  source : Nat := 0
  target : Nat := 0
  sourceTid : Int := 0
  targetTid : Int := 0
deriving DecidableEq, Repr

/-- A queued parcel. `stamp` is history: how many events preceded its acceptance. -/
structure Work where
  endpoint : Nat
  tid : Int
  command : BR
  transaction : Nat
  asyncNode : Nat
  value : TransactionData
  stamp : Nat
deriving DecidableEq, Repr

/-! ## Objects -/

/-- An endpoint's handle on a node; the slot is free when `endpoint` is zero. `death`
is a one-based slot of the death table. -/
structure Reference where
  endpoint : Nat := 0
  owner : Nat := 0
  node : Nat := 0
  handle : Nat := 0
  strong : Nat := 0
  weak : Nat := 0
  temporaryStrong : Nat := 0
  death : Nat := 0
deriving DecidableEq, Repr

/-- An exported object; the slot is free when `id` is zero. -/
structure Node where
  id : Nat := 0
  owner : Nat := 0
  pointer : Nat := 0
  cookie : Nat := 0
  flags : Nat := 0
  notificationTid : Int := 0
  manager : Bool := false
  dead : Bool := false
  hasStrong : Bool := false
  hasWeak : Bool := false
  pendingStrong : Bool := false
  pendingWeak : Bool := false
  asyncBuffer : Nat := 0
deriving DecidableEq, Repr

/-- A receive buffer's hold on a node; the slot is free when `endpoint` is zero. -/
structure Claim where
  endpoint : Nat := 0
  buffer : Nat := 0
  node : Nat := 0
  handle : Nat := 0
  remote : Bool := false
deriving DecidableEq, Repr

inductive DeathState
  | armed | deathQueued | deathDelivered | deathAcknowledged | clearQueued
deriving DecidableEq, Repr

/-- A death subscription; the slot is free when `endpoint` is zero. -/
structure Death where
  endpoint : Nat := 0
  owner : Nat := 0
  cookie : Nat := 0
  tid : Int := 0
  state : DeathState := .armed
  clearing : Bool := false
deriving DecidableEq, Repr

/-- The object tables of the device. -/
structure Objects where
  references : List Reference := []
  deaths : List Death := []
  nodes : List Node := []
  claims : List Claim := []
  managerNode : Nat := 0
  nextNode : Nat := 1

/-! ## History -/

/-- An accepted parcel: who sent it, the call it answers if it is a reply, the work
it was queued as, the data as read from the sender and as translated, the offset
table, and the nodes its objects name in table order. -/
structure Parcel where
  source : Nat
  sourceTid : Int
  answers : Nat
  work : Work
  sent : List UInt8
  data : List UInt8
  offsets : List UInt8
  nodes : List Node
deriving DecidableEq, Repr

/-- What happened, as far as the protocol can tell. -/
inductive Event
  /-- A `BC_TRANSACTION` or `BC_REPLY` packet was consumed. -/
  | consumed (token : Nat) (tid : Int) (command : BC)
  /-- The packet got an error return instead of being sent; `call` marks synchronous
  calls. -/
  | refused (token : Nat) (tid : Int) (call : Bool) (word : BR)
  /-- A parcel was queued and its sender's completion count raised. -/
  | accepted (parcel : Parcel)
  /-- An error or completion return was written to the thread. -/
  | returned (token : Nat) (tid : Int) (word : BR)
  /-- A queued parcel was delivered; `queue` is the queue it was taken from. -/
  | delivered (token : Nat) (tid : Int) (queue : List Work) (work : Work)
  /-- Teardown of `(token, tid)` began; `tid = 0` is the whole endpoint. -/
  | teardown (token : Nat) (tid : Int)
  /-- Teardown of `(token, tid)` removed a parcel. -/
  | dropped (token : Nat) (tid : Int) (work : Work)
  /-- Teardown of a peer ended the thread's call; `unread` was in its error slot. -/
  | cancelled (token : Nat) (tid : Int) (transaction : Nat) (unread : Option BR)
  /-- A node command was written to a thread of the node's owner. -/
  | nodeCommand (token : Nat) (tid : Int) (node : Nat) (command : BR)
  /-- The owner acknowledged a node command. -/
  | nodeDone (token : Nat) (node : Nat) (command : BC)
  /-- A death subscription took a slot. -/
  | deathRequested (token : Nat) (slot cookie : Nat)
  /-- A death subscription was cleared. -/
  | deathCleared (token : Nat) (slot cookie : Nat)
  /-- A delivered death notification was acknowledged. -/
  | deathDone (token : Nat) (slot cookie : Nat)
  /-- A death or clear notification was written. -/
  | deathReturned (token : Nat) (tid : Int) (slot : Nat) (word : BR) (cookie : Nat)
  /-- A delivered buffer was freed. -/
  | freed (token buffer : Nat)
  /-- A thread exited. -/
  | exited (token : Nat) (tid : Int)
  /-- An endpoint was released. -/
  | released (token : Nat)
deriving DecidableEq

/-! ## The device -/

/-- `artbox_binder_device`, `threadLimit`, `receiveLimit` and `pageSize` being its
configuration. -/
structure Device where
  endpoints : List Endpoint
  threadLimit : Nat
  receiveLimit : Nat := 0
  pageSize : Nat := 0
  nextToken : Nat := 1
  manager : Nat := 0
  uidSet : Bool := false
  managerUid : Nat := 0
  nextTransaction : Nat := 1
  transactions : List Transaction := []
  work : List Work := []
  objects : Objects := {}
  history : List Event := []

/-- The device right after `artbox_binder_device_create`. -/
def create (endpoints threads : Nat) : Option Device :=
  if endpoints = 0 ∨ 1024 < endpoints ∨ threads = 0 ∨ 1024 < threads then none
  else some { endpoints := List.replicate endpoints {}, threadLimit := threads }

/-- Note an event. -/
def Device.record (d : Device) (e : Event) : Device := { d with history := e :: d.history }

end Artbox.Binder
