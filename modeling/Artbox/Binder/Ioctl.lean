import Artbox.Binder.Receive

/-!
# The entry points of the device

`core/src/binder_device.cpp` from `command` and `write_read` to the exported
functions. Everything runs under the device mutex, so an entry point is one
function from device to device, except that a blocking read gives the mutex up:
it ends in `Outcome.sleep` with what the sleeping call keeps on its stack (a
`Sleeper`), and `wake` is one round of its wait loop.

Observers and the waiter count are left out: nothing in the device reads them.
-/

namespace Artbox.Binder

open Bytes Slots

variable {ω : Type}

/-! ## Write commands -/

/-- What a command returns: its result, the bytes it stands for, device and world. -/
structure CommandResult (ω : Type) where
  result : Int
  consumed : Nat
  device : Device
  world : ω

/-- `reference_command`. -/
def referenceCommand (host : Host ω) (w : ω) (d : Device) (endpoint : Endpoint) (address : Nat)
    (increment strong : Bool) : Int × Device × ω :=
  if d.receiveLimit = 0 then (-95, d, w)
  else
    match host.read w endpoint.vm address 8 with
    | (none, w) => (-14, d, w)
    | (some bytes, w) =>
      let r := d.objects.referenceCommand d.manager endpoint.token (read32 bytes.1 4) increment
        strong
      (r.1, { d with objects := r.2 }, w)

/-- `node_done_command`. -/
def nodeDoneCommand (host : Host ω) (w : ω) (d : Device) (endpoint : Endpoint) (address : Nat)
    (increfs : Bool) : Int × Device × ω :=
  if d.receiveLimit = 0 then (-95, d, w)
  else
    match host.read w endpoint.vm address 20 with
    | (none, w) => (-14, d, w)
    | (some bytes, w) =>
      match d.objects.doneNode endpoint.token (read64 bytes.1 4) (read64 bytes.1 12) with
      | none => (0, d, w)
      | some node =>
        (0, { d with objects := d.objects.nodeDone node increfs }.record
          (.nodeDone endpoint.token node.id (if increfs then .increfsDone else .acquireDone)), w)

/-- Note a death event if a slot was concerned. -/
def Device.recordSlot (d : Device) (slot : Option Nat) (e : Nat → Event) : Device :=
  match slot with
  | none => d
  | some slot => d.record (e slot)

/-- `BC_REQUEST_DEATH_NOTIFICATION` on the reference found. -/
def Device.requestDeath (d : Device) (ref : Reference) (cookie : Nat) : Int × Device :=
  let r := d.objects.requestDeath ref cookie (d.endpointFor ref.owner).isSome
  (r.1, { d with objects := r.2.2 }.recordSlot r.2.1
    fun slot => .deathRequested ref.endpoint slot cookie)

/-- `BC_CLEAR_DEATH_NOTIFICATION` on the reference found. -/
def Device.clearDeath (d : Device) (thread : Thread) (ref : Reference) (cookie : Nat) : Device :=
  let r := d.objects.clearDeath ref cookie thread
  { d with objects := r.2 }.recordSlot r.1 fun slot => .deathCleared ref.endpoint slot cookie

/-- `BC_DEAD_BINDER_DONE`. -/
def Device.doneDeath (d : Device) (token : Nat) (thread : Thread) (cookie : Nat) : Device :=
  let r := d.objects.doneDeath token cookie thread
  { d with objects := r.2 }.recordSlot r.1 fun slot => .deathDone token slot cookie

/-- `death_command` for `BC_DEAD_BINDER_DONE`. -/
def doneDeathCommand (host : Host ω) (w : ω) (d : Device) (endpoint : Endpoint) (thread : Thread)
    (address : Nat) : Int × Device × ω :=
  if d.receiveLimit = 0 then (-95, d, w)
  else
    match host.read w endpoint.vm address 12 with
    | (none, w) => (-14, d, w)
    | (some bytes, w) => (0, d.doneDeath endpoint.token thread (read64 bytes.1 4), w)

/-- `death_command` for the two commands that name a handle. -/
def deathCommand (host : Host ω) (w : ω) (d : Device) (endpoint : Endpoint) (thread : Thread)
    (address : Nat) (request : Bool) : Int × Device × ω :=
  if d.receiveLimit = 0 then (-95, d, w)
  else
    match host.read w endpoint.vm address 16 with
    | (none, w) => (-14, d, w)
    | (some bytes, w) =>
      match d.objects.referenceFor endpoint.token (read32 bytes.1 4) with
      | none => (0, d, w)
      | some ref =>
        if request then
          let r := d.requestDeath ref (read64 bytes.1 8)
          (r.1, r.2, w)
        else (0, d.clearDeath thread ref (read64 bytes.1 8), w)

/-- `free_packet`. -/
def freeCommand (host : Host ω) (w : ω) (d : Device) (endpoint : Endpoint) (address : Nat) :
    Int × Device × ω :=
  if d.receiveLimit = 0 then (-95, d, w)
  else
    match host.read w endpoint.vm address 12 with
    | (none, w) => (-14, d, w)
    | (some bytes, w) =>
      let r := d.freePacket endpoint (read64 bytes.1 4)
      (r.1, r.2, w)

/-- The looper commands. -/
def Thread.enterLooper (t : Thread) : Thread :=
  { t with
    looper := { t.looper with
      entered := true, invalid := t.looper.invalid || t.looper.registered } }

/-- There are no spawn requests, so registering is always out of turn. -/
def Thread.registerLooper (t : Thread) : Thread :=
  { t with looper := { t.looper with registered := true, invalid := true } }

def Thread.exitLooper (t : Thread) : Thread :=
  { t with looper := { t.looper with exited := true } }

/-- A packet command; a consumed packet is noted. -/
def packetCommand (host : Host ω) (w : ω) (d : Device) (endpoint : Endpoint) (thread : Thread)
    (address : Nat) (reply : Bool) : Int × Device × ω :=
  let r := transferPacket host w d endpoint thread address reply
  if r.1 = 0 then
    (0, r.2.1.record (.consumed endpoint.token thread.tid (if reply then .reply else .transaction)),
      r.2.2)
  else r

/-- A command's result together with its length. -/
def CommandResult.of (consumed : Nat) (r : Int × Device × ω) : CommandResult ω :=
  ⟨r.1, consumed, r.2.1, r.2.2⟩

/-- `command`. Words the device does not implement are refused by what the wire
parser makes of them. -/
def command (host : Host ω) (w : ω) (d : Device) (endpoint : Endpoint) (thread : Thread)
    (address : Nat) : CommandResult ω :=
  match host.read w endpoint.vm address 4 with
  | (none, w) => ⟨-14, 0, d, w⟩
  | (some bytes, w) =>
    match BC.ofWord (read32 bytes.1 0) with
    | some .enterLooper =>
      ⟨0, 4, d.updateThread endpoint.token thread.tid Thread.enterLooper, w⟩
    | some .registerLooper =>
      ⟨0, 4, d.updateThread endpoint.token thread.tid Thread.registerLooper, w⟩
    | some .exitLooper =>
      ⟨0, 4, d.updateThread endpoint.token thread.tid Thread.exitLooper, w⟩
    | some .transaction => .of 68 (packetCommand host w d endpoint thread address false)
    | some .reply => .of 68 (packetCommand host w d endpoint thread address true)
    | some .freeBuffer => .of 12 (freeCommand host w d endpoint address)
    | some .increfs => .of 8 (referenceCommand host w d endpoint address true false)
    | some .acquire => .of 8 (referenceCommand host w d endpoint address true true)
    | some .release => .of 8 (referenceCommand host w d endpoint address false true)
    | some .decrefs => .of 8 (referenceCommand host w d endpoint address false false)
    | some .requestDeathNotification =>
      .of 16 (deathCommand host w d endpoint thread address true)
    | some .clearDeathNotification =>
      .of 16 (deathCommand host w d endpoint thread address false)
    | some .deadBinderDone => .of 12 (doneDeathCommand host w d endpoint thread address)
    | some .increfsDone => .of 20 (nodeDoneCommand host w d endpoint address true)
    | some .acquireDone => .of 20 (nodeDoneCommand host w d endpoint address false)
    | _ =>
      match binderNext .write (bytes.1 ++ List.replicate 72 0) 0 with
      | .ok _ => ⟨-95, 4, d, w⟩
      | .error _ => ⟨-22, 4, d, w⟩

/-- The command loop of `write_read`: result, consumed bytes, device and world. Every
command takes at least four bytes, so `size` rounds are enough. -/
def writeLoop (host : Host ω) (token : Nat) (tid : Int) (base size : Nat) :
    (rounds consumed : Nat) → Device → ω → CommandResult ω
  | 0, consumed, d, w => ⟨0, consumed, d, w⟩
  | rounds + 1, consumed, d, w =>
    match d.endpointFor token, d.threadFor token tid with
    | some endpoint, some thread =>
      if thread.error.isSome ∨ size ≤ consumed then ⟨0, consumed, d, w⟩
      else if uint64Max - base < consumed ∨ uint64Max - 4 < base + consumed then
        ⟨-14, consumed, d, w⟩
      else
        let r := command host w d endpoint thread (base + consumed)
        if r.result ≠ 0 then ⟨r.result, consumed, r.device, r.world⟩
        else writeLoop host token tid base size rounds (consumed + r.consumed) r.device r.world
    | _, _ => ⟨0, consumed, d, w⟩

/-! ## Teardown and admission -/

/-- An endpoint slot after `release_endpoint`. -/
def Endpoint.vacate (e : Endpoint) : Endpoint :=
  { e with
    token := 0, vm := 0, opened := false, arena := none
    receiveOwner := 0, receiveWatch := 0, receiveWritable := 0, receiveBase := 0, receiveSize := 0
    threads := [] }

namespace Device

/-- `admit_thread`: nothing if the endpoint has no room for a new thread. -/
def admitThread (d : Device) (endpoint : Endpoint) (tid : Int) : Option Device :=
  if (endpoint.threadFor tid).isSome then some d
  else if endpoint.threads.length = d.threadLimit then none
  else some (d.updateEndpoint endpoint.token fun e => { e with threads := e.threads ++ [{ tid }] })

/-- The head of an ioctl: the thread and the endpoint are in a call. -/
def enter (d : Device) (token : Nat) (tid : Int) : Device :=
  (d.updateThread token tid fun t => { t with active := true }).updateEndpoint token
    fun e => { e with activeCalls := e.activeCalls + 1 }

/-- The tail of an ioctl. After `THREAD_EXIT` the thread is gone. -/
def leave (d : Device) (token : Nat) (tid : Int) : Device :=
  (d.updateThread token tid fun t => { t with initialReturn := false, active := false }).updateEndpoint
    token fun e => { e with activeCalls := e.activeCalls - 1 }

/-- The rest of `BINDER_THREAD_EXIT` behind `cancel_transactions`. -/
def eraseThread (d : Device) (token : Nat) (tid : Int) : Device :=
  let o := { d.objects with
    nodes := update (fun n => n.id != 0 && n.owner == token && n.notificationTid == tid)
      (fun n => { n with notificationTid := 0 }) d.objects.nodes
    deaths := update (fun death => death.endpoint == token && death.tid == tid) (fun _ => {})
      d.objects.deaths }
  (({ d with objects := o }).updateEndpoint token fun e =>
    { e with threads := e.threads.filter fun t => t.tid != tid }).record (.exited token tid)

/-- `BINDER_THREAD_EXIT`. -/
def exitThread (d : Device) (token : Nat) (tid : Int) : Device :=
  ((d.record (.teardown token tid)).cancelTransactions token tid).eraseThread token tid

/-- The rest of `release_endpoint` behind `cancel_transactions`, without the native
release of the receive owner. -/
def retire (d : Device) (token : Nat) : Device :=
  let d := { d with objects := (d.objects.releaseReferences token).releaseClaims token }
  let d := d.updateArena token Arena.discardAll
  let d :=
    if d.manager = token then
      { d with manager := 0, objects := { d.objects with managerNode := 0 } }
    else d
  (d.updateEndpoint token Endpoint.vacate).record (.released token)

/-- `release_endpoint`. -/
def releaseEndpoint (d : Device) (token : Nat) : Device :=
  ((d.record (.teardown token 0)).cancelTransactions token).retire token

/-- `BINDER_SET_CONTEXT_MGR` and its extended form, on the object given. -/
def setContextMgr (d : Device) (endpoint : Endpoint) (flags pointer cookie : Nat) : Int × Device :=
  if d.manager ≠ 0 then (-16, d)
  else if d.uidSet ∧ d.managerUid ≠ endpoint.uid then (-1, d)
  else if (d.objects.ownedNode endpoint.token pointer).isSome then (-95, d)
  else
    match d.objects.createNode endpoint.token pointer cookie flags 0 true with
    | none => (-12, d)
    | some (node, o) =>
      (0, { d with
        objects := { o with managerNode := node.id }
        manager := endpoint.token, managerUid := endpoint.uid, uidSet := true })

/-- `BINDER_GET_NODE_INFO_FOR_REF`: the strong and weak counts of a held node. -/
def nodeInfo (d : Device) (token handle : Nat) : Except Int (Nat × Nat) :=
  if d.manager ≠ token then .error (-1)
  else
    match (d.objects.referenceFor token handle).filter fun ref =>
        ref.strong != 0 || ref.temporaryStrong != 0 with
    | none => .error (-22)
    | some ref =>
      match d.objects.nodeFor ref.node with
      | none => .error (-22)
      | some node =>
        let imported := d.objects.references.countP fun r =>
          r.endpoint != 0 && r.node == node.id && (r.strong != 0 || r.temporaryStrong != 0)
        let held := d.objects.claims.countP fun c =>
          c.endpoint != 0 && c.node == node.id && !c.remote
        if node.dead then .ok (imported, 0)
        else .ok (imported + node.manager.toNat + node.pendingStrong.toNat + held,
          node.manager.toNat + node.pendingWeak.toNat)

end Device

/-- The loop of `reap_closed` over the endpoint slots. -/
def reapFrom (host : Host ω) : List Endpoint → Device → ω → Int × Device × ω
  | [], d, w => (0, d, w)
  | e :: rest, d, w =>
    if e.token = 0 ∨ e.opened then reapFrom host rest d w
    else
      let bits := host.watchBits w e.receiveWatch
      if mappingLive bits.1 then reapFrom host rest d bits.2
      else
        let destroyed := if e.receiveOwner = 0 then (0, bits.2)
          else host.destroy bits.2 e.receiveOwner
        let r := reapFrom host rest (d.releaseEndpoint e.token) destroyed.2
        (if destroyed.1 ≠ 0 then destroyed.1 else r.1, r.2)

/-- `reap_closed`. -/
def reapClosed (host : Host ω) (w : ω) (d : Device) : Int × Device × ω :=
  reapFrom host d.endpoints d w

/-! ## Blocking reads -/

/-- What a call that sleeps in `read_wait` keeps: who it is, where its header goes, the
header so far, and whether signals interrupt it. -/
structure Sleeper where
  token : Nat
  tid : Int
  argument : Nat
  header : Header
  interruptible : Bool
deriving DecidableEq, Repr

/-- How far a call got under the mutex. -/
inductive Outcome (ω : Type)
  | done (result : Int) (device : Device) (world : ω)
  | sleep (sleeper : Sleeper) (device : Device) (world : ω)

/-- The copy-back at the end of `write_read`, then the tail of the ioctl. -/
def finishWriteRead (host : Host ω) (s : Sleeper) (vm : Nat) (header : Header) (result : Int)
    (d : Device) (w : ω) : Outcome ω :=
  match host.write w vm s.argument header.bytes with
  | (false, w) => .done (-14) (d.leave s.token s.tid) w
  | (true, w) => .done result (d.leave s.token s.tid) w

/-- Finish with what `read_work` returned. -/
def finishRead (host : Host ω) (s : Sleeper) (vm : Nat) (r : ReadResult ω) : Outcome ω :=
  finishWriteRead host s vm { s.header with readConsumed := r.consumed } r.result r.device r.world

/-- `read_wait` up to its first sleep; `interrupted` is whether the signal epoch moved. -/
def readWait (host : Host ω) (s : Sleeper) (endpoint : Endpoint) (interrupted : Bool) (d : Device)
    (w : ω) : Outcome ω :=
  match d.threadFor s.token s.tid with
  | none => finishWriteRead host s endpoint.vm s.header (-9) d w
  | some thread =>
    let r := readWork host w d endpoint thread s.header
    if r.result ≠ -11 ∨ endpoint.nonblocking then finishRead host s endpoint.vm r
    else
      let s := { s with header := { s.header with readConsumed := r.consumed } }
      if s.interruptible && interrupted then
        finishWriteRead host s endpoint.vm s.header (-4) r.device r.world
      else .sleep s r.device r.world

/-- One round of the loop of `read_wait`, from the return of `wait_for` on. -/
def wake (host : Host ω) (s : Sleeper) (interrupted : Bool) (d : Device) (w : ω) : Outcome ω :=
  let reaped := reapClosed host w d
  let d := reaped.2.1
  let w := reaped.2.2
  match d.endpointFor s.token with
  | none => .done (-9) d w
  | some endpoint =>
    if reaped.1 ≠ 0 then finishWriteRead host s endpoint.vm s.header reaped.1 d w
    else if s.interruptible && interrupted then
      finishWriteRead host s endpoint.vm s.header (-4) d w
    else
      match endpoint.threadFor s.tid with
      | none => finishWriteRead host s endpoint.vm s.header (-9) d w
      | some thread =>
        if d.readReady s.token thread then
          finishRead host s endpoint.vm (readWork host w d endpoint thread s.header)
        else .sleep s d w

/-- `write_read`, up to the end of the ioctl or to its sleep. -/
def writeRead (host : Host ω) (w : ω) (d : Device) (endpoint : Endpoint) (tid : Int)
    (argument : Nat) (interruptible interrupted : Bool) : Outcome ω :=
  match host.read w endpoint.vm argument 48 with
  | (none, w) => .done (-14) (d.leave endpoint.token tid) w
  | (some bytes, w) =>
    let header := Header.ofBytes bytes.1
    let written : CommandResult ω :=
      if 65536 < header.writeSize then ⟨-7, header.writeConsumed, d, w⟩
      else writeLoop host endpoint.token tid header.writeBuffer header.writeSize header.writeSize
        header.writeConsumed d w
    let header := { header with writeConsumed := written.consumed }
    let s : Sleeper := { token := endpoint.token, tid, argument, header, interruptible }
    if written.result ≠ 0 then
      -- a failed write never attempts the read
      finishWriteRead host s endpoint.vm { header with readConsumed := 0 } written.result
        written.device written.world
    else if header.readSize ≠ 0 then
      readWait host s endpoint interrupted written.device written.world
    else finishWriteRead host s endpoint.vm header 0 written.device written.world

/-! ## Ioctls -/

/-- `ARTBOX_BINDER_*` requests. -/
inductive Request
  | writeRead | setMaxThreads | setContextMgr | threadExit | version | getNodeDebugInfo
  | getNodeInfoForRef | setContextMgrExt | freeze | getFrozenInfo | enableOnewaySpamDetection
  | getExtendedError
deriving DecidableEq, Repr

def Request.word : Request → Nat
  | writeRead => 0xc0306201
  | setMaxThreads => 0x40046205
  | setContextMgr => 0x40046207
  | threadExit => 0x40046208
  | version => 0xc0046209
  | getNodeDebugInfo => 0xc018620b
  | getNodeInfoForRef => 0xc018620c
  | setContextMgrExt => 0x4018620d
  | freeze => 0x400c620e
  | getFrozenInfo => 0xc00c620f
  | enableOnewaySpamDetection => 0x40046210
  | getExtendedError => 0xc00c6211

def Request.all : List Request :=
  [writeRead, setMaxThreads, setContextMgr, threadExit, version, getNodeDebugInfo,
    getNodeInfoForRef, setContextMgrExt, freeze, getFrozenInfo, enableOnewaySpamDetection,
    getExtendedError]

def Request.ofWord (word : Nat) : Option Request := Request.all.find? fun r => r.word == word

/-- The `SET_MAX_THREADS` arm. -/
def setMaxThreads (host : Host ω) (w : ω) (d : Device) (endpoint : Endpoint) (argument : Nat) :
    Int × Device × ω :=
  match host.read w endpoint.vm argument 4 with
  | (none, w) => (-22, d, w)
  | (some bytes, w) =>
    (0, d.updateEndpoint endpoint.token fun e => { e with maxThreads := read32 bytes.1 0 }, w)

/-- The two `SET_CONTEXT_MGR` arms; the plain form registers a blank object. -/
def setContextMgr (host : Host ω) (w : ω) (d : Device) (endpoint : Endpoint) (argument : Nat)
    (ext : Bool) : Int × Device × ω :=
  if ext then
    match host.read w endpoint.vm argument 24 with
    | (none, w) => (-22, d, w)
    | (some bytes, w) =>
      let r := d.setContextMgr endpoint (read32 bytes.1 4) (read64 bytes.1 8) (read64 bytes.1 16)
      (r.1, r.2, w)
  else
    let r := d.setContextMgr endpoint 0 0 0
    (r.1, r.2, w)

/-- The `GET_NODE_INFO_FOR_REF` arm; it only reads the device. -/
def getNodeInfo (host : Host ω) (w : ω) (d : Device) (endpoint : Endpoint) (argument : Nat) :
    Int × ω :=
  match host.read w endpoint.vm argument 24 with
  | (none, w) => (-14, w)
  | (some value, w) =>
    if [4, 8, 12, 16, 20].any fun offset => read32 value.1 offset != 0 then (-22, w)
    else
      match d.nodeInfo endpoint.token (read32 value.1 0) with
      | .error r => (r, w)
      | .ok (strong, weak) =>
        match host.write w endpoint.vm argument
            (splice (splice value.1 4 (writeLE 4 strong)) 8 (writeLE 4 weak)) with
        | (false, w) => (-14, w)
        | (true, w) => (0, w)

/-- The request switch of `binder_ioctl`, on the entered thread, with the tail. -/
def invoke (host : Host ω) (w : ω) (d : Device) (endpoint : Endpoint) (tid : Int) (request : Nat)
    (argument : Nat) (interruptible interrupted : Bool) : Outcome ω :=
  let token := endpoint.token
  match Request.ofWord request with
  | some .version =>
    match host.write w endpoint.vm argument (writeLE 4 8) with
    | (false, w) => .done (-22) (d.leave token tid) w
    | (true, w) => .done 0 (d.leave token tid) w
  | some .setMaxThreads =>
    let r := setMaxThreads host w d endpoint argument
    .done r.1 (r.2.1.leave token tid) r.2.2
  | some .setContextMgr =>
    let r := setContextMgr host w d endpoint argument false
    .done r.1 (r.2.1.leave token tid) r.2.2
  | some .setContextMgrExt =>
    let r := setContextMgr host w d endpoint argument true
    .done r.1 (r.2.1.leave token tid) r.2.2
  | some .threadExit => .done 0 ((d.exitThread token tid).leave token tid) w
  | some .writeRead => writeRead host w d endpoint tid argument interruptible interrupted
  | some .getNodeInfoForRef =>
    let r := getNodeInfo host w d endpoint argument
    .done r.1 (d.leave token tid) r.2
  | some .getNodeDebugInfo | some .freeze | some .getFrozenInfo
  | some .enableOnewaySpamDetection | some .getExtendedError =>
    .done (-95) (d.leave token tid) w
  | none => .done (-22) (d.leave token tid) w

/-- `binder_ioctl`. `ownerVm` is the signal owner's address space for an interruptible
call. -/
def ioctl (host : Host ω) (w : ω) (d : Device) (token : Nat) (tid : Int) (request argument : Nat)
    (ownerVm : Option Nat) (interrupted : Bool) : Outcome ω :=
  if tid ≤ 0 then .done (-22) d w
  else if token = 0 then .done (-9) d w
  else
    let reaped := reapClosed host w d
    let d := reaped.2.1
    let w := reaped.2.2
    if reaped.1 ≠ 0 then .done reaped.1 d w
    else
      match (d.endpointFor token).filter fun e => e.opened with
      | none => .done (-9) d w
      | some endpoint =>
        if (ownerVm.map fun vm => decide (vm ≠ endpoint.vm)).getD false then .done (-95) d w
        else
          match d.admitThread endpoint tid with
          | none => .done (-12) d w
          | some d =>
            match d.threadFor token tid with
            | none => .done (-12) d w
            | some thread =>
              if thread.active then .done (-16) d w
              else invoke host w (d.enter token tid) endpoint tid request argument ownerVm.isSome
                interrupted

end Artbox.Binder
