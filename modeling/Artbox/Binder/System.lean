import Artbox.Binder.Ioctl
import Artbox.Lib.Machine

/-!
# The device as a system

The entry points of `core/src/binder_device.cpp` other than `ioctl`, and the runs
of the device: a `System` is a device, the world around it and the calls asleep in
a blocking read. It moves when a guest calls an entry point, when a sleeping call
wakes, and when the world changes under it. Calls of all endpoints and threads
interleave freely; each runs under the device mutex.

`artbox_binder_device_destroy` ends a system and has no state after it.
-/

namespace Artbox.Binder

open Slots

variable {ω : Type}

/-! ## Entry points -/

/-- `artbox_binder_device_set_memory`, given a complete set of operations. -/
def setMemory (d : Device) (maximum page : Nat) : Int × Device :=
  if page < 4096 ∨ 65536 < page ∨ page &&& (page - 1) ≠ 0 ∨ maximum = 0 ∨
      4 * 1024 * 1024 < maximum ∨ maximum % page ≠ 0 then (-22, d)
  else if d.receiveLimit ≠ 0 then (-114, d)
  else if d.nextToken ≠ 1 then (-16, d)
  else (0, { d with receiveLimit := maximum, pageSize := page })

/-- What `artbox_binder_device_open` writes into a free slot. -/
def Endpoint.occupy (token vm : Nat) (pid : Int) (uid : Nat) (e : Endpoint) : Endpoint :=
  { e with
    token, vm, pid, uid, opened := true, mappedOnce := false, nonblocking := false
    maxThreads := 0, threads := [] }

/-- The slot search of `artbox_binder_device_open`. -/
def Device.openEndpoint (d : Device) (vm : Nat) (pid : Int) (uid : Nat) : Option Device :=
  if d.nextToken = 0 then none
  else
    (modifyFirst (fun e => e.token == 0) (Endpoint.occupy d.nextToken vm pid uid) d.endpoints).map
      fun endpoints => { d with endpoints, nextToken := succ64 d.nextToken }

/-- `artbox_binder_device_open`; the new token is the device's `nextToken` before. -/
def openDevice (host : Host ω) (w : ω) (d : Device) (vm : Nat) (pid : Int) (uid : Nat) :
    Int × Device × ω :=
  if vm = 0 ∨ pid ≤ 0 then (-22, d, w)
  else
    let reaped := reapClosed host w d
    if reaped.1 ≠ 0 then reaped
    else
      match reaped.2.1.openEndpoint vm pid uid with
      | none => (-24, reaped.2)
      | some d => (0, d, reaped.2.2)

/-- `artbox_binder_device_close`. -/
def close (host : Host ω) (w : ω) (d : Device) (token : Nat) : Int × Device × ω :=
  match (d.endpointFor token).filter fun e => e.opened with
  | none => (-9, d, w)
  | some endpoint =>
    if endpoint.activeCalls ≠ 0 then (-16, d, w)
    else reapClosed host w (d.updateEndpoint token fun e => { e with opened := false, vm := 0 })

/-- `artbox_binder_device_set_nonblocking`. -/
def setNonblocking (d : Device) (token : Nat) (enabled : Bool) : Int × Device :=
  match (d.endpointFor token).filter fun e => e.opened with
  | none => (-9, d)
  | some _ => (0, d.updateEndpoint token fun e => { e with nonblocking := enabled })

/-- The argument checks of `artbox_binder_device_mmap`. -/
def mmapCheck (d : Device) (endpoint : Endpoint) (page length prot flags offset : Nat) : Int :=
  if length = 0 ∨ uint64Max - (page - 1) < length ∨ offset % page ≠ 0 then -22
  else if prot &&& 6 ≠ 0 then -1
  else if prot > 7 then -22
  else if flags &&& 0xf ≠ 1 ∧ flags &&& 0xf ≠ 2 then -22
  else if offset ≠ 0 ∨ flags ^^^ (flags &&& 0x4003) ≠ 0 then -95
  else if endpoint.mappedOnce then -16
  else if d.receiveLimit = 0 ∨ d.pageSize ≠ page then -95
  else if d.receiveLimit < (length + page - 1) / page * page then -12
  else 0

/-- `artbox_binder_device_mmap`. -/
def mmap (host : Host ω) (w : ω) (d : Device) (token address length prot flags offset : Nat) :
    Int × Device × ω :=
  let reaped := reapClosed host w d
  let d := reaped.2.1
  let w := reaped.2.2
  if reaped.1 ≠ 0 then reaped
  else
    match (d.endpointFor token).filter fun e => e.opened with
    | none => (-9, d, w)
    | some endpoint =>
      let page := host.vmPageSize w endpoint.vm
      let checked := mmapCheck d endpoint page length prot flags offset
      if checked ≠ 0 then (checked, d, w)
      else
        let size := (length + page - 1) / page * page
        match host.mapReceive w endpoint.vm address size prot with
        | (.error r, w) => (r, d, w)
        | (.ok (owner, watch, writable, mapped), w) =>
          (mapped, d.updateEndpoint token fun e =>
            { e with
              mappedOnce := true, receiveOwner := owner, receiveWatch := watch
              receiveWritable := writable, receiveBase := mapped, receiveSize := size }, w)

/-- `artbox_binder_device_events`: `1` is readable, `8` a failed admission. -/
def events (host : Host ω) (w : ω) (d : Device) (token : Nat) (tid : Int) : Int × Device × ω :=
  if tid ≤ 0 then (-22, d, w)
  else
    let reaped := reapClosed host w d
    let d := reaped.2.1
    let w := reaped.2.2
    if reaped.1 ≠ 0 then reaped
    else
      match d.endpointFor token with
      | none => (-9, d, w)
      | some endpoint =>
        if d.receiveLimit = 0 then (-95, d, w)
        else
          match d.admitThread endpoint tid with
          | none => (8, d, w)
          | some d =>
            match d.threadFor token tid with
            | none => (8, d, w)
            | some thread =>
              if thread.active then (-16, d, w)
              else (if d.readReady token thread true then 1 else 0, d, w)

/-! ## Runs -/

/-- A device in its surroundings. -/
structure System (ω : Type) where
  device : Device
  world : ω
  sleepers : List Sleeper := []

/-- The calls of the device, `wake` being the return of a sleeping call's `wait_for`. -/
inductive Call
  | setMemory (maximum page : Nat)
  | openDevice (vm : Nat) (pid : Int) (uid : Nat)
  | close (token : Nat)
  | setNonblocking (token : Nat) (enabled : Bool)
  | mmap (token address length prot flags offset : Nat)
  | events (token : Nat) (tid : Int)
  | ioctl (token : Nat) (tid : Int) (request argument : Nat) (ownerVm : Option Nat)
      (interrupted : Bool)
  | wake (sleeper : Nat) (interrupted : Bool)

namespace System

/-- Keep the outcome of a call that ran beside the given sleepers. -/
def settle (sleepers : List Sleeper) : Outcome ω → Option Int × System ω
  | .done r d w => (some r, ⟨d, w, sleepers⟩)
  | .sleep s d w => (none, ⟨d, w, s :: sleepers⟩)

/-- Keep the result of a call that cannot sleep. -/
def keep (sleepers : List Sleeper) (r : Int × Device × ω) : Option Int × System ω :=
  settle sleepers (.done r.1 r.2.1 r.2.2)

/-- One call, with its result unless it sleeps. -/
def perform (host : Host ω) (s : System ω) : Call → Option Int × System ω
  | .setMemory maximum page =>
    let r := Binder.setMemory s.device maximum page
    keep s.sleepers (r.1, r.2, s.world)
  | .openDevice vm pid uid => keep s.sleepers (Binder.openDevice host s.world s.device vm pid uid)
  | .close token => keep s.sleepers (Binder.close host s.world s.device token)
  | .setNonblocking token enabled =>
    let r := Binder.setNonblocking s.device token enabled
    keep s.sleepers (r.1, r.2, s.world)
  | .mmap token address length prot flags offset =>
    keep s.sleepers (Binder.mmap host s.world s.device token address length prot flags offset)
  | .events token tid => keep s.sleepers (Binder.events host s.world s.device token tid)
  | .ioctl token tid request argument ownerVm interrupted =>
    settle s.sleepers
      (Binder.ioctl host s.world s.device token tid request argument ownerVm interrupted)
  | .wake i interrupted =>
    match s.sleepers[i]? with
    | none => (none, s)
    | some sleeper =>
      settle (s.sleepers.eraseIdx i) (Binder.wake host sleeper interrupted s.device s.world)

/-- The system right after `artbox_binder_device_create`. -/
def start (endpoints threads : Nat) (w : ω) : Option (System ω) :=
  (create endpoints threads).map fun d => ⟨d, w, []⟩

/-- A sequence of calls. -/
def run (host : Host ω) (s : System ω) (calls : List Call) : System ω :=
  calls.foldl (fun s call => (s.perform host call).2) s

/-- The runs of a system on a host. -/
def machine (host : Host ω) : Machine (System ω) where
  init s := ∃ endpoints threads w, start endpoints threads w = some s
  step s s' := (∃ call, s' = (s.perform host call).2) ∨ ∃ w, s' = { s with world := w }

end System

/-! ## Replaying runs -/

/-- Guest memory as a table: the bytes an address space has at an address. -/
abbrev Script := List (Nat × Nat × List UInt8)

/-- A host whose guests hold a fixed script: copies out succeed, receive mappings lie
where they were asked for and stay. -/
def scriptHost : Host Script where
  read w vm address size :=
    let bytes := ((w.find? fun r => r.1 == vm && r.2.1 == address).map (·.2.2)).getD []
    if h : (bytes.take size).length = size then (some ⟨bytes.take size, h⟩, w) else (none, w)
  write w _ _ _ := (true, w)
  watchState w _ := (3, w)
  allocate w _ := (true, w)
  destroy w _ := (0, w)
  vmPageSize _ _ := 4096
  mapReceive w vm address _ _ := (.ok (vm, vm, vm, address), w)

/-- The bytes of a packet command. -/
def packetBytes (c : BC) (target flags dataSize offsetsSize dataBuffer offsetsBuffer : Nat) :
    List UInt8 :=
  Bytes.writeLE 4 c.word ++ Bytes.writeLE 8 target ++ Bytes.writeLE 8 0 ++ Bytes.writeLE 4 0 ++
    Bytes.writeLE 4 flags ++ Bytes.writeLE 4 0 ++ Bytes.writeLE 4 0 ++ Bytes.writeLE 8 dataSize ++
    Bytes.writeLE 8 offsetsSize ++ Bytes.writeLE 8 dataBuffer ++ Bytes.writeLE 8 offsetsBuffer

/-- The bytes of a flat object. -/
def objectBytes (type : ObjectType) (pointer cookie : Nat) : List UInt8 :=
  Bytes.writeLE 4 type.word ++ Bytes.writeLE 4 0 ++ Bytes.writeLE 8 pointer ++
    Bytes.writeLE 8 cookie

/-- A guest's `BINDER_WRITE_READ` on the header at `argument`. -/
def Call.writeRead (token : Nat) (tid : Int) (argument : Nat) : Call :=
  .ioctl token tid Request.writeRead.word argument none false

/-- Two processes with mapped endpoints, the first the context manager: token `1` is the
manager with its thread `1`, token `2` the client. -/
def pairCalls : List Call :=
  [.setMemory 65536 4096, .openDevice 1 10 0, .openDevice 2 20 0, .mmap 1 65536 4096 1 2 0,
    .mmap 2 65536 4096 1 2 0, .ioctl 1 1 Request.setContextMgr.word 0 none false]

/-- The device after calls of two such processes that hold the script. -/
def replay (script : Script) (calls : List Call) : Device :=
  (System.run scriptHost ⟨{ endpoints := List.replicate 2 {}, threadLimit := 4 }, script, []⟩
    (pairCalls ++ calls)).device

end Artbox.Binder
