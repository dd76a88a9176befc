import Artbox.Lib.Machine
import Artbox.Lib.Bytes

/-!
# The futex

`core/src/futex.cpp`: one queue of waiters behind a mutex. A call first reads its arguments,
its timeout and the guest's clock (`prepare`), then takes the mutex and runs to its end or to
a wait on its condition variable (`enter`), and a waiting call runs again from there each time
the wait is over (`resume`), whatever the reason. Between these three every other call may
run. How long a wait lasts is the host's business and not modelled.

`Waiter.id` stands for the waiter's address. `System.history` is a history variable, the
latest event first.
-/

namespace Artbox.Futex

open Bytes

/-- `UINT32_MAX`. -/
abbrev uint32Max : Nat := 2 ^ 32 - 1

/-- `INT64_MAX`. -/
abbrev int64Max : Int := 2 ^ 63 - 1

/-- A cast to `int32_t`. -/
def toInt32 (n : Nat) : Int := (BitVec.ofNat 32 n).toInt

/-- A cast to `int64_t`. -/
def toInt64 (n : Nat) : Int := (BitVec.ofNat 64 n).toInt

/-- `artbox_timespec`. -/
structure Timespec where
  seconds : Int
  nanoseconds : Int
deriving DecidableEq, Repr

/-- A registered wait. -/
structure Waiter where
  id : Nat
  address : Nat
  mask : Nat
  privateKey : Bool
  woken : Bool := false
deriving DecidableEq, Repr

/-- What the futex calls of the rest of the system. The pointers to threads are numbers. -/
structure Host (ω : Type) where
  /-- `artbox_vm_access` for reading. -/
  access : ω → (address size : Nat) → Bool × ω
  /-- `artbox_vm_read`: its result, and the bytes if that is zero. -/
  read : ω → (address size : Nat) → (Int × List UInt8) × ω
  /-- `artbox_vm_load_u32`: its result, and the word if that is zero. -/
  loadU32 : ω → (address : Nat) → (Int × Nat) × ω
  /-- `artbox_vm_store_u32`. -/
  storeU32 : ω → (address value : Nat) → Int × ω
  /-- `system.clock`: its result and the time. -/
  clock : ω → (id : Nat) → (Int × Timespec) × ω
  /-- Whether the thread belongs to the futex's address space. -/
  sameVm : ω → (thread : Nat) → Bool
  /-- `artbox_signals_interrupt_number`. -/
  interruptNumber : ω → (thread : Nat) → Nat
  /-- `artbox_signals_interrupt_epoch`. -/
  interruptEpoch : ω → (thread : Nat) → Nat

section Calls

variable {ω : Type} (host : Host ω)

/-! ## Before the mutex -/

/-- `clock_value`: an error or the time. -/
def clockValue (w : ω) (id : Nat) : Except Int Timespec × ω :=
  let r := host.clock w id
  let error := r.1.1
  let value := r.1.2
  if error ≠ 0 then (.error (if error < 0 then error else -5), r.2)
  else if value.seconds < 0 ∨ value.nanoseconds < 0 ∨ 1000000000 ≤ value.nanoseconds then
    (.error (-5), r.2)
  else (.ok value, r.2)

/-- The sum of a duration and the time, at most the last time there is. -/
def addTime (duration now : Timespec) : Timespec :=
  if int64Max - now.seconds < duration.seconds then ⟨int64Max, 999999999⟩
  else
    let seconds := duration.seconds + now.seconds
    let nanoseconds := duration.nanoseconds + now.nanoseconds
    if 1000000000 ≤ nanoseconds then
      if seconds = int64Max then ⟨int64Max, 999999999⟩ else ⟨seconds + 1, nanoseconds - 1000000000⟩
    else ⟨seconds, nanoseconds⟩

/-- `timeout_value`: an error or the deadline. -/
def timeoutValue (w : ω) (pointer : Nat) (relative : Bool) : Except Int Timespec × ω :=
  let r := host.read w pointer 16
  if r.1.1 ≠ 0 then (.error r.1.1, r.2)
  else
    let deadline : Timespec := ⟨toInt64 (field r.1.2 0 8), toInt64 (field r.1.2 8 8)⟩
    if deadline.seconds < 0 ∨ deadline.nanoseconds < 0 ∨ 1000000000 ≤ deadline.nanoseconds then
      (.error (-22), r.2)
    else if relative then
      match clockValue host r.2 1 with
      | (.error e, w) => (.error e, w)
      | (.ok now, w) => (.ok (addTime deadline now), w)
    else (.ok deadline, r.2)

/-- A wait that is about to take the mutex. -/
structure WaitRequest where
  address : Nat
  mask : Nat
  privateKey : Bool
  /-- The value the word must have. -/
  value : Nat
  deadline : Option Timespec
  realtime : Bool
  /-- The thread that may be interrupted, with its epoch when the call began. -/
  interruptible : Option (Nat × Nat)
deriving DecidableEq, Repr

/-- A call that is about to take the mutex. -/
inductive Request
  | wait (r : WaitRequest)
  | wake (address : Nat) (privateKey : Bool) (mask : Nat) (count : Int)
  | requeue (source target wakes moves : Nat)
deriving DecidableEq, Repr

/-- The check of a key. -/
def checkKey (key : Nat) : Int :=
  if key &&& 3 ≠ 0 then -22 else if int64Max - 4 < key then -14 else 0

/-- The arguments of `artbox_futex_call` and `artbox_futex_call_interruptible`. -/
structure Arguments where
  thread : Option Nat
  address : Nat
  operation : Nat
  value : Nat
  timeout : Nat
  address2 : Nat
  bitset : Nat
deriving DecidableEq, Repr

/-- `call` up to the mutex. -/
def prepare (w : ω) (a : Arguments) : Except Int Request × ω :=
  if a.thread.any fun t => !host.sameVm w t then (.error (-22), w)
  else
    let interruptible := (a.thread.filter fun t => host.interruptNumber w t != 0).map fun t =>
      (t, host.interruptEpoch w t)
    let op := a.operation % 2 ^ 32
    let command := op &&& (uint32Max - 384)
    let privateKey := op &&& 128 != 0
    let realtime := op &&& 256 != 0
    if command = 3 then
      if !privateKey || realtime then (.error (-38), w)
      else if toInt32 a.value < 0 ∨ toInt32 a.timeout < 0 then (.error (-22), w)
      else if checkKey a.address ≠ 0 then (.error (checkKey a.address), w)
      else if checkKey a.address2 ≠ 0 then (.error (checkKey a.address2), w)
      else (.ok (.requeue a.address a.address2 (toInt32 a.value).toNat (toInt32 a.timeout).toNat), w)
    else
      let waiting := command = 0 ∨ command = 9
      let timed : Except Int (Option Timespec) × ω :=
        if waiting ∧ a.timeout ≠ 0 then
          match timeoutValue host w a.timeout (command = 0) with
          | (.error e, w) => (.error e, w)
          | (.ok deadline, w) => (.ok (some deadline), w)
        else (.ok none, w)
      match timed with
      | (.error e, w) => (.error e, w)
      | (.ok deadline, w) =>
        if (realtime ∧ command ≠ 9) ∨ (¬ waiting ∧ command ≠ 1 ∧ command ≠ 10) then (.error (-38), w)
        else
          let mask := if command = 0 ∨ command = 1 then uint32Max else a.bitset % 2 ^ 32
          if mask = 0 ∨ a.address &&& 3 ≠ 0 then (.error (-22), w)
          else if int64Max - 4 < a.address then (.error (-14), w)
          else if waiting then
            (.ok (.wait ⟨a.address, mask, privateKey, a.value % 2 ^ 32, deadline, realtime,
              interruptible⟩), w)
          else (.ok (.wake a.address privateKey mask (toInt32 a.value)), w)

end Calls

/-! ## Under the mutex -/

/-- Whether `wake` takes the waiter. -/
def Waiter.matches (address : Nat) (privateKey : Bool) (mask : Nat) (w : Waiter) : Bool :=
  !w.woken && w.address == address && w.privateKey == privateKey && w.mask &&& mask != 0

/-- The loop of `artbox_futex::wake`, `done` waiters being woken. -/
def wakeLoop (address : Nat) (privateKey : Bool) (mask maximum : Nat) :
    (done : Nat) → List Waiter → Nat × List Waiter
  | done, [] => (done, [])
  | done, w :: rest =>
    if w.matches address privateKey mask then
      if done + 1 = maximum then (done + 1, { w with woken := true } :: rest)
      else
        let r := wakeLoop address privateKey mask maximum (done + 1) rest
        (r.1, { w with woken := true } :: r.2)
    else
      let r := wakeLoop address privateKey mask maximum done rest
      (r.1, w :: r.2)

/-- `artbox_futex::wake`. -/
def wake (active : List Waiter) (address : Nat) (privateKey : Bool) (mask : Nat) (count : Int) :
    Nat × List Waiter :=
  wakeLoop address privateKey mask (if 0 < count then count.toNat else 1) 0 active

/-- The loop of a requeue: the waiters woken and moved so far, and the queue. -/
def requeueLoop (source target wakes moves : Nat) :
    (woken moved : Nat) → List Waiter → (Nat × Nat) × List Waiter
  | woken, moved, [] => ((woken, moved), [])
  | woken, moved, w :: rest =>
    if w.woken || !w.privateKey || w.address != source then
      let r := requeueLoop source target wakes moves woken moved rest
      (r.1, w :: r.2)
    else if woken < wakes then
      let r := requeueLoop source target wakes moves (woken + 1) moved rest
      (r.1, { w with woken := true } :: r.2)
    else if moved < moves then
      let r := requeueLoop source target wakes moves woken (moved + 1) rest
      (r.1, { w with address := target } :: r.2)
    else ((woken, moved), w :: rest)

/-- What happened. -/
inductive Event
  /-- A wait found its word `actual` and joined the queue. -/
  | registered (id : Nat) (request : WaitRequest) (actual : Nat)
  /-- A waiter was marked. -/
  | marked (id : Nat)
  /-- A waiter now waits for another address. -/
  | moved (id target : Nat)
  /-- A wake returned. -/
  | woke (request : Request) (result : Nat)
  /-- A requeue returned. -/
  | requeued (request : Request) (woken moved : Nat)
  /-- `artbox_futex_clear_tid` woke waiters. -/
  | cleared (address : Nat) (woken : Nat)
  /-- A registered wait returned. -/
  | returned (id : Nat) (result : Int)
  /-- A call returned without joining the queue or looking at it. -/
  | refused (result : Int)
deriving DecidableEq

/-- A wait on its condition variable. -/
structure Sleeper where
  id : Nat
  request : WaitRequest
deriving DecidableEq, Repr

/-- `artbox_futex` with the world around it and the calls in progress. -/
structure System (ω : Type) where
  limit : Nat
  active : List Waiter := []
  world : ω
  prepared : List Request := []
  sleepers : List Sleeper := []
  nextId : Nat := 0
  history : List Event := []

namespace System

variable {ω : Type} (host : Host ω)

/-- Note an event. -/
def record (s : System ω) (e : Event) : System ω := { s with history := e :: s.history }

/-- The waiters that are marked in `after` and not in `before`. -/
def marks (before after : List Waiter) : List Nat :=
  ((before.zip after).filter fun p => !p.1.woken && p.2.woken).map (·.1.id)

/-- The waiters that have another address in `after`, with that address. -/
def moves (before after : List Waiter) : List (Nat × Nat) :=
  ((before.zip after).filter fun p => p.1.address != p.2.address).map fun p =>
    (p.1.id, p.2.address)

/-- The queue after a call that may have marked and moved waiters. -/
def requeueTo (s : System ω) (active : List Waiter) : System ω :=
  { s with
    active
    history := (marks s.active active).map .marked ++
      ((moves s.active active).map fun m => .moved m.1 m.2) ++ s.history }

/-- One pass of the loop of a wait: its result, or nothing if it waits on. -/
def check (w : ω) (woken : Bool) (r : WaitRequest) : Option Int × ω :=
  if woken then (some 0, w)
  else if r.interruptible.any fun t => host.interruptEpoch w t.1 != t.2 then (some (-4), w)
  else
    match r.deadline with
    | none => (none, w)
    | some deadline =>
      match clockValue host w (if r.realtime then 0 else 1) with
      | (.error e, w) => (some e, w)
      | (.ok now, w) =>
        if deadline.seconds < now.seconds ∨
            (now.seconds = deadline.seconds ∧ deadline.nanoseconds ≤ now.nanoseconds) then
          (some (-110), w)
        else (none, w)

/-- The waiter leaves the queue and its call returns. -/
def leave (s : System ω) (id : Nat) (result : Int) : System ω :=
  { s with active := s.active.eraseP fun w => w.id == id }.record (.returned id result)

/-- The loop of the wait of waiter `id` up to its end or the next wait. -/
def loop (s : System ω) (id : Nat) (r : WaitRequest) : System ω :=
  let woken := (s.active.find? fun w => w.id == id).any (·.woken)
  match check host s.world woken r with
  | (some result, w) => { s with world := w }.leave id result
  | (none, w) => { s with world := w, sleepers := (⟨id, r⟩ : Sleeper) :: s.sleepers }

/-- A wait under the mutex. -/
def wait (s : System ω) (r : WaitRequest) : System ω :=
  let loaded := host.loadU32 s.world r.address
  let s := { s with world := loaded.2 }
  if loaded.1.1 ≠ 0 then s.record (.refused loaded.1.1)
  else if loaded.1.2 ≠ r.value then s.record (.refused (-11))
  else if s.active.length = s.limit then s.record (.refused (-12))
  else
    let s' := { s with
      active := s.active ++ [(⟨s.nextId, r.address, r.mask, r.privateKey, false⟩ : Waiter)]
      nextId := s.nextId + 1 }
    loop host (s'.record (.registered s.nextId r loaded.1.2)) s.nextId r

/-- A call that has the mutex. -/
def enter (s : System ω) : Request → System ω
  | .wait r => wait host s r
  | .wake address privateKey mask count =>
    let access := if privateKey then (true, s.world) else host.access s.world address 4
    let s := { s with world := access.2 }
    if !access.1 then s.record (.refused (-14))
    else
      let r := Futex.wake s.active address privateKey mask count
      (s.requeueTo r.2).record (.woke (.wake address privateKey mask count) r.1)
  | .requeue source target wakes moves =>
    let r := requeueLoop source target wakes moves 0 0 s.active
    (s.requeueTo r.2).record (.requeued (.requeue source target wakes moves) r.1.1 r.1.2)

/-- `artbox_futex_clear_tid`. -/
def clearTid (s : System ω) (address : Nat) : System ω :=
  if address = 0 then s
  else
    let stored := host.storeU32 s.world address 0
    let s := { s with world := stored.2 }
    if stored.1 ≠ 0 then s
    else
      let r := Futex.wake s.active address false uint32Max 1
      (s.requeueTo r.2).record (.cleared address r.1)

/-- `artbox_futex_waiters`. -/
def waiters (s : System ω) (address : Nat) (privateKey : Bool) : Nat :=
  s.active.countP fun w => !w.woken && w.address == address && w.privateKey == privateKey

/-- A call begins. -/
def begin (s : System ω) (a : Arguments) : System ω :=
  match prepare host s.world a with
  | (.error e, w) => { s with world := w }.record (.refused e)
  | (.ok r, w) => { s with world := w, prepared := r :: s.prepared }

/-- The steps of the calls. -/
inductive Action
  | begin (a : Arguments)
  | enter (i : Nat)
  | resume (i : Nat)
  | clearTid (address : Nat)
deriving DecidableEq

/-- One step of one call. -/
def perform (s : System ω) : Action → System ω
  | .begin a => begin host s a
  | .enter i =>
    match s.prepared[i]? with
    | none => s
    | some r => enter host { s with prepared := s.prepared.eraseIdx i } r
  | .resume i =>
    match s.sleepers[i]? with
    | none => s
    | some p => loop host { s with sleepers := s.sleepers.eraseIdx i } p.id p.request
  | .clearTid address => clearTid host s address

/-- The runs of a futex made by `artbox_futex_create` in a world that changes by itself too. -/
def machine : Machine (System ω) where
  init s := ∃ limit w, 0 < limit ∧ limit ≤ 65536 ∧
    s = { limit := limit, world := w }
  step s s' := (∃ a, s' = perform host s a) ∨ ∃ w, s' = { s with world := w }

end System

end Artbox.Futex
