import Artbox.Lib.Machine
import Artbox.Lib.Bytes

/-!
# Descriptors that can be waited for

`core/src/vfs.cpp`: the descriptor table with its eventfd, timerfd, epoll and Binder opens, and the
`PollHub` a blocking call registers a waiter in. The mutex of the table is held through each pass of
a loop; epoll's loops over its interests ask the Binder device, which has a mutex of its own, so
each interest is a step, in which the table stays locked (`Phase.locks`). Attaching a waiter is three steps without that mutex.

The objects behind shared pointers are named by their place in a list and never removed; an object
is alive while a descriptor or a call owns it, and that is when a weak pointer to it can be locked.
`System.history` is a history variable, the latest event first.
-/

namespace Artbox.Vfs

open Bytes

/-- `UINT64_MAX` -/
def uint64Max : BitVec 64 := 0xffffffffffffffff

/-- `INT64_MAX` -/
def int64Max : Int := 2 ^ 63 - 1

/-! ## Objects -/

/-- `EventfdOpen` -/
structure Eventfd where
  vm : Nat
  count : BitVec 64
  flags : BitVec 32
deriving DecidableEq, Repr

/-- `TimerfdOpen` -/
structure Timerfd where
  vm : Nat
  flags : BitVec 32
  interval : Int := 0
  deadline : Int := 0
  ticks : Nat := 0
deriving DecidableEq, Repr

/-- What an interest is in: a Binder token, or a weak pointer. -/
structure Target where
  token : Nat := 0
  eventfd : Option Nat := none
  timerfd : Option Nat := none
deriving DecidableEq, Repr

/-- `EpollInterest` -/
structure Interest where
  fd : Int
  events : BitVec 32
  data : BitVec 64
  target : Target
deriving DecidableEq, Repr

/-- `EpollOpen` -/
structure Epoll where
  vm : Nat
  cursor : Nat := 0
  interests : List Interest := []
deriving DecidableEq, Repr

/-- `BinderOpen` -/
structure BinderOpen where
  vm : Nat
  token : Nat
deriving DecidableEq, Repr

/-- A descriptor; kind zero is a free slot. -/
structure Descriptor where
  kind : Nat := 0
  binder : Option Nat := none
  epoll : Option Nat := none
  eventfd : Option Nat := none
  timerfd : Option Nat := none
deriving DecidableEq, Repr

/-- `PollWaiter` of a call, with the wake object it owns. -/
structure Waiter where
  call : Nat
  /-- The wake object is published. -/
  owner : Bool := false
  error : Int := 0
  /-- The wake object has been signalled and nobody has seen it. -/
  latch : Bool := false
deriving DecidableEq, Repr

/-- An endpoint of the Binder device as epoll sees it. -/
structure Endpoint where
  token : Nat
  opened : Bool := true
deriving DecidableEq, Repr

/-! ## Calls -/

/-- The thread that calls. -/
structure Caller where
  vm : Nat
  tid : Int
deriving DecidableEq, Repr

/-- A call in progress, with what it owns. -/
inductive Op
  /-- `eventfd_transfer` -/
  | transfer (event : Nat) (writing : Bool) (value : BitVec 64)
  /-- `timerfd_read` -/
  | read (timer address : Nat)
  /-- timerfd_settime and timerfd_gettime after their change. -/
  | copy (timer : Nat)
  /-- epoll_pwait -/
  | pwait (ep maximum : Nat) (timeout deadline : Int)
  /-- epoll_ctl -/
  | control (ep : Nat) (operation : Int) (interest : Interest)
  /-- A Binder ioctl. -/
  | ioctl (binder : Nat)
deriving DecidableEq, Repr

def Op.eventfd : Op → Option Nat
  | transfer event _ _ => some event
  | control _ _ interest => interest.target.eventfd
  | _ => none

def Op.timerfd : Op → Option Nat
  | read timer _ | copy timer => some timer
  | control _ _ interest => interest.target.timerfd
  | _ => none

def Op.binder : Op → Option Nat
  | ioctl binder => some binder
  | _ => none

/-- Where a call is. -/
inductive Phase
  /-- About to take the mutex and look. -/
  | checking
  /-- In `epoll_scan`. -/
  | scanning (index remaining copied : Nat)
  /-- In the loop of epoll_ctl that reaps dead interests. -/
  | reaping (index : Nat)
  /-- It found nothing and released the mutex. -/
  | checked
  /-- Its slot is in the hub, without an owner. -/
  | registered
  /-- It has a wake object nobody knows. -/
  | created
  /-- In `wake.wait`. -/
  | waiting
  /-- It is done but for what it copies out. -/
  | copying (value : BitVec 64)
deriving DecidableEq, Repr

/-- The call holds the mutex of the table. -/
def Phase.locks : Phase → Bool
  | scanning _ _ _ | reaping _ => true
  | _ => false

structure Call where
  id : Nat
  caller : Caller
  op : Op
  phase : Phase
deriving DecidableEq, Repr

/-- What happened. -/
inductive Event
  /-- An eventfd was created. -/
  | opened (event : Nat) (initial : BitVec 32)
  /-- A value was added to an eventfd. -/
  | wrote (event : Nat) (value : BitVec 64)
  /-- A value was taken from an eventfd. -/
  | consumed (event : Nat) (value : BitVec 64)
  /-- A check began. -/
  | checking (call : Nat)
  /-- A check found nothing. -/
  | checked (call : Nat)
  /-- `poll_notify` was called. -/
  | changed
  /-- The wake object of a call was signalled. -/
  | signalled (call : Nat)
  /-- The wake object of a call was published. -/
  | published (call : Nat)
  /-- An interest was added or modified. -/
  | set (ep : Nat) (interest : Interest)
  /-- An event was copied out for an interest. -/
  | reported (ep : Nat) (interest : Interest) (events : BitVec 32)
  | returned (call : Nat) (result : Int)
deriving DecidableEq

/-- The table, configured by `artbox_vfs_set_epoll`, with the calls in progress. -/
structure System where
  /-- The Binder device is attached. -/
  attached : Bool
  /-- `PollHub.interests` -/
  interests : Nat
  /-- `PollHub.limit` -/
  limit : Nat
  descriptors : List Descriptor
  eventfds : List Eventfd := []
  timerfds : List Timerfd := []
  epolls : List Epoll := []
  binders : List BinderOpen := []
  waiters : List Waiter := []
  nextToken : Nat := 1
  endpoints : List Endpoint := []
  calls : List Call := []
  nextId : Nat := 0
  history : List Event := []

/-- What `artbox_binder_device_events` finds for an endpoint that is there. -/
inductive Readiness
  | unsupported | refused | busy | readable | quiet
deriving DecidableEq, Repr

def Readiness.value : Readiness → Int
  | unsupported => -95
  | refused => 8
  | busy => -16
  | readable => 1
  | quiet => 0

/-- What the rest of the system answers during a step. -/
structure Env where
  /-- `artbox_vm_read`: its result and the bytes. -/
  read : Int × List UInt8 := (0, [])
  /-- `artbox_vm_write`, once for each part that is copied. -/
  write : Int := 0
  writeRest : Int := 0
  pageSize : Nat := 4096
  /-- `system.clock`, if there is one: its result and the time. -/
  clock : Option (Int × Int × Int) := some (0, 0, 0)
  /-- The call may be interrupted and the epoch has changed. -/
  interrupted : Bool := false
  /-- `wake.create`: its result, and whether there is an owner. -/
  create : Int × Bool := (0, true)
  /-- `wake.wait` -/
  wait : Int := 0
  /-- `wake.signal` by call. -/
  signal : Nat → Int := fun _ => 0
  /-- `reap_closed` in `artbox_binder_device_events`: zero or a negative errno. -/
  reap : Nat := 0
  ready : Nat → Readiness := fun _ => .quiet
  /-- `artbox_binder_device_open` and `artbox_binder_device_set_nonblocking`: zero or a negative errno. -/
  openError : Nat := 0
  /-- A mapping keeps a closed endpoint. -/
  mapped : Bool := false
  /-- `files.close` -/
  close : Int := 0
  /-- What read and write of a file, a device or a Binder open return. -/
  file : Int := 0

namespace System

/-! ## Owners -/

/-- Something owns the eventfd. -/
def ownsEventfd (s : System) (e : Nat) : Bool :=
  (s.descriptors.any fun d => d.eventfd == some e) || s.calls.any fun c => c.op.eventfd == some e

def ownsTimerfd (s : System) (t : Nat) : Bool :=
  (s.descriptors.any fun d => d.timerfd == some t) || s.calls.any fun c => c.op.timerfd == some t

def ownsBinder (s : System) (b : Nat) : Bool :=
  (s.descriptors.any fun d => d.binder == some b) || s.calls.any fun c => c.op.binder == some b

/-- `std::weak_ptr::lock` -/
def lockEventfd (s : System) (w : Option Nat) : Option Nat := w.filter s.ownsEventfd

def lockTimerfd (s : System) (w : Option Nat) : Option Nat := w.filter s.ownsTimerfd

/-- The mutex of the table is free. -/
def unlocked (s : System) : Bool := s.calls.all fun c => !c.phase.locks

def record (s : System) (l : List Event) : System := { s with history := l ++ s.history }

/-! ## The hub -/

/-- What a signal makes of a waiter. -/
def Waiter.notify (signal : Nat → Int) (w : Waiter) : Waiter :=
  if w.owner then
    let error := signal w.call
    { w with
      latch := true
      error := if error ≠ 0 ∧ w.error = 0 then (if error < 0 then error else -5) else w.error }
  else w

/-- `poll_notify` -/
def pollNotify (s : System) (env : Env) : System :=
  { s with
    waiters := s.waiters.map (Waiter.notify env.signal)
    history := ((s.waiters.filter (·.owner)).map fun w => Event.signalled w.call) ++
      .changed :: s.history }

/-! ## The Binder device -/

/-- `artbox_binder_device_close` when the last owner of an open is gone. -/
def dropBinder (s : System) (b : Option Nat) (env : Env) : System :=
  match b with
  | none => s
  | some b =>
    if s.ownsBinder b then s
    else
      match s.binders[b]? with
      | none => s
      | some binder =>
        let closed := s.endpoints.map fun e =>
          if e.token = binder.token then { e with opened := false } else e
        let s := { s with endpoints := closed }.pollNotify env
        if env.mapped then s
        else
          let left := s.endpoints.filter fun e => e.token != binder.token
          { s with endpoints := left }.pollNotify env

/-! ## Calls begin and end -/

/-- A call that returns at once. -/
def reply (s : System) (result : Int) : System :=
  { s with nextId := s.nextId + 1, history := .returned s.nextId result :: s.history }

def start (s : System) (caller : Caller) (op : Op) (phase : Phase) : System :=
  { s with nextId := s.nextId + 1, calls := s.calls ++ [⟨s.nextId, caller, op, phase⟩] }

def setPhase (s : System) (id : Nat) (phase : Phase) : System :=
  { s with calls := s.calls.map fun c => if c.id = id then { c with phase } else c }

/-- The end of a call; its registration and what it owns are dropped. -/
def finish (s : System) (call : Call) (result : Int) (env : Env) : System :=
  ({ s with
    calls := s.calls.filter fun c => c.id != call.id
    waiters := s.waiters.filter fun w => w.call != call.id
    history := .returned call.id result :: s.history }).dropBinder call.op.binder env

/-! ## Descriptors -/

/-- `get` -/
def get (s : System) (fd : Int) : Option Descriptor :=
  if fd < 3 then none
  else
    match s.descriptors[(fd - 3).toNat]? with
    | none => none
    | some d => if d.kind = 0 then none else some d

/-- Put a descriptor into the first free slot. -/
def install (s : System) (d : Descriptor) : System :=
  match s.descriptors.findIdx? fun d => d.kind == 0 with
  | none => s.reply (-24)
  | some slot => ({ s with descriptors := s.descriptors.set slot d }).reply (slot + 3)

/-- eventfd2 -/
def eventfd2 (s : System) (caller : Caller) (initial flags : BitVec 32) : System :=
  if flags &&& ~~~0x80801 ≠ 0 then s.reply (-22)
  else if (s.descriptors.any fun d => d.kind == 0) = false then s.reply (-24)
  else
    let event : Eventfd := ⟨caller.vm, initial.setWidth 64, flags⟩
    ({ s with eventfds := s.eventfds ++ [event] }.record [.opened s.eventfds.length initial]).install
      { kind := 11, eventfd := some s.eventfds.length }

/-- timerfd_create -/
def timerfdCreate (s : System) (caller : Caller) (clock flags : BitVec 32) : System :=
  if flags &&& ~~~0x80800 ≠ 0 then s.reply (-22)
  else if clock ≠ 1 then
    s.reply (if clock = 0 ∨ clock = 7 ∨ clock = 8 ∨ clock = 9 then -95 else -22)
  else if (s.descriptors.any fun d => d.kind == 0) = false then s.reply (-24)
  else
    let timer : Timerfd := { vm := caller.vm, flags }
    { s with timerfds := s.timerfds ++ [timer] }.install
      { kind := 12, timerfd := some s.timerfds.length }

/-- epoll_create1 -/
def epollCreate (s : System) (caller : Caller) (flags : BitVec 32) : System :=
  if caller.tid ≤ 0 then s.reply (-22)
  else if flags &&& ~~~0x80000 ≠ 0 then s.reply (-22)
  else if (s.descriptors.any fun d => d.kind == 0) = false then s.reply (-24)
  else
    let ep : Epoll := { vm := caller.vm }
    { s with epolls := s.epolls ++ [ep] }.install { kind := 10, epoll := some s.epolls.length }

/-- openat of /dev/binder. -/
def openBinder (s : System) (caller : Caller) (env : Env) : System :=
  if s.attached = false then s.reply (-2)
  else if (s.descriptors.any fun d => d.kind == 0) = false then s.reply (-24)
  else if env.openError ≠ 0 then s.reply (-env.openError)
  else
    let endpoint : Endpoint := { token := s.nextToken }
    let binder : BinderOpen := ⟨caller.vm, s.nextToken⟩
    { s with
      nextToken := s.nextToken + 1
      endpoints := s.endpoints ++ [endpoint]
      binders := s.binders ++ [binder] }.install { kind := 9, binder := some s.binders.length }

/-- close -/
def close (s : System) (fd : Int) (env : Env) : System :=
  match s.get fd with
  | none => s.reply (-9)
  | some d =>
    let s := { s with descriptors := s.descriptors.set (fd - 3).toNat {} }
    let s := s.dropBinder d.binder env
    (if d.eventfd.isSome ∨ d.timerfd.isSome then s.pollNotify env else s).reply
      (if d.kind = 5 then env.close else 0)

/-! ## Timers -/

/-- `monotonic_ns` -/
def monotonicNs (env : Env) : Except Int Int :=
  match env.clock with
  | none => .error (-95)
  | some (error, seconds, nanoseconds) =>
    if error ≠ 0 then .error error
    else if seconds < 0 ∨ nanoseconds < 0 ∨ 1000000000 ≤ nanoseconds ∨
        (int64Max - nanoseconds) / 1000000000 < seconds then .error (-75)
    else .ok (seconds * 1000000000 + nanoseconds)

/-- `timerfd_refresh` -/
def timerfdRefresh (timer : Timerfd) (now : Int) : Timerfd :=
  if timer.deadline = 0 ∨ now < timer.deadline then timer
  else
    let count : Nat :=
      if timer.interval ≠ 0 then 1 + ((now - timer.deadline) / timer.interval).toNat else 1
    { timer with
      ticks := if uint64Max.toNat - timer.ticks < count then uint64Max.toNat else timer.ticks + count
      deadline :=
        if timer.interval = 0 ∨ now = int64Max then 0
        else if ((int64Max - timer.deadline) / timer.interval).toNat < count then int64Max
        else timer.deadline + count * timer.interval }

/-- `timerfd_events`: the result and the timer. -/
def timerfdEvents (timer : Timerfd) (caller : Caller) (env : Env) : Int × Timerfd :=
  if timer.vm ≠ caller.vm then (-95, timer)
  else
    match monotonicNs env with
    | .error error => (error, timer)
    | .ok now =>
      let timer := timerfdRefresh timer now
      (if timer.ticks ≠ 0 then 1 else 0, timer)

/-- `timerfd_duration`: none if it is invalid. -/
def timerfdDuration (bytes : List UInt8) (offset : Nat) : Option Int :=
  let seconds := (BitVec.ofNat 64 (field bytes offset 8)).toInt
  let nanos := (BitVec.ofNat 64 (field bytes (offset + 8) 8)).toInt
  if seconds < 0 ∨ nanos < 0 ∨ 1000000000 ≤ nanos then none
  else if (int64Max - nanos) / 1000000000 < seconds then some int64Max
  else some (seconds * 1000000000 + nanos)

def setTimerfd (s : System) (t : Nat) (timer : Timerfd) : System :=
  { s with timerfds := s.timerfds.set t timer }

/-- What timerfd_settime is asked for: the interval and the value. -/
def timerfdNew (flags : BitVec 32) (env : Env) : Except Int (Int × Int) :=
  if env.read.1 ≠ 0 then .error env.read.1
  else
    match timerfdDuration env.read.2 0, timerfdDuration env.read.2 16 with
    | some interval, some value => if flags &&& ~~~3 ≠ 0 then .error (-22) else .ok (interval, value)
    | _, _ => .error (-22)

/-- The timer a descriptor names, brought up to date, with the time. -/
def timerfdNow (s : System) (caller : Caller) (fd : Int) (env : Env) : Except Int (Nat × Timerfd × Int) :=
  match s.get fd with
  | none => .error (-9)
  | some d =>
    match d.timerfd with
    | none => .error (-22)
    | some t =>
      match s.timerfds[t]? with
      | none => .error (-22)
      | some timer =>
        if timer.vm ≠ caller.vm then .error (-95)
        else
          match monotonicNs env with
          | .error error => .error error
          | .ok now => .ok (t, timerfdRefresh timer now, now)

/-- timerfd_gettime -/
def timerfdGettime (s : System) (caller : Caller) (fd : Int) (env : Env) : System :=
  match s.timerfdNow caller fd env with
  | .error error => s.reply error
  | .ok (t, timer, _) => (s.setTimerfd t timer).start caller (.copy t) (.copying 0)

/-- timerfd_settime; `out` says whether the old value is copied out. -/
def timerfdSettime (s : System) (caller : Caller) (fd : Int) (flags : BitVec 32) (out : Bool)
    (env : Env) : System :=
  match timerfdNew flags env with
  | .error error => s.reply error
  | .ok (interval, value) =>
    match s.timerfdNow caller fd env with
    | .error error => s.reply error
    | .ok (t, timer, now) =>
      let deadline :=
        if value = 0 ∨ flags &&& 1 ≠ 0 then value
        else if int64Max - now < value then int64Max else now + value
      let s := (s.setTimerfd t { timer with interval, deadline, ticks := 0 }).pollNotify env
      if out then s.start caller (.copy t) (.copying 0) else s.reply 0

/-! ## Transfers -/

/-- `eventfd_events` -/
def eventfdEvents (event : Eventfd) : Nat :=
  (if event.count ≠ 0 then 1 else 0) ||| (if event.count < uint64Max - 1 then 4 else 0)

/-- What a pass of the loop of `eventfd_transfer` comes to. -/
inductive Attempt
  | done (event : Eventfd) (value : BitVec 64)
  | again
  | block
deriving DecidableEq, Repr

/-- A pass of the loop of `eventfd_transfer`. -/
def attempt (event : Eventfd) (writing : Bool) (value : BitVec 64) : Attempt :=
  if writing then
    if value < uint64Max - event.count then .done { event with count := event.count + value } value
    else if event.flags &&& 0x800 ≠ 0 then .again
    else .block
  else if event.count ≠ 0 then
    let value := if event.flags &&& 1 ≠ 0 then 1 else event.count
    .done { event with count := event.count - value } value
  else if event.flags &&& 0x800 ≠ 0 then .again
  else .block

/-- `eventfd_transfer` up to its loop. -/
def eventfdTransfer (s : System) (caller : Caller) (e : Nat) (address count : Nat) (writing : Bool)
    (env : Env) : System :=
  match s.eventfds[e]? with
  | none => s.reply (-9)
  | some event =>
    if event.vm ≠ caller.vm then s.reply (-95)
    else if int64Max < address ∨ int64Max - address < count then s.reply (-14)
    else if count < 8 ∨ (writing = true ∧ count ≠ 8) then s.reply (-22)
    else if writing = false then s.start caller (.transfer e false 0) .checking
    else if env.read.1 ≠ 0 then s.reply env.read.1
    else
      let value := BitVec.ofNat 64 (field env.read.2 0 8)
      if value = uint64Max then s.reply (-22) else s.start caller (.transfer e true value) .checking

/-- `timerfd_read` up to its loop. -/
def timerfdRead (s : System) (caller : Caller) (t : Nat) (address count : Nat) : System :=
  match s.timerfds[t]? with
  | none => s.reply (-9)
  | some timer =>
    if timer.vm ≠ caller.vm then s.reply (-95)
    else if int64Max < address ∨ int64Max - address < count then s.reply (-14)
    else if count < 8 then s.reply (-22)
    else s.start caller (.read t address) .checking

/-- read and write of a descriptor. -/
def transfer (s : System) (caller : Caller) (fd : Int) (address count : Nat) (writing : Bool)
    (env : Env) : System :=
  match s.get fd with
  | none => s.reply (-9)
  | some d =>
    match d.epoll, d.timerfd, d.eventfd with
    | some _, _, _ => s.reply (-22)
    | none, some t, _ =>
      if (s.timerfds[t]?.map (·.vm)) ≠ some caller.vm then s.reply (-95)
      else if writing then s.reply (-22)
      else s.timerfdRead caller t address count
    | none, none, some e => s.eventfdTransfer caller e address count writing env
    -- files and devices are `Artbox.Files`, and a Binder open has neither call
    | none, none, none => s.reply env.file

/-- ioctl, up to the Binder device. -/
def ioctl (s : System) (caller : Caller) (fd : Int) : System :=
  match s.get fd with
  | none => s.reply (-9)
  | some d =>
    match d.binder with
    | none => s.reply (-25)
    | some b =>
      if (s.binders[b]?.map (·.vm)) ≠ some caller.vm then s.reply (-95)
      else s.start caller (.ioctl b) (.copying 0)

/-! ## epoll -/

/-- `interest_events`: the result, and the table with the timer brought up to date. -/
def interestEvents (s : System) (target : Target) (caller : Caller) (env : Env) : Int × System :=
  if target.token ≠ 0 then
    if env.reap ≠ 0 then (-env.reap, s)
    else if s.endpoints.any fun e => e.token == target.token then ((env.ready target.token).value, s)
    else (-9, s)
  else
    match s.lockEventfd target.eventfd with
    | some e =>
      match s.eventfds[e]? with
      | none => (-9, s)
      | some event => (if event.vm = caller.vm then eventfdEvents event else -95, s)
    | none =>
      match s.lockTimerfd target.timerfd with
      | none => (-9, s)
      | some t =>
        match s.timerfds[t]? with
        | none => (-9, s)
        | some timer =>
          let r := timerfdEvents timer caller env
          (r.1, s.setTimerfd t r.2)

def setEpoll (s : System) (ep : Nat) (epoll : Epoll) : System :=
  { s with epolls := s.epolls.set ep epoll }

/-- The target of a descriptor. -/
def target (s : System) (d : Descriptor) : Target :=
  { token := ((d.binder.bind fun b => s.binders[b]?).map (·.token)).getD 0
    eventfd := d.eventfd, timerfd := d.timerfd }

/-- The address space of what a descriptor can be waited for. -/
def targetVm (s : System) (d : Descriptor) : Option Nat :=
  match d.binder, d.eventfd, d.timerfd with
  | some b, _, _ => s.binders[b]?.map (·.vm)
  | none, some e, _ => s.eventfds[e]?.map (·.vm)
  | none, none, some t => s.timerfds[t]?.map (·.vm)
  | none, none, none => none

/-- The open description an epoll call is about. -/
def epollOf (s : System) (caller : Caller) (fd : Int) : Except Int Nat :=
  match s.get fd with
  | none => .error (-9)
  | some d =>
    match d.epoll with
    | none => .error (-22)
    | some ep =>
      match s.epolls[ep]? with
      | none => .error (-22)
      | some epoll => if epoll.vm ≠ caller.vm then .error (-95) else .ok ep

/-- epoll_ctl up to its loop. -/
def epollCtl (s : System) (caller : Caller) (epfd operation fd : Int) (env : Env) : System :=
  if caller.tid ≤ 0 then s.reply (-22)
  else
    match s.epollOf caller epfd with
    | .error error => s.reply error
    | .ok ep =>
      if operation < 1 ∨ 3 < operation ∨ fd = epfd then s.reply (-22)
      else
        match s.get fd with
        | none => s.reply (-9)
        | some d =>
          if d.epoll.isSome then s.reply (-95)
          else
            match s.targetVm d with
            | none => s.reply (-1)
            | some vm =>
              if vm ≠ caller.vm then s.reply (-95)
              else if operation ≠ 2 ∧ env.read.1 ≠ 0 then s.reply (-14)
              else
                let bytes := if operation = 2 then [] else env.read.2
                let events := BitVec.ofNat 32 (field bytes 0 4)
                let data := BitVec.ofNat 64 (field bytes 8 8)
                if events &&& ~~~0x201f ≠ 0 then s.reply (-95)
                else s.start caller (.control ep operation ⟨fd, events, data, s.target d⟩) (.reaping 0)

/-- The interest of `found` in epoll_ctl. -/
def Interest.names (s : System) (fd : Int) (target : Target) (i : Interest) : Bool :=
  i.fd == fd && i.target.token == target.token &&
    (target.token != 0 ||
      (if target.eventfd.isSome then s.lockEventfd i.target.eventfd == target.eventfd
      else s.lockTimerfd i.target.timerfd == target.timerfd))

/-- The rest of epoll_ctl after its loop: its result and the table. -/
def applyControl (s : System) (caller : Caller) (ep : Nat) (epoll : Epoll) (operation : Int)
    (interest : Interest) (env : Env) : Int × System :=
  match epoll.interests.findIdx? (Interest.names s interest.fd interest.target) with
  | some index =>
    if operation = 1 then (-17, s)
    else if operation = 2 then
      (0, (s.setEpoll ep { epoll with interests := epoll.interests.eraseIdx index }).pollNotify env)
    else
      let modify := fun i : Interest => { i with events := interest.events, data := interest.data }
      (0, ((s.setEpoll ep { epoll with interests := epoll.interests.modify index modify }).record
        [.set ep interest]).pollNotify env)
  | none =>
    if operation ≠ 1 then (-2, s)
    else if epoll.interests.length = s.interests then (-28, s)
    else
      let r := s.interestEvents interest.target caller env
      if r.1 < 0 then r
      else
        (0, ((r.2.setEpoll ep { epoll with interests := epoll.interests ++ [interest] }).record
          [.set ep interest]).pollNotify env)

/-- epoll_pwait up to its loop. -/
def epollPwait (s : System) (caller : Caller) (epfd : Int) (address : Nat) (maximum timeout : Int)
    (mask : Bool) (size : Nat) (env : Env) : System :=
  if caller.tid ≤ 0 then s.reply (-22)
  else
    match s.epollOf caller epfd with
    | .error error => s.reply error
    | .ok ep =>
      if maximum ≤ 0 ∨ 134217727 < maximum then s.reply (-22)
      else if int64Max - maximum * 16 < address then s.reply (-14)
      else if mask then s.reply (if size = 8 then -95 else -22)
      else if timeout ≤ 0 then s.start caller (.pwait ep maximum.toNat timeout 0) .checking
      else
        match monotonicNs env with
        | .error error => s.reply error
        | .ok now =>
          if int64Max - timeout * 1000000 < now then s.reply (-75)
          else s.start caller (.pwait ep maximum.toNat timeout (now + timeout * 1000000)) .checking

/-! ## Steps of calls -/

/-- A pass of `eventfd_transfer`. -/
def checkTransfer (s : System) (call : Call) (e : Nat) (writing : Bool) (value : BitVec 64)
    (env : Env) : System :=
  match s.eventfds[e]? with
  | none => s
  | some event =>
    let s := s.record [.checking call.id]
    match attempt event writing value with
    | .again => s.finish call (-11) env
    | .block => (s.record [.checked call.id]).setPhase call.id .checked
    | .done event value =>
      let s := { s with eventfds := s.eventfds.set e event }
      if writing then ((s.record [.wrote e value]).pollNotify env).finish call 8 env
      else ((s.record [.consumed e value]).pollNotify env).setPhase call.id (.copying value)

/-- A pass of `timerfd_read`. -/
def checkRead (s : System) (call : Call) (t : Nat) (env : Env) : System :=
  match s.timerfds[t]? with
  | none => s
  | some timer =>
    let s := s.record [.checking call.id]
    let r := timerfdEvents timer call.caller env
    let s := s.setTimerfd t r.2
    if r.1 < 0 then s.finish call r.1 env
    else if r.1 ≠ 0 then
      (s.setTimerfd t { r.2 with ticks := 0 }).setPhase call.id (.copying (BitVec.ofNat 64 r.2.ticks))
    else if r.2.flags &&& 0x800 ≠ 0 then s.finish call (-11) env
    else (s.record [.checked call.id]).setPhase call.id .checked

/-- The end of `epoll_scan`, and what epoll_pwait makes of its result. -/
def endScan (s : System) (call : Call) (timeout result : Int) (env : Env) : System :=
  if result ≠ 0 ∨ timeout = 0 then s.finish call result env
  else (s.record [.checked call.id]).setPhase call.id .checked

/-- A pass of the loop of `epoll_scan`. -/
def scan (s : System) (call : Call) (ep maximum : Nat) (timeout : Int) (index remaining copied : Nat)
    (env : Env) : System :=
  match s.epolls[ep]? with
  | none => s
  | some epoll =>
    if remaining = 0 ∨ epoll.interests = [] ∨ maximum ≤ copied then
      let cursor := if epoll.interests = [] then 0 else index % epoll.interests.length
      (s.setEpoll ep { epoll with cursor }).endScan call timeout copied env
    else
      let index := index % epoll.interests.length
      match epoll.interests[index]? with
      | none => s
      | some interest =>
        let r := s.interestEvents interest.target call.caller env
        let s := r.2
        if r.1 = -9 then
          (s.setEpoll ep { epoll with interests := epoll.interests.eraseIdx index }).setPhase call.id
            (.scanning index (remaining - 1) copied)
        else if r.1 < 0 then s.endScan call timeout (if copied ≠ 0 then copied else r.1) env
        else
          let events := BitVec.ofInt 32 r.1 &&& (interest.events ||| 0x18)
          if events ≠ 0 then
            if env.write ≠ 0 then s.endScan call timeout (if copied ≠ 0 then copied else env.write) env
            else
              (s.record [.reported ep interest events]).setPhase call.id
                (.scanning (index + 1) (remaining - 1) (copied + 1))
          else s.setPhase call.id (.scanning (index + 1) (remaining - 1) copied)

/-- A pass of the loop of epoll_ctl, or what follows it. -/
def reap (s : System) (call : Call) (ep : Nat) (operation : Int) (interest : Interest) (index : Nat)
    (env : Env) : System :=
  match s.epolls[ep]? with
  | none => s
  | some epoll =>
    match epoll.interests[index]? with
    | none =>
      let r := s.applyControl call.caller ep epoll operation interest env
      r.2.finish call r.1 env
    | some other =>
      let r := s.interestEvents other.target call.caller env
      if r.1 = -9 then
        (r.2.setEpoll ep { epoll with interests := epoll.interests.eraseIdx index }).setPhase call.id
          (.reaping index)
      else r.2.setPhase call.id (.reaping (index + 1))

/-- The condition of a call is looked at. -/
def check (s : System) (call : Call) (env : Env) : System :=
  match call.op with
  | .transfer e writing value => s.checkTransfer call e writing value env
  | .read t _ => s.checkRead call t env
  | .pwait ep _ _ _ =>
    match s.epolls[ep]? with
    | none => s
    | some epoll =>
      (s.record [.checking call.id]).setPhase call.id
        (.scanning epoll.cursor epoll.interests.length 0)
  | _ => s

/-- The first slot of `PollRegistration.attach`, or the wait. -/
def register (s : System) (call : Call) (env : Env) : System :=
  match s.waiters.find? fun w => w.call == call.id with
  | none =>
    if s.waiters.length = s.limit then s.finish call (-12) env
    else
      let waiter : Waiter := { call := call.id }
      { s with waiters := s.waiters ++ [waiter] }.setPhase call.id .registered
  | some w => if w.error ≠ 0 then s.finish call w.error env else s.setPhase call.id .waiting

/-- What a call does after it found nothing. -/
def prepare (s : System) (call : Call) (env : Env) : System :=
  if env.interrupted then s.finish call (-4) env
  else
    match call.op with
    | .pwait _ _ timeout deadline =>
      if 0 < timeout then
        match monotonicNs env with
        | .error error => s.finish call error env
        | .ok now => if deadline ≤ now then s.finish call 0 env else s.register call env
      else s.register call env
    | _ => s.register call env

/-- `wake.create` -/
def create (s : System) (call : Call) (env : Env) : System :=
  if env.create.1 ≠ 0 then s.finish call (if env.create.1 < 0 then env.create.1 else -5) env
  else if env.create.2 = false then s.finish call (-5) env
  else s.setPhase call.id .created

/-- The wake object is published; the call looks again. -/
def publish (s : System) (call : Call) : System :=
  let waiters := s.waiters.map fun w : Waiter => if w.call = call.id then { w with owner := true } else w
  ({ s with waiters }.record [.published call.id]).setPhase call.id .checking

/-- The return of `wake.wait`; it gives a hint only if there was a signal, which is then gone. -/
def wake (s : System) (call : Call) (env : Env) : System :=
  if env.wait < 0 then s.finish call env.wait env
  else if 1 < env.wait then s.finish call (-5) env
  else if env.wait = 1 then
    let waiters := s.waiters.map fun w : Waiter =>
      if w.call = call.id then { w with latch := false } else w
    if s.waiters.any fun w => w.call == call.id && w.latch then
      { s with waiters }.setPhase call.id .checking
    else s
  else s.setPhase call.id .checking

/-- The copies of the ticks of a timer, which may end at a page. -/
def copyTicks (address : Nat) (env : Env) : Int :=
  let first := min 8 (env.pageSize - address % env.pageSize)
  if env.write ≠ 0 then env.write
  else if first = 8 then 8
  else if env.writeRest ≠ 0 then first
  else 8

/-- The copy to the caller, after which the call returns. -/
def copyOut (call : Call) (env : Env) : Int :=
  match call.op with
  | .read _ address => copyTicks address env
  | .transfer _ _ _ => if env.write ≠ 0 then env.write else 8
  | _ => env.write

/-- The next step of a call. -/
def advance (s : System) (call : Call) (env : Env) : System :=
  match call.phase with
  | .checking => if s.unlocked then s.check call env else s
  | .scanning index remaining copied =>
    match call.op with
    | .pwait ep maximum timeout _ => s.scan call ep maximum timeout index remaining copied env
    | _ => s
  | .reaping index =>
    match call.op with
    | .control ep operation interest => s.reap call ep operation interest index env
    | _ => s
  | .checked => s.prepare call env
  | .registered => s.create call env
  | .created => s.publish call
  | .waiting => s.wake call env
  | .copying _ => s.finish call (copyOut call env) env

/-! ## The machine -/

/-- Something someone does. -/
inductive Action
  | eventfd2 (caller : Caller) (initial flags : BitVec 32)
  | timerfdCreate (caller : Caller) (clock flags : BitVec 32)
  | epollCreate (caller : Caller) (flags : BitVec 32)
  | openBinder (caller : Caller)
  /-- A descriptor that cannot be waited for. -/
  | openOther (kind : Nat)
  | close (fd : Int)
  | timerfdSettime (caller : Caller) (fd : Int) (flags : BitVec 32) (out : Bool)
  | timerfdGettime (caller : Caller) (fd : Int)
  | transfer (caller : Caller) (fd : Int) (address count : Nat) (writing : Bool)
  | epollCtl (caller : Caller) (epfd operation fd : Int)
  | epollPwait (caller : Caller) (epfd : Int) (address : Nat) (maximum timeout : Int) (mask : Bool)
      (size : Nat)
  /-- A Binder ioctl pins its open description. -/
  | ioctl (caller : Caller) (fd : Int)
  /-- The next step of a call. -/
  | advance (id : Nat)
  /-- The Binder device changed and notifies. -/
  | binderChanged
  /-- An endpoint that is closed is released. -/
  | reapClosed (token : Nat)

/-- One step. -/
def perform (s : System) (a : Action) (env : Env) : System :=
  match a with
  | .advance id =>
    match s.calls.find? fun c => c.id == id with
    | none => s
    | some call => s.advance call env
  | .binderChanged => s.pollNotify env
  | .reapClosed token =>
    if s.endpoints.any fun e => e.token == token && !e.opened then
      { s with endpoints := s.endpoints.filter fun e => e.token != token }.pollNotify env
    else s
  | a =>
    if s.unlocked then
      match a with
      | .eventfd2 caller initial flags => s.eventfd2 caller initial flags
      | .timerfdCreate caller clock flags => s.timerfdCreate caller clock flags
      | .epollCreate caller flags => s.epollCreate caller flags
      | .openBinder caller => s.openBinder caller env
      | .openOther kind => if 9 ≤ kind ∨ kind = 0 then s else s.install { kind }
      | .close fd => s.close fd env
      | .timerfdSettime caller fd flags out => s.timerfdSettime caller fd flags out env
      | .timerfdGettime caller fd => s.timerfdGettime caller fd env
      | .transfer caller fd address count writing => s.transfer caller fd address count writing env
      | .epollCtl caller epfd operation fd => s.epollCtl caller epfd operation fd env
      | .epollPwait caller epfd address maximum timeout mask size =>
        s.epollPwait caller epfd address maximum timeout mask size env
      | .ioctl caller fd => s.ioctl caller fd
      | _ => s
    else s

/-- The runs of a table. -/
def machine : Machine System where
  init s := ∃ attached interests limit size, s =
    { attached, interests, limit, descriptors := List.replicate size {} }
  step s s' := ∃ a env, s' = perform s a env

end System

end Artbox.Vfs
