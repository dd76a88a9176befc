import Artbox.Lib.Machine
import Mathlib.Data.List.Basic

/-!
# The signal queues

`core/src/signals.cpp`: the pending signals and the mask of each guest thread are one 128-bit
value that is loaded and compared and exchanged atomically. `send`, the sigtimedwait call and
`artbox_signals_bind_interrupt` also hold the mutex of the process; `change_mask` and
`artbox_signals_take_interrupt` do not. A call is a record of where it is, and each of its
loads, exchanges and notifications is a step of its own; a failed exchange leaves it where it
is with what it then saw. An exchange and the checks before it are one step: what they read
besides the exchanged value is under the mutex or belongs to the thread that calls.

`System.history` is a history variable, the latest event first. Records of detached threads
stay in the list of threads.
-/

namespace Artbox.Signals

/-- `SignalBits`. -/
structure Bits where
  mask : BitVec 64 := 0
  pending : BitVec 64 := 0
deriving DecidableEq, Repr

/-- SIGKILL and SIGSTOP. -/
def unmaskable : BitVec 64 := 0x40100

/-- One interruption in the high word of `pending`. -/
def interruptUnit : BitVec 64 := 1#64 <<< 32

/-- The bit of a signal. -/
def bitOf (signal : Nat) : BitVec 64 := 1#64 <<< (signal - 1)

/-- The number of interruptions, `pending >> 32`. -/
def Bits.count (b : Bits) : Nat := (b.pending >>> 32).toNat

/-- The standard signals, `pending & UINT32_MAX`. -/
def Bits.standard (b : Bits) : BitVec 64 := b.pending &&& 0xffffffff

/-- What `artbox_signals_enable_interrupt` configured; zero if it was not called. -/
structure Config where
  pid : Int
  interruptNumber : Nat
  interruptCapacity : Nat
deriving DecidableEq, Repr

/-- What `artbox_signals_enable_interrupt` accepts. -/
def Config.Valid (c : Config) : Prop :=
  c.interruptNumber = 0 ∨
    (32 ≤ c.interruptNumber ∧ c.interruptNumber ≤ 64 ∧ 0 < c.interruptCapacity ∧
      c.interruptCapacity ≤ 65536)

/-- `interrupt_bit`. -/
def Config.interruptBit (c : Config) : BitVec 64 :=
  if c.interruptNumber = 0 then 0 else bitOf c.interruptNumber

/-- `pending_set`. -/
def pendingSet (c : Config) (b : Bits) : BitVec 64 :=
  b.standard ||| (if b.count = 0 then 0 else c.interruptBit)

/-- `artbox_signal_thread`. -/
structure Thread where
  tid : Int
  attached : Bool := true
  state : Bits
  waitMask : BitVec 64 := 0
  waiting : Bool := false
  /-- A callback is bound. -/
  notify : Bool := false
  interruptEpoch : Nat := 0
deriving DecidableEq, Repr

/-- A call in progress on a thread. -/
inductive Call
  /-- The loop of `send`, under the mutex. -/
  | sending (target signal : Nat) (old : Bits)
  /-- `send` is about to call the callback, under the mutex. -/
  | sent (target : Nat)
  /-- The loop of `change_mask`. -/
  | changing (thread : Nat) (how : Nat) (requested : BitVec 64) (old : Bits)
  /-- `change_mask` is about to call the callback. -/
  | changed (thread : Nat)
  /-- The loop of `artbox_signals_take_interrupt`. -/
  | taking (thread : Nat) (action : BitVec 64) (old : Bits)
  /-- The exchange was made, the epoch not yet advanced. -/
  | taken (thread : Nat)
  /-- A sigtimedwait that read its arguments. -/
  | entering (thread : Nat) (selected : BitVec 64) (blocks expires : Bool) (epoch : Nat)
  /-- A sigtimedwait on its condition variable. -/
  | waiting (thread : Nat) (selected : BitVec 64) (expires : Bool) (epoch : Nat)
  /-- The last loop of sigtimedwait, under the mutex. -/
  | consuming (thread : Nat) (selected : BitVec 64) (epoch : Nat) (old : Bits)
  /-- `artbox_signals_bind_interrupt` before its look at the pending count, under the mutex. -/
  | binding (thread : Nat)
deriving DecidableEq, Repr

/-- The thread a call is about. -/
def Call.thread : Call → Nat
  | sending i _ _ | sent i | changing i _ _ _ | changed i | taking i _ _ | taken i
  | entering i _ _ _ _ | waiting i _ _ _ | consuming i _ _ _ | binding i => i

/-- The call holds the mutex. -/
def Call.locks : Call → Bool
  | sending _ _ _ | sent _ | consuming _ _ _ _ | binding _ => true
  | _ => false

/-- The call is a sigtimedwait. -/
def Call.waits : Call → Bool
  | entering _ _ _ _ _ | waiting _ _ _ _ | consuming _ _ _ _ => true
  | _ => false

/-- The call will look whether the callback must be called, or call it. -/
def Call.notifies : Call → Bool
  | sent _ | changed _ | binding _ => true
  | _ => false

/-- What happened to a thread. -/
inductive Event
  /-- A signal was queued. -/
  | accepted (thread signal : Nat)
  /-- An interruption was taken, with the mask before it. -/
  | took (thread : Nat) (previous : BitVec 64)
  /-- A sigtimedwait consumed a signal. -/
  | consumed (thread signal : Nat)
  /-- The mask was changed. -/
  | masked (thread : Nat) (previous mask : BitVec 64)
  /-- A mask change was refused with -95. -/
  | refused (thread : Nat) (exposed mask : BitVec 64)
  /-- The count of interruptions became positive. -/
  | raised (thread : Nat)
  /-- The mask ceased to block the interruption. -/
  | unblocked (thread : Nat)
  /-- A callback was bound. -/
  | bound (thread : Nat)
  /-- A sigtimedwait ended. -/
  | ended (thread : Nat)
  /-- The callback was called. -/
  | notified (thread : Nat)
deriving DecidableEq

/-- `artbox_signals` with its threads and the calls in progress. -/
structure System where
  config : Config
  threads : List Thread := []
  calls : List Call := []
  history : List Event := []

namespace System

/-- Note events, the latest first. -/
def record (s : System) (l : List Event) : System := { s with history := l ++ s.history }

def update (s : System) (i : Nat) (f : Thread → Thread) : System :=
  { s with threads := s.threads.modify i f }

def setState (s : System) (i : Nat) (b : Bits) : System :=
  s.update i fun t => { t with state := b }

/-- The mutex is free. -/
def unlocked (s : System) : Bool := s.calls.all fun c => !c.locks

/-- What follows an exchange that left the mask or the count of interruptions as `b`. -/
def stirs (c : Config) (i : Nat) (old b : Bits) : List Event :=
  (if old.count = 0 ∧ b.count ≠ 0 then [.raised i] else []) ++
    (if old.mask &&& c.interruptBit ≠ 0 ∧ b.mask &&& c.interruptBit = 0 then [.unblocked i] else [])

/-! ## send -/

/-- `send` up to its loop: an error or the call. -/
def beginSend (s : System) (pid id signal : Int) : Except Int Call :=
  if pid ≤ 0 ∨ id ≤ 0 then .error (-22)
  else
    match (if pid = s.config.pid then s.threads.findIdx? fun t => t.attached && t.tid == id else none) with
    | none => .error (-3)
    | some i =>
      if signal < 0 ∨ 64 < signal then .error (-22)
      else if signal = 0 then .error 0
      else if (32 ≤ signal ∧ signal ≠ s.config.interruptNumber) ∨ signal = 9 ∨ signal = 19 then
        .error (-95)
      else
        match s.threads[i]? with
        | none => .error (-3)
        | some t => .ok (.sending i signal.toNat t.state)

/-- One pass of the loop of `send`: what becomes of the call. -/
def attemptSend (s : System) (i signal : Nat) (old : Bits) (t : Thread) : System × Option Call :=
  let c := s.config
  let bit := bitOf signal
  let interruption := signal = c.interruptNumber
  if (old.mask ||| t.waitMask) &&& bit = 0 ∧ ¬ (interruption ∧ t.notify = true) then (s, none)
  else if interruption ∧ c.interruptCapacity ≤ old.count then (s, none)
  else if t.state ≠ old then (s, some (.sending i signal t.state))
  else
    let updated : Bits := { old with
      pending := if interruption then old.pending + interruptUnit else old.pending ||| bit }
    let s := (s.setState i updated).record (stirs c i old updated ++ [.accepted i signal])
    if interruption ∧ old.mask &&& bit = 0 ∧ t.waitMask &&& bit = 0 ∧ t.notify = true then
      (s, some (.sent i))
    else (s, none)

/-! ## The mask -/

/-- The mask `change_mask` asks for. -/
def requestedMask (how : Nat) (mask requested : BitVec 64) : Option (BitVec 64) :=
  match how with
  | 0 => some (mask ||| requested)
  | 1 => some (mask &&& ~~~requested)
  | 2 => some requested
  | _ => none

/-- One pass of the loop of `change_mask`. -/
def attemptChange (s : System) (i how : Nat) (requested : BitVec 64) (old : Bits) (t : Thread) :
    System × Option Call :=
  let c := s.config
  match requestedMask how old.mask requested with
  | none => (s, none)
  | some mask =>
    let updated : Bits := { old with mask }
    let exposed := pendingSet c updated &&& ~~~updated.mask
    if exposed ≠ 0 ∧ (t.notify = false ∨ exposed &&& ~~~c.interruptBit ≠ 0) then
      (s.record [.refused i exposed old.mask], none)
    else if t.state ≠ old then (s, some (.changing i how requested t.state))
    else
      let s := (s.setState i updated).record (stirs c i old updated ++ [.masked i old.mask mask])
      if exposed ≠ 0 then (s, some (.changed i)) else (s, none)

/-! ## Taking an interruption -/

/-- One pass of the loop of `artbox_signals_take_interrupt`. -/
def attemptTake (s : System) (i : Nat) (action : BitVec 64) (old : Bits) (t : Thread) :
    System × Option Call :=
  let bit := s.config.interruptBit
  if old.count = 0 ∨ old.mask &&& bit ≠ 0 then (s, none)
  else if t.state ≠ old then (s, some (.taking i action t.state))
  else
    let updated : Bits :=
      ⟨old.mask ||| ((action ||| bit) &&& ~~~unmaskable), old.pending - interruptUnit⟩
    ((s.setState i updated).record [.took i old.mask], some (.taken i))

/-! ## Waiting for a signal -/

/-- The number of the lowest signal of a set. -/
def lowest (set : BitVec 64) : Nat :=
  ((List.range 64).find? fun n => set.getLsbD n).getD 63 + 1

/-- A sigtimedwait takes the mutex. -/
def enterWait (s : System) (i : Nat) (selected : BitVec 64) (blocks expires : Bool) (epoch : Nat)
    (t : Thread) : System × Option Call :=
  if t.waiting then (s, none)
  else if pendingSet s.config t.state &&& selected = 0 ∧ blocks = true then
    (s.update i fun t => { t with waiting := true, waitMask := selected },
      some (.waiting i selected expires epoch))
  else (s, some (.consuming i selected epoch t.state))

/-- A sigtimedwait has the mutex again: it goes on if a signal is there, the epoch has changed or
its time is up. -/
def wakeWait (s : System) (i : Nat) (selected : BitVec 64) (expires : Bool) (epoch : Nat)
    (timeout : Bool) (t : Thread) : System × Option Call :=
  if pendingSet s.config t.state &&& selected ≠ 0 ∨ t.interruptEpoch ≠ epoch ∨
      (expires = true ∧ timeout = true) then
    (s.update i fun t => { t with waiting := false, waitMask := 0 },
      some (.consuming i selected epoch t.state))
  else (s, some (.waiting i selected expires epoch))

/-- One pass of the last loop of sigtimedwait. -/
def attemptConsume (s : System) (i : Nat) (selected : BitVec 64) (epoch : Nat) (old : Bits)
    (t : Thread) : System × Option Call :=
  let pending := pendingSet s.config old &&& selected
  if pending = 0 then (s.record [.ended i], none)
  else if t.state ≠ old then (s, some (.consuming i selected epoch t.state))
  else
    let signal := lowest pending
    let updated : Bits := { old with
      pending := if signal = s.config.interruptNumber then old.pending - interruptUnit
        else old.pending &&& ~~~bitOf signal }
    ((s.setState i updated).record [.ended i, .consumed i signal], none)

/-! ## Binding -/

/-- `artbox_signals_bind_interrupt` up to its look at the pending count. -/
def beginBind (s : System) (i : Nat) (notify : Bool) (t : Thread) : System × Option Call :=
  if s.config.interruptNumber = 0 then (s, none)
  else if notify = true ∧ t.notify = true then (s, none)
  else
    let s := s.update i fun t => { t with notify }
    if notify then (s.record [.bound i], some (.binding i)) else (s, none)

/-- The look, and the notification. -/
def finishBind (s : System) (i : Nat) (t : Thread) : System :=
  if t.state.count ≠ 0 ∧ t.state.mask &&& s.config.interruptBit = 0 then s.record [.notified i] else s

/-! ## Steps -/

/-- The next step of a call on thread `t`: the system without the call, and what becomes of it. A
call that needs the mutex stays where it is while another holds it. -/
def advance (s : System) (call : Call) (t : Thread) (timeout : Bool) : System × Option Call :=
  match call with
  | .sending i signal old => attemptSend s i signal old t
  | .sent i => (s.record [.notified i], none)
  | .changing i how requested old => attemptChange s i how requested old t
  | .changed i => (s.record [.notified i], none)
  | .taking i action old => attemptTake s i action old t
  | .taken i => (s.update i fun t => { t with interruptEpoch := t.interruptEpoch + 1 }, none)
  | .entering i selected blocks expires epoch =>
    if s.unlocked then enterWait s i selected blocks expires epoch t else (s, some call)
  | .waiting i selected expires epoch =>
    if s.unlocked then wakeWait s i selected expires epoch timeout t else (s, some call)
  | .consuming i selected epoch old => attemptConsume s i selected epoch old t
  | .binding i => (finishBind s i t, none)

/-- Something someone does. -/
inductive Action
  /-- `artbox_signals_attach` or `artbox_signals_inherit`. -/
  | attach (tid : Int) (mask : BitVec 64)
  /-- `artbox_signals_detach`, when no call is in progress on the thread. -/
  | detach (i : Nat)
  /-- tgkill. -/
  | send (pid id signal : Int)
  /-- rt_sigprocmask or `artbox_signals_mask_update` with an input. -/
  | mask (i how : Nat) (input : BitVec 64)
  /-- `artbox_signals_take_interrupt`. -/
  | take (i : Nat) (action : BitVec 64)
  /-- rt_sigtimedwait. -/
  | wait (i : Nat) (set : BitVec 64) (blocks expires : Bool)
  /-- `artbox_signals_bind_interrupt`. -/
  | bind (i : Nat) (notify : Bool)
  /-- The call with this number goes on. -/
  | advance (k : Nat) (timeout : Bool)
deriving DecidableEq

/-- A call joins those in progress. -/
def add (s : System) (c : Call) : System := { s with calls := c :: s.calls }

/-- One step. -/
def perform (s : System) : Action → System
  | .attach tid mask =>
    if s.unlocked = false ∨ tid ≤ 0 ∨ (s.threads.any fun t => t.attached && t.tid == tid) then s
    else { s with threads := s.threads ++ [{ tid, state := ⟨mask &&& ~~~unmaskable, 0⟩ }] }
  | .detach i =>
    match s.threads[i]? with
    | none => s
    | some t =>
      if s.unlocked = false ∨ t.waiting = true ∨ t.notify = true ∨
          (s.calls.any fun c => c.thread == i) then s
      else s.update i fun t => { t with attached := false }
  | .send pid id signal =>
    if s.unlocked then
      match s.beginSend pid id signal with
      | .error _ => s
      | .ok call => s.add call
    else s
  | .mask i how input =>
    match s.threads[i]? with
    | none => s
    | some t => if t.attached then s.add (.changing i how (input &&& ~~~unmaskable) t.state) else s
  | .take i action =>
    match s.threads[i]? with
    | none => s
    | some t =>
      if t.attached = true ∧ s.config.interruptNumber ≠ 0 ∧ t.notify = true then
        s.add (.taking i action t.state)
      else s
  | .wait i set blocks expires =>
    match s.threads[i]? with
    | none => s
    | some t =>
      if t.attached then s.add (.entering i (set &&& ~~~unmaskable) blocks expires t.interruptEpoch)
      else s
  | .bind i notify =>
    match s.threads[i]? with
    | none => s
    | some t =>
      if t.attached = true ∧ s.unlocked = true then
        let r := s.beginBind i notify t
        match r.2 with
        | none => r.1
        | some call => r.1.add call
      else s
  | .advance k timeout =>
    match s.calls[k]? with
    | none => s
    | some call =>
      match s.threads[call.thread]? with
      | none => s
      | some t =>
        let r := advance { s with calls := s.calls.eraseIdx k } call t timeout
        match r.2 with
        | none => r.1
        | some call => r.1.add call

/-- The runs of the queues of a process. -/
def machine : Machine System where
  init s := ∃ config : Config, config.Valid ∧ s = { config }
  step s s' := ∃ a, s' = perform s a

end System

end Artbox.Signals
