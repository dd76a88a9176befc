import Artbox.Lib.Machine
import Mathlib.Data.List.Basic
import Mathlib.Algebra.Group.Nat.Defs

/-!
# Guest threads

`core/src/threads.cpp`: the creator of a thread holds the lock of the manager from its checks to
the record it leaves, and the native worker it creates meanwhile waits for that lock before it runs
guest code. The reaper drops the lock while it joins a worker, detaches it from the signal queue and
clears its TID or unmaps its stack. Each of these is a step of its own; what `artbox_vm_*`,
`artbox_signals_*` and the native callbacks answer is in `Env`.

`System.history` is a history variable, the latest event first.
-/

namespace Artbox.Threads

/-- `artbox_thread_start` -/
structure Start where
  flags : Nat
  stackBase : Nat
  stackSize : Nat
  tls : Nat
  parentTid : Nat
  childTid : Nat
  entry : Nat
  argument : Nat
deriving DecidableEq, Repr

/-- `artbox_thread_finish` -/
structure Finish where
  unmapAddress : Nat := 0
  unmapSize : Nat := 0
  error : Int := 0
deriving DecidableEq, Repr

/-- Where a native worker is. -/
inductive Phase
  /-- Before the lock in `worker_entry`. -/
  | blocked
  /-- In the run callback. -/
  | running
  /-- The run callback returned. -/
  | returned
  /-- `done` is set. -/
  | done
deriving DecidableEq, Repr

/-- `Worker`, with the fields of its kernel thread that the manager looks at. -/
structure Worker where
  tid : Nat
  start : Start
  /-- `kernel.clear_tid_address` -/
  clearTid : Nat
  /-- `kernel.signal_state` -/
  attached : Bool := false
  /-- The signal thread waits or has a callback bound. -/
  busy : Bool := false
  finish : Finish := {}
  phase : Phase := .blocked
deriving DecidableEq, Repr

/-- How far a creator has come. -/
inductive Creation
  /-- The record is made, its signal thread attached. -/
  | prepared
  /-- The native worker is created. -/
  | created
  /-- The TID is in the word of the parent. -/
  | stored
deriving DecidableEq, Repr

/-- What the reaper does with a worker. -/
inductive Stage
  | joining
  | joined
  /-- The result so far. -/
  | detached (error : Int)
  | acted (error : Int)
  /-- The join failed. -/
  | failed (error : Int)
  /-- The failure is recorded and the reaper has returned. -/
  | lost
deriving DecidableEq, Repr

inductive Reaper
  | idle
  | at (tid : Nat) (stage : Stage)
  /-- It returned because the manager is destroyed. -/
  | stopped
deriving DecidableEq, Repr

/-- What happened. -/
inductive Event
  /-- A TID was given to a start. -/
  | assigned (tid : Nat)
  /-- The word of the parent was written. -/
  | wrote (tid : Nat)
  /-- `artbox_threads_start` returned the TID. -/
  | started (tid : Nat)
  /-- `artbox_threads_start` returned an error. -/
  | refused (error : Int)
  /-- The run callback began. -/
  | ran (tid : Nat)
  /-- The run callback returned and reported this. -/
  | returned (tid : Nat) (error : Int)
  /-- The native join returned. -/
  | joined (tid : Nat) (error : Int)
  | detached (tid : Nat) (error : Int)
  /-- The clear-TID store and wake. -/
  | cleared (tid : Nat) (error : Int)
  /-- `artbox_vm_munmap` of the stack. -/
  | unmapped (tid : Nat) (error : Int)
  /-- The join failure was recorded. -/
  | failed (tid : Nat)
  /-- The record was erased. -/
  | reaped (tid : Nat)
deriving DecidableEq, Repr

/-- `artbox_threads` with the guest memory it writes and the TIDs of its workers that are in the
signal queue. -/
structure System where
  pid : Nat
  nextTid : Nat
  limit : Nat
  /-- The creator that holds the lock. -/
  creator : Option (Worker × Creation) := none
  active : List Worker := []
  attached : List Nat := []
  reaper : Reaper := .idle
  stopping : Bool := false
  error : Int := 0
  reaped : Nat := 0
  memory : Nat → Nat
  history : List Event := []

/-- What the rest of the system answers during a step. -/
structure Env where
  /-- The parent has the PID and the address space of the manager. -/
  family : Bool := true
  pageSize : Nat := 4096
  /-- `artbox_vm_access` of the stack and of the word of the parent. -/
  stackAccess : Bool := true
  wordAccess : Bool := true
  /-- The record can be allocated. -/
  memory : Bool := true
  /-- `artbox_kernel_thread_init_with_credentials` -/
  init : Int := 0
  /-- The parent has a signal thread. -/
  inherits : Bool := false
  /-- What `attach` finds besides a thread with the same TID. -/
  attach : Int := 0
  /-- What `artbox_vm_prepare_store_u32` finds before it calls back. -/
  prepare : Int := 0
  /-- `native.start` -/
  start : Int := 0
  /-- `native.join` -/
  join : Int := 0
  /-- `artbox_vm_munmap` -/
  munmap : Int := 0
  /-- `artbox_vm_store_u32` -/
  store : Int := 0

namespace System

variable (s : System)

def record (l : List Event) : System := { s with history := l ++ s.history }

/-- The result of a start that fails. -/
def refuse (error : Int) : System := s.record [.refused error]

/-- An error of a callback. -/
def callbackError (error : Int) : Int := if error < 0 then error else -5

/-- `artbox_vm_store_u32` to a word. -/
def storeWord (address value : Nat) : System :=
  { s with memory := fun a => if a = address then value else s.memory a }

def setWorker (tid : Nat) (f : Worker → Worker) : System :=
  { s with active := s.active.map fun w => if w.tid = tid then f w else w }

/-! ## `artbox_threads_start` -/

/-- The checks before the lock: zero or the error. -/
def checkStart (start : Start) (env : Env) : Int :=
  if env.family = false then -22
  else if start.flags ≠ 0x3d0f00 then -38
  else if start.stackBase = 0 ∨ start.stackSize = 0 ∨ start.stackBase % env.pageSize ≠ 0 ∨
      start.stackSize % env.pageSize ≠ 0 ∨ 2 ^ 64 ≤ start.stackSize ∨ start.tls = 0 ∨ start.entry = 0 ∨
      start.parentTid % 4 ≠ 0 then -22
  else if env.stackAccess = false ∨ env.wordAccess = false then -14
  else 0

/-- `artbox_signals_inherit` for the new worker: the result and the table. -/
def inherit (w : Worker) (env : Env) : Int × Worker × System :=
  if env.inherits = false then (0, w, s)
  else if w.tid ∈ s.attached then (-22, w, s)
  else if env.attach ≠ 0 then (env.attach, w, s)
  else (0, { w with attached := true }, { s with attached := w.tid :: s.attached })

/-- `artbox_threads_start` from the lock up to `artbox_vm_prepare_store_u32`. -/
def begin (start : Start) (env : Env) : System :=
  if s.stopping = true ∨ s.error ≠ 0 then s.refuse (-5)
  else if s.active.length = s.limit ∨ 2 ^ 31 - 1 < s.nextTid then s.refuse (-11)
  else if env.memory = false then s.refuse (-12)
  else
    let tid := s.nextTid
    let s := { s with nextTid := s.nextTid + 1 }.record [.assigned tid]
    if env.init ≠ 0 then s.refuse env.init
    else
      let r := s.inherit { tid, start, clearTid := start.childTid } env
      if r.1 ≠ 0 then r.2.2.refuse r.1
      else { r.2.2 with creator := some (r.2.1, .prepared) }

/-- `artbox_signals_detach`: the result, the kernel thread and the table. -/
def detach (w : Worker) : Int × Worker × System :=
  if w.busy then (-16, w, s)
  else (0, { w with attached := false }, { s with attached := s.attached.filter fun t => t != w.tid })

/-- A start that fails in `artbox_vm_prepare_store_u32`. -/
def abandon (w : Worker) (error : Int) : System :=
  let s := if w.attached then (s.detach w).2.2 else s
  { s with creator := none }.refuse error

/-- The next step of the creator. -/
def create (env : Env) : System :=
  match s.creator with
  | none => s
  | some (w, .prepared) =>
    if env.prepare ≠ 0 then s.abandon w env.prepare
    else if env.start ≠ 0 then s.abandon w (callbackError env.start)
    else { s with creator := some (w, .created) }
  | some (w, .created) =>
    ({ s with creator := some (w, .stored) }.storeWord w.start.parentTid w.tid).record [.wrote w.tid]
  | some (w, .stored) =>
    { s with creator := none, active := s.active ++ [w] }.record [.started w.tid]

/-! ## `worker_entry` -/

/-- The worker passes the lock. -/
def enter (tid : Nat) : System :=
  if s.creator.isSome then s
  else
    match s.active.find? fun w => w.tid == tid with
    | some w =>
      if w.phase = .blocked then
        (s.setWorker tid fun w => { w with phase := .running }).record [.ran tid]
      else s
    | none => s

/-- What a run callback leaves. -/
structure Outcome where
  finish : Finish := {}
  clearTid : Nat := 0
  attached : Bool := false
  busy : Bool := false
deriving DecidableEq, Repr

/-- The run callback returns. -/
def leave (tid : Nat) (o : Outcome) : System :=
  match s.active.find? fun w => w.tid == tid with
  | some w =>
    if w.phase = .running then
      let attached :=
        if o.attached then tid :: s.attached else s.attached.filter fun t => t != tid
      ({ s with attached }.setWorker tid fun w =>
        { w with finish := o.finish, clearTid := o.clearTid, attached := o.attached, busy := o.busy,
                 phase := .returned }).record [.returned tid o.finish.error]
    else s
  | none => s

/-- `done` is set, under the lock. -/
def complete (tid : Nat) : System :=
  if s.creator.isSome then s
  else
    match s.active.find? fun w => w.tid == tid with
    | some w => if w.phase = .returned then s.setWorker tid fun w => { w with phase := .done } else s
    | none => s

/-! ## `reap` -/

/-- The worker the reaper is at. -/
def reaping (tid : Nat) : Option Worker := s.active.find? fun w => w.tid == tid

/-- The reaper looks for a worker that is done. -/
def pick : System :=
  match s.active.find? fun w => w.phase == .done with
  | some w => { s with reaper := .at w.tid .joining }
  | none => if s.stopping then { s with reaper := .stopped } else s

/-- The result of the native join. -/
def join (tid : Nat) (error : Int) : System :=
  let stage : Stage := if error ≠ 0 then .failed error else .joined
  { s with reaper := .at tid stage }.record [.joined tid error]

/-- The worker leaves the signal queue. -/
def reapDetach (w : Worker) : System :=
  if w.attached then
    let r := s.detach w
    let error := if w.finish.error = 0 then r.1 else w.finish.error
    { r.2.2.setWorker w.tid fun _ => r.2.1 with reaper := .at w.tid (.detached error) }.record
      [.detached w.tid r.1]
  else { s with reaper := .at w.tid (.detached w.finish.error) }

/-- The stack is unmapped or the TID cleared. -/
def act (w : Worker) (error : Int) (env : Env) : System :=
  if error ≠ 0 then { s with reaper := .at w.tid (.acted error) }
  else if w.finish.unmapSize ≠ 0 then
    if w.clearTid ≠ 0 then { s with reaper := .at w.tid (.acted (-22)) }
    else { s with reaper := .at w.tid (.acted env.munmap) }.record [.unmapped w.tid env.munmap]
  else if w.clearTid = 0 then { s with reaper := .at w.tid (.acted 0) }
  else if env.store ≠ 0 then
    { s with reaper := .at w.tid (.acted (if env.store = -14 then 0 else env.store)) }.record
      [.cleared w.tid env.store]
  else
    ({ s with reaper := .at w.tid (.acted 0) }.storeWord w.clearTid 0).record [.cleared w.tid 0]

/-- The record is erased, under the lock. -/
def erase (tid : Nat) (error : Int) : System :=
  { s with
    error := if error ≠ 0 ∧ s.error = 0 then callbackError error else s.error
    active := s.active.filter fun w => w.tid != tid
    reaped := s.reaped + 1
    reaper := .idle }.record [.reaped tid]

/-- The join failure is recorded, under the lock; the reaper returns. -/
def fail (tid : Nat) (error : Int) : System :=
  { s with error := callbackError error, reaper := .at tid .lost }.record [.failed tid]

/-- The next step of the reaper. It cannot touch guest memory while a creator is between the native
start and the store, which hold the lock of the address space. -/
def reap (env : Env) : System :=
  match s.reaper with
  | .idle => if s.creator.isSome then s else s.pick
  | .at tid .joining => s.join tid env.join
  | .at tid .joined =>
    match s.reaping tid with
    | some w => s.reapDetach w
    | none => s
  | .at tid (.detached error) =>
    match s.reaping tid with
    | some w => if s.creator.any fun c => c.2 == .created then s else s.act w error env
    | none => s
  | .at tid (.acted error) => if s.creator.isSome then s else s.erase tid error
  | .at tid (.failed error) => if s.creator.isSome then s else s.fail tid error
  | .at _ .lost => s
  | .stopped => s

/-! ## The machine -/

inductive Action
  | start (start : Start)
  /-- The next step of the creator. -/
  | create
  | enter (tid : Nat)
  | leave (tid : Nat) (outcome : Outcome)
  | complete (tid : Nat)
  /-- The next step of the reaper. -/
  | reap
  /-- `artbox_threads_destroy` -/
  | destroy
  /-- Guest code stores a word. -/
  | guest (address value : Nat)

/-- One step. -/
def perform (a : Action) (env : Env) : System :=
  match a with
  | .start start =>
    if checkStart start env ≠ 0 then s.refuse (checkStart start env)
    else if s.creator.isSome then s
    else s.begin start env
  | .create => s.create env
  | .enter tid => s.enter tid
  | .leave tid outcome => s.leave tid outcome
  | .complete tid => s.complete tid
  | .reap => s.reap env
  | .destroy => if s.creator.isSome ∨ s.active ≠ [] then s else { s with stopping := true }
  | .guest address value => s.storeWord address value

/-- What `artbox_threads_create` accepts. -/
def Valid (pid firstTid limit : Nat) : Prop := 0 < pid ∧ pid < firstTid ∧ 0 < limit ∧ limit ≤ 65536

/-- The runs of a manager. -/
def machine : Machine System where
  init s := ∃ pid firstTid limit memory, Valid pid firstTid limit ∧
    s = { pid, nextTid := firstTid, limit, memory }
  step s s' := ∃ a env, s' = perform s a env

end System

end Artbox.Threads
