import Artbox.Lib.Bytes

/-!
# The Binder wire format

`core/src/binder_wire.c` and its header: the command and return words, the
frame splitter `binderNext`, the transaction record and the object table check.
Words are 32-bit and matched whole, so an enumeration with its word function
stands for the switch statements of the source; a word no constructor carries
is `unknown`.

What the device relies on is `validateObjects_spec`: an accepted table lists
objects of known types that lie inside the data, in order and without overlap,
so that editing one object in place cannot disturb another.
-/

namespace Artbox.Binder

open Bytes

/-- `read32(p + i)`. -/
abbrev read32 (bs : List UInt8) (i : Nat) : Nat := field bs i 4

/-- `read64(p + i)`. -/
abbrev read64 (bs : List UInt8) (i : Nat) : Nat := field bs i 8

/-! ## Words -/

/-- The write commands, `ARTBOX_BC_*`. -/
inductive BC
  | transaction | reply | acquireResult | freeBuffer | increfs | acquire | release | decrefs
  | increfsDone | acquireDone | attemptAcquire | registerLooper | enterLooper | exitLooper
  | requestDeathNotification | clearDeathNotification | deadBinderDone
  | transactionSg | replySg
deriving DecidableEq, Repr

def BC.word : BC → Nat
  | transaction => 0x40406300
  | reply => 0x40406301
  | acquireResult => 0x40046302
  | freeBuffer => 0x40086303
  | increfs => 0x40046304
  | acquire => 0x40046305
  | release => 0x40046306
  | decrefs => 0x40046307
  | increfsDone => 0x40106308
  | acquireDone => 0x40106309
  | attemptAcquire => 0x4008630a
  | registerLooper => 0x0000630b
  | enterLooper => 0x0000630c
  | exitLooper => 0x0000630d
  | requestDeathNotification => 0x400c630e
  | clearDeathNotification => 0x400c630f
  | deadBinderDone => 0x40086310
  | transactionSg => 0x40486311
  | replySg => 0x40486312

def BC.all : List BC :=
  [transaction, reply, acquireResult, freeBuffer, increfs, acquire, release, decrefs,
    increfsDone, acquireDone, attemptAcquire, registerLooper, enterLooper, exitLooper,
    requestDeathNotification, clearDeathNotification, deadBinderDone, transactionSg, replySg]

/-- The command a word names, if any. -/
def BC.ofWord (word : Nat) : Option BC := BC.all.find? fun c => c.word == word

/-- Every command is recovered from its word. -/
theorem BC.ofWord_word (c : BC) : BC.ofWord c.word = some c := by
  cases c <;> rfl

theorem BC.word_of_ofWord {word : Nat} {c : BC} (h : BC.ofWord word = some c) : c.word = word := by
  have := List.find?_some h
  simpa using this

/-- `write_length`: the payload bytes behind a write command. -/
def BC.writeLength : BC → Nat
  | transaction | reply => 64
  | transactionSg | replySg => 72
  | acquireResult | increfs | acquire | release | decrefs => 4
  | freeBuffer | attemptAcquire | deadBinderDone => 8
  | increfsDone | acquireDone => 16
  | registerLooper | enterLooper | exitLooper => 0
  | requestDeathNotification | clearDeathNotification => 12

/-- The returns, `ARTBOX_BR_*`. -/
inductive BR
  | error | ok | transaction | transactionSecCtx | reply | acquireResult | deadReply
  | transactionComplete | increfs | acquire | release | decrefs | attemptAcquire | noop
  | spawnLooper | finished | deadBinder | clearDeathNotificationDone | failedReply
  | frozenReply | onewaySpamSuspect | transactionPendingFrozen
deriving DecidableEq, Repr

def BR.word : BR → Nat
  | error => 0x80047200
  | ok => 0x00007201
  | transaction => 0x80407202
  | transactionSecCtx => 0x80487202
  | reply => 0x80407203
  | acquireResult => 0x80047204
  | deadReply => 0x00007205
  | transactionComplete => 0x00007206
  | increfs => 0x80107207
  | acquire => 0x80107208
  | release => 0x80107209
  | decrefs => 0x8010720a
  | attemptAcquire => 0x8018720b
  | noop => 0x0000720c
  | spawnLooper => 0x0000720d
  | finished => 0x0000720e
  | deadBinder => 0x8008720f
  | clearDeathNotificationDone => 0x80087210
  | failedReply => 0x00007211
  | frozenReply => 0x00007212
  | onewaySpamSuspect => 0x00007213
  | transactionPendingFrozen => 0x00007214

def BR.all : List BR :=
  [error, ok, transaction, transactionSecCtx, reply, acquireResult, deadReply,
    transactionComplete, increfs, acquire, release, decrefs, attemptAcquire, noop,
    spawnLooper, finished, deadBinder, clearDeathNotificationDone, failedReply,
    frozenReply, onewaySpamSuspect, transactionPendingFrozen]

/-- The return a word names, if any. -/
def BR.ofWord (word : Nat) : Option BR := BR.all.find? fun c => c.word == word

theorem BR.ofWord_word (c : BR) : BR.ofWord c.word = some c := by
  cases c <;> rfl

/-- `read_length`: the payload bytes behind a return. -/
def BR.readLength : BR → Nat
  | error | acquireResult => 4
  | transaction | reply => 64
  | transactionSecCtx => 72
  | increfs | acquire | release | decrefs => 16
  | attemptAcquire => 24
  | deadBinder | clearDeathNotificationDone => 8
  | ok | deadReply | transactionComplete | noop | spawnLooper | finished | failedReply
  | frozenReply | onewaySpamSuspect | transactionPendingFrozen => 0

/-! ## Frames -/

/-- `artbox_binder_direction`. -/
inductive Direction
  | write | read
deriving DecidableEq, Repr

/-- `artbox_binder_frame`; the payload size is the payload's length. -/
structure Frame where
  command : Nat
  payload : List UInt8
deriving DecidableEq, Repr

/-- The results other than success, `ARTBOX_BINDER_END` and its siblings. -/
inductive WireError
  | endOfStream | truncated | unknown | invalid
deriving DecidableEq, Repr

/-- The payload length of a word in the given direction. -/
def frameLength : Direction → Nat → Option Nat
  | .write, word => (BC.ofWord word).map BC.writeLength
  | .read, word => (BR.ofWord word).map BR.readLength

/-- `artbox_binder_next`: the frame at the cursor and the cursor behind it. -/
def binderNext (direction : Direction) (bytes : List UInt8) (cursor : Nat) :
    Except WireError (Frame × Nat) :=
  if bytes.length < cursor then .error .invalid
  else if bytes.length - cursor = 0 then .error .endOfStream
  else if bytes.length - cursor < 4 then .error .truncated
  else
    match frameLength direction (read32 bytes cursor) with
    | none => .error .unknown
    | some length =>
      if bytes.length - cursor - 4 < length then .error .truncated
      else .ok (⟨read32 bytes cursor, (bytes.drop (cursor + 4)).take length⟩, cursor + 4 + length)

/-! ## Transactions -/

/-- `artbox_binder_transaction`, the decoded record. -/
structure TransactionData where
  target : Nat := 0
  cookie : Nat := 0
  code : Nat := 0
  flags : Nat := 0
  senderPid : Nat := 0
  senderEuid : Nat := 0
  dataSize : Nat := 0
  offsetsSize : Nat := 0
  dataBuffer : Nat := 0
  offsetsBuffer : Nat := 0
  buffersSize : Nat := 0
  securityContext : Nat := 0
deriving DecidableEq, Repr

/-- The record length of a command that carries a transaction. -/
def transactionLength (command : Nat) : Option Nat :=
  if command ∈ [BC.transaction.word, BC.reply.word, BR.transaction.word, BR.reply.word] then
    some 64
  else if command ∈ [BC.transactionSg.word, BC.replySg.word, BR.transactionSecCtx.word] then
    some 72
  else none

/-- `artbox_binder_decode_transaction`. -/
def decodeTransaction (frame : Frame) : Except WireError TransactionData :=
  match transactionLength frame.command with
  | none => .error .invalid
  | some length =>
    if frame.payload.length ≠ length then .error .invalid
    else
      let p := frame.payload
      .ok {
        target := read64 p 0, cookie := read64 p 8
        code := read32 p 16, flags := read32 p 20
        senderPid := read32 p 24, senderEuid := read32 p 28
        dataSize := read64 p 32, offsetsSize := read64 p 40
        dataBuffer := read64 p 48, offsetsBuffer := read64 p 56
        buffersSize :=
          if frame.command = BR.transactionSecCtx.word then 0
          else if length = 72 then read64 p 64 else 0
        securityContext :=
          if frame.command = BR.transactionSecCtx.word then read64 p 64 else 0 }

/-! ## Object tables -/

/-- `ARTBOX_BINDER_TYPE_*`. -/
inductive ObjectType
  | binder | weakBinder | handle | weakHandle | fd | fda | ptr
deriving DecidableEq, Repr

def ObjectType.word : ObjectType → Nat
  | binder => 0x73622a85
  | weakBinder => 0x77622a85
  | handle => 0x73682a85
  | weakHandle => 0x77682a85
  | fd => 0x66642a85
  | fda => 0x66646185
  | ptr => 0x70742a85

def ObjectType.all : List ObjectType :=
  [binder, weakBinder, handle, weakHandle, fd, fda, ptr]

def ObjectType.ofWord (word : Nat) : Option ObjectType :=
  ObjectType.all.find? fun t => t.word == word

theorem ObjectType.ofWord_word (t : ObjectType) : ObjectType.ofWord t.word = some t := by
  cases t <;> rfl

theorem ObjectType.word_of_ofWord {word : Nat} {t : ObjectType}
    (h : ObjectType.ofWord word = some t) : t.word = word := by
  have := List.find?_some h
  simpa using this

def ObjectType.length : ObjectType → Nat
  | ptr => 40
  | fda => 32
  | _ => 24

/-- The 64-bit entries of an offset table. -/
def offsetTable (offsets : List UInt8) : List Nat :=
  (List.range (offsets.length / 8)).map fun i => read64 offsets (8 * i)

/-- The loop of `artbox_binder_validate_objects`; `last` is where the previous
object ended. -/
def validateFrom (data : List UInt8) : (last : Nat) → List Nat → Except WireError Unit
  | _, [] => .ok ()
  | last, offset :: rest =>
    if data.length < offset ∨ offset % 4 ≠ 0 ∨ offset < last then .error .invalid
    else if data.length - offset < 4 then .error .invalid
    else
      match ObjectType.ofWord (read32 data offset) with
      | none => .error .unknown
      | some type =>
        if data.length - offset < type.length then .error .invalid
        else validateFrom data (offset + type.length) rest

/-- `artbox_binder_validate_objects`: the number of objects of a sound table. -/
def validateObjects (data offsets : List UInt8) : Except WireError Nat :=
  if offsets.length % 8 ≠ 0 then .error .invalid
  else (validateFrom data 0 (offsetTable offsets)).map fun _ => offsets.length / 8

/-- The objects at `offsets` have known types and lie in `data`, one after the
other, none before `last`. -/
def Placed (data : List UInt8) : (last : Nat) → List Nat → Prop
  | _, [] => True
  | last, offset :: rest =>
    last ≤ offset ∧ ∃ type, ObjectType.ofWord (read32 data offset) = some type ∧
      offset + type.length ≤ data.length ∧ Placed data (offset + type.length) rest

theorem validateFrom_placed {data : List UInt8} {offsets : List Nat} {last : Nat}
    (h : validateFrom data last offsets = .ok ()) : Placed data last offsets := by
  induction offsets generalizing last with
  | nil => trivial
  | cons offset rest ih =>
    simp only [validateFrom] at h
    split at h
    · cases h
    · split at h
      · cases h
      · split at h
        · cases h
        · split at h
          · cases h
          · next type htype _ =>
            exact ⟨by omega, type, htype, by omega, ih h⟩

theorem validateObjects_spec {data offsets : List UInt8} {n : Nat}
    (h : validateObjects data offsets = .ok n) :
    n = (offsetTable offsets).length ∧ offsets.length % 8 = 0 ∧
      Placed data 0 (offsetTable offsets) := by
  simp only [validateObjects] at h
  split at h
  · cases h
  next hmod =>
    cases hv : validateFrom data 0 (offsetTable offsets) with
    | error e => rw [hv] at h; cases h
    | ok u =>
      rw [hv] at h
      refine ⟨?_, by omega, validateFrom_placed hv⟩
      have : n = offsets.length / 8 := (Except.ok.inj h).symm
      simp [this, offsetTable]

end Artbox.Binder
