import Artbox.Lib.Layout
import Artbox.Signals.Model
import Mathlib.Tactic.Common

/-!
# Signal frames

`core/src/signal_context.c` writes the state a handler interrupted into a ucontext and reads
it back when the handler returns, field by field at offsets written out by hand. `ucontext` is
the layout those offsets stand for: the parts of the record in order with their widths. The
encoder makes exactly the record `wire` says (`encodeFrame_eq`), the decoder reads the parts
of whatever record it is given, and the two together give the round trip.
-/

namespace Artbox.Signals

open Bytes

/-- `artbox_arm64_signal_state`; `v` is `v[32][16]`, one register after the other. -/
structure Arm64SignalState where
  x : Vector (BitVec 64) 31
  sp : BitVec 64
  pc : BitVec 64
  pstate : BitVec 64
  faultAddress : BitVec 64
  esr : BitVec 64
  fpsr : BitVec 32
  fpcr : BitVec 32
  v : Vector UInt8 512
deriving DecidableEq

/-- `artbox_signal_frame_info` -/
structure SignalFrameInfo where
  mask : BitVec 64
  stackAddress : BitVec 64
  stackSize : BitVec 64
  stackFlags : BitVec 32
deriving DecidableEq, Repr

/-- `ARTBOX_ARM64_UCONTEXT_BYTES` -/
def ucontextBytes : Nat := 4560

/-- `get` -/
def get (frame : List UInt8) (offset bytes : Nat) : BitVec 64 := BitVec.ofNat 64 (field frame offset bytes)

/-- `put` -/
def put (frame : List UInt8) (offset value bytes : Nat) : List UInt8 :=
  splice frame offset (writeLE bytes value)

/-- The loop of the encoder over the general registers. -/
def putRegisters (frame : List UInt8) (x : Vector (BitVec 64) 31) : List UInt8 :=
  (List.range 31).foldl (fun frame i => put frame (184 + 8 * i) (x.toList.getD i 0).toNat 8) frame

/-- What `artbox_signal_context_encode` makes of a frame that is large enough. -/
def encodeFrame (frame : List UInt8) (state : Arm64SignalState) (info : SignalFrameInfo) : List UInt8 :=
  let frame := splice frame 0 (List.replicate ucontextBytes 0)
  let frame := put frame 16 info.stackAddress.toNat 8
  let frame := put frame 24 info.stackFlags.toNat 4
  let frame := put frame 32 info.stackSize.toNat 8
  let frame := put frame 40 info.mask.toNat 8
  let frame := put frame 176 state.faultAddress.toNat 8
  let frame := putRegisters frame state.x
  let frame := put frame 432 state.sp.toNat 8
  let frame := put frame 440 state.pc.toNat 8
  let frame := put frame 448 state.pstate.toNat 8
  let frame := put frame 464 0x46508001 4
  let frame := put frame (464 + 4) 528 4
  let frame := put frame (464 + 8) state.fpsr.toNat 4
  let frame := put frame (464 + 12) state.fpcr.toNat 4
  let frame := splice frame (464 + 16) state.v.toList
  let frame := put frame 992 0x45535201 4
  let frame := put frame (992 + 4) 16 4
  put frame (992 + 8) state.esr.toNat 8

/-- `artbox_signal_context_encode`: the result and the buffer; none is a null pointer. -/
def signalContextEncode (buffer : Option (List UInt8)) (state : Option Arm64SignalState)
    (info : Option SignalFrameInfo) : Int × Option (List UInt8) :=
  match buffer, state, info with
  | some frame, some state, some info =>
    if frame.length < ucontextBytes then (-22, buffer) else (0, some (encodeFrame frame state info))
  | _, _, _ => (-22, buffer)

/-- The bits of pstate that a handler may change. -/
def nzcv : BitVec 64 := 0xf0000000

/-- The state that `artbox_signal_context_resume` makes of a frame it accepts. -/
def resumeState (frame : List UInt8) (interrupted : Arm64SignalState) : Arm64SignalState :=
  { interrupted with
    x := Vector.ofFn fun i => if i ≠ 18 then get frame (184 + 8 * i) 8 else interrupted.x[i]
    pc := get frame 440 8
    sp := get frame 432 8
    pstate := (interrupted.pstate &&& ~~~nzcv) ||| (get frame 448 8 &&& nzcv)
    fpsr := (get frame (464 + 8) 4).setWidth 32
    fpcr := (get frame (464 + 12) 4).setWidth 32
    v := Vector.ofFn fun i => frame.getD (464 + 16 + i) 0 }

/-- `artbox_signal_context_resume`: the result and the two outputs; none is a null pointer. -/
def signalContextResume (frame : Option (List UInt8)) (interrupted resume : Option Arm64SignalState)
    (mask : Option (BitVec 64)) : Int × Option Arm64SignalState × Option (BitVec 64) :=
  match frame, interrupted, resume, mask with
  | some frame, some interrupted, some _, some _ =>
    if frame.length < ucontextBytes then (-22, resume, mask)
    else if get frame 464 4 ≠ 0x46508001 ∨ get frame (464 + 4) 4 ≠ 528 ∨ get frame 992 4 ≠ 0x45535201 ∨
        get frame (992 + 4) 4 ≠ 16 ∨ get frame 1008 8 ≠ 0 then (-95, resume, mask)
    else if get frame 440 8 = 0 ∨ get frame 432 8 = 0 ∨ get frame 440 8 &&& 3 ≠ 0 ∨
        get frame 432 8 &&& 15 ≠ 0 then (-22, resume, mask)
    else (0, some (resumeState frame interrupted), some (get frame 40 8 &&& ~~~unmaskable))
  | _, _, _, _ => (-22, resume, mask)

/-! ## The layout -/

/-- The parts of a ucontext. -/
inductive Part
  /-- `uc_flags` and `uc_link` -/
  | head
  | stackAddress | stackFlags | stackPad | stackSize
  | mask | maskPad
  | faultAddress | registers | sp | pc | pstate | pad
  | fpsimdMagic | fpsimdBytes | fpsr | fpcr | vectors
  | esrMagic | esrBytes | esr
  | terminator | reserved
deriving DecidableEq, Repr

def Part.width : Part → Nat
  | head => 16
  | stackAddress => 8
  | stackFlags => 4
  | stackPad => 4
  | stackSize => 8
  | mask => 8
  | maskPad => 128
  | faultAddress => 8
  | registers => 8 * 31
  | sp => 8
  | pc => 8
  | pstate => 8
  | pad => 8
  | fpsimdMagic => 4
  | fpsimdBytes => 4
  | fpsr => 4
  | fpcr => 4
  | vectors => 32 * 16
  | esrMagic => 4
  | esrBytes => 4
  | esr => 8
  | terminator => 8
  | reserved => 4096 - 528 - 16 - 8

/-- The Linux ARM64 ucontext. -/
def ucontext : Layout Part where
  order := [.head, .stackAddress, .stackFlags, .stackPad, .stackSize, .mask, .maskPad, .faultAddress,
    .registers, .sp, .pc, .pstate, .pad, .fpsimdMagic, .fpsimdBytes, .fpsr, .fpcr, .vectors,
    .esrMagic, .esrBytes, .esr, .terminator, .reserved]
  width := Part.width
  nodup := by decide
  complete i := by cases i <;> decide

/-- The fields make up the whole of `ucontext`. -/
theorem size_ucontext : ucontext.size = ucontextBytes := rfl

/-- The general registers one after the other. -/
def registerBytes (x : List (BitVec 64)) : List UInt8 := x.flatMap fun r => writeLE 8 r.toNat

theorem length_registerBytes (x : List (BitVec 64)) : (registerBytes x).length = 8 * x.length := by
  induction x with
  | nil => rfl
  | cons r x ih =>
    rw [registerBytes, List.flatMap_cons, List.length_append, length_writeLE, List.length_cons]
    have htail : (x.flatMap fun r => writeLE 8 r.toNat).length = 8 * x.length := ih
    omega

/-- The record of a state and what the frame says about the thread. -/
def wire (state : Arm64SignalState) (info : SignalFrameInfo) : Record ucontext where
  part
    | .stackAddress => writeLE 8 info.stackAddress.toNat
    | .stackFlags => writeLE 4 info.stackFlags.toNat
    | .stackSize => writeLE 8 info.stackSize.toNat
    | .mask => writeLE 8 info.mask.toNat
    | .faultAddress => writeLE 8 state.faultAddress.toNat
    | .registers => registerBytes state.x.toList
    | .sp => writeLE 8 state.sp.toNat
    | .pc => writeLE 8 state.pc.toNat
    | .pstate => writeLE 8 state.pstate.toNat
    | .fpsimdMagic => writeLE 4 0x46508001
    | .fpsimdBytes => writeLE 4 528
    | .fpsr => writeLE 4 state.fpsr.toNat
    | .fpcr => writeLE 4 state.fpcr.toNat
    | .vectors => state.v.toList
    | .esrMagic => writeLE 4 0x45535201
    | .esrBytes => writeLE 4 16
    | .esr => writeLE 8 state.esr.toNat
    | p => List.replicate p.width 0
  length_part p := by
    cases p
    case registers =>
      rw [length_registerBytes, Vector.length_toList]
      rfl
    case vectors => exact Vector.length_toList
    all_goals first
      | exact length_writeLE _ _
      | exact List.length_replicate

/-! ## Encoding -/

section Encode

variable {r : Record ucontext} {rest : List UInt8} {value : Nat}

/-- A field put at the offset of a part. -/
theorem put_part (p : Part) (offset n : Nat) (ho : ucontext.offset p = offset) (h : ucontext.width p = n) :
    put (r.bytes ++ rest) offset value n =
      (r.set p (writeLE n value) ((length_writeLE n value).trans h.symm)).bytes ++ rest := by
  rw [← ho]
  exact Record.splice_value _

/-- The loop over the registers writes them one after the other. -/
theorem putRegisters_part (x : Vector (BitVec 64) 31)
    (h : (registerBytes x.toList).length = ucontext.width .registers) :
    putRegisters (r.bytes ++ rest) x = (r.set .registers (registerBytes x.toList) h).bytes ++ rest := by
  have hlength : x.toList.length = 31 := Vector.length_toList
  -- after `k` rounds the first `k` registers are there
  have hloop : ∀ k ≤ 31, ∀ h', (List.range k).foldl
      (fun frame i => put frame (184 + 8 * i) (x.toList.getD i 0).toNat 8) (r.bytes ++ rest) =
        (r.set .registers (registerBytes (x.toList.take k) ++ (r.part .registers).drop (8 * k)) h').bytes ++
          rest := by
    intro k hk
    induction k with
    | zero =>
      intro h'
      exact congrArg (fun r : Record ucontext => r.bytes ++ rest) (r.set_self .registers).symm
    | succ k ih =>
      intro h'
      have hpart : (r.part .registers).length = 8 * 31 := r.length_part .registers
      have hbefore : (registerBytes (x.toList.take k)).length = 8 * k := by
        rw [length_registerBytes, List.length_take, hlength]
        omega
      have hstep : (registerBytes (x.toList.take k) ++ (r.part .registers).drop (8 * k)).length =
          ucontext.width .registers := by
        rw [List.length_append, hbefore, List.length_drop, hpart]
        show 8 * k + (8 * 31 - 8 * k) = 8 * 31
        omega
      rw [List.range_succ, List.foldl_append, ih (by omega) hstep, List.foldl_cons, List.foldl_nil]
      have hfits : 8 * k + (writeLE 8 (x.toList.getD k 0).toNat).length ≤ ucontext.width .registers := by
        rw [length_writeLE]
        show 8 * k + 8 ≤ 8 * 31
        omega
      refine (Record.splice_part hfits).trans (congrArg (· ++ rest) (Record.bytes_congr fun p => ?_))
      by_cases hp : p = .registers
      · subst hp
        have hget : x.toList.take (k + 1) = x.toList.take k ++ [x.toList.getD k 0] := by
          rw [List.take_add_one, List.getD_eq_getElem?_getD, List.getElem?_eq_getElem (by omega)]
          rfl
        simp only [Record.set, Function.update_self, splice, length_writeLE]
        rw [← hbefore, List.take_left, List.drop_length_add_append, List.drop_drop, hget, registerBytes,
          registerBytes, List.flatMap_append, List.flatMap_singleton, ← registerBytes, hbefore]
        rfl
      · simp only [Record.set, Function.update_of_ne hp]
  have hall := hloop 31 (by omega)
  rw [List.take_of_length_le (by omega), List.drop_eq_nil_of_le (by rw [r.length_part]; decide),
    List.append_nil] at hall
  exact hall h

/-- The frame that is zero. -/
def blank : Record ucontext := ⟨fun p => List.replicate p.width 0, fun _ => List.length_replicate⟩

/-- A blank context is all zeros. -/
theorem bytes_blank : blank.bytes = List.replicate ucontextBytes 0 := by
  have hzero : ∀ l : List Part, l.flatMap (fun p => List.replicate p.width (0 : UInt8)) =
      List.replicate (l.map Part.width).sum 0 := by
    intro l
    induction l with
    | nil => rfl
    | cons p l ih => rw [List.flatMap_cons, ih, List.replicate_append_replicate, List.map_cons, List.sum_cons]
  exact hzero ucontext.order

/-- The encoder makes the record of its state, and leaves what is behind it. -/
theorem encodeFrame_eq (frame : List UInt8) (state : Arm64SignalState) (info : SignalFrameInfo) :
    encodeFrame frame state info = (wire state info).bytes ++ frame.drop ucontextBytes := by
  have hblank : splice frame 0 (List.replicate ucontextBytes 0) = blank.bytes ++ frame.drop ucontextBytes := by
    rw [splice, List.take_zero, List.nil_append, List.length_replicate, Nat.zero_add, bytes_blank]
  have hx : (registerBytes state.x.toList).length = ucontext.width .registers :=
    (wire state info).length_part .registers
  have hv : state.v.toList.length = ucontext.width .vectors := (wire state info).length_part .vectors
  have hvectors : ∀ r : Record ucontext, splice (r.bytes ++ frame.drop ucontextBytes) (464 + 16) state.v.toList =
      (r.set .vectors state.v.toList hv).bytes ++ frame.drop ucontextBytes := fun r =>
    Record.splice_value (i := Part.vectors) hv
  unfold encodeFrame
  dsimp only
  rw [hblank, put_part .stackAddress 16 8 rfl rfl, put_part .stackFlags 24 4 rfl rfl,
    put_part .stackSize 32 8 rfl rfl, put_part .mask 40 8 rfl rfl, put_part .faultAddress 176 8 rfl rfl,
    putRegisters_part state.x hx, put_part .sp 432 8 rfl rfl, put_part .pc 440 8 rfl rfl,
    put_part .pstate 448 8 rfl rfl, put_part .fpsimdMagic 464 4 rfl rfl,
    put_part .fpsimdBytes (464 + 4) 4 rfl rfl, put_part .fpsr (464 + 8) 4 rfl rfl,
    put_part .fpcr (464 + 12) 4 rfl rfl, hvectors, put_part .esrMagic 992 4 rfl rfl,
    put_part .esrBytes (992 + 4) 4 rfl rfl, put_part .esr (992 + 8) 8 rfl rfl]
  refine congrArg (· ++ frame.drop ucontextBytes) (Record.bytes_congr fun p => ?_)
  cases p <;> rfl

end Encode

/-! ## Decoding -/

section Decode

variable {r : Record ucontext} {rest : List UInt8} {interrupted t : Arm64SignalState}

/-- A part as the decoder reads it. -/
def word (r : Record ucontext) (p : Part) : BitVec 64 := BitVec.ofNat 64 (r.value p)

/-- General register `i` in a record. -/
def registerWord (r : Record ucontext) (i : Nat) : BitVec 64 :=
  BitVec.ofNat 64 (field (r.part .registers) (8 * i) 8)

/-- A field read at the offset of a part. -/
theorem get_part (p : Part) (offset n : Nat) (ho : ucontext.offset p = offset) (h : ucontext.width p = n) :
    get (r.bytes ++ rest) offset n = word r p := by
  rw [get, ← ho, Record.field_value h, word]

/-- Each register is read back from its place. -/
theorem get_register {i : Nat} (hi : i < 31) :
    get (r.bytes ++ rest) (184 + 8 * i) 8 = registerWord r i := by
  have hpart : field (r.bytes ++ rest) (ucontext.offset .registers + 8 * i) 8 =
      field (r.part .registers) (8 * i) 8 := by
    apply Record.field_part
    show 8 * i + 8 ≤ 8 * 31
    omega
  rw [get, registerWord, ← hpart]
  rfl

/-- Each byte of the vector registers is read back from its place. -/
theorem getD_vectors {i : Nat} (hi : i < 512) :
    (r.bytes ++ rest).getD (464 + 16 + i) 0 = (r.part .vectors).getD i 0 := by
  have hslice : ((r.bytes ++ rest).drop (ucontext.offset .vectors)).take 512 = r.part .vectors :=
    Record.slice_part rfl
  rw [← hslice, List.getD_eq_getElem?_getD, List.getD_eq_getElem?_getD, List.getElem?_take_of_lt hi,
    List.getElem?_drop]
  rfl

/-- What a resumed state has from the frame and what it has from the interrupted one. -/
structure Resumed (r : Record ucontext) (interrupted t : Arm64SignalState) : Prop where
  x18 : t.x[18] = interrupted.x[18]
  esr : t.esr = interrupted.esr
  faultAddress : t.faultAddress = interrupted.faultAddress
  pstate_kept : t.pstate &&& ~~~nzcv = interrupted.pstate &&& ~~~nzcv
  pstate_taken : t.pstate &&& nzcv = word r .pstate &&& nzcv
  x : ∀ i : Fin 31, i ≠ 18 → t.x[i] = registerWord r i
  fpsr : t.fpsr = (word r .fpsr).setWidth 32
  fpcr : t.fpcr = (word r .fpcr).setWidth 32
  v : t.v.toList = r.part .vectors
  pc : t.pc = word r .pc
  sp : t.sp = word r .sp

/-- The record is one the encoder emits but for what a handler may change. -/
def Emitted (r : Record ucontext) : Prop :=
  word r .fpsimdMagic = 0x46508001 ∧ word r .fpsimdBytes = 528 ∧ word r .esrMagic = 0x45535201 ∧
    word r .esrBytes = 16 ∧ word r .terminator = 0

/-- The pc and the sp of a record can be resumed at. -/
def Landing (r : Record ucontext) : Prop :=
  word r .pc ≠ 0 ∧ word r .sp ≠ 0 ∧ word r .pc &&& 3 = 0 ∧ word r .sp &&& 15 = 0

instance (r : Record ucontext) : Decidable (Emitted r) := inferInstanceAs (Decidable (_ ∧ _))

instance (r : Record ucontext) : Decidable (Landing r) := inferInstanceAs (Decidable (_ ∧ _))

/-- The decoder on the record a frame begins with. -/
theorem resume_eq (r : Record ucontext) (rest : List UInt8) (interrupted resume : Arm64SignalState)
    (mask : BitVec 64) :
    signalContextResume (some (r.bytes ++ rest)) (some interrupted) (some resume) (some mask) =
      if ¬ Emitted r then (-95, some resume, some mask)
      else if ¬ Landing r then (-22, some resume, some mask)
      else (0, some (resumeState (r.bytes ++ rest) interrupted), some (word r .mask &&& ~~~unmaskable)) := by
  have hlength : ¬ (r.bytes ++ rest).length < ucontextBytes := by
    rw [List.length_append, r.length_bytes, size_ucontext]
    omega
  unfold signalContextResume
  dsimp only
  rw [if_neg hlength, get_part .fpsimdMagic 464 4 rfl rfl, get_part .fpsimdBytes (464 + 4) 4 rfl rfl,
    get_part .esrMagic 992 4 rfl rfl, get_part .esrBytes (992 + 4) 4 rfl rfl,
    get_part .terminator 1008 8 rfl rfl, get_part .pc 440 8 rfl rfl, get_part .sp 432 8 rfl rfl,
    get_part .mask 40 8 rfl rfl]
  refine if_congr ?_ rfl (if_congr ?_ rfl rfl)
  · rw [Emitted]
    tauto
  · rw [Landing]
    tauto

/-- Resuming takes every general register but x18 from the frame. -/
theorem resumeState_x (frame : List UInt8) (interrupted : Arm64SignalState) (i : Fin 31) :
    (resumeState frame interrupted).x[i] =
      if i ≠ 18 then get frame (184 + 8 * i) 8 else interrupted.x[i] := by
  simp only [resumeState, Fin.getElem_fin, Vector.getElem_ofFn]

/-- Resuming takes all vector registers from the frame. -/
theorem resumeState_v (frame : List UInt8) (interrupted : Arm64SignalState) :
    (resumeState frame interrupted).v.toList = List.ofFn fun i : Fin 512 => frame.getD (464 + 16 + i) 0 := by
  simp only [resumeState, Vector.toList_ofFn]

/-- Bits under a mask and bits outside it do not disturb each other. -/
theorem merged (m a b : BitVec 64) :
    ((a &&& ~~~m) ||| (b &&& m)) &&& ~~~m = a &&& ~~~m ∧ ((a &&& ~~~m) ||| (b &&& m)) &&& m = b &&& m := by
  constructor <;>
  · ext i hi
    simp only [BitVec.getElem_and, BitVec.getElem_or, BitVec.getElem_not]
    cases m[i] <;> simp

/-- A frame in memory is resumed field by field. -/
theorem resumeState_resumed (r : Record ucontext) (rest : List UInt8) (interrupted : Arm64SignalState) :
    Resumed r interrupted (resumeState (r.bytes ++ rest) interrupted) := by
  have hpstate : (resumeState (r.bytes ++ rest) interrupted).pstate =
      (interrupted.pstate &&& ~~~nzcv) ||| (word r .pstate &&& nzcv) := by
    have hget : get (r.bytes ++ rest) 448 8 = word r .pstate := get_part .pstate 448 8 rfl rfl
    rw [← hget]
    rfl
  have hpart : (r.part .vectors).length = 512 := r.length_part .vectors
  refine ⟨?_, by simp only [resumeState], by simp only [resumeState], ?_, ?_, fun i hi => ?_, ?_, ?_, ?_, ?_, ?_⟩
  · have h18 := resumeState_x (r.bytes ++ rest) interrupted ⟨18, by decide⟩
    rw [if_neg (by decide)] at h18
    exact h18
  · rw [hpstate, (merged nzcv _ _).1]
  · rw [hpstate, (merged nzcv _ _).2]
  · rw [resumeState_x, if_pos hi, get_register i.2]
  · exact congrArg (BitVec.setWidth 32) (get_part .fpsr (464 + 8) 4 rfl rfl)
  · exact congrArg (BitVec.setWidth 32) (get_part .fpcr (464 + 12) 4 rfl rfl)
  · rw [resumeState_v]
    apply List.ext_getElem
    · rw [List.length_ofFn, hpart]
    · intro i hi hi'
      rw [List.getElem_ofFn, getD_vectors (by omega), List.getD_eq_getElem?_getD,
        List.getElem?_eq_getElem hi']
      rfl
  · exact get_part .pc 440 8 rfl rfl
  · exact get_part .sp 432 8 rfl rfl

/-- Aligned words as numbers. -/
theorem and_low_eq_zero {w : BitVec 64} : (w &&& 3 = 0 ↔ w.toNat % 4 = 0) ∧ (w &&& 15 = 0 ↔ w.toNat % 16 = 0) := by
  constructor
  · rw [← BitVec.toNat_inj, BitVec.toNat_and]
    exact iff_of_eq (congrArg (· = 0) (Nat.and_two_pow_sub_one_eq_mod w.toNat 2))
  · rw [← BitVec.toNat_inj, BitVec.toNat_and]
    exact iff_of_eq (congrArg (· = 0) (Nat.and_two_pow_sub_one_eq_mod w.toNat 4))

/-- Every way to fail leaves the outputs as they were. -/
theorem resume_failed {frame : Option (List UInt8)} {interrupted resume : Option Arm64SignalState}
    {mask : Option (BitVec 64)} (h : (signalContextResume frame interrupted resume mask).1 ≠ 0) :
    (signalContextResume frame interrupted resume mask).2 = (resume, mask) := by
  unfold signalContextResume at h ⊢
  split at h
  · split_ifs at h ⊢ with h1 h2 h3
    · rfl
    · rfl
    · rfl
    · exact absurd rfl h
  · rfl

end Decode

/-! ## The two together -/

section RoundTrip

variable {state : Arm64SignalState} {info : SignalFrameInfo}

theorem word_writeLE (w : BitVec 64) : BitVec.ofNat 64 (readLE (writeLE 8 w.toNat)) = w := by
  have hlt : w.toNat < 256 ^ 8 := w.isLt
  rw [readLE_writeLE, Nat.mod_eq_of_lt hlt, BitVec.ofNat_toNat, BitVec.setWidth_eq]

theorem half_writeLE (w : BitVec 32) : (BitVec.ofNat 64 (readLE (writeLE 4 w.toNat))).setWidth 32 = w := by
  have hlt : w.toNat < 256 ^ 4 := w.isLt
  rw [readLE_writeLE, Nat.mod_eq_of_lt hlt]
  apply BitVec.eq_of_toNat_eq
  rw [BitVec.toNat_setWidth, BitVec.toNat_ofNat]
  omega

theorem field_registerBytes (x : List (BitVec 64)) {i : Nat} (hi : i < x.length) :
    field (registerBytes x) (8 * i) 8 = x[i].toNat := by
  have hsplit : registerBytes x =
      registerBytes (x.take i) ++ (writeLE 8 x[i].toNat ++ registerBytes (x.drop (i + 1))) := by
    conv_lhs => rw [← List.take_append_drop i x, List.drop_eq_getElem_cons hi]
    rw [registerBytes, List.flatMap_append, List.flatMap_cons]
    rfl
  have hbefore : (registerBytes (x.take i)).length = 8 * i := by
    rw [length_registerBytes, List.length_take, Nat.min_eq_left (Nat.le_of_lt hi)]
  have hlt : x[i].toNat < 256 ^ 8 := x[i].isLt
  rw [hsplit, field_append_of_le (Nat.le_of_eq hbefore), hbefore, Nat.sub_self, field_writeLE_append,
    Nat.mod_eq_of_lt hlt]

/-- The record of a state is one that the encoder emits. -/
theorem wire_emitted : Emitted (wire state info) := ⟨rfl, rfl, rfl, rfl, rfl⟩

/-- What is resumed from the frame of a state is that state. -/
theorem eq_of_resumed {t : Arm64SignalState} (h : Resumed (wire state info) state t) : t = state := by
  have hx : t.x = state.x := by
    apply Vector.ext
    intro i hi
    by_cases h18 : i = 18
    · subst h18
      exact h.x18
    · have hne : (⟨i, hi⟩ : Fin 31) ≠ 18 := fun heq => h18 (congrArg Fin.val heq)
      have hreg := h.x ⟨i, hi⟩ hne
      rw [Fin.getElem_fin] at hreg
      rw [hreg]
      show BitVec.ofNat 64 (field (registerBytes state.x.toList) (8 * i) 8) = _
      rw [field_registerBytes _ (by rw [Vector.length_toList]; exact hi), BitVec.ofNat_toNat,
        BitVec.setWidth_eq, Vector.getElem_toList]
  have hpstate : t.pstate = state.pstate := by
    have hsplit : ∀ w : BitVec 64, w = (w &&& ~~~nzcv) ||| (w &&& nzcv) := by
      intro w
      have hall : ~~~nzcv ||| nzcv = BitVec.allOnes 64 := by decide
      rw [← BitVec.and_or_distrib_left, hall, BitVec.and_allOnes]
    have htaken : word (wire state info) .pstate = state.pstate := word_writeLE _
    rw [hsplit t.pstate, h.pstate_kept, h.pstate_taken, htaken, ← hsplit]
  have hv : t.v = state.v := Vector.toList_inj.1 h.v
  have hfpsr : t.fpsr = state.fpsr := h.fpsr.trans (half_writeLE _)
  have hfpcr : t.fpcr = state.fpcr := h.fpcr.trans (half_writeLE _)
  have hpc : t.pc = state.pc := h.pc.trans (word_writeLE _)
  have hsp : t.sp = state.sp := h.sp.trans (word_writeLE _)
  cases t
  cases state
  simp only [Arm64SignalState.mk.injEq]
  exact ⟨hx, hsp, hpc, hpstate, h.faultAddress, h.esr, hfpsr, hfpcr, hv⟩

/-- The encoding writes the context and nothing behind it. -/
theorem signalContextEncode_eq {frame : List UInt8} (h : ucontextBytes ≤ frame.length) :
    signalContextEncode (some frame) (some state) (some info) =
      (0, some ((wire state info).bytes ++ frame.drop ucontextBytes)) := by
  unfold signalContextEncode
  dsimp only
  rw [if_neg (Nat.not_lt.2 h), encodeFrame_eq]

/-- Encoding writes the whole record of the state and the info, whatever was there, and nothing
behind it. A state with an aligned pc and sp is resumed from its own frame as it was, with the
mask less what cannot be masked. Whatever the record of a frame says, a successful resume takes
from it no more than a handler may change, at an aligned pc and sp; a failed one changes nothing. -/
theorem signal_frame_contained :
    (∀ (frame : List UInt8) (state : Arm64SignalState) (info : SignalFrameInfo), ucontextBytes ≤ frame.length →
      signalContextEncode (some frame) (some state) (some info) =
        (0, some ((wire state info).bytes ++ frame.drop ucontextBytes)) ∧
      (wire state info).bytes.length = ucontextBytes) ∧
    (∀ (frame : List UInt8) (state resume : Arm64SignalState) (info : SignalFrameInfo) (mask : BitVec 64),
      ucontextBytes ≤ frame.length → state.pc ≠ 0 → state.pc.toNat % 4 = 0 → state.sp ≠ 0 →
      state.sp.toNat % 16 = 0 →
      signalContextResume (signalContextEncode (some frame) (some state) (some info)).2 (some state)
        (some resume) (some mask) = (0, some state, some (info.mask &&& ~~~unmaskable))) ∧
    (∀ frame : List UInt8, ucontextBytes ≤ frame.length →
      ∃ (r : Record ucontext) (rest : List UInt8), frame = r.bytes ++ rest) ∧
    (∀ (r : Record ucontext) (rest : List UInt8) (interrupted resume t : Arm64SignalState) (mask mask' : BitVec 64),
      signalContextResume (some (r.bytes ++ rest)) (some interrupted) (some resume) (some mask) =
        (0, some t, some mask') →
      Resumed r interrupted t ∧ t.pc ≠ 0 ∧ t.pc.toNat % 4 = 0 ∧ t.sp ≠ 0 ∧ t.sp.toNat % 16 = 0 ∧
        mask' = word r .mask &&& ~~~unmaskable) ∧
    (∀ (frame : Option (List UInt8)) (interrupted resume : Option Arm64SignalState) (mask : Option (BitVec 64)),
      (signalContextResume frame interrupted resume mask).1 ≠ 0 →
      (signalContextResume frame interrupted resume mask).2 = (resume, mask)) := by
  refine ⟨fun frame state info h => ⟨signalContextEncode_eq h, Record.length_bytes _⟩, ?_,
    fun frame h => Record.exists_record ucontext h, ?_, fun _ _ _ _ => resume_failed⟩
  · intro frame state resume info mask h hpc hpc4 hsp hsp16
    have hlanding : Landing (wire state info) := by
      have hwpc : word (wire state info) .pc = state.pc := word_writeLE _
      have hwsp : word (wire state info) .sp = state.sp := word_writeLE _
      rw [Landing, hwpc, hwsp]
      exact ⟨hpc, hsp, and_low_eq_zero.1.2 hpc4, and_low_eq_zero.2.2 hsp16⟩
    have hmask : word (wire state info) .mask = info.mask := word_writeLE _
    have hstate := eq_of_resumed (resumeState_resumed (wire state info) (frame.drop ucontextBytes) state)
    rw [signalContextEncode_eq h, resume_eq, if_neg (not_not.2 wire_emitted), if_neg (not_not.2 hlanding),
      hmask, hstate]
  · intro r rest interrupted resume t mask mask' h
    rw [resume_eq] at h
    by_cases hemitted : Emitted r
    · by_cases hlanding : Landing r
      · rw [if_neg (not_not.2 hemitted), if_neg (not_not.2 hlanding)] at h
        obtain ⟨hpc, hsp, hpc4, hsp16⟩ := hlanding
        have ht := Option.some.inj (congrArg (·.2.1) h)
        have hmask := Option.some.inj (congrArg (·.2.2) h)
        have hr := resumeState_resumed r rest interrupted
        rw [ht] at hr
        rw [hr.pc, hr.sp]
        exact ⟨hr, hpc, and_low_eq_zero.1.1 hpc4, hsp, and_low_eq_zero.2.1 hsp16, hmask.symm⟩
      · rw [if_neg (not_not.2 hemitted), if_pos hlanding] at h
        have hcode : (-22 : Int) = 0 := congrArg Prod.fst h
        exact absurd hcode (by decide)
    · rw [if_pos hemitted] at h
      have hcode : (-95 : Int) = 0 := congrArg Prod.fst h
      exact absurd hcode (by decide)

/-- A state at an aligned pc and sp. -/
def sampleState : Arm64SignalState :=
  { x := Vector.ofFn fun i => BitVec.ofNat 64 (1000 + i), sp := 0x8000, pc := 0x4004, pstate := 0x60001000
    faultAddress := 7, esr := 0x92000046, fpsr := 1, fpcr := 2, v := Vector.replicate 512 9 }

/-- A frame of the sample state is encoded and resumed. -/
theorem signal_frame_contained_sample :
    signalContextResume (signalContextEncode (some (List.replicate 4560 0xff)) (some sampleState)
        (some ⟨0x40101, 0, 0, 2⟩)).2 (some sampleState) (some sampleState) (some 0) =
      (0, some sampleState, some 1) :=
  signal_frame_contained.2.1 _ _ _ _ _ (Nat.le_of_eq List.length_replicate.symm) (by decide) (by decide)
    (by decide) (by decide)

end RoundTrip

end Artbox.Signals
