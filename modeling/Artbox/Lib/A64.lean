import Artbox.Lib.Pace
import Artbox.Lib.Words
import Mathlib.Data.Fin.Basic
import Mathlib.Logic.Function.Basic
import Mathlib.Data.Set.Basic
import Mathlib.Tactic.Tauto

/-!
# A part of A64

The 64-bit instruction set of Arm, as far as straight programs of general-purpose code need it:
constants, moves, comparisons, branches within the program, loads and stores of 64-bit words, pairs of
them, the flags as a register, calls through a register. `decode` looks a word up in a table of masks,
which exclude each other (`patterns_apart`), so that the first match is the only one (`decode_of_mem`).
`exec` is what an instruction does. An exception, such as an access that is not permitted, is not in
here, and what a supervisor call does is its environment's.
-/

namespace A64

open Words

/-- For the literals of registers. -/
scoped instance neZeroRegisters : NeZero 32 := ⟨by decide⟩

/-- The condition flags. -/
structure Flags where
  n : Bool
  z : Bool
  c : Bool
  v : Bool
deriving DecidableEq, Repr

/-- The registers with the memory. Register 31 is the stack pointer. -/
structure State where
  x : Fin 32 → Word
  pc : Word
  flags : Flags
  mem : Mem

namespace State

/-- The value of an operand, where register 31 is zero. -/
def reg (s : State) (r : Fin 32) : Word := if r = 31 then 0 else s.x r

/-- A result, which is dropped in register 31. -/
def put (s : State) (r : Fin 32) (v : Word) : State :=
  { s with x := if r = 31 then s.x else Function.update s.x r v }

def setFlags (s : State) (f : Flags) : State := { s with flags := f }

/-- A word in the memory. -/
def write (s : State) (a v : Word) : State := { s with mem := store s.mem a v }

/-- The stack pointer. -/
def sp (s : State) : Word := s.x 31

/-- The counter behind the instruction. -/
def next (s : State) : State := { s with pc := s.pc + 4 }

/-- The counter at a distance. -/
def jump (s : State) (offset : Int) : State := { s with pc := s.pc + BitVec.ofInt 64 offset }

/-- A branch that is taken or not. -/
def branch (s : State) (taken : Bool) (offset : Int) : State := if taken then s.jump offset else s.next

/-- Whether an operand is zero, all of it or its lower half. -/
def isZero (s : State) (wide : Bool) (r : Fin 32) : Bool :=
  if wide then s.reg r = 0 else (s.reg r).setWidth 32 = 0

end State

/-! ## Flags -/

/-- The flags of a subtraction. Carry means that nothing was borrowed. -/
def Flags.ofSub (a b : Word) : Flags where
  n := (a - b).msb
  z := a - b = 0
  c := b ≤ a
  v := BitVec.ssubOverflow a b

/-- The flags as a register has them. -/
def Flags.toWord (f : Flags) : Word :=
  (if f.n then 1 <<< 31 else 0) ||| (if f.z then 1 <<< 30 else 0) ||| (if f.c then 1 <<< 29 else 0) |||
    (if f.v then 1 <<< 28 else 0)

def Flags.ofWord (w : Word) : Flags where
  n := w.getLsbD 31
  z := w.getLsbD 30
  c := w.getLsbD 29
  v := w.getLsbD 28

/-- Whether a condition holds. An odd one is the opposite of the one before it, but for the last. -/
def Flags.holds (f : Flags) (cond : Fin 16) : Bool :=
  let positive :=
    match cond.val / 2 with
    | 0 => f.z
    | 1 => f.c
    | 2 => f.n
    | 3 => f.v
    | 4 => f.c && !f.z
    | 5 => f.n == f.v
    | 6 => f.n == f.v && !f.z
    | _ => true
  if cond.val % 2 = 1 ∧ cond ≠ 15 then !positive else positive

/-- Flags are read back from their word. -/
theorem Flags.ofWord_toWord (f : Flags) : Flags.ofWord f.toWord = f := by
  obtain ⟨n, z, c, v⟩ := f
  cases n <;> cases z <;> cases c <;> cases v <;> rfl

/-! ## Instructions -/

/-- When the base of a pair takes the offset: never, before the access or after it. -/
inductive Index where
  | offset
  | pre
  | post
deriving DecidableEq, Repr

inductive Instr where
  | svc
  | nop
  /-- MOVZ and MOVN -/
  | const (d : Fin 32) (value : Word)
  | mov (d m : Fin 32)
  | cmpImm (n : Fin 32) (value : Word)
  | cmp (n m : Fin 32)
  | adr (d : Fin 32) (offset : Int)
  | b (offset : Int)
  | bcond (cond : Fin 16) (offset : Int)
  /-- CBZ and CBNZ, of 64 bits or 32 -/
  | cbz (wide nonzero : Bool) (t : Fin 32) (offset : Int)
  | ldr (t n : Fin 32) (offset : Word)
  | str (t n : Fin 32) (offset : Word)
  | ldp (index : Index) (t u n : Fin 32) (offset : Int)
  | stp (index : Index) (t u n : Fin 32) (offset : Int)
  /-- The flags to a register -/
  | mrs (t : Fin 32)
  /-- The flags from a register -/
  | msr (t : Fin 32)
  | blr (n : Fin 32)
deriving DecidableEq, Repr

/-- Where a pair is. -/
def Index.address (index : Index) (base : Word) (offset : Int) : Word :=
  if index = .post then base else base + BitVec.ofInt 64 offset

/-- What becomes of the base of a pair. -/
def Index.base (index : Index) (base : Word) (offset : Int) : Word :=
  if index = .offset then base else base + BitVec.ofInt 64 offset

/-- The base of a pair takes the offset. -/
def State.rebase (s : State) (index : Index) (n : Fin 32) (offset : Int) : State :=
  { s with x := Function.update s.x n (index.base (s.x n) offset) }

/-- What an instruction does. A supervisor call has no effect of its own. -/
def exec (s : State) : Instr → State
  | .svc => s
  | .nop => s.next
  | .const d value => (s.put d value).next
  | .mov d m => (s.put d (s.reg m)).next
  | .cmpImm n value => (s.setFlags (.ofSub (s.x n) value)).next
  | .cmp n m => (s.setFlags (.ofSub (s.reg n) (s.reg m))).next
  | .adr d offset => (s.put d (s.pc + BitVec.ofInt 64 offset)).next
  | .b offset => s.jump offset
  | .bcond cond offset => s.branch (s.flags.holds cond) offset
  | .cbz wide nonzero t offset => s.branch (s.isZero wide t != nonzero) offset
  | .ldr t n offset => (s.put t (load s.mem (s.x n + offset))).next
  | .str t n offset => (s.write (s.x n + offset) (s.reg t)).next
  | .ldp index t u n offset =>
    let a := index.address (s.x n) offset
    (((s.rebase index n offset).put t (load s.mem a)).put u (load s.mem (a + 8))).next
  | .stp index t u n offset =>
    let a := index.address (s.x n) offset
    (((s.rebase index n offset).write a (s.reg t)).write (a + 8) (s.reg u)).next
  | .mrs t => (s.put t s.flags.toWord).next
  | .msr t => (s.setFlags (.ofWord (s.reg t))).next
  | .blr n => { s.put 30 (s.pc + 4) with pc := s.reg n }

namespace Instr

/-- The registers an instruction names. -/
def names : Instr → List (Fin 32)
  | .svc | .nop | .b _ | .bcond _ _ => []
  | .const d _ | .adr d _ => [d]
  | .mov d m => [d, m]
  | .cmpImm n _ => [n]
  | .cmp n m => [n, m]
  | .cbz _ _ t _ => [t]
  | .ldr t n _ | .str t n _ => [t, n]
  | .ldp _ t u n _ | .stp _ t u n _ => [t, u, n]
  | .mrs t | .msr t => [t]
  | .blr n => [n, 30]

/-- The registers an instruction may change. -/
def writes : Instr → List (Fin 32)
  | .const d _ | .mov d _ | .adr d _ | .ldr d _ _ | .mrs d => [d]
  | .ldp _ t u n _ => [t, u, n]
  | .stp _ _ _ n _ => [n]
  | .blr _ => [30]
  | _ => []

/-- The distance of a branch. -/
def offset : Instr → Option Int
  | .b offset | .bcond _ offset | .cbz _ _ _ offset => some offset
  | _ => none

/-- The instructions that only go on to the next one. -/
def straight : Instr → Bool
  | .svc | .b _ | .bcond _ _ | .cbz _ _ _ _ | .blr _ => false
  | _ => true

/-- The instructions on pairs. -/
def paired : Instr → Bool
  | .ldp _ _ _ _ _ | .stp _ _ _ _ _ => true
  | _ => false

/-- The bytes an instruction reads or writes. -/
def Touches : Instr → State → Word → Prop
  | .ldr _ n offset, s, a | .str _ n offset, s, a => Within (s.x n + offset) 8 a
  | .ldp index _ _ n offset, s, a | .stp index _ _ n offset, s, a => Within (index.address (s.x n) offset) 16 a
  | _, _, _ => False

end Instr

/-! ## Decoding -/

/-- The register at a bit of a word. -/
def regAt (w i : Nat) : Fin 32 := Fin.ofNat 32 (w >>> i)

/-- The signed field of some bits from a bit on. -/
def signedAt (w i bits : Nat) : Int := (BitVec.ofNat bits (w >>> i)).toInt

/-- The constant of MOVZ: 16 bits at one of four places. -/
def wideAt (w : Nat) : Word := BitVec.ofNat 64 (((w >>> 5) % 2 ^ 16) <<< (16 * ((w >>> 21) % 4)))

/-- The distance of ADR, whose two low bits are at the top. -/
def labelAt (w : Nat) : Int := (BitVec.ofNat 21 ((w >>> 5) % 2 ^ 19 * 4 + (w >>> 29) % 4)).toInt

/-- An unsigned field of 12 bits. -/
def immAt (w : Nat) : Nat := (w >>> 10) % 2 ^ 12

/-- The words that have some bits in common, and what they stand for. -/
structure Pattern where
  mask : Nat
  value : Nat
  instr : Nat → Instr

namespace Pattern

def svc : Pattern := ⟨0xffffffff, 0xd4000001, fun _ => .svc⟩

def nop : Pattern := ⟨0xffffffff, 0xd503201f, fun _ => .nop⟩

def movz : Pattern := ⟨0xff800000, 0xd2800000, fun w => .const (regAt w 0) (wideAt w)⟩

def movn : Pattern := ⟨0xff800000, 0x92800000, fun w => .const (regAt w 0) (~~~wideAt w)⟩

/-- ORR with the zero register -/
def mov : Pattern := ⟨0xffe0ffe0, 0xaa0003e0, fun w => .mov (regAt w 0) (regAt w 16)⟩

/-- SUBS to the zero register, of a constant that is not shifted -/
def cmpImm : Pattern := ⟨0xffc0001f, 0xf100001f, fun w => .cmpImm (regAt w 5) (BitVec.ofNat 64 (immAt w))⟩

/-- SUBS to the zero register, of a register that is not shifted -/
def cmp : Pattern := ⟨0xffe0fc1f, 0xeb00001f, fun w => .cmp (regAt w 5) (regAt w 16)⟩

def adr : Pattern := ⟨0x9f000000, 0x10000000, fun w => .adr (regAt w 0) (labelAt w)⟩

def b : Pattern := ⟨0xfc000000, 0x14000000, fun w => .b (signedAt w 0 26 * 4)⟩

def bcond : Pattern := ⟨0xff000010, 0x54000000, fun w => .bcond (Fin.ofNat 16 w) (signedAt w 5 19 * 4)⟩

def cbz : Pattern :=
  ⟨0x7e000000, 0x34000000, fun w => .cbz (w.testBit 31) (w.testBit 24) (regAt w 0) (signedAt w 5 19 * 4)⟩

def ldr : Pattern := ⟨0xffc00000, 0xf9400000, fun w => .ldr (regAt w 0) (regAt w 5) (BitVec.ofNat 64 (immAt w * 8))⟩

def str : Pattern := ⟨0xffc00000, 0xf9000000, fun w => .str (regAt w 0) (regAt w 5) (BitVec.ofNat 64 (immAt w * 8))⟩

def ldp : Pattern :=
  ⟨0xffc00000, 0xa9400000, fun w => .ldp .offset (regAt w 0) (regAt w 10) (regAt w 5) (signedAt w 15 7 * 8)⟩

def ldpPost : Pattern :=
  ⟨0xffc00000, 0xa8c00000, fun w => .ldp .post (regAt w 0) (regAt w 10) (regAt w 5) (signedAt w 15 7 * 8)⟩

def stp : Pattern :=
  ⟨0xffc00000, 0xa9000000, fun w => .stp .offset (regAt w 0) (regAt w 10) (regAt w 5) (signedAt w 15 7 * 8)⟩

def stpPre : Pattern :=
  ⟨0xffc00000, 0xa9800000, fun w => .stp .pre (regAt w 0) (regAt w 10) (regAt w 5) (signedAt w 15 7 * 8)⟩

def mrs : Pattern := ⟨0xffffffe0, 0xd53b4200, fun w => .mrs (regAt w 0)⟩

def msr : Pattern := ⟨0xffffffe0, 0xd51b4200, fun w => .msr (regAt w 0)⟩

def blr : Pattern := ⟨0xfffffc1f, 0xd63f0000, fun w => .blr (regAt w 5)⟩

end Pattern

def patterns : List Pattern :=
  [.svc, .nop, .movz, .movn, .mov, .cmpImm, .cmp, .adr, .b, .bcond, .cbz, .ldr, .str, .ldp, .ldpPost, .stp, .stpPre,
   .mrs, .msr, .blr]

/-- The instruction a word stands for. -/
def decode (w : Nat) : Option Instr :=
  (patterns.find? fun p => w &&& p.mask = p.value).map fun p => p.instr w

/-- No word has the bits of two patterns. -/
theorem patterns_apart : patterns.Pairwise fun p q => p.value &&& q.mask ≠ q.value &&& p.mask := by
  decide

/-- In a table whose entries exclude each other, what matches is the first match. -/
theorem find?_of_apart {l : List Pattern} {w : Nat} {p : Pattern}
    (hl : l.Pairwise fun p q => p.value &&& q.mask ≠ q.value &&& p.mask) (hp : p ∈ l)
    (hw : w &&& p.mask = p.value) : (l.find? fun q => w &&& q.mask = q.value) = some p := by
  induction l with
  | nil => cases hp
  | cons q l ih =>
    rw [List.pairwise_cons] at hl
    rcases List.mem_cons.1 hp with rfl | hp
    · exact List.find?_cons_of_pos (by simpa using hw)
    · have hq : w &&& q.mask ≠ q.value := by
        intro hq
        refine hl.1 p hp ?_
        rw [← hq, ← hw, Nat.and_assoc, Nat.and_assoc, Nat.and_comm q.mask]
      rw [List.find?_cons_of_neg (by simpa using hq)]
      exact ih hl.2 hp

/-- A word that matches one of the patterns is decoded by it. -/
theorem decode_of_mem {w : Nat} {p : Pattern} (hp : p ∈ patterns) (hw : w &&& p.mask = p.value) :
    decode w = some (p.instr w) := by
  rw [decode, find?_of_apart patterns_apart hp hw]
  rfl

/-- A number below a bit has nothing in common with what is shifted to it. -/
theorem and_shiftLeft_of_lt {n i m : Nat} (h : n < 2 ^ i) : n &&& m <<< i = 0 := by
  refine Nat.eq_of_testBit_eq fun j => ?_
  rw [Nat.testBit_and, Nat.testBit_shiftLeft, Nat.zero_testBit]
  by_cases hj : j < i
  · rw [decide_eq_false (Nat.not_le.2 hj), Bool.false_and, Bool.and_false]
  · have hzero : n.testBit j = false :=
      Nat.testBit_lt_two_pow (Nat.lt_of_lt_of_le h (Nat.pow_le_pow_right (by decide) (Nat.not_lt.1 hj)))
    rw [hzero, Bool.false_and]

/-- The word of a branch, by its distance in words. -/
theorem decode_b {n : Nat} (hn : n < 2 ^ 26) :
    decode (0x14000000 ||| n) = some (.b ((BitVec.ofNat 26 n).toInt * 4)) := by
  have hconst : (0xfc000000 : Nat) = 0x3f <<< 26 := rfl
  have hmask : (0x14000000 ||| n) &&& 0xfc000000 = 0x14000000 := by
    rw [Nat.and_or_distrib_right, hconst, and_shiftLeft_of_lt hn]
    rfl
  -- the opcode and the distance have no bit in common
  have hsum : 0x14000000 ||| n = 2 ^ 26 * 5 + n := (Nat.two_pow_add_eq_or_of_lt hn 5).symm
  have hbits : BitVec.ofNat 26 (0x14000000 ||| n) = BitVec.ofNat 26 n := by
    rw [hsum]
    apply BitVec.eq_of_toNat_eq
    rw [BitVec.toNat_ofNat, BitVec.toNat_ofNat]
    omega
  have hp : Pattern.b ∈ patterns := by simp [patterns]
  rw [decode_of_mem hp hmask]
  show some (Instr.b ((BitVec.ofNat 26 ((0x14000000 ||| n) >>> 0)).toInt * 4)) = _
  rw [Nat.shiftRight_zero, hbits]

/-! ## What an instruction does -/

namespace State

variable {s : State} {r q : Fin 32} {v : Word}

/-- A register that is written has the value, but for the zero register. -/
theorem put_x : (s.put r v).x = if r = 31 then s.x else Function.update s.x r v := rfl

/-- A register that is written leaves the program counter. -/
@[simp] theorem put_pc : (s.put r v).pc = s.pc := rfl

/-- A register that is written leaves the flags. -/
@[simp] theorem put_flags : (s.put r v).flags = s.flags := rfl

/-- A register that is written leaves the memory. -/
@[simp] theorem put_mem : (s.put r v).mem = s.mem := rfl

@[simp] theorem next_x : s.next.x = s.x := rfl

@[simp] theorem next_pc : s.next.pc = s.pc + 4 := rfl

@[simp] theorem next_flags : s.next.flags = s.flags := rfl

@[simp] theorem next_mem : s.next.mem = s.mem := rfl

@[simp] theorem branch_x {taken : Bool} {offset : Int} : (s.branch taken offset).x = s.x := by
  cases taken <;> rfl

@[simp] theorem branch_flags {taken : Bool} {offset : Int} : (s.branch taken offset).flags = s.flags := by
  cases taken <;> rfl

@[simp] theorem branch_mem {taken : Bool} {offset : Int} : (s.branch taken offset).mem = s.mem := by
  cases taken <;> rfl

/-- A branch goes to the next instruction or by its offset. -/
theorem branch_pc (taken : Bool) (offset : Int) :
    (s.branch taken offset).pc = s.pc + 4 ∨ (s.branch taken offset).pc = s.pc + BitVec.ofInt 64 offset := by
  cases taken with
  | false => exact Or.inl rfl
  | true => exact Or.inr rfl

/-- A register that is written leaves the others. -/
theorem put_x_of_ne (h : q ≠ r) : (s.put r v).x q = s.x q := by
  rw [put_x]
  split
  · rfl
  · exact Function.update_of_ne h v s.x

/-- A result never reaches the stack pointer. -/
theorem put_sp : (s.put r v).sp = s.sp := by
  by_cases hr : r = 31
  · rw [sp, put_x, if_pos hr]
    rfl
  · exact put_x_of_ne fun h => hr h.symm

/-- A base that is written back leaves the other registers. -/
theorem rebase_x_of_ne {index : Index} {offset : Int} (h : q ≠ r) : (s.rebase index r offset).x q = s.x q :=
  Function.update_of_ne h _ s.x

end State

variable {s t : State} {i : Instr} {r : Fin 32}

/-- A straight instruction goes to the next one. -/
theorem exec_pc_of_straight (h : i.straight) : (exec s i).pc = s.pc + 4 := by
  cases i <;> first | rfl | cases h

/-- An instruction with an offset goes to the next one or by that offset. -/
theorem exec_pc_of_offset {offset : Int} (h : i.offset = some offset) :
    (exec s i).pc = s.pc + 4 ∨ (exec s i).pc = s.pc + BitVec.ofInt 64 offset := by
  cases i with
  | b o =>
    cases h
    exact Or.inr rfl
  | bcond cond o =>
    cases h
    exact State.branch_pc (s.flags.holds cond) offset
  | cbz wide nonzero t o =>
    cases h
    exact State.branch_pc (s.isZero wide t != nonzero) offset
  | _ => cases h

/-- A register that is written is named. -/
theorem names_of_writes (h : r ∈ i.writes) : r ∈ i.names := by
  cases i <;> simp only [Instr.writes, Instr.names, List.mem_cons, List.not_mem_nil, or_false] at h ⊢ <;> tauto

/-- A register that is not written stays. -/
theorem exec_x (h : r ∉ i.writes) : (exec s i).x r = s.x r := by
  cases i with
  | const d value => exact State.put_x_of_ne fun hr => h (List.mem_singleton.2 hr)
  | mov d m => exact State.put_x_of_ne fun hr => h (List.mem_singleton.2 hr)
  | adr d offset => exact State.put_x_of_ne fun hr => h (List.mem_singleton.2 hr)
  | ldr t n offset => exact State.put_x_of_ne fun hr => h (List.mem_singleton.2 hr)
  | mrs t => exact State.put_x_of_ne fun hr => h (List.mem_singleton.2 hr)
  | blr n => exact State.put_x_of_ne fun hr => h (List.mem_singleton.2 hr)
  | ldp index t u n offset =>
    simp only [Instr.writes, List.mem_cons, List.not_mem_nil, or_false, not_or] at h
    exact (State.put_x_of_ne h.2.1).trans ((State.put_x_of_ne h.1).trans (State.rebase_x_of_ne h.2.2))
  | stp index t u n offset => exact State.rebase_x_of_ne fun hr => h (List.mem_singleton.2 hr)
  | bcond cond offset => exact congrFun State.branch_x r
  | cbz wide nonzero t offset => exact congrFun State.branch_x r
  | _ => rfl

/-- Only pairs move the stack pointer. -/
theorem exec_sp (h : i.paired = false) : (exec s i).sp = s.sp := by
  cases i with
  | const d value => exact State.put_sp
  | mov d m => exact State.put_sp
  | adr d offset => exact State.put_sp
  | ldr t n offset => exact State.put_sp
  | mrs t => exact State.put_sp
  | blr n =>
    have hne : (31 : Fin 32) ≠ 30 := by decide
    exact State.put_x_of_ne (v := s.pc + 4) hne
  | ldp index t u n offset => cases h
  | stp index t u n offset => cases h
  | bcond cond offset => exact congrFun State.branch_x 31
  | cbz wide nonzero t offset => exact congrFun State.branch_x 31
  | _ => rfl

/-! ## States that agree -/

/-- The states differ in the bytes of a set at most. -/
structure Agree (S : Set Word) (s t : State) : Prop where
  x : t.x = s.x
  pc : t.pc = s.pc
  flags : t.flags = s.flags
  mem : ∀ a, a ∉ S → t.mem a = s.mem a

variable {S : Set Word}

/-- A state agrees with itself. -/
theorem Agree.refl (s : State) : Agree S s s := ⟨rfl, rfl, rfl, fun _ _ => rfl⟩

/-- States that agree load the same word outside of the hidden bytes. -/
theorem Agree.load {a : Word} (h : Agree S s t) (ha : ∀ b, Within a 8 b → b ∉ S) : load t.mem a = load s.mem a :=
  load_congr fun b hb => h.mem b (ha b hb)

/-- States that agree have the same operands. -/
theorem Agree.reg (h : Agree S s t) (r : Fin 32) : t.reg r = s.reg r := by
  rw [State.reg, State.reg, h.x]

/-- States that agree do so after the same register is written. -/
theorem Agree.put (h : Agree S s t) (r : Fin 32) (v : Word) : Agree S (s.put r v) (t.put r v) where
  x := by rw [State.put_x, State.put_x, h.x]
  pc := h.pc
  flags := h.flags
  mem := h.mem

/-- States that agree do so at the next instruction. -/
theorem Agree.next (h : Agree S s t) : Agree S s.next t.next where
  x := h.x
  pc := congrArg (· + 4) h.pc
  flags := h.flags
  mem := h.mem

/-- States that agree do so with the same flags. -/
theorem Agree.setFlags (h : Agree S s t) (f : Flags) : Agree S (s.setFlags f) (t.setFlags f) where
  x := h.x
  pc := h.pc
  flags := rfl
  mem := h.mem

/-- States that agree do so after the same branch. -/
theorem Agree.branch (h : Agree S s t) (taken : Bool) (offset : Int) :
    Agree S (s.branch taken offset) (t.branch taken offset) := by
  cases taken with
  | false => exact h.next
  | true =>
    show Agree S (s.jump offset) (t.jump offset)
    exact ⟨h.x, congrArg (· + BitVec.ofInt 64 offset) h.pc, h.flags, h.mem⟩

/-- States that agree do so after the same base is written back. -/
theorem Agree.rebase (h : Agree S s t) (index : Index) (n : Fin 32) (offset : Int) :
    Agree S (s.rebase index n offset) (t.rebase index n offset) where
  x := by
    show Function.update t.x n (index.base (t.x n) offset) = Function.update s.x n (index.base (s.x n) offset)
    rw [h.x]
  pc := h.pc
  flags := h.flags
  mem := h.mem

/-- States that agree do so after the same store. -/
theorem Agree.write (h : Agree S s t) (a v : Word) : Agree S (s.write a v) (t.write a v) where
  x := h.x
  pc := h.pc
  flags := h.flags
  mem _ hb := store_agree h.mem hb

/-- An instruction that does not touch these bytes does the same on both. -/
theorem Agree.exec (h : Agree S s t) (hi : ∀ a, i.Touches s a → a ∉ S) : Agree S (exec s i) (exec t i) := by
  cases i with
  | svc => exact h
  | nop => exact h.next
  | const d value => exact (h.put d value).next
  | mov d m =>
    dsimp only [A64.exec]
    rw [h.reg m]
    exact (h.put d _).next
  | cmpImm n value =>
    dsimp only [A64.exec]
    rw [h.x]
    exact (h.setFlags _).next
  | cmp n m =>
    dsimp only [A64.exec]
    rw [h.reg n, h.reg m]
    exact (h.setFlags _).next
  | adr d offset =>
    dsimp only [A64.exec]
    rw [h.pc]
    exact (h.put d _).next
  | b offset => exact h.branch true offset
  | bcond cond offset =>
    dsimp only [A64.exec]
    rw [h.flags]
    exact h.branch _ offset
  | cbz wide nonzero t' offset =>
    dsimp only [A64.exec, State.isZero]
    rw [h.reg t']
    exact h.branch _ offset
  | ldr t' n offset =>
    dsimp only [A64.exec]
    rw [h.x, h.load hi]
    exact (h.put t' _).next
  | str t' n offset =>
    dsimp only [A64.exec]
    rw [h.x, h.reg t']
    exact (h.write _ _).next
  | ldp index t' u n offset =>
    -- both words of a pair lie within its sixteen bytes
    have hfirst : Words.load t.mem (index.address (s.x n) offset) = Words.load s.mem (index.address (s.x n) offset) := by
      refine h.load fun a ha => hi a ?_
      show (a - _).toNat < 16
      exact Nat.lt_trans ha (by decide)
    have hsecond : Words.load t.mem (index.address (s.x n) offset + 8) =
        Words.load s.mem (index.address (s.x n) offset + 8) := by
      refine h.load fun a ha => hi a ?_
      show (a - index.address (s.x n) offset).toNat < 16
      unfold Within at ha
      bv_omega
    dsimp only [A64.exec]
    rw [h.x, hfirst, hsecond]
    exact (((h.rebase index n offset).put t' _).put u _).next
  | stp index t' u n offset =>
    dsimp only [A64.exec]
    rw [h.x, h.reg t', h.reg u]
    exact (((h.rebase index n offset).write _ _).write _ _).next
  | mrs t' =>
    dsimp only [A64.exec]
    rw [h.flags]
    exact (h.put t' _).next
  | msr t' =>
    dsimp only [A64.exec]
    rw [h.reg t']
    exact (h.setFlags _).next
  | blr n =>
    dsimp only [A64.exec]
    rw [h.pc, h.reg n]
    exact ⟨(h.put 30 _).x, rfl, h.flags, h.mem⟩

/-! ## Straight code -/

/-- What a row of instructions does one after the other. -/
def execs (s : State) (l : List Instr) : State := l.foldl exec s

/-- No instruction changes nothing. -/
@[simp] theorem execs_nil : execs s [] = s := rfl

/-- A list is its first instruction and then the others. -/
@[simp] theorem execs_cons {l : List Instr} : execs s (i :: l) = execs (exec s i) l := rfl

/-- A list behind another runs behind it. -/
theorem execs_append {l l' : List Instr} : execs s (l ++ l') = execs (execs s l) l' := List.foldl_append

/-- A register that no instruction writes stays. -/
theorem execs_x {l : List Instr} (h : ∀ i ∈ l, r ∉ i.writes) : (execs s l).x r = s.x r := by
  induction l generalizing s with
  | nil => rfl
  | cons i l ih =>
    rw [execs_cons, ih fun j hj => h j (List.mem_cons_of_mem i hj), exec_x (h i List.mem_cons_self)]

/-- Straight instructions go to what is behind them. -/
theorem execs_pc {l : List Instr} (h : ∀ i ∈ l, i.straight) :
    (execs s l).pc = s.pc + BitVec.ofNat 64 (4 * l.length) := by
  induction l generalizing s with
  | nil => exact (BitVec.add_zero _).symm
  | cons i l ih =>
    rw [execs_cons, ih fun j hj => h j (List.mem_cons_of_mem i hj), exec_pc_of_straight (h i List.mem_cons_self),
      List.length_cons]
    bv_omega

/-! ## Code at an address -/

/-- The instruction at an address of a code that is loaded at a base. -/
def fetch (code : List UInt8) (base a : Word) : Option Instr :=
  let k := (a - base).toNat
  if k + 4 ≤ code.length then decode (Bytes.field code k 4) else none

/-- What is fetched inside of the code is the instruction there. -/
theorem fetch_at {code : List UInt8} {base : Word} {k : Nat} (hk : k + 4 ≤ code.length) (hfit : code.length ≤ 2 ^ 64) :
    fetch code base (base + BitVec.ofNat 64 k) = decode (Bytes.field code k 4) := by
  have hdistance : (base + BitVec.ofNat 64 k - base).toNat = k := by
    rw [BitVec.add_comm, BitVec.add_sub_cancel, BitVec.toNat_ofNat, Nat.mod_eq_of_lt (by omega)]
  simp only [fetch, hdistance, if_pos hk]

/-- Nothing is fetched outside of the code. -/
theorem fetch_outside {code : List UInt8} {base a : Word} (h : code.length ≤ (a - base).toNat) :
    fetch code base a = none := by
  have hlt : ¬ (a - base).toNat + 4 ≤ code.length := by omega
  simp only [fetch, if_neg hlt]

/-- A branch to a place of the code. -/
theorem add_distance (base : Word) (a b : Nat) :
    base + BitVec.ofNat 64 a + BitVec.ofInt 64 ((b : Int) - a) = base + BitVec.ofNat 64 b := by
  rw [BitVec.add_assoc, ← BitVec.ofInt_natCast, ← BitVec.ofInt_natCast, ← BitVec.ofInt_add]
  congr 2
  omega

/-- A machine goes through straight code that it finds at its counter. -/
theorem run_execs {ω : Type} {f : State × ω → Option (State × ω)} {w : ω} {l : List Instr}
    (hl : ∀ i ∈ l, i.straight)
    (hf : ∀ j i, l[j]? = some i → ∀ t : State, t.pc = s.pc + BitVec.ofNat 64 (4 * j) → f (t, w) = some (exec t i, w)) :
    Pace.run f l.length (s, w) = some (execs s l, w) := by
  induction l generalizing s with
  | nil => rfl
  | cons i l ih =>
    have hfirst : f (s, w) = some (exec s i, w) := hf 0 i rfl s (BitVec.add_zero _).symm
    rw [List.length_cons, Pace.run_succ hfirst, execs_cons]
    refine ih (fun j hj => hl j (List.mem_cons_of_mem i hj)) fun j i' hj t ht => ?_
    refine hf (j + 1) i' hj t ?_
    rw [ht, exec_pc_of_straight (hl i List.mem_cons_self)]
    bv_omega

end A64
