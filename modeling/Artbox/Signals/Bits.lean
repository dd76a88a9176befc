import Artbox.Signals.Model
import Mathlib.Tactic.Common
import Mathlib.Algebra.Group.Nat.Defs

/-!
# The packed word

The pending word of a thread holds the standard signals in its low half and the number of
interruptions in its high half. An addition or a subtraction of one interruption stays in the
high half, and setting or clearing a standard signal in the low one.
-/

namespace Artbox.Signals

variable {c : Config} {b : Bits} {m : BitVec 64} {n : Nat}

/-- The count is in the upper half of the pending word. -/
theorem Bits.count_eq (b : Bits) : b.count = b.pending.toNat / 2 ^ 32 := by
  rw [count, BitVec.toNat_ushiftRight, Nat.shiftRight_eq_div_pow]

/-- The standard signals are in the lower half. -/
theorem Bits.toNat_standard (b : Bits) : b.standard.toNat = b.pending.toNat % 2 ^ 32 := by
  rw [standard, BitVec.toNat_and]
  exact Nat.and_two_pow_sub_one_eq_mod _ 32

/-- Two words have the same standard signals if their lower halves agree. -/
theorem Bits.standard_eq_iff {b b' : Bits} :
    b.standard = b'.standard ↔ b.pending.toNat % 2 ^ 32 = b'.pending.toNat % 2 ^ 32 := by
  rw [← BitVec.toNat_inj, toNat_standard, toNat_standard]

theorem toNat_interruptUnit : interruptUnit.toNat = 2 ^ 32 := rfl

@[simp] theorem count_zero : (⟨m, 0⟩ : Bits).count = 0 := by
  rw [Bits.count]
  exact congrArg BitVec.toNat BitVec.zero_ushiftRight

@[simp] theorem standard_zero : (⟨m, 0⟩ : Bits).standard = 0 := by
  rw [Bits.standard]
  exact BitVec.zero_and

@[simp] theorem count_mask : (⟨m, b.pending⟩ : Bits).count = b.count := rfl

@[simp] theorem standard_mask : (⟨m, b.pending⟩ : Bits).standard = b.standard := rfl

/-! ## Interruptions -/

/-- Below its maximum the count goes up by one. -/
theorem count_add (h : b.count < 2 ^ 32 - 1) :
    (⟨m, b.pending + interruptUnit⟩ : Bits).count = b.count + 1 := by
  have hp := b.pending.isLt
  rw [Bits.count_eq] at h
  rw [Bits.count_eq, Bits.count_eq, BitVec.toNat_add, toNat_interruptUnit]
  omega

/-- Counting an interruption leaves the standard signals. -/
theorem standard_add : (⟨m, b.pending + interruptUnit⟩ : Bits).standard = b.standard := by
  rw [Bits.standard_eq_iff, BitVec.toNat_add, toNat_interruptUnit]
  omega

/-- A count that is not zero goes down by one. -/
theorem count_sub (h : b.count ≠ 0) :
    (⟨m, b.pending - interruptUnit⟩ : Bits).count + 1 = b.count := by
  have hp := b.pending.isLt
  rw [Bits.count_eq] at h
  rw [Bits.count_eq, Bits.count_eq, BitVec.toNat_sub, toNat_interruptUnit]
  omega

/-- Taking an interruption leaves the standard signals. -/
theorem standard_sub : (⟨m, b.pending - interruptUnit⟩ : Bits).standard = b.standard := by
  have hp := b.pending.isLt
  rw [Bits.standard_eq_iff, BitVec.toNat_sub, toNat_interruptUnit]
  omega

/-! ## Standard signals -/

/-- The bit of a signal is the one below its number. -/
theorem getLsbD_bitOf {i : Nat} (hn : 0 < n) (hle : n ≤ 64) :
    (bitOf n).getLsbD i = decide (i + 1 = n) := by
  rw [bitOf, ← BitVec.twoPow_eq, BitVec.getLsbD_twoPow]
  grind

/-- The standard signals are the lower 32 bits. -/
theorem getLsbD_standard {i : Nat} : b.standard.getLsbD i = (decide (i < 32) && b.pending.getLsbD i) := by
  have hmask : (0xffffffff : BitVec 64) = BitVec.ofNat 64 (2 ^ 32 - 1) := rfl
  rw [Bits.standard, BitVec.getLsbD_and, hmask, BitVec.getLsbD_ofNat, Nat.testBit_two_pow_sub_one]
  grind

/-- Making a standard signal pending leaves the count. -/
theorem count_or (hn : 0 < n) (hle : n ≤ 32) :
    (⟨m, b.pending ||| bitOf n⟩ : Bits).count = b.count := by
  unfold Bits.count
  refine congrArg BitVec.toNat (BitVec.eq_of_getLsbD_eq fun i _ => ?_)
  rw [BitVec.getLsbD_ushiftRight, BitVec.getLsbD_ushiftRight, BitVec.getLsbD_or,
    getLsbD_bitOf hn (by omega)]
  have hne : ¬ 32 + i + 1 = n := by omega
  simp [hne]

/-- Clearing a standard signal leaves the count. -/
theorem count_clear (hn : 0 < n) (hle : n ≤ 32) :
    (⟨m, b.pending &&& ~~~bitOf n⟩ : Bits).count = b.count := by
  unfold Bits.count
  refine congrArg BitVec.toNat (BitVec.eq_of_getLsbD_eq fun i _ => ?_)
  rw [BitVec.getLsbD_ushiftRight, BitVec.getLsbD_ushiftRight, BitVec.getLsbD_and,
    BitVec.getLsbD_not, getLsbD_bitOf hn (by omega)]
  have hne : ¬ 32 + i + 1 = n := by omega
  by_cases hlt : 32 + i < 64
  · simp [hne, hlt]
  · simp [BitVec.getLsbD_of_ge b.pending (32 + i) (by omega)]

/-- The standard signals with one more. -/
theorem getLsbD_standard_or {i : Nat} (hn : 0 < n) (hle : n ≤ 32) :
    (⟨m, b.pending ||| bitOf n⟩ : Bits).standard.getLsbD i =
      (b.standard.getLsbD i || decide (i + 1 = n)) := by
  rw [getLsbD_standard, getLsbD_standard, BitVec.getLsbD_or, getLsbD_bitOf hn (by omega)]
  grind

/-- The standard signals with one less. -/
theorem getLsbD_standard_clear {i : Nat} (hn : 0 < n) (hle : n ≤ 64) :
    (⟨m, b.pending &&& ~~~bitOf n⟩ : Bits).standard.getLsbD i =
      (b.standard.getLsbD i && !decide (i + 1 = n)) := by
  rw [getLsbD_standard, getLsbD_standard, BitVec.getLsbD_and, BitVec.getLsbD_not,
    getLsbD_bitOf hn hle]
  grind

/-! ## The configured interruption -/

/-- The interrupt has the bit of its number. -/
theorem getLsbD_interruptBit (hc : c.Valid) {i : Nat} :
    c.interruptBit.getLsbD i = decide (i + 1 = c.interruptNumber) := by
  rw [Config.interruptBit]
  split
  next h0 => simp [h0]
  next h0 =>
    obtain h | ⟨h1, h2, _⟩ := hc
    · exact absurd h h0
    · exact getLsbD_bitOf (by omega) h2

/-- An interrupt with a number has a bit. -/
theorem interruptBit_ne_zero (hc : c.Valid) (h : c.interruptNumber ≠ 0) : c.interruptBit ≠ 0 := by
  intro hzero
  have hbit := congrArg (·.getLsbD (c.interruptNumber - 1)) hzero
  have hone : c.interruptNumber - 1 + 1 = c.interruptNumber := by omega
  simp [getLsbD_interruptBit hc, hone] at hbit

/-- A mask blocks the interruption. -/
theorem and_interruptBit (hc : c.Valid) :
    m &&& c.interruptBit = 0 ↔ c.interruptNumber = 0 ∨ m.getLsbD (c.interruptNumber - 1) = false := by
  constructor
  · intro h
    by_cases h0 : c.interruptNumber = 0
    · exact .inl h0
    · right
      have hbit := congrArg (·.getLsbD (c.interruptNumber - 1)) h
      have hone : c.interruptNumber - 1 + 1 = c.interruptNumber := by omega
      simpa [BitVec.getLsbD_and, getLsbD_interruptBit hc, hone] using hbit
  · intro h
    refine BitVec.eq_of_getLsbD_eq fun i _ => ?_
    rw [BitVec.getLsbD_and, getLsbD_interruptBit hc]
    rcases h with h | h
    · simp [h]
    · by_cases hi : i + 1 = c.interruptNumber
      · have : c.interruptNumber - 1 = i := by omega
        rw [this] at h
        simp [h]
      · simp [hi]

/-- A signal is pending by its bit, or as the interrupt while the count is not zero. -/
theorem getLsbD_pendingSet (hc : c.Valid) {i : Nat} :
    (pendingSet c b).getLsbD i =
      (b.standard.getLsbD i || (decide (b.count ≠ 0) && decide (i + 1 = c.interruptNumber))) := by
  rw [pendingSet, BitVec.getLsbD_or]
  split
  next h0 => simp [h0]
  next h0 => simp [getLsbD_interruptBit hc, h0]

/-- The lowest signal of a set is in it, and no lower one is. -/
theorem lowest_spec {set : BitVec 64} (h : set ≠ 0) :
    0 < System.lowest set ∧ System.lowest set ≤ 64 ∧
      set.getLsbD (System.lowest set - 1) = true ∧
        ∀ j, j + 1 < System.lowest set → set.getLsbD j = false := by
  cases hfind : (List.range 64).find? fun n => set.getLsbD n with
  | none =>
    rw [List.find?_eq_none] at hfind
    refine absurd (BitVec.eq_of_getLsbD_eq fun i hi => ?_) h
    simpa using hfind i (List.mem_range.2 hi)
  | some n =>
    have hbit := List.find?_some hfind
    have hlt := List.mem_range.1 (List.mem_of_find?_eq_some hfind)
    have hlow : System.lowest set = n + 1 := by
      rw [System.lowest, hfind]
      rfl
    rw [hlow]
    refine ⟨Nat.succ_pos n, hlt, hbit, fun j hj => ?_⟩
    rw [List.find?_eq_some_iff_append] at hfind
    obtain ⟨_, pre, post, hsplit, hpre⟩ := hfind
    have hn : pre.length = n := by
      have hget := congrArg (·[pre.length]?) hsplit
      have hle : pre.length < 64 := by
        have hlen := congrArg List.length hsplit
        simp only [List.length_range, List.length_append, List.length_cons] at hlen
        omega
      simpa [List.getElem?_range hle] using hget
    have hj' : j ∈ pre := by
      have hget := congrArg (·[j]?) hsplit
      have hjlt : j < pre.length := by omega
      rw [List.getElem?_append_left hjlt, List.getElem?_range (by omega)] at hget
      exact List.mem_of_getElem? hget.symm
    simpa using hpre j hj'

end Artbox.Signals
