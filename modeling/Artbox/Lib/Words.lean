import Artbox.Lib.Bytes

/-!
# Words in a flat memory

A memory gives each 64-bit address a byte, and addresses wrap around. `load` and `store` move
little-endian words of eight bytes: a stored word reads back (`load_store`), bytes outside of it stay
(`store_outside`), and so do words apart from it (`load_store_apart`). `save` stores a row of words, as
a function does in its frame, and `load_save` finds each of them again.
-/

namespace Words

open Bytes

abbrev Word := BitVec 64

abbrev Mem := Word → UInt8

/-- The word at an address. -/
def load (m : Mem) (a : Word) : Word :=
  BitVec.ofNat 64 (readLE ((List.range 8).map fun i => m (a + BitVec.ofNat 64 i)))

/-- The memory with a word at an address. -/
def store (m : Mem) (a v : Word) : Mem := fun b => ((writeLE 8 v.toNat)[(b - a).toNat]?).getD (m b)

/-- `b` is one of the `n` bytes from `a` on. -/
def Within (a : Word) (n : Nat) (b : Word) : Prop := (b - a).toNat < n

instance (a : Word) (n : Nat) (b : Word) : Decidable (Within a n b) := inferInstanceAs (Decidable (_ < _))

/-- `b` is one of the `n` bytes below `a`. -/
def Below (a : Word) (n : Nat) (b : Word) : Prop := (a - 1 - b).toNat < n

instance (a : Word) (n : Nat) (b : Word) : Decidable (Below a n b) := inferInstanceAs (Decidable (_ < _))

variable {m m' : Mem} {a b v : Word}

theorem within_add {i n : Nat} (h : i < n) (hn : n ≤ 2 ^ 64) : Within a n (a + BitVec.ofNat 64 i) := by
  show (a + BitVec.ofNat 64 i - a).toNat < n
  rw [BitVec.add_comm, BitVec.add_sub_cancel, BitVec.toNat_ofNat, Nat.mod_eq_of_lt (by omega)]
  exact h

theorem Below.mono {m n : Nat} (h : Below a n b) (hn : n ≤ m) : Below a m b := Nat.lt_of_lt_of_le h hn

/-- What is below an address further down. -/
theorem Below.of_sub {m n : Nat} (h : Below (a - BitVec.ofNat 64 m) n b) (hn : m + n ≤ 2 ^ 64) : Below a (m + n) b := by
  unfold Below at h ⊢
  bv_omega

/-- The bytes from an address on, up to one. -/
theorem Within.below {n : Nat} (h : Within (a - BitVec.ofNat 64 n) n b) : Below a n b := by
  unfold Within at h
  unfold Below
  bv_omega

/-- What is from an address on is not below it, unless one meets the other. -/
theorem Within.not_below {m n : Nat} (h : Within a m b) (hn : m + n ≤ 2 ^ 64) : ¬ Below a n b := by
  intro hbelow
  unfold Within at h
  unfold Below at hbelow
  bv_omega

/-- A word is its eight bytes. -/
theorem load_congr (h : ∀ b, Within a 8 b → m b = m' b) : load m a = load m' a := by
  have hbytes : (List.range 8).map (fun i => m (a + BitVec.ofNat 64 i)) =
      (List.range 8).map fun i => m' (a + BitVec.ofNat 64 i) := by
    refine List.map_congr_left fun i hi => h _ (within_add (List.mem_range.1 hi) (by decide))
  rw [load, load, hbytes]

theorem store_outside (h : ¬ Within a 8 b) : store m a v b = m b := by
  have hnone : (writeLE 8 v.toNat)[(b - a).toNat]? = none := by
    rw [List.getElem?_eq_none_iff, length_writeLE]
    exact Nat.not_lt.1 h
  rw [store, hnone, Option.getD_none]

/-- Memories that agree outside of a set do so after a store. -/
theorem store_agree {S : Set Word} (h : ∀ b, b ∉ S → m b = m' b) (hb : b ∉ S) : store m a v b = store m' a v b := by
  rw [store, store, h b hb]

theorem load_store : load (store m a v) a = v := by
  have hbytes : (List.range 8).map (fun i => store m a v (a + BitVec.ofNat 64 i)) = writeLE 8 v.toNat := by
    refine List.ext_getElem (by simp) fun i h1 h2 => ?_
    rw [length_writeLE] at h2
    have hi : (a + BitVec.ofNat 64 i - a).toNat = i := by
      rw [BitVec.add_comm, BitVec.add_sub_cancel, BitVec.toNat_ofNat, Nat.mod_eq_of_lt (by omega)]
    rw [List.getElem_map, List.getElem_range, store, hi, List.getElem?_eq_getElem, Option.getD_some]
  have hv : v.toNat < 256 ^ 8 := v.isLt
  rw [load, hbytes, readLE_writeLE, Nat.mod_eq_of_lt hv, BitVec.ofNat_toNat, BitVec.setWidth_eq]

/-- Two words apart from each other. -/
theorem load_store_apart (h1 : 8 ≤ (a - b).toNat) (h2 : 8 ≤ (b - a).toNat) : load (store m b v) a = load m a := by
  refine load_congr fun c hc => store_outside fun hb => ?_
  unfold Within at hc hb
  bv_omega

/-! ## Rows of words -/

/-- The memory with a row of words from an address on. -/
def save (m : Mem) (f : Word) : List Word → Mem
  | [] => m
  | v :: l => save (store m f v) (f + 8) l

variable {f : Word} {l : List Word}

theorem save_outside (hl : 8 * l.length ≤ 2 ^ 64) (h : ¬ Within f (8 * l.length) b) : save m f l b = m b := by
  induction l generalizing m f with
  | nil => rfl
  | cons v l ih =>
    rw [List.length_cons] at hl h
    have hrest : ¬ Within (f + 8) (8 * l.length) b := by
      unfold Within at h ⊢
      bv_omega
    have hfirst : ¬ Within f 8 b := by
      unfold Within at h ⊢
      omega
    rw [save, ih (by omega) hrest, store_outside hfirst]

theorem load_save {i : Nat} (hl : 8 * l.length ≤ 2 ^ 64) (h : l[i]? = some v) :
    load (save m f l) (f + BitVec.ofNat 64 (8 * i)) = v := by
  induction l generalizing m f i with
  | nil => cases h
  | cons w l ih =>
    rw [List.length_cons] at hl
    cases i with
    | zero =>
      -- the words behind the first one do not reach it
      have hkept : load (save (store m f w) (f + 8) l) f = load (store m f w) f := by
        refine load_congr fun b hb => save_outside (by omega) ?_
        unfold Within at hb ⊢
        bv_omega
      rw [List.getElem?_cons_zero] at h
      rw [Nat.mul_zero, BitVec.add_zero, save, hkept, load_store, Option.some.inj h]
    | succ i =>
      have haddress : f + BitVec.ofNat 64 (8 * (i + 1)) = f + 8 + BitVec.ofNat 64 (8 * i) := by
        bv_omega
      rw [haddress, save]
      exact ih (by omega) h

end Words
