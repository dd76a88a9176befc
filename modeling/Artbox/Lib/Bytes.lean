import Mathlib.Data.List.Basic
import Mathlib.Tactic.Ring

/-!
# Little-endian fields in byte strings

Wire records are byte strings with numbers at fixed offsets. `readLE` and
`writeLE` are the two directions of one codec, `field` reads a number at an
offset and `splice` overwrites bytes in place. The two laws a decoder needs are
that a spliced field reads back (`field_splice_self`) and that a splice leaves
every byte outside its range alone (`getElem?_splice_of_outside`), so that a
field elsewhere is unchanged (`field_splice_disjoint`).
-/

namespace Bytes

/-- The number a little-endian byte string stands for. -/
def readLE : List UInt8 → Nat
  | [] => 0
  | b :: bs => b.toNat + 256 * readLE bs

/-- The low `n` bytes of `v`, least significant first. -/
def writeLE : (n v : Nat) → List UInt8
  | 0, _ => []
  | n + 1, v => UInt8.ofNat (v % 256) :: writeLE n (v / 256)

/-- The `n`-byte number at offset `i`. -/
def field (bs : List UInt8) (i n : Nat) : Nat := readLE ((bs.drop i).take n)

/-- `bs` with the bytes from offset `i` on replaced by `new`. -/
def splice (bs : List UInt8) (i : Nat) (new : List UInt8) : List UInt8 :=
  bs.take i ++ new ++ bs.drop (i + new.length)

@[simp] theorem length_writeLE (n v : Nat) : (writeLE n v).length = n := by
  induction n generalizing v with
  | zero => rfl
  | succ n ih => simp [writeLE, ih]

theorem readLE_writeLE (n v : Nat) : readLE (writeLE n v) = v % 256 ^ n := by
  induction n generalizing v with
  | zero => simp [writeLE, readLE, Nat.mod_one]
  | succ n ih =>
    have hbyte : (UInt8.ofNat (v % 256)).toNat = v % 256 := by
      simp [UInt8.toNat_ofNat']
    rw [writeLE, readLE, ih, hbyte, pow_succ, Nat.mul_comm (256 ^ n) 256, Nat.mod_mul]

theorem writeLE_readLE (bs : List UInt8) : writeLE bs.length (readLE bs) = bs := by
  induction bs with
  | nil => rfl
  | cons b bs ih =>
    have hb : b.toNat < 256 := UInt8.toNat_lt b
    have hlow : (b.toNat + 256 * readLE bs) % 256 = b.toNat := by omega
    have hhigh : (b.toNat + 256 * readLE bs) / 256 = readLE bs := by omega
    rw [List.length_cons, readLE, writeLE, hlow, hhigh, ih, UInt8.ofNat_toNat]

theorem readLE_lt (bs : List UInt8) : readLE bs < 256 ^ bs.length := by
  induction bs with
  | nil => simp [readLE]
  | cons b bs ih =>
    have hb : b.toNat < 256 := UInt8.toNat_lt b
    have hpow : 256 ^ (b :: bs).length = 256 * 256 ^ bs.length := by
      rw [List.length_cons, pow_succ, Nat.mul_comm]
    rw [hpow, readLE]
    omega

theorem field_lt (bs : List UInt8) (i n : Nat) : field bs i n < 256 ^ n := by
  refine Nat.lt_of_lt_of_le (readLE_lt _) (Nat.pow_le_pow_right (by decide) ?_)
  exact List.length_take_le n _

theorem length_splice {bs new : List UInt8} {i : Nat} (h : i + new.length ≤ bs.length) :
    (splice bs i new).length = bs.length := by
  simp only [splice, List.length_append, List.length_take, List.length_drop]
  omega

/-- Outside its range a splice changes nothing. -/
theorem getElem?_splice_of_outside {bs new : List UInt8} {i j : Nat}
    (h : i + new.length ≤ bs.length) (hj : j < i ∨ i + new.length ≤ j) :
    (splice bs i new)[j]? = bs[j]? := by
  have hlen : (bs.take i).length = i := by simp; omega
  rcases hj with hj | hj
  · rw [splice, List.append_assoc, List.getElem?_append_left (by omega),
      List.getElem?_take_of_lt hj]
  · rw [splice, List.getElem?_append_right (by simp; omega), List.getElem?_drop]
    congr 1
    simp only [List.length_append, hlen]
    omega

/-- A part is determined by the bytes it covers. -/
theorem slice_congr {bs cs : List UInt8} {i n : Nat}
    (h : ∀ j, i ≤ j → j < i + n → bs[j]? = cs[j]?) : (bs.drop i).take n = (cs.drop i).take n := by
  apply List.ext_getElem?
  intro j
  by_cases hj : j < n
  · rw [List.getElem?_take_of_lt hj, List.getElem?_take_of_lt hj, List.getElem?_drop,
      List.getElem?_drop]
    exact h (i + j) (by omega) (by omega)
  · rw [List.getElem?_take, List.getElem?_take, if_neg hj, if_neg hj]

theorem field_congr {bs cs : List UInt8} {i n : Nat}
    (h : ∀ j, i ≤ j → j < i + n → bs[j]? = cs[j]?) : field bs i n = field cs i n := by
  rw [field, field, slice_congr h]

/-- A field of a part of the bytes. -/
theorem field_slice (bs : List UInt8) {k i n size : Nat} (h : i + n ≤ size) :
    field ((bs.drop k).take size) i n = field bs (k + i) n := by
  have hmin : min n (size - i) = n := by omega
  rw [field, field, List.drop_take, List.take_take, hmin, List.drop_drop]

/-- A field of one byte is that byte. -/
theorem field_one {bs : List UInt8} {i : Nat} {b : UInt8} (h : bs[i]? = some b) :
    field bs i 1 = b.toNat := by
  obtain ⟨hi, rfl⟩ := List.getElem?_eq_some_iff.1 h
  rw [field, List.drop_eq_getElem_cons hi]
  exact Nat.add_zero _

/-- The first field of a record that is written field by field. -/
theorem field_writeLE_append (n v : Nat) (rest : List UInt8) :
    field (writeLE n v ++ rest) 0 n = v % 256 ^ n := by
  rw [field, List.drop_zero, List.take_append_of_le_length (by simp), List.take_of_length_le (by simp),
    readLE_writeLE]

/-- A record of one field. -/
theorem field_writeLE (n v : Nat) : field (writeLE n v) 0 n = v % 256 ^ n := by
  rw [← field_writeLE_append n v [], List.append_nil]

/-- The fields behind the first one. -/
theorem field_append_of_le {bs rest : List UInt8} {i n : Nat} (h : bs.length ≤ i) :
    field (bs ++ rest) i n = field rest (i - bs.length) n := by
  rw [field, field, List.drop_append, List.drop_eq_nil_of_le h, List.nil_append]

/-- A field the splice does not reach reads as before. -/
theorem field_splice_disjoint {bs new : List UInt8} {i j n : Nat}
    (h : i + new.length ≤ bs.length) (hd : j + n ≤ i ∨ i + new.length ≤ j) :
    field (splice bs i new) j n = field bs j n :=
  field_congr fun k hk hkn => getElem?_splice_of_outside h (by omega)

/-- A number written in place reads back, modulo its width. -/
theorem field_splice_self {bs : List UInt8} {i n v : Nat} (h : i + n ≤ bs.length) :
    field (splice bs i (writeLE n v)) i n = v % 256 ^ n := by
  have hlen : (bs.take i).length = i := by simp; omega
  rw [← readLE_writeLE, field, splice, List.append_assoc, List.drop_append_of_le_length (by omega),
    List.drop_eq_nil_of_le (by omega), List.nil_append, List.take_append_of_le_length (by simp),
    List.take_of_length_le (by simp)]

/-! ## Rows of numbers -/

theorem length_flatMap_writeLE (n : Nat) (l : List Nat) : (l.flatMap (writeLE n)).length = n * l.length := by
  induction l with
  | nil => rfl
  | cons v l ih => rw [List.flatMap_cons, List.length_append, ih, length_writeLE, List.length_cons, Nat.mul_succ,
      Nat.add_comm]

/-- A number of a row. -/
theorem field_flatMap_writeLE {n j v : Nat} {l : List Nat} (h : l[j]? = some v) :
    field (l.flatMap (writeLE n)) (n * j) n = v % 256 ^ n := by
  induction l generalizing j with
  | nil => cases h
  | cons w l ih =>
    rw [List.flatMap_cons]
    cases j with
    | zero =>
      rw [List.getElem?_cons_zero] at h
      rw [Nat.mul_zero, field_writeLE_append, Option.some.inj h]
    | succ j =>
      have hle : (writeLE n w).length ≤ n * (j + 1) := by
        rw [length_writeLE, Nat.mul_succ]
        exact Nat.le_add_left n _
      rw [field_append_of_le hle, length_writeLE, Nat.mul_succ, Nat.add_sub_cancel]
      exact ih h

end Bytes
