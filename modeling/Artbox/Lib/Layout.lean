import Artbox.Lib.Bytes
import Mathlib.Logic.Function.Basic

/-!
# Records of consecutive parts

A `Layout` names the parts of a record in the order they lie in memory and gives each its
width; where a part begins is then the sum of the widths before it. A codec that names its
parts by hand-written offsets is checked against the layout part by part: at the offset of a
part, reading sees that part alone (`field_part`) and writing changes that part alone
(`splice_part`).
-/

namespace Bytes

variable {ι : Type*}

/-- The parts of a record in order, each with its width. -/
structure Layout (ι : Type*) where
  order : List ι
  width : ι → Nat
  nodup : order.Nodup
  complete : ∀ i, i ∈ order

namespace Layout

variable [DecidableEq ι] (L : Layout ι)

/-- Where a part begins. -/
def offset (i : ι) : Nat := ((L.order.takeWhile (· ≠ i)).map L.width).sum

/-- The width of the record. -/
def size : Nat := (L.order.map L.width).sum

/-- The order around one part. -/
theorem order_split (i : ι) : ∃ before behind, L.order = before ++ i :: behind ∧ i ∉ before ∧
    i ∉ behind ∧ L.offset i = (before.map L.width).sum := by
  obtain ⟨before, behind, horder, hbefore⟩ := List.eq_append_cons_of_mem (L.complete i)
  have hbehind : i ∉ behind := by
    have hnodup := L.nodup
    rw [horder] at hnodup
    exact (List.nodup_cons.1 (List.nodup_append.1 hnodup).2.1).1
  have htake : L.order.takeWhile (· ≠ i) = before := by
    have hall : ∀ j ∈ before, decide (j ≠ i) = true := by
      intro j hj
      have hne : j ≠ i := fun heq => hbefore (heq ▸ hj)
      exact decide_eq_true hne
    rw [horder, List.takeWhile_append_of_pos hall, List.takeWhile_cons]
    simp
  refine ⟨before, behind, horder, hbefore, hbehind, ?_⟩
  rw [offset, htake]

end Layout

/-- What a record of a layout holds. -/
structure Record (L : Layout ι) where
  part : ι → List UInt8
  length_part : ∀ i, (part i).length = L.width i

namespace Record

variable {L : Layout ι}

/-- The record in memory. -/
def bytes (r : Record L) : List UInt8 := L.order.flatMap r.part

/-- A part as a number. -/
def value (r : Record L) (i : ι) : Nat := readLE (r.part i)

theorem length_flatMap (r : Record L) (l : List ι) :
    (l.flatMap r.part).length = (l.map L.width).sum := by
  induction l with
  | nil => rfl
  | cons i l ih =>
    rw [List.flatMap_cons, List.length_append, ih, r.length_part, List.map_cons, List.sum_cons]

@[simp] theorem length_bytes (r : Record L) : r.bytes.length = L.size := r.length_flatMap L.order

/-- Records with the same parts are the same bytes. -/
theorem bytes_congr {r r' : Record L} (h : ∀ i, r.part i = r'.part i) : r.bytes = r'.bytes :=
  List.flatMap_congr fun i _ => h i

variable [DecidableEq ι]

/-- A record with one part replaced. -/
def set (r : Record L) (i : ι) (new : List UInt8) (h : new.length = L.width i) : Record L where
  part := Function.update r.part i new
  length_part j := by
    by_cases hj : j = i
    · subst hj
      rw [Function.update_self]
      exact h
    · rw [Function.update_of_ne hj]
      exact r.length_part j

theorem set_self (r : Record L) (i : ι) : r.set i (r.part i) (r.length_part i) = r := by
  cases r
  simp only [set, Function.update_eq_self]

/-- The record in memory around one part. -/
theorem bytes_split (r : Record L) (i : ι) : ∃ before behind, r.bytes = before ++ r.part i ++ behind ∧
    before.length = L.offset i ∧
      ∀ new h, (r.set i new h).bytes = before ++ new ++ behind := by
  obtain ⟨before, behind, horder, hbefore, hbehind, hoffset⟩ := L.order_split i
  refine ⟨before.flatMap r.part, behind.flatMap r.part, ?_, ?_, fun new h => ?_⟩
  · rw [bytes, horder, List.flatMap_append, List.flatMap_cons, List.append_assoc]
  · rw [r.length_flatMap, hoffset]
  · have hsame : ∀ l : List ι, i ∉ l → l.flatMap (r.set i new h).part = l.flatMap r.part := by
      intro l hl
      apply List.flatMap_congr
      intro j hj
      have hne : j ≠ i := fun heq => hl (heq ▸ hj)
      exact Function.update_of_ne hne _ _
    have hself : (r.set i new h).part i = new := Function.update_self ..
    rw [bytes, horder, List.flatMap_append, List.flatMap_cons, hsame before hbefore,
      hsame behind hbehind, hself, List.append_assoc]

variable {r : Record L} {i : ι} {k n : Nat} {rest new : List UInt8}

/-- A number read inside a part is read from that part alone. -/
theorem field_part (h : k + n ≤ L.width i) :
    field (r.bytes ++ rest) (L.offset i + k) n = field (r.part i) k n := by
  obtain ⟨before, behind, hbytes, hlength, _⟩ := r.bytes_split i
  have hpart := r.length_part i
  rw [hbytes, List.append_assoc, List.append_assoc, field_append_of_le (by omega), hlength,
    Nat.add_sub_cancel_left]
  apply field_congr
  intro j hj hjn
  exact List.getElem?_append_left (by omega)

/-- A number that is a part. -/
theorem field_value (h : L.width i = n) :
    field (r.bytes ++ rest) (L.offset i) n = r.value i := by
  have hpart := r.length_part i
  have hread : field (r.bytes ++ rest) (L.offset i + 0) n = field (r.part i) 0 n :=
    field_part (by omega)
  rw [Nat.add_zero] at hread
  rw [hread, field, List.drop_zero, List.take_of_length_le (by omega), value]

/-- The bytes of a part. -/
theorem slice_part (h : L.width i = n) : ((r.bytes ++ rest).drop (L.offset i)).take n = r.part i := by
  obtain ⟨before, behind, hbytes, hlength, _⟩ := r.bytes_split i
  have hpart := r.length_part i
  rw [hbytes, List.append_assoc, List.append_assoc, ← hlength, List.drop_left,
    List.take_append_of_le_length (by omega), List.take_of_length_le (by omega)]

/-- Bytes written inside a part change that part alone. -/
theorem splice_part (h : k + new.length ≤ L.width i) :
    splice (r.bytes ++ rest) (L.offset i + k) new =
      (r.set i (splice (r.part i) k new)
        ((length_splice (by rw [r.length_part]; exact h)).trans (r.length_part i))).bytes ++ rest := by
  obtain ⟨before, behind, hbytes, hlength, hset⟩ := r.bytes_split i
  have hpart := r.length_part i
  rw [hset, hbytes]
  have htake : (before ++ r.part i ++ behind ++ rest).take (L.offset i + k) =
      before ++ (r.part i).take k := by
    rw [List.append_assoc, List.append_assoc, ← hlength, List.take_length_add_append,
      List.take_append_of_le_length (by omega)]
  have hdrop : (before ++ r.part i ++ behind ++ rest).drop (L.offset i + k + new.length) =
      (r.part i).drop (k + new.length) ++ behind ++ rest := by
    rw [List.append_assoc, List.append_assoc, ← hlength, Nat.add_assoc, List.drop_length_add_append,
      List.drop_append_of_le_length (by omega), List.append_assoc]
  rw [splice, htake, hdrop, splice]
  simp only [List.append_assoc]

/-- A part written whole. -/
theorem splice_value (h : new.length = L.width i) :
    splice (r.bytes ++ rest) (L.offset i) new = (r.set i new h).bytes ++ rest := by
  obtain ⟨before, behind, hbytes, hlength, hset⟩ := r.bytes_split i
  have hpart := r.length_part i
  rw [hset, hbytes, splice, ← hlength]
  simp only [List.append_assoc]
  rw [List.take_left, List.drop_length_add_append, List.drop_append_of_le_length (by omega),
    List.drop_eq_nil_of_le (by omega), List.nil_append]

/-- The bytes that part `i` gets when parts are cut off one after the other. -/
def cut (width : ι → Nat) : List ι → List UInt8 → ι → List UInt8
  | [], _, _ => []
  | j :: l, bs, i => if i = j then bs.take (width j) else cut width l (bs.drop (width j)) i

theorem cut_spec {width : ι → Nat} {l : List ι} (hl : l.Nodup) {bs : List UInt8}
    (h : (l.map width).sum ≤ bs.length) :
    l.flatMap (cut width l bs) = bs.take (l.map width).sum ∧
      ∀ i ∈ l, (cut width l bs i).length = width i := by
  induction l generalizing bs with
  | nil => exact ⟨rfl, nofun⟩
  | cons j l ih =>
    obtain ⟨hj, hl⟩ := List.nodup_cons.1 hl
    rw [List.map_cons, List.sum_cons] at h
    have hrest : (l.map width).sum ≤ (bs.drop (width j)).length := by
      rw [List.length_drop]
      omega
    obtain ⟨hbytes, hlength⟩ := ih hl hrest
    have hself : cut width (j :: l) bs j = bs.take (width j) := if_pos rfl
    have hother : ∀ i ∈ l, cut width (j :: l) bs i = cut width l (bs.drop (width j)) i := by
      intro i hi
      exact if_neg fun heq : i = j => hj (heq ▸ hi)
    constructor
    · rw [List.flatMap_cons, hself, List.flatMap_congr hother, hbytes, List.map_cons, List.sum_cons,
        List.take_add]
    · intro i hi
      rcases List.mem_cons.1 hi with rfl | hi
      · rw [hself, List.length_take]
        omega
      · rw [hother i hi]
        exact hlength i hi

/-- Long enough bytes are a record and what is behind it. -/
theorem exists_record (L : Layout ι) {bs : List UInt8} (h : L.size ≤ bs.length) :
    ∃ (r : Record L) (rest : List UInt8), bs = r.bytes ++ rest := by
  obtain ⟨hbytes, hlength⟩ := cut_spec L.nodup h
  refine ⟨⟨cut L.width L.order bs, fun i => hlength i (L.complete i)⟩, bs.drop L.size, ?_⟩
  have hall : Record.bytes (L := L) ⟨cut L.width L.order bs, fun i => hlength i (L.complete i)⟩ =
      bs.take L.size := hbytes
  rw [hall, List.take_append_drop]

end Record

end Bytes
