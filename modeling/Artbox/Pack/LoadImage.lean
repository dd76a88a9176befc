import Artbox.Pack.Wrapper
import Mathlib.Data.List.GetD
import Mathlib.Data.List.Perm.Basic

/-!
# The load image

What an ELF loader puts at each virtual address is said of the program headers alone
(`LoadImage`). `Packed` is what `pack_layout` has checked of a file it accepts, and with it the two
parts it returns are the load image, one behind the other, with the dynamic table and the
initializer of TLS inside the second.
-/

namespace Artbox.Pack

open Bytes Require

/-! ## What a loader does -/

/-- The segments of a type among the first `n` program headers. -/
def firstSegments (data : List UInt8) (type n : Nat) : List Segment :=
  ((List.range n).filter fun i => field data (field data 32 8 + i * 56) 4 == type).map fun i =>
    segmentAt data (field data 32 8 + i * 56) i

/-- The segments of a type. -/
def segmentsOf (data : List UInt8) (type : Nat) : List Segment := firstSegments data type (field data 56 2)

/-- A segment has a byte at a virtual address. -/
def Segment.Covers (s : Segment) (v : Nat) : Prop := s.address ≤ v ∧ v < s.address + s.memorySize

/-- The byte that a segment has at a virtual address: one of the file, and zero behind those. -/
def Segment.byteAt (s : Segment) (data : List UInt8) (v : Nat) : UInt8 :=
  if v < s.address + s.fileSize then data.getD (s.offset + (v - s.address)) 0 else 0

/-- The byte at a virtual address of the load image. -/
inductive LoadImage (data : List UInt8) (v : Nat) : UInt8 → Prop
  | segment {s : Segment} : s ∈ segmentsOf data 1 → s.Covers v → LoadImage data v (s.byteAt data v)
  | gap : (∀ s ∈ segmentsOf data 1, ¬ s.Covers v) → LoadImage data v 0

/-- What the loop over the program headers checks of each. -/
structure Segment.Sane (s : Segment) (data : List UInt8) : Prop where
  inside : s.offset + s.fileSize ≤ data.length
  file_le : s.fileSize ≤ s.memorySize

section FirstSegments

variable {data : List UInt8} {type n : Nat}

/-- A header of the type is one segment more. -/
theorem firstSegments_of_eq (h : field data (field data 32 8 + n * 56) 4 = type) :
    firstSegments data type (n + 1) =
      firstSegments data type n ++ [segmentAt data (field data 32 8 + n * 56) n] := by
  unfold firstSegments
  rw [List.range_succ, List.filter_append, List.map_append, List.filter_singleton, beq_iff_eq.2 h]
  rfl

/-- A header of another type is none. -/
theorem firstSegments_of_ne (h : field data (field data 32 8 + n * 56) 4 ≠ type) :
    firstSegments data type (n + 1) = firstSegments data type n := by
  unfold firstSegments
  rw [List.range_succ, List.filter_append, List.map_append, List.filter_singleton, beq_eq_false_iff_ne.2 h]
  exact List.append_nil _

/-- What the tables are before header `n`. -/
structure Tables.Reads (t : Tables) (data : List UInt8) (n : Nat) : Prop where
  loads : t.loads = firstSegments data 1 n
  dynamic : t.dynamic = firstSegments data 2 n
  tls : t.tls = firstSegments data 7 n
  sane : ∀ type, ∀ s ∈ firstSegments data type n, s.Sane data

/-- One turn of the loop reads the next header. -/
theorem addHeader_reads {t t' : Tables} (h : t.Reads data n)
    (hadd : addHeader data (field data 32 8) t n = .ok t') : t'.Reads data (n + 1) := by
  unfold addHeader at hadd
  simp only [readable, require_bind_eq_ok] at hadd
  obtain ⟨-, -, hbounds, -, -, hadd⟩ := hadd
  have hsane : ∀ type, ∀ s ∈ firstSegments data type (n + 1), s.Sane data := by
    intro type s hs
    by_cases htype : field data (field data 32 8 + n * 56) 4 = type
    · rw [firstSegments_of_eq htype] at hs
      rcases List.mem_append.1 hs with hs | hs
      · exact h.sane type s hs
      · obtain rfl := List.mem_singleton.1 hs
        exact ⟨by omega, hbounds.2.2⟩
    · rw [firstSegments_of_ne htype] at hs
      exact h.sane type s hs
  -- the type decides which of the tables grows
  generalize htype : field data (field data 32 8 + n * 56) 4 = type at hadd
  have hgrow := firstSegments_of_eq htype
  have hkeep : ∀ other, type ≠ other → firstSegments data other (n + 1) = firstSegments data other n :=
    fun other hne => firstSegments_of_ne (htype ▸ hne)
  split_ifs at hadd with h1 h2 h7 hstack
  · cases hadd
    subst h1
    exact ⟨by rw [hgrow, ← h.loads], by rw [hkeep 2 (by decide), ← h.dynamic], by rw [hkeep 7 (by decide), ← h.tls],
      hsane⟩
  · cases hadd
    subst h2
    exact ⟨by rw [hkeep 1 (by decide), ← h.loads], by rw [hgrow, ← h.dynamic], by rw [hkeep 7 (by decide), ← h.tls],
      hsane⟩
  · cases hadd
    subst h7
    exact ⟨by rw [hkeep 1 (by decide), ← h.loads], by rw [hkeep 2 (by decide), ← h.dynamic], by rw [hgrow, ← h.tls],
      hsane⟩
  · rw [require_bind_eq_ok] at hadd
    cases hadd.2
    exact ⟨by rw [hkeep 1 h1, ← h.loads], by rw [hkeep 2 h2, ← h.dynamic], by rw [hkeep 7 h7, ← h.tls], hsane⟩
  · cases hadd
    exact ⟨by rw [hkeep 1 h1, ← h.loads], by rw [hkeep 2 h2, ← h.dynamic], by rw [hkeep 7 h7, ← h.tls], hsane⟩

end FirstSegments

/-! ## What is packed -/

/-- A segment of which the file has the bytes, inside the read/write load. -/
structure Segment.Within (s writable : Segment) : Prop where
  above : writable.address ≤ s.address
  below : s.address + s.memorySize ≤ writable.address + writable.memorySize
  /-- Its bytes are those of the load. -/
  filed : s.fileSize ≠ 0 → s.address + s.fileSize ≤ writable.address + writable.fileSize ∧
    s.offset + writable.address = writable.offset + s.address

/-- What `pack_layout` has checked of a file it accepts, and what it returns. -/
structure Packed (data rx rw : List UInt8) (code writable : Segment) : Prop where
  loads : (segmentsOf data 1).Perm [code, writable]
  sane : ∀ type, ∀ s ∈ segmentsOf data type, s.Sane data
  code_address : code.address = 0
  code_offset : code.offset = 0
  code_full : code.fileSize = code.memorySize
  split : code.memorySize ≤ writable.address
  tables : ∃ table, segmentsOf data 2 = [table] ∧ table.Within writable ∧ table.fileSize = table.memorySize
  templates : ∀ t ∈ segmentsOf data 7, t.Within writable
  rx_eq : rx = data.take code.fileSize ++ List.replicate (writable.address - code.fileSize) 0
  rw_eq : rw = (data.drop writable.offset).take writable.fileSize ++
    List.replicate (writable.memorySize - writable.fileSize) 0

/-- An accepted template lies in the writable segment. -/
theorem checkTemplate_within {writable t : Segment} {u : Unit} (h : checkTemplate writable t = .ok u) :
    t.Within writable := by
  unfold checkTemplate at h
  dsimp only at h
  rw [require_bind_eq_ok, require_eq_ok] at h
  obtain ⟨⟨-, h0, -, -, hmemory, -⟩, hfile⟩ := h
  refine ⟨by omega, by omega, fun hne => ?_⟩
  obtain ⟨h1, h2, h3⟩ := hfile.resolve_left hne
  exact ⟨by omega, by omega⟩

/-- An accepted table lies in the writable segment, with all its bytes in the file. -/
theorem checkTable_within {writable table : Segment} {u : Unit} (hw : writable.fileSize ≤ writable.memorySize)
    (h : checkTable writable table = .ok u) : table.Within writable ∧ table.fileSize = table.memorySize := by
  unfold checkTable at h
  dsimp only at h
  rw [require_eq_ok] at h
  obtain ⟨-, h0, h1, -, hsize, -, hoffset⟩ := h
  exact ⟨⟨by omega, by omega, fun _ => ⟨by omega, by omega⟩⟩, hsize⟩

/-- What `pack_layout` returns is the packed image of the file. -/
theorem packLayout_packed {δ : Type} {digest : List UInt8 → δ} {data rx rw : List UInt8} {layout : Layout δ}
    (h : packLayout digest data = .ok (rx, rw, layout)) :
    Packed data rx rw layout.code layout.writable ∧ layout.rxBytes = rx.length ∧ layout.rwBytes = rw.length ∧
      layout.rx = digest rx ∧ layout.rw = digest rw := by
  unfold packLayout at h
  rw [require_bind_eq_ok, bind_eq_ok] at h
  obtain ⟨-, header, hheader, h⟩ := h
  rw [bind_eq_ok] at h
  obtain ⟨tables, htables, h⟩ := h
  -- the header names the table of program headers
  have hfields : header.phoff = field data 32 8 ∧ header.phnum = field data 56 2 := by
    unfold elfHeader at hheader
    simp only [readable, require_bind_eq_ok] at hheader
    obtain ⟨-, -, -, -, heq⟩ := hheader
    cases heq
    exact ⟨rfl, rfl⟩
  rw [hfields.1, hfields.2] at htables
  have hreads : tables.Reads data (field data 56 2) :=
    range_inv (P := fun k t => t.Reads data k) (fun k _ t t' ht hadd => addHeader_reads ht hadd)
      ⟨rfl, rfl, rfl, nofun⟩ htables
  split at h
  case h_2 => cases h
  next code writable table hsorted hdynamic =>
  rw [bind_eq_ok] at h
  obtain ⟨u, hloads, h⟩ := h
  rw [require_bind_eq_ok, bind_eq_ok] at h
  obtain ⟨-, u', htls, h⟩ := h
  rw [bind_eq_ok] at h
  obtain ⟨u'', htable, h⟩ := h
  cases h
  have hperm : (segmentsOf data 1).Perm [code, writable] := by
    rw [← hsorted, hreads.loads]
    exact (List.mergeSort_perm _ _).symm
  unfold checkLoads at hloads
  simp only [require_bind_eq_ok, require_eq_ok] at hloads
  obtain ⟨-, ⟨hzero, hoffset, hfull⟩, -, -, ⟨hsplit, -⟩, -⟩ := hloads
  have hsane : ∀ type, ∀ s ∈ segmentsOf data type, s.Sane data := hreads.sane
  have hwritable : writable.Sane data := hsane 1 writable (hperm.mem_iff.2 (by simp))
  refine ⟨⟨hperm, hsane, hzero, hoffset, hfull, hsplit, ⟨table, ?_, checkTable_within hwritable.file_le htable⟩,
    fun t ht => ?_, rfl, rfl⟩, rfl, rfl, rfl, rfl⟩
  · rw [← hdynamic, hreads.dynamic]
    rfl
  · exact checkTemplate_within (forM_ok htls t (hreads.tls ▸ ht))

/-! ## The bytes of the two parts -/

/-- Bytes with zeros behind them. -/
theorem getElem?_padded (bytes : List UInt8) {n v : Nat} (hv : v < bytes.length + n) :
    (bytes ++ List.replicate n 0)[v]? = some (bytes.getD v 0) := by
  rcases Nat.lt_or_ge v bytes.length with hin | hout
  · rw [List.getElem?_append_left hin, List.getD_eq_getElem?_getD, List.getElem?_eq_getElem hin, Option.getD_some]
  · rw [List.getElem?_append_right hout, List.getElem?_replicate_of_lt (by omega), List.getD_eq_default _ _ hout]

/-- Bytes out of a part of the file. -/
theorem getD_part (data : List UInt8) (offset size k : Nat) :
    ((data.drop offset).take size).getD k 0 = if k < size then data.getD (offset + k) 0 else 0 := by
  rw [List.getD_eq_getElem?_getD]
  split
  next hk => rw [List.getElem?_take_of_lt hk, List.getElem?_drop, List.getD_eq_getElem?_getD]
  next hk => rw [List.getElem?_eq_none (by rw [List.length_take]; omega), Option.getD_none]

namespace Packed

variable {data rx rw : List UInt8} {code writable : Segment}

/-- The two load segments are the code and the writable one. -/
theorem mem_loads (h : Packed data rx rw code writable) {s : Segment} :
    s ∈ segmentsOf data 1 ↔ s = code ∨ s = writable := by
  rw [h.loads.mem_iff, List.mem_cons, List.mem_singleton]

/-- The code segment lies in the file. -/
theorem code_sane (h : Packed data rx rw code writable) : code.Sane data := h.sane 1 code (h.mem_loads.2 (.inl rfl))

/-- The writable segment lies in the file. -/
theorem writable_sane (h : Packed data rx rw code writable) : writable.Sane data :=
  h.sane 1 writable (h.mem_loads.2 (.inr rfl))

/-- The first image ends where the writable segment begins. -/
theorem length_rx (h : Packed data rx rw code writable) : rx.length = writable.address := by
  have hinside := h.code_sane.inside
  have hsplit := h.split
  have hfull := h.code_full
  rw [h.rx_eq, List.length_append, List.length_take, List.length_replicate]
  omega

/-- The second image has the writable segment's size in memory. -/
theorem length_rw (h : Packed data rx rw code writable) : rw.length = writable.memorySize := by
  have hinside := h.writable_sane.inside
  have hle := h.writable_sane.file_le
  rw [h.rw_eq, List.length_append, List.length_take, List.length_drop, List.length_replicate]
  omega

/-- A byte of the first image is from the file, or zero behind it. -/
theorem getElem?_rx (h : Packed data rx rw code writable) {v : Nat} (hv : v < writable.address) :
    rx[v]? = some (if v < code.fileSize then data.getD v 0 else 0) := by
  have hlength := h.length_rx
  have heq := h.rx_eq
  have hpart := getD_part data 0 code.fileSize v
  rw [List.drop_zero, Nat.zero_add] at hpart
  rw [heq, List.length_append, List.length_replicate] at hlength
  rw [heq, getElem?_padded _ (by omega), hpart]

/-- A byte of the second image is from the file, or zero behind it. -/
theorem getElem?_rw (h : Packed data rx rw code writable) {k : Nat} (hk : k < writable.memorySize) :
    rw[k]? = some (if k < writable.fileSize then data.getD (writable.offset + k) 0 else 0) := by
  have hlength := h.length_rw
  have heq := h.rw_eq
  rw [heq, List.length_append, List.length_replicate] at hlength
  rw [heq, getElem?_padded _ (by omega), getD_part]

/-- The two parts are the load image. -/
theorem loaded (h : Packed data rx rw code writable) {v : Nat} (hv : v < rx.length + rw.length) :
    ∃ b, (rx ++ rw)[v]? = some b ∧ LoadImage data v b := by
  have hrx := h.length_rx
  have hrw := h.length_rw
  have hzero := h.code_address
  have hoffset := h.code_offset
  have hfull := h.code_full
  rcases Nat.lt_or_ge v rx.length with hcode | hwritable
  · refine ⟨_, (List.getElem?_append_left hcode).trans (h.getElem?_rx (hrx ▸ hcode)), ?_⟩
    by_cases hin : v < code.fileSize
    · have hbyte : code.byteAt data v = if v < code.fileSize then data.getD v 0 else 0 := by
        rw [Segment.byteAt, hzero, hoffset, Nat.zero_add, Nat.zero_add, Nat.sub_zero]
      rw [← hbyte]
      exact .segment (h.mem_loads.2 (.inl rfl)) ⟨by omega, by omega⟩
    · rw [if_neg hin]
      refine .gap fun s hs hcovers => ?_
      rcases h.mem_loads.1 hs with rfl | rfl
      · exact hin (by have := hcovers.2; omega)
      · exact absurd hcovers.1 (by omega)
  · refine ⟨_, (List.getElem?_append_right hwritable).trans (h.getElem?_rw (by omega)), ?_⟩
    have hbyte : writable.byteAt data v =
        if v - rx.length < writable.fileSize then data.getD (writable.offset + (v - rx.length)) 0 else 0 := by
      rw [Segment.byteAt, hrx]
      by_cases hin : v < writable.address + writable.fileSize
      · rw [if_pos hin, if_pos (by omega)]
      · rw [if_neg hin, if_neg (by omega)]
    rw [← hbyte]
    exact .segment (h.mem_loads.2 (.inr rfl)) ⟨by omega, by omega⟩

/-- No two segments have a byte at one address. -/
theorem unique (h : Packed data rx rw code writable) {v : Nat} {b b' : UInt8} (hb : LoadImage data v b)
    (hb' : LoadImage data v b') : b = b' := by
  have hsplit := h.split
  have hzero := h.code_address
  have hapart : ∀ s ∈ segmentsOf data 1, ∀ s' ∈ segmentsOf data 1, s.Covers v → s'.Covers v → s = s' := by
    rintro s hs s' hs' ⟨h1, h2⟩ ⟨h3, h4⟩
    rcases h.mem_loads.1 hs with rfl | rfl <;> rcases h.mem_loads.1 hs' with rfl | rfl
    · rfl
    · omega
    · omega
    · rfl
  cases hb with
  | segment hs hcovers =>
    cases hb' with
    | segment hs' hcovers' => rw [hapart _ hs _ hs' hcovers hcovers']
    | gap hnone => exact absurd hcovers (hnone _ hs)
  | gap hnone =>
    cases hb' with
    | segment hs' hcovers' => exact absurd hcovers' (hnone _ hs')
    | gap _ => rfl

/-- The file bytes of a segment inside the read/write load are in the second part. -/
theorem filed (h : Packed data rx rw code writable) {s : Segment} (hs : s.Within writable) (hsane : s.Sane data)
    {k : Nat} (hk : k < s.fileSize) :
    rw[s.address - writable.address + k]? = data[s.offset + k]? ∧ s.offset + k < data.length := by
  obtain ⟨hend, hoffset⟩ := hs.filed (by omega)
  have habove := hs.above
  have hbelow := hs.below
  have hle := hsane.file_le
  have hinside := hsane.inside
  have hlt : s.offset + k < data.length := by omega
  refine ⟨?_, hlt⟩
  rw [h.getElem?_rw (by omega), if_pos (by omega), List.getElem?_eq_getElem hlt,
    show writable.offset + (s.address - writable.address + k) = s.offset + k by omega,
    List.getD_eq_getElem _ _ hlt]

end Packed

end Artbox.Pack
