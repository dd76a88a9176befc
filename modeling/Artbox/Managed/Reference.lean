import Artbox.Vm.Space
import Mathlib.Logic.Equiv.Defs
import Mathlib.Data.Nat.Bitwise

/-!
# Managed references

`core/src/managed_reference.c`: an address of the managed heap as a 32-bit offset into the window of
the heap, zero for null. The window has at most 4 GiB and may start at any aligned address, so
the offset of the last word and the end of the address space are both one step from not fitting.
`Window.references_equiv` is the map the two functions compute, with the proofs that it stays in
range on either side.

A pointer is an `Option`: null, or what it points to before the call.
-/

namespace Artbox.Managed

/-- `artbox_reference_window`. -/
structure Window where
  base : UInt64
  length : UInt64
  guardBytes : UInt64
deriving DecidableEq, Repr

/-- `valid`, the pointer not being null. -/
def Window.valid (w : Window) : Bool :=
  w.base != 0 && (w.base ||| w.length ||| w.guardBytes) &&& 7 == 0 && w.length ≤ 0x100000000 &&
    8 ≤ w.guardBytes && w.guardBytes < w.length && w.length ≤ 0xffffffffffffffff - w.base

/-- `valid`. -/
def valid (window : Option Window) : Bool := window.any (·.valid)

/-- `artbox_reference_window_init`, with what the pointer points to after it. -/
def windowInit (window : Option Window) (base length guardBytes : UInt64) : Int × Option Window :=
  let candidate : Window := ⟨base, length, guardBytes⟩
  if window.isNone || !valid (some candidate) then (-22, window) else (0, some candidate)

/-- `artbox_reference_encode`, with what `reference` points to after it. -/
def encode (window : Option Window) (address : UInt64) (reference : Option UInt32) : Int × Option UInt32 :=
  match window, reference with
  | some w, some _ =>
    if !w.valid then (-22, reference)
    else if address = 0 then (0, some 0)
    else if address < w.base ∨ address &&& 7 ≠ 0 then (-14, reference)
    else
      let offset := address - w.base
      if offset < w.guardBytes ∨ w.length ≤ offset then (-14, reference) else (0, some offset.toUInt32)
  | _, _ => (-22, reference)

/-- `artbox_reference_decode`, with what `address` points to after it. -/
def decode (window : Option Window) (reference : UInt32) (address : Option UInt64) : Int × Option UInt64 :=
  match window, address with
  | some w, some _ =>
    if !w.valid then (-22, address)
    else if reference = 0 then (0, some 0)
    else if reference &&& 7 ≠ 0 ∨ reference.toUInt64 < w.guardBytes ∨ w.length ≤ reference.toUInt64 then
      (-14, address)
    else (0, some (w.base + reference.toUInt64))
  | _, _ => (-22, address)

/-! ## What a valid window is -/

/-- The low three bits are zero exactly in multiples of eight. -/
theorem and7_eq_zero (n : Nat) : n &&& 7 = 0 ↔ n % 8 = 0 := by
  rw [show (7 : Nat) = 2 ^ 3 - 1 from rfl, Nat.and_two_pow_sub_one_eq_mod]

/-- Two numbers are aligned together if both are. -/
theorem or_aligned (a b : Nat) : (a ||| b) % 8 = 0 ↔ a % 8 = 0 ∧ b % 8 = 0 := by
  rw [← and7_eq_zero, ← and7_eq_zero, ← and7_eq_zero, Nat.and_or_distrib_right, Nat.or_eq_zero_iff]

/-- The alignment check of an address. -/
theorem aligned64 (a : UInt64) : a &&& 7 = 0 ↔ a.toNat % 8 = 0 := by
  rw [← and7_eq_zero, ← UInt64.toNat_inj, UInt64.toNat_and]
  exact Iff.rfl

/-- The alignment check of a reference. -/
theorem aligned32 (r : UInt32) : r &&& 7 = 0 ↔ r.toNat % 8 = 0 := by
  rw [← and7_eq_zero, ← UInt32.toNat_inj, UInt32.toNat_and]
  exact Iff.rfl

namespace Window

variable {w : Window} {a : UInt64} {r : UInt32}

/-- What `valid` checks. -/
structure Valid (w : Window) : Prop where
  base_pos : 0 < w.base.toNat
  base_aligned : w.base.toNat % 8 = 0
  length_aligned : w.length.toNat % 8 = 0
  guard_aligned : w.guardBytes.toNat % 8 = 0
  length_le : w.length.toNat ≤ 2 ^ 32
  guard_ge : 8 ≤ w.guardBytes.toNat
  guard_lt : w.guardBytes.toNat < w.length.toNat
  /-- The end of the window does not wrap. -/
  end_lt : w.base.toNat + w.length.toNat < 2 ^ 64

/-- What the address space accepts for its windows is what is valid here. -/
theorem validWindow_iff (w : Window) :
    Vm.Space.validWindow w.base.toNat w.length.toNat w.guardBytes.toNat = true ↔ w.Valid := by
  have hbase := w.base.toNat_lt
  have hword : Vm.word = 2 ^ 64 := rfl
  simp only [Vm.Space.validWindow, Bool.and_eq_true, bne_iff_ne, ne_eq, beq_iff_eq, decide_eq_true_eq,
    and7_eq_zero, or_aligned]
  constructor
  · intro hall
    obtain ⟨⟨⟨⟨⟨h0, ⟨hb, hl⟩, hg⟩, hlength⟩, hguard⟩, hlt⟩, hend⟩ := hall
    exact ⟨by omega, hb, hl, hg, hlength, hguard, hlt, by omega⟩
  · intro h
    have hpos := h.base_pos
    have hlt := h.end_lt
    exact ⟨⟨⟨⟨⟨by omega, ⟨h.base_aligned, h.length_aligned⟩, h.guard_aligned⟩, h.length_le⟩, h.guard_ge⟩,
      h.guard_lt⟩, by omega⟩

/-- `valid` checks what the reservation of a window checks. -/
theorem valid_eq (w : Window) :
    w.valid = Vm.Space.validWindow w.base.toNat w.length.toNat w.guardBytes.toNat := by
  have hsub : (0xffffffffffffffff - w.base).toNat = Vm.word - 1 - w.base.toNat :=
    UInt64.toNat_sub_of_le _ _ (UInt64.le_iff_toNat_le.2 (Nat.le_of_lt_succ w.base.toNat_lt))
  have hor : (w.base ||| w.length ||| w.guardBytes).toNat =
      w.base.toNat ||| w.length.toNat ||| w.guardBytes.toNat := by
    rw [UInt64.toNat_or, UInt64.toNat_or]
  unfold valid Vm.Space.validWindow
  rw [Bool.eq_iff_iff]
  simp only [Bool.and_eq_true, bne_iff_ne, ne_eq, beq_iff_eq, decide_eq_true_eq, aligned64, and7_eq_zero,
    UInt64.le_iff_toNat_le, UInt64.lt_iff_toNat_lt, hsub, hor]
  rw [← UInt64.toNat_inj]
  exact Iff.rfl

/-- `valid` is decided by its arithmetic. -/
theorem valid_iff : w.valid = true ↔ w.Valid := by
  rw [valid_eq, validWindow_iff]

/-! ## The two sets -/

/-- Null and the aligned addresses behind the guard. -/
def addresses (w : Window) : Set UInt64 :=
  {a | a = 0 ∨ (a.toNat % 8 = 0 ∧ w.base.toNat + w.guardBytes.toNat ≤ a.toNat ∧
    a.toNat < w.base.toNat + w.length.toNat)}

/-- The references that `artbox_reference_decode` accepts. -/
def references (w : Window) : Set UInt32 := {r | ∀ address, (decode (some w) r (some address)).1 = 0}

/-- An offset that may be encoded. -/
def Offset (w : Window) (n : Nat) : Prop := n % 8 = 0 ∧ w.guardBytes.toNat ≤ n ∧ n < w.length.toNat

instance (w : Window) (n : Nat) : Decidable (w.Offset n) := inferInstanceAs (Decidable (_ ∧ _ ∧ _))

/-- An address of the window is an offset from its base. -/
theorem Valid.mem_addresses (h : w.Valid) (ha : a ≠ 0) :
    a ∈ w.addresses ↔ w.base.toNat ≤ a.toNat ∧ w.Offset (a.toNat - w.base.toNat) := by
  have hbase := h.base_aligned
  show a = 0 ∨ _ ↔ _ ∧ _ ∧ _ ∧ _
  constructor
  · rintro (h0 | ⟨halign, hlo, hhi⟩)
    · exact absurd h0 ha
    · exact ⟨by omega, by omega, by omega, by omega⟩
  · intro hall
    obtain ⟨hle, halign, hlo, hhi⟩ := hall
    exact .inr ⟨by omega, by omega, by omega⟩

/-- `artbox_reference_encode` on an address other than null. -/
theorem Valid.encode_eq (h : w.Valid) (ha : a ≠ 0) (out : UInt32) :
    encode (some w) a (some out) =
      if w.base.toNat ≤ a.toNat ∧ w.Offset (a.toNat - w.base.toNat) then (0, some (a - w.base).toUInt32)
      else (-14, some out) := by
  have hv : w.valid = true := valid_iff.2 h
  have hbase := h.base_aligned
  simp only [encode, hv, Bool.not_true, Bool.false_eq_true, if_false, if_neg ha]
  by_cases hlow : a < w.base ∨ a &&& 7 ≠ 0
  · rw [if_pos hlow, if_neg]
    intro hall
    obtain ⟨hle, halign, -, -⟩ := hall
    rcases hlow with hlt | hodd
    · exact Nat.not_lt_of_le hle (UInt64.lt_iff_toNat_lt.1 hlt)
    · exact hodd ((aligned64 a).2 (by omega))
  rw [if_neg hlow]
  rw [not_or, not_not, aligned64, UInt64.not_lt, UInt64.le_iff_toNat_le] at hlow
  have hoffset : (a - w.base).toNat = a.toNat - w.base.toNat :=
    UInt64.toNat_sub_of_le _ _ (UInt64.le_iff_toNat_le.2 hlow.1)
  by_cases hout : a - w.base < w.guardBytes ∨ w.length ≤ a - w.base
  · rw [if_pos hout, if_neg]
    intro hall
    obtain ⟨-, -, hlo, hhi⟩ := hall
    rw [UInt64.lt_iff_toNat_lt, UInt64.le_iff_toNat_le, hoffset] at hout
    omega
  · rw [if_neg hout, if_pos]
    rw [UInt64.lt_iff_toNat_lt, UInt64.le_iff_toNat_le, hoffset] at hout
    exact ⟨hlow.1, by omega, by omega, by omega⟩

/-- `artbox_reference_decode` on a reference other than null. -/
theorem Valid.decode_eq (h : w.Valid) (hr : r ≠ 0) (out : UInt64) :
    decode (some w) r (some out) =
      if w.Offset r.toNat then (0, some (w.base + r.toUInt64)) else (-14, some out) := by
  have hv : w.valid = true := valid_iff.2 h
  simp only [decode, hv, Bool.not_true, Bool.false_eq_true, if_false, if_neg hr]
  have hword : r.toUInt64.toNat = r.toNat := UInt32.toNat_toUInt64 r
  by_cases hout : r &&& 7 ≠ 0 ∨ r.toUInt64 < w.guardBytes ∨ w.length ≤ r.toUInt64
  · rw [if_pos hout, if_neg]
    intro hall
    obtain ⟨halign, hlo, hhi⟩ := hall
    rw [UInt64.lt_iff_toNat_lt, UInt64.le_iff_toNat_le, hword] at hout
    rcases hout with hodd | hlt | hge
    · exact hodd ((aligned32 r).2 halign)
    · omega
    · omega
  · rw [if_neg hout, if_pos]
    rw [not_or, not_or, not_not, aligned32, UInt64.not_lt, UInt64.not_le, UInt64.le_iff_toNat_le,
      UInt64.lt_iff_toNat_lt, hword] at hout
    exact hout

/-- A reference of the window is an offset. -/
theorem Valid.mem_references (h : w.Valid) (hr : r ≠ 0) : r ∈ w.references ↔ w.Offset r.toNat := by
  show (∀ out, _ = _) ↔ _
  constructor
  · intro hall
    by_contra hn
    have hzero := hall 0
    rw [h.decode_eq hr, if_neg hn] at hzero
    cases hzero
  · intro hoff out
    rw [h.decode_eq hr, if_pos hoff]

/-- Null is encoded as zero. -/
theorem Valid.encode_zero (h : w.Valid) (out : UInt32) : encode (some w) 0 (some out) = (0, some 0) := by
  simp only [encode, valid_iff.2 h, Bool.not_true, Bool.false_eq_true, if_false, if_true]

/-- Zero is decoded as null. -/
theorem Valid.decode_zero (h : w.Valid) (out : UInt64) : decode (some w) 0 (some out) = (0, some 0) := by
  simp only [decode, valid_iff.2 h, Bool.not_true, Bool.false_eq_true, if_false, if_true]

/-! ## The map between them -/

/-- The reference of an address. -/
def reference (w : Window) (a : UInt64) : UInt32 := if a = 0 then 0 else (a - w.base).toUInt32

/-- The address of a reference. -/
def address (w : Window) (r : UInt32) : UInt64 := if r = 0 then 0 else w.base + r.toUInt64

/-- Of an address in the window nothing is cut off. -/
theorem Valid.reference_toNat (h : w.Valid) (hmem : a ∈ w.addresses) (ha : a ≠ 0) :
    w.base.toNat + (w.reference a).toNat = a.toNat := by
  obtain ⟨hle, -, -, hhi⟩ := (h.mem_addresses ha).1 hmem
  have hlength := h.length_le
  have hoffset : (a - w.base).toNat = a.toNat - w.base.toNat :=
    UInt64.toNat_sub_of_le _ _ (UInt64.le_iff_toNat_le.2 hle)
  rw [reference, if_neg ha, UInt64.toNat_toUInt32, hoffset, Nat.mod_eq_of_lt (by omega)]
  omega

/-- The address of a reference does not wrap. -/
theorem Valid.address_toNat (h : w.Valid) (hmem : r ∈ w.references) (hr : r ≠ 0) :
    (w.address r).toNat = w.base.toNat + r.toNat := by
  obtain ⟨-, -, hhi⟩ := (h.mem_references hr).1 hmem
  have hend := h.end_lt
  rw [address, if_neg hr, UInt64.toNat_add, UInt32.toNat_toUInt64, Nat.mod_eq_of_lt (by omega)]

/-- No address is encoded as null. -/
theorem Valid.reference_ne_zero (h : w.Valid) (hmem : a ∈ w.addresses) (ha : a ≠ 0) : w.reference a ≠ 0 := by
  intro hzero
  have hsum := h.reference_toNat hmem ha
  obtain ⟨-, -, hlo, -⟩ := (h.mem_addresses ha).1 hmem
  have hguard := h.guard_ge
  rw [hzero, UInt32.toNat_zero] at hsum
  omega

/-- No reference is decoded as null. -/
theorem Valid.address_ne_zero (h : w.Valid) (hmem : r ∈ w.references) (hr : r ≠ 0) : w.address r ≠ 0 := by
  intro hzero
  have hnat := h.address_toNat hmem hr
  have hpos := h.base_pos
  rw [hzero, UInt64.toNat_zero] at hnat
  omega

/-- Encoding gives a reference that is accepted. -/
theorem Valid.reference_mem (h : w.Valid) (hmem : a ∈ w.addresses) : w.reference a ∈ w.references := by
  by_cases ha : a = 0
  · intro out
    rw [reference, if_pos ha, h.decode_zero]
  obtain ⟨-, hoff⟩ := (h.mem_addresses ha).1 hmem
  have hsum := h.reference_toNat hmem ha
  rw [h.mem_references (h.reference_ne_zero hmem ha), show (w.reference a).toNat = a.toNat - w.base.toNat by omega]
  exact hoff

/-- Decoding gives an address that is accepted. -/
theorem Valid.address_mem (h : w.Valid) (hmem : r ∈ w.references) : w.address r ∈ w.addresses := by
  by_cases hr : r = 0
  · exact .inl (if_pos hr)
  obtain ⟨halign, hlo, hhi⟩ := (h.mem_references hr).1 hmem
  have hnat := h.address_toNat hmem hr
  have hbase := h.base_aligned
  exact .inr ⟨by omega, by omega, by omega⟩

/-- The map of the window, from addresses to references and back. -/
def Valid.references_equiv (h : w.Valid) : w.addresses ≃ w.references where
  toFun a := ⟨w.reference a, h.reference_mem a.2⟩
  invFun r := ⟨w.address r, h.address_mem r.2⟩
  left_inv a := by
    apply Subtype.ext
    by_cases ha : a.1 = 0
    · show w.address (w.reference a.1) = a.1
      rw [reference, if_pos ha, ha]
      rfl
    · have hsum := h.reference_toNat a.2 ha
      have hnat := h.address_toNat (h.reference_mem a.2) (h.reference_ne_zero a.2 ha)
      exact UInt64.toNat_inj.1 (hnat.trans hsum)
  right_inv r := by
    apply Subtype.ext
    by_cases hr : r.1 = 0
    · show w.reference (w.address r.1) = r.1
      rw [address, if_pos hr, hr]
      rfl
    · have hnat := h.address_toNat r.2 hr
      have hsum := h.reference_toNat (h.address_mem r.2) (h.address_ne_zero r.2 hr)
      refine UInt32.toNat_inj.1 (?_ : (w.reference (w.address r.1)).toNat = r.1.toNat)
      omega

end Window

/-! ## The codec -/

/-- A window that is initialized is valid and has the arguments. -/
theorem valid_of_init {window : Option Window} {base length guardBytes : UInt64} {w : Window}
    (h : windowInit window base length guardBytes = (0, some w)) :
    w = ⟨base, length, guardBytes⟩ ∧ w.Valid := by
  dsimp only [windowInit] at h
  split at h
  · cases h
  next hvalid =>
    cases h
    rw [Bool.or_eq_true, not_or] at hvalid
    exact ⟨rfl, Window.valid_iff.1 (by simpa [valid] using hvalid.2)⟩

/-- Encoding and decoding are inverse to each other between the null address with the aligned
addresses behind the guard and the references that decode; no other address encodes, and what is
refused leaves the output alone. Nothing is cut off, nothing wraps and only null is zero. -/
theorem references_biject {window : Option Window} {base length guardBytes : UInt64} {w : Window}
    (h : windowInit window base length guardBytes = (0, some w)) :
    ∃ e : w.addresses ≃ w.references,
      (∀ a out, encode (some w) a.1 (some out) = (0, some (e a).1)) ∧
      (∀ r out, decode (some w) r.1 (some out) = (0, some (e.symm r).1)) ∧
      (∀ a ∉ w.addresses, ∀ out, encode (some w) a (some out) = (-14, some out)) ∧
      (∀ r ∉ w.references, ∀ out, decode (some w) r (some out) = (-14, some out)) ∧
      (∀ a : w.addresses, a.1 ≠ 0 → (e a).1 ≠ 0 ∧ base.toNat + (e a).1.toNat = a.1.toNat) ∧
      (∀ r : w.references, r.1 ≠ 0 → (e.symm r).1.toNat = base.toNat + r.1.toNat ∧
        guardBytes.toNat ≤ r.1.toNat ∧ r.1.toNat < length.toNat) := by
  obtain ⟨rfl, hv⟩ := valid_of_init h
  refine ⟨hv.references_equiv, fun a out => ?_, fun r out => ?_, fun a ha out => ?_, fun r hr out => ?_,
    fun a ha => ⟨hv.reference_ne_zero a.2 ha, hv.reference_toNat a.2 ha⟩, fun r hr => ?_⟩
  · show encode _ a.1 _ = (0, some (Window.reference _ a.1))
    by_cases ha : a.1 = 0
    · rw [ha, hv.encode_zero, Window.reference, if_pos rfl]
    · rw [hv.encode_eq ha, if_pos ((hv.mem_addresses ha).1 a.2), Window.reference, if_neg ha]
  · show decode _ r.1 _ = (0, some (Window.address _ r.1))
    by_cases hr : r.1 = 0
    · rw [hr, hv.decode_zero, Window.address, if_pos rfl]
    · rw [hv.decode_eq hr, if_pos ((hv.mem_references hr).1 r.2), Window.address, if_neg hr]
  · have hne : a ≠ 0 := fun hzero => ha (.inl hzero)
    rw [hv.encode_eq hne, if_neg fun hin => ha ((hv.mem_addresses hne).2 hin)]
  · have hne : r ≠ 0 := by
      intro heq
      subst heq
      exact hr fun out => congrArg Prod.fst (hv.decode_zero out)
    rw [hv.decode_eq hne, if_neg fun hin => hr ((hv.mem_references hne).2 hin)]
  · obtain ⟨-, hlo, hhi⟩ := (hv.mem_references hr).1 r.2
    exact ⟨hv.address_toNat r.2 hr, hlo, hhi⟩

/-- A window of exactly 4 GiB. -/
def sampleWindow : Window := ⟨0x1200000000, 0x100000000, 16384⟩

/-- The last word of the window has the last reference there is. -/
theorem references_biject_sample :
    ∃ e : sampleWindow.addresses ≃ sampleWindow.references,
      (∀ out, encode (some sampleWindow) 0x12fffffff8 (some out) = (0, some 0xfffffff8)) ∧
      (∀ out, decode (some sampleWindow) 0xfffffff8 (some out) = (0, some 0x12fffffff8)) ∧
      (∀ r : sampleWindow.references, r.1 ≠ 0 → (e.symm r).1.toNat = 0x1200000000 + r.1.toNat) := by
  have h : windowInit (some ⟨0, 0, 0⟩) 0x1200000000 0x100000000 16384 = (0, some sampleWindow) := by decide
  obtain ⟨e, -, -, -, -, -, hdecoded⟩ := references_biject h
  exact ⟨e, fun _ => rfl, fun _ => rfl, fun r hr => (hdecoded r hr).1⟩

end Artbox.Managed
