import Artbox.Vm.Space
import Mathlib.Data.List.GetD

/-!
# The memory of the guest

`artbox_vm_read` and `artbox_vm_write`: what the runtime copies from and to the memory of the guest
it first looks up in the regions. The bytes are those the guest's own threads see, so they change
between two calls as they like; `accesses` notes each copy, the latest first.
-/

namespace Artbox.Vm

/-- A copy: where, and the bytes it read or wrote. -/
structure Access where
  writes : Bool
  address : Nat
  bytes : List UInt8
deriving DecidableEq, Repr

/-- The memory, with the copies made so far. -/
structure Guest where
  byte : Nat → UInt8
  accesses : List Access := []

namespace Guest

/-- The bytes of a range. -/
def range (g : Guest) (address length : Nat) : List UInt8 := (List.range length).map fun n => g.byte (address + n)

/-- `memcpy` from the guest. -/
def load (g : Guest) (address length : Nat) : List UInt8 × Guest :=
  (g.range address length, { g with accesses := ⟨false, address, g.range address length⟩ :: g.accesses })

/-- `memcpy` to the guest. -/
def store (g : Guest) (address : Nat) (bytes : List UInt8) : Guest where
  byte n := if address ≤ n ∧ n < address + bytes.length then bytes.getD (n - address) 0 else g.byte n
  accesses := ⟨true, address, bytes⟩ :: g.accesses

/-- The bytes copied to the guest so far. -/
def written (g : Guest) : List UInt8 := (g.accesses.reverse.filter (·.writes)).flatMap (·.bytes)

/-- The copies from one state to another stay in a range. -/
def Within (g g' : Guest) (address length : Nat) : Prop :=
  ∃ l, g'.accesses = l ++ g.accesses ∧ ∀ a ∈ l, address ≤ a.address ∧ a.address + a.bytes.length ≤ address + length

end Guest

namespace Space

/-- `artbox_vm_read`. -/
def read (s : Space) (g : Guest) (address length : Nat) : Except Int (List UInt8) × Guest :=
  if s.poisoned then (.error (-5), g)
  else if s.accessible address length 1 = false then (.error (-14), g)
  else if length = 0 then (.ok [], g)
  else (.ok (g.load address length).1, (g.load address length).2)

/-- `artbox_vm_write`. -/
def write (s : Space) (g : Guest) (address : Nat) (bytes : List UInt8) : Int × Guest :=
  if s.poisoned then (-5, g)
  else if s.accessible address bytes.length 2 = false then (-14, g)
  else if bytes = [] then (0, g)
  else (0, g.store address bytes)

end Space

/-! ## One copy behind another -/

namespace Guest

variable {g g' g'' : Guest} {address : Nat}

@[simp] theorem length_range (g : Guest) (address length : Nat) : (g.range address length).length = length := by
  rw [range, List.length_map, List.length_range]

/-- A range is its first part and the part behind. -/
theorem range_add (g : Guest) (address m n : Nat) :
    g.range address (m + n) = g.range address m ++ g.range (address + m) n := by
  unfold range
  rw [List.range_add, List.map_append, List.map_map]
  congr 1
  refine List.map_congr_left fun k _ => ?_
  show g.byte (address + (m + k)) = g.byte (address + m + k)
  rw [Nat.add_assoc]

/-- The beginning of a range is a range. -/
theorem take_range (g : Guest) (address : Nat) {k length : Nat} (h : k ≤ length) :
    (g.range address length).take k = g.range address k := by
  have hlength : (g.range address k).length = k := g.length_range address k
  rw [← Nat.add_sub_cancel' h, range_add, List.take_append_of_le_length (Nat.le_of_eq hlength.symm),
    List.take_of_length_le (Nat.le_of_eq hlength)]

/-- A range depends only on the bytes. -/
theorem range_congr (h : g'.byte = g.byte) (address length : Nat) :
    g'.range address length = g.range address length := by
  unfold range
  rw [h]

theorem byte_store_nil : (g.store address []).byte = g.byte := by
  funext n
  exact if_neg fun h => Nat.not_lt_of_le h.1 h.2

/-- Two copies, the second behind the first, are one copy. -/
theorem byte_store_append (bytes more : List UInt8) :
    ((g.store address bytes).store (address + bytes.length) more).byte = (g.store address (bytes ++ more)).byte := by
  funext n
  have hlength : (bytes ++ more).length = bytes.length + more.length := List.length_append
  simp only [store]
  rcases Nat.lt_or_ge n address with hbelow | hat
  · rw [if_neg (by omega), if_neg (by omega), if_neg (by omega)]
  rcases Nat.lt_or_ge n (address + bytes.length) with hfirst | hbehind
  · rw [if_neg (by omega), if_pos ⟨hat, hfirst⟩, if_pos ⟨hat, by omega⟩, List.getD_append _ _ _ _ (by omega)]
  rcases Nat.lt_or_ge n (address + bytes.length + more.length) with hmore | hout
  · rw [if_pos ⟨hbehind, hmore⟩, if_pos ⟨hat, by omega⟩, List.getD_append_right _ _ _ _ (by omega), ← Nat.sub_sub]
  · rw [if_neg (by omega), if_neg (by omega), if_neg (by omega)]

/-- What a copy makes of the memory depends on the bytes alone. -/
theorem byte_store_congr (h : g'.byte = g.byte) (bytes : List UInt8) :
    (g'.store address bytes).byte = (g.store address bytes).byte := by
  simp only [store, h]

/-- A store is noted behind all others. -/
theorem written_store (g : Guest) (address : Nat) (bytes : List UInt8) :
    (g.store address bytes).written = g.written ++ bytes := by
  simp [written, store]

theorem written_load (g : Guest) (address length : Nat) : (g.load address length).2.written = g.written := by
  simp [written, load]

theorem Within.refl (g : Guest) (address length : Nat) : g.Within g address length :=
  ⟨[], rfl, by intro a ha; cases ha⟩

theorem Within.trans {length : Nat} (h : g.Within g' address length) (h' : g'.Within g'' address length) :
    g.Within g'' address length := by
  obtain ⟨l, hl, hin⟩ := h
  obtain ⟨l', hl', hin'⟩ := h'
  refine ⟨l' ++ l, by rw [hl', hl, List.append_assoc], fun a ha => ?_⟩
  exact (List.mem_append.1 ha).elim (hin' a) (hin a)

/-- What stays in a part of a range stays in the range. -/
theorem Within.mono {length inner size : Nat} (h : g.Within g' inner size) (hfrom : address ≤ inner)
    (hto : inner + size ≤ address + length) : g.Within g' address length := by
  obtain ⟨l, hl, hin⟩ := h
  refine ⟨l, hl, fun a ha => ?_⟩
  have hrange := hin a ha
  omega

/-- A store stays in its range. -/
theorem within_store (g : Guest) {bytes : List UInt8} {length : Nat} (h : bytes.length ≤ length) :
    g.Within (g.store address bytes) address length := by
  refine ⟨[⟨true, address, bytes⟩], rfl, fun a ha => ?_⟩
  rw [List.mem_singleton.1 ha]
  exact ⟨Nat.le_refl _, Nat.add_le_add_left h _⟩

theorem within_load (g : Guest) (address length : Nat) : g.Within (g.load address length).2 address length := by
  refine ⟨[⟨false, address, g.range address length⟩], rfl, fun a ha => ?_⟩
  rw [List.mem_singleton.1 ha]
  show address ≤ address ∧ address + (g.range address length).length ≤ address + length
  rw [length_range]
  exact ⟨Nat.le_refl _, Nat.le_refl _⟩

end Guest

/-- `artbox_vm_write` copies all of the bytes, or it fails with nothing copied. -/
theorem Space.write_cases (s : Space) (g : Guest) (address : Nat) {bytes : List UInt8} (h : bytes ≠ []) :
    s.write g address bytes = (0, g.store address bytes) ∨
      ∃ error : Int, error < 0 ∧ s.write g address bytes = (error, g) ∧
        s.accessible address bytes.length 2 = false := by
  unfold write
  split
  next hpoisoned => exact .inr ⟨-5, by decide, rfl, if_pos hpoisoned⟩
  next =>
    split
    next haccess => exact .inr ⟨-14, by decide, rfl, haccess⟩
    next => exact .inl rfl

end Artbox.Vm
