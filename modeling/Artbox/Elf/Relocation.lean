import Artbox.Elf.Dynamic
import Mathlib.Data.List.Sort

/-!
# Relocation

`core/src/relocation.c`. A place in a view is the view's index and an offset, so that what the code
does through a pointer into a view is done to that view's bytes. A write behind the plan's capacity
or outside a view goes wrong.
-/

namespace Artbox.Elf

open Checked

/-- `RELOCATION_LIMIT` -/
def relocationLimit : Nat := 1024 * 1024

/-- `R_NONE` -/
def rNone : Nat := 0
/-- `R_ABS64` -/
def rAbs64 : Nat := 257
/-- `R_GLOB_DAT` -/
def rGlobDat : Nat := 1025
/-- `R_JUMP_SLOT` -/
def rJumpSlot : Nat := 1026
/-- `R_RELATIVE` -/
def rRelative : Nat := 1027
/-- `R_TLSDESC` -/
def rTlsdesc : Nat := 1031

/-- `artbox_relocation_memory`: the view of a segment. -/
structure Memory where
  segmentIndex : Nat
  address : Nat
  bytes : List UInt8
deriving DecidableEq, Repr

/-- `artbox_relocation_stats` -/
structure Stats where
  relaCount : Nat := 0
  pltCount : Nat := 0
  relrCount : Nat := 0
deriving DecidableEq, Repr

/-- `write_plan` -/
structure Write where
  view : Nat
  offset : Nat
  address : Nat
  value : BitVec 64
  argument : BitVec 64 := 0
  width : Nat
  type : Nat
  symbol : Nat
deriving DecidableEq, Repr

/-- `sizeof(write_plan)` -/
def writeSize : Nat := 48

/-- `preparation` -/
structure Preparation where
  dynamic : Dynamic
  memory : List Memory
  capacity : Nat
  writes : List Write := []
  stats : Stats := {}

/-- `artbox_relocation_resolver`, whose answer depends only on the symbol. -/
abbrev Resolver := Nat → Except ElfError (BitVec 64)

/-- `artbox_tlsdesc_binding`, whose answer depends only on the symbol and the addend. -/
abbrev Binding := Nat → BitVec 64 → Except ElfError (BitVec 64 × BitVec 64)

/-! ## Checks -/

/-- `overlaps` -/
def Overlaps (a an b bn : Nat) : Prop := an ≠ 0 ∧ bn ≠ 0 ∧ if a ≤ b then b - a < an else a - b < bn

instance (a an b bn : Nat) : Decidable (Overlaps a an b bn) := inferInstanceAs (Decidable (_ ∧ _ ∧ _))

/-- `table_valid` -/
def TableValid (d : Dynamic) (table : Table) (width : Nat) : Prop :=
  table.size % width = 0 ∧
    (table.size = 0 ∨ ((view d.image table.address table.size).isSome ∧
      view d.image table.address table.size = table.data))

instance (d : Dynamic) (table : Table) (width : Nat) : Decidable (TableValid d table width) :=
  inferInstanceAs (Decidable (_ ∧ _))

/-- The body of the loop of `check_memory`; `before` are the views that it has passed. -/
def MemoryValid (image : Image) (before : List Memory) (m : Memory) : Prop :=
  ∃ s ∈ image.segments[m.segmentIndex]?, m.address ≠ 0 ∧ m.bytes.length ≠ 0 ∧
    m.bytes.length ≤ uint64Max - m.address ∧ s.flags &&& 3 = 2 ∧ s.memorySize = m.bytes.length ∧
    s.memorySize ≤ uint64Max - s.virtualAddress ∧
    ¬ Overlaps m.address m.bytes.length image.data.address image.size ∧
    ∀ other ∈ before, other.segmentIndex ≠ m.segmentIndex ∧
      ¬ Overlaps m.address m.bytes.length other.address other.bytes.length

instance (image : Image) (before : List Memory) (m : Memory) : Decidable (MemoryValid image before m) :=
  inferInstanceAs (Decidable (∃ s ∈ image.segments[m.segmentIndex]?, _))

/-- The loop of `check_memory`. -/
def checkViews (image : Image) (before : List Memory) : List Memory → Checked ElfError Unit
  | [] => .ok ()
  | m :: rest => do
    reject (¬ MemoryValid image before m) .invalid
    checkViews image (before ++ [m]) rest

/-- `check_memory` -/
def checkMemory (image : Image) (memory : List Memory) : Checked ElfError Unit := do
  reject (image.data.address = 0 ∨ maxSegments < image.segments.length ∨
    image.segments.length < memory.length ∨ uint64Max - image.data.address < image.size) .invalid
  checkViews image [] memory

/-! ## The plan -/

/-- Where a view's segment starts. -/
def Memory.start (image : Image) (m : Memory) : Nat :=
  image.segments[m.segmentIndex]?.elim 0 (·.virtualAddress)

/-- The loop of `target`; `i` views are passed. -/
def targetFrom (image : Image) (address width : Nat) : (i : Nat) → List Memory → Option (Nat × Nat)
  | _, [] => none
  | i, m :: rest =>
    if m.start image ≤ address ∧ width ≤ m.bytes.length ∧
        address - m.start image ≤ m.bytes.length - width then
      some (i, address - m.start image)
    else targetFrom image address width (i + 1) rest

/-- `target` -/
def target (image : Image) (memory : List Memory) (address width : Nat) : Option (Nat × Nat) :=
  if uint64Max - width < address then none else targetFrom image address width 0 memory

/-- `u64` of a place in a view. -/
def u64 (memory : List Memory) (view offset : Nat) : Checked ElfError (BitVec 64) :=
  match memory[view]? with
  | none => .error .wrong
  | some m => do
    let word ← fetch m.bytes offset 8
    return BitVec.ofNat 64 word

/-- The width of a target. -/
def widthOf (type : Nat) : Nat := if type = rTlsdesc then 16 else 8

/-- `add_write` -/
def addWrite (p : Preparation) (address type symbol : Nat) (addend : BitVec 64) (implicit : Bool) :
    Checked ElfError Preparation :=
  if type = rNone then .ok p
  else do
    reject (type ≠ rAbs64 ∧ type ≠ rGlobDat ∧ type ≠ rJumpSlot ∧ type ≠ rRelative ∧ type ≠ rTlsdesc)
      .unsupported
    reject (p.dynamic.symbolCount ≤ symbol ∨ (type = rRelative ∧ symbol ≠ 0)) .invalid
    let place ← require (target p.dynamic.image p.memory address (widthOf type)) .invalid
    within (p.writes.length < p.capacity)
    let value ← (if implicit then u64 p.memory place.1 place.2 else .ok addend)
    return { p with
      writes := p.writes ++
        [{ view := place.1, offset := place.2, address, value, width := widthOf type, type, symbol }] }

/-- `prepare_rela`: the loop over the entries from `place` on, and the count. -/
def prepareRela : (left place : Nat) → Preparation → (count : Nat) → Checked ElfError (Preparation × Nat)
  | 0, _, p, count => .ok (p, count)
  | left + 1, place, p, count => do
    let address ← fetch p.dynamic.bytes place 8
    let info ← fetch p.dynamic.bytes (place + 8) 8
    let addend ← fetch p.dynamic.bytes (place + 16) 8
    let type := info % 2 ^ 32
    let p ← addWrite p address type (info / 2 ^ 32) (BitVec.ofNat 64 addend) false
    prepareRela left (place + 24) p (if type ≠ rNone then count + 1 else count)

/-- One more relative address. -/
def Preparation.countRelr (p : Preparation) : Preparation :=
  { p with stats := { p.stats with relrCount := p.stats.relrCount + 1 } }

/-- The loop of `prepare_relr` over the bits of a word. -/
def relrBits (entry cursor : Nat) : (left bit : Nat) → Preparation → Checked ElfError Preparation
  | 0, _, p => .ok p
  | left + 1, bit, p =>
    if entry.testBit bit then do
      let p ← addWrite p (cursor + (bit - 1) * 8) rRelative 0 0 true
      relrBits entry cursor left (bit + 1) p.countRelr
    else relrBits entry cursor left (bit + 1) p

/-- `prepare_relr`: the loop over the words from `place` on. -/
def prepareRelr : (left place cursor : Nat) → (hasAddress : Bool) → Preparation →
    Checked ElfError Preparation
  | 0, _, _, _, p => .ok p
  | left + 1, place, cursor, hasAddress, p => do
    let entry ← fetch p.dynamic.bytes place 8
    if entry % 2 = 0 then
      reject (uint64Max - 8 < entry) .invalid
      let p ← addWrite p entry rRelative 0 0 true
      prepareRelr left (place + 8) (entry + 8) true p.countRelr
    else
      reject (hasAddress = false ∨ uint64Max - 63 * 8 < cursor) .invalid
      let p ← relrBits entry cursor 63 1 p
      prepareRelr left (place + 8) (cursor + 63 * 8) hasAddress p

/-- The plan of all entries. -/
def prepare (d : Dynamic) (memory : List Memory) (capacity : Nat) : Checked ElfError Preparation := do
  let p ← prepareRelr (d.relr.size / 8) (d.relr.data.getD 0) 0 false { dynamic := d, memory, capacity }
  let (p, count) ← prepareRela (d.rela.size / 24) (d.rela.data.getD 0) p 0
  let p := { p with stats := { p.stats with relaCount := count } }
  let (p, count) ← prepareRela (d.pltRela.size / 24) (d.pltRela.data.getD 0) p 0
  return { p with stats := { p.stats with pltCount := count } }

/-- `by_address` -/
def byAddress (a b : Write) : Prop := a.address ≤ b.address

instance : DecidableRel byAddress := fun a b => inferInstanceAs (Decidable (a.address ≤ b.address))

/-- No write reaches the one behind it. -/
def checkApart : List Write → Checked ElfError Unit
  | w :: v :: rest => do
    reject (v.address - w.address < w.width) .unsupported
    checkApart (v :: rest)
  | _ => .ok ()

/-! ## Values -/

/-- `defined_range` -/
def DefinedRange (image : Image) (symbol : Symbol) : Prop :=
  symbol.sect = 0xfff1 ∨ ∃ s ∈ image.segments, s.virtualAddress ≤ symbol.value ∧
    symbol.value - s.virtualAddress ≤ s.memorySize ∧
    symbol.size ≤ s.memorySize - (symbol.value - s.virtualAddress)

instance (image : Image) (symbol : Symbol) : Decidable (DefinedRange image symbol) :=
  inferInstanceAs (Decidable (_ ∨ ∃ s ∈ image.segments, _))

/-- What the resolver says of a symbol. -/
def askResolver (resolve : Option Resolver) (index : Nat) : Checked ElfError (Option (BitVec 64)) :=
  match resolve with
  | none => .ok none
  | some resolve =>
    match resolve index with
    | .ok value => .ok (some value)
    | .error .notFound => .ok none
    | .error e => fail e

/-- `symbol_value` -/
def symbolValue (d : Dynamic) (bias : BitVec 64) (resolve : Option Resolver) (index : Nat) :
    Checked ElfError (BitVec 64) :=
  if index = 0 then .ok 0
  else do
    let symbol ← dynamicSymbol d index
    reject (2 < symbol.type ∨ 2 < symbol.binding ∨ (0xff00 ≤ symbol.sect ∧ symbol.sect ≠ 0xfff1)) .unsupported
    reject (symbol.sect ≠ 0 ∧ ¬ DefinedRange d.image symbol) .invalid
    reject (symbol.sect = 0 ∧ (symbol.binding = 0 ∨ symbol.visibility ≠ 0)) .invalid
    let found ← (if symbol.binding ≠ 0 ∧ symbol.visibility = 0 then askResolver resolve index else .ok none)
    match found with
    | some value => return value
    | none =>
      if symbol.sect ≠ 0 then
        return BitVec.ofNat 64 symbol.value + (if symbol.sect = 0xfff1 then 0 else bias)
      else if symbol.binding = 2 then return 0
      else fail .notFound

/-- The symbol of a TLS descriptor is one of this module's variables or one of another's. -/
def checkTls (d : Dynamic) (index : Nat) : Checked ElfError Unit :=
  if index = 0 then .ok ()
  else do
    let symbol ← dynamicSymbol d index
    reject (symbol.type ≠ 6 ∨ 2 < symbol.binding ∨ 0xff00 ≤ symbol.sect) .unsupported
    reject ((symbol.sect = 0 ∧ (symbol.binding = 0 ∨ symbol.visibility ≠ 0)) ∨
      (symbol.sect ≠ 0 ∧ ¬ ∃ tls ∈ d.image.tls, symbol.value ≤ tls.memorySize ∧
        symbol.size ≤ tls.memorySize - symbol.value)) .invalid

/-- The body of the loop of `artbox_relocate_tls` that gives the writes their values. -/
def bindWrite (d : Dynamic) (bias : BitVec 64) (resolve : Option Resolver) (tls : Option Binding)
    (w : Write) : Checked ElfError Write :=
  if w.type = rTlsdesc then do
    let tls ← require tls .unsupported
    checkTls d w.symbol
    let found ← lift (tls w.symbol w.value)
    reject (found.1 = 0 ∨ found.1 &&& 3 ≠ 0) .invalid
    return { w with value := found.1, argument := found.2 }
  else do
    let value ← (if w.type ≠ rRelative then symbolValue d bias resolve w.symbol else .ok bias)
    return { w with value := w.value + value }

/-- That loop. -/
def bindWrites (d : Dynamic) (bias : BitVec 64) (resolve : Option Resolver) (tls : Option Binding) :
    List Write → Checked ElfError (List Write)
  | [] => .ok []
  | w :: rest => do
    let w ← bindWrite d bias resolve tls w
    let rest ← bindWrites d bias resolve tls rest
    return w :: rest

/-! ## Writing -/

/-- `p64` -/
def p64 (memory : List Memory) (view offset : Nat) (value : BitVec 64) : Checked ElfError (List Memory) :=
  match memory[view]? with
  | none => .error .wrong
  | some m => do
    within (offset + 8 ≤ m.bytes.length)
    return memory.set view { m with bytes := Bytes.splice m.bytes offset (Bytes.writeLE 8 value.toNat) }

/-- The last loop of `artbox_relocate_tls`. -/
def storeWrites : List Write → List Memory → Checked ElfError (List Memory)
  | [], memory => .ok memory
  | w :: rest, memory => do
    let memory ← p64 memory w.view w.offset w.value
    let memory ← (if w.width = 16 then p64 memory w.view (w.offset + 8) w.argument else .ok memory)
    storeWrites rest memory

/-- `artbox_relocate_tls` up to the allocation: the plan's capacity. `allocated` says that `malloc`
returns memory. -/
def reserve (d : Dynamic) (memory : List Memory) (allocated : Bool) : Checked ElfError Nat := do
  reject (d.symbolCount = 0) .invalid
  checkMemory d.image memory
  reject (¬ TableValid d d.rela 24 ∨ ¬ TableValid d d.pltRela 24 ∨ ¬ TableValid d d.relr 8) .invalid
  let relaCount := d.rela.size / 24 + d.pltRela.size / 24
  let relrWords := d.relr.size / 8
  reject (relocationLimit < relaCount ∨ relocationLimit / 63 < relrWords) .unsupported
  let capacity := relaCount + relrWords * 63
  reject (relocationLimit < capacity ∨ uint64Max / writeSize < capacity) .unsupported
  reject (capacity ≠ 0 ∧ allocated = false) .noMemory
  return capacity

/-- `artbox_relocate_tls` up to the first byte that it writes. -/
def planWrites (d : Dynamic) (bias : BitVec 64) (memory : List Memory) (resolve : Option Resolver)
    (tls : Option Binding) (allocated : Bool) : Checked ElfError (List Write × Stats) := do
  let capacity ← reserve d memory allocated
  let p ← prepare d memory capacity
  let writes := p.writes.insertionSort byAddress
  checkApart writes
  let writes ← bindWrites d bias resolve tls writes
  return (writes, p.stats)

/-- `artbox_relocate_tls`: the result, none for `ARTBOX_ELF_OK`, the views and the statistics. -/
def relocateTls (d : Dynamic) (bias : BitVec 64) (memory : List Memory) (resolve : Option Resolver)
    (tls : Option Binding) (allocated : Bool) (stats : Stats) :
    Checked ElfError (Option ElfError × List Memory × Stats) :=
  match planWrites d bias memory resolve tls allocated with
  | .error (.error e) => .ok (some e, memory, stats)
  | .error .wrong => .error .wrong
  | .ok (writes, counted) => do
    let memory ← storeWrites writes memory
    return (none, memory, counted)

/-- `artbox_relocate` -/
def relocate (d : Dynamic) (bias : BitVec 64) (memory : List Memory) (resolve : Option Resolver)
    (allocated : Bool) (stats : Stats) : Checked ElfError (Option ElfError × List Memory × Stats) :=
  relocateTls d bias memory resolve none allocated stats

end Artbox.Elf
