import Artbox.Elf.Image

/-!
# Dynamic tables

`core/src/dynamic.c`. Strings are the bytes up to their NUL, which are read when the code takes the
pointer; it compares them later in an image that does not change. A table that was not given is
none where the code leaves a null pointer. Loops are recursive on the rounds that are left, so
that a loop the code ends with a bound ends where that is used up.
-/

namespace Artbox.Elf

open Checked

/-- `SYMBOL_LIMIT` -/
def symbolLimit : Nat := 1024 * 1024

/-- `ARTBOX_ELF_MAX_NEEDED` -/
def maxNeeded : Nat := 64

/-- `ARTBOX_ELF_MAX_VERSIONS` -/
def maxVersions : Nat := 256

/-- `enum key` -/
inductive Key
  | str | strsz | sym | syment | hash | gnuHash | rela | relasz | relaent
  | relr | relrsz | relrent | jmprel | pltrelsz | pltrel | init | fini
  | initArray | initArraysz | finiArray | finiArraysz | preinitArray
  | preinitArraysz | soname | flags | flags1 | rpath | runpath | pltgot
  | versym | verdef | verdefnum | verneed | verneednum
deriving DecidableEq, Repr

/-- `artbox_elf_version` -/
structure Version where
  name : List UInt8 := []
  /-- The needed provider; none for definitions. -/
  file : Option (List UInt8) := none
  hash : Nat := 0
  index : Nat := 0
  flags : Nat := 0
  hidden : Bool := false
deriving DecidableEq, Repr

/-- `artbox_elf_table` -/
structure Table where
  data : Option Nat := none
  address : Nat := 0
  size : Nat := 0
deriving DecidableEq, Repr

/-- `artbox_dynamic` -/
structure Dynamic where
  image : Image
  strings : Nat := 0
  stringsSize : Nat := 0
  soname : Option (List UInt8) := none
  rpath : Option (List UInt8) := none
  runpath : Option (List UInt8) := none
  needed : List (List UInt8) := []
  symbols : Nat := 0
  symbolCount : Nat := 0
  rela : Table := {}
  pltRela : Table := {}
  relr : Table := {}
  initArray : Table := {}
  finiArray : Table := {}
  preinitArray : Table := {}
  init : Nat := 0
  fini : Nat := 0
  flags : Nat := 0
  flags1 : Nat := 0
  pltGot : Nat := 0
  sysvBuckets : Nat := 0
  sysvChains : Nat := 0
  sysvBucketCount : Nat := 0
  gnuBloom : Nat := 0
  gnuBuckets : Nat := 0
  gnuChains : Nat := 0
  gnuBucketCount : Nat := 0
  gnuSymbolOffset : Nat := 0
  gnuBloomCount : Nat := 0
  gnuShift : Nat := 0
  versym : Option Nat := none
  versions : List Version := []
deriving DecidableEq

/-- `artbox_elf_symbol` -/
structure Symbol where
  name : List UInt8
  value : Nat
  size : Nat
  sect : Nat
  binding : Nat
  type : Nat
  visibility : Nat
deriving DecidableEq, Repr

/-- The bytes of the image. -/
def Dynamic.bytes (d : Dynamic) : List UInt8 := d.image.data.bytes

/-! ## Views -/

/-- `view` -/
def view (image : Image) (address length : Nat) : Option Nat :=
  (virtualSpan image address length).toOption

/-- `available` -/
def available (image : Image) (address : Nat) : Nat :=
  match image.segments.find? fun s =>
    s.virtualAddress ≤ address ∧ address - s.virtualAddress < s.fileSize with
  | some s => s.fileSize - (address - s.virtualAddress)
  | none => 0

/-- `string_at` -/
def stringAt (d : Dynamic) (offset : Nat) : Checked ElfError (Option (List UInt8)) :=
  if d.stringsSize ≤ offset then .ok none
  else do
    let rest ← slice d.bytes (d.strings + offset) (d.stringsSize - offset)
    return if 0 ∈ rest then some (rest.takeWhile (· ≠ 0)) else none

/-! ## Hashes -/

/-- `gnu_hash` -/
def gnuHash (name : List UInt8) : BitVec 32 :=
  name.foldl (fun hash c => hash * 33 + BitVec.ofNat 32 c.toNat) 5381

/-- `sysv_hash` -/
def sysvHash (name : List UInt8) : BitVec 32 :=
  name.foldl (fun hash c =>
    let hash := (hash <<< 4) + BitVec.ofNat 32 c.toNat
    let high := hash &&& 0xf0000000
    (hash ^^^ (high >>> 24)) &&& ~~~high) 0

/-- `bloom_bits` -/
def bloomBits (hash : BitVec 32) (shift : Nat) : BitVec 64 :=
  (1 <<< (hash.toNat % 64)) ||| (1 <<< ((hash >>> shift).toNat % 64))

/-- A chain word is for a hash: they differ at most in the bit that ends a chain. -/
def SameHash (hash : BitVec 32) (chain : Nat) : Prop :=
  hash &&& ~~~1 = BitVec.ofNat 32 chain &&& ~~~1

instance (hash : BitVec 32) (chain : Nat) : Decidable (SameHash hash chain) :=
  inferInstanceAs (Decidable (_ = _))

/-! ## Entries -/

/-- `tag_key` -/
def tagKey (tag : Nat) : Option Key :=
  match tag with
  | 5 => some .str | 10 => some .strsz | 6 => some .sym | 11 => some .syment
  | 4 => some .hash | 0x6ffffef5 => some .gnuHash
  | 7 => some .rela | 8 => some .relasz | 9 => some .relaent
  | 36 | 0x6fffe000 => some .relr
  | 35 | 0x6fffe001 => some .relrsz
  | 37 | 0x6fffe003 => some .relrent
  | 23 => some .jmprel | 2 => some .pltrelsz | 20 => some .pltrel
  | 12 => some .init | 13 => some .fini | 25 => some .initArray | 27 => some .initArraysz
  | 26 => some .finiArray | 28 => some .finiArraysz
  | 32 => some .preinitArray | 33 => some .preinitArraysz
  | 14 => some .soname | 30 => some .flags | 0x6ffffffb => some .flags1
  | 15 => some .rpath | 29 => some .runpath | 3 => some .pltgot
  | 0x6ffffff0 => some .versym | 0x6ffffffc => some .verdef | 0x6ffffffd => some .verdefnum
  | 0x6ffffffe => some .verneed | 0x6fffffff => some .verneednum
  | _ => none

/-- What the entries of the dynamic section give: `values` with `seen`, and `needed`. -/
structure Entries where
  values : Key → Option Nat := fun _ => none
  needed : List Nat := []
  flags : Nat := 0

def Entries.value (e : Entries) (key : Key) : Nat := (e.values key).getD 0

def Entries.seen (e : Entries) (key : Key) : Prop := (e.values key).isSome = true

instance (e : Entries) (key : Key) : Decidable (e.seen key) := inferInstanceAs (Decidable (_ = _))

/-- The loop over the dynamic section; without a terminator it fails. -/
def scanEntries (data : List UInt8) : (left p : Nat) → Entries → Checked ElfError Entries
  | 0, _, _ => fail .invalid
  | left + 1, p, e => do
    let tag ← fetch data p 8
    let value ← fetch data (p + 8) 8
    if tag = 0 then return e
    else if tag = 1 then
      reject (e.needed.length = maxNeeded) .unsupported
      scanEntries data left (p + 16) { e with needed := e.needed ++ [value] }
    else
      reject (tag = 22 ∨ tag = 17 ∨ tag = 18 ∨ tag = 19 ∨ (0x6000000f ≤ tag ∧ tag ≤ 0x60000012)) .unsupported
      if tag = 16 then scanEntries data left (p + 16) { e with flags := e.flags ||| 2 }
      else if tag = 24 then scanEntries data left (p + 16) { e with flags := e.flags ||| 8 }
      else
        match tagKey tag with
        | none => scanEntries data left (p + 16) e
        | some key =>
          reject (e.seen key) .invalid
          scanEntries data left (p + 16) { e with values := Function.update e.values key (some value) }

/-! ## Symbols -/

/-- `artbox_dynamic_symbol` -/
def dynamicSymbol (d : Dynamic) (index : Nat) : Checked ElfError Symbol := do
  reject (d.symbolCount ≤ index) .notFound
  let p := d.symbols + index * 24
  let other ← fetch d.bytes (p + 5) 1
  reject (other / 4 ≠ 0) .unsupported
  let offset ← fetch d.bytes p 4
  let name ← stringAt d offset
  let info ← fetch d.bytes (p + 4) 1
  let sect ← fetch d.bytes (p + 6) 2
  let value ← fetch d.bytes (p + 8) 8
  let size ← fetch d.bytes (p + 16) 8
  let name ← require name .invalid
  reject (uint64Max - value < size) .invalid
  return { name, value, size, sect, binding := info / 16, type := info % 16, visibility := other % 4 }

/-! ## Versions -/

/-- `version_index` -/
def versionIndex (d : Dynamic) (index : Nat) : Option Version := d.versions.find? (·.index == index)

/-- `add_version` -/
def addVersion (d : Dynamic) (index flags hash : Nat) (name : List UInt8) (file : Option (List UInt8)) :
    Checked ElfError Dynamic := do
  reject (name = [] ∨ index = 0 ∨ 0x7fff < index ∨ (file.isSome ∧ index < 2) ∨
    flags &&& (if file.isSome then 0xfffd else 0xfffc) ≠ 0 ∨
    (file = none ∧ decide (flags % 2 = 1) ≠ decide (index = 1)) ∨
    (sysvHash name).toNat ≠ hash ∨ (versionIndex d index).isSome) .invalid
  reject (d.versions.length = maxVersions) .unsupported
  return { d with versions := d.versions ++ [{ name, file, hash, index, flags }] }

/-- The version that a need's record or a definition's header describes. -/
def recordVersion (need : Bool) (header item : Nat) (file : Option (List UInt8)) (name : List UInt8)
    (d : Dynamic) : Checked ElfError Dynamic := do
  let index ← fetch d.bytes (if need then item + 6 else header + 4) 2
  let flags ← fetch d.bytes (if need then item + 4 else header + 2) 2
  let hash ← fetch d.bytes (if need then item else header + 8) 4
  addVersion d index flags hash name file

/-- The loop of `versions_open` over the auxiliary records of a header; `need` is its `kind`. -/
def auxLoop (need : Bool) (address header capacity : Nat) (file : Option (List UInt8)) :
    (left : Nat) → (first : Bool) → (aux : Nat) → Dynamic → Checked ElfError Dynamic
  | 0, _, _, d => .ok d
  | left + 1, first, aux, d => do
    let headerSize := if need then 16 else 20
    let auxSize := if need then 16 else 8
    reject (aux < headerSize ∨ aux % 4 ≠ 0 ∨ capacity < aux ∨ capacity - aux < auxSize) .invalid
    let item ← require (view d.image ((address + aux) % 2 ^ 64) auxSize) .invalid
    let offset ← fetch d.bytes (item + if need then 8 else 0) 4
    let name ← stringAt d offset
    let name ← require name .invalid
    reject (name = []) .invalid
    let d ← (if need ∨ first then recordVersion need header item file name d else .ok d)
    let next ← fetch d.bytes (item + if need then 12 else 4) 4
    reject ((left = 0 ↔ next ≠ 0) ∨ (next ≠ 0 ∧ (next < auxSize ∨ capacity - aux < next))) .invalid
    auxLoop need address header capacity file left false (aux + next) d

/-- The provider that a need's header names, one of the needed ones. -/
def needFile (d : Dynamic) (header : Nat) : Checked ElfError (Option (List UInt8)) := do
  let offset ← fetch d.bytes (header + 4) 4
  let file ← stringAt d offset
  reject (¬ ∃ name ∈ file, name ∈ d.needed) .invalid
  return file

/-- The loop of `versions_open` over the headers of one kind. -/
def headerLoop (need : Bool) : (left address : Nat) → Dynamic → Checked ElfError Dynamic
  | 0, _, d => .ok d
  | left + 1, address, d => do
    let headerSize := if need then 16 else 20
    let capacity := available d.image address
    let header ← require (view d.image address headerSize) .invalid
    let version ← fetch d.bytes header 2
    reject (version ≠ 1) .unsupported
    let next ← fetch d.bytes (header + if need then 12 else 16) 4
    reject ((left = 0 ↔ next ≠ 0) ∨ (next ≠ 0 ∧ (next < headerSize ∨ capacity < next ∨ next % 4 ≠ 0)))
      .invalid
    let capacity := if next ≠ 0 then next else capacity
    let auxCount ← fetch d.bytes (header + if need then 2 else 6) 2
    let aux ← fetch d.bytes (header + if need then 8 else 12) 4
    reject (auxCount = 0) .invalid
    reject (maxVersions < auxCount) .unsupported
    let file ← (if need then needFile d header else .ok none)
    let d ← auxLoop need address header capacity file auxCount true aux d
    reject (uint64Max - address < next) .invalid
    headerLoop need left ((address + next) % 2 ^ 64) d

/-- The version chains of one kind. -/
def versionKind (d : Dynamic) (e : Entries) (need : Bool) : Checked ElfError Dynamic :=
  match e.values (if need then .verneed else .verdef) with
  | none => .ok d
  | some address => do
    let count := e.value (if need then .verneednum else .verdefnum)
    reject (count = 0) .invalid
    reject (maxVersions < count) .unsupported
    headerLoop need count address d

/-- A symbol's version is of its kind. -/
def checkVersion (d : Dynamic) (i index : Nat) : Checked ElfError Unit :=
  if 1 < index then do
    let version ← require (versionIndex d index) .invalid
    let symbol ← attempt (dynamicSymbol d i)
    let symbol ← require symbol .invalid
    reject (symbol.sect ≠ 0 ↔ version.file.isSome) .invalid
  else .ok ()

/-- The last loop of `versions_open`: each symbol's version is of its kind. -/
def checkVersions (d : Dynamic) (versym : Nat) : (left i : Nat) → Checked ElfError Unit
  | 0, _ => .ok ()
  | left + 1, i => do
    let raw ← fetch d.bytes (versym + i * 2) 2
    checkVersion d i (raw % 0x8000)
    checkVersions d versym left (i + 1)

/-- `versions_open` -/
def versionsOpen (d : Dynamic) (e : Entries) : Checked ElfError Dynamic := do
  reject (¬ (e.seen .verdef ↔ e.seen .verdefnum) ∨ ¬ (e.seen .verneed ↔ e.seen .verneednum) ∨
    ((e.seen .verdef ∨ e.seen .verneed) ∧ ¬ e.seen .versym)) .invalid
  match e.values .versym with
  | none => return d
  | some address =>
    let versym ← require (view d.image address (d.symbolCount * 2)) .invalid
    let first ← fetch d.bytes versym 2
    reject (first ≠ 0) .invalid
    let d ← versionKind { d with versym := some versym } e false
    let d ← versionKind d e true
    checkVersions d versym (d.symbolCount - 1) 1
    return d

/-- `artbox_dynamic_version` -/
def dynamicVersion (d : Dynamic) (index : Nat) : Checked ElfError Version := do
  reject (d.symbolCount ≤ index) .notFound
  let raw ← (match d.versym with
    | some versym => fetch d.bytes (versym + index * 2) 2
    | none => .ok (if index ≠ 0 then 1 else 0))
  let version ← (if 1 < raw % 0x8000 then require (versionIndex d (raw % 0x8000)) .invalid else .ok {})
  return { version with index := raw % 0x8000, hidden := decide (0x8000 ≤ raw) }

/-! ## Hash tables -/

/-- The loop of `gnu_shape` over the buckets. -/
def gnuHighest (data : List UInt8) (symbolOffset : Nat) : (left bucket highest : Nat) → Checked ElfError Nat
  | 0, _, highest => .ok highest
  | left + 1, bucket, highest => do
    let symbol ← fetch data bucket 4
    reject (symbol ≠ 0 ∧ symbol < symbolOffset) .invalid
    gnuHighest data symbolOffset left (bucket + 4) (max highest symbol)

/-- The loop of `gnu_shape` over the last chain; `left` is what `symbol` lacks to the limit. -/
def gnuEnd (data : List UInt8) (chains symbolOffset capacity : Nat) :
    (left symbol : Nat) → Checked ElfError Nat
  | 0, _ => fail .invalid
  | left + 1, symbol => do
    reject (capacity ≤ symbol - symbolOffset) .invalid
    let hash ← fetch data (chains + (symbol - symbolOffset) * 4) 4
    if hash % 2 = 1 then return symbol + 1
    else gnuEnd data chains symbolOffset capacity left (symbol + 1)

/-- `gnu_shape`: the table and its count. -/
def gnuShape (d : Dynamic) (address : Nat) : Checked ElfError (Dynamic × Nat) := do
  let p ← require (view d.image address 16) .invalid
  let bucketCount ← fetch d.bytes p 4
  let symbolOffset ← fetch d.bytes (p + 4) 4
  let bloomCount ← fetch d.bytes (p + 8) 4
  let shift ← fetch d.bytes (p + 12) 4
  reject (bucketCount = 0 ∨ symbolOffset = 0 ∨ bloomCount = 0 ∨ 32 ≤ shift ∨
    bloomCount &&& (bloomCount - 1) ≠ 0) .invalid
  reject (symbolLimit < bucketCount ∨ symbolLimit < symbolOffset ∨ symbolLimit < bloomCount) .unsupported
  let head := 16 + bloomCount * 8 + bucketCount * 4
  let length := available d.image address
  let p ← require (view d.image address length) .invalid
  reject (length < head) .invalid
  let bloom := p + 16
  let buckets := bloom + bloomCount * 8
  let chains := p + head
  let capacity := (length - head) / 4
  let d := { d with
    gnuBucketCount := bucketCount, gnuSymbolOffset := symbolOffset, gnuBloomCount := bloomCount
    gnuShift := shift, gnuBloom := bloom, gnuBuckets := buckets, gnuChains := chains }
  let highest ← gnuHighest d.bytes symbolOffset bucketCount buckets 0
  if highest = 0 then return (d, symbolOffset)
  else
    let count ← gnuEnd d.bytes chains symbolOffset capacity (symbolLimit - highest) highest
    return (d, count)

/-- The first loop of `validate_hashes`: every symbol can be read. -/
def checkSymbols (d : Dynamic) : (left i : Nat) → Checked ElfError Unit
  | 0, _ => .ok ()
  | left + 1, i => do
    let _ ← dynamicSymbol d i
    checkSymbols d left (i + 1)

/-- Every chain word names a symbol. -/
def checkChains (d : Dynamic) : (left i : Nat) → Checked ElfError Unit
  | 0, _ => .ok ()
  | left + 1, i => do
    let next ← fetch d.bytes (d.sysvChains + i * 4) 4
    reject (d.symbolCount ≤ next) .invalid
    checkChains d left (i + 1)

/-- The walk along the chain of bucket `i`; `left` steps are left. -/
def checkChain (d : Dynamic) (i : Nat) : (left index : Nat) → Checked ElfError Unit
  | 0, index => if index = 0 then .ok () else fail .invalid
  | left + 1, index =>
    if index = 0 then .ok ()
    else do
      reject (d.symbolCount ≤ index) .invalid
      let symbol ← attempt (dynamicSymbol d index)
      let symbol ← require symbol .invalid
      reject ((sysvHash symbol.name).toNat % d.sysvBucketCount ≠ i) .invalid
      let next ← fetch d.bytes (d.sysvChains + index * 4) 4
      checkChain d i left next

/-- The loop over the buckets of the SysV table. -/
def checkBuckets (d : Dynamic) : (left i : Nat) → Checked ElfError Unit
  | 0, _ => .ok ()
  | left + 1, i => do
    let index ← fetch d.bytes (d.sysvBuckets + i * 4) 4
    checkChain d i (d.symbolCount - 1) index
    checkBuckets d left (i + 1)

/-- The walk along the chain of GNU bucket `i`: the symbols it covers. `left` is what `index`
lacks to the count. -/
def checkGnuChain (d : Dynamic) (i : Nat) : (left index covered : Nat) → Checked ElfError Nat
  | 0, _, _ => fail .invalid
  | left + 1, index, covered => do
    reject (index < d.gnuSymbolOffset) .invalid
    let symbol ← attempt (dynamicSymbol d index)
    let symbol ← require symbol .invalid
    let hash := gnuHash symbol.name
    let chain ← fetch d.bytes (d.gnuChains + (index - d.gnuSymbolOffset) * 4) 4
    let mask := bloomBits hash d.gnuShift
    let word ← fetch d.bytes (d.gnuBloom + hash.toNat / 64 % d.gnuBloomCount * 8) 8
    reject (¬ SameHash hash chain ∨ hash.toNat % d.gnuBucketCount ≠ i ∨
      BitVec.ofNat 64 word &&& mask ≠ mask) .invalid
    if chain % 2 = 1 then return covered + 1
    else checkGnuChain d i left (index + 1) (covered + 1)

/-- The loop over the buckets of the GNU table. -/
def checkGnuBuckets (d : Dynamic) : (left i covered : Nat) → Checked ElfError Nat
  | 0, _, covered => .ok covered
  | left + 1, i, covered => do
    let index ← fetch d.bytes (d.gnuBuckets + i * 4) 4
    if index = 0 then checkGnuBuckets d left (i + 1) covered
    else
      let covered ← checkGnuChain d i (d.symbolCount - index) index covered
      checkGnuBuckets d left (i + 1) covered

/-- The SysV part of `validate_hashes`. -/
def checkSysv (d : Dynamic) : Checked ElfError Unit :=
  if d.sysvBucketCount = 0 then .ok ()
  else do
    checkChains d d.symbolCount 0
    let first ← fetch d.bytes d.sysvChains 4
    reject (first ≠ 0) .invalid
    checkBuckets d d.sysvBucketCount 0

/-- The GNU part of `validate_hashes`. -/
def checkGnu (d : Dynamic) : Checked ElfError Unit :=
  if d.gnuBucketCount = 0 then .ok ()
  else do
    let covered ← checkGnuBuckets d d.gnuBucketCount 0 0
    reject (covered ≠ d.symbolCount - d.gnuSymbolOffset) .invalid

/-- `validate_hashes` -/
def validateHashes (d : Dynamic) : Checked ElfError Unit := do
  checkSymbols d d.symbolCount 0
  checkSysv d
  checkGnu d

/-! ## Opening -/

/-- `executable` -/
def Executable (image : Image) (address : Nat) : Prop :=
  address = 0 ∨ (address % 4 = 0 ∧ ∃ s ∈ image.segments, s.flags &&& 5 = 5 ∧ 4 ≤ s.fileSize ∧
    s.virtualAddress ≤ address ∧ address - s.virtualAddress ≤ s.fileSize - 4)

instance (image : Image) (address : Nat) : Decidable (Executable image address) :=
  inferInstanceAs (Decidable (_ ∨ _ ∧ ∃ s ∈ image.segments, _))

/-- `struct table_rule` -/
structure TableRule where
  address : Key
  size : Key
  entry : Option Key := none
  width : Nat

/-- The body of the loop over the table rules. -/
def readTable (image : Image) (e : Entries) (rule : TableRule) : Checked ElfError Table := do
  reject (∃ key ∈ rule.entry, e.seen key ∧ e.value key ≠ rule.width) .invalid
  if ¬ e.seen rule.address ∧ ¬ e.seen rule.size then return {}
  else
    reject (¬ e.seen rule.address ∨ ¬ e.seen rule.size ∨ e.value rule.size % rule.width ≠ 0 ∨
      ∃ key ∈ rule.entry, ¬ e.seen key) .invalid
    let address := e.value rule.address
    let size := e.value rule.size
    if size ≠ 0 then
      let data ← require (view image address size) .invalid
      return { address, size, data := some data }
    else return { address, size }

/-- The names that the string table has at `offsets`. -/
def readNeeded (d : Dynamic) : List Nat → Checked ElfError (List (List UInt8))
  | [] => .ok []
  | offset :: rest => do
    let name ← stringAt d offset
    let name ← require name .invalid
    reject (name = []) .invalid
    let names ← readNeeded d rest
    return name :: names

/-- A string that an entry names, if there is one. -/
def readString (d : Dynamic) (value : Option Nat) : Checked ElfError (Option (List UInt8)) :=
  match value with
  | none => .ok none
  | some offset => do
    let name ← stringAt d offset
    let name ← require name .invalid
    return some name

/-- The SysV hash table. -/
def sysvShape (d : Dynamic) (value : Option Nat) : Checked ElfError Dynamic :=
  match value with
  | none => .ok d
  | some address => do
    let p ← require (view d.image address 8) .invalid
    let bucketCount ← fetch d.bytes p 4
    let symbolCount ← fetch d.bytes (p + 4) 4
    reject (bucketCount = 0 ∨ symbolCount = 0) .invalid
    reject (symbolLimit < bucketCount ∨ symbolLimit < symbolCount) .unsupported
    let p ← require (view d.image address (8 + (bucketCount + symbolCount) * 4)) .invalid
    return { d with
      sysvBucketCount := bucketCount, symbolCount
      sysvBuckets := p + 8, sysvChains := p + 8 + bucketCount * 4 }

/-- The GNU hash table, which says how many symbols there are. -/
def gnuTable (d : Dynamic) (value : Option Nat) : Checked ElfError Dynamic :=
  match value with
  | none => .ok d
  | some address => do
    let (d, count) ← gnuShape d address
    reject (d.symbolCount ≠ 0 ∧ d.symbolCount ≠ count) .invalid
    return { d with symbolCount := count }

/-- The strings of the dynamic section. -/
def openStrings (image : Image) (e : Entries) : Checked ElfError Dynamic := do
  reject (¬ e.seen .str ∨ ¬ e.seen .strsz ∨ ¬ e.seen .sym ∨ ¬ e.seen .syment ∨
    (¬ e.seen .hash ∧ ¬ e.seen .gnuHash)) .unsupported
  reject (e.value .strsz = 0 ∨ e.value .syment ≠ 24) .invalid
  let strings ← require (view image (e.value .str) (e.value .strsz)) .invalid
  let first ← fetch image.data.bytes strings 1
  let last ← fetch image.data.bytes (strings + (e.value .strsz - 1)) 1
  reject (first ≠ 0 ∨ last ≠ 0) .invalid
  let d : Dynamic := { image, flags := e.flags, strings, stringsSize := e.value .strsz }
  let needed ← readNeeded d e.needed
  let soname ← readString d (e.values .soname)
  reject (soname = some []) .invalid
  let rpath ← readString d (e.values .rpath)
  let runpath ← readString d (e.values .runpath)
  let d := { d with
    needed, soname, rpath, runpath, flags := d.flags ||| e.value .flags, flags1 := e.value .flags1 }
  reject (d.flags &&& 4 ≠ 0) .unsupported
  return d

/-- The symbols and what is known of them. -/
def openSymbols (d : Dynamic) (e : Entries) : Checked ElfError Dynamic := do
  let d ← sysvShape d (e.values .hash)
  let d ← gnuTable d (e.values .gnuHash)
  let symbols ← require (view d.image (e.value .sym) (d.symbolCount * 24)) .invalid
  let d := { d with symbols }
  let first ← slice d.bytes symbols 24
  reject (∃ b ∈ first, b ≠ 0) .invalid
  validateHashes d
  versionsOpen d e

/-- The tables of relocations and of functions. -/
def openTables (d : Dynamic) (e : Entries) : Checked ElfError Dynamic := do
  let rela ← readTable d.image e ⟨.rela, .relasz, some .relaent, 24⟩
  let relr ← readTable d.image e ⟨.relr, .relrsz, some .relrent, 8⟩
  let pltRela ← readTable d.image e ⟨.jmprel, .pltrelsz, none, 24⟩
  let initArray ← readTable d.image e ⟨.initArray, .initArraysz, none, 8⟩
  let finiArray ← readTable d.image e ⟨.finiArray, .finiArraysz, none, 8⟩
  let preinitArray ← readTable d.image e ⟨.preinitArray, .preinitArraysz, none, 8⟩
  reject (e.seen .jmprel ∧ (¬ e.seen .pltrel ∨ e.value .pltrel ≠ 7)) .unsupported
  reject (¬ Executable d.image (e.value .init) ∨ ¬ Executable d.image (e.value .fini)) .invalid
  reject (e.seen .pltgot ∧ (view d.image (e.value .pltgot) 8).isNone) .invalid
  return { d with
    rela, relr, pltRela, initArray, finiArray, preinitArray
    init := e.value .init, fini := e.value .fini, pltGot := e.value .pltgot }

/-- `artbox_dynamic_open` up to its output. -/
def openDynamic (image : Image) : Checked ElfError Dynamic := do
  reject (maxSegments < image.segments.length) .invalid
  let dynamic ← require image.dynamic .notFound
  reject (4096 < dynamic.fileSize / 16) .unsupported
  let entries ← require (view image dynamic.virtualAddress dynamic.fileSize) .invalid
  reject (dynamic.fileSize % 16 ≠ 0) .invalid
  let e ← scanEntries image.data.bytes (dynamic.fileSize / 16) entries {}
  let d ← openStrings image e
  let d ← openSymbols d e
  openTables d e

/-- `artbox_dynamic_open`: the result, none for `ARTBOX_ELF_OK`, and what the output then holds. -/
def dynamicOpen (image : Image) (out : Dynamic) : Checked Empty (Option ElfError × Dynamic) :=
  match openDynamic image with
  | .ok d => .ok (none, d)
  | .error (.error error) => .ok (some error, out)
  | .error .wrong => .error .wrong

/-! ## Lookup -/

/-- `exported` -/
def Exported (symbol : Symbol) : Prop :=
  symbol.sect ≠ 0 ∧ (symbol.binding = 1 ∨ symbol.binding = 2 ∨ symbol.binding = 10) ∧
    (symbol.visibility = 0 ∨ symbol.visibility = 3)

instance (symbol : Symbol) : Decidable (Exported symbol) := inferInstanceAs (Decidable (_ ∧ _))

/-- The index of a version that is asked for. -/
def wantedVersion (d : Dynamic) (version : Option (List UInt8)) : Nat :=
  match version with
  | none => 1
  | some version =>
    d.versions.foldl (fun wanted v => if v.file = none ∧ v.name = version then v.index else wanted) 1

/-- A symbol's version word is the one that is asked for. -/
def VersionMatch (d : Dynamic) (version : Option (List UInt8)) (raw : Nat) : Prop :=
  d.versym = none ∨
    if version.isSome then wantedVersion d version = raw % 0x8000 else raw < 0x8000

instance (d : Dynamic) (version : Option (List UInt8)) (raw : Nat) :
    Decidable (VersionMatch d version raw) := inferInstanceAs (Decidable (_ ∨ _))

/-- The version word of a symbol. -/
def rawVersion (d : Dynamic) (index : Nat) : Checked ElfError Nat :=
  match d.versym with
  | some versym => fetch d.bytes (versym + index * 2) 2
  | none => .ok 1

/-- The symbol at an index, if it is one that is asked for. -/
def candidate (d : Dynamic) (name : List UInt8) (version : Option (List UInt8)) (hash : BitVec 32)
    (chain index : Nat) : Checked ElfError (Option Symbol) := do
  let raw ← rawVersion d index
  let symbol ← (if VersionMatch d version raw ∧ (d.gnuBucketCount = 0 ∨ SameHash hash chain) then
    attempt (dynamicSymbol d index) else .ok none)
  return symbol.filter fun s => Exported s ∧ s.name = name

/-- The GNU chain word of a symbol. -/
def chainWord (d : Dynamic) (index : Nat) : Checked ElfError Nat :=
  if d.gnuBucketCount ≠ 0 then do
    reject (index < d.gnuSymbolOffset) .invalid
    fetch d.bytes (d.gnuChains + (index - d.gnuSymbolOffset) * 4) 4
  else .ok 0

/-- The index behind a symbol in its chain; zero ends a SysV chain, and here also a GNU chain. -/
def nextIndex (d : Dynamic) (chain index : Nat) : Checked ElfError Nat :=
  if d.gnuBucketCount ≠ 0 then .ok (if chain % 2 = 1 then 0 else index + 1)
  else fetch d.bytes (d.sysvChains + index * 4) 4

/-- The loop of `artbox_dynamic_lookup_version`: the symbol it finds. `left` steps are left. -/
def lookupLoop (d : Dynamic) (name : List UInt8) (version : Option (List UInt8)) (hash : BitVec 32) :
    (left index : Nat) → (weak : Option Symbol) → Checked ElfError (Option Symbol)
  | 0, index, weak => if index = 0 then .ok weak else fail .invalid
  | left + 1, index, weak =>
    if index = 0 then .ok weak
    else do
      reject (d.symbolCount ≤ index) .invalid
      let chain ← chainWord d index
      let found ← candidate d name version hash chain index
      if ∃ s ∈ found, s.binding ≠ 2 then return found
      else
        let next ← nextIndex d chain index
        lookupLoop d name version hash left next (found.or weak)

/-- `artbox_dynamic_lookup_version` -/
def lookupVersion (d : Dynamic) (name : List UInt8) (version : Option (List UInt8)) :
    Checked ElfError Symbol := do
  reject (d.symbolCount = 0) .invalid
  if d.gnuBucketCount ≠ 0 then
    let hash := gnuHash name
    let mask := bloomBits hash d.gnuShift
    let word ← fetch d.bytes (d.gnuBloom + hash.toNat / 64 % d.gnuBloomCount * 8) 8
    reject (BitVec.ofNat 64 word &&& mask ≠ mask) .notFound
    let index ← fetch d.bytes (d.gnuBuckets + hash.toNat % d.gnuBucketCount * 4) 4
    let found ← lookupLoop d name version hash (d.symbolCount - 1) index none
    require found .notFound
  else if d.sysvBucketCount ≠ 0 then
    let hash := sysvHash name
    let index ← fetch d.bytes (d.sysvBuckets + hash.toNat % d.sysvBucketCount * 4) 4
    let found ← lookupLoop d name version hash (d.symbolCount - 1) index none
    require found .notFound
  else fail .invalid

end Artbox.Elf
