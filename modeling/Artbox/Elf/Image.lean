import Artbox.Lib.Checked
import Mathlib.Tactic.Common

/-!
# Program headers of an ELF image

`core/src/elf.c`. Numbers are read with `fetch`, which goes wrong outside the input; sums that
the code makes in 64 bits are taken modulo `2 ^ 64`. Pointers into the image are offsets.
-/

namespace Artbox.Elf

open Checked

/-- What `artbox_elf_result` says but for success. -/
inductive ElfError
  | invalid | unsupported | notFound | noMemory
deriving DecidableEq, Repr

/-- `UINT64_MAX` -/
def uint64Max : Nat := 2 ^ 64 - 1

/-- `ARTBOX_ELF_MAX_SEGMENTS` -/
def maxSegments : Nat := 16

/-- `artbox_elf_segment` -/
structure Segment where
  virtualAddress : Nat
  memorySize : Nat
  fileOffset : Nat
  fileSize : Nat
  alignment : Nat
  flags : BitVec 32
deriving DecidableEq, Repr

/-- The memory an image is read from, whose size is a `size_t`. -/
structure Input where
  address : Nat
  bytes : List UInt8
  small : bytes.length < 2 ^ 64
deriving DecidableEq

/-- `artbox_elf` -/
structure Image where
  data : Input
  entry : Nat
  segments : List Segment := []
  type : Nat
  programHeaderCount : Nat
  programHeaderOffset : Nat
  dynamic : Option Segment := none
  tls : Option Segment := none
  relro : Option Segment := none
  interpreter : Option Nat := none
deriving DecidableEq

/-- `image->size` -/
def Image.size (image : Image) : Nat := image.data.bytes.length

/-- `in_file` -/
def InFile (size offset length : Nat) : Prop := offset ≤ size ∧ length ≤ size - offset

instance (size offset length : Nat) : Decidable (InFile size offset length) :=
  inferInstanceAs (Decidable (_ ∧ _))

/-- `read_segment` -/
def readSegment (data : List UInt8) (p : Nat) : Checked ElfError Segment := do
  let flags ← fetch data (p + 4) 4
  let fileOffset ← fetch data (p + 8) 8
  let virtualAddress ← fetch data (p + 16) 8
  let fileSize ← fetch data (p + 32) 8
  let memorySize ← fetch data (p + 40) 8
  let alignment ← fetch data (p + 48) 8
  let flags := BitVec.ofNat 32 flags
  reject (flags &&& ~~~7 ≠ 0 ∨ flags &&& 3 = 3) .unsupported
  reject (memorySize < fileSize ∨ ¬ InFile data.length fileOffset fileSize ∨
    uint64Max - virtualAddress < memorySize) .invalid
  reject (1 < alignment ∧ (alignment &&& (alignment - 1) ≠ 0 ∨
    (virtualAddress + 2 ^ 64 - fileOffset) % 2 ^ 64 &&& (alignment - 1) ≠ 0)) .invalid
  return { virtualAddress, memorySize, fileOffset, fileSize, alignment, flags }

/-- The body of the loop of `inside_load`. -/
def Segment.Encloses (load region : Segment) : Prop :=
  load.virtualAddress ≤ region.virtualAddress ∧
    let delta := region.virtualAddress - load.virtualAddress
    delta ≤ load.memorySize ∧ region.memorySize ≤ load.memorySize - delta ∧
      (region.fileSize ≠ 0 → delta ≤ load.fileSize ∧ region.fileSize ≤ load.fileSize - delta ∧
        region.fileOffset = (load.fileOffset + delta) % 2 ^ 64)

instance (load region : Segment) : Decidable (load.Encloses region) :=
  inferInstanceAs (Decidable (_ ∧ _ ∧ _ ∧ (_ → _)))

/-- `inside_load` -/
def insideLoad (image : Image) (region : Segment) : Prop := ∃ s ∈ image.segments, s.Encloses region

instance (image : Image) (region : Segment) : Decidable (insideLoad image region) :=
  inferInstanceAs (Decidable (∃ s ∈ image.segments, _))

/-- Two load segments overlap in memory. -/
def Segment.Clashes (segment other : Segment) : Prop :=
  segment.memorySize ≠ 0 ∧ other.memorySize ≠ 0 ∧
    segment.virtualAddress < (other.virtualAddress + other.memorySize) % 2 ^ 64 ∧
    other.virtualAddress < (segment.virtualAddress + segment.memorySize) % 2 ^ 64

instance (segment other : Segment) : Decidable (segment.Clashes other) :=
  inferInstanceAs (Decidable (_ ∧ _))

/-- The entry is in the file part of a readable executable segment. -/
def Segment.HasEntry (segment : Segment) (entry : Nat) : Prop :=
  segment.flags &&& 5 = 5 ∧ segment.virtualAddress ≤ entry ∧
    entry - segment.virtualAddress < segment.fileSize

instance (segment : Segment) (entry : Nat) : Decidable (segment.HasEntry entry) :=
  inferInstanceAs (Decidable (_ ∧ _))

/-- The interpreter's name. -/
def readInterpreter (image : Image) (segment : Segment) : Checked ElfError Image := do
  reject (image.interpreter.isSome ∨ segment.fileSize < 2 ∨ 4096 < segment.fileSize) .invalid
  let first ← fetch image.data.bytes segment.fileOffset 1
  let last ← fetch image.data.bytes (segment.fileOffset + (segment.fileSize - 1)) 1
  let name ← slice image.data.bytes segment.fileOffset (segment.fileSize - 1)
  reject (first = 0 ∨ last ≠ 0 ∨ 0 ∈ name) .invalid
  return { image with interpreter := some segment.fileOffset }

/-- A load segment is added; the flag is `executable_entry`. -/
def addLoad (image : Image) (entry : Bool) (segment : Segment) : Checked ElfError (Image × Bool) := do
  reject (image.segments.length = maxSegments) .unsupported
  reject (segment.flags &&& 1 ≠ 0 ∧ segment.fileSize ≠ segment.memorySize) .unsupported
  reject (∃ other ∈ image.segments, segment.Clashes other) .invalid
  return ({ image with segments := image.segments ++ [segment] },
    entry || decide (segment.HasEntry image.entry))

/-- The body of the loop of `open_image`, for the header at `p`. -/
def openHeader (allowDynamic : Bool) (image : Image) (entry : Bool) (p : Nat) :
    Checked ElfError (Image × Bool) := do
  let type ← fetch image.data.bytes p 4
  reject (allowDynamic = false ∧ (type = 2 ∨ type = 3 ∨ type = 7)) .unsupported
  let flags ← fetch image.data.bytes (p + 4) 4
  reject (type = 0x6474e551 ∧ BitVec.ofNat 32 flags &&& 1 ≠ 0) .unsupported
  if type ≠ 1 ∧ type ≠ 2 ∧ type ≠ 3 ∧ type ≠ 7 ∧ type ≠ 0x6474e552 then return (image, entry)
  else
    let segment ← readSegment image.data.bytes p
    if type = 2 then
      reject (image.dynamic.isSome ∨ segment.fileSize < 16 ∨ segment.fileSize % 16 ≠ 0 ∨
        segment.virtualAddress % 8 ≠ 0 ∨ segment.fileSize ≠ segment.memorySize) .invalid
      return ({ image with dynamic := some segment }, entry)
    else if type = 3 then
      let image ← readInterpreter image segment
      return (image, entry)
    else if type = 7 then
      reject image.tls.isSome .invalid
      return ({ image with tls := some segment }, entry)
    else if type = 0x6474e552 then
      reject image.relro.isSome .invalid
      return ({ image with relro := some segment }, entry)
    else addLoad image entry segment

/-- The loop of `open_image`; `left` headers are left, the next one is at `p`. -/
def openHeaders (allowDynamic : Bool) : (left p : Nat) → Image → Bool → Checked ElfError (Image × Bool)
  | 0, _, image, entry => .ok (image, entry)
  | left + 1, p, image, entry => do
    let (image, entry) ← openHeader allowDynamic image entry p
    openHeaders allowDynamic left (p + 56) image entry

/-- `open_image` -/
def openImage (input : Input) (allowDynamic : Bool) : Checked ElfError Image := do
  let data := input.bytes
  reject (data.length < 64) .invalid
  let magic ← fetch data 0 4
  reject (magic ≠ 0x464c457f) .invalid
  let width ← fetch data 4 1
  let order ← fetch data 5 1
  let machine ← fetch data 18 2
  let type ← fetch data 16 2
  reject (width ≠ 2 ∨ order ≠ 1 ∨ machine ≠ 183 ∨ (type ≠ 2 ∧ (allowDynamic = false ∨ type ≠ 3)))
    .unsupported
  let identVersion ← fetch data 6 1
  let version ← fetch data 20 4
  let headerSize ← fetch data 52 2
  let entrySize ← fetch data 54 2
  reject (identVersion ≠ 1 ∨ version ≠ 1 ∨ headerSize ≠ 64 ∨ entrySize ≠ 56) .invalid
  let abi ← fetch data 7 1
  let flags ← fetch data 48 4
  reject ((abi ≠ 0 ∧ abi ≠ 3) ∨ flags ≠ 0) .unsupported
  let count ← fetch data 56 2
  let phoff ← fetch data 32 8
  reject (count = 0 ∨ (if allowDynamic then 64 else maxSegments) < count ∨ phoff < 64 ∨
    ¬ InFile data.length phoff (count * 56)) .invalid
  let entry ← fetch data 24 8
  reject (entry % 4 ≠ 0) .invalid
  let image : Image :=
    { data := input, entry, type, programHeaderCount := count, programHeaderOffset := phoff }
  let (image, executableEntry) ← openHeaders allowDynamic count phoff image false
  reject ((executableEntry = false ∧ (image.entry ≠ 0 ∨ image.type = 2)) ∨ image.segments = []) .invalid
  reject ((∃ r ∈ image.dynamic, ¬ insideLoad image r) ∨ (∃ r ∈ image.tls, ¬ insideLoad image r) ∨
    ∃ r ∈ image.relro, ¬ insideLoad image r) .invalid
  return image

/-- `artbox_elf_open`: the result, none for `ARTBOX_ELF_OK`, and what the output then holds. -/
def elfOpen (input : Input) (out : Image) : Checked Empty (Option ElfError × Image) :=
  match openImage input true with
  | .ok image => .ok (none, image)
  | .error (.error error) => .ok (some error, out)
  | .error .wrong => .error .wrong

/-- The loop of `artbox_elf_virtual_span` over the segments that are left. -/
def spanIn (size address length : Nat) : List Segment → Except ElfError Nat
  | [] => .error .notFound
  | segment :: rest =>
    if address < segment.virtualAddress then spanIn size address length rest
    else
      let delta := address - segment.virtualAddress
      if segment.fileSize < delta ∨ segment.fileSize - delta < length then
        spanIn size address length rest
      else if ¬ InFile size segment.fileOffset segment.fileSize then .error .invalid
      else .ok ((segment.fileOffset + delta) % 2 ^ 64)

/-- `artbox_elf_virtual_span` -/
def virtualSpan (image : Image) (address length : Nat) : Except ElfError Nat :=
  if maxSegments < image.segments.length then .error .invalid
  else spanIn image.size address length image.segments

end Artbox.Elf
