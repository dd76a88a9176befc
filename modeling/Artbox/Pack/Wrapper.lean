import Artbox.Lib.Bytes
import Artbox.Lib.Require

/-!
# The wrapper of a shared ELF

`tools/wrap_dynamic.py`. `packLayout` takes a shared ELF file apart into a read/execute and a
read/write part, `verifyMacho` looks at what Apple's linker made of them. Numbers are unbounded, as
the source has them; a difference that may be negative is an `Int`. A row of bytes is read at an
offset behind one check that it is there (`readable`), and its fields with `field`.

SHA-256 is a parameter, `digest`.
-/

namespace Artbox.Pack

open Bytes Require

/-- `PAGE` -/
def page : Nat := 16384

/-- `LIMIT` -/
def limit : Nat := 64 * 1024 * 1024

/-- The check of `read`. -/
def readable (data : List UInt8) (size offset : Nat) : Except String Unit :=
  require (offset + size ≤ data.length) "Truncated binary structure"

/-! ## The ELF file -/

/-- A program header, with its index. -/
structure Segment where
  index : Nat
  address : Nat
  offset : Nat
  fileSize : Nat
  memorySize : Nat
  flags : Nat
  alignment : Nat
deriving DecidableEq, Repr

/-- The program header at an offset. -/
def segmentAt (data : List UInt8) (offset index : Nat) : Segment where
  index
  address := field data (offset + 16) 8
  offset := field data (offset + 8) 8
  fileSize := field data (offset + 32) 8
  memorySize := field data (offset + 40) 8
  flags := field data (offset + 4) 4
  alignment := field data (offset + 48) 8

/-- `loads`, `dynamic` and `tls`. -/
structure Tables where
  loads : List Segment := []
  dynamic : List Segment := []
  tls : List Segment := []
deriving DecidableEq, Repr

/-- `allowed` -/
def allowed : List Nat := [1, 2, 4, 6, 7, 0x6474e550, 0x6474e551, 0x6474e552]

/-- What is read of the ELF header. -/
structure Header where
  entry : Nat
  phoff : Nat
  phnum : Nat
deriving DecidableEq, Repr

/-- The checks of the ELF header. -/
def elfHeader (data : List UInt8) : Except String Header := do
  readable data 64 0
  require (data.take 7 = [0x7f, 0x45, 0x4c, 0x46, 2, 1, 1] ∧ (field data 7 1 = 0 ∨ field data 7 1 = 3))
    "Expected little-endian ELF64"
  require (field data 16 2 = 3 ∧ field data 18 2 = 183 ∧ field data 20 4 = 1 ∧ field data 48 4 = 0 ∧
    field data 52 2 = 64 ∧ field data 54 2 = 56) "Expected AArch64 ET_DYN"
  let header : Header := ⟨field data 24 8, field data 32 8, field data 56 2⟩
  require (64 ≤ header.phoff ∧ 2 ≤ header.phnum ∧ header.phnum ≤ 16) "Invalid program header table"
  return header

/-- The body of the loop over the program headers. -/
def addHeader (data : List UInt8) (phoff : Nat) (t : Tables) (index : Nat) : Except String Tables := do
  readable data 56 (phoff + index * 56)
  let type := field data (phoff + index * 56) 4
  let segment := segmentAt data (phoff + index * 56) index
  require (type ∈ allowed ∧ segment.flags &&& 0xfffffff8 = 0) "Unsupported program header"
  require (segment.offset ≤ data.length ∧ segment.fileSize ≤ data.length - segment.offset ∧
    segment.fileSize ≤ segment.memorySize) "Program header exceeds file or memory bounds"
  require (segment.address + segment.memorySize ≤ 2 ^ 64) "Virtual address overflow"
  require (segment.alignment = 0 ∨ segment.alignment = 1 ∨ segment.alignment &&& (segment.alignment - 1) = 0)
    "Invalid segment alignment"
  if type = 1 then return { t with loads := t.loads ++ [segment] }
  else if type = 2 then return { t with dynamic := t.dynamic ++ [segment] }
  else if type = 7 then return { t with tls := t.tls ++ [segment] }
  else if type = 0x6474e551 then
    require (segment.flags &&& 1 = 0) "Executable guest stack is unsupported"
    return t
  else return t

/-- The checks of the two loads. -/
def checkLoads (header : Header) (code writable : Segment) : Except String Unit := do
  require (code.flags = 5 ∧ writable.flags = 6) "Expected distinct RX and RW segments"
  require (code.address = 0 ∧ code.offset = 0 ∧ code.fileSize = code.memorySize)
    "Read-only image must begin at ELF zero and have no executable BSS"
  require (header.phoff + header.phnum * 56 ≤ code.fileSize ∧ header.entry < code.fileSize)
    "ELF header or entry escapes RX image"
  require (∀ segment ∈ [code, writable], segment.alignment = page ∧ segment.address % page = 0 ∧
    segment.offset % page = 0) "Wrapper requires 16 KiB aligned ELF segments"
  require (code.memorySize ≤ writable.address ∧ 0 < writable.memorySize ∧ writable.memorySize ≤ limit ∧
    writable.address + writable.memorySize ≤ limit) "Overlapping or excessive ELF virtual image"
  require (code.fileSize ≤ writable.offset) "Overlapping ELF file segments"

/-- The checks of the TLS template. -/
def checkTemplate (writable template : Segment) : Except String Unit := do
  let relative : Int := template.address - writable.address
  require (template.flags &&& 1 = 0 ∧ 0 ≤ relative ∧ relative ≤ writable.memorySize ∧
    0 < template.memorySize ∧ template.memorySize ≤ writable.memorySize - relative ∧
    template.alignment ≤ 1024 * 1024) "TLS template escapes writable load"
  require (template.fileSize = 0 ∨ (relative ≤ writable.fileSize ∧
    template.fileSize ≤ writable.fileSize - relative ∧ template.offset = writable.offset + relative))
    "TLS initializer is not mapped data"

/-- The check of the dynamic table. -/
def checkTable (writable table : Segment) : Except String Unit :=
  let relative : Int := table.address - writable.address
  require (table.flags = 6 ∧ 0 ≤ relative ∧ relative ≤ (writable.fileSize : Int) - table.fileSize ∧
    16 ≤ table.fileSize ∧ table.fileSize = table.memorySize ∧ table.fileSize % 16 = 0 ∧
    table.offset = writable.offset + relative) "Dynamic table must be file-backed writable data"

/-- `layout` -/
structure Layout (δ : Type) where
  input : δ
  rxBytes : Nat
  rwBytes : Nat
  rx : δ
  rw : δ
  code : Segment
  writable : Segment
deriving DecidableEq, Repr

section Digest

variable {δ : Type} (digest : List UInt8 → δ)

/-- `pack_layout` -/
def packLayout (data : List UInt8) : Except String (List UInt8 × List UInt8 × Layout δ) := do
  require (data.length ≤ limit) "ELF exceeds the controlled wrapper size limit"
  let header ← elfHeader data
  let tables ← (List.range header.phnum).foldlM (addHeader data header.phoff) {}
  match tables.loads.mergeSort (fun a b => a.address ≤ b.address), tables.dynamic with
  | [code, writable], [table] =>
    checkLoads header code writable
    require (tables.tls.length ≤ 1) "Duplicate TLS template"
    tables.tls.forM (checkTemplate writable)
    checkTable writable table
    let rx := data.take code.fileSize ++ List.replicate (writable.address - code.fileSize) 0
    let rw := (data.drop writable.offset).take writable.fileSize ++
      List.replicate (writable.memorySize - writable.fileSize) 0
    return (rx, rw, { input := digest data, rxBytes := rx.length, rwBytes := rw.length, rx := digest rx,
                      rw := digest rw, code, writable })
  | _, _ => .error "Wrapper requires exactly RX/RW loads and a dynamic table"

/-! ## The Mach-O file -/

/-- The part of a name before its first null byte. -/
def nameOf (bytes : List UInt8) : List UInt8 := bytes.takeWhile (· ≠ 0)

/-- `__TEXT` -/
def textName : List UInt8 := [0x5f, 0x5f, 0x54, 0x45, 0x58, 0x54]

/-- `__DATA` -/
def dataName : List UInt8 := [0x5f, 0x5f, 0x44, 0x41, 0x54, 0x41]

/-- `__artbox` -/
def guestName : List UInt8 := [0x5f, 0x5f, 0x61, 0x72, 0x74, 0x62, 0x6f, 0x78]

/-- A segment command. The protections have the bits read, write and execute. -/
structure MachSegment where
  name : List UInt8
  address : Nat
  memory : Nat
  offset : Nat
  fileSize : Nat
  maximum : BitVec 32
  initial : BitVec 32
  sections : Nat
deriving DecidableEq, Repr

/-- The segment command at an offset. -/
def machSegmentAt (data : List UInt8) (offset : Nat) : MachSegment where
  name := nameOf ((data.drop (offset + 8)).take 16)
  address := field data (offset + 24) 8
  memory := field data (offset + 32) 8
  offset := field data (offset + 40) 8
  fileSize := field data (offset + 48) 8
  maximum := BitVec.ofNat 32 (field data (offset + 56) 4)
  initial := BitVec.ofNat 32 (field data (offset + 60) 4)
  sections := field data (offset + 64) 4

/-- A section. -/
structure MachSection where
  name : List UInt8
  segment : List UInt8
  target : Nat
  length : Nat
  fileoff : Nat
  alignment : Nat
  relocationOffset : Nat
  relocations : Nat
  flags : Nat
deriving DecidableEq, Repr

/-- The section at an offset. -/
def machSectionAt (data : List UInt8) (offset : Nat) : MachSection where
  name := nameOf ((data.drop offset).take 16)
  segment := nameOf ((data.drop (offset + 16)).take 16)
  target := field data (offset + 32) 8
  length := field data (offset + 40) 8
  fileoff := field data (offset + 48) 4
  alignment := field data (offset + 52) 4
  relocationOffset := field data (offset + 56) 4
  relocations := field data (offset + 60) 4
  flags := field data (offset + 64) 4

/-- `found`: no other name becomes a key. -/
structure Found where
  text : Option Nat := none
  data : Option Nat := none
deriving DecidableEq, Repr

/-- What is found under a name. -/
def Found.get (f : Found) (name : List UInt8) : Option Nat :=
  if name = textName then f.text else if name = dataName then f.data else none

/-- What is found with one more target. -/
def Found.put (f : Found) (name : List UInt8) (target : Nat) : Found :=
  if name = textName then { f with text := some target }
  else if name = dataName then { f with data := some target }
  else f

variable [DecidableEq δ]

/-- The body of the loop over the sections of a segment. -/
def checkSection (data : List UInt8) (layout : Layout δ) (s : MachSegment) (position : Nat) (found : Found)
    (index : Nat) : Except String Found := do
  readable data 80 (position + 72 + index * 80)
  let c := machSectionAt data (position + 72 + index * 80)
  if c.name ≠ guestName then return found
  else
    require (c.segment = s.name ∧ (s.name = textName ∨ s.name = dataName) ∧ found.get s.name = none)
      "Duplicate or misplaced guest section"
    require ((s.address : Int) ≤ c.target ∧ (c.target : Int) ≤ (s.address : Int) + s.memory - c.length ∧
      (s.offset : Int) ≤ c.fileoff ∧ (c.fileoff : Int) ≤ (s.offset : Int) + s.fileSize - c.length)
      "Guest section escapes its segment"
    require ((c.target : Int) - s.address = (c.fileoff : Int) - s.offset ∧ c.target % page = 0 ∧
      c.alignment = 14 ∧ c.relocationOffset = 0 ∧ c.relocations = 0 ∧ c.flags &&& 0xff = 0)
      "Guest section addressing, alignment or Mach-O relocations changed"
    let code := s.name = textName
    require (s.initial = (if code then 5 else 3) ∧
      c.length = (if code then layout.rxBytes else layout.rwBytes) ∧
      digest ((data.drop c.fileoff).take c.length) = (if code then layout.rx else layout.rw))
      "Guest bytes, size or permissions changed during Apple linking"
    return found.put s.name c.target

/-- A segment command. -/
def checkSegment (data : List UInt8) (layout : Layout δ) (position size : Nat) (found : Found) :
    Except String Found := do
  readable data 72 position
  let s := machSegmentAt data position
  require (size = 72 + s.sections * 80 ∧ s.address + s.memory ≤ 2 ^ 64 ∧ s.offset ≤ data.length ∧
    s.fileSize ≤ data.length - s.offset ∧ s.fileSize ≤ s.memory) "Invalid Mach-O segment bounds"
  require (s.initial &&& 6 ≠ 6 ∧ s.maximum &&& 6 ≠ 6 ∧ s.initial &&& ~~~s.maximum = 0)
    "Invalid or writable/executable Mach-O segment"
  (List.range s.sections).foldlM (checkSection digest data layout s position) found

/-- The body of the loop over the load commands. -/
def checkCommand (data : List UInt8) (layout : Layout δ) (stop : Nat) (s : Nat × Found) (_ : Nat) :
    Except String (Nat × Found) := do
  readable data 8 s.1
  let size := field data (s.1 + 4) 4
  require (8 ≤ size ∧ size % 8 = 0 ∧ s.1 + size ≤ stop) "Invalid Mach-O load command"
  if field data s.1 4 = 0x19 then
    let found ← checkSegment digest data layout s.1 size s.2
    return (s.1 + size, found)
  else return (s.1 + size, s.2)

/-- What `verify_macho` returns. -/
structure Report (δ : Type) where
  loadBias : Nat
  rxAddress : Nat
  rwAddress : Nat
  macho : δ
deriving DecidableEq, Repr

/-- `verify_macho` -/
def verifyMacho (data : List UInt8) (layout : Layout δ) : Except String (Report δ) := do
  readable data 32 0
  require (field data 0 4 = 0xfeedfacf ∧ field data 4 4 = 0x100000c ∧ field data 8 4 = 0 ∧ field data 12 4 = 6)
    "Expected arm64 Mach-O dylib"
  let count := field data 16 4
  let commandsSize := field data 20 4
  require (count ≤ 256 ∧ commandsSize ≤ data.length - 32) "Invalid Mach-O command table"
  let (position, found) ← (List.range count).foldlM (checkCommand digest data layout (32 + commandsSize)) (32, {})
  match found.text, found.data with
  | some text, some target =>
    require (position = 32 + commandsSize) "Incomplete guest wrapper load commands"
    require (target = text + layout.writable.address) "Apple linker did not preserve the ELF load bias"
    return { loadBias := text, rxAddress := text, rwAddress := target, macho := digest data }
  | _, _ => .error "Incomplete guest wrapper load commands"

end Digest

end Artbox.Pack
