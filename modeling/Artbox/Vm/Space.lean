import Artbox.Lib.FirstFit
import Artbox.Lib.Machine
import Mathlib.Algebra.Group.Nat.Defs

/-!
# The address space

`core/src/vm.cpp`. A space has regions, each a range of host storage with one flag byte for every
page. Storage comes from callbacks of the host: their answers are a parameter (`Host`), and what
they were asked is kept with the answers in `log`, the latest first. An operation that fails
inside a callback leaves what it did before it, as the source does.

Every operation holds the mutex of the space from its first check to its end, so an operation is
one step. Addresses and lengths are 64-bit words. `page_size` is a power of two, so that the masks
of the source are remainders.
-/

namespace Artbox.Vm

/-- `UINTPTR_MAX + 1`, which is `SIZE_MAX + 1`. -/
def word : Nat := 2 ^ 64

/-- `INT64_MAX`. -/
def int64Max : Nat := 2 ^ 63 - 1

/-- The sum of two words. -/
def add64 (a b : Nat) : Nat := (a + b) % word

/-- The difference of two words. -/
def sub64 (a b : Nat) : Nat := (a + (word - b % word)) % word

/-- A word as `int64_t`. -/
def signed (a : Nat) : Int := (BitVec.ofNat 64 a).toInt

/-- The flags of a page: `mapped`, `file_page`, `deny_write` and the two low bits. -/
structure Page where
  mapped : Bool := false
  filePage : Bool := false
  denyWrite : Bool := false
  protection : BitVec 2 := 0
deriving DecidableEq, Repr

/-- `MappingState`, with the flags LIVE and INTACT. -/
structure MappingState where
  live : Bool := true
  intact : Bool := true
deriving DecidableEq, Repr

/-- `FileMapping`. Its tracking is an index into the states of the watches. -/
structure FileMapping where
  reference : Nat
  offset : Nat
  sharing : Nat
  tracking : Option Nat := none
deriving DecidableEq, Repr

/-- `Region`. -/
structure Region where
  base : Nat
  length : Nat
  live : Nat := 0
  /-- Nonzero for a window retained until the space is destroyed. -/
  guardBytes : Nat := 0
  owned : Bool := true
  protectable : Bool := true
  pages : List Page
  file : Option FileMapping := none
deriving DecidableEq, Repr

/-- What a callback is asked. -/
inductive Request
  /-- `ops.reserve`, with the storage it returned. -/
  | reserve (length storage : Nat)
  | protect (address length : Nat) (protection : BitVec 2)
  | reset (address length : Nat) (protection : BitVec 2)
  | release (address length : Nat)
  /-- The acquire callback of a file, with the reference it returned. -/
  | acquire (file reference : Nat)
  /-- The release callback of a file. -/
  | drop (reference : Nat)
  | map (reference address length : Nat) (protection : BitVec 2) (sharing offset : Nat)
deriving DecidableEq, Repr

/-- The answers of the callbacks, of the file callbacks and of the memory allocator in one
operation. -/
structure Host where
  allocates : Nat → Bool
  reserve : Nat → Int × Nat
  protect : Nat → Nat → BitVec 2 → Int
  reset : Nat → Nat → BitVec 2 → Int
  release : Nat → Nat → Int
  acquire : Nat → Int × Nat
  map : Nat → Nat → Nat → BitVec 2 → Nat → Nat → Int

/-- The host reserves fresh storage: what it returns is a range of addresses that no region has. -/
def Host.Fresh (h : Host) (l : List Region) : Prop :=
  ∀ size, (h.reserve size).1 = 0 → (h.reserve size).2 ≠ 0 →
    (h.reserve size).2 + size ≤ word ∧
    ∀ r ∈ l, (h.reserve size).2 + size ≤ r.base ∨ r.base + r.length ≤ (h.reserve size).2

/-- `artbox_vm`. -/
structure Space where
  pageSize : Nat
  limit : Nat
  regionLimit : Nat
  /-- `window.base`, zero if the space was not created with a window. -/
  window : Nat := 0
  reserved : Nat := 0
  poisoned : Bool := false
  regions : List Region := []
  watches : List MappingState := []
  log : List (Request × Int) := []
deriving DecidableEq, Repr

/-- `protection`: the permissions a value stands for. -/
def protection (value : BitVec 64) : Except Int (BitVec 2) :=
  if value &&& ~~~7 ≠ 0 then .error (-22)
  else if value &&& 4 ≠ 0 then .error (-1)
  -- writable user pages are also readable
  else .ok (if value = 2 then 3 else value.setWidth 2)

/-- `overlaps`. -/
def overlaps (a aSize b bSize : Nat) : Bool := a < add64 b bSize && b < add64 a aSize

/-! ## Regions -/

namespace Region

/-- A region with `count` pages of one kind. -/
def uniform (base length count : Nat) (p : Page) : Region :=
  { base, length, live := if p.mapped then count else 0, pages := .replicate count p }

/-- The pages from `first` on, `count` of them. -/
def slice (r : Region) (first count : Nat) : List Page := (r.pages.drop first).take count

/-- Rewrite the pages from `first` on, `count` of them. -/
def edit (r : Region) (first count : Nat) (f : Page → Page) : Region :=
  { r with pages := r.pages.take first ++ (r.slice first count).map f ++ r.pages.drop (first + count) }

/-- The region has the range. -/
def contains (r : Region) (address length : Nat) : Bool :=
  r.base ≤ address && address - r.base ≤ r.length && length ≤ r.length - (address - r.base)

/-- `present`. -/
def present (r : Region) (first count : Nat) : Bool := (r.slice first count).all (·.mapped)

/-- The mapped pages of a range. -/
def mappedIn (r : Region) (first count : Nat) : Nat := (r.slice first count).countP (·.mapped)

end Region

namespace Space

/-- A new space without regions. -/
def create (h : Host) (pageSize limit regionLimit : Nat) : Option Space :=
  if regionLimit = 0 ∨ pageSize < 4096 ∨ 65536 < pageSize ∨ pageSize &&& (pageSize - 1) ≠ 0 ∨
      limit < pageSize ∨ word ≤ limit then none
  else if h.allocates regionLimit = false then none
  else some { pageSize, limit, regionLimit }

/-- `rounded`. -/
def rounded (s : Space) (length : Nat) : Nat :=
  let mask := s.pageSize - 1
  if length = 0 ∨ word - 1 - mask < length then 0 else (length + mask) / s.pageSize * s.pageSize

/-- `range`. -/
def range (s : Space) (address length : Nat) : Bool :=
  address ≤ word - 1 && address % s.pageSize = 0 && length ≤ word - 1 - address

/-- `containing`: the first region that has the range, with its index. -/
def containing (s : Space) (address length : Nat) : Option (Region × Nat) :=
  s.regions.zipIdx.find? fun r => r.1.contains address length

/-- `managed_window`. -/
def managedWindow (s : Space) (base : Nat) : Option (Region × Nat) :=
  s.regions.zipIdx.find? fun r => r.1.base == base && r.1.guardBytes != 0

/-- `accessible`. -/
def accessible (s : Space) (address length : Nat) (required : BitVec 2) : Bool :=
  if s.poisoned then false
  else if length = 0 then true
  else
    match s.containing address length with
    | none => false
    | some (r, _) =>
      let first := (address - r.base) / s.pageSize
      let last := (address - r.base + length - 1) / s.pageSize
      (r.slice first (last + 1 - first)).all fun p => p.mapped && p.protection &&& required == required

/-! ## What the callbacks do to the space -/

/-- Note what a callback was asked and what it answered. -/
def note (s : Space) (request : Request) (answer : Int) : Space :=
  { s with log := (request, answer) :: s.log }

/-- `mutation`: a callback for existing pages, whose failure ends the use of the space. -/
def mutation (s : Space) (request : Request) (answer : Int) : Space :=
  { s.note request answer with poisoned := s.poisoned || answer != 0 }

def setRegion (s : Space) (i : Nat) (r : Region) : Space := { s with regions := s.regions.set i r }

/-- A region of its own. -/
def keep (s : Space) (r : Region) : Space :=
  { s with reserved := s.reserved + r.length, regions := s.regions ++ [r] }

def watch (s : Space) (tracking : Option Nat) (f : MappingState → MappingState) : Space :=
  match tracking with
  | none => s
  | some i => { s with watches := s.watches.modify i f }

/-- The destructor of a `FileMapping`. -/
def drop (s : Space) (file : Option FileMapping) : Space :=
  match file with
  | none => s
  | some f =>
    let s := s.watch f.tracking fun _ => ⟨false, false⟩
    if f.reference = 0 then s else s.note (.drop f.reference) 0

/-- `invalidate_file_pages`. -/
def invalidateFilePages (s : Space) (r : Region) (first count : Nat) : Space :=
  match r.file with
  | none => s
  | some f =>
    if (r.slice first count).any (·.filePage) then s.watch f.tracking fun m => { m with intact := false }
    else s

/-- `release_unused_file`: the file of the region, afterwards. -/
def releaseUnusedFile (s : Space) (r : Region) : Space × Option FileMapping :=
  if r.pages.any (·.filePage) then (s, r.file) else (s.drop r.file, none)

/-- Give back the storage of a region that could not be made. If that fails the storage stays
owned, so that destruction can retry. -/
def rollback (h : Host) (s : Space) (r : Region) : Space :=
  let result := h.release r.base r.length
  let s := s.note (.release r.base r.length) result
  if result ≠ 0 then keep { s with poisoned := true } r else s.drop r.file

/-! ## Mapping anonymous storage -/

/-- The first page for a mapping of `size` bytes in a window, if it has room: a free, aligned hint
in the window, else a contiguous hole. -/
def place (s : Space) (r : Region) (address size : Nat) : Option Nat :=
  let count := size / s.pageSize
  let guardPages := r.guardBytes / s.pageSize
  if r.pages.length - guardPages < count then none
  else
    let candidate := (address - r.base) / s.pageSize
    if s.range address size = true ∧ add64 r.base r.guardBytes ≤ address ∧
        address ≤ sub64 (add64 r.base r.length) size ∧
        (r.slice candidate count).all (fun p => !p.mapped) = true then
      some candidate
    else FirstFit.search (fun p => !p.mapped) count (r.pages.drop guardPages) guardPages 0

/-- The part of `mmap_locked` for MAP_FIXED. -/
def replace (h : Host) (s : Space) (window : Option Nat) (address size : Nat) (permissions : BitVec 2) :
    Int × Space :=
  if s.range address size = false then (-22, s)
  else
    match s.containing address size with
    | none => (-95, s)
    | some (r, i) =>
      if window.any (· != i) then (-95, s)
      else if r.owned = false then (-1, s)
      else if address < add64 r.base r.guardBytes then (-1, s)
      else
        let first := (address - r.base) / s.pageSize
        let count := size / s.pageSize
        let s := s.invalidateFilePages r first count
        let result := h.reset address size permissions
        let s := s.mutation (.reset address size permissions) result
        if result ≠ 0 then (result, s)
        else
          let live := r.live + (r.slice first count).countP (fun p => !p.mapped)
          let r := { r.edit first count (fun _ => { mapped := true, protection := permissions }) with live }
          let (s, file) := s.releaseUnusedFile r
          (signed address, s.setRegion i { r with file })

/-- The part of `mmap_locked` that makes a region. -/
def reserveRegion (h : Host) (s : Space) (size : Nat) (permissions : BitVec 2) : Int × Space :=
  if s.regions.length = s.regionLimit ∨ s.limit - s.reserved < size then (-12, s)
  else if h.allocates (size / s.pageSize) = false then (-12, s)
  else
    let (result, storage) := h.reserve size
    let s := s.note (.reserve size storage) result
    if result ≠ 0 then (result, s)
    else if storage = 0 ∨ int64Max < storage ∨ s.range storage size = false then
      (-12, if storage ≠ 0 then s.note (.release storage size) (h.release storage size) else s)
    else
      let r := Region.uniform storage size (size / s.pageSize) { mapped := true, protection := permissions }
      let (result, s) : Int × Space :=
        if permissions = 0 then (0, s)
        else
          let result := h.protect storage size permissions
          (result, s.note (.protect storage size permissions) result)
      if result ≠ 0 then (result, s.rollback h r) else (signed storage, s.keep r)

/-- `mmap_locked`. The file descriptor is ignored. -/
def mmapLocked (h : Host) (s : Space) (window : Option (Region × Nat)) (address length : Nat)
    (prot flags : BitVec 64) (offset : Nat) : Int × Space :=
  if s.poisoned then (-5, s)
  else
    let size := s.rounded length
    if size = 0 ∨ offset % s.pageSize ≠ 0 then (-22, s)
    else
      match protection prot with
      | .error e => (e, s)
      | .ok permissions =>
        if flags &&& ~~~0x4010 ≠ 0x22 then (-95, s)
        else if flags &&& 0x10 ≠ 0 then s.replace h (window.map (·.2)) address size permissions
        else
          match window with
          | none => s.reserveRegion h size permissions
          | some (r, i) =>
            match s.place r address size with
            | none => (-12, s)
            -- replace only storage owned by this window
            | some first => s.replace h (some i) (add64 r.base (first * s.pageSize)) size permissions

/-- `artbox_vm_mmap`. -/
def mmap (h : Host) (s : Space) (address length : Nat) (prot flags : BitVec 64) (offset : Nat) : Int × Space :=
  s.mmapLocked h (if s.window ≠ 0 then s.managedWindow s.window else none) address length prot flags offset

/-- `artbox_vm_mmap_window`. -/
def mmapWindow (h : Host) (s : Space) (base address length : Nat) (prot flags : BitVec 64) (offset : Nat) :
    Int × Space :=
  if s.poisoned then (-5, s)
  else
    match s.managedWindow base with
    | none => (-95, s)
    | some window => s.mmapLocked h (some window) address length prot flags offset

/-! ## Windows -/

/-- What `artbox_reference_window_init` accepts. -/
def validWindow (base length guardBytes : Nat) : Bool :=
  base != 0 && (base ||| length ||| guardBytes) &&& 7 == 0 && length ≤ 0x100000000 && 8 ≤ guardBytes &&
    guardBytes < length && length ≤ word - 1 - base

/-- `artbox_vm_reserve_window`, with the base of the window. -/
def reserveWindow (h : Host) (s : Space) (length guardBytes : Nat) : Int × Space × Nat :=
  if 0x100000000 < length ∨ length % s.pageSize ≠ 0 ∨ guardBytes = 0 ∨ guardBytes % s.pageSize ≠ 0 ∨
      length ≤ guardBytes then (-22, s, 0)
  else if s.poisoned then (-5, s, 0)
  else if s.regions.length = s.regionLimit ∨ s.limit - s.reserved < length then (-12, s, 0)
  else if h.allocates (length / s.pageSize) = false then (-12, s, 0)
  else
    let (result, storage) := h.reserve length
    let s := s.note (.reserve length storage) result
    if result ≠ 0 then (result, s, 0)
    else
      let r := { Region.uniform storage length (length / s.pageSize) {} with guardBytes }
      if int64Max < storage ∨ int64Max - storage < length ∨ s.range storage length = false ∨
          validWindow storage length guardBytes = false then
        (-12, if storage ≠ 0 then s.rollback h r else s, 0)
      else (0, s.keep r, storage)

/-- `artbox_vm_create_window`. -/
def createWindow (h : Host) (pageSize length guardBytes : Nat) : Option Space :=
  match create h pageSize length 1 with
  | none => none
  | some s =>
    let (result, s, base) := s.reserveWindow h length guardBytes
    if result ≠ 0 then none else some { s with window := base }

/-! ## Mapping files -/

/-- The end of `map_file`: map the file into the storage of the region. -/
def attachFile (h : Host) (s : Space) (r : Region) (file : FileMapping) (permissions : BitVec 2)
    (watched : Bool) : Int × Space :=
  let error := h.map file.reference r.base r.length permissions file.sharing file.offset
  let s := s.note (.map file.reference r.base r.length permissions file.sharing file.offset) error
  if error ≠ 0 then (error, s.rollback h r)
  else if watched then
    let r := { r with file := some { file with tracking := some s.watches.length } }
    (signed r.base, keep { s with watches := s.watches ++ [{}] } r)
  else (signed r.base, s.keep r)

/-- The part of `map_file` that reserves storage. -/
def reserveFile (h : Host) (s : Space) (size : Nat) (page : Page) (file : FileMapping) (watched : Bool) :
    Int × Space :=
  let (error, storage) := h.reserve size
  let s := s.note (.reserve size storage) error
  if error ≠ 0 then (error, s.drop (some file))
  else if storage = 0 ∨ int64Max < storage ∨ s.range storage size = false then
    (-12, (if storage ≠ 0 then s.note (.release storage size) (h.release storage size) else s).drop (some file))
  else
    let r := { Region.uniform storage size (size / s.pageSize) page with file := some file }
    s.attachFile h r file page.protection watched

/-- `map_file`: `watched` says whether the caller asks for a watch. -/
def mapFile (h : Host) (s : Space) (length : Nat) (prot flags : BitVec 64) (offset file : Nat)
    (maximum : BitVec 2) (watched : Bool) : Int × Space :=
  if maximum ≠ 1 ∧ maximum ≠ 3 then (-22, s)
  else if s.poisoned then (-5, s)
  else if s.window ≠ 0 then (-95, s)
  else
    let size := s.rounded length
    if size = 0 ∨ offset % s.pageSize ≠ 0 then (-22, s)
    else if int64Max < size ∨ int64Max - size < offset then (-75, s)
    else
      match protection prot with
      | .error e => (e, s)
      | .ok permissions =>
        let sharing := (flags &&& 0xf).toNat
        if sharing ≠ 1 ∧ sharing ≠ 2 then (-22, s)
        else if flags &&& ~~~0x4003 ≠ 0 then (-95, s)
        else if permissions &&& ~~~maximum ≠ 0 then (-13, s)
        else if s.regions.length = s.regionLimit ∨ s.limit - s.reserved < size then (-12, s)
        else if h.allocates (size / s.pageSize) = false then (-12, s)
        else
          let (error, reference) := h.acquire file
          let s := s.note (.acquire file reference) error
          let file : FileMapping := { reference, offset, sharing }
          if error ≠ 0 then (error, s.drop (some file))
          else if reference = 0 then (-5, s)
          else
            let page : Page :=
              { mapped := true, filePage := true, denyWrite := maximum == 1, protection := permissions }
            s.reserveFile h size page file watched

/-! ## The other operations -/

/-- `artbox_vm_mprotect`. -/
def mprotect (h : Host) (s : Space) (address length : Nat) (prot : BitVec 64) : Int × Space :=
  if s.poisoned then (-5, s)
  else
    match protection prot with
    | .error e => (e, s)
    | .ok permissions =>
      let size := s.rounded length
      if s.range address size = false ∨ (size = 0 ∧ length ≠ 0) then (-22, s)
      else if length = 0 then (0, s)
      else
        match s.containing address size with
        | none => (-12, s)
        | some (r, i) =>
          if r.protectable = false then (-1, s)
          else
            let first := (address - r.base) / s.pageSize
            let count := size / s.pageSize
            if r.present first count = false then (-12, s)
            else if permissions &&& 2 ≠ 0 ∧ (r.slice first count).any (·.denyWrite) = true then (-13, s)
            else
              let result := h.protect address size permissions
              let s := s.mutation (.protect address size permissions) result
              (result,
                if result = 0 then
                  s.setRegion i (r.edit first count fun p => { p with protection := permissions })
                else s)

/-- The body of the loop of `artbox_vm_munmap` for a region that overlaps the range: the result and
what is left of the region. -/
def unmapRegion (h : Host) (s : Space) (address size : Nat) (r : Region) : Int × Space × Option Region :=
  let start := max address r.base
  let stop := min (add64 address size) (add64 r.base r.length)
  let first := (start - r.base) / s.pageSize
  let count := (stop - start) / s.pageSize
  let removed := r.mappedIn first count
  let s := s.invalidateFilePages r first count
  if removed = r.live ∧ r.guardBytes = 0 then
    let result := h.release r.base r.length
    let s := s.mutation (.release r.base r.length) result
    if result ≠ 0 then (result, s, some r)
    else (0, { s.drop r.file with reserved := sub64 s.reserved r.length }, none)
  else if removed ≠ 0 then
    let result := h.reset start (stop - start) 0
    let s := s.mutation (.reset start (stop - start) 0) result
    if result ≠ 0 then (result, s, some r)
    else
      let r := { r.edit first count (fun _ => {}) with live := r.live - removed }
      let (s, file) := s.releaseUnusedFile r
      (0, s, some { r with file })
  else (0, s, some r)

/-- The loop of `artbox_vm_munmap`: the regions passed and those to come. -/
def munmapRegions (h : Host) (address size : Nat) : List Region → List Region → Space → Int × Space
  | done, [], s => (0, { s with regions := done })
  | done, r :: rest, s =>
    if overlaps address size r.base r.length then
      let (result, s, left) := s.unmapRegion h address size r
      if result ≠ 0 then (result, { s with regions := done ++ left.toList ++ rest })
      else munmapRegions h address size (done ++ left.toList) rest s
    else munmapRegions h address size (done ++ [r]) rest s

/-- `artbox_vm_munmap`. -/
def munmap (h : Host) (s : Space) (address length : Nat) : Int × Space :=
  if s.poisoned then (-5, s)
  else
    let size := s.rounded length
    if size = 0 ∨ s.range address size = false then (-22, s)
    else if s.regions.any (fun r => !r.owned && overlaps address size r.base r.length) then (-1, s)
    else munmapRegions h address size [] s.regions s

/-- The loop of `artbox_vm_madvise`: runs of equal pages, the first at page `n`. -/
def discard (h : Host) (r : Region) : Nat → List (List Page) → Space → Int × Space
  | _, [], s => (0, s)
  | n, run :: rest, s =>
    let start := r.base + n * s.pageSize
    let bytes := run.length * s.pageSize
    let permissions := (run.headD {}).protection
    let (request, result) : Request × Int :=
      match (run.headD {}).filePage, r.file with
      | true, some f =>
        let at' := f.offset + n * s.pageSize
        (.map f.reference start bytes permissions f.sharing at',
          h.map f.reference start bytes permissions f.sharing at')
      | _, _ => (.reset start bytes permissions, h.reset start bytes permissions)
    let s := s.mutation request result
    if result ≠ 0 then (result, s) else discard h r (n + run.length) rest s

/-- `artbox_vm_madvise`. -/
def madvise (h : Host) (s : Space) (address length : Nat) (advice : Int) : Int × Space :=
  if s.poisoned then (-5, s)
  else if advice ≠ 0 ∧ advice ≠ 1 ∧ advice ≠ 4 then (-95, s)
  else
    let size := s.rounded length
    if s.range address size = false ∨ (size = 0 ∧ length ≠ 0) then (-22, s)
    else if length = 0 then (0, s)
    else
      match s.containing address size with
      | none => (-12, s)
      | some (r, _) =>
        if r.owned = false then (-1, s)
        else
          let first := (address - r.base) / s.pageSize
          let count := size / s.pageSize
          if r.present first count = false then (-12, s)
          else if advice ≠ 4 then (0, s)
          else discard h r first ((r.slice first count).splitBy (· == ·)) s

/-- `artbox_vm_register_data`. -/
def registerData (h : Host) (s : Space) (address length : Nat) (prot : BitVec 64) : Int × Space :=
  if address = 0 then (-22, s)
  else if s.poisoned then (-5, s)
  else if s.window ≠ 0 then (-95, s)
  else
    match protection prot with
    | .error e => (e, s)
    | .ok permissions =>
      if length = 0 ∨ length % s.pageSize ≠ 0 ∨ s.range address length = false then (-22, s)
      else if s.regions.any (fun r => overlaps address length r.base r.length) then (-17, s)
      else if s.regions.length = s.regionLimit then (-12, s)
      else if h.allocates (length / s.pageSize) = false then (-12, s)
      else
        let page : Page := { mapped := true, protection := permissions }
        let r := { Region.uniform address length (length / s.pageSize) page with owned := false }
        (0, { s with regions := s.regions ++ [r] })

/-- `artbox_vm_register_readonly`. -/
def registerReadonly (h : Host) (s : Space) (address length : Nat) : Int × Space :=
  if address = 0 ∨ length = 0 ∨ word - 1 - address < length then (-22, s)
  else if s.poisoned then (-5, s)
  else if s.window ≠ 0 then (-95, s)
  else if s.regions.any (fun r => overlaps address length r.base r.length) then (-17, s)
  else if s.regions.length = s.regionLimit then (-12, s)
  else if h.allocates ((length - 1) / s.pageSize + 1) = false then (-12, s)
  else
    let page : Page := { mapped := true, protection := 1 }
    let r :=
      { Region.uniform address length ((length - 1) / s.pageSize + 1) page with
        owned := false, protectable := false }
    (0, { s with regions := s.regions ++ [r] })

/-! ## Runs -/

/-- An operation of a caller. -/
inductive Op
  | reserveWindow (length guardBytes : Nat)
  | mmap (address length : Nat) (prot flags : BitVec 64) (offset : Nat)
  | mmapWindow (base address length : Nat) (prot flags : BitVec 64) (offset : Nat)
  | mapFile (length : Nat) (prot flags : BitVec 64) (offset file : Nat) (maximum : BitVec 2) (watched : Bool)
  | mprotect (address length : Nat) (prot : BitVec 64)
  | munmap (address length : Nat)
  | madvise (address length : Nat) (advice : Int)
  | registerData (address length : Nat) (prot : BitVec 64)
  | registerReadonly (address length : Nat)
deriving DecidableEq, Repr

/-- One operation. -/
def perform (h : Host) (s : Space) : Op → Int × Space
  | .reserveWindow length guardBytes =>
    let r := s.reserveWindow h length guardBytes
    (r.1, r.2.1)
  | .mmap address length prot flags offset => s.mmap h address length prot flags offset
  | .mmapWindow base address length prot flags offset => s.mmapWindow h base address length prot flags offset
  | .mapFile length prot flags offset file maximum watched =>
    s.mapFile h length prot flags offset file maximum watched
  | .mprotect address length prot => s.mprotect h address length prot
  | .munmap address length => s.munmap h address length
  | .madvise address length advice => s.madvise h address length advice
  | .registerData address length prot => s.registerData h address length prot
  | .registerReadonly address length => s.registerReadonly h address length

/-- The runs of a space, on hosts that reserve fresh storage. -/
def machine : Machine Space where
  init s := ∃ h : Host, h.Fresh [] ∧
    ((∃ pageSize limit regionLimit, create h pageSize limit regionLimit = some s) ∨
      ∃ pageSize length guardBytes, createWindow h pageSize length guardBytes = some s)
  step s s' := ∃ (h : Host) (op : Op), h.Fresh s.regions ∧ s' = (s.perform h op).2

end Space

end Artbox.Vm
