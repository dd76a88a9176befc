import Artbox.Files.Path
import Artbox.Lib.Bytes
import Artbox.Lib.Machine

/-!
# File calls

The calls of `artbox_vfs_call` in `core/src/vfs.cpp` that take a path, and those on the descriptors
they give. Files come from callbacks of a provider, which are a parameter (`Provider`) over whatever
the provider keeps. `System.log` is a history variable: what the provider was asked to open, to
stat and to unlink, the latest first.

The mutex of the table is held through a call, so a call is one step. Between calls the guest and
other threads change its memory, the regions of the address space and the files as they like.
eventfds, timerfds, epolls and Binder opens take slots of the table; what else they do is in
`Artbox.Vfs`.
-/

namespace Artbox.Files

open Vm (Space Guest word int64Max)
open Bytes (writeLE)

/-- `artbox_file_info` -/
structure FileInfo where
  device : BitVec 64 := 0
  inode : BitVec 64 := 0
  rdevice : BitVec 64 := 0
  size : BitVec 64 := 0
  blocks : BitVec 64 := 0
  mode : BitVec 32 := 0
  links : BitVec 32 := 0
  uid : BitVec 32 := 0
  gid : BitVec 32 := 0
  blockSize : BitVec 32 := 0
  accessSeconds : BitVec 64 := 0
  accessNanoseconds : BitVec 64 := 0
  modifySeconds : BitVec 64 := 0
  modifyNanoseconds : BitVec 64 := 0
  changeSeconds : BitVec 64 := 0
  changeNanoseconds : BitVec 64 := 0
deriving DecidableEq, Repr

/-- The type bits of the mode say that it is a directory. -/
def FileInfo.isDirectory (f : FileInfo) : Bool := f.mode &&& 0o170000 == 0o040000

/-- `artbox_file_ops`. A missing handle is the null pointer; as a directory it selects the preopened
root. Opening answers an error or a handle, the others an error or what they ask for; `readFile`
answers its result with the bytes it put at the start of the buffer. -/
structure Provider (σ : Type) where
  openFile : Option Handle → Name → BitVec 32 → BitVec 32 → σ → Except Int Nat × σ
  closeFile : Option Handle → σ → Int × σ
  readFile : Option Handle → Nat → σ → (Int × List UInt8) × σ
  writeFile : Option Handle → List UInt8 → σ → Int × σ
  seekFile : Option Handle → Int → BitVec 32 → σ → Int × σ
  statFile : Option Handle → σ → Except Int FileInfo × σ
  statAt : Option Handle → Name → σ → Except Int FileInfo × σ
  unlinkFile : Option Handle → Name → Bool → σ → Int × σ

/-- The code around the table. -/
structure Host (σ : Type) where
  files : Provider σ
  /-- `system.random`, with the bytes it fills the buffer with. -/
  random : Nat → σ → (Int × (Nat → UInt8)) × σ
  /-- `artbox_binder_device_open`, with the token. -/
  deviceOpen : σ → Except Int Nat × σ
  /-- `artbox_binder_device_set_nonblocking` -/
  setNonblocking : Nat → Bool → σ → Int × σ
  /-- `timerfd_read` and `eventfd_transfer`. -/
  waitFor : Descriptor → (writing : Bool) → (address count : Nat) → σ → Int × σ

/-- What the provider was asked, with the names from the root on of the file it is about. -/
inductive Request
  | openFile (location : List Name) (flags : BitVec 32)
  | stat (location : List Name)
  | unlinkFile (location : List Name)
deriving DecidableEq, Repr

/-- The table with what is around it during a call. -/
structure System (σ : Type) where
  table : Table
  files : σ
  space : Space
  guest : Guest
  log : List Request := []

/-- The names from the root on of what a name in a directory stands for. -/
def locate (directory : Option Handle) (name : Name) : List Name :=
  directory.elim [] Handle.location ++ if name = dot then [] else [name]

namespace System

variable {σ : Type}

/-! ## Callbacks -/

def openFile (p : Provider σ) (s : System σ) (directory : Option Handle) (name : Name) (flags mode : BitVec 32) :
    Except Int Handle × System σ :=
  let r := p.openFile directory name flags mode s.files
  (r.1.map fun file => ⟨file, locate directory name⟩,
    { s with files := r.2, log := .openFile (locate directory name) flags :: s.log })

def closeFile (p : Provider σ) (s : System σ) (handle : Option Handle) : Int × System σ :=
  let r := p.closeFile handle s.files
  (r.1, { s with files := r.2 })

def seekFile (p : Provider σ) (s : System σ) (handle : Option Handle) (offset : Int) (origin : BitVec 32) :
    Int × System σ :=
  let r := p.seekFile handle offset origin s.files
  (r.1, { s with files := r.2 })

def statFile (p : Provider σ) (s : System σ) (handle : Option Handle) : Except Int FileInfo × System σ :=
  let r := p.statFile handle s.files
  (r.1, { s with files := r.2, log := .stat (handle.elim [] Handle.location) :: s.log })

def statAt (p : Provider σ) (s : System σ) (directory : Option Handle) (name : Name) : Except Int FileInfo × System σ :=
  let r := p.statAt directory name s.files
  (r.1, { s with files := r.2, log := .stat (locate directory name) :: s.log })

def unlinkFile (p : Provider σ) (s : System σ) (directory : Option Handle) (name : Name) (trailing : Bool) :
    Int × System σ :=
  let r := p.unlinkFile directory name trailing s.files
  (r.1, { s with files := r.2, log := .unlinkFile (locate directory name) :: s.log })

/-! ## The walk -/

/-- `~Walk` -/
def closeOwned (p : Provider σ) (s : System σ) (owned : Option Handle) : System σ :=
  if owned = none then s else (s.closeFile p owned).2

/-- `Walk::resolve` over the parts of `relative` between its slashes: the directory and the leaf, and
what the walk owns at its end. -/
def resolve (p : Provider σ) : List Name → (current owned : Option Handle) → System σ →
    Except Int (Option Handle × Name) × Option Handle × System σ
  | [], current, owned, s => (.ok (current, dot), owned, s)
  | [leaf], current, owned, s => (.ok (current, if leaf = [] then dot else leaf), owned, s)
  | component :: after :: rest, current, owned, s =>
    match s.openFile p current component 0x84000 0 with
    | (.error error, s) => (.error error, owned, s)
    | (.ok next, s) =>
      if owned = none then resolve p (after :: rest) (some next) (some next) s
      else
        let closed := s.closeFile p owned
        if closed.1 ≠ 0 then (.error closed.1, some next, closed.2)
        else resolve p (after :: rest) (some next) (some next) closed.2

/-- Resolve, act at the leaf, and let the walk go. -/
def walk {α : Type} (p : Provider σ) (s : System σ) (directory : Option Handle) (relative : Name)
    (act : Option Handle → Name → System σ → Except Int α × System σ) : Except Int α × System σ :=
  match resolve p (relative.splitOn slash) directory none s with
  | (.error error, owned, s) => (.error error, s.closeOwned p owned)
  | (.ok (current, leaf), owned, s) =>
    let r := act current leaf s
    (r.1, r.2.closeOwned p owned)

/-! ## Metadata -/

/-- `stat_bytes` -/
def statBytes (s : System σ) (address : Nat) (f : FileInfo) : Int × System σ :=
  let put (width : Nat) {w : Nat} (value : BitVec w) : List UInt8 := writeLE width value.toNat
  let bytes := put 8 f.device ++ put 8 f.inode ++ put 4 f.mode ++ put 4 f.links ++ put 4 f.uid ++ put 4 f.gid ++
    put 8 f.rdevice ++ writeLE 8 0 ++ put 8 f.size ++ put 4 f.blockSize ++ writeLE 4 0 ++ put 8 f.blocks ++
    put 8 f.accessSeconds ++ put 8 f.accessNanoseconds ++ put 8 f.modifySeconds ++ put 8 f.modifyNanoseconds ++
    put 8 f.changeSeconds ++ put 8 f.changeNanoseconds ++ writeLE 8 0
  let r := s.space.write s.guest address bytes
  (r.1, { s with guest := r.2 })

end System

/-- `device_info` -/
def deviceInfo (kind : Nat) : FileInfo :=
  let f : FileInfo := { device := 1, inode := BitVec.ofNat 64 kind, links := 1, blockSize := 4096 }
  if kind = 9 then { f with mode := 0o020666, rdevice := 0x10000 }
  else
    let f := if 6 ≤ kind then { f with uid := 10000, gid := 10000, blockSize := 1024 } else f
    if virtualDirectory kind then { f with mode := 0o040555 }
    else if kind = 6 then { f with mode := 0o100444 }
    else { f with
      mode := 0o020000 ||| if kind = 3 then 0o444 else 0o666
      rdevice := 0x100 + if kind = 1 then 3 else if kind = 2 then 5 else 9 }

/-- What faccessat, openat and newfstatat check of a path first; they go on with the kind of the
device, zero for a file of the provider. -/
def Table.classify (t : Table) (p : PathInfo) : Except Int Nat :=
  let kind := device p.canonical
  if kind = 9 ∧ t.binder = false then .error (-2)
  else if kind = 0 ∧ (below p.canonical dev ∨ below p.canonical proc) then .error (-2)
  else if kind = 6 ∧ t.commandline = [] then .error (-2)
  else if kind = 0 ∧ t.files = false then .error (-38)
  else if kind ≠ 0 ∧ ¬ virtualDirectory kind ∧ p.trailing then .error (-20)
  else .ok kind

/-- The flags that openat refuses. -/
def openError (kind : Nat) (canonical : Name) (flags : BitVec 32) : Option Int :=
  if flags &&& 3 = 3 then some (-22)
  else if flags &&& ~~~(3 ||| 0x40 ||| 0x80 ||| 0x100 ||| 0x200 ||| 0x400 ||| 0x800 ||| 0x8000 ||| 0x4000 |||
      0x20000 ||| 0x80000) ≠ 0 then some (-95)
  else if kind ≠ 0 ∧ flags &&& 0xc0 = 0xc0 then some (-17)
  else if kind ≠ 0 ∧ ¬ virtualDirectory kind ∧ flags &&& 0x4000 ≠ 0 then some (-20)
  else if virtualDirectory kind ∧ (flags &&& 3 ≠ 0 ∨ flags &&& 0x200 ≠ 0) then some (-21)
  else if (kind = 3 ∨ kind = 6) ∧ flags &&& 3 ≠ 0 then some (-13)
  else if kind = 6 ∧ flags &&& 0x200 ≠ 0 then some (-13)
  else if below canonical system ∧ (flags &&& 3 ≠ 0 ∨ flags &&& (0x40 ||| 0x200) ≠ 0) then some (-30)
  else none

namespace System

variable {σ : Type}

/-! ## Calls with a path -/

/-- `path` -/
def path (s : System σ) (address : Nat) (dirfd : Int) : Except Int PathInfo × System σ :=
  let r := s.table.path s.space s.guest address dirfd
  (r.1, { s with guest := r.2 })

/-- Number 35. -/
def unlinkat (h : Host σ) (s : System σ) (dirfd : Int) (address : Nat) (flags : BitVec 32) : Int × System σ :=
  if flags &&& ~~~0x200 ≠ 0 then (-22, s)
  else if flags ≠ 0 then (-95, s)
  else
    match s.path address dirfd with
    | (.error error, s) => (error, s)
    | (.ok p, s) =>
      if below p.canonical system ∨ below p.canonical dev ∨ below p.canonical proc then (-30, s)
      else if s.table.unlink = false then (-38, s)
      else
        -- without a terminal `.` it would be the directory before it that is unlinked
        let relative := if p.terminalDot ∧ p.relative ≠ [] then p.relative ++ slash :: dot else p.relative
        let act (current : Option Handle) (leaf : Name) (s : System σ) : Except Int Int × System σ :=
          let r := s.unlinkFile h.files current leaf p.trailing
          (.ok r.1, r.2)
        match s.walk h.files p.directory relative act with
        | (.error error, s) => (error, s)
        | (.ok result, s) => (result, s)

/-- The metadata for faccessat and newfstatat. -/
def lookup (h : Host σ) (s : System σ) (kind : Nat) (p : PathInfo) : Except Int FileInfo × System σ :=
  if kind ≠ 0 then (.ok (deviceInfo kind), s)
  else
    match s.walk h.files p.directory p.relative fun current leaf s => s.statAt h.files current leaf with
    | (.error error, s) => (.error error, s)
    | (.ok info, s) => if p.trailing ∧ ¬ info.isDirectory then (.error (-20), s) else (.ok info, s)

/-- Number 48. -/
def faccessat (h : Host σ) (s : System σ) (dirfd : Int) (address : Nat) (flags : BitVec 32) : Int × System σ :=
  if flags &&& ~~~7 ≠ 0 then (-22, s)
  else
    match s.path address dirfd with
    | (.error error, s) => (error, s)
    | (.ok p, s) =>
      match s.table.classify p with
      | .error error => (error, s)
      | .ok kind =>
        match s.lookup h kind p with
        | (.error error, s) => (error, s)
        | (.ok info, s) =>
          let permissions := (info.mode >>> 6) &&& 7
          if below p.canonical system ∧ flags &&& 2 ≠ 0 then (-30, s)
          else if permissions &&& flags = flags then (0, s)
          else (-13, s)

/-- Number 79. -/
def newfstatat (h : Host σ) (s : System σ) (dirfd : Int) (address buffer : Nat) (flags : BitVec 64) : Int × System σ :=
  if flags ≠ 0 ∧ flags ≠ 0x100 then (-95, s)
  else
    match s.path address dirfd with
    | (.error error, s) => (error, s)
    | (.ok p, s) =>
      match s.table.classify p with
      | .error error => (error, s)
      | .ok kind =>
        if kind = 8 ∧ flags = 0x100 then (-95, s)
        else
          match s.lookup h kind p with
          | (.error error, s) => (error, s)
          | (.ok info, s) => s.statBytes buffer info

/-- A slot gets a descriptor; what openat returns for it. -/
def install (s : System σ) (slot : Nat) (d : Descriptor) : Int × System σ :=
  (slot + 3, { s with table := { s.table with descriptors := s.table.descriptors.set slot d } })

/-- The end of openat for a Binder device. -/
def openDevice (h : Host σ) (s : System σ) (slot caller : Nat) (d : Descriptor) : Int × System σ :=
  match h.deviceOpen s.files with
  | (.error error, files) => (error, { s with files })
  | (.ok token, files) =>
    let r := h.setNonblocking token (d.flags &&& 0x800 != 0) files
    if r.1 ≠ 0 then (r.1, { s with files := r.2 })
    else { s with files := r.2 }.install slot { d with vm := caller, token }

/-- The leaf of a path is opened, and asked whether it is a directory. -/
def openLeaf (h : Host σ) (flags mode : BitVec 32) (current : Option Handle) (leaf : Name) (s : System σ) :
    Except Int (Handle × Bool) × System σ :=
  match s.openFile h.files current leaf flags mode with
  | (.error error, s) => (.error error, s)
  | (.ok handle, s) =>
    match s.statFile h.files (some handle) with
    | (.error error, s) => (.error error, (s.closeFile h.files (some handle)).2)
    | (.ok info, s) => (.ok (handle, info.isDirectory), s)

/-- Number 56. -/
def openat (h : Host σ) (s : System σ) (caller : Nat) (dirfd : Int) (address : Nat) (flags mode : BitVec 32) :
    Int × System σ :=
  match s.path address dirfd with
  | (.error error, s) => (error, s)
  | (.ok p, s) =>
    match s.table.classify p with
    | .error error => (error, s)
    | .ok kind =>
      if kind = 8 ∧ flags &&& 0x8000 ≠ 0 then (if flags &&& 0x4000 ≠ 0 then -20 else -40, s)
      else
        match openError kind p.canonical flags with
        | some error => (error, s)
        | none =>
          match s.table.descriptors.findIdx? fun d => d.kind == 0 with
          | none => (-24, s)
          | some slot =>
            let d : Descriptor := {
              kind := if kind ≠ 0 then kind else 5
              flags, directory := virtualDirectory kind, path := p.canonical }
            if kind = 9 then s.openDevice h slot caller d
            else if kind ≠ 0 then s.install slot d
            else
              let native := flags ||| if p.trailing then 0x4000 else 0
              match s.walk h.files p.directory p.relative (openLeaf h native (mode &&& 0o777)) with
              | (.error error, s) => (error, s)
              | (.ok (handle, directory), s) => s.install slot { d with handle := some handle, directory }

/-! ## Calls on a descriptor -/

/-- Number 57. -/
def close (h : Host σ) (s : System σ) (fd : Int) : Int × System σ :=
  match s.table.get fd with
  | none => (-9, s)
  | some d =>
    let r := if d.kind = 5 then s.closeFile h.files d.handle else (0, s)
    (r.1, { r.2 with table := { r.2.table with descriptors := r.2.table.descriptors.set (fd - 3).toNat {} } })

/-- The descriptors that can be waited for answer for themselves, all but a seek. -/
def special (h : Host σ) (s : System σ) (caller : Nat) (d : Descriptor) (reads writes : Bool) (address count : Nat) :
    Option (Int × System σ) :=
  let transfer : Int × System σ :=
    let r := h.waitFor d writes address count s.files
    (r.1, { s with files := r.2 })
  if d.kind = 10 then some (if reads ∨ writes then -22 else -95, s)
  else if d.kind = 12 then
    if d.vm ≠ caller then some (-95, s)
    else if reads then some transfer
    else if writes then some (-22, s)
    else none
  else if d.kind = 11 then
    if d.vm ≠ caller then some (-95, s)
    else if reads ∨ writes then some transfer
    else none
  else none

/-- Number 62. -/
def lseek (h : Host σ) (s : System σ) (caller : Nat) (fd offset : Int) (origin : BitVec 32) : Int × System σ :=
  match s.table.get fd with
  | none => (-9, s)
  | some d =>
    match s.special h caller d false false 0 0 with
    | some r => r
    | none =>
      if d.kind = 9 then (if origin.toNat ≤ 4 then -29 else -22, s)
      else if d.kind = 6 then
        if 4 < origin.toNat then (-22, s)
        else if 2 < origin.toNat then (-95, s)
        else
          let base : Int := if origin = 1 then d.position else 0
          if offset < -base ∨ int64Max - base < offset then (-22, s)
          else (base + offset, (s.install (fd - 3).toNat { d with position := (base + offset).toNat }).2)
      else if d.kind ≠ 5 then (if origin.toNat ≤ 4 then 0 else -22, s)
      else s.seekFile h.files d.handle offset origin

/-- Number 80. -/
def fstat (h : Host σ) (s : System σ) (fd : Int) (buffer : Nat) : Int × System σ :=
  match s.table.get fd with
  | none => (-9, s)
  | some d =>
    if d.kind = 10 ∨ d.kind = 11 ∨ d.kind = 12 then (-95, s)
    else if d.kind = 5 then
      match s.statFile h.files d.handle with
      | (.error error, s) => (error, s)
      | (.ok info, s) => s.statBytes buffer info
    else s.statBytes buffer (deviceInfo d.kind)

/-! ## Reading and writing -/

/-- `artbox_vm_transfer` with `transfer` for its callback. -/
def transfer (h : Host σ) (s : System σ) (d : Descriptor) (writing : Bool) (address length : Nat) : Int × System σ :=
  if int64Max < length then (-22, s)
  else if s.space.poisoned then (-5, s)
  else if length ≠ 0 ∧ s.space.accessible address length (if writing then 1 else 2) = false then (-14, s)
  else
    let r : Int × System σ :=
      if writing then
        let loaded := s.guest.load address length
        let w := h.files.writeFile d.handle loaded.1 s.files
        (w.1, { s with files := w.2, guest := loaded.2 })
      else
        let r := h.files.readFile d.handle length s.files
        (r.1.1, { s with files := r.2, guest := s.guest.store address r.1.2 })
    (if (length : Int) < r.1 then -5 else r.1, r.2)

/-- A turn of the loop: how much it tried, its result, and what it left. -/
structure Fragment (σ : Type) where
  chunk : Nat
  result : Int
  position : Nat
  system : System σ

/-- `/proc/self/cmdline` -/
def commandlineFragment (s : System σ) (position address chunk : Nat) : Fragment σ :=
  let chunk := min chunk (s.table.commandline.length - position)
  let r := s.space.write s.guest address ((s.table.commandline.drop position).take chunk)
  if r.1 = 0 then ⟨chunk, chunk, position + chunk, { s with guest := r.2 }⟩
  else ⟨chunk, r.1, position, { s with guest := r.2 }⟩

/-- A file of the provider. -/
def fileFragment (h : Host σ) (s : System σ) (d : Descriptor) (writing : Bool) (position address chunk : Nat) :
    Fragment σ :=
  let r := s.transfer h d writing address chunk
  if r.1 = -14 ∧ ¬ writing ∧ address ≤ int64Max - chunk then
    -- a read at the end of the file copies nothing, whatever its destination is
    let q := r.2.seekFile h.files d.handle 0 1
    if q.1 < 0 then ⟨chunk, -14, position, q.2⟩
    else
      match q.2.statFile h.files d.handle with
      | (.error _, s) => ⟨chunk, -14, position, s⟩
      | (.ok info, s) => ⟨chunk, if info.size.toNat ≤ q.1.toNat then 0 else -14, position, s⟩
  else ⟨chunk, r.1, position, r.2⟩

/-- `/dev/zero` and `/dev/urandom` -/
def deviceFragment (h : Host σ) (s : System σ) (d : Descriptor) (position address chunk : Nat) : Fragment σ :=
  let chunk := min chunk 256
  let r := if d.kind = 3 then h.random chunk s.files else ((0, fun _ => 0), s.files)
  if r.1.1 ≠ 0 then ⟨chunk, r.1.1, position, { s with files := r.2 }⟩
  else
    let w := s.space.write s.guest address ((List.range chunk).map r.1.2)
    ⟨chunk, if w.1 = 0 then chunk else w.1, position, { s with files := r.2, guest := w.2 }⟩

def fragment (h : Host σ) (s : System σ) (d : Descriptor) (writing : Bool) (position address chunk : Nat) :
    Fragment σ :=
  if d.kind = 6 then s.commandlineFragment position address chunk
  else if d.kind = 5 then s.fileFragment h d writing position address chunk
  else s.deviceFragment h d position address chunk

/-- The loop over the fragments; each turn but the last moves a byte. The position is the one of
`/proc/self/cmdline`. -/
def transferLoop (h : Host σ) (d : Descriptor) (writing : Bool) (start count : Nat) :
    (turns done position : Nat) → System σ → Int × Nat × System σ
  | 0, done, position, s => (done, position, s)
  | turns + 1, done, position, s =>
    if count ≤ done ∨ d.kind = 6 ∧ s.table.commandline.length ≤ position then (done, position, s)
    else if word - 1 - done < start then (if done ≠ 0 then done else -14, position, s)
    else
      let address := start + done
      let f := s.fragment h d writing position address
        (min (s.space.pageSize - address % s.space.pageSize) (count - done))
      if f.result < 0 then (if done ≠ 0 then done else f.result, f.position, f.system)
      else if f.result < f.chunk then ((done + f.result.toNat : Nat), f.position, f.system)
      else transferLoop h d writing start count turns (done + f.result.toNat) f.position f.system

/-- The most that one call moves. -/
def transferCap (s : System σ) : Nat := (2 ^ 31 - 1) / s.space.pageSize * s.space.pageSize

/-- Numbers 63 and 64. -/
def readWrite (h : Host σ) (s : System σ) (caller : Nat) (fd : Int) (writing : Bool) (address count : Nat) :
    Int × System σ :=
  match s.table.get fd with
  | none => (-9, s)
  | some d =>
    match s.special h caller d (!writing) writing address count with
    | some r => r
    | none =>
      let access := d.flags &&& 3
      if writing ∧ access = 0 ∨ ¬ writing ∧ access = 1 then (-9, s)
      else if d.kind = 9 then (-22, s)
      else if d.directory then (-21, s)
      else
        let count := min count s.transferCap
        if d.kind ≠ 5 ∧ writing then (count, s)
        else if d.kind = 1 then (0, s)
        else
          let r := transferLoop h d writing address count (count + 1) 0 d.position s
          (r.1, (r.2.2.install (fd - 3).toNat { d with position := r.2.1 }).2)

end System

/-! ## Runs -/

/-- The calls, with the space of the thread that calls where it matters. -/
inductive Call
  | unlinkat (dirfd : Int) (address : Nat) (flags : BitVec 32)
  | faccessat (dirfd : Int) (address : Nat) (flags : BitVec 32)
  | openat (caller : Nat) (dirfd : Int) (address : Nat) (flags mode : BitVec 32)
  | newfstatat (dirfd : Int) (address buffer : Nat) (flags : BitVec 64)
  | close (fd : Int)
  | lseek (caller : Nat) (fd offset : Int) (origin : BitVec 32)
  | fstat (fd : Int) (buffer : Nat)
  | read (caller : Nat) (fd : Int) (address count : Nat)
  | write (caller : Nat) (fd : Int) (address count : Nat)
deriving DecidableEq, Repr

/-- What makes a descriptor that can be waited for: epoll_create1, eventfd2 and timerfd_create. -/
inductive Waitable
  | epoll
  | eventfd
  | timerfd
deriving DecidableEq, Repr

def Waitable.kind : Waitable → Nat
  | .epoll => 10
  | .eventfd => 11
  | .timerfd => 12

/-- The calls and what else changes the table. -/
inductive Op
  | call (c : Call)
  | create (w : Waitable) (flags : BitVec 32) (vm : Nat)
  | setBinder
  | setCommandline (bytes : List UInt8)
deriving DecidableEq, Repr

namespace System

variable {σ : Type}

def call (h : Host σ) (s : System σ) : Call → Int × System σ
  | .unlinkat dirfd address flags => s.unlinkat h dirfd address flags
  | .faccessat dirfd address flags => s.faccessat h dirfd address flags
  | .openat caller dirfd address flags mode => s.openat h caller dirfd address flags mode
  | .newfstatat dirfd address buffer flags => s.newfstatat h dirfd address buffer flags
  | .close fd => s.close h fd
  | .lseek caller fd offset origin => s.lseek h caller fd offset origin
  | .fstat fd buffer => s.fstat h fd buffer
  | .read caller fd address count => s.readWrite h caller fd false address count
  | .write caller fd address count => s.readWrite h caller fd true address count

def perform (h : Host σ) (s : System σ) : Op → Int × System σ
  | .call c => s.call h c
  | .create w flags vm =>
    match s.table.descriptors.findIdx? fun d => d.kind == 0 with
    | none => (-24, s)
    | some slot => s.install slot { kind := w.kind, flags := flags ||| 2, vm }
  | .setBinder =>
    if s.table.binder then (-114, s) else (0, { s with table := { s.table with binder := true } })
  | .setCommandline bytes =>
    if bytes = [] then (-22, s)
    else if 65536 < bytes.length then (-7, s)
    else if bytes.getLast? ≠ some 0 then (-22, s)
    else if s.table.commandline ≠ [] then (-114, s)
    else (0, { s with table := { s.table with commandline := bytes } })

/-- The runs of a table. Between calls the memory, the regions and the files change. -/
def machine (σ : Type) : Machine (System σ) where
  init s := (∀ d ∈ s.table.descriptors, d = {}) ∧ s.table.commandline = [] ∧ s.table.binder = false ∧ s.log = []
  step s s' := ∃ (h : Host σ) (op : Op) (files : σ) (space : Space) (guest : Guest),
    s' = (({ s with files, space, guest } : System σ).perform h op).2

end System

end Artbox.Files
