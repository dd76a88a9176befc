import Artbox.Elf.Relocation
import Artbox.Lib.Traversal

/-!
# Load groups

`core/src/linker.cpp`: a bundle's manifest, the group that a root makes of it and the lookups in
a group. Allocations do not fail, and the calls are given a group, names and outputs; in a
manifest's entries a null pointer is none. Strings are the bytes up to their NUL. Indices are
into the manifest. What the group keeps for the relocations (the host's exports, the TLS
arguments and the resolver) is not read here.
-/

namespace Artbox.Linker

open Elf Checked Traversal

/-- `artbox_link_module`. The dynamic table is told from others by its address. Memory is none if
it is null and the count is not zero. -/
structure LinkModule where
  name : Option (List UInt8)
  dynamic : Option (Nat × Elf.Dynamic)
  loadBias : Nat
  memory : Option (List Memory)
deriving DecidableEq

/-- A manifest entry without null pointers. -/
structure Module where
  name : List UInt8
  address : Nat
  dynamic : Elf.Dynamic
  loadBias : Nat
  memory : List Memory
deriving DecidableEq

/-- The module's image. -/
def Module.image (m : Module) : Image := m.dynamic.image

/-- `struct Node` -/
structure Node where
  module : Module
  dependencies : List Nat := []
  tlsId : Nat := 0
deriving DecidableEq

/-- `artbox_tls_template` -/
structure Template where
  moduleId : Nat
  initData : Nat
  initSize : Nat
  memorySize : Nat
  alignment : Nat
  skew : Nat
deriving DecidableEq, Repr

/-- `artbox_load_group` -/
structure LoadGroup where
  nodes : List Node
  scope : List Nat
  initialization : List Nat
  tlsTemplates : List Template
deriving DecidableEq

/-! ## The manifest -/

/-- `name_valid` -/
def NameValid (name : Option (List UInt8)) : Prop :=
  ∃ n ∈ name, n ≠ [] ∧ n ≠ [46] ∧ n ≠ [46, 46] ∧ n.length ≤ 255 ∧ ∀ c ∈ n, c ≠ 47 ∧ c ≠ 92

instance (name : Option (List UInt8)) : Decidable (NameValid name) :=
  inferInstanceAs (Decidable (∃ n ∈ name, _))

/-- The body of the loop over the manifest; `before` are the entries it has passed. -/
def checkModule (before : List Module) (m : LinkModule) : Except ElfError Module :=
  match m.name, m.dynamic, m.memory with
  | some name, some (address, dynamic), some memory =>
    if ¬ NameValid (some name) ∨ dynamic.image.data.address = 0 ∨ (∃ soname ∈ dynamic.soname, name ≠ soname) ∨
        maxSegments < memory.length then .error .invalid
    else if ∃ other ∈ before, name = other.name ∨ address = other.address then .error .invalid
    else .ok { name, address, dynamic, loadBias := m.loadBias, memory }
  | _, _, _ => .error .invalid

/-- The loop over the manifest. -/
def checkModules (before : List Module) : List LinkModule → Except ElfError (List Module)
  | [] => .ok before
  | m :: rest =>
    match checkModule before m with
    | .error e => .error e
    | .ok checked => checkModules (before ++ [checked]) rest

/-- `find` -/
def find (modules : List Module) (name : List UInt8) : Nat := modules.findIdx fun m => m.name = name

/-! ## One module of the scope -/

/-- The body of the loop over the segments finds that one does not fit in the address space. -/
def Module.Wraps (m : Module) : Prop :=
  ∃ s ∈ m.image.segments, uint64Max - m.loadBias < s.virtualAddress ∨
    uint64Max - m.loadBias - s.virtualAddress < s.memorySize

instance (m : Module) : Decidable m.Wraps := inferInstanceAs (Decidable (∃ s ∈ m.image.segments, _))

/-- Memory `n` of module `index` lies over an image of the manifest or over other memory. -/
def Clashes (modules : List Module) (index n : Nat) (memory : Memory) : Prop :=
  ∃ p ∈ modules.zipIdx,
    Overlaps memory.address memory.bytes.length p.1.image.data.address p.1.image.size ∨
      ∃ q ∈ p.1.memory.zipIdx, (index ≠ p.2 ∨ n ≠ q.2) ∧
        Overlaps memory.address memory.bytes.length q.1.address q.1.bytes.length

instance (modules : List Module) (index n : Nat) (memory : Memory) : Decidable (Clashes modules index n memory) :=
  inferInstanceAs (Decidable (∃ p ∈ modules.zipIdx, _ ∨ ∃ q ∈ p.1.memory.zipIdx, _))

/-- The limit of the group's writable memory. -/
def memoryLimit : Nat := 256 * 1024 * 1024

/-- The loop over a module's memory from number `n` on: the group's total behind it. -/
def checkMemory (modules : List Module) (index : Nat) (image : Image) : (n total : Nat) → List Memory →
    Except ElfError Nat
  | _, total, [] => .ok total
  | n, total, memory :: rest =>
    if image.segments.length ≤ memory.segmentIndex ∨ memory.address = 0 ∨ memory.bytes = [] ∨
        uint64Max - memory.address < memory.bytes.length then .error .invalid
    else if memoryLimit - total < memory.bytes.length then .error .unsupported
    else if Clashes modules index n memory then .error .invalid
    else checkMemory modules index image (n + 1) (total + memory.bytes.length) rest

/-- A module's memory has the bytes that the image's TLS segment begins with. -/
def Memory.Holds (image : Image) (tls : Segment) (memory : Memory) : Prop :=
  ∃ s ∈ image.segments[memory.segmentIndex]?, s.virtualAddress ≤ tls.virtualAddress ∧
    tls.virtualAddress - s.virtualAddress ≤ memory.bytes.length ∧
      tls.fileSize ≤ memory.bytes.length - (tls.virtualAddress - s.virtualAddress)

instance (image : Image) (tls : Segment) (memory : Memory) : Decidable (Memory.Holds image tls memory) :=
  inferInstanceAs (Decidable (∃ s ∈ image.segments[memory.segmentIndex]?, _))

/-- Where the TLS segment's bytes are in the module's memory, or zero. -/
def Module.tlsMemory (m : Module) (tls : Segment) : Nat :=
  match m.memory.find? fun memory => Memory.Holds m.image tls memory with
  | none => 0
  | some memory =>
    let base := (m.image.segments[memory.segmentIndex]?).elim 0 (·.virtualAddress)
    (memory.address + tls.virtualAddress - base) % 2 ^ 64

/-- The template of a module that has a TLS segment. -/
def Module.template (m : Module) (tls : Segment) (id : Nat) : Except ElfError Template :=
  let alignment := max 1 tls.alignment
  if tls.memorySize = 0 ∨ 16 * 1024 * 1024 < tls.memorySize ∨ 1024 * 1024 < alignment then .error .unsupported
  else if alignment &&& (alignment - 1) ≠ 0 ∨ tls.memorySize < tls.fileSize then .error .invalid
  else
    let result (init : Nat) : Template :=
      { moduleId := id, initData := init, initSize := tls.fileSize, memorySize := tls.memorySize, alignment
        skew := tls.virtualAddress % alignment }
    let init := m.tlsMemory tls
    if init = 0 ∧ tls.fileSize ≠ 0 then
      match virtualSpan m.image tls.virtualAddress tls.fileSize with
      | .ok offset => .ok (result (m.image.data.address + offset))
      | .error _ => .error .invalid
    else .ok (result init)

/-- The templates with a module's added, and the module's identity. -/
def Module.addTemplate (m : Module) (templates : List Template) : Except ElfError (List Template × Nat) :=
  match m.image.tls with
  | none => .ok (templates, 0)
  | some tls =>
    match m.template tls (templates.length + 1) with
    | .ok template => .ok (templates ++ [template], templates.length + 1)
    | .error e => .error e

/-- The loop over `DT_NEEDED`: the node's dependencies, and what is reachable with the scope. -/
def link (modules : List Module) : List (List UInt8) → List Nat × Found Nat → Except ElfError (List Nat × Found Nat)
  | [], linked => .ok linked
  | name :: rest, (dependencies, found) =>
    if ¬ NameValid (some name) then .error .invalid
    else if find modules name = modules.length then .error .notFound
    else link modules rest (dependencies ++ [find modules name], found.push (find modules name))

/-! ## Creating a group -/

/-- What `artbox_load_group_create` has made. -/
structure Building where
  nodes : List Node
  found : Found Nat
  total : Nat := 0
  templates : List Template := []

/-- The body of the loop over the scope. -/
def admitModule (modules : List Module) (b : Building) (index : Nat) : Checked ElfError Building := do
  let node ← (match b.nodes[index]? with | some node => .ok node | none => .error .wrong)
  let m := node.module
  reject (m.dynamic.preinitArray.size ≠ 0) .unsupported
  reject m.Wraps .invalid
  let total ← lift (checkMemory modules index m.image 0 b.total m.memory)
  let (templates, tlsId) ← lift (m.addTemplate b.templates)
  let (dependencies, found) ← lift (link modules m.dynamic.needed (node.dependencies, b.found))
  return { nodes := b.nodes.set index { node with dependencies, tlsId }, found, total, templates }

/-- The loop over the scope, which goes wrong if it does not end within the rounds. -/
def build (modules : List Module) : (rounds cursor : Nat) → Building → Checked ElfError Building
  | 0, cursor, b => if cursor < b.found.order.length then .error .wrong else .ok b
  | rounds + 1, cursor, b =>
    match b.found.order[cursor]? with
    | none => .ok b
    | some index => do
      let b ← admitModule modules b index
      build modules rounds (cursor + 1) b

/-- The indices that a node depends on. -/
def dependencies (nodes : List Node) (index : Nat) : List Nat := (nodes[index]?).elim [] (·.dependencies)

/-- The most modules that a manifest has. -/
def maxModules : Nat := 64

/-- `artbox_load_group_create` -/
def create (manifest : List LinkModule) (root : Option (List UInt8)) : Checked ElfError LoadGroup := do
  reject (manifest = [] ∨ maxModules < manifest.length ∨ ¬ NameValid root) .invalid
  let root ← require root .invalid
  let modules ← lift (checkModules [] manifest)
  let first := find modules root
  reject (first = modules.length) .notFound
  let b ← build modules maxModules 0 { nodes := modules.map ({ module := · }), found := Found.start.push first }
  return {
    nodes := b.nodes, scope := b.found.order, tlsTemplates := b.templates
    initialization := (visit (dependencies b.nodes) maxModules Found.start first).order }

/-! ## Lookup -/

/-- `symbol_address`: the result, none for `ARTBOX_ELF_OK`, and what the output then holds. -/
def symbolAddress (m : Module) (symbol : Symbol) (out : Nat) : Option ElfError × Nat :=
  if 2 < symbol.type ∨ 2 < symbol.binding then (some .unsupported, out)
  else if symbol.sect = 0xfff1 then (none, symbol.value)
  else if 0xff00 ≤ symbol.sect then (some .unsupported, out)
  else if ∃ s ∈ m.image.segments, s.virtualAddress ≤ symbol.value ∧
      symbol.value - s.virtualAddress ≤ s.memorySize ∧
        symbol.size ≤ s.memorySize - (symbol.value - s.virtualAddress) then
    (none, (m.loadBias + symbol.value) % 2 ^ 64)
  else (some .invalid, out)

/-- `lookup` -/
def Module.lookup (m : Module) (name : List UInt8) (version : Option (List UInt8)) (out : Nat) :
    Checked Empty (Option ElfError × Nat) :=
  match lookupVersion m.dynamic name version with
  | .ok symbol => .ok (symbolAddress m symbol out)
  | .error (.error e) => .ok (some e, out)
  | .error .wrong => .error .wrong

/-- A module has an address in one of its segments. -/
def Module.Contains (m : Module) (address : Nat) : Prop :=
  ∃ s ∈ m.image.segments, (m.loadBias + s.virtualAddress) % 2 ^ 64 ≤ address ∧
    address - (m.loadBias + s.virtualAddress) % 2 ^ 64 < s.memorySize

instance (m : Module) (address : Nat) : Decidable (m.Contains address) :=
  inferInstanceAs (Decidable (∃ s ∈ m.image.segments, _))

namespace LoadGroup

variable (g : LoadGroup) (name : List UInt8) (version : Option (List UInt8))

/-- `lookup` in the node at an index. -/
def probe (out index : Nat) : Checked Empty (Option ElfError × Nat) :=
  match g.nodes[index]? with
  | some node => node.module.lookup name version out
  | none => .error .wrong

/-- The loop of `artbox_load_group_lookup`. -/
def lookupIn : (out : Nat) → List Nat → Checked Empty (Option ElfError × Nat)
  | out, [] => .ok (some .notFound, out)
  | out, index :: rest => do
    let (result, out) ← g.probe name version out index
    if result ≠ some .notFound then return (result, out) else lookupIn out rest

/-- `artbox_load_group_lookup` -/
def lookup (out : Nat) : Checked Empty (Option ElfError × Nat) := g.lookupIn name version out g.scope

/-- A node's dependencies are put into the queue, an array of so many entries. -/
def enqueue : List Nat → Found Nat → Checked Empty (Found Nat)
  | [], queue => .ok queue
  | dependency :: rest, queue =>
    if queue.marked dependency then enqueue rest queue
    else do
      within (queue.order.length < maxModules)
      enqueue rest ((queue.mark dependency).put dependency)

/-- The loop of `artbox_load_group_lookup_from`, which goes wrong if it does not end within the
rounds. -/
def lookupQueue : (rounds cursor : Nat) → Found Nat → (out : Nat) → Checked Empty (Option ElfError × Nat)
  | 0, cursor, queue, out => if cursor < queue.order.length then .error .wrong else .ok (some .notFound, out)
  | rounds + 1, cursor, queue, out =>
    match queue.order[cursor]? with
    | none => .ok (some .notFound, out)
    | some index => do
      let (result, out) ← g.probe name version out index
      if result ≠ some .notFound then return (result, out)
      else
        let queue ← enqueue (dependencies g.nodes index) queue
        lookupQueue rounds (cursor + 1) queue out

/-- `find` in the group's nodes. -/
def find (module : List UInt8) : Nat := Linker.find (g.nodes.map (·.module)) module

/-- `artbox_load_group_lookup_from` -/
def lookupFrom (module : List UInt8) (out : Nat) : Checked Empty (Option ElfError × Nat) :=
  let first := g.find module
  if first ∉ g.scope then .ok (some .notFound, out)
  else g.lookupQueue name version maxModules 0 (Found.start.push first) out

/-- The loop of `artbox_load_group_lookup_next`; `after` is set behind the module `origin`. -/
def lookupAfter (origin : Nat) : (after : Bool) → List Nat → (out : Nat) → Checked Empty (Option ElfError × Nat)
  | _, [], out => .ok (some .notFound, out)
  | after, index :: rest, out => do
    let (result, out) ← (if after then g.probe name version out index else .ok (some .notFound, out))
    if result ≠ some .notFound then return (result, out)
    else lookupAfter origin (after || decide (index = origin)) rest out

/-- `containing` -/
def containing (address : Nat) : Nat :=
  (g.scope.find? fun index => (g.nodes[index]?).any (·.module.Contains address)).getD g.nodes.length

/-- `artbox_load_group_lookup_next` -/
def lookupNext (caller out : Nat) : Checked Empty (Option ElfError × Nat) :=
  g.lookupAfter name version (g.containing caller) false g.scope out

end LoadGroup

end Artbox.Linker
