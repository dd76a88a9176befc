import Artbox.Linker.Lookup
import Artbox.Elf.Binding

/-!
# Relocation of a group

`core/src/linker.cpp`: what a group answers to the relocations of its modules, and the relocation
that stages copies of all modules' memory and puts them in place when each of them is relocated.
`artbox_load_group_create` has seen that the memory of a module of the scope lies over no image and
over no other memory of the manifest, so that it is put in place for one module at a time. A module
is known by its index, which is what `dynamic` tells. The host's exports answer by module and symbol.
-/

namespace Artbox.Linker

open Elf Checked

/-- `artbox_load_group::State` -/
inductive State
  | created | relocating | relocated | initializing | ready | failed
deriving DecidableEq, Repr

/-- What a TLS descriptor's argument points to. -/
structure Argument where
  address : BitVec 64
  id : BitVec 64
  offset : BitVec 64
deriving DecidableEq, Repr

/-- `artbox_load_group` with what it keeps for relocation and initialization. -/
structure Group extends LoadGroup where
  stats : List Stats
  tlsArguments : List Argument := []
  tlsResolver : BitVec 64 := 0
  state : State := .created
deriving DecidableEq

/-- The group that `artbox_load_group_create` gives. -/
def Group.start (g : LoadGroup) : Group := { toLoadGroup := g, stats := g.nodes.map fun _ => {} }

/-- The host's exports. -/
abbrev Host := (module symbol : Nat) → Except ElfError (BitVec 64)

/-- The outcome of the allocations: whether a module's copies and its plan are allocated, where its
copies are, and where the records are. -/
structure Heap where
  staged : (module : Nat) → Bool
  buffer : (module n : Nat) → Nat
  planned : (module : Nat) → Bool
  record : (n : Nat) → Option (BitVec 64)

/-! ## Symbols -/

/-- The module has `DF_SYMBOLIC`. -/
def Module.Symbolic (m : Module) : Prop := m.dynamic.flags &&& 2 ≠ 0

instance (m : Module) : Decidable m.Symbolic := inferInstanceAs (Decidable (_ ≠ _))

/-- A version's name; there is none where the record is empty. -/
def versionName (v : Version) : Option (List UInt8) := if v.name = [] then none else some v.name

/-- What a lookup answers. -/
def answer : Checked Empty (Option ElfError × Nat) → Checked ElfError (BitVec 64)
  | .ok (none, address) => .ok (BitVec.ofNat 64 address)
  | .ok (some e, _) => fail e
  | .error _ => .error .wrong

/-- The second answer where the first is `notFound`. -/
def orElse {α : Type} (first second : Checked ElfError α) : Checked ElfError α :=
  match first with
  | .error (.error .notFound) => second
  | _ => first

namespace LoadGroup

variable (g : LoadGroup)

/-- The node of a module. -/
def node (module : Nat) : Checked ElfError Node :=
  match g.nodes[module]? with
  | some node => .ok node
  | none => .error .wrong

/-- `resolve` -/
def resolve (host : Option Host) (module : Nat) : Asking := fun index => do
  let node ← g.node module
  let symbol ← dynamicSymbol node.module.dynamic index
  let version ← dynamicVersion node.module.dynamic index
  orElse
    (if node.module.Symbolic ∧ module ∈ g.scope then answer (g.probe symbol.name (versionName version) 0 module)
      else fail .notFound)
    (orElse (answer (g.lookup symbol.name (versionName version) 0))
      (match host with
        | some host => lift (host module index)
        | none => fail .notFound))

/-! ## TLS descriptors -/

/-- `tls_symbol`: the module's identity and the variable's offset. -/
def tlsSymbol (node : Node) (s : Symbol) : Checked ElfError (BitVec 64 × BitVec 64) := do
  let size := node.module.image.tls.elim 0 (·.memorySize)
  reject (s.type ≠ 6 ∨ 2 < s.binding ∨ 0xff00 ≤ s.sect) .unsupported
  reject (node.tlsId = 0 ∨ s.sect = 0 ∨ size < s.value ∨ size - s.value < s.size) .invalid
  return (BitVec.ofNat 64 node.tlsId, BitVec.ofNat 64 s.value)

/-- The loop of `bind_tls` over the scope. -/
def tlsSearch (name : List UInt8) (version : Option (List UInt8)) :
    List Nat → Checked ElfError (Option (BitVec 64 × BitVec 64))
  | [] => .ok none
  | index :: rest => do
    let node ← g.node index
    match lookupVersion node.module.dynamic name version with
    | .error (.error .notFound) => tlsSearch name version rest
    | .error stop => .error stop
    | .ok candidate => do
      let place ← tlsSymbol node candidate
      return some place

/-- `bind_tls` up to the addend: the identity and the offset that a descriptor stands for. -/
def tlsPlace (module index : Nat) : Checked ElfError (BitVec 64 × BitVec 64) := do
  let origin ← g.node module
  if index = 0 then
    reject (origin.tlsId = 0) .invalid
    return (BitVec.ofNat 64 origin.tlsId, 0)
  else
    let s ← dynamicSymbol origin.module.dynamic index
    let version ← dynamicVersion origin.module.dynamic index
    if s.sect ≠ 0 ∧ (s.binding = 0 ∨ s.visibility ≠ 0 ∨ origin.module.Symbolic) then tlsSymbol origin s
    else
      let found ← g.tlsSearch s.name (versionName version) g.scope
      match found with
      | some place => return place
      | none =>
        if s.sect ≠ 0 then tlsSymbol origin s
        else
          reject (s.binding ≠ 2) .notFound
          return (0, 0)

/-- The most arguments that a group has. -/
def maxArguments : Nat := 1024 * 1024

/-- `bind_tls` with the resolver and the arguments that the group has. -/
def bindTls (resolver : BitVec 64) (record : Nat → Option (BitVec 64)) (module : Nat) : Describing (List Argument) :=
  fun arguments index addend => do
    reject (resolver = 0) .unsupported
    reject (module ∉ g.scope) .invalid
    let (id, offset) ← g.tlsPlace module index
    reject (maxArguments ≤ arguments.length) .unsupported
    let address ← require (record arguments.length) .noMemory
    return ((resolver, address), arguments ++ [{ address, id, offset := offset + addend }])

/-- `executable` -/
def Executable (address : Nat) : Prop :=
  address % 4 = 0 ∧ ∃ index ∈ g.scope, ∃ node ∈ g.nodes[index]?, ∃ s ∈ node.module.image.segments,
    s.flags &&& 5 = 5 ∧ 4 ≤ s.fileSize ∧ (node.module.loadBias + s.virtualAddress) % 2 ^ 64 ≤ address ∧
      address - (node.module.loadBias + s.virtualAddress) % 2 ^ 64 ≤ s.fileSize - 4

instance (address : Nat) : Decidable (g.Executable address) :=
  inferInstanceAs (Decidable (_ ∧ ∃ index ∈ g.scope, ∃ node ∈ g.nodes[index]?, ∃ s ∈ node.module.image.segments, _))

end LoadGroup

/-! ## The relocation -/

/-- A module's memory in the copies that are made of it. -/
def Module.stage (m : Module) (buffer : Nat → Nat) : List Memory :=
  m.memory.mapIdx fun n view => { view with address := buffer n }

/-- The views with the bytes of copies. -/
def restore (memory copies : List Memory) : List Memory :=
  List.zipWith (fun view copy => { view with bytes := copy.bytes }) memory copies

/-- A node whose module has other memory. -/
def Node.withMemory (node : Node) (memory : List Memory) : Node :=
  { node with module := { node.module with memory } }

/-- `Staging` of a module. -/
structure Staging where
  module : Nat
  views : List Memory
  stats : Stats

namespace Group

variable (g : Group) (host : Option Host) (heap : Heap)

/-- The body of the loop that stages the scope. -/
def stageModule (arguments : List Argument) (module : Nat) : Checked ElfError (Staging × List Argument) := do
  let node ← g.node module
  let m := node.module
  reject (heap.staged module = false) .noMemory
  let (views, stats, arguments) ← relocateWith m.dynamic (BitVec.ofNat 64 m.loadBias) (m.stage (heap.buffer module))
    (some (g.resolve host module)) (some (g.bindTls g.tlsResolver heap.record module)) (heap.planned module) arguments
  return ({ module, views, stats }, arguments)

/-- That loop. -/
def stageScope : (arguments : List Argument) → List Nat → Checked ElfError (List Staging × List Argument)
  | arguments, [] => .ok ([], arguments)
  | arguments, module :: rest => do
    let (staging, arguments) ← g.stageModule host heap arguments module
    let (others, arguments) ← stageScope arguments rest
    return (staging :: others, arguments)

/-- The body of the loop that puts the copies in place. -/
def accept (s : Staging) : Group :=
  { g with
    nodes := g.nodes.modify s.module fun node => node.withMemory (restore node.module.memory s.views)
    stats := g.stats.set s.module s.stats }

/-- `artbox_load_group_relocate`: the result, none for `ARTBOX_ELF_OK`, and the group. -/
def relocate : Checked Empty (Option ElfError × Group) :=
  match g.state with
  | .failed | .relocating => .ok (some .invalid, g)
  | .relocated | .initializing | .ready => .ok (none, g)
  | .created =>
    match g.stageScope host heap g.tlsArguments g.scope with
    | .ok (staging, tlsArguments) => .ok (none, { staging.foldl accept g with tlsArguments, state := .relocated })
    | .error (.error e) => .ok (some e, { g with tlsArguments := [], state := .created })
    | .error .wrong => .error .wrong

/-- `artbox_load_group_tls_resolver` -/
def setResolver (address : Nat) : Option ElfError × Group :=
  if g.state ≠ .created ∨ ¬ g.Executable address then (some .invalid, g)
  else (none, { g with tlsResolver := BitVec.ofNat 64 address })

/-- `artbox_load_group_stats` -/
def statsOf (name : List UInt8) : Except ElfError Stats :=
  if g.state = .created ∨ g.state = .relocating then .error .invalid
  else
    match g.scope.find? fun index => (g.nodes[index]?).any (·.module.name = name) with
    | some index => .ok (g.stats.getD index {})
    | none => .error .notFound

end Group

end Artbox.Linker
