import Artbox.Linker.Lifecycle
import Artbox.Lib.Machine

/-!
# The guest's loader calls

`core/src/dlfcn.cpp`: a context makes the modules of a load group openable by name. Every module is
there from the start, so opening one only counts; the handle is the context's identity with the
module's index in its low byte. Allocations do not fail and the calls are given a context, which
keeps the group's lookups; the group's state is read when the context is made. A null error
pointer is no thread. Handles and addresses are natural numbers below `2 ^ 64`.
-/

namespace Artbox.Linker

open Elf Checked

/-! ## What a group tells of its modules -/

/-- `artbox_link_info` -/
structure LinkInfo where
  name : List UInt8
  address : Nat
  dynamic : Elf.Dynamic
  loadBias : Nat
  tlsModuleId : Nat
deriving DecidableEq

/-- `info` -/
def Node.info (node : Node) : LinkInfo where
  name := node.module.name
  address := node.module.address
  dynamic := node.module.dynamic
  loadBias := node.module.loadBias
  tlsModuleId := node.tlsId

/-- `artbox_load_group_info` -/
def LoadGroup.info (g : LoadGroup) (index : Nat) : Checked ElfError LinkInfo :=
  match g.scope[index]? with
  | none => fail .notFound
  | some i =>
    match g.nodes[i]? with
    | none => .error .wrong
    | some node => .ok node.info

/-! ## Errors -/

/-- `artbox_elf_result_string` of an error. -/
def resultString : ElfError → String
  | .invalid => "invalid ELF bounds or structure"
  | .unsupported => "unsupported ELF feature"
  | .notFound => "required ELF item or symbol not found"
  | .noMemory => "ELF operation exhausted host memory"

/-- Why a call fails. -/
inductive Failure
  | openFlags
  | extensionFlags
  | foreignNamespace
  | absent
  | exhausted
  | openLock
  | closedHandle
  | closeLock
  | symbolName
  | symbolHandle
  | symbolLock
  | lookup (e : ElfError)
deriving DecidableEq, Repr

/-- The message of a failure. -/
def Failure.text : Failure → String
  | .openFlags => "dlopen: invalid loader or flags"
  | .extensionFlags => "android_dlopen_ext: unsupported extension flags"
  | .foreignNamespace => "android_dlopen_ext: namespace does not belong to this signed group"
  | .absent => "dlopen: library absent from the signed startup group"
  | .exhausted => "dlopen: reference count exhausted"
  | .openLock => "dlopen: handle lock failed"
  | .closedHandle => "dlclose: invalid or closed handle"
  | .closeLock => "dlclose: handle lock failed"
  | .symbolName => "dlsym: invalid loader or symbol name"
  | .symbolHandle => "dlsym: invalid or closed handle"
  | .symbolLock => "dlsym: handle lock failed"
  | .lookup e => resultString e

/-- `artbox_dl_error` -/
structure DlError where
  message : String := ""
  pending : Bool := false
deriving DecidableEq, Repr

/-- `fail`; the message has room for 255 bytes. -/
def DlError.fail (message : String) : DlError where
  message := String.ofList (message.toList.take 255)
  pending := true

/-- `artbox_dlerror` -/
def DlError.report (error : DlError) : Option String × DlError :=
  if error.pending then (some error.message, { error with pending := false }) else (none, error)

/-! ## Contexts -/

/-- `Alias` -/
structure Alias where
  path : List UInt8
  index : Nat
deriving DecidableEq

/-- `artbox_dlfcn`. There is a name and a reference count for each image. -/
structure Dlfcn where
  group : LoadGroup
  identity : Nat := 0
  namespaceName : List UInt8 := []
  images : List LinkInfo
  names : List (List UInt8)
  references : List Nat
  aliases : List Alias := []
deriving DecidableEq

/-- `artbox_dl_alias`; a null pointer is none. -/
structure DlAlias where
  path : Option (List UInt8)
  module : Option (List UInt8)
deriving DecidableEq

/-- The most aliases of a context. -/
def maxAliases : Nat := 128

/-- The longest path and namespace name. -/
def maxPath : Nat := 4096

namespace Dlfcn

/-- `find`, in the images. -/
def find (d : Dlfcn) (name : List UInt8) : Option Nat := d.images.findIdx? fun image => image.name = name

/-- The body of the loop over the aliases; `named` marks the images that have one. -/
def addAlias (d : Dlfcn) (named : List Bool) (a : DlAlias) : Except ElfError (Dlfcn × List Bool) :=
  match a.path, a.module with
  | some path, some module =>
    if path.head? ≠ some 47 ∨ maxPath < path.length then .error .invalid
    else
      match d.find module with
      | none => .error .notFound
      | some index =>
        if ∃ existing ∈ d.aliases, existing.path = path then .error .invalid
        else
          let aliases := d.aliases ++ [⟨path, index⟩]
          if named.getD index false then .ok ({ d with aliases }, named)
          else .ok ({ d with aliases, names := d.names.set index path }, named.set index true)
  | _, _ => .error .invalid

/-- That loop. -/
def addAliases : (d : Dlfcn) → (named : List Bool) → List DlAlias → Except ElfError Dlfcn
  | d, _, [] => .ok d
  | d, named, a :: rest =>
    match d.addAlias named a with
    | .error e => .error e
    | .ok (d, named) => addAliases d named rest

/-- The loop over the group's modules. -/
def readImages (g : LoadGroup) : (left index : Nat) → Checked ElfError (List LinkInfo)
  | 0, _ => .ok []
  | left + 1, index => do
    let image ← g.info index
    let rest ← readImages g left (index + 1)
    return image :: rest

/-- `artbox_dlfcn_create_with_namespace` up to the identity. -/
def prepare (g : Group) (aliases : List DlAlias) (namespaceName : Option (List UInt8)) : Checked ElfError Dlfcn := do
  let count := g.scope.length
  reject (count = 0 ∨ maxModules < count ∨ maxAliases < aliases.length) .invalid
  reject (∃ name ∈ namespaceName, name = [] ∨ maxPath < name.length) .invalid
  let images ← readImages g.toLoadGroup count 0
  let _ ← lift (g.statsOf ((images.head?).elim [] (·.name)))
  lift (addAliases {
    group := g.toLoadGroup, images, namespaceName := namespaceName.getD [], names := images.map (·.name)
    references := List.replicate count 0 } (List.replicate count false) aliases)

/-- `artbox_dlfcn_create_with_namespace`, with the next identity before and after. -/
def create (g : Group) (aliases : List DlAlias) (namespaceName : Option (List UInt8)) (next : Nat) :
    Checked ElfError Dlfcn × Nat :=
  match prepare g aliases namespaceName with
  | .error e => (.error e, next)
  | .ok d =>
    (if next = 0 ∨ uint64Max / 2 ^ 8 ≤ next then fail .unsupported else .ok { d with identity := next * 2 ^ 8 },
      (next + 1) % 2 ^ 64)

/-! ## Handles -/

/-- The handle of a module. -/
def handle (d : Dlfcn) (index : Nat) : Nat := d.identity ||| (index * 2 + 1)

/-- The token of the namespace. -/
def token (d : Dlfcn) : Nat := d.identity ||| 0x80

/-- `opened` -/
def opened (d : Dlfcn) (handle : Nat) : Option Nat :=
  let low := handle % 256
  let index := low / 2
  if handle - low = d.identity ∧ low % 2 = 1 ∧ index < d.images.length ∧ d.references.getD index 0 ≠ 0 then
    some index
  else none

/-- `artbox_android_get_exported_namespace` -/
def exportedNamespace (d : Dlfcn) (name : Option (List UInt8)) : Nat :=
  if d.namespaceName ≠ [] ∧ name = some d.namespaceName then d.token else 0

/-- The module that a name, or the null pointer, stands for. -/
def select (d : Dlfcn) : Option (List UInt8) → Option Nat
  | none => some 0
  | some name => (d.find name).orElse fun _ => (d.aliases.find? fun a => a.path = name).map (·.index)

/-- `artbox_android_dlopen_ext`; `dlopen` has no extension. `locks` says whether the mutex is locked. -/
def dlopen (d : Dlfcn) (locks : Bool) (name : Option (List UInt8)) (flags : BitVec 32) (extension : BitVec 64)
    (namespaceHandle : Nat) : Except Failure Nat × Dlfcn :=
  if flags &&& ~~~0x1107 ≠ 0 then (.error .openFlags, d)
  else if extension &&& ~~~0x200 ≠ 0 then (.error .extensionFlags, d)
  else if extension &&& 0x200 ≠ 0 ∧ (d.namespaceName = [] ∨ namespaceHandle ≠ d.token) then
    (.error .foreignNamespace, d)
  else
    match d.select name with
    | none => (.error .absent, d)
    | some index =>
      if locks = false then (.error .openLock, d)
      else if d.references.getD index 0 = uint64Max then (.error .exhausted, d)
      else (.ok (d.handle index), { d with references := d.references.modify index (· + 1) })

/-- `artbox_dlclose` -/
def dlclose (d : Dlfcn) (locks : Bool) (handle : Nat) : Except Failure Unit × Dlfcn :=
  if locks = false then (.error .closeLock, d)
  else
    match d.opened handle with
    | none => (.error .closedHandle, d)
    | some index => (.ok (), { d with references := d.references.modify index (· - 1) })

/-- What a lookup in the group makes of a call. -/
def reply : Checked Empty (Option ElfError × Nat) → Checked Failure Nat
  | .ok (none, address) => .ok address
  | .ok (some e, _) => fail (.lookup e)
  | .error _ => .error .wrong

/-- `artbox_dlsym` -/
def dlsym (d : Dlfcn) (locks : Bool) (handle : Nat) (name version : Option (List UInt8)) (caller : Nat) :
    Checked Failure Nat := do
  let name ← require name .symbolName
  if handle = 0 then reply (d.group.lookup name version 0)
  else if handle = uint64Max then reply (d.group.lookupNext name version caller 0)
  else
    reject (locks = false) .symbolLock
    let index ← require (d.opened handle) .symbolHandle
    let image ← (match d.images[index]? with | some image => .ok image | none => .error .wrong)
    reply (d.group.lookupFrom name version image.name 0)

end Dlfcn

/-! ## The process -/

/-- What the calls have done. Contexts have the numbers in which they were made. -/
inductive DlEvent
  | created (context identity : Nat)
  | refused (e : ElfError)
  | destroyed (context : Nat)
  | opened (context handle : Nat)
  | closed (context handle : Nat)
  | failed (thread : Option Nat) (f : Failure)
  | reported (thread : Nat)
deriving DecidableEq, Repr

/-- The contexts of a process, each until it is destroyed, and the error state of each thread. `next`
is `next_identity`; the history has the latest event first. -/
structure Loaders where
  next : Nat := 1
  contexts : List (Option Dlfcn) := []
  errors : Nat → DlError := fun _ => {}
  history : List DlEvent := []

/-- The calls, in any order and by any thread. -/
inductive DlCall
  | create (g : Group) (aliases : List DlAlias) (namespaceName : Option (List UInt8))
  | destroy (context : Nat)
  | dlopen (thread : Option Nat) (context : Nat) (locks : Bool) (name : Option (List UInt8)) (flags : BitVec 32)
      (extension : BitVec 64) (namespaceHandle : Nat)
  | dlclose (thread : Option Nat) (context : Nat) (locks : Bool) (handle : Nat)
  | dlsym (thread : Option Nat) (context : Nat) (locks : Bool) (handle : Nat) (name version : Option (List UInt8))
      (caller : Nat)
  | dlerror (thread : Nat)

namespace Loaders

/-- The context, if it is there. -/
def context (w : Loaders) (k : Nat) : Option Dlfcn := (w.contexts[k]?).join

/-- A call of a thread fails. -/
def fails (w : Loaders) (thread : Option Nat) (f : Failure) : Loaders :=
  { w with
    errors := fun t => if thread = some t then .fail f.text else w.errors t
    history := .failed thread f :: w.history }

/-- A context becomes another, and something has happened. -/
def becomes (w : Loaders) (k : Nat) (d : Dlfcn) (e : DlEvent) : Loaders :=
  { w with contexts := w.contexts.set k (some d), history := e :: w.history }

/-- What a call leads to, if its context is there. -/
def perform (w : Loaders) : DlCall → Option Loaders
  | .create g aliases namespaceName =>
    match Dlfcn.create g aliases namespaceName w.next with
    | (.ok d, next) => some { w with
        next, contexts := w.contexts ++ [some d], history := .created w.contexts.length d.identity :: w.history }
    | (.error (.error e), next) => some { w with next, history := .refused e :: w.history }
    | (.error .wrong, _) => none
  | .destroy k => (w.context k).map fun _ =>
      { w with contexts := w.contexts.set k none, history := .destroyed k :: w.history }
  | .dlopen thread k locks name flags extension namespaceHandle => (w.context k).map fun d =>
      match d.dlopen locks name flags extension namespaceHandle with
      | (.ok handle, d) => w.becomes k d (.opened k handle)
      | (.error f, _) => w.fails thread f
  | .dlclose thread k locks handle => (w.context k).map fun d =>
      match d.dlclose locks handle with
      | (.ok (), d) => w.becomes k d (.closed k handle)
      | (.error f, _) => w.fails thread f
  | .dlsym thread k locks handle name version caller => (w.context k).bind fun d =>
      match d.dlsym locks handle name version caller with
      | .ok _ => some w
      | .error (.error f) => some (w.fails thread f)
      | .error .wrong => none
  | .dlerror thread => some { w with
      errors := fun t => if thread = t then (w.errors t).report.2 else w.errors t
      history := .reported thread :: w.history }

/-- The runs of a process. -/
def machine : Machine Loaders where
  init w := w = {}
  step w w' := ∃ call, w.perform call = some w'

end Loaders

end Artbox.Linker
