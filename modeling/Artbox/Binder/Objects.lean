import Artbox.Lib.Slots
import Artbox.Binder.State

/-!
# Nodes, references, claims and death subscriptions

The object half of `core/src/binder_device.cpp`, function by function: lookups,
`node_usage` and `collect_nodes`, handle allocation, claims held by receive
buffers, the reference, acknowledgement and death commands, and the translation of
flat objects from `reserve_payload`.

A pointer into a table is represented by the key it was found under: a reference by
endpoint and handle, a node by id. Both are unique (`Artbox.Binder.Accounting`), so
writing through the pointer is rewriting the record with that key.
-/

namespace Artbox.Binder

open Bytes Slots

namespace Objects

/-! ## Lookups -/

/-- `reference_for`. -/
def referenceFor (o : Objects) (endpoint handle : Nat) : Option Reference :=
  o.references.find? fun r => r.endpoint == endpoint && r.handle == handle

/-- `node_for`. -/
def nodeFor (o : Objects) (id : Nat) : Option Node :=
  o.nodes.find? fun n => id != 0 && n.id == id

/-- `owned_node`. -/
def ownedNode (o : Objects) (owner pointer : Nat) : Option Node :=
  o.nodes.find? fun n => n.id != 0 && !n.dead && n.owner == owner && n.pointer == pointer

/-- Write through a `Reference *`. -/
def setReference (o : Objects) (ref : Reference) : Objects :=
  { o with
    references := update (fun r => r.endpoint == ref.endpoint && r.handle == ref.handle)
      (fun _ => ref) o.references }

/-- Write through a `Node *`. -/
def setNode (o : Objects) (node : Node) : Objects :=
  { o with nodes := update (fun n => n.id == node.id) (fun _ => node) o.nodes }

/-! ## Nodes -/

/-- `create_node`. -/
def createNode (o : Objects) (owner pointer cookie flags : Nat) (tid : Int) (manager : Bool) :
    Option (Node × Objects) :=
  if o.nextNode = 0 then none
  else
    let node : Node :=
      { id := o.nextNode, owner, pointer, cookie, flags, notificationTid := tid, manager
        hasStrong := manager, hasWeak := manager }
    (insertFree packetLimit (fun n => n.id == 0) node o.nodes).map fun nodes =>
      (node, { o with nodes, nextNode := succ64 o.nextNode })

/-- The strong half of `node_usage`. -/
def strongUse (o : Objects) (node : Node) : Bool :=
  (node.manager && !node.dead) || node.pendingStrong ||
    o.references.any (fun r => r.endpoint != 0 && r.node == node.id &&
      (r.strong != 0 || r.temporaryStrong != 0)) ||
    o.claims.any (fun c => c.endpoint != 0 && c.node == node.id && !c.remote)

/-- The weak half of `node_usage`. -/
def weakUse (o : Objects) (node : Node) : Bool :=
  node.pendingWeak ||
    o.references.any (fun r => r.endpoint != 0 && r.node == node.id) || o.strongUse node

/-- `collect_nodes`. -/
def collectNodes (o : Objects) : Objects :=
  { o with
    nodes := update
      (fun n => n.id != 0 && !n.hasStrong && !n.hasWeak && !o.strongUse n && !o.weakUse n)
      (fun _ => {}) o.nodes }

/-! ## References -/

/-- The `while` of `ensure_reference`: the first handle from `handle` on that the
endpoint does not use. Each round passes a used handle, so more rounds than there
are references are never taken. -/
def freeHandle (o : Objects) (endpoint : Nat) : (rounds handle : Nat) → Option Nat
  | 0, _ => none
  | rounds + 1, handle =>
    if (o.referenceFor endpoint handle).isNone then some handle
    else if handle = uint32Max then none
    else o.freeHandle endpoint rounds (handle + 1)

/-- `ensure_reference`. -/
def ensureReference (o : Objects) (endpoint : Nat) (node : Node) :
    Option (Reference × Objects) :=
  match o.references.find? (fun r => r.endpoint == endpoint && r.node == node.id) with
  | some ref => some (ref, o)
  | none =>
    match o.freeHandle endpoint (o.references.length + 1)
        (if node.id = o.managerNode then 0 else 1) with
    | none => none
    | some handle =>
      let ref : Reference := { endpoint, owner := node.owner, node := node.id, handle }
      (insertFree packetLimit (fun r => r.endpoint == 0) ref o.references).map fun references =>
        (ref, { o with references })

/-- `drop_reference`. -/
def dropReference (o : Objects) (ref : Reference) : Objects :=
  { o with
    references := update (fun r => r.endpoint == ref.endpoint && r.handle == ref.handle)
      (fun _ => {}) o.references
    deaths := if ref.death = 0 then o.deaths else o.deaths.set (ref.death - 1) {} }

/-- Drop a reference nothing counts any more. -/
def dropIfUnused (o : Objects) (ref : Reference) : Objects :=
  if ref.strong = 0 ∧ ref.weak = 0 ∧ ref.temporaryStrong = 0 then o.dropReference ref else o

/-- The counting half of `reference_command`. -/
def adjustReference (o : Objects) (ref : Reference) (increment strong : Bool) : Int × Objects :=
  let count := if strong then ref.strong else ref.weak
  if increment ∧ count = uint32Max then (-12, o)
  else
    let count := if increment then count + 1 else count - 1
    let ref := if strong then { ref with strong := count } else { ref with weak := count }
    (0, ((o.setReference ref).dropIfUnused ref).collectNodes)

/-- `reference_command` behind its guest read; `manager` is the device's. -/
def referenceCommand (o : Objects) (manager endpoint handle : Nat) (increment strong : Bool) :
    Int × Objects :=
  if increment ∧ handle = 0 ∧ manager ≠ 0 then
    if manager = endpoint then (-22, o)
    else
      match o.nodeFor o.managerNode with
      | none => (-5, o)
      | some node =>
        match o.ensureReference endpoint node with
        | none => (-12, o)
        | some (ref, o) => o.adjustReference ref increment strong
  else
    match o.referenceFor endpoint handle with
    | none => (0, o)
    | some ref => o.adjustReference ref increment strong

/-- The node named by `node_done_command`, if its cookie matches. -/
def doneNode (o : Objects) (endpoint pointer cookie : Nat) : Option Node :=
  (o.ownedNode endpoint pointer).filter fun n => n.cookie == cookie

/-- `node_done_command` on the node found; `increfs` tells `BC_INCREFS_DONE` from
`BC_ACQUIRE_DONE`. An acknowledgement of `INCREFS` may precede the delivery of
`ACQUIRE`; the initial callback then stays on the exporting thread. -/
def nodeDone (o : Objects) (node : Node) (increfs : Bool) : Objects :=
  let node := if increfs then { node with pendingWeak := false }
    else { node with pendingStrong := false }
  let o := o.setNode node
  let settled := !node.pendingWeak && !node.pendingStrong &&
    !(o.strongUse node && !node.hasStrong) && !(o.weakUse node && !node.hasWeak)
  (if settled then o.setNode { node with notificationTid := 0 } else o).collectNodes

/-! ## Claims -/

/-- `add_claim`: the handle the claim carries, or nothing for `-12`. -/
def addClaim (o : Objects) (target buffer : Nat) (node : Node) (remote : Bool) :
    Option Nat × Objects :=
  if o.claims.length = claimLimit ∧ o.claims.all (fun c => c.endpoint != 0) then (none, o)
  else if remote then
    match o.ensureReference target node with
    | none => (none, o)
    | some (ref, o) =>
      if ref.temporaryStrong = uint32Max then (none, o)
      else
        let o := o.setReference { ref with temporaryStrong := ref.temporaryStrong + 1 }
        match insertFree claimLimit (fun c => c.endpoint == 0)
            { endpoint := target, buffer, node := node.id, handle := ref.handle, remote }
            o.claims with
        | none => (none, o)
        | some claims => (some ref.handle, { o with claims })
  else
    match insertFree claimLimit (fun c => c.endpoint == 0)
        { endpoint := target, buffer, node := node.id, handle := 0, remote } o.claims with
    | none => (none, o)
    | some claims => (some 0, { o with claims })

/-- The part of the `release_claims` loop that gives a remote claim's hold back. -/
def releaseHold (o : Objects) (claim : Claim) : Objects :=
  if claim.remote then
    match o.referenceFor claim.endpoint claim.handle with
    | none => o
    | some ref =>
      if ref.node = claim.node then
        let ref := { ref with temporaryStrong := ref.temporaryStrong - 1 }
        (o.setReference ref).dropIfUnused ref
      else o
  else o

/-- Whether `release_claims` means this claim; buffer `0` means every buffer. -/
def claimMatches (endpoint buffer : Nat) (claim : Claim) : Bool :=
  claim.endpoint == endpoint && (buffer == 0 || claim.buffer == buffer)

/-- `release_claims`: the loop gives the holds back one by one, then the claims are
blank and the nodes collected. The loop body never reads the claim table, so the
claims may be blanked behind it. -/
def releaseClaims (o : Objects) (endpoint : Nat) (buffer : Nat := 0) : Objects :=
  let held := (o.claims.filter (claimMatches endpoint buffer)).foldl releaseHold o
  collectNodes { held with claims := update (claimMatches endpoint buffer) (fun _ => {}) o.claims }

/-! ## Teardown of an endpoint -/

/-- `release_references`. -/
def releaseReferences (o : Objects) (token : Nat) : Objects :=
  let dropped := (o.references.filter fun r => r.endpoint == token).foldl dropReference o
  collectNodes { dropped with
    deaths := dropped.deaths.map fun d =>
      if d.endpoint = token then {}
      else if d.endpoint ≠ 0 ∧ d.owner = token ∧ d.state = .armed then
        { d with state := .deathQueued }
      else d
    nodes := update (fun n => n.id != 0 && n.owner == token)
      (fun n => { n with
        dead := true, hasStrong := false, hasWeak := false
        pendingStrong := false, pendingWeak := false }) dropped.nodes }

/-! ## Translation -/

/-- The node a sent object names: the sender's own node for a `BINDER`, created on
first use, or the node behind a strongly held handle. -/
def resolveObject (o : Objects) (source : Nat) (tid : Int) (data : List UInt8) (offset : Nat) :
    Except Int (Node × Objects) :=
  if read32 data offset = ObjectType.binder.word then
    match o.ownedNode source (read64 data (offset + 8)) with
    | some node => if node.cookie ≠ read64 data (offset + 16) then .error (-22) else .ok (node, o)
    | none =>
      match o.createNode source (read64 data (offset + 8)) (read64 data (offset + 16))
          (read32 data (offset + 4)) tid false with
      | none => .error (-12)
      | some (node, o) => .ok (node, o)
  else
    match (o.referenceFor source (read32 data (offset + 8))).filter
        (fun ref => ref.strong != 0 || ref.temporaryStrong != 0) with
    | none => .error (-22)
    | some ref =>
      match o.nodeFor ref.node with
      | none => .error (-22)
      | some node => .ok (node, o)

/-- The three writes into a translated object. -/
def writeObject (data : List UInt8) (offset : Nat) (node : Node) (remote : Bool) (handle : Nat) :
    List UInt8 :=
  let type := if remote then ObjectType.handle.word else ObjectType.binder.word
  let data := splice data offset (writeLE 4 type)
  let data := splice data (offset + 8) (writeLE 8 (if remote then handle else node.pointer))
  splice data (offset + 16) (writeLE 8 (if remote then 0 else node.cookie))

/-- The outcome of the object loop: `result`, the tables, the edited snapshot and
the nodes translated so far. -/
structure Translation where
  result : Int
  objects : Objects
  data : List UInt8
  nodes : List Node

/-- The object loop of `reserve_payload`. -/
def translate (source : Nat) (tid : Int) (target buffer : Nat) :
    List Nat → Objects → List UInt8 → Translation
  | [], o, data => ⟨0, o, data, []⟩
  | offset :: rest, o, data =>
    match o.resolveObject source tid data offset with
    | .error r => ⟨r, o, data, []⟩
    | .ok (node, o) =>
      let remote := node.owner != target
      match o.addClaim target buffer node remote with
      | (none, o) => ⟨-12, o, data, []⟩
      | (some handle, o) =>
        let t := translate source tid target buffer rest o
          (writeObject data offset node remote handle)
        { t with nodes := node :: t.nodes }

/-! ## Death subscriptions -/

/-- `queue_clear`. -/
def queueClear (death : Death) (thread : Thread) : Death :=
  { death with
    state := .clearQueued
    tid := if thread.looper.entered || thread.looper.registered then thread.tid else 0 }

/-- The `BC_REQUEST_DEATH_NOTIFICATION` arm of `death_command`: the slot taken, if
one was. `ownerAlive` is whether the owner's endpoint exists. -/
def requestDeath (o : Objects) (ref : Reference) (cookie : Nat) (ownerAlive : Bool) :
    Int × Option Nat × Objects :=
  if ref.death ≠ 0 then (0, none, o)
  else
    let death : Death :=
      { endpoint := ref.endpoint, owner := ref.owner, cookie
        state := if ownerAlive then .armed else .deathQueued }
    match insertFree packetLimit (fun d => d.endpoint == 0) death o.deaths with
    | none => (-12, none, o)
    | some deaths =>
      let slot := (o.deaths.findIdx? fun d => d.endpoint == 0).getD o.deaths.length
      (0, some slot, { o with deaths }.setReference { ref with death := slot + 1 })

/-- The `BC_CLEAR_DEATH_NOTIFICATION` arm of `death_command`. -/
def clearDeath (o : Objects) (ref : Reference) (cookie : Nat) (thread : Thread) :
    Option Nat × Objects :=
  if ref.death = 0 then (none, o)
  else
    match o.deaths[ref.death - 1]? with
    | none => (none, o)
    | some death =>
      if death.cookie ≠ cookie then (none, o)
      else
        let death := { death with clearing := true }
        let death :=
          if death.state = .armed ∨ death.state = .deathAcknowledged then queueClear death thread
          else death
        (some (ref.death - 1), { o with deaths := o.deaths.set (ref.death - 1) death }.setReference
          { ref with death := 0 })

/-- The `BC_DEAD_BINDER_DONE` arm of `death_command`. -/
def doneDeath (o : Objects) (endpoint cookie : Nat) (thread : Thread) : Option Nat × Objects :=
  match o.deaths.findIdx? fun d =>
      d.endpoint == endpoint && d.cookie == cookie && d.state == .deathDelivered with
  | none => (none, o)
  | some slot =>
    match o.deaths[slot]? with
    | none => (none, o)
    | some death =>
      let death := if death.clearing then queueClear death thread
        else { death with state := .deathAcknowledged }
      (some slot, { o with deaths := o.deaths.set slot death })

end Objects

end Artbox.Binder
