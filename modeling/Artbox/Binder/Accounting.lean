import Artbox.Binder.Identity
import Mathlib.Data.List.Find

/-!
# The object tables add up

References, claims and nodes of one device agree (`Objects.Inv`): an endpoint has one
handle for each foreign node it refers to, a reference is held as often as claims say,
and the nodes in use are the occupied ones. The loops that give claims back one by one
are covered by stating the agreement against any list of claims still counted
(`Objects.Tables`), and every write to the reference table is one `Objects.Writes`.
-/

namespace Artbox.Binder

open Slots

/-! ## What agrees -/

/-- A claim that holds the reference of `(k, n)`. -/
def Claim.holds (k n : Nat) (c : Claim) : Bool := c.endpoint == k && c.node == n && c.remote

/-- Something counts the reference. -/
def Reference.Counted (r : Reference) : Prop :=
  ¬ (r.strong = 0 ∧ r.weak = 0 ∧ r.temporaryStrong = 0)

/-- The same endpoint and handle. -/
def Reference.SameKey (r ref : Reference) : Prop := r.endpoint = ref.endpoint ∧ r.handle = ref.handle

/-- The nodes agree in identity and in what their owner was told. -/
structure Node.Like (n n' : Node) : Prop where
  id : n'.id = n.id
  owner : n'.owner = n.owner
  pointer : n'.pointer = n.pointer
  cookie : n'.cookie = n.cookie
  manager : n'.manager = n.manager
  dead : n'.dead = n.dead
  hasStrong : n'.hasStrong = n.hasStrong
  hasWeak : n'.hasWeak = n.hasWeak
  pendingStrong : n'.pendingStrong = n.pendingStrong
  pendingWeak : n'.pendingWeak = n.pendingWeak

/-- The nodes differ at most in the thread that is told. -/
structure Node.Same (n n' : Node) : Prop extends n.Like n' where
  asyncBuffer : n'.asyncBuffer = n.asyncBuffer

theorem Node.Like.refl (n : Node) : n.Like n := ⟨rfl, rfl, rfl, rfl, rfl, rfl, rfl, rfl, rfl, rfl⟩

theorem Node.Like.trans {n n' n'' : Node} (h : n.Like n') (h' : n'.Like n'') : n.Like n'' :=
  ⟨h'.id.trans h.id, h'.owner.trans h.owner, h'.pointer.trans h.pointer, h'.cookie.trans h.cookie,
    h'.manager.trans h.manager, h'.dead.trans h.dead, h'.hasStrong.trans h.hasStrong,
    h'.hasWeak.trans h.hasWeak, h'.pendingStrong.trans h.pendingStrong,
    h'.pendingWeak.trans h.pendingWeak⟩

theorem Node.Same.refl (n : Node) : n.Same n := ⟨.refl n, rfl⟩

theorem Node.Same.trans {n n' n'' : Node} (h : n.Same n') (h' : n'.Same n'') : n.Same n'' :=
  ⟨h.toLike.trans h'.toLike, h'.asyncBuffer.trans h.asyncBuffer⟩

/-- A node nobody was told of; the manager's is taken to be held. -/
structure Node.Fresh (n : Node) : Prop where
  asyncBuffer : n.asyncBuffer = 0
  dead : n.dead = false
  hasStrong : n.hasStrong = n.manager
  hasWeak : n.hasWeak = n.manager
  pendingStrong : n.pendingStrong = false
  pendingWeak : n.pendingWeak = false

/-- A node that differs only in the thread that is told is still fresh. -/
theorem Node.Fresh.same {n n' : Node} (h : n.Fresh) (hs : n.Same n') : n'.Fresh :=
  ⟨hs.asyncBuffer.trans h.asyncBuffer, hs.dead.trans h.dead, hs.hasStrong.trans (h.hasStrong.trans hs.manager.symm),
    hs.hasWeak.trans (h.hasWeak.trans hs.manager.symm), hs.pendingStrong.trans h.pendingStrong,
    hs.pendingWeak.trans h.pendingWeak⟩

namespace Objects

/-- References are unique, counted, and held as often as `claims` say. -/
structure Tables (o : Objects) (claims : List Claim) : Prop where
  handles : Unique (fun r : Reference => r.endpoint ≠ 0) (fun r => (r.endpoint, r.handle)) o.references
  targets : Unique (fun r : Reference => r.endpoint ≠ 0) (fun r => (r.endpoint, r.node)) o.references
  small : ∀ r ∈ o.references, r.endpoint ≠ 0 → r.handle < 2 ^ 32
  counted : ∀ r ∈ o.references, r.endpoint ≠ 0 → r.Counted
  held : ∀ r ∈ o.references, r.endpoint ≠ 0 →
    r.temporaryStrong = claims.countP (·.holds r.endpoint r.node)
  covered : ∀ c ∈ claims, c.endpoint ≠ 0 → c.remote = true → ∃ r ∈ o.references,
    r.endpoint = c.endpoint ∧ r.node = c.node ∧ r.handle = c.handle

/-- The node is announced to its owner or used. -/
def inUse (o : Objects) (n : Node) : Bool :=
  n.hasStrong || n.hasWeak || o.strongUse n || o.weakUse n

/-- Nodes are unique, and references and `claims` name them. -/
structure Nodes (o : Objects) (claims : List Claim) : Prop where
  ids : Unique (fun n : Node => n.id ≠ 0) (·.id) o.nodes
  issued : ∀ n ∈ o.nodes, n.id ≠ 0 → Issued o.nextNode n.id
  bounded : o.nextNode < 2 ^ 64
  blank : ∀ n ∈ o.nodes, n.id = 0 → n = {}
  referred : ∀ r ∈ o.references, r.endpoint ≠ 0 → ∃ n, o.nodeFor r.node = some n ∧
    n.owner ≠ r.endpoint
  claimed : ∀ c ∈ claims, c.endpoint ≠ 0 → ∃ n, o.nodeFor c.node = some n ∧
    (c.remote = true ↔ n.owner ≠ c.endpoint)

/-- The tables agree. -/
structure Sound (o : Objects) : Prop where
  tables : o.Tables o.claims
  nodes : o.Nodes o.claims
  room : o.claims.length ≤ claimLimit

/-- The tables agree, and all occupied nodes are in use. -/
structure Inv (o : Objects) : Prop extends o.Sound where
  collected : ∀ n ∈ o.nodes, n.id ≠ 0 → o.inUse n = true

/-- The nodes of `o'` are nodes of `o` edited by `g`, or are new; the manager's stays. -/
structure KeptBy (g : Node → Node) (o o' : Objects) : Prop where
  next : ∀ id, Issued o.nextNode id → Issued o'.nextNode id
  nodes : ∀ id n', o'.nodeFor id = some n' → (∃ n, o.nodeFor id = some n ∧ (g n).Same n') ∨
    (¬ Issued o.nextNode id ∧ n'.Fresh ∧ n'.manager = false)
  stays : ∀ id n, o.nodeFor id = some n → (g n).manager = true → (g n).dead = false →
    ∃ n', o'.nodeFor id = some n' ∧ (g n).Same n'

/-- The nodes of `o'` were nodes of `o`, or are new. -/
abbrev Kept (o o' : Objects) : Prop := KeptBy id o o'

/-- Every reference of `o` is one of `o'`. -/
def Grows (o o' : Objects) : Prop :=
  ∀ r ∈ o.references, r.endpoint ≠ 0 → ∃ r' ∈ o'.references, r'.SameKey r ∧ r'.node = r.node

theorem Kept.of_nodes {o o' : Objects} (hn : o'.nodes = o.nodes) (hnext : o'.nextNode = o.nextNode) :
    Kept o o' :=
  ⟨fun _ h => hnext ▸ h, fun id n' hn' => .inl ⟨n', by rwa [nodeFor, hn] at hn', .refl n'⟩,
    fun id n h _ _ => ⟨n, by rwa [nodeFor, hn], .refl n⟩⟩

theorem KeptBy.trans {g : Node → Node} {o o' o'' : Objects} (h : KeptBy g o o') (h' : Kept o' o'') :
    KeptBy g o o'' := by
  refine ⟨fun id hi => h'.next id (h.next id hi), fun id n'' hn'' => ?_, fun id n hn hm hd => ?_⟩
  · rcases h'.nodes id n'' hn'' with ⟨n', hn', hs'⟩ | ⟨hi, hf, hm⟩
    · rcases h.nodes id n' hn' with ⟨n, hn, hs⟩ | ⟨hi, hf, hm⟩
      · exact .inl ⟨n, hn, hs.trans hs'⟩
      · exact .inr ⟨hi, hf.same hs', hs'.manager.trans hm⟩
    · exact .inr ⟨fun hi' => hi (h.next id hi'), hf, hm⟩
  · obtain ⟨n', hn', hs⟩ := h.stays id n hn hm hd
    obtain ⟨n'', hn'', hs'⟩ := h'.stays id n' hn' (hs.manager.trans hm) (hs.dead.trans hd)
    exact ⟨n'', hn'', hs.trans hs'⟩

/-- New nodes, then an edit that does not concern them. -/
theorem Kept.edit {g : Node → Node} {o o' o'' : Objects} (h : Kept o o') (h' : KeptBy g o' o'')
    (hg : ∀ n, ¬ Issued o.nextNode n.id → g n = n) (hs : ∀ n n', n.Same n' → (g n).Same (g n'))
    (hl : ∀ n : Node, n.Like (g n)) : KeptBy g o o'' := by
  refine ⟨fun id hi => h'.next id (h.next id hi), fun id n'' hn'' => ?_, fun id n hn hm hd => ?_⟩
  · rcases h'.nodes id n'' hn'' with ⟨n', hn', hs'⟩ | ⟨hi, hf, hm⟩
    · rcases h.nodes id n' hn' with ⟨n, hn, hsame⟩ | ⟨hi, hf, hm⟩
      · exact .inl ⟨n, hn, (hs n n' hsame).trans hs'⟩
      · have hid : n'.id = id := by
          have := List.find?_some hn'
          simp only [Bool.and_eq_true, bne_iff_ne, beq_iff_eq] at this
          exact this.2
        rw [hg n' (hid ▸ hi)] at hs'
        exact .inr ⟨hi, hf.same hs', hs'.manager.trans hm⟩
    · exact .inr ⟨fun hi' => hi (h.next id hi'), hf, hm⟩
  · obtain ⟨n', hn', hsame⟩ := h.stays id n hn ((hl n).manager.symm.trans hm)
      ((hl n).dead.symm.trans hd)
    have hsame' := hs n n' hsame
    obtain ⟨n'', hn'', hs'⟩ := h'.stays id n' hn' (hsame'.manager.trans hm) (hsame'.dead.trans hd)
    exact ⟨n'', hn'', hsame'.trans hs'⟩

theorem Grows.refl (o : Objects) : Grows o o := fun r hr _ => ⟨r, hr, ⟨rfl, rfl⟩, rfl⟩

theorem Grows.trans {o o' o'' : Objects} (h : Grows o o') (h' : Grows o' o'') : Grows o o'' := by
  intro r hr h0
  obtain ⟨r', hr', hk, hn⟩ := h r hr h0
  obtain ⟨r'', hr'', hk', hn'⟩ := h' r' hr' (hk.1 ▸ h0)
  exact ⟨r'', hr'', ⟨hk'.1.trans hk.1, hk'.2.trans hk.2⟩, hn'.trans hn⟩

/-! ## Lookups -/

section Lookups

variable {o o' : Objects} {claims : List Claim}

/-- A node that is found has the id, which is not zero. -/
theorem nodeFor_spec {id : Nat} {n : Node} (h : o.nodeFor id = some n) :
    n ∈ o.nodes ∧ n.id = id ∧ id ≠ 0 := by
  have hq := List.find?_some h
  simp only [Bool.and_eq_true, bne_iff_ne, beq_iff_eq] at hq
  exact ⟨List.mem_of_find?_eq_some h, hq.2, hq.1⟩

theorem nodeFor_congr (h : o'.nodes = o.nodes) (id : Nat) : o'.nodeFor id = o.nodeFor id := by
  rw [nodeFor, nodeFor, h]

/-- Every occupied node is found by its id. -/
theorem Nodes.nodeFor (h : o.Nodes claims) {n : Node} (hn : n ∈ o.nodes) (h0 : n.id ≠ 0) :
    o.nodeFor n.id = some n :=
  h.ids.find? hn h0 fun x => by
    simp only [Bool.and_eq_true, bne_iff_ne, beq_iff_eq]
    exact ⟨fun hx => ⟨hx.2 ▸ h0, hx.2⟩, fun hx => ⟨h0, hx.2⟩⟩

/-- A node found for its owner is alive and carries the owner's pointer. -/
theorem ownedNode_spec {owner pointer : Nat} {n : Node} (h : o.ownedNode owner pointer = some n) :
    n ∈ o.nodes ∧ n.id ≠ 0 ∧ n.dead = false ∧ n.owner = owner ∧ n.pointer = pointer := by
  have hq := List.find?_some h
  simp only [Bool.and_eq_true, bne_iff_ne, beq_iff_eq, Bool.not_eq_true'] at hq
  exact ⟨List.mem_of_find?_eq_some h, hq.1.1.1, hq.1.1.2, hq.1.2, hq.2⟩

/-- A reference that is found is the endpoint's under this handle. -/
theorem referenceFor_spec {k handle : Nat} {r : Reference} (h : o.referenceFor k handle = some r) :
    r ∈ o.references ∧ r.endpoint = k ∧ r.handle = handle := by
  have hq := List.find?_some h
  simp only [Bool.and_eq_true, beq_iff_eq] at hq
  exact ⟨List.mem_of_find?_eq_some h, hq.1, hq.2⟩

/-- Every occupied reference is found by its endpoint and handle. -/
theorem Tables.referenceFor (h : o.Tables claims) {r : Reference} (hr : r ∈ o.references)
    (h0 : r.endpoint ≠ 0) : o.referenceFor r.endpoint r.handle = some r :=
  h.handles.find? hr h0 fun x => by
    simp only [Bool.and_eq_true, beq_iff_eq, Prod.mk.injEq]
    exact ⟨fun hx => ⟨hx.1 ▸ h0, hx⟩, fun hx => hx.2⟩

/-- Uses are read off references and claims. -/
theorem strongUse_congr (hr : o'.references = o.references) (hc : o'.claims = o.claims) (n : Node) :
    o'.strongUse n = o.strongUse n := by
  rw [strongUse, strongUse, hr, hc]

/-- Weak use depends on the references and the claims alone. -/
theorem weakUse_congr (hr : o'.references = o.references) (hc : o'.claims = o.claims) (n : Node) :
    o'.weakUse n = o.weakUse n := by
  rw [weakUse, weakUse, hr, strongUse_congr hr hc]

/-- Whether a node is in use depends on the references and the claims alone. -/
theorem inUse_congr (hr : o'.references = o.references) (hc : o'.claims = o.claims) (n : Node) :
    o'.inUse n = o.inUse n := by
  rw [inUse, inUse, strongUse_congr hr hc, weakUse_congr hr hc]

/-- A live manager's node is in use. -/
theorem inUse_of_manager {n : Node} (hm : n.manager = true) (hd : n.dead = false) :
    o.inUse n = true := by
  simp [inUse, strongUse, hm, hd]

/-- A referenced node is in use. -/
theorem inUse_of_reference {n : Node} {r : Reference} (hr : r ∈ o.references) (h0 : r.endpoint ≠ 0)
    (hn : r.node = n.id) : o.inUse n = true := by
  have hany : o.references.any (fun r => r.endpoint != 0 && r.node == n.id) = true :=
    List.any_eq_true.2 ⟨r, hr, by simp [h0, hn]⟩
  simp [inUse, weakUse, hany]

/-- A node with a claim of its owner is in use. -/
theorem inUse_of_claim {n : Node} {c : Claim} (hc : c ∈ o.claims) (h0 : c.endpoint ≠ 0)
    (hn : c.node = n.id) (hr : c.remote = false) : o.inUse n = true := by
  have hany : o.claims.any (fun c => c.endpoint != 0 && c.node == n.id && !c.remote) = true :=
    List.any_eq_true.2 ⟨c, hc, by simp [h0, hn, hr]⟩
  simp [inUse, strongUse, hany]

end Lookups

/-! ## Collection -/

section Collect

variable {o : Objects} {claims : List Claim}

@[simp] theorem collectNodes_references : o.collectNodes.references = o.references := rfl
@[simp] theorem collectNodes_claims : o.collectNodes.claims = o.claims := rfl
@[simp] theorem collectNodes_nextNode : o.collectNodes.nextNode = o.nextNode := rfl
@[simp] theorem collectNodes_managerNode : o.collectNodes.managerNode = o.managerNode := rfl

/-- The collection keeps exactly the nodes in use. -/
theorem mem_collectNodes {n : Node} (h0 : n.id ≠ 0) :
    n ∈ o.collectNodes.nodes ↔ n ∈ o.nodes ∧ o.inUse n = true := by
  have hunused : (n.id != 0 && !n.hasStrong && !n.hasWeak && !o.strongUse n && !o.weakUse n) =
      !o.inUse n := by
    simp [inUse, h0, Bool.not_or, Bool.and_assoc]
  simp only [collectNodes, mem_update_const, hunused, Bool.not_eq_false']
  refine or_iff_right ?_
  rintro ⟨rfl, _⟩
  exact h0 rfl

/-- A node is found behind the collection if it was found before and is in use. -/
theorem Nodes.nodeFor_collectNodes (h : o.Nodes claims) (id : Nat) :
    o.collectNodes.nodeFor id = (o.nodeFor id).filter o.inUse := by
  have hids : Unique (fun n : Node => n.id ≠ 0) (·.id) o.collectNodes.nodes := h.ids.clear (by simp)
  have hfind : ∀ n, o.collectNodes.nodeFor id = some n ↔ o.nodeFor id = some n ∧ o.inUse n = true := by
    intro n
    constructor
    · intro hn
      obtain ⟨hmem, rfl, h0⟩ := nodeFor_spec hn
      obtain ⟨hmem, hu⟩ := (mem_collectNodes h0).1 hmem
      exact ⟨h.nodeFor hmem h0, hu⟩
    · rintro ⟨hn, hu⟩
      obtain ⟨hmem, rfl, h0⟩ := nodeFor_spec hn
      refine hids.find? ((mem_collectNodes h0).2 ⟨hmem, hu⟩) h0 fun x => ?_
      simp only [Bool.and_eq_true, bne_iff_ne, beq_iff_eq]
      exact ⟨fun hx => ⟨hx.2 ▸ h0, hx.2⟩, fun hx => ⟨h0, hx.2⟩⟩
  ext n
  rw [hfind, Option.filter_eq_some_iff]

/-- Collection keeps what references and claims name. -/
theorem Nodes.collectNodes (h : o.Nodes claims) (ht : o.Tables claims)
    (hc : ∀ c ∈ claims, c ∈ o.claims) : o.collectNodes.Nodes claims := by
  refine ⟨h.ids.clear (by simp), fun n hn h0 => ?_, h.bounded, fun n hn h0 => ?_, fun r hr h0 => ?_,
    fun c hmem h0 => ?_⟩
  · exact h.issued n ((mem_collectNodes h0).1 hn).1 h0
  · rcases mem_update_const.1 hn with ⟨rfl, _⟩ | ⟨hn, _⟩
    · rfl
    · exact h.blank n hn h0
  · obtain ⟨n, hn, how⟩ := h.referred r hr h0
    refine ⟨n, ?_, how⟩
    have huse := inUse_of_reference (o := o) hr h0 (nodeFor_spec hn).2.1.symm
    rw [h.nodeFor_collectNodes, hn, Option.filter_some, if_pos huse]
  · obtain ⟨n, hn, how⟩ := h.claimed c hmem h0
    refine ⟨n, ?_, how⟩
    have hid := (nodeFor_spec hn).2.1.symm
    have huse : o.inUse n = true := by
      cases hrem : c.remote with
      | false => exact inUse_of_claim (hc c hmem) h0 hid hrem
      | true =>
        obtain ⟨r, hr, hre, hrn, _⟩ := ht.covered c hmem h0 hrem
        exact inUse_of_reference hr (hre ▸ h0) (hrn.trans hid)
    rw [h.nodeFor_collectNodes, hn, Option.filter_some, if_pos huse]

/-- After a collection all occupied nodes are in use. -/
theorem Sound.collect (h : o.Sound) : o.collectNodes.Inv :=
  ⟨⟨⟨h.tables.handles, h.tables.targets, h.tables.small, h.tables.counted, h.tables.held,
    h.tables.covered⟩, h.nodes.collectNodes h.tables fun _ hc => hc, h.room⟩, fun n hmem h0 => by
      have hsame : o.collectNodes.inUse n = o.inUse n := inUse_congr rfl rfl n
      rw [hsame]
      exact ((mem_collectNodes h0).1 hmem).2⟩

end Collect

/-! ## Writing a reference -/

/-- `o'` is `o` with the reference `ref` written to a slot of its own, or dropped if
nothing counts it. -/
structure Writes (o o' : Objects) (ref : Reference) : Prop where
  live : ref.endpoint ≠ 0
  small : ref.handle < 2 ^ 32
  handles : Unique (fun r : Reference => r.endpoint ≠ 0) (fun r => (r.endpoint, r.handle)) o'.references
  targets : Unique (fun r : Reference => r.endpoint ≠ 0) (fun r => (r.endpoint, r.node)) o'.references
  mem : ∀ r : Reference, r.endpoint ≠ 0 →
    (r ∈ o'.references ↔ (r = ref ∧ ref.Counted) ∨ (r ∈ o.references ∧ ¬ r.SameKey ref))
  same : ∀ r ∈ o.references, r.endpoint = ref.endpoint → (r.handle = ref.handle ↔ r.node = ref.node)

section Write

variable {o o' : Objects} {claims claims' : List Claim} {ref r : Reference}

/-- The tables after a write: the claims of the written reference, if they changed, are
the ones it counts now. -/
theorem Tables.write (h : o.Tables claims) (hw : Writes o o' ref)
    (hheld : ref.Counted → ref.temporaryStrong = claims'.countP (·.holds ref.endpoint ref.node))
    (hother : ∀ k n, k ≠ 0 → ¬ (k = ref.endpoint ∧ n = ref.node) →
      claims'.countP (·.holds k n) = claims.countP (·.holds k n))
    (hmem : ∀ c ∈ claims', c.endpoint ≠ 0 → c.remote = true → c ∈ claims ∨
      (c.endpoint = ref.endpoint ∧ c.node = ref.node ∧ c.handle = ref.handle))
    (hneed : ∀ c ∈ claims', c.holds ref.endpoint ref.node = true → ref.Counted) : o'.Tables claims' := by
  refine ⟨hw.handles, hw.targets, fun r hr h0 => ?_, fun r hr h0 => ?_, fun r hr h0 => ?_,
    fun c hc h0 hrem => ?_⟩
  · rcases (hw.mem r h0).1 hr with ⟨rfl, _⟩ | ⟨hr, _⟩
    · exact hw.small
    · exact h.small r hr h0
  · rcases (hw.mem r h0).1 hr with ⟨rfl, hcnt⟩ | ⟨hr, _⟩
    · exact hcnt
    · exact h.counted r hr h0
  · rcases (hw.mem r h0).1 hr with ⟨rfl, hcnt⟩ | ⟨hr, hne⟩
    · exact hheld hcnt
    · rw [h.held r hr h0, hother _ _ h0]
      rintro ⟨he, hn⟩
      exact hne ⟨he, (hw.same r hr he).2 hn⟩
  · have hcase : (c.endpoint = ref.endpoint ∧ c.node = ref.node ∧ c.handle = ref.handle) ∨
        ∃ r ∈ o.references, ¬ r.SameKey ref ∧ r.endpoint = c.endpoint ∧ r.node = c.node ∧
          r.handle = c.handle := by
      rcases hmem c hc h0 hrem with hc | hc
      · obtain ⟨r, hr, hre, hrn, hrh⟩ := h.covered c hc h0 hrem
        by_cases hk : r.SameKey ref
        · exact .inl ⟨hre.symm.trans hk.1, hrn.symm.trans ((hw.same r hr hk.1).1 hk.2),
            hrh.symm.trans hk.2⟩
        · exact .inr ⟨r, hr, hk, hre, hrn, hrh⟩
      · exact .inl hc
    rcases hcase with ⟨he, hn, hh⟩ | ⟨r, hr, hk, hre, hrn, hrh⟩
    · have hcnt := hneed c hc (by simp [Claim.holds, he, hn, hrem])
      exact ⟨ref, (hw.mem ref hw.live).2 (.inl ⟨rfl, hcnt⟩), he.symm, hn.symm, hh.symm⟩
    · exact ⟨r, (hw.mem r (hre ▸ h0)).2 (.inr ⟨hr, hk⟩), hre, hrn, hrh⟩

/-- Writing a listed reference back, and dropping it if nothing counts it. -/
theorem writes_listed
    (hh : Unique (fun r : Reference => r.endpoint ≠ 0) (fun r => (r.endpoint, r.handle)) o.references)
    (ht : Unique (fun r : Reference => r.endpoint ≠ 0) (fun r => (r.endpoint, r.node)) o.references)
    (hr : r ∈ o.references) (h0 : r.endpoint ≠ 0) (hs : r.handle < 2 ^ 32) (hk : ref.SameKey r)
    (hn : ref.node = r.node) : Writes o ((o.setReference ref).dropIfUnused ref) ref := by
  have h0' : ref.endpoint ≠ 0 := hk.1 ▸ h0
  have hsame : ∀ x ∈ o.references, x.endpoint = ref.endpoint →
      (x.handle = ref.handle ↔ x.node = ref.node) := by
    intro x hx he
    have hxe : x.endpoint = r.endpoint := he.trans hk.1
    constructor
    · intro hxh
      rw [hh.eq_of_mem hx hr (hxe ▸ h0) h0 (Prod.ext hxe (hxh.trans hk.2)), hn]
    · intro hxn
      rw [ht.eq_of_mem hx hr (hxe ▸ h0) h0 (Prod.ext hxe (hxn.trans hn)), hk.2]
  have hkey : ∀ x : Reference, (x.endpoint == ref.endpoint && x.handle == ref.handle) = true ↔
      x.SameKey ref := fun x => by simp [Reference.SameKey]
  have hset1 : Unique (fun r : Reference => r.endpoint ≠ 0) (fun r => (r.endpoint, r.handle))
      (o.setReference ref).references := hh.update fun x _ hp _ => by
    obtain ⟨he, hxh⟩ := (hkey x).1 hp
    exact ⟨he ▸ h0', by rw [he, hxh]⟩
  have hset2 : Unique (fun r : Reference => r.endpoint ≠ 0) (fun r => (r.endpoint, r.node))
      (o.setReference ref).references := ht.update fun x hx hp _ => by
    obtain ⟨he, hxh⟩ := (hkey x).1 hp
    exact ⟨he ▸ h0', by rw [he, (hsame x hx he).1 hxh]⟩
  have hmem : ∀ x, x ∈ (o.setReference ref).references ↔
      x = ref ∨ (x ∈ o.references ∧ ¬ x.SameKey ref) := by
    intro x
    rw [setReference, mem_update_const, ← Bool.not_eq_true, hkey]
    refine or_congr_left (and_iff_left ⟨r, hr, (hkey r).2 ⟨hk.1.symm, hk.2.symm⟩⟩)
  rw [dropIfUnused]
  split
  next hun =>
    refine ⟨h0', hk.2 ▸ hs, hset1.clear (by simp), hset2.clear (by simp), fun x hx => ?_, hsame⟩
    rw [dropReference, mem_update_const, ← Bool.not_eq_true, hkey, hmem]
    constructor
    · rintro (⟨rfl, _⟩ | ⟨rfl | hx', hne⟩)
      · exact absurd rfl hx
      · exact absurd ⟨rfl, rfl⟩ hne
      · exact .inr hx'
    · rintro (⟨rfl, hcnt⟩ | ⟨hx', hne⟩)
      · exact absurd hun hcnt
      · exact .inr ⟨.inr ⟨hx', hne⟩, hne⟩
  next hun =>
    refine ⟨h0', hk.2 ▸ hs, hset1, hset2, fun x _ => ?_, hsame⟩
    rw [hmem]
    exact or_congr_left (and_iff_left hun).symm

/-- `ensure_reference` looks for a handle that is free and small. -/
theorem freeHandle_spec {k rounds handle found : Nat} (hs : handle < 2 ^ 32)
    (h : o.freeHandle k rounds handle = some found) :
    o.referenceFor k found = none ∧ found < 2 ^ 32 := by
  induction rounds generalizing handle with
  | zero => cases h
  | succ rounds ih =>
    rw [freeHandle] at h
    split at h
    next hnone =>
      cases h
      exact ⟨Option.isNone_iff_eq_none.1 hnone, hs⟩
    next =>
      split at h
      · cases h
      next hne => exact ih (by unfold uint32Max at hne; omega) h

/-- What `ensure_reference` finds or makes. -/
theorem ensureReference_spec {k : Nat} {node : Node}
    (he : o.ensureReference k node = some (ref, o')) :
    ref.endpoint = k ∧ ref.node = node.id ∧ ((ref ∈ o.references ∧ o' = o) ∨
      (ref.strong = 0 ∧ ref.weak = 0 ∧ ref.temporaryStrong = 0 ∧ ref.handle < 2 ^ 32 ∧
        (∀ r ∈ o.references, r.endpoint = k → r.handle ≠ ref.handle ∧ r.node ≠ ref.node) ∧
        ∃ references, insertFree packetLimit (fun r => r.endpoint == 0) ref o.references =
          some references ∧ o' = { o with references })) := by
  unfold ensureReference at he
  split at he
  next r hr =>
    cases he
    have hq := List.find?_some hr
    simp only [Bool.and_eq_true, beq_iff_eq] at hq
    exact ⟨hq.1, hq.2, .inl ⟨List.mem_of_find?_eq_some hr, rfl⟩⟩
  next hnone =>
    split at he
    · cases he
    next handle hfree =>
      obtain ⟨references, hins, heq⟩ := Option.map_eq_some_iff.1 he
      cases heq
      have hstart : (if node.id = o.managerNode then 0 else 1) < 2 ^ 32 := by split <;> decide
      obtain ⟨hhandle, hsmall⟩ := freeHandle_spec hstart hfree
      refine ⟨rfl, rfl, .inr ⟨rfl, rfl, rfl, hsmall, fun r hr hre => ⟨fun hh => ?_, fun hn => ?_⟩,
        references, hins, rfl⟩⟩
      · have := List.find?_eq_none.1 hhandle r hr
        simp [hre, hh] at this
      · have := List.find?_eq_none.1 hnone r hr
        simp [hre, hn] at this

/-- A reference that `ensure_reference` returns is held as its claims say. -/
theorem Tables.ensured_held (h : o.Tables claims) {k : Nat} {node : Node} (hk : k ≠ 0)
    (he : o.ensureReference k node = some (ref, o')) :
    ref.temporaryStrong = claims.countP (·.holds ref.endpoint ref.node) := by
  obtain ⟨hre, _, ⟨hr, _⟩ | ⟨_, _, htemp, _, hfresh, _⟩⟩ := ensureReference_spec he
  · exact h.held ref hr (hre ▸ hk)
  · rw [htemp, eq_comm, List.countP_eq_zero]
    intro c hc hh
    simp only [Claim.holds, Bool.and_eq_true, beq_iff_eq] at hh
    obtain ⟨r, hr, hre', hrn, _⟩ := h.covered c hc (by rw [hh.1.1, hre]; exact hk) hh.2
    exact (hfresh r hr (hre'.trans (hh.1.1.trans hre))).2 (hrn.trans hh.1.2)

/-- Writing back what `ensure_reference` returned. -/
theorem Tables.writes_ensured (h : o.Tables claims) {o₁ : Objects} {k : Nat} {node : Node} (hk : k ≠ 0)
    (he : o.ensureReference k node = some (r, o₁)) (hkey : ref.SameKey r) (hn : ref.node = r.node) :
    Writes o ((o₁.setReference ref).dropIfUnused ref) ref := by
  obtain ⟨hre, _, ⟨hr, rfl⟩ | ⟨_, _, _, hsmall, hfresh, references, hins, rfl⟩⟩ :=
    ensureReference_spec he
  · exact writes_listed h.handles h.targets hr (hre ▸ hk) (h.small r hr (hre ▸ hk)) hkey hn
  · have hnew : ∀ x ∈ o.references, x.endpoint ≠ 0 → (x.endpoint, x.handle) ≠ (r.endpoint, r.handle) ∧
        (x.endpoint, x.node) ≠ (r.endpoint, r.node) := by
      intro x hx _
      simp only [ne_eq, Prod.mk.injEq, not_and]
      exact ⟨fun hxe => (hfresh x hx (hxe.trans hre)).1, fun hxe => (hfresh x hx (hxe.trans hre)).2⟩
    have hw : Writes { o with references } _ ref := writes_listed
      (h.handles.insertFree hins fun x hx h0 => (hnew x hx h0).1)
      (h.targets.insertFree hins fun x hx h0 => (hnew x hx h0).2) (self_mem_insertFree hins)
      (hre ▸ hk) hsmall hkey hn
    have hold : ∀ x ∈ o.references, x.endpoint ≠ 0 → x ∈ references := fun x hx h0 =>
      mem_insertFree hins hx (by simp [h0])
    refine ⟨hw.live, hw.small, hw.handles, hw.targets, fun x h0 => ?_, fun x hx hxe => ?_⟩
    · rw [hw.mem x h0]
      refine or_congr_right (and_congr_left fun hne => ⟨fun hx => ?_, fun hx => hold x hx h0⟩)
      rcases mem_of_insertFree hins hx with rfl | hx
      · exact absurd ⟨hkey.1.symm, hkey.2.symm⟩ hne
      · exact hx
    · exact hw.same x (hold x hx (hxe ▸ hw.live)) hxe

end Write

/-! ## Editing nodes -/

section Edit

variable {o o' : Objects} {claims : List Claim} {g : Node → Node}

/-- The tables' agreement depends on the references alone. -/
theorem Tables.congr (h : o.Tables claims) (hr : o'.references = o.references) : o'.Tables claims :=
  ⟨hr ▸ h.handles, hr ▸ h.targets, hr ▸ h.small, hr ▸ h.counted, hr ▸ h.held, hr ▸ h.covered⟩

/-- An edit of nodes that leaves their ids. -/
theorem nodeFor_map (hg : ∀ n ∈ o.nodes, (g n).id = n.id) (hn : o'.nodes = o.nodes.map g) (id : Nat) :
    o'.nodeFor id = (o.nodeFor id).map g := by
  rw [nodeFor, nodeFor, hn, List.find?_map]
  refine congrArg _ (List.find?_congr fun n hmem => ?_)
  simp [hg n hmem]

/-- An edit of nodes that leaves ids and owners. -/
theorem Nodes.map_nodes (h : o.Nodes claims) (hg : ∀ n ∈ o.nodes, (g n).id = n.id ∧ (g n).owner = n.owner)
    (hblank : g {} = {}) (hn : o'.nodes = o.nodes.map g) (hr : o'.references = o.references)
    (hnext : o'.nextNode = o.nextNode) : o'.Nodes claims := by
  have hfor := nodeFor_map (fun n hmem => (hg n hmem).1) hn
  have hmem : ∀ n' ∈ o'.nodes, ∃ n ∈ o.nodes, n' = g n := fun n' hn' => by
    rw [hn] at hn'
    obtain ⟨n, hmem, rfl⟩ := List.mem_map.1 hn'
    exact ⟨n, hmem, rfl⟩
  refine ⟨?_, fun n' hn' h0 => ?_, hnext ▸ h.bounded, fun n' hn' h0 => ?_, fun r hmem' h0 => ?_,
    fun c hc h0 => ?_⟩
  · have := h.ids.update (p := fun _ => true) (f := g) fun n hmem _ h0 =>
      ⟨(hg n hmem).1 ▸ h0, (hg n hmem).1⟩
    simpa [update, hn] using this
  · obtain ⟨n, hmem', rfl⟩ := hmem n' hn'
    rw [(hg n hmem').1] at h0 ⊢
    rw [hnext]
    exact h.issued n hmem' h0
  · obtain ⟨n, hmem', rfl⟩ := hmem n' hn'
    rw [(hg n hmem').1] at h0
    rw [h.blank n hmem' h0, hblank]
  · obtain ⟨n, hn', how⟩ := h.referred r (hr ▸ hmem') h0
    exact ⟨g n, by rw [hfor, hn']; rfl, by rwa [(hg n (nodeFor_spec hn').1).2]⟩
  · obtain ⟨n, hn', how⟩ := h.claimed c hc h0
    exact ⟨g n, by rw [hfor, hn']; rfl, by rwa [(hg n (nodeFor_spec hn').1).2]⟩

/-- Editing every node in place keeps the nodes by the edit. -/
theorem KeptBy.map_nodes (hg : ∀ n ∈ o.nodes, (g n).id = n.id) (hn : o'.nodes = o.nodes.map g)
    (hnext : o'.nextNode = o.nextNode) : KeptBy g o o' := by
  refine ⟨fun _ h => hnext ▸ h, fun id n' hn' => ?_, fun id n hfor _ _ => ?_⟩
  · rw [nodeFor_map hg hn] at hn'
    obtain ⟨n, hfor, rfl⟩ := Option.map_eq_some_iff.1 hn'
    exact .inl ⟨n, hfor, .refl _⟩
  · rw [nodeFor_map hg hn, hfor]
    exact ⟨_, rfl, .refl _⟩

/-- An edit that concerns the told thread only. -/
theorem KeptBy.kept (h : KeptBy g o o') (hg : ∀ n ∈ o.nodes, n.Same (g n)) : Kept o o' := by
  refine ⟨h.next, fun id n' hn' => ?_, fun id n hfor hm hd => ?_⟩
  · rcases h.nodes id n' hn' with ⟨n, hfor, hs⟩ | hnew
    · exact .inl ⟨n, hfor, (hg n (nodeFor_spec hfor).1).trans hs⟩
    · exact .inr hnew
  · have hsame := hg n (nodeFor_spec hfor).1
    obtain ⟨n', hn', hs⟩ := h.stays id n hfor (hsame.manager.trans hm) (hsame.dead.trans hd)
    exact ⟨n', hn', hsame.trans hs⟩

/-- Whether a node is used does not depend on its schedule. -/
theorem inUse_like {n n' : Node} (h : n.Like n') (hr : o'.references = o.references)
    (hc : o'.claims = o.claims) : o'.inUse n' = o.inUse n := by
  simp only [inUse, weakUse, strongUse, hr, hc, h.id, h.manager, h.dead, h.hasStrong, h.hasWeak,
    h.pendingStrong, h.pendingWeak]

/-- An edit that keeps identity and what the owner was told keeps the invariant. -/
theorem Inv.map_nodes (h : o.Inv) (hg : ∀ n ∈ o.nodes, n.Like (g n)) (hblank : g {} = {})
    (hn : o'.nodes = o.nodes.map g) (hr : o'.references = o.references) (hc : o'.claims = o.claims)
    (hnext : o'.nextNode = o.nextNode) : o'.Inv := by
  refine ⟨⟨hc ▸ h.tables.congr hr, hc ▸ h.nodes.map_nodes (fun n hmem => ⟨(hg n hmem).id,
    (hg n hmem).owner⟩) hblank hn hr hnext, hc ▸ h.room⟩, fun n' hn' h0 => ?_⟩
  rw [hn] at hn'
  obtain ⟨n, hmem, rfl⟩ := List.mem_map.1 hn'
  rw [inUse_like (hg n hmem) hr hc]
  exact h.collected n hmem ((hg n hmem).id ▸ h0)

/-- An edit of the tables beside nodes, references and claims. -/
theorem Inv.congr (h : o.Inv) (hn : o'.nodes = o.nodes) (hr : o'.references = o.references)
    (hc : o'.claims = o.claims) (hnext : o'.nextNode = o.nextNode) : o'.Inv :=
  h.map_nodes (g := id) (fun n _ => .refl n) rfl (by rw [List.map_id, hn]) hr hc hnext

/-- The collection brings in no node. -/
theorem Sound.kept_collect (h : o.Sound) : Kept o o.collectNodes := by
  refine ⟨fun _ h => h, fun id n' hn' => ?_, fun id n hn hm hd => ⟨n, ?_, .refl n⟩⟩
  · rw [h.nodes.nodeFor_collectNodes, Option.filter_eq_some_iff] at hn'
    exact .inl ⟨n', hn'.1, .refl n'⟩
  · rw [h.nodes.nodeFor_collectNodes, Option.filter_eq_some_iff]
    exact ⟨hn, inUse_of_manager hm hd⟩

end Edit

end Objects

end Artbox.Binder
