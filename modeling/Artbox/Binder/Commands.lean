import Artbox.Binder.Claims

/-!
# The commands on objects keep the tables in agreement

One theorem for each operation of the device on its object tables: the agreement
`Inv` afterwards, what became of the nodes (`Kept`), and that no handle came to denote
another node (`Stable`).
-/

namespace Artbox.Binder

open Slots

namespace Objects

/-- A handle that is still in use denotes what it did. -/
def Stable (o o' : Objects) : Prop :=
  ∀ r ∈ o.references, ∀ r' ∈ o'.references, r.endpoint ≠ 0 → r'.SameKey r → r'.node = r.node

section Stable

variable {o o' : Objects} {claims : List Claim}

theorem Stable.of_eq (h : o.Tables claims) (hr : o'.references = o.references) : Stable o o' := by
  intro r hr₀ r' hr' h0 hk
  rw [hr] at hr'
  rw [h.handles.eq_of_mem hr' hr₀ (hk.1 ▸ h0) h0 (Prod.ext hk.1 hk.2)]

/-- References keep their nodes while others are taken out. -/
theorem Shrinks.stable (h : o.Tables claims) (hs : Shrinks o o') : Stable o o' := by
  intro r hr r' hr' h0 hk
  obtain ⟨x, hx, hkx, hn⟩ := hs r' hr' (hk.1 ▸ h0)
  have hxk : x.SameKey r := ⟨hkx.1.symm.trans hk.1, hkx.2.symm.trans hk.2⟩
  rw [hn, h.handles.eq_of_mem hx hr (hxk.1 ▸ h0) h0 (Prod.ext hxk.1 hxk.2)]

/-- References that are added, and then some dropped. -/
theorem Grows.stable {o'' : Objects} (hg : Grows o o') (h : o'.Tables claims) (hs : Shrinks o' o'') :
    Stable o o'' := by
  intro r hr r' hr' h0 hk
  obtain ⟨x, hx, hkx, hn⟩ := hg r hr h0
  exact (hs.stable h x hx r' hr' (hkx.1 ▸ h0) ⟨hk.1.trans hkx.1.symm, hk.2.trans hkx.2.symm⟩).trans hn

/-- References keep their nodes while one is written back. -/
theorem Writes.stable {ref : Reference} (h : o.Tables claims) (hw : Writes o o' ref) : Stable o o' := by
  intro r hr r' hr' h0 hk
  rcases (hw.mem r' (hk.1 ▸ h0)).1 hr' with ⟨rfl, _⟩ | ⟨hr', _⟩
  · exact ((hw.same r hr hk.1.symm).1 hk.2.symm).symm
  · rw [h.handles.eq_of_mem hr' hr (hk.1 ▸ h0) h0 (Prod.ext hk.1 hk.2)]

/-- References keep their nodes while nodes are collected. -/
theorem Stable.collect (h : Stable o o') : Stable o o'.collectNodes := h

end Stable

/-- What an operation that edits nodes by `g` does to the tables. -/
structure Moves (g : Node → Node) (o o' : Objects) : Prop where
  inv : o'.Inv
  kept : KeptBy g o o'
  stable : Stable o o'
  managerNode : o'.managerNode = o.managerNode

/-- What an operation that edits no node does to the tables. -/
abbrev Quiet (o o' : Objects) : Prop := Moves id o o'

theorem Inv.quiet {o : Objects} (h : o.Inv) : Quiet o o :=
  ⟨h, Kept.of_nodes rfl rfl, .of_eq h.tables rfl, rfl⟩

/-- The subscriptions are nobody's account. -/
theorem Quiet.setDeaths {o o' : Objects} (h : Quiet o o') (deaths : List Death) :
    Quiet o { o' with deaths } :=
  ⟨h.inv.congr rfl rfl rfl rfl, ⟨h.kept.next, h.kept.nodes, h.kept.stays⟩, h.stable, h.managerNode⟩

/-! ## Reference counts -/

section Counting

variable {o o₁ o' : Objects} {r ref : Reference} {node : Node}

/-- A write that leaves the claims as they are, then a collection. -/
theorem Inv.write (h : o.Inv) (hw : Writes o o' ref) (hn : o'.nodes = o.nodes)
    (hc : o'.claims = o.claims) (hx : o'.nextNode = o.nextNode)
    (hheld : ref.temporaryStrong = o.claims.countP (·.holds ref.endpoint ref.node))
    (hnode : o.nodeFor ref.node = some node) (how : node.owner ≠ ref.endpoint) : o'.Sound := by
  refine ⟨?_, ?_, hc ▸ h.room⟩
  · rw [hc]
    refine h.tables.write hw (fun _ => hheld) (fun _ _ _ _ => rfl) (fun _ hc _ _ => .inl hc)
      fun c hc hh hun => ?_
    have hpos : 0 < o.claims.countP (·.holds ref.endpoint ref.node) :=
      List.countP_pos_iff.2 ⟨c, hc, hh⟩
    have := hun.2.2
    omega
  · rw [hc]
    exact h.nodes.write hw hnode how hn hx fun _ hc _ => .inl hc

/-- The count is full, or a copy of the reference with the other count is written. -/
theorem adjustReference_cases (o : Objects) (r : Reference) (increment strong : Bool) :
    ((if strong then r.strong else r.weak) = uint32Max ∧
      (o.adjustReference r increment strong).2 = o) ∨
      ∃ ref : Reference, ref.SameKey r ∧ ref.node = r.node ∧ ref.owner = r.owner ∧
        ref.death = r.death ∧ ref.temporaryStrong = r.temporaryStrong ∧
          (o.adjustReference r increment strong).2 =
            ((o.setReference ref).dropIfUnused ref).collectNodes := by
  unfold adjustReference
  by_cases hmax : increment = true ∧ (if strong then r.strong else r.weak) = uint32Max
  · exact .inl ⟨hmax.2, by simp only [if_pos hmax]⟩
  · refine .inr ?_
    simp only [if_neg hmax]
    cases strong
    · exact ⟨{ r with weak := if increment then r.weak + 1 else r.weak - 1 }, ⟨rfl, rfl⟩, rfl, rfl, rfl,
        rfl, rfl⟩
    · exact ⟨{ r with strong := if increment then r.strong + 1 else r.strong - 1 }, ⟨rfl, rfl⟩, rfl, rfl,
        rfl, rfl, rfl⟩

/-- The counting half of `reference_command`. -/
theorem Inv.adjustReference (h : o.Inv) {increment strong : Bool}
    (hf : o₁.nodes = o.nodes ∧ o₁.claims = o.claims ∧ o₁.nextNode = o.nextNode ∧
      o₁.managerNode = o.managerNode)
    (hw : ∀ ref : Reference, ref.SameKey r → ref.node = r.node →
      Writes o ((o₁.setReference ref).dropIfUnused ref) ref)
    (hheld : r.temporaryStrong = o.claims.countP (·.holds r.endpoint r.node))
    (hnode : o.nodeFor r.node = some node) (how : node.owner ≠ r.endpoint)
    (hfull : (if strong then r.strong else r.weak) = uint32Max → o₁ = o) :
    Quiet o (o₁.adjustReference r increment strong).2 := by
  rcases adjustReference_cases o₁ r increment strong with ⟨hmax, heq⟩ | ⟨ref, hk, hn, _, _, ht, heq⟩ <;>
    rw [heq]
  · rw [hfull hmax]
    exact h.quiet
  · have hwr := hw ref hk hn
    obtain ⟨hdn, hdc, hdx, hdm⟩ := @dropIfUnused_frame (o₁.setReference ref) ref
    have hsound := h.write hwr (hdn.trans hf.1) (hdc.trans hf.2.1) (hdx.trans hf.2.2.1)
      (by rw [ht, hheld, hk.1, hn]) (hn ▸ hnode) (hk.1 ▸ how)
    have hkept : Kept o ((o₁.setReference ref).dropIfUnused ref) :=
      .of_nodes (hdn.trans hf.1) (hdx.trans hf.2.2.1)
    exact ⟨hsound.collect, hkept.trans hsound.kept_collect, (hwr.stable h.tables).collect,
      hdm.trans hf.2.2.2⟩

/-- A count of a handle keeps the invariant and tells no node anything. -/
theorem Inv.referenceCommand (h : o.Inv) {manager endpoint i : Nat} (increment strong : Bool)
    (hk : endpoint ≠ 0) (hm : manager ≠ 0 → ∀ n, o.nodeFor o.managerNode = some n → n.owner = manager) :
    Quiet o (o.referenceCommand manager endpoint i increment strong).2 := by
  unfold Objects.referenceCommand
  split
  next hinc =>
    split
    · exact h.quiet
    next hne =>
      split
      · exact h.quiet
      next node hnode =>
        split
        · exact h.quiet
        next ref o₁ he =>
          obtain ⟨hre, hrn, hcase⟩ := ensureReference_spec he
          have hid := (nodeFor_spec hnode).2.1
          refine h.adjustReference (ensureReference_frame he) (fun ref hkey hn =>
            h.tables.writes_ensured hk he hkey hn) (h.tables.ensured_held hk he) (by rwa [hrn, hid])
            (?_ : node.owner ≠ ref.endpoint) fun hmax => ?_
          · rw [hre, hm hinc.2.2 node hnode]
            exact hne
          · obtain ⟨_, rfl⟩ | ⟨h1, h2, _⟩ := hcase
            · rfl
            · rw [h1, h2] at hmax
              cases strong <;> cases hmax
  next =>
    split
    · exact h.quiet
    next ref href =>
      obtain ⟨hr, hre, _⟩ := referenceFor_spec href
      have h0 : ref.endpoint ≠ 0 := hre ▸ hk
      obtain ⟨n, hn, how⟩ := h.nodes.referred ref hr h0
      exact h.adjustReference ⟨rfl, rfl, rfl, rfl⟩ (fun x hkey hxn =>
        writes_listed h.tables.handles h.tables.targets hr h0 (h.tables.small ref hr h0) hkey hxn)
        (h.tables.held ref hr h0) hn how fun _ => rfl

end Counting

/-! ## Nodes and their owners -/

section Owners

variable {o o' : Objects} {n n' : Node}

/-- Writing a node back under its identity. -/
theorem Sound.setNode (h : o.Sound) (hn : o.nodeFor n.id = some n) (hid : n'.id = n.id)
    (how : n'.owner = n.owner) : (o.setNode n').Sound ∧
      ∀ id, (o.setNode n').nodeFor id = if id = n.id then some n' else o.nodeFor id := by
  have h0 := (nodeFor_spec hn).2.2
  have hg : ∀ x ∈ o.nodes, (if x.id == n'.id then n' else x).id = x.id ∧
      (if x.id == n'.id then n' else x).owner = x.owner := by
    intro x hx
    by_cases hxn : x.id = n'.id
    · have hxe := h.nodes.nodeFor hx (by rw [hxn, hid]; exact h0)
      rw [hxn, hid, hn] at hxe
      cases hxe
      simp [hid, how]
    · simp [hxn]
  have hblank : (if ({} : Node).id == n'.id then n' else {}) = ({} : Node) := by
    rw [if_neg]
    simpa [hid] using Ne.symm h0
  refine ⟨⟨h.tables.congr rfl, h.nodes.map_nodes hg hblank rfl rfl rfl, h.room⟩, fun id => ?_⟩
  rw [nodeFor_map (o := o) (fun x hx => (hg x hx).1) rfl]
  split
  next hi => rw [hi, hn, Option.map_some, if_pos (by simp [hid])]
  next hi =>
    cases hfor : o.nodeFor id with
    | none => rfl
    | some x =>
      obtain ⟨_, hxid, _⟩ := nodeFor_spec hfor
      rw [Option.map_some, if_neg]
      simpa [hxid, hid] using hi

/-- The node of an acknowledgement is alive, the endpoint's own, and has pointer and cookie. -/
theorem doneNode_spec {endpoint pointer cookie : Nat} (hn : o.doneNode endpoint pointer cookie = some n) :
    n ∈ o.nodes ∧ n.id ≠ 0 ∧ n.dead = false ∧ n.owner = endpoint ∧ n.pointer = pointer ∧
      n.cookie = cookie := by
  obtain ⟨hn, hcookie⟩ := Option.filter_eq_some_iff.1 hn
  obtain ⟨hmem, h0, hdead, how, hptr⟩ := ownedNode_spec hn
  exact ⟨hmem, h0, hdead, how, hptr, by simpa using hcookie⟩

/-- `node_done_command` clears one pending mark of the node. -/
theorem Inv.nodeDone (h : o.Inv) (hn : o.nodeFor n.id = some n) (increfs : Bool) :
    (o.nodeDone n increfs).Inv ∧ (o.nodeDone n increfs).references = o.references ∧
      (o.nodeDone n increfs).managerNode = o.managerNode ∧
      (o.nodeDone n increfs).nextNode = o.nextNode ∧ (o.nodeDone n increfs).claims = o.claims ∧
        ∃ n₁ : Node, (if increfs then { n with pendingWeak := false }
          else { n with pendingStrong := false } : Node).Same n₁ ∧
            ∀ id, (o.nodeDone n increfs).nodeFor id =
              (if id = n.id then some n₁ else o.nodeFor id).filter o.inUse := by
  unfold Objects.nodeDone
  simp only
  have hone : ∃ n₀ : Node, (if increfs then { n with pendingWeak := false }
      else { n with pendingStrong := false }) = n₀ ∧ n₀.id = n.id ∧ n₀.owner = n.owner := by
    cases increfs <;> exact ⟨_, rfl, rfl, rfl⟩
  obtain ⟨n₀, hn₀, hid, how⟩ := hone
  rw [hn₀]
  obtain ⟨hs, hfor⟩ := h.toSound.setNode hn hid how
  generalize hsettled : (!n₀.pendingWeak && !n₀.pendingStrong &&
    !((o.setNode n₀).strongUse n₀ && !n₀.hasStrong) && !((o.setNode n₀).weakUse n₀ && !n₀.hasWeak)) = b
  cases b with
  | false =>
    simp only [Bool.false_eq_true, if_false]
    refine ⟨hs.collect, rfl, rfl, rfl, rfl, n₀, .refl n₀, fun id => ?_⟩
    rw [hs.nodes.nodeFor_collectNodes, hfor]
    rfl
  | true =>
    simp only [if_true]
    have hn₁ : (o.setNode n₀).nodeFor n₀.id = some n₀ := by rw [hfor, if_pos hid]
    obtain ⟨hs', hfor'⟩ : (Objects.setNode _ { n₀ with notificationTid := 0 }).Sound ∧ _ :=
      hs.setNode hn₁ rfl rfl
    refine ⟨hs'.collect, rfl, rfl, rfl, rfl, { n₀ with notificationTid := 0 },
      ⟨⟨rfl, rfl, rfl, rfl, rfl, rfl, rfl, rfl, rfl, rfl⟩, rfl⟩, fun id => ?_⟩
    rw [hs'.nodes.nodeFor_collectNodes, hfor', hfor, hid]
    split <;> rfl

/-- Delivering a node command changes the node's flags, and may free it. -/
theorem Inv.commanded (h : o.Inv) (hn : o.nodeFor n.id = some n) (command : BR) :
    ((o.setNode (n.commanded command)).collectNodes).Inv ∧
      ∀ id, ((o.setNode (n.commanded command)).collectNodes).nodeFor id =
        (if id = n.id then some (n.commanded command) else o.nodeFor id).filter o.inUse := by
  have hid : (n.commanded command).id = n.id ∧ (n.commanded command).owner = n.owner := by
    cases command <;> exact ⟨rfl, rfl⟩
  obtain ⟨hs, hfor⟩ := h.toSound.setNode hn hid.1 hid.2
  refine ⟨hs.collect, fun id => ?_⟩
  rw [hs.nodes.nodeFor_collectNodes, hfor]
  rfl

/-- One node is edited, and others may be freed. -/
theorem KeptBy.of_edit {g : Node → Node} (hg : ∀ x, o.nodeFor n.id = some x → (g x).Same n')
    (hother : ∀ x, x.id ≠ n.id → g x = x) (hnext : o'.nextNode = o.nextNode)
    (hfor : ∀ id, o'.nodeFor id = (if id = n.id then some n' else o.nodeFor id).filter o.inUse)
    (hn : o.nodeFor n.id = some n) : KeptBy g o o' := by
  refine ⟨fun id hi => hnext ▸ hi, fun id x hx => .inl ?_, fun id x hx hm hd => ?_⟩
  · rw [hfor, Option.filter_eq_some_iff] at hx
    obtain ⟨hx, -⟩ := hx
    split at hx
    next heq =>
      cases hx
      exact ⟨n, heq ▸ hn, hg n hn⟩
    next hne =>
      refine ⟨x, hx, ?_⟩
      rw [hother x ((nodeFor_spec hx).2.1 ▸ hne)]
      exact .refl x
  · by_cases heq : id = n.id
    · have hsame := hg x (heq ▸ hx)
      refine ⟨n', ?_, hsame⟩
      rw [hfor, if_pos heq, Option.filter_some, if_pos]
      exact inUse_of_manager (hsame.manager.trans hm) (hsame.dead.trans hd)
    · have hgx := hother x ((nodeFor_spec hx).2.1 ▸ heq)
      rw [hgx] at hm hd ⊢
      refine ⟨x, ?_, .refl x⟩
      rw [hfor, if_neg heq, hx, Option.filter_some, if_pos (inUse_of_manager hm hd)]

/-- The edit of an acknowledgement. -/
def acked (id : Nat) (increfs : Bool) (n : Node) : Node :=
  if n.id = id then
    if increfs then { n with pendingWeak := false } else { n with pendingStrong := false }
  else n

/-- An acknowledgement changes its node only. -/
theorem Inv.moves_nodeDone (h : o.Inv) (hn : o.nodeFor n.id = some n) (increfs : Bool) :
    Moves (acked n.id increfs) o (o.nodeDone n increfs) := by
  obtain ⟨hinv, hrefs, hman, hnext, _, n₁, hs, hfor⟩ := h.nodeDone hn increfs
  refine ⟨hinv, .of_edit (fun x hx => ?_) (fun x hx => if_neg hx) hnext hfor hn,
    .of_eq h.tables hrefs, hman⟩
  rw [hn] at hx
  cases hx
  rw [acked, if_pos rfl]
  exact hs

/-- The edit of a delivered node command. -/
def told (id : Nat) (command : BR) (n : Node) : Node := if n.id = id then n.commanded command else n

/-- A command that is handed out changes its node only. -/
theorem Inv.moves_commanded (h : o.Inv) (hn : o.nodeFor n.id = some n) (command : BR) :
    Moves (told n.id command) o (o.setNode (n.commanded command)).collectNodes := by
  obtain ⟨hinv, hfor⟩ := h.commanded hn command
  refine ⟨hinv, .of_edit (fun x hx => ?_) (fun x hx => if_neg hx) rfl hfor hn,
    .of_eq h.tables rfl, rfl⟩
  rw [hn] at hx
  cases hx
  rw [told, if_pos rfl]
  exact .refl _

/-- A new node that is taken to be held. -/
theorem Inv.createManager (h : o.Inv) {owner pointer cookie flags : Nat} {tid : Int}
    (hc : o.createNode owner pointer cookie flags tid true = some (n, o')) :
    ({ o' with managerNode := n.id } : Objects).Inv ∧ o'.references = o.references ∧
      o'.claims = o.claims ∧ ∀ id, o'.nodeFor id = if id = n.id then some n else o.nodeFor id := by
  obtain ⟨_, _, _, _, _, hman, hfresh, _⟩ := createNode_spec hc
  obtain ⟨hs, _, hr, hcl, _, _, hfor, hmem⟩ := h.toSound.createNode hc
  refine ⟨⟨⟨hs.tables.congr rfl, ⟨hs.nodes.ids, hs.nodes.issued, hs.nodes.bounded, hs.nodes.blank,
    hs.nodes.referred, hs.nodes.claimed⟩, hs.room⟩, fun x hx h0 => ?_⟩, hr, hcl, hfor⟩
  rcases hmem x hx h0 with rfl | hx
  · simp [inUse, hfresh.hasStrong, hman]
  · have hsame : ({ o' with managerNode := n.id } : Objects).inUse x = o.inUse x :=
      inUse_congr hr hcl x
    rw [hsame]
    exact h.collected x hx h0

end Owners

/-! ## Death subscriptions -/

section Deaths

variable {o : Objects} {r : Reference}

/-- Linking a reference to a subscription, or unlinking it. -/
theorem Inv.setDeath (h : o.Inv) (hr : r ∈ o.references) (h0 : r.endpoint ≠ 0) (deaths : List Death)
    (death : Nat) : Quiet o ({ o with deaths }.setReference { r with death }) := by
  have hcounted : ({ r with death } : Reference).Counted := h.tables.counted r hr h0
  have hw : Writes o _ { r with death } := writes_listed h.tables.handles h.tables.targets hr h0
    (h.tables.small r hr h0) ⟨rfl, rfl⟩ rfl
  rw [dropIfUnused_of_counted hcounted] at hw
  obtain ⟨n, hn, how⟩ := h.nodes.referred r hr h0
  have hsound := h.write hw rfl rfl rfl (h.tables.held r hr h0) hn how
  have hcounts : Counts o (o.setReference { r with death }) := by
    refine ⟨fun x hx hx0 => ?_, fun _ hc _ => hc⟩
    by_cases hk : x.SameKey { r with death }
    · refine ⟨{ r with death }, (hw.mem _ hw.live).2 (.inl ⟨rfl, hcounted⟩), h0, ?_⟩
      rw [h.tables.handles.eq_of_mem hx hr hx0 h0 (Prod.ext hk.1 hk.2)]
      exact ⟨rfl, id, id⟩
    · exact ⟨x, (hw.mem x hx0).2 (.inr ⟨hx, hk⟩), hx0, rfl, id, id⟩
  have hinv : (o.setReference { r with death }).Inv :=
    ⟨hsound, fun n hn hn0 => hcounts.inUse (h.collected n hn hn0)⟩
  have hquiet : Quiet o (o.setReference { r with death }) :=
    ⟨hinv, Kept.of_nodes rfl rfl, hw.stable h.tables, rfl⟩
  exact hquiet.setDeaths deaths

/-- A subscription keeps the invariant. -/
theorem Inv.requestDeath (h : o.Inv) (hr : r ∈ o.references) (h0 : r.endpoint ≠ 0) (cookie : Nat)
    (alive : Bool) : Quiet o (o.requestDeath r cookie alive).2.2 := by
  unfold Objects.requestDeath
  split
  · exact h.quiet
  · simp only
    split
    · exact h.quiet
    · exact h.setDeath hr h0 _ _

/-- Clearing a subscription keeps the invariant. -/
theorem Inv.clearDeath (h : o.Inv) (hr : r ∈ o.references) (h0 : r.endpoint ≠ 0) (cookie : Nat)
    (th : Thread) : Quiet o (o.clearDeath r cookie th).2 := by
  unfold Objects.clearDeath
  split
  · exact h.quiet
  · split
    · exact h.quiet
    · split
      · exact h.quiet
      · exact h.setDeath hr h0 _ _

/-- Acknowledging a notification keeps the invariant. -/
theorem Inv.doneDeath (h : o.Inv) (endpoint cookie : Nat) (th : Thread) :
    Quiet o (o.doneDeath endpoint cookie th).2 := by
  unfold Objects.doneDeath
  split
  · exact h.quiet
  · split
    · exact h.quiet
    · exact h.quiet.setDeaths _

end Deaths

/-! ## Schedules -/

section Schedules

variable {o : Objects}

/-- An edit of nodes that concerns scheduling only. -/
theorem Inv.schedule (h : o.Inv) {g : Node → Node} (hg : ∀ n ∈ o.nodes, n.Like (g n))
    (hblank : g {} = {}) : Moves g o { o with nodes := o.nodes.map g } :=
  ⟨h.map_nodes hg hblank rfl rfl rfl rfl, .map_nodes (fun n hmem => (hg n hmem).id) rfl rfl,
    .of_eq h.tables rfl, rfl⟩

/-- The one-way buffer behind a node's freed one. -/
def nextAsync (work : List Work) (n : Node) : Nat :=
  ((work.find? fun w => w.asyncNode == n.id).map fun w => w.value.dataBuffer).getD 0

/-- The edit of `advanceAsync`: it concerns the first node whose active buffer is freed. -/
def advance (work : List Work) (endpoint buffer : Nat) (nodes : List Node) (n : Node) : Node :=
  if nodes.find? (fun n => n.owner == endpoint && n.asyncBuffer == buffer) = some n then
    { n with asyncBuffer := nextAsync work n }
  else n

/-- The next one-way parcel becomes active on its node. -/
theorem advanceAsync_map {work : List Work} {endpoint buffer : Nat} {nodes : List Node}
    (hids : Unique (fun n : Node => n.id ≠ 0) (·.id) nodes) (hblank : ∀ n ∈ nodes, n.id = 0 → n = {})
    (hk : endpoint ≠ 0) :
    advanceAsync work endpoint buffer nodes = nodes.map (advance work endpoint buffer nodes) := by
  unfold advance
  induction nodes with
  | nil => rfl
  | cons n rest ih =>
    obtain ⟨hn, hrest⟩ := List.pairwise_cons.1 hids
    rw [advanceAsync, List.find?_cons]
    by_cases hit : n.owner = endpoint ∧ n.asyncBuffer = buffer
    · rw [if_neg (by simp [hit]), show (n.owner == endpoint && n.asyncBuffer == buffer) = true by
        simp [hit]]
      simp only [List.map_cons, if_true, List.cons.injEq]
      refine ⟨rfl, (List.map_id rest).symm.trans (List.map_congr_left fun x hx => ?_)⟩
      -- no later node is this one
      rw [if_neg]
      · rfl
      · intro heq
        cases heq
        have h0 : n.id ≠ 0 := fun h0 => by
          rw [hblank n List.mem_cons_self h0] at hit
          exact hk hit.1.symm
        exact hn n hx h0 h0 rfl
    · rw [if_pos (by simpa [or_iff_not_imp_left] using hit),
        show (n.owner == endpoint && n.asyncBuffer == buffer) = false by simpa using hit]
      simp only [List.map_cons, List.cons.injEq]
      refine ⟨?_, ih hrest fun x hx => hblank x (List.mem_cons_of_mem _ hx)⟩
      rw [if_neg]
      intro heq
      have := List.find?_some heq
      exact hit (by simpa using this)

/-- The owner of a node is not told of a one-way parcel that becomes active. -/
theorem advance_like (work : List Work) (endpoint buffer : Nat) (nodes : List Node) (n : Node) :
    n.Like (advance work endpoint buffer nodes n) := by
  unfold advance
  split <;> exact ⟨rfl, rfl, rfl, rfl, rfl, rfl, rfl, rfl, rfl, rfl⟩

/-- Activating the next one-way parcel keeps the invariant. -/
theorem Inv.advanceAsync (h : o.Inv) (work : List Work) {endpoint : Nat} (buffer : Nat)
    (hk : endpoint ≠ 0) : Moves (advance work endpoint buffer o.nodes) o
      { o with nodes := advanceAsync work endpoint buffer o.nodes } := by
  rw [advanceAsync_map h.nodes.ids h.nodes.blank hk]
  refine h.schedule (fun n _ => advance_like work endpoint buffer o.nodes n) ?_
  rw [advance, if_neg]
  intro heq
  have := List.find?_some heq
  simp only [Bool.and_eq_true, beq_iff_eq] at this
  exact hk this.1.symm

end Schedules

/-! ## Teardown of an endpoint -/

/-- A node whose owner is gone. -/
def killed (n : Node) : Node :=
  { n with
    dead := true, hasStrong := false, hasWeak := false
    pendingStrong := false, pendingWeak := false }

/-- What the teardown of `token` does to a node. -/
def orphan (token : Nat) (n : Node) : Node :=
  if (n.id != 0 && n.owner == token) = true then killed n else n

/-- The tables after the teardown of `token`. -/
structure Retired (o o' : Objects) (token : Nat) : Prop where
  inv : o'.Inv
  stable : Stable o o'
  next : o'.nextNode = o.nextNode
  managerNode : o'.managerNode = o.managerNode
  references : ∀ r : Reference, r.endpoint ≠ 0 →
    (r ∈ o'.references ↔ r ∈ o.references ∧ r.endpoint ≠ token)
  claims : o'.claims = update (claimMatches token 0) (fun _ => {}) o.claims
  nodes : ∀ id, o'.nodeFor id = ((o.nodeFor id).map (orphan token)).filter o'.inUse

/-- A retirement changes only the owner's nodes. -/
theorem Retired.moves {o o' : Objects} {token : Nat} (h : Retired o o' token) :
    Moves (orphan token) o o' := by
  refine ⟨h.inv, ⟨fun id hi => h.next ▸ hi, fun id n' hn' => .inl ?_, fun id n hn hm hd => ?_⟩,
    h.stable, h.managerNode⟩
  · rw [h.nodes, Option.filter_eq_some_iff] at hn'
    obtain ⟨n, hn, rfl⟩ := Option.map_eq_some_iff.1 hn'.1
    exact ⟨n, hn, .refl _⟩
  · refine ⟨orphan token n, ?_, .refl _⟩
    rw [h.nodes, hn, Option.map_some, Option.filter_some, if_pos (inUse_of_manager hm hd)]

section Retire

variable {o : Objects} {token : Nat}

/-- The loop of `drop_reference`. -/
theorem dropReferences_spec {claims : List Claim} (h : o.Tables claims) (l : List Reference)
    (hl : ∀ r ∈ l, r.endpoint ≠ 0) :
    (l.foldl dropReference o).nodes = o.nodes ∧ (l.foldl dropReference o).claims = o.claims ∧
      (l.foldl dropReference o).nextNode = o.nextNode ∧
      (l.foldl dropReference o).managerNode = o.managerNode ∧
      Unique (fun r : Reference => r.endpoint ≠ 0) (fun r => (r.endpoint, r.handle))
        (l.foldl dropReference o).references ∧
      Unique (fun r : Reference => r.endpoint ≠ 0) (fun r => (r.endpoint, r.node))
        (l.foldl dropReference o).references ∧
      ∀ r : Reference, r.endpoint ≠ 0 → (r ∈ (l.foldl dropReference o).references ↔
        r ∈ o.references ∧ ∀ x ∈ l, ¬ r.SameKey x) := by
  have hh := h.handles
  have ht := h.targets
  clear h
  induction l generalizing o with
  | nil => exact ⟨rfl, rfl, rfl, rfl, hh, ht, fun r _ => by simp⟩
  | cons x l ih =>
    obtain ⟨h1, h2, h3, h4, h5, h6, h7⟩ := ih (o := o.dropReference x)
      (fun r hr => hl r (List.mem_cons_of_mem _ hr)) (hh.clear (by simp)) (ht.clear (by simp))
    refine ⟨h1, h2, h3, h4, h5, h6, fun r h0 => ?_⟩
    have hmem : r ∈ (o.dropReference x).references ↔ r ∈ o.references ∧ ¬ r.SameKey x := by
      rw [dropReference, mem_update_const]
      simp only [Reference.SameKey, Bool.and_eq_false_iff, beq_eq_false_iff_ne, not_and_or]
      refine or_iff_right ?_
      rintro ⟨rfl, _⟩
      exact h0 rfl
    rw [List.foldl_cons, h7 r h0, hmem, List.forall_mem_cons, and_assoc]

/-- Orphaned nodes keep their identity. -/
theorem orphan_id (token : Nat) (n : Node) :
    (orphan token n).id = n.id ∧ (orphan token n).owner = n.owner := by
  unfold orphan
  split <;> exact ⟨rfl, rfl⟩

/-- `release_references` before its collection. -/
theorem releaseReferences_spec {claims : List Claim} (h : o.Tables claims) (hk : token ≠ 0) :
    ∃ o₁ : Objects, o.releaseReferences token = o₁.collectNodes ∧
      o₁.nodes = o.nodes.map (orphan token) ∧ o₁.claims = o.claims ∧ o₁.nextNode = o.nextNode ∧
      o₁.managerNode = o.managerNode ∧
      Unique (fun r : Reference => r.endpoint ≠ 0) (fun r => (r.endpoint, r.handle)) o₁.references ∧
      Unique (fun r : Reference => r.endpoint ≠ 0) (fun r => (r.endpoint, r.node)) o₁.references ∧
      ∀ r : Reference, r.endpoint ≠ 0 →
        (r ∈ o₁.references ↔ r ∈ o.references ∧ r.endpoint ≠ token) := by
  have hl : ∀ r ∈ o.references.filter (fun r => r.endpoint == token), r.endpoint ≠ 0 := fun r hr => by
    have := (List.mem_filter.1 hr).2
    simp only [beq_iff_eq] at this
    exact this ▸ hk
  obtain ⟨hn, hc, hx, hm, hu1, hu2, hmem⟩ := dropReferences_spec h _ hl
  refine ⟨_, rfl, ?_, hc, hx, hm, hu1, hu2, fun r h0 => ?_⟩
  · rw [hn]
    rfl
  · -- exactly the references of the endpoint are dropped
    rw [hmem r h0]
    refine and_congr_right fun hr => ⟨fun hall he => ?_, fun hne x hx hkey => ?_⟩
    · exact hall r (List.mem_filter.2 ⟨hr, by simpa using he⟩) ⟨rfl, rfl⟩
    · have := (List.mem_filter.1 hx).2
      simp only [beq_iff_eq] at this
      exact hne (hkey.1.trans this)

/-- Claims whose references are gone hold nothing. -/
theorem foldl_releaseHold_of_gone {l : List Claim}
    (hl : ∀ c ∈ l, o.referenceFor c.endpoint c.handle = none) : l.foldl releaseHold o = o := by
  induction l with
  | nil => rfl
  | cons c l ih =>
    have hc : releaseHold o c = o := by
      unfold releaseHold
      rw [hl c List.mem_cons_self]
      split <;> rfl
    rw [List.foldl_cons, hc]
    exact ih fun c hc => hl c (List.mem_cons_of_mem _ hc)

/-- After `release_references` the claims given back find no reference. -/
theorem releaseReferences_gone {claims : List Claim} (h : o.Tables claims) (hk : token ≠ 0) :
    ((o.releaseReferences token).claims.filter (claimMatches token 0)).foldl releaseHold
      (o.releaseReferences token) = o.releaseReferences token := by
  obtain ⟨o₁, heq, _, _, _, _, _, _, hrefs⟩ := releaseReferences_spec h hk
  refine foldl_releaseHold_of_gone fun c hc => ?_
  rw [Option.eq_none_iff_forall_not_mem]
  intro r hr
  obtain ⟨hmem, hre, _⟩ := referenceFor_spec hr
  have hct := (List.mem_filter.1 hc).2
  simp only [claimMatches, Bool.and_eq_true, beq_iff_eq] at hct
  rw [heq] at hmem
  have hret : r.endpoint = token := hre.trans hct.1
  exact ((hrefs r (hret ▸ hk)).1 hmem).2 hret

/-- The two object steps of `release_endpoint`. -/
theorem Inv.retire (h : o.Inv) (hk : token ≠ 0) :
    Retired o ((o.releaseReferences token).releaseClaims token) token := by
  obtain ⟨o₁, heq, hnodes, hclaims, hnext, hman, hu1, hu2, hrefs⟩ :=
    releaseReferences_spec h.tables hk
  -- the claims of the others are still counted
  have hkeep : ∀ c, c ∈ o.claims.filter (fun c => !claimMatches token 0 c) ↔
      c ∈ o.claims ∧ c.endpoint ≠ token := fun c => by
    rw [List.mem_filter]
    simp [claimMatches]
  have ht : o₁.Tables (o.claims.filter fun c => !claimMatches token 0 c) := by
    refine ⟨hu1, hu2, fun r hr h0 => ?_, fun r hr h0 => ?_, fun r hr h0 => ?_, fun c hc h0 hrem => ?_⟩
    · exact h.tables.small r ((hrefs r h0).1 hr).1 h0
    · exact h.tables.counted r ((hrefs r h0).1 hr).1 h0
    · obtain ⟨hr, hne⟩ := (hrefs r h0).1 hr
      rw [h.tables.held r hr h0, List.countP_filter]
      refine List.countP_congr fun c _ => ?_
      simp only [Claim.holds, claimMatches, beq_self_eq_true, Bool.true_or, Bool.and_true,
        Bool.and_eq_true, beq_iff_eq, Bool.not_eq_true', beq_eq_false_iff_ne]
      exact ⟨fun hc => ⟨hc, hc.1.1 ▸ hne⟩, And.left⟩
    · obtain ⟨hc, hne⟩ := (hkeep c).1 hc
      obtain ⟨r, hr, hre, hrest⟩ := h.tables.covered c hc h0 hrem
      exact ⟨r, (hrefs r (hre ▸ h0)).2 ⟨hr, hre ▸ hne⟩, hre, hrest⟩
  have hn : o₁.Nodes (o.claims.filter fun c => !claimMatches token 0 c) := by
    have hmap : ({ o with nodes := o.nodes.map (orphan token) } : Objects).Nodes o.claims :=
      h.nodes.map_nodes (fun n _ => orphan_id token n) rfl rfl rfl rfl
    have hfor := @nodeFor_congr { o with nodes := o.nodes.map (orphan token) } o₁ hnodes
    refine ⟨hnodes ▸ hmap.ids, ?_, hnext ▸ hmap.bounded, hnodes ▸ hmap.blank, fun r hr h0 => ?_,
      fun c hc h0 => ?_⟩
    · rw [hnodes, hnext]
      exact hmap.issued
    · rw [hfor]
      exact hmap.referred r ((hrefs r h0).1 hr).1 h0
    · rw [hfor]
      exact hmap.claimed c ((hkeep c).1 hc).1 h0
  have hfor₁ : ∀ id, o₁.nodeFor id = (o.nodeFor id).map (orphan token) :=
    nodeFor_map (fun n _ => (orphan_id token n).1) hnodes
  have ht₂ : o₁.collectNodes.Tables (o.claims.filter fun c => !claimMatches token 0 c) := ht.congr rfl
  have hn₂ := hn.collectNodes ht fun c hc => hclaims ▸ ((hkeep c).1 hc).1
  have hgone := releaseReferences_gone h.tables hk
  unfold releaseClaims
  simp only [hgone]
  rw [heq, collectNodes_claims, hclaims]
  -- the tables with the claims blanked, to be collected again
  obtain ⟨o₂, ho₂, hrefs₂, hnodes₂, hclaims₂⟩ : ∃ o₂ : Objects, { o₁.collectNodes with
      claims := update (claimMatches token 0) (fun _ => {}) o.claims } = o₂ ∧
        o₂.references = o₁.references ∧ o₂.nodes = o₁.collectNodes.nodes ∧
          o₂.claims = update (claimMatches token 0) (fun _ => {}) o.claims := ⟨_, rfl, rfl, rfl, rfl⟩
  have hsound : o₂.Sound := by
    refine ⟨?_, ?_, by rw [hclaims₂]; simpa using h.room⟩
    · rw [hclaims₂]
      exact ht₂.blank.congr hrefs₂
    · have hn₃ : o₂.Nodes (o.claims.filter fun c => !claimMatches token 0 c) := by
        rw [← ho₂]
        exact ⟨hn₂.ids, hn₂.issued, hn₂.bounded, hn₂.blank, hn₂.referred, hn₂.claimed⟩
      refine ⟨hn₃.ids, hn₃.issued, hn₃.bounded, hn₃.blank, hn₃.referred, fun c hc h0 => ?_⟩
      rcases mem_update_const.1 (hclaims₂ ▸ hc) with ⟨rfl, _⟩ | ⟨hc, hp⟩
      · exact absurd rfl h0
      · exact hn₃.claimed c (List.mem_filter.2 ⟨hc, by simpa using hp⟩) h0
  -- what the first collection frees the second would
  have huse : ∀ n : Node, o₂.inUse n = true → o₁.inUse n = true := by
    intro n hu
    refine Counts.inUse (o := o₂) ⟨fun r hr h0 => ⟨r, hrefs₂ ▸ hr, h0, rfl, fun hs => hs, fun ht => ht⟩,
      fun c hc h0 => ?_⟩ hu
    rcases mem_update_const.1 (hclaims₂ ▸ hc) with ⟨rfl, _⟩ | ⟨hc, _⟩
    · exact absurd rfl h0
    · exact hclaims ▸ hc
  rw [ho₂]
  refine ⟨hsound.collect, ?_, ?_, ?_, fun r h0 => ?_, hclaims₂, fun id => ?_⟩
  · refine (Shrinks.stable h.tables fun r hr h0 => ?_ : Stable o o₂).collect
    exact ⟨r, ((hrefs r h0).1 (hrefs₂ ▸ hr)).1, ⟨rfl, rfl⟩, rfl⟩
  · rw [← ho₂]
    exact hnext
  · rw [← ho₂]
    exact hman
  · rw [collectNodes_references, hrefs₂]
    exact hrefs r h0
  · rw [hsound.nodes.nodeFor_collectNodes, nodeFor_congr hnodes₂, hn.nodeFor_collectNodes, hfor₁,
      Option.filter_filter]
    refine congrArg (Option.filter · _) (funext fun n => ?_)
    have hsame : o₂.collectNodes.inUse n = o₂.inUse n := inUse_congr rfl rfl n
    rw [hsame, Bool.eq_iff_iff, Bool.and_eq_true]
    exact ⟨And.right, fun hu => ⟨huse n hu, hu⟩⟩

end Retire

end Objects

end Artbox.Binder
