import Artbox.Binder.Accounting

/-!
# Claims come and go

A parcel's objects are claimed for its buffer one by one, each claim raising the
reference it names or creating it, and they are given back together. Both loops keep
the tables sound; what they do to references and nodes besides is `Loaded` for the one
and `Kept` with `Shrinks` for the other.
-/

namespace Artbox.Binder

open Slots

namespace Objects

/-! ## Claims -/

section Claims

variable {o o' : Objects} {ref : Reference}

@[simp] theorem setReference_nodes : (o.setReference ref).nodes = o.nodes := rfl
@[simp] theorem setReference_claims : (o.setReference ref).claims = o.claims := rfl
@[simp] theorem setReference_nextNode : (o.setReference ref).nextNode = o.nextNode := rfl
@[simp] theorem setReference_managerNode : (o.setReference ref).managerNode = o.managerNode := rfl

/-- Dropping a reference leaves nodes and claims alone. -/
theorem dropIfUnused_frame : (o.dropIfUnused ref).nodes = o.nodes ∧
    (o.dropIfUnused ref).claims = o.claims ∧ (o.dropIfUnused ref).nextNode = o.nextNode ∧
      (o.dropIfUnused ref).managerNode = o.managerNode := by
  rw [dropIfUnused]
  split <;> exact ⟨rfl, rfl, rfl, rfl⟩

/-- A counted reference is not dropped. -/
theorem dropIfUnused_of_counted (h : ref.Counted) : o.dropIfUnused ref = o := if_neg h

/-- Raising a reference leaves nodes and claims alone. -/
theorem ensureReference_frame {k : Nat} {node : Node} (he : o.ensureReference k node = some (ref, o')) :
    o'.nodes = o.nodes ∧ o'.claims = o.claims ∧ o'.nextNode = o.nextNode ∧
      o'.managerNode = o.managerNode := by
  obtain ⟨_, _, ⟨_, rfl⟩ | ⟨_, _, _, _, _, references, _, rfl⟩⟩ := ensureReference_spec he <;>
    exact ⟨rfl, rfl, rfl, rfl⟩

/-- A written reference does not change what its handle denotes. -/
theorem Writes.grows (hw : Writes o o' ref) (hc : ref.Counted) : Grows o o' := by
  intro r hr h0
  by_cases hk : r.SameKey ref
  · exact ⟨ref, (hw.mem ref hw.live).2 (.inl ⟨rfl, hc⟩), ⟨hk.1.symm, hk.2.symm⟩,
      ((hw.same r hr hk.1).1 hk.2).symm⟩
  · exact ⟨r, (hw.mem r h0).2 (.inr ⟨hr, hk⟩), ⟨rfl, rfl⟩, rfl⟩

/-- The nodes after a write of a reference to `node`, which is foreign. -/
theorem Nodes.write {claims claims' : List Claim} (h : o.Nodes claims) (hw : Writes o o' ref)
    {node : Node} (hnode : o.nodeFor ref.node = some node) (hforeign : node.owner ≠ ref.endpoint)
    (hn : o'.nodes = o.nodes) (hnext : o'.nextNode = o.nextNode)
    (hclaims : ∀ c ∈ claims', c.endpoint ≠ 0 → c ∈ claims ∨
      (c.node = ref.node ∧ c.endpoint = ref.endpoint ∧ c.remote = true)) : o'.Nodes claims' := by
  have hfor := nodeFor_congr hn
  refine ⟨hn ▸ h.ids, by rw [hn, hnext]; exact h.issued, hnext ▸ h.bounded, hn ▸ h.blank,
    fun r hr h0 => ?_, fun c hc h0 => ?_⟩
  · rw [hfor]
    rcases (hw.mem r h0).1 hr with ⟨rfl, _⟩ | ⟨hr, _⟩
    · exact ⟨node, hnode, hforeign⟩
    · exact h.referred r hr h0
  · rw [hfor]
    rcases hclaims c hc h0 with hc | ⟨hcn, hce, hrem⟩
    · exact h.claimed c hc h0
    · exact ⟨node, hcn ▸ hnode, by rw [hce]; exact iff_of_true hrem hforeign⟩

/-- `o'` counts whatever `o` counts. -/
structure Counts (o o' : Objects) : Prop where
  references : ∀ r ∈ o.references, r.endpoint ≠ 0 → ∃ r' ∈ o'.references, r'.endpoint ≠ 0 ∧
    r'.node = r.node ∧ (r.strong ≠ 0 → r'.strong ≠ 0) ∧ (r.temporaryStrong ≠ 0 → r'.temporaryStrong ≠ 0)
  claims : ∀ c ∈ o.claims, c.endpoint ≠ 0 → c ∈ o'.claims

/-- Tables that count more keep a node in strong use. -/
theorem Counts.strongUse (h : Counts o o') {n : Node} (hu : o.strongUse n = true) :
    o'.strongUse n = true := by
  simp only [Objects.strongUse, Bool.or_eq_true, List.any_eq_true, Bool.and_eq_true, bne_iff_ne,
    beq_iff_eq] at hu ⊢
  rcases hu with (hu | ⟨r, hr, ⟨h0, hn⟩, hcnt⟩) | ⟨c, hc, ⟨h0, hn⟩, hrem⟩
  · exact .inl (.inl hu)
  · obtain ⟨r', hr', h0', hn', hs, ht⟩ := h.references r hr h0
    exact .inl (.inr ⟨r', hr', ⟨h0', hn'.trans hn⟩, hcnt.imp hs ht⟩)
  · exact .inr ⟨c, h.claims c hc h0, ⟨h0, hn⟩, hrem⟩

/-- Tables that count more keep a node in weak use. -/
theorem Counts.weakUse (h : Counts o o') {n : Node} (hu : o.weakUse n = true) :
    o'.weakUse n = true := by
  simp only [Objects.weakUse, Bool.or_eq_true, List.any_eq_true, Bool.and_eq_true, bne_iff_ne,
    beq_iff_eq] at hu ⊢
  rcases hu with (hu | ⟨r, hr, h0, hn⟩) | hu
  · exact .inl (.inl hu)
  · obtain ⟨r', hr', h0', hn', _⟩ := h.references r hr h0
    exact .inl (.inr ⟨r', hr', h0', hn'.trans hn⟩)
  · exact .inr (h.strongUse hu)

/-- What is in use stays in use. -/
theorem Counts.inUse (h : Counts o o') {n : Node} (hu : o.inUse n = true) : o'.inUse n = true := by
  simp only [Objects.inUse, Bool.or_eq_true] at hu ⊢
  exact hu.imp (Or.imp_right h.strongUse) h.weakUse

end Claims

/-- `o'` is `o` with the claim `c` added. -/
structure ClaimAdded (o o' : Objects) (c : Claim) : Prop where
  sound : o'.Sound
  grows : Grows o o'
  counts : Counts o o'
  nodes : o'.nodes = o.nodes
  nextNode : o'.nextNode = o.nextNode
  managerNode : o'.managerNode = o.managerNode
  deaths : o'.deaths = o.deaths
  mem : ∀ x : Claim, x.endpoint ≠ 0 → (x ∈ o'.claims ↔ x = c ∨ x ∈ o.claims)

section AddClaim

variable {o o' : Objects} {node : Node} {target buffer handle : Nat} {remote : Bool}

/-- A claimed node is in use. -/
theorem Sound.inUse_of_claim (h : o.Sound) {n : Node} {c : Claim} (hc : c ∈ o.claims)
    (h0 : c.endpoint ≠ 0) (hn : c.node = n.id) : o.inUse n = true := by
  cases hrem : c.remote with
  | false => exact Objects.inUse_of_claim hc h0 hn hrem
  | true =>
    obtain ⟨r, hr, hre, hrn, _⟩ := h.tables.covered c hc h0 hrem
    exact inUse_of_reference hr (hre ▸ h0) (hrn.trans hn)

/-- A free slot holds no reference. -/
theorem free_claim_holds {c : Claim} (hf : (c.endpoint == 0) = true) {k : Nat} (hk : k ≠ 0) (n : Nat) :
    c.holds k n = false := by
  have hc : c.endpoint = 0 := by simpa using hf
  simp [Claim.holds, hc, Ne.symm hk]

/-- The inserted claim is the only new one. -/
theorem mem_claims_insertFree {c : Claim} {claims : List Claim}
    (hins : insertFree claimLimit (fun c : Claim => c.endpoint == 0) c o.claims = some claims)
    {x : Claim} (h0 : x.endpoint ≠ 0) : x ∈ claims ↔ x = c ∨ x ∈ o.claims := by
  refine ⟨mem_of_insertFree hins, ?_⟩
  rintro (rfl | hx)
  · exact self_mem_insertFree hins
  · exact mem_insertFree hins hx (by simp [h0])

/-- Inserting stays below the bound of the table. -/
theorem length_insertFree_le {α : Type} {cap : Nat} {free : α → Bool} {x : α} {l l' : List α}
    (h : insertFree cap free x l = some l') (hl : l.length ≤ cap) : l'.length ≤ cap := by
  induction l generalizing cap l' with
  | nil =>
    rw [insertFree] at h
    split at h
    · cases h
    next h0 =>
      cases h
      exact Nat.one_le_iff_ne_zero.2 h0
  | cons y ys ih =>
    rw [insertFree] at h
    split at h
    · cases h
      exact hl
    · obtain ⟨zs, hzs, rfl⟩ := Option.map_eq_some_iff.1 h
      simp only [List.length_cons] at hl ⊢
      have := ih hzs (by omega)
      omega

/-- A claim of the node's owner. -/
theorem Sound.add_local (h : o.Sound) (hnode : o.nodeFor node.id = some node)
    (how : node.owner = target) {claims : List Claim}
    (hins : insertFree claimLimit (fun c : Claim => c.endpoint == 0)
      ⟨target, buffer, node.id, handle, false⟩ o.claims = some claims) :
    ClaimAdded o { o with claims } ⟨target, buffer, node.id, handle, false⟩ := by
  have hmem := fun x => mem_claims_insertFree (x := x) hins
  have hcount : ∀ k n, k ≠ 0 → claims.countP (·.holds k n) = o.claims.countP (·.holds k n) := by
    intro k n hk
    have hlocal : (⟨target, buffer, node.id, handle, false⟩ : Claim).holds k n = false := by
      simp [Claim.holds]
    rw [countP_insertFree hins fun y hy => free_claim_holds hy hk n, hlocal]
    rfl
  refine ⟨⟨⟨h.tables.handles, h.tables.targets, h.tables.small, h.tables.counted, fun r hr h0 => ?_,
    fun c hc h0 hrem => ?_⟩, ⟨h.nodes.ids, h.nodes.issued, h.nodes.bounded, h.nodes.blank,
      h.nodes.referred, fun c hc h0 => ?_⟩, length_insertFree_le hins h.room⟩, Grows.refl o,
    ⟨fun r hr h0 => ⟨r, hr, h0, rfl, id, id⟩, fun c hc h0 => (hmem c h0).2 (.inr hc)⟩, rfl, rfl, rfl, rfl,
    hmem⟩
  · rw [hcount _ _ h0]
    exact h.tables.held r hr h0
  · rcases (hmem c h0).1 hc with rfl | hc
    · cases hrem
    · exact h.tables.covered c hc h0 hrem
  · rcases (hmem c h0).1 hc with rfl | hc
    · exact ⟨node, hnode, by simp [how]⟩
    · exact h.nodes.claimed c hc h0

/-- A claim of another endpoint raises its reference. -/
theorem Sound.add_remote (h : o.Sound) (hk : target ≠ 0) (hnode : o.nodeFor node.id = some node)
    (how : node.owner ≠ target) {o₁ : Objects} {ref : Reference} {claims : List Claim}
    (he : o.ensureReference target node = some (ref, o₁))
    (hins : insertFree claimLimit (fun c : Claim => c.endpoint == 0)
      ⟨target, buffer, node.id, ref.handle, true⟩ o.claims = some claims) :
    ClaimAdded o { o₁.setReference { ref with temporaryStrong := ref.temporaryStrong + 1 } with claims }
      ⟨target, buffer, node.id, ref.handle, true⟩ := by
  obtain ⟨hre, hrn, hcase⟩ := ensureReference_spec he
  obtain ⟨hfn, hfc, hfx, hfm⟩ := ensureReference_frame he
  have hmem := fun x => mem_claims_insertFree (x := x) hins
  have hcounted : ({ ref with temporaryStrong := ref.temporaryStrong + 1 } : Reference).Counted :=
    fun h => by simp at h
  have hw : Writes o _ { ref with temporaryStrong := ref.temporaryStrong + 1 } :=
    h.tables.writes_ensured hk he ⟨rfl, rfl⟩ rfl
  rw [dropIfUnused_of_counted hcounted] at hw
  -- the claim is counted once, for its endpoint and its node
  have hcount : ∀ k n, k ≠ 0 → claims.countP (·.holds k n) = o.claims.countP (·.holds k n) +
      if k = target ∧ n = node.id then 1 else 0 := by
    intro k n hk
    rw [countP_insertFree hins fun y hy => free_claim_holds hy hk n]
    congr 1
    simp only [Claim.holds, Bool.and_true, Bool.and_eq_true, beq_iff_eq]
    exact if_congr ⟨fun h => ⟨h.1.symm, h.2.symm⟩, fun h => ⟨h.1.symm, h.2.symm⟩⟩ rfl rfl
  have hheld := h.tables.ensured_held hk he
  -- which the reference makes good by one more temporary use
  have ht : (o₁.setReference { ref with temporaryStrong := ref.temporaryStrong + 1 }).Tables claims := by
    refine h.tables.write hw (fun _ => ?_) (fun k n hk' hne => ?_) (fun c hc h0 hrem => ?_)
      fun _ _ _ => hcounted
    · rw [hcount _ _ (hre ▸ hk), if_pos ⟨hre, hrn⟩]
      simp only
      rw [hheld]
    · rw [hcount k n hk', if_neg fun hp => hne ⟨hp.1.trans hre.symm, hp.2.trans hrn.symm⟩]
      rfl
    · rcases (hmem c h0).1 hc with rfl | hc
      · exact .inr ⟨hre.symm, hrn.symm, rfl⟩
      · exact .inl hc
  have hn : Objects.Nodes _ claims := h.nodes.write hw (hrn ▸ hnode) (hre ▸ how) hfn hfx
    fun c hc h0 => ((hmem c h0).1 hc).elim (fun heq => by
      subst heq
      exact .inr ⟨hrn.symm, hre.symm, rfl⟩) .inl
  refine ⟨⟨ht.congr rfl, ⟨hn.ids, hn.issued, hn.bounded, hn.blank, hn.referred, hn.claimed⟩,
    length_insertFree_le hins h.room⟩, hw.grows hcounted, ⟨fun r hr h0 => ?_, fun c hc h0 =>
      (hmem c h0).2 (.inr hc)⟩, hfn, hfx, hfm, ?_, hmem⟩
  · by_cases hkey : r.SameKey { ref with temporaryStrong := ref.temporaryStrong + 1 }
    · refine ⟨_, (hw.mem _ hw.live).2 (.inl ⟨rfl, hcounted⟩), hw.live,
        ((hw.same r hr hkey.1).1 hkey.2).symm, ?_, by simp⟩
      rcases hcase with ⟨hr', _⟩ | ⟨_, _, _, _, hfresh, _⟩
      · rw [h.tables.handles.eq_of_mem hr hr' h0 (hre ▸ hk) (Prod.ext hkey.1 hkey.2)]
        exact id
      · exact absurd hkey.2 (hfresh r hr (hkey.1.trans hre)).1
    · exact ⟨r, (hw.mem r h0).2 (.inr ⟨hr, hkey⟩), h0, rfl, id, id⟩
  · obtain ⟨_, rfl⟩ | ⟨_, _, _, _, _, _, _, rfl⟩ := hcase <;> rfl

/-- `add_claim` either changes nothing or adds the claim. -/
theorem Sound.addClaim (h : o.Sound) (hk : target ≠ 0) (hnode : o.nodeFor node.id = some node)
    (hrem : remote = (node.owner != target)) {res : Option Nat}
    (heq : o.addClaim target buffer node remote = (res, o')) :
    (res = none ∧ o' = o) ∨ ∃ handle, res = some handle ∧
      ClaimAdded o o' ⟨target, buffer, node.id, handle, remote⟩ := by
  unfold Objects.addClaim at heq
  split at heq
  · cases heq
    exact .inl ⟨rfl, rfl⟩
  next hroom =>
    -- the scan for a free slot was successful
    have hspace : ∀ x, ∃ claims, insertFree claimLimit (fun c : Claim => c.endpoint == 0) x o.claims =
        some claims := by
      intro x
      refine insertFree_isSome ?_
      by_cases hlen : o.claims.length = claimLimit
      · have hall : ¬ ∀ c ∈ o.claims, c.endpoint ≠ 0 := by simpa [hlen] using hroom
        refine .inr ?_
        by_contra hno
        exact hall fun c hc h0 => hno ⟨c, hc, by simp [h0]⟩
      · exact .inl (lt_of_le_of_ne h.room hlen)
    split at heq
    next hr =>
      have how : node.owner ≠ target := by simpa [hr] using hrem
      split at heq
      · cases heq
        exact .inl ⟨rfl, rfl⟩
      next ref o₁ he =>
        obtain ⟨_, _, hcase⟩ := ensureReference_spec he
        split at heq
        next hmax =>
          cases heq
          obtain ⟨_, rfl⟩ | ⟨_, _, htemp, _⟩ := hcase
          · exact .inl ⟨rfl, rfl⟩
          · rw [htemp] at hmax
            cases hmax
        next =>
          obtain ⟨claims, hins⟩ := hspace ⟨target, buffer, node.id, ref.handle, true⟩
          have hfc := (ensureReference_frame he).2.1
          simp only [setReference_claims, hfc, hr] at heq
          rw [hins] at heq
          cases heq
          exact .inr ⟨ref.handle, rfl, hr ▸ h.add_remote hk hnode how he hins⟩
    next hr =>
      have hr : remote = false := by simpa using hr
      have how : node.owner = target := by simpa [hr] using hrem
      obtain ⟨claims, hins⟩ := hspace ⟨target, buffer, node.id, 0, false⟩
      rw [hr, hins] at heq
      cases heq
      exact .inr ⟨0, rfl, hr ▸ h.add_local hnode how hins⟩

end AddClaim

/-! ## Nodes of a parcel -/

section Translate

variable {o o' : Objects} {node : Node}

/-- A new node has the next id and is as its maker says. -/
theorem createNode_spec {owner pointer cookie flags : Nat} {tid : Int} {manager : Bool}
    (hc : o.createNode owner pointer cookie flags tid manager = some (node, o')) :
    node.id = o.nextNode ∧ o.nextNode ≠ 0 ∧ node.owner = owner ∧ node.pointer = pointer ∧
      node.cookie = cookie ∧ node.manager = manager ∧ node.Fresh ∧
        ∃ nodes, insertFree packetLimit (fun n : Node => n.id == 0) node o.nodes = some nodes ∧
          o' = { o with nodes, nextNode := succ64 o.nextNode } := by
  unfold createNode at hc
  split at hc
  · cases hc
  next h0 =>
    obtain ⟨nodes, hins, heq⟩ := Option.map_eq_some_iff.1 hc
    cases heq
    exact ⟨rfl, h0, rfl, rfl, rfl, rfl, ⟨rfl, rfl, rfl, rfl, rfl, rfl⟩, nodes, hins, rfl⟩

/-- A new node takes a slot of its own. -/
theorem Sound.createNode (h : o.Sound) {owner pointer cookie flags : Nat} {tid : Int} {manager : Bool}
    (hc : o.createNode owner pointer cookie flags tid manager = some (node, o')) :
    o'.Sound ∧ (manager = false → Kept o o') ∧ o'.references = o.references ∧ o'.claims = o.claims ∧
      o'.managerNode = o.managerNode ∧ o'.deaths = o.deaths ∧
        (∀ id, o'.nodeFor id = if id = node.id then some node else o.nodeFor id) ∧
          ∀ n ∈ o'.nodes, n.id ≠ 0 → n = node ∨ n ∈ o.nodes := by
  obtain ⟨hid, h0, _, _, _, hm, hfresh, nodes, hins, rfl⟩ := createNode_spec hc
  have hnew : ∀ n ∈ o.nodes, n.id ≠ 0 → n.id ≠ node.id := fun n hn hn0 =>
    hid ▸ (h.nodes.issued n hn hn0).ne h0
  have hfor : ∀ id, ({ o with nodes, nextNode := succ64 o.nextNode } : Objects).nodeFor id =
      if id = node.id then some node else o.nodeFor id := by
    intro id
    split
    next heq =>
      refine find?_insertFree_self hins (by simp [heq, hid, h0]) fun n hn => ?_
      by_cases hn0 : n.id = 0
      · simp [hn0, heq, hid, Ne.symm h0]
      · simp [heq, hnew n hn hn0]
    next hne =>
      refine find?_insertFree_other hins (by simp [Ne.symm hne]) fun n hn => ?_
      have hn : n.id = 0 := by simpa using hn
      rw [hn]
      by_cases hi : id = 0 <;> simp [hi, Ne.symm]
  have hold : ∀ {id n}, o.nodeFor id = some n →
      ({ o with nodes, nextNode := succ64 o.nextNode } : Objects).nodeFor id = some n := by
    intro id n hn
    obtain ⟨hmem, rfl, hn0⟩ := nodeFor_spec hn
    rw [hfor, if_neg (hnew n hmem hn0), hn]
  have hmem : ∀ n ∈ nodes, n.id ≠ 0 → n = node ∨ n ∈ o.nodes := fun n hn _ => mem_of_insertFree hins hn
  refine ⟨⟨h.tables.congr rfl, ⟨h.nodes.ids.insertFree hins fun n hn hn0 => hnew n hn hn0,
    fun n hn hn0 => ?_, succ64_lt _, fun n hn hn0 => ?_, fun r hr hr0 => ?_, fun c hc hc0 => ?_⟩,
    h.room⟩, fun hman => ⟨fun id hi => Issued.succ h.nodes.bounded h0 (.inl hi), fun id n' hn' => ?_,
      fun id n hn _ _ => ⟨n, hold hn, .refl n⟩⟩,
    rfl, rfl, rfl, rfl, hfor, hmem⟩
  · refine Issued.succ h.nodes.bounded h0 ?_
    rcases hmem n hn hn0 with rfl | hn
    · exact .inr hid
    · exact .inl (h.nodes.issued n hn hn0)
  · rcases mem_of_insertFree hins hn with rfl | hn
    · exact absurd (hid.symm.trans hn0) h0
    · exact h.nodes.blank n hn hn0
  · obtain ⟨n, hn, how⟩ := h.nodes.referred r hr hr0
    exact ⟨n, hold hn, how⟩
  · obtain ⟨n, hn, how⟩ := h.nodes.claimed c hc hc0
    exact ⟨n, hold hn, how⟩
  · rw [hfor] at hn'
    split at hn'
    next heq =>
      cases hn'
      exact .inr ⟨fun hi => hi.ne h0 (heq.trans hid), hfresh, hm.trans hman⟩
    next => exact .inl ⟨n', hn', .refl n'⟩

/-- The node an object of a parcel names, and how it is named. -/
inductive Named (o : Objects) (source : Nat) (data : List UInt8) (offset : Nat) (node : Node) : Prop
  | binder : read32 data offset = ObjectType.binder.word → node.owner = source → node.dead = false →
    node.pointer = read64 data (offset + 8) → node.cookie = read64 data (offset + 16) →
      Named o source data offset node
  | handle {r : Reference} : read32 data offset ≠ ObjectType.binder.word →
    o.referenceFor source (read32 data (offset + 8)) = some r →
      r.strong ≠ 0 ∨ r.temporaryStrong ≠ 0 → o.nodeFor r.node = some node →
        Named o source data offset node

/-- Naming a node may create it, and changes nothing else. -/
theorem Sound.resolveObject (h : o.Sound) {source : Nat} {tid : Int} {data : List UInt8} {offset : Nat}
    (hr : o.resolveObject source tid data offset = .ok (node, o')) :
    o'.Sound ∧ Kept o o' ∧ o'.references = o.references ∧ o'.claims = o.claims ∧
      o'.managerNode = o.managerNode ∧ o'.deaths = o.deaths ∧ o'.nodeFor node.id = some node ∧
        Named o source data offset node ∧ ∀ n ∈ o'.nodes, n.id ≠ 0 → n = node ∨ n ∈ o.nodes := by
  unfold Objects.resolveObject at hr
  split at hr
  next htype =>
    split at hr
    next n hn =>
      split at hr
      · cases hr
      next hcookie =>
        cases hr
        obtain ⟨hmem, h0, hdead, how, hptr⟩ := ownedNode_spec hn
        exact ⟨h, .of_nodes rfl rfl, rfl, rfl, rfl, rfl, h.nodes.nodeFor hmem h0,
          .binder htype how hdead hptr (by simpa using hcookie), fun n hn _ => .inr hn⟩
    next =>
      split at hr
      · cases hr
      next n o₁ hc =>
        cases hr
        obtain ⟨_, _, how, hptr, hcookie, _, hfresh, _⟩ := createNode_spec hc
        obtain ⟨hs, hk, h1, h2, h3, h4, hfor, hmem⟩ := h.createNode hc
        exact ⟨hs, hk rfl, h1, h2, h3, h4, by rw [hfor, if_pos rfl],
          .binder htype how hfresh.dead hptr hcookie, hmem⟩
  next htype =>
    split at hr
    · cases hr
    next ref href =>
      split at hr
      · cases hr
      next n hn =>
        cases hr
        obtain ⟨href, hheld⟩ := Option.filter_eq_some_iff.1 href
        simp only [Bool.or_eq_true, bne_iff_ne] at hheld
        exact ⟨h, .of_nodes rfl rfl, rfl, rfl, rfl, rfl, by rwa [(nodeFor_spec hn).2.1],
          .handle htype href hheld hn, fun n hn _ => .inr hn⟩

/-- What claiming for the buffer `buffer` of `target` does to the tables. -/
structure Loaded (o o' : Objects) (target buffer : Nat) : Prop where
  sound : o'.Sound
  kept : Kept o o'
  grows : Grows o o'
  counts : Counts o o'
  managerNode : o'.managerNode = o.managerNode
  deaths : o'.deaths = o.deaths
  claims : ∀ c ∈ o'.claims, c.endpoint ≠ 0 → c ∈ o.claims ∨ (c.endpoint = target ∧ c.buffer = buffer)

theorem Counts.refl (o : Objects) : Counts o o :=
  ⟨fun r hr h0 => ⟨r, hr, h0, rfl, id, id⟩, fun _ hc _ => hc⟩

theorem Counts.trans {o o' o'' : Objects} (h : Counts o o') (h' : Counts o' o'') : Counts o o'' := by
  refine ⟨fun r hr h0 => ?_, fun c hc h0 => h'.claims c (h.claims c hc h0) h0⟩
  obtain ⟨r', hr', h0', hn, hs, ht⟩ := h.references r hr h0
  obtain ⟨r'', hr'', h0'', hn', hs', ht'⟩ := h'.references r' hr' h0'
  exact ⟨r'', hr'', h0'', hn'.trans hn, fun hx => hs' (hs hx), fun hx => ht' (ht hx)⟩

theorem Loaded.refl {target buffer : Nat} (h : o.Sound) : Loaded o o target buffer :=
  ⟨h, .of_nodes rfl rfl, .refl o, .refl o, rfl, rfl, fun _ hc _ => .inl hc⟩

theorem Loaded.trans {o'' : Objects} {target buffer : Nat} (h : Loaded o o' target buffer)
    (h' : Loaded o' o'' target buffer) : Loaded o o'' target buffer :=
  ⟨h'.sound, h.kept.trans h'.kept, h.grows.trans h'.grows, h.counts.trans h'.counts,
    h'.managerNode.trans h.managerNode, h'.deaths.trans h.deaths, fun c hc h0 =>
      (h'.claims c hc h0).elim (fun hc => h.claims c hc h0) .inr⟩

/-- Adding one claim loads the buffer. -/
theorem ClaimAdded.loaded {target buffer node handle : Nat} {remote : Bool}
    (h : ClaimAdded o o' ⟨target, buffer, node, handle, remote⟩) : Loaded o o' target buffer := by
  refine ⟨h.sound, .of_nodes h.nodes h.nextNode, h.grows, h.counts, h.managerNode, h.deaths,
    fun c hc h0 => ?_⟩
  rcases (h.mem c h0).1 hc with rfl | hc
  · exact .inr ⟨rfl, rfl⟩
  · exact .inl hc

/-- Resolving one object and claiming its node. -/
theorem Inv.claimObject (h : o.Inv) {source target buffer offset handle : Nat} {tid : Int}
    {data : List UInt8} {o₁ o₂ : Objects} (hr : o.resolveObject source tid data offset = .ok (node, o₁))
    (hk : target ≠ 0) (hc : o₁.addClaim target buffer node (node.owner != target) = (some handle, o₂)) :
    o₂.Inv ∧ Loaded o o₂ target buffer ∧
      ClaimAdded o₁ o₂ ⟨target, buffer, node.id, handle, node.owner != target⟩ := by
  obtain ⟨hs, hkept, hrefs, hclaims, hm, hd, hfor, _, hmem⟩ := h.toSound.resolveObject hr
  obtain ⟨hno, _⟩ | ⟨handle', heq, hadd⟩ := hs.addClaim hk hfor rfl hc
  · cases hno
  · cases heq
    have hload : Loaded o o₁ target buffer :=
      ⟨hs, hkept, fun r hr h0 => ⟨r, hrefs ▸ hr, ⟨rfl, rfl⟩, rfl⟩,
        ⟨fun r hr h0 => ⟨r, hrefs ▸ hr, h0, rfl, id, id⟩, fun c hc _ => hclaims ▸ hc⟩, hm, hd,
        fun c hc _ => .inl (hclaims ▸ hc)⟩
    have hall := hload.trans hadd.loaded
    refine ⟨⟨hadd.sound, fun n hn h0 => ?_⟩, hall, hadd⟩
    rw [hadd.nodes] at hn
    rcases hmem n hn h0 with rfl | hn
    · exact hadd.sound.inUse_of_claim ((hadd.mem _ hk).2 (.inl rfl)) hk rfl
    · exact hall.counts.inUse (h.collected n hn h0)

/-- The object loop only adds nodes and claims; a failed addition is still to be
collected. -/
theorem Inv.translate (h : o.Inv) {k target b : Nat} {i : Int} (hk : target ≠ 0)
    (offsets : List Nat) (data : List UInt8) :
    Loaded o (translate k i target b offsets o data).objects target b ∧
      ((translate k i target b offsets o data).result = 0 →
        (translate k i target b offsets o data).objects.Inv) := by
  induction offsets generalizing o data with
  | nil => exact ⟨.refl h.toSound, fun _ => h⟩
  | cons offset rest ih =>
    simp only [Objects.translate]
    split
    next r hr => exact ⟨.refl h.toSound, fun h0 => h⟩
    next node o₁ hr =>
      split
      next o₂ hc =>
        obtain ⟨hs, hkept, hrefs, hclaims, hm, hd, hfor, _, _⟩ := h.toSound.resolveObject hr
        obtain ⟨_, rfl⟩ | ⟨_, hno, _⟩ := hs.addClaim hk hfor rfl hc
        · refine ⟨⟨hs, hkept, fun r hr h0 => ⟨r, hrefs ▸ hr, ⟨rfl, rfl⟩, rfl⟩,
            ⟨fun r hr h0 => ⟨r, hrefs ▸ hr, h0, rfl, id, id⟩, fun c hc _ => hclaims ▸ hc⟩, hm, hd,
            fun c hc _ => .inl (hclaims ▸ hc)⟩, fun h0 => absurd h0 (by simp)⟩
        · cases hno
      next handle o₂ hc =>
        obtain ⟨hinv, hload, _⟩ := h.claimObject hr hk hc
        obtain ⟨hload', hinv'⟩ := ih hinv (writeObject data offset node (node.owner != target) handle)
        exact ⟨hload.trans hload', hinv'⟩

end Translate

/-! ## Giving claims back -/

section Release

variable {o o' : Objects}

/-- Every reference of `o'` is one of `o`. -/
def Shrinks (o o' : Objects) : Prop :=
  ∀ r' ∈ o'.references, r'.endpoint ≠ 0 → ∃ r ∈ o.references, r'.SameKey r ∧ r'.node = r.node

theorem Shrinks.refl (o : Objects) : Shrinks o o := fun r hr _ => ⟨r, hr, ⟨rfl, rfl⟩, rfl⟩

theorem Shrinks.trans {o'' : Objects} (h : Shrinks o o') (h' : Shrinks o' o'') : Shrinks o o'' := by
  intro r'' hr'' h0
  obtain ⟨r', hr', hk', hn'⟩ := h' r'' hr'' h0
  obtain ⟨r, hr, hk, hn⟩ := h r' hr' (hk'.1 ▸ h0)
  exact ⟨r, hr, ⟨hk'.1.trans hk.1, hk'.2.trans hk.2⟩, hn'.trans hn⟩

/-- Writing a listed reference back drops or keeps it. -/
theorem Writes.shrinks {r ref : Reference} (hw : Writes o o' ref) (hr : r ∈ o.references)
    (hk : ref.SameKey r) (hn : ref.node = r.node) : Shrinks o o' := by
  intro x hx h0
  rcases (hw.mem x h0).1 hx with ⟨rfl, _⟩ | ⟨hx, _⟩
  · exact ⟨r, hr, hk, hn⟩
  · exact ⟨x, hx, ⟨rfl, rfl⟩, rfl⟩

/-- Giving back a hold leaves nodes and claims alone. -/
theorem releaseHold_frame (c : Claim) : (releaseHold o c).nodes = o.nodes ∧
    (releaseHold o c).claims = o.claims ∧ (releaseHold o c).nextNode = o.nextNode ∧
      (releaseHold o c).managerNode = o.managerNode := by
  unfold releaseHold
  split
  · split
    · exact ⟨rfl, rfl, rfl, rfl⟩
    · split
      · exact dropIfUnused_frame
      · exact ⟨rfl, rfl, rfl, rfl⟩
  · exact ⟨rfl, rfl, rfl, rfl⟩

/-- A claim given back takes its hold off the reference it was counted in. -/
theorem Tables.releaseHold {c : Claim} {claims : List Claim} (h : o.Tables (c :: claims))
    (h0 : c.endpoint ≠ 0) : (releaseHold o c).Tables claims ∧ Shrinks o (releaseHold o c) ∧
      (c.remote = true → ∃ r ∈ o.references, r.endpoint = c.endpoint ∧ r.node = c.node ∧
        Writes o (Objects.releaseHold o c) { r with temporaryStrong := r.temporaryStrong - 1 }) := by
  unfold Objects.releaseHold
  by_cases hrem : c.remote = true
  · obtain ⟨r, hr, hre, hrn, hrh⟩ := h.covered c List.mem_cons_self h0 hrem
    have hr0 : r.endpoint ≠ 0 := hre ▸ h0
    have hfor := h.referenceFor hr hr0
    rw [hre, hrh] at hfor
    rw [if_pos hrem, hfor]
    simp only [if_pos hrn]
    have hw : Writes o _ { r with temporaryStrong := r.temporaryStrong - 1 } := writes_listed h.handles h.targets hr hr0
      (h.small r hr hr0) ⟨rfl, rfl⟩ rfl
    have hcount : ∀ k n, (c :: claims).countP (·.holds k n) = claims.countP (·.holds k n) +
        if k = r.endpoint ∧ n = r.node then 1 else 0 := by
      intro k n
      rw [List.countP_cons]
      congr 1
      simp only [Claim.holds, hrem, Bool.and_true, Bool.and_eq_true, beq_iff_eq]
      exact if_congr ⟨fun h => ⟨h.1.symm.trans hre.symm, h.2.symm.trans hrn.symm⟩,
        fun h => ⟨(h.1.trans hre).symm, (h.2.trans hrn).symm⟩⟩ rfl rfl
    have hheld := h.held r hr hr0
    rw [hcount, if_pos ⟨rfl, rfl⟩] at hheld
    refine ⟨h.write hw (fun _ => ?_) (fun k n _ hne => ?_) (fun x hx _ _ =>
      .inl (List.mem_cons_of_mem _ hx)) fun x hx hh => ?_, hw.shrinks hr ⟨rfl, rfl⟩ rfl, fun _ =>
        ⟨r, hr, hre, hrn, hw⟩⟩
    · simp only
      omega
    · rw [hcount, if_neg hne]
      rfl
    · -- another claim of the reference still counts it
      have hpos : 0 < claims.countP (·.holds r.endpoint r.node) := List.countP_pos_iff.2 ⟨x, hx, hh⟩
      intro hun
      have := hun.2.2
      simp only at this
      omega
  · rw [if_neg hrem]
    have hcount : ∀ k n, (c :: claims).countP (·.holds k n) = claims.countP (·.holds k n) := by
      intro k n
      rw [List.countP_cons]
      simp [Claim.holds, hrem]
    exact ⟨⟨h.handles, h.targets, h.small, h.counted, fun r hr hr0 => (h.held r hr hr0).trans (hcount _ _),
      fun x hx => h.covered x (List.mem_cons_of_mem _ hx)⟩, .refl o, fun hr => absurd hr hrem⟩

/-- The loop over the claims given back. -/
theorem Tables.releaseHolds {l rest : List Claim} (h : o.Tables (l ++ rest))
    (hl : ∀ c ∈ l, c.endpoint ≠ 0) : (l.foldl Objects.releaseHold o).Tables rest ∧
      Shrinks o (l.foldl Objects.releaseHold o) ∧
        (l.foldl Objects.releaseHold o).nodes = o.nodes ∧
          (l.foldl Objects.releaseHold o).nextNode = o.nextNode ∧
            (l.foldl Objects.releaseHold o).managerNode = o.managerNode := by
  induction l generalizing o with
  | nil => exact ⟨h, .refl o, rfl, rfl, rfl⟩
  | cons c l ih =>
    obtain ⟨ht, hs, _⟩ := h.releaseHold (hl c List.mem_cons_self)
    obtain ⟨hn, _, hx, hm⟩ := releaseHold_frame (o := o) c
    obtain ⟨ht', hs', hn', hx', hm'⟩ := ih ht fun c hc => hl c (List.mem_cons_of_mem _ hc)
    exact ⟨ht', hs.trans hs', hn'.trans hn, hx'.trans hx, hm'.trans hm⟩

/-- The order of the claims does not matter. -/
theorem Tables.perm {l l' : List Claim} (h : o.Tables l) (hp : l.Perm l') : o.Tables l' :=
  ⟨h.handles, h.targets, h.small, h.counted, fun r hr h0 => (h.held r hr h0).trans (hp.countP_eq _),
    fun c hc => h.covered c (hp.mem_iff.2 hc)⟩

/-- Blank claims count for nothing. -/
theorem Tables.blank {claims : List Claim} {p : Claim → Bool}
    (h : o.Tables (claims.filter fun c => !p c)) : o.Tables (update p (fun _ => {}) claims) := by
  refine ⟨h.handles, h.targets, h.small, h.counted, fun r hr h0 => ?_, fun c hc h0 hrem => ?_⟩
  · rw [h.held r hr h0, List.countP_filter, update, List.countP_map]
    refine List.countP_congr fun c _ => ?_
    by_cases hp : p c = true
    · simp [hp, Claim.holds]
    · simp [hp]
  · rcases mem_update_const.1 hc with ⟨rfl, _⟩ | ⟨hc, hp⟩
    · exact absurd rfl h0
    · exact h.covered c (List.mem_filter.2 ⟨hc, by simpa using hp⟩) h0 hrem

/-- The tables before the nodes are collected. -/
def uncollected (o : Objects) (k buffer : Nat) : Objects :=
  { (o.claims.filter (claimMatches k buffer)).foldl Objects.releaseHold o with
    claims := update (claimMatches k buffer) (fun _ => {}) o.claims }

/-- The claims that a release gives back, in front of the others. -/
theorem Sound.released_tables (h : o.Sound) (k buffer : Nat) :
    o.Tables (o.claims.filter (claimMatches k buffer) ++
      o.claims.filter fun c => !claimMatches k buffer c) :=
  h.tables.perm (List.filter_append_perm _ _).symm

/-- The claims on a buffer of a live endpoint are not free. -/
theorem claimMatches_live {k buffer : Nat} (hk : k ≠ 0) :
    ∀ c ∈ o.claims.filter (claimMatches k buffer), c.endpoint ≠ 0 := fun c hc => by
  have := (List.mem_filter.1 hc).2
  simp only [claimMatches, Bool.and_eq_true, beq_iff_eq] at this
  exact this.1 ▸ hk

/-- Before the collection the tables are sound without the buffer's claims. -/
theorem Sound.uncollected (h : o.Sound) {k b : Nat} (hk : k ≠ 0) :
    (o.uncollected k b).Sound ∧ Shrinks o (o.uncollected k b) ∧
      (o.uncollected k b).nodes = o.nodes ∧ (o.uncollected k b).nextNode = o.nextNode ∧
        (o.uncollected k b).managerNode = o.managerNode := by
  obtain ⟨ht, hs, hn, hx, hm⟩ := (h.released_tables k b).releaseHolds (claimMatches_live hk)
  have hfor := @nodeFor_congr o (o.uncollected k b) hn
  refine ⟨⟨ht.blank.congr rfl, ⟨?_, ?_, ?_, ?_, fun r hr h0 => ?_, fun c hc h0 => ?_⟩,
    by simpa [Objects.uncollected] using h.room⟩, hs, hn, hx, hm⟩
  · simpa only [Objects.uncollected, hn] using h.nodes.ids
  · simpa only [Objects.uncollected, hn, hx] using h.nodes.issued
  · simpa only [Objects.uncollected, hx] using h.nodes.bounded
  · simpa only [Objects.uncollected, hn] using h.nodes.blank
  · obtain ⟨r₀, hr₀, hkey, hnode⟩ := hs r hr h0
    obtain ⟨n, hn, how⟩ := h.nodes.referred r₀ hr₀ (hkey.1 ▸ h0)
    exact ⟨n, by rw [hfor, hnode, hn], by rwa [hkey.1]⟩
  · rw [hfor]
    rcases mem_update_const.1 hc with ⟨rfl, _⟩ | ⟨hc, _⟩
    · exact absurd rfl h0
    · exact h.nodes.claimed c hc h0

/-- Releasing a buffer keeps the invariant and clears its claims, and no others. -/
theorem Sound.releaseClaims (h : o.Sound) {k b : Nat} (hk : k ≠ 0) :
    (o.releaseClaims k b).Inv ∧ Kept o (o.releaseClaims k b) ∧
      Shrinks o (o.releaseClaims k b) ∧ (o.releaseClaims k b).managerNode = o.managerNode ∧
        (o.releaseClaims k b).claims = update (claimMatches k b) (fun _ => {}) o.claims := by
  obtain ⟨hsound, hs, hn, hx, hm⟩ := h.uncollected (b := b) hk
  have hkept : Kept o (o.uncollected k b) := .of_nodes hn hx
  exact ⟨hsound.collect, hkept.trans hsound.kept_collect, hs, hm, rfl⟩

end Release

end Objects

end Artbox.Binder
