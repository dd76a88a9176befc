import Artbox.Binder.References

/-!
# A refused parcel leaves no trace

While a parcel is translated its reservation creates nodes and references and takes
claims; when something fails, one release of the claims and one collection of the nodes
take all of it back. The argument is slot by slot: `Staged` is what holds of the tables
between the first claim and the last hold given back, and at its end the counts of the
references leave no place for what the parcel had created (`Staged.agree`).
-/

namespace Artbox.Binder

open Slots

/-! ## Staging -/

/-- The references differ in the holds of buffers only. -/
def Reference.Alike (r r' : Reference) : Prop :=
  r' = { r with temporaryStrong := r'.temporaryStrong }

theorem Reference.Alike.refl (r : Reference) : r.Alike r := rfl

/-- References stay alike when a buffer holds or lets go. -/
theorem Reference.Alike.hold {r r' : Reference} (h : r.Alike r') (s : Nat) :
    r.Alike { r' with temporaryStrong := s } := by
  unfold Alike at h ⊢
  rw [h]

/-- A reference that only buffers hold. -/
structure Reference.Newborn (r : Reference) : Prop where
  strong : r.strong = 0
  weak : r.weak = 0
  death : r.death = 0

/-- A reference that only buffers hold stays so. -/
theorem Reference.Newborn.hold {r : Reference} (h : r.Newborn) (s : Nat) :
    ({ r with temporaryStrong := s } : Reference).Newborn := ⟨h.strong, h.weak, h.death⟩

namespace Objects

variable {o o' o'' : Objects} {target buffer : Nat}

/-- `o'` is `o` with references raised, and with references, nodes and claims of the
buffer added in slots that were free. -/
structure Staged (target buffer : Nat) (o o' : Objects) : Prop where
  references : ∀ (i : Nat) r, o.references[i]? = some r → r.endpoint ≠ 0 →
    ∃ r', o'.references[i]? = some r' ∧ r.Alike r'
  newborn : ∀ (i : Nat) r', o'.references[i]? = some r' → r'.endpoint ≠ 0 →
    (∃ r, o.references[i]? = some r ∧ r.endpoint ≠ 0 ∧ r.Alike r') ∨
      (r'.Newborn ∧ ∀ r, o.references[i]? = some r → r.endpoint = 0)
  nodes : ∀ (i : Nat) n, o.nodes[i]? = some n → n.id ≠ 0 → o'.nodes[i]? = some n
  created : ∀ (i : Nat) n, o'.nodes[i]? = some n → n.id ≠ 0 →
    o.nodes[i]? = some n ∨ (¬ Issued o.nextNode n.id ∧ n.Fresh ∧ n.manager = false)
  claims : ∀ (i : Nat) c, o.claims[i]? = some c → c.endpoint ≠ 0 → o'.claims[i]? = some c
  claimed : ∀ (i : Nat) c, o'.claims[i]? = some c → c.endpoint ≠ 0 →
    o.claims[i]? = some c ∨ (c.endpoint = target ∧ c.buffer = buffer)
  deaths : o'.deaths = o.deaths
  managerNode : o'.managerNode = o.managerNode
  next : ∀ id, Issued o.nextNode id → Issued o'.nextNode id

theorem Staged.refl (o : Objects) : Staged target buffer o o where
  references _ r hr _ := ⟨r, hr, .refl r⟩
  newborn _ r hr h0 := .inl ⟨r, hr, h0, .refl r⟩
  nodes _ _ hn _ := hn
  created _ _ hn _ := .inl hn
  claims _ _ hc _ := hc
  claimed _ _ hc _ := .inl hc
  deaths := rfl
  managerNode := rfl
  next _ hi := hi

/-- A reference raised or lowered in place. -/
theorem Staged.setReference (h : Staged target buffer o o')
    (hu : Unique (fun r : Reference => r.endpoint ≠ 0) (fun r => (r.endpoint, r.handle)) o'.references)
    {ref : Reference} (hr : ref ∈ o'.references) (h0 : ref.endpoint ≠ 0) (s : Nat) :
    Staged target buffer o (o'.setReference { ref with temporaryStrong := s }) := by
  -- the write reaches the slot of `ref` and no other
  have hwrite : ∀ (i : Nat) x, o'.references[i]? = some x →
      (o'.setReference { ref with temporaryStrong := s }).references[i]? =
        some (if x.endpoint == ref.endpoint && x.handle == ref.handle then
          { ref with temporaryStrong := s } else x) := by
    intro i x hx
    show (update _ _ o'.references)[i]? = _
    rw [getElem?_update, hx]
    rfl
  have hkey : ∀ x, x ∈ o'.references →
      (x.endpoint == ref.endpoint && x.handle == ref.handle) = true → x = ref := by
    intro x hx hk
    rw [Bool.and_eq_true, beq_iff_eq, beq_iff_eq] at hk
    refine hu.eq_of_mem hx hr ?_ h0 (Prod.ext hk.1 hk.2)
    rw [hk.1]
    exact h0
  refine ⟨fun i r hi hr0 => ?_, fun i r' hi hr0 => ?_, h.nodes, h.created, h.claims, h.claimed, h.deaths,
    h.managerNode, h.next⟩
  · obtain ⟨x, hx, hlike⟩ := h.references i r hi hr0
    refine ⟨_, hwrite i x hx, ?_⟩
    split
    next hk =>
      rw [hkey x (List.mem_of_getElem? hx) hk] at hlike
      exact hlike.hold s
    next => exact hlike
  · cases hx : o'.references[i]? with
    | none =>
      change (update _ _ o'.references)[i]? = some r' at hi
      rw [getElem?_update, hx] at hi
      cases hi
    | some x =>
      rw [hwrite i x hx] at hi
      obtain rfl := Option.some.inj hi
      split at hr0
      next hk =>
        rw [if_pos hk]
        have hxr := hkey x (List.mem_of_getElem? hx) hk
        rw [hxr] at hx
        rcases h.newborn i ref hx h0 with ⟨r, hr, hr0, hlike⟩ | ⟨hnew, hfree⟩
        · exact .inl ⟨r, hr, hr0, hlike.hold s⟩
        · exact .inr ⟨hnew.hold s, hfree⟩
      next hk =>
        rw [if_neg hk]
        exact h.newborn i x hx hr0

/-- The slots of other references stay when one is dropped. -/
theorem dropReference_slot {ref r : Reference} {i : Nat} (h0 : r.endpoint ≠ 0) :
    (o.dropReference ref).references[i]? = some r ↔ o.references[i]? = some r ∧ ¬ r.SameKey ref := by
  have hblank := @getElem?_update_blank Reference (fun r => r.endpoint ≠ 0) o.references
    (fun r => r.endpoint == ref.endpoint && r.handle == ref.handle) r i {} (fun h => h rfl) h0
  refine hblank.trans (and_congr_right' ?_)
  rw [← Bool.not_eq_true, Bool.and_eq_true, beq_iff_eq, beq_iff_eq]
  exact Iff.rfl

/-- A reference of the parcel's own is dropped. -/
theorem Staged.dropReference (h : Staged target buffer o o') {ref : Reference}
    (hnew : ref.death = 0)
    (hold : ∀ (i : Nat) r r', o.references[i]? = some r → r.endpoint ≠ 0 → o'.references[i]? = some r' →
      ¬ r'.SameKey ref) : Staged target buffer o (o'.dropReference ref) := by
  have hdeaths : (o'.dropReference ref).deaths = o'.deaths := if_pos hnew
  refine ⟨fun i r hi hr0 => ?_, fun i r' hi hr0 => ?_, h.nodes, h.created, h.claims, h.claimed,
    hdeaths.trans h.deaths, h.managerNode, h.next⟩
  · obtain ⟨r', hr', hlike⟩ := h.references i r hi hr0
    have hr0' : r'.endpoint ≠ 0 := by
      rw [hlike]
      exact hr0
    exact ⟨r', (dropReference_slot hr0').2 ⟨hr', hold i r r' hi hr0 hr'⟩, hlike⟩
  · exact h.newborn i r' ((dropReference_slot hr0).1 hi).1 hr0

/-! ## Translating -/

/-- A raised reference that is new has no subscription. -/
theorem ensureReference_death {k : Nat} {node : Node} {ref : Reference}
    (he : o.ensureReference k node = some (ref, o')) : ref ∈ o.references ∨ ref.death = 0 := by
  unfold Objects.ensureReference at he
  split at he
  next r hr =>
    cases he
    exact .inl (List.mem_of_find?_eq_some hr)
  next =>
    split at he
    · cases he
    · obtain ⟨_, _, heq⟩ := Option.map_eq_some_iff.1 he
      cases heq
      exact .inr rfl

/-- Raising a reference stages it for the buffer. -/
theorem Staged.ensureReference (h : Staged target buffer o o') (hs : o'.Sound) (hk : target ≠ 0)
    {node : Node} {ref : Reference} (he : o'.ensureReference target node = some (ref, o'')) :
    Staged target buffer o o'' ∧ ref ∈ o''.references ∧ ref.endpoint ≠ 0 ∧
      Unique (fun r : Reference => r.endpoint ≠ 0) (fun r => (r.endpoint, r.handle)) o''.references := by
  obtain ⟨hre, _, ⟨hmem, rfl⟩ | ⟨hstrong, hweak, _, _, hfresh, references, hins, rfl⟩⟩ :=
    ensureReference_spec he
  · exact ⟨h, hmem, hre ▸ hk, hs.tables.handles⟩
  · have hdeath : ref.death = 0 := by
      rcases ensureReference_death he with hmem | hdeath
      · exact absurd rfl (hfresh ref hmem hre).1
      · exact hdeath
    refine ⟨⟨fun i r hi hr0 => ?_, fun i r' hi hr0 => ?_, h.nodes, h.created, h.claims, h.claimed, h.deaths,
      h.managerNode, h.next⟩, self_mem_insertFree hins, hre ▸ hk, ?_⟩
    · obtain ⟨r', hr', hlike⟩ := h.references i r hi hr0
      have hr0' : r'.endpoint ≠ 0 := by
        rw [hlike]
        exact hr0
      exact ⟨r', getElem?_of_insertFree hins hr' (by simpa using hr0'), hlike⟩
    · rcases insertFree_getElem? hins hi with hi | ⟨rfl, hfree⟩
      · exact h.newborn i r' hi hr0
      · refine .inr ⟨⟨hstrong, hweak, hdeath⟩, fun r hr => ?_⟩
        by_contra hr0
        obtain ⟨r'', hr'', hlike⟩ := h.references i r hr hr0
        have hzero := hfree r'' hr''
        rw [beq_iff_eq, hlike] at hzero
        exact hr0 hzero
    · refine hs.tables.handles.insertFree hins fun r hr _ heq => ?_
      obtain ⟨he, hh⟩ := Prod.mk.inj heq
      exact (hfresh r hr (he.trans hre)).1 hh

/-- A claim is staged in a free slot. -/
theorem Staged.insertClaim (h : Staged target buffer o o') {node handle : Nat} {remote : Bool}
    {claims : List Claim} (hins : insertFree claimLimit (fun c : Claim => c.endpoint == 0)
      ⟨target, buffer, node, handle, remote⟩ o'.claims = some claims) :
    Staged target buffer o { o' with claims } := by
  refine ⟨h.references, h.newborn, h.nodes, h.created, fun i c hi h0 => ?_, fun i c hi h0 => ?_, h.deaths,
    h.managerNode, h.next⟩
  · exact getElem?_of_insertFree hins (h.claims i c hi h0) (by simpa using h0)
  · rcases insertFree_getElem? hins hi with hi | ⟨rfl, _⟩
    · exact h.claimed i c hi h0
    · exact .inr ⟨rfl, rfl⟩

/-- A claim is staged with its reference, also where the table turns out to be full. -/
theorem Staged.addClaim (h : Staged target buffer o o') (hs : o'.Sound) (hk : target ≠ 0) {node : Node}
    {remote : Bool} {res : Option Nat} (heq : o'.addClaim target buffer node remote = (res, o'')) :
    Staged target buffer o o'' := by
  unfold Objects.addClaim at heq
  split at heq
  · cases heq
    exact h
  · split at heq
    · split at heq
      · cases heq
        exact h
      next ref o₁ he =>
        obtain ⟨h₁, hmem, h0, hu⟩ := h.ensureReference hs hk he
        split at heq
        · cases heq
          exact h₁
        · have h₂ := h₁.setReference hu hmem h0 (ref.temporaryStrong + 1)
          dsimp only at heq
          split at heq
          · cases heq
            exact h₂
          next claims hins =>
            cases heq
            exact h₂.insertClaim hins
    · split at heq
      · cases heq
        exact h
      next claims hins =>
        cases heq
        exact h.insertClaim hins

/-- Resolving an object stages at most its node. -/
theorem Staged.resolveObject (h : Staged target buffer o o') (hs : o'.Sound) {source : Nat} {tid : Int}
    {data : List UInt8} {offset : Nat} {node : Node}
    (hr : o'.resolveObject source tid data offset = .ok (node, o'')) :
    Staged target buffer o o'' := by
  unfold Objects.resolveObject at hr
  split at hr
  · split at hr
    · split at hr
      · cases hr
      · cases hr
        exact h
    · split at hr
      · cases hr
      next n o₁ hc =>
        cases hr
        obtain ⟨hid, h0, _, _, _, hman, hfresh, nodes, hins, rfl⟩ := createNode_spec hc
        have hnew : ¬ Issued o.nextNode node.id := fun hi => (h.next _ hi).ne h0 hid
        refine ⟨h.references, h.newborn, fun i n hi hn0 => ?_, fun i n hi hn0 => ?_, h.claims, h.claimed,
          h.deaths, h.managerNode, fun id hi => ?_⟩
        · exact getElem?_of_insertFree hins (h.nodes i n hi hn0) (by simpa using hn0)
        · rcases insertFree_getElem? hins hi with hi | ⟨rfl, _⟩
          · exact h.created i n hi hn0
          · exact .inr ⟨hnew, hfresh, hman⟩
        · exact Issued.succ hs.nodes.bounded h0 (.inl (h.next id hi))
  · split at hr
    · cases hr
    · split at hr
      · cases hr
      · cases hr
        exact h

/-- The translation of a parcel stages all its objects, up to the one that fails. -/
theorem Staged.translate (h : Staged target buffer o o') (hi : o'.Inv) (hk : target ≠ 0) {source : Nat}
    {tid : Int} (offsets : List Nat) (data : List UInt8) :
    Staged target buffer o (translate source tid target buffer offsets o' data).objects := by
  induction offsets generalizing o' data with
  | nil => exact h
  | cons offset rest ih =>
    simp only [Objects.translate]
    split
    · exact h
    next node o₁ hr =>
      have hs₁ := (hi.toSound.resolveObject hr).1
      have h₁ := h.resolveObject hi.toSound hr
      split
      next o₂ hc => exact h₁.addClaim hs₁ hk hc
      next handle o₂ hc =>
        exact ih (h₁.addClaim hs₁ hk hc) (hi.claimObject hr hk hc).1 _

/-! ## Giving holds back -/

/-- A hold given back: what is dropped then was the parcel's own, since the references
that were there before are still counted by `rest`. -/
theorem Staged.releaseHold (h : Staged target buffer o o') (hc : o.Tables o.claims) {c : Claim}
    {l rest : List Claim} (ht : o'.Tables (c :: (l ++ rest))) (h0 : c.endpoint ≠ 0)
    (hrest : ∀ k n, k ≠ 0 → o.claims.countP (·.holds k n) ≤ rest.countP (·.holds k n)) :
    Staged target buffer o (Objects.releaseHold o' c) := by
  unfold Objects.releaseHold
  split
  next hrem =>
    obtain ⟨r, hr, hre, hrn, hrh⟩ := ht.covered c List.mem_cons_self h0 hrem
    have hr0 : r.endpoint ≠ 0 := by rwa [hre]
    have hfor := ht.referenceFor hr hr0
    rw [hre, hrh] at hfor
    rw [hfor]
    dsimp only
    rw [if_pos hrn]
    have hset := h.setReference ht.handles hr hr0 (r.temporaryStrong - 1)
    unfold dropIfUnused
    split
    next hun =>
      obtain ⟨hstrong, hweak, hzero⟩ := hun
      dsimp only at hstrong hweak hzero
      -- the reference had one hold left, the one given back
      have hone : l.countP (·.holds r.endpoint r.node) = 0 ∧ rest.countP (·.holds r.endpoint r.node) = 0 := by
        have hheld := ht.held r hr hr0
        have hself : c.holds r.endpoint r.node = true := by
          simp [Claim.holds, hre, hrn, hrem]
        rw [List.countP_cons, if_pos hself, List.countP_append] at hheld
        omega
      have hnone : ∀ (i : Nat) r₀, o.references[i]? = some r₀ → r₀.endpoint ≠ 0 →
          ¬ r₀.Alike r := by
        intro i r₀ hi hr₀ hlike
        have hmem := List.mem_of_getElem? hi
        have he : r.endpoint = r₀.endpoint := by rw [hlike]
        have hn : r.node = r₀.node := by rw [hlike]
        have hs : r.strong = r₀.strong := by rw [hlike]
        have hw : r.weak = r₀.weak := by rw [hlike]
        refine hc.counted r₀ hmem hr₀ ⟨hs.symm.trans hstrong, hw.symm.trans hweak, ?_⟩
        have hle := hrest r.endpoint r.node hr0
        rw [hc.held r₀ hmem hr₀, ← he, ← hn]
        omega
      obtain ⟨i, hi⟩ := List.mem_iff_getElem?.1 hr
      have hborn : r.death = 0 := by
        rcases h.newborn i r hi hr0 with ⟨r₀, hr₀, hr₀0, hlike⟩ | ⟨hnew, _⟩
        · exact absurd hlike (hnone i r₀ hr₀ hr₀0)
        · exact hnew.death
      refine hset.dropReference hborn fun j r₀ r' hj hr₀ hr' hk => ?_
      obtain ⟨x, hx, hlike⟩ := h.references j r₀ hj hr₀
      have hxr : x = r := by
        have hx' : (o'.setReference { r with temporaryStrong := r.temporaryStrong - 1 }).references[j]? =
            some r' := hr'
        change (update _ _ o'.references)[j]? = some r' at hx'
        rw [getElem?_update, hx, Option.map_some, Option.some.injEq] at hx'
        split at hx'
        next hkey =>
          rw [Bool.and_eq_true, beq_iff_eq, beq_iff_eq] at hkey
          exact ht.handles.eq_of_mem (List.mem_of_getElem? hx) hr (by rwa [hkey.1]) hr0
            (Prod.ext hkey.1 hkey.2)
        next hkey =>
          rw [hx'] at hkey
          exact absurd (by simpa [Reference.SameKey] using hk) hkey
      rw [hxr] at hlike
      exact hnone j r₀ hj hr₀ hlike
    next => exact hset
  next => exact h

/-- The loop over the holds given back. -/
theorem Staged.releaseHolds (h : Staged target buffer o o') (hc : o.Tables o.claims)
    {l rest : List Claim} (ht : o'.Tables (l ++ rest)) (hl : ∀ c ∈ l, c.endpoint ≠ 0)
    (hrest : ∀ k n, k ≠ 0 → o.claims.countP (·.holds k n) ≤ rest.countP (·.holds k n)) :
    Staged target buffer o (l.foldl Objects.releaseHold o') := by
  induction l generalizing o' with
  | nil => exact h
  | cons c l ih =>
    have h0 := hl c List.mem_cons_self
    exact ih (h.releaseHold hc ht h0 hrest) (ht.releaseHold h0).1
      fun x hx => hl x (List.mem_cons_of_mem _ hx)

/-! ## The tables afterwards -/

/-- The same nodes, references, claims and death subscriptions, in the same slots. -/
structure Restored (o o' : Objects) : Prop where
  nodes : Agree (fun n : Node => n.id ≠ 0) o.nodes o'.nodes
  references : Agree (fun r : Reference => r.endpoint ≠ 0) o.references o'.references
  claims : Agree (fun c : Claim => c.endpoint ≠ 0) o.claims o'.claims
  deaths : o'.deaths = o.deaths
  managerNode : o'.managerNode = o.managerNode

theorem Restored.refl (o : Objects) : Restored o o := ⟨.refl _ _, .refl _ _, .refl _ _, rfl, rfl⟩

/-- A claim that holds a reference is not free. -/
theorem Claim.live_of_holds {k n : Nat} (hk : k ≠ 0) (c : Claim) (h : c.holds k n = true) :
    c.endpoint ≠ 0 := by
  simp only [Claim.holds, Bool.and_eq_true, beq_iff_eq] at h
  rw [h.1.1]
  exact hk

/-- Clearing claims takes their holds away and no others. -/
theorem countP_blank {p : Claim → Bool} {claims : List Claim} {k n : Nat} (hk : k ≠ 0) :
    (update p (fun _ => {}) claims).countP (·.holds k n) =
      (claims.filter fun c => !p c).countP (·.holds k n) := by
  rw [List.countP_filter, update, List.countP_map]
  refine List.countP_congr fun c _ => ?_
  by_cases hp : p c = true
  · have hblank : ({} : Claim).holds k n = false := by
      rw [← Bool.not_eq_true]
      intro h
      exact Claim.live_of_holds hk {} h rfl
    simp [hp, hblank]
  · simp [hp]

/-- Nodes are used alike in tables that agree. -/
theorem inUse_agree
    (hr : Agree (fun r : Reference => r.endpoint ≠ 0) o.references o'.references)
    (hc : Agree (fun c : Claim => c.endpoint ≠ 0) o.claims o'.claims) (n : Node) :
    o'.inUse n = o.inUse n := by
  have hstrong : o'.strongUse n = o.strongUse n := by
    unfold Objects.strongUse
    rw [hr.any fun r hq => ?_, hc.any fun c hq => ?_]
    · simp only [Bool.and_eq_true, bne_iff_ne] at hq
      exact hq.1.1
    · simp only [Bool.and_eq_true, bne_iff_ne] at hq
      exact hq.1.1
  have hweak : o'.weakUse n = o.weakUse n := by
    unfold Objects.weakUse
    rw [hstrong, hr.any fun r hq => ?_]
    simp only [Bool.and_eq_true, bne_iff_ne] at hq
    exact hq.1
  rw [Objects.inUse, Objects.inUse, hstrong, hweak]

/-- The collection leaves the nodes in use in their slots. -/
theorem collectNodes_slot {n : Node} {i : Nat} (h0 : n.id ≠ 0) :
    o.collectNodes.nodes[i]? = some n ↔ o.nodes[i]? = some n ∧ o.inUse n = true := by
  refine (@getElem?_update_blank Node (fun n => n.id ≠ 0) _ _ _ _ {} (fun h => h rfl) h0).trans ?_
  have hunused : (n.id != 0 && !n.hasStrong && !n.hasWeak && !o.strongUse n && !o.weakUse n) =
      !o.inUse n := by
    simp [Objects.inUse, h0, Bool.not_or, Bool.and_assoc]
  rw [hunused, Bool.not_eq_false']

/-- A node that is not there yet is not used. -/
theorem Sound.not_inUse (h : o.Sound) {n : Node} (hnew : ¬ Issued o.nextNode n.id) (hf : n.Fresh)
    (hm : n.manager = false) : o.inUse n = false := by
  have hissued : ∀ {id : Nat} {n' : Node}, o.nodeFor id = some n' → id ≠ n.id := by
    intro id n' hn' heq
    obtain ⟨hmem, hid, h0⟩ := nodeFor_spec hn'
    have hi := h.nodes.issued n' hmem (by rwa [hid])
    rw [hid, heq] at hi
    exact hnew hi
  have hrefs : ∀ r ∈ o.references, r.endpoint ≠ 0 → r.node ≠ n.id := by
    intro r hr h0
    obtain ⟨n', hn', _⟩ := h.nodes.referred r hr h0
    exact hissued hn'
  have hclaims : ∀ c ∈ o.claims, c.endpoint ≠ 0 → c.node ≠ n.id := by
    intro c hc h0
    obtain ⟨n', hn', _⟩ := h.nodes.claimed c hc h0
    exact hissued hn'
  have hstrong : o.strongUse n = false := by
    rw [← Bool.not_eq_true]
    intro hu
    simp only [Objects.strongUse, hm, hf.pendingStrong, Bool.false_and, Bool.false_or, Bool.or_eq_true,
      List.any_eq_true, Bool.and_eq_true, bne_iff_ne, beq_iff_eq] at hu
    rcases hu with ⟨r, hr, ⟨h0, hn⟩, _⟩ | ⟨c, hc, ⟨h0, hn⟩, _⟩
    · exact hrefs r hr h0 hn
    · exact hclaims c hc h0 hn
  have hweak : o.weakUse n = false := by
    rw [← Bool.not_eq_true]
    intro hu
    simp only [Objects.weakUse, hf.pendingWeak, hstrong, Bool.false_or, Bool.or_false, List.any_eq_true,
      Bool.and_eq_true, bne_iff_ne, beq_iff_eq] at hu
    obtain ⟨r, hr, h0, hn⟩ := hu
    exact hrefs r hr h0 hn
  rw [Objects.inUse, hf.hasStrong, hf.hasWeak, hm, hstrong, hweak]
  rfl

/-- The release of the claims and the collection that follows it restore the tables. -/
theorem Staged.restored (h : Staged target buffer o o') (hi : o.Inv) (hs : o'.Sound) (hk : target ≠ 0)
    (hb : buffer ≠ 0) (hfresh : ∀ c ∈ o.claims, c.endpoint ≠ 0 → ¬ c.At target buffer) :
    Restored o (o'.releaseClaims target buffer) := by
  have hmatch : ∀ c, claimMatches target buffer c = false ↔ ¬ c.At target buffer := by
    intro c
    simp [claimMatches, Claim.At, hb]
  have hclaims : Agree (fun c : Claim => c.endpoint ≠ 0) o.claims
      (update (claimMatches target buffer) (fun _ => {}) o'.claims) := by
    intro i c h0
    refine (@getElem?_update_blank Claim (fun c => c.endpoint ≠ 0) _ _ _ _ {} (fun h => h rfl) h0).trans ?_
    constructor
    · rintro ⟨hc, hp⟩
      exact (h.claimed i c hc h0).resolve_right ((hmatch c).1 hp)
    · intro hc
      exact ⟨h.claims i c hc h0, (hmatch c).2 (hfresh c (List.mem_of_getElem? hc) h0)⟩
  -- the claims that stay are those that were there, so they count the same
  have hcount : ∀ k n, k ≠ 0 → (o'.claims.filter fun c => !claimMatches target buffer c).countP
      (·.holds k n) = o.claims.countP (·.holds k n) := by
    intro k n hk'
    rw [← countP_blank hk']
    exact hclaims.countP fun c hc => Claim.live_of_holds hk' c hc
  obtain ⟨hsound, _⟩ := hs.uncollected (b := buffer) hk
  have hstaged : Staged target buffer o
      ((o'.claims.filter (claimMatches target buffer)).foldl Objects.releaseHold o') :=
    h.releaseHolds hi.tables (hs.released_tables target buffer) (claimMatches_live hk)
      fun k n hk' => Nat.le_of_eq (hcount k n hk').symm
  have hheld : ∀ r ∈ (o'.uncollected target buffer).references, r.endpoint ≠ 0 →
      r.temporaryStrong = o.claims.countP (·.holds r.endpoint r.node) := by
    intro r hr h0
    rw [hsound.tables.held r hr h0, ← hcount _ _ h0]
    exact countP_blank h0
  have hsame : ∀ (i : Nat) r r', o.references[i]? = some r → r.endpoint ≠ 0 →
      (o'.uncollected target buffer).references[i]? = some r' → r.Alike r' → r' = r := by
    intro i r r' hr h0 hr' hlike
    have he : r'.endpoint = r.endpoint := by rw [hlike]
    have hn : r'.node = r.node := by rw [hlike]
    have htemp := hheld r' (List.mem_of_getElem? hr') (by rwa [he])
    rw [he, hn, ← hi.tables.held r (List.mem_of_getElem? hr) h0] at htemp
    unfold Reference.Alike at hlike
    rw [hlike, htemp]
  have hrefs : Agree (fun r : Reference => r.endpoint ≠ 0) o.references
      (o'.uncollected target buffer).references := by
    intro i r h0
    constructor
    · intro hr
      rcases hstaged.newborn i r hr h0 with ⟨r₀, hr₀, hr₀0, hlike⟩ | ⟨hnew, hfree⟩
      · rw [hsame i r₀ r hr₀ hr₀0 hr hlike]
        exact hr₀
      · -- only claims could hold a newborn reference, and their references were there before
        have hmem := List.mem_of_getElem? hr
        have htemp : r.temporaryStrong ≠ 0 := fun hz =>
          hsound.tables.counted r hmem h0 ⟨hnew.strong, hnew.weak, hz⟩
        rw [hheld r hmem h0] at htemp
        obtain ⟨c, hc, hholds⟩ := List.countP_pos_iff.1 (Nat.pos_of_ne_zero htemp)
        have hlive := Claim.live_of_holds h0 c hholds
        simp only [Claim.holds, Bool.and_eq_true, beq_iff_eq] at hholds
        obtain ⟨r₁, hr₁, hre, hrn, _⟩ := hi.tables.covered c hc hlive hholds.2
        have hr₁0 : r₁.endpoint ≠ 0 := by rwa [hre]
        obtain ⟨j, hj⟩ := List.mem_iff_getElem?.1 hr₁
        obtain ⟨r₂, hr₂, hlike⟩ := hstaged.references j r₁ hj hr₁0
        obtain rfl := hsame j r₁ r₂ hj hr₁0 hr₂ hlike
        have hij := hsound.tables.targets.slot hr hr₂ h0 hr₁0
          (Prod.ext (hholds.1.1.symm.trans hre.symm) (hholds.1.2.symm.trans hrn.symm))
        rw [hij] at hfree
        exact absurd (hfree r₂ hj) hr₁0
    · intro hr
      obtain ⟨r', hr', hlike⟩ := hstaged.references i r hr h0
      rw [hsame i r r' hr h0 hr' hlike] at hr'
      exact hr'
  have huse : ∀ n, (o'.uncollected target buffer).inUse n = o.inUse n := inUse_agree hrefs hclaims
  refine ⟨fun i n h0 => ?_, hrefs, hclaims, hstaged.deaths, hstaged.managerNode⟩
  refine (@collectNodes_slot (o'.uncollected target buffer) n i h0).trans ?_
  rw [huse n]
  constructor
  · rintro ⟨hn, hu⟩
    rcases hstaged.created i n hn h0 with hn | ⟨hnew, hf, hm⟩
    · exact hn
    · rw [hi.toSound.not_inUse hnew hf hm] at hu
      cases hu
  · intro hn
    exact ⟨hstaged.nodes i n hn h0, hi.collected n (List.mem_of_getElem? hn) h0⟩

end Objects

/-! ## The arena afterwards -/

/-- The same buffers; bytes outside of them may be zero now. -/
structure Arena.Untouched (a a' : Arena) : Prop where
  base : a'.base = a.base
  capacity : a'.capacity = a.capacity
  limit : a'.limit = a.limit
  buffers : a'.buffers = a.buffers
  bytes : ∀ i, a'.bytes i = a.bytes i ∨ (a'.bytes i = 0 ∧ ∀ s ∈ a.buffers,
    ¬ (s.value.address ≤ a.base + i ∧ a.base + i < s.value.address + s.value.extent))

theorem Arena.Untouched.refl (a : Arena) : a.Untouched a := ⟨rfl, rfl, rfl, rfl, fun _ => .inl rfl⟩

/-- A reservation taken back. -/
theorem Arena.untouched_cancel {a a' : Arena} {dataSize offsetsSize extraSize : Nat} {b : Buffer}
    (h : a.reserve dataSize offsetsSize extraSize false = .ok (b, a')) :
    a.Untouched (a'.cancel b.address).2 := by
  obtain ⟨_, hfresh, hnew, hsame, _, honly⟩ := Arena.reserve_spec h
  have hslot : a'.slotFor b.address = some ⟨b, false, false⟩ :=
    Arena.slotFor_eq_some.2 ⟨hnew, rfl⟩
  have hsplit : ∃ index, a'.buffers = a.buffers.take index ++ ⟨b, false, false⟩ :: a.buffers.drop index ∧
      a'.limit = a.limit ∧ ∃ offset, b.address = a.base + offset ∧
        a'.bytes = fillZero a.bytes offset b.extent := by
    simp only [Arena.reserve] at h
    split at h; · cases h
    split at h; · cases h
    split at h; · cases h
    split at h; · cases h
    split at h; · cases h
    obtain ⟨rfl, rfl⟩ := Prod.mk.inj (Except.ok.inj h)
    exact ⟨_, rfl, rfl, _, rfl, rfl⟩
  obtain ⟨index, hbuffers, hlimit, offset, haddress, hbytes⟩ := hsplit
  have herase : a'.buffers.eraseP (fun s => s.value.address == b.address) = a.buffers := by
    have hbefore : ∀ s ∈ a.buffers.take index, ¬ (s.value.address == b.address) = true := by
      intro s hs
      rw [beq_iff_eq]
      exact hfresh s (List.mem_of_mem_take hs)
    rw [hbuffers, List.eraseP_append_right _ hbefore, List.eraseP_cons_of_pos (by simp),
      List.take_append_drop]
  have hcancel : (a'.cancel b.address).2.bytes = a'.bytes ∧
      (a'.cancel b.address).2.buffers = a'.buffers.eraseP (fun s => s.value.address == b.address) ∧
        (a'.cancel b.address).2.base = a'.base ∧ (a'.cancel b.address).2.capacity = a'.capacity ∧
          (a'.cancel b.address).2.limit = a'.limit := by
    unfold Arena.cancel Arena.removeBuffer
    rw [hslot]
    exact ⟨rfl, rfl, rfl, rfl, rfl⟩
  obtain ⟨hcbytes, hcbuffers, hcbase, hccapacity, hclimit⟩ := hcancel
  refine ⟨hcbase.trans hsame.base, hccapacity.trans hsame.capacity, hclimit.trans hlimit,
    hcbuffers.trans herase, fun i => ?_⟩
  rw [hcbytes, hbytes]
  unfold fillZero
  split
  next hin =>
    -- the zeroed bytes were those of the buffer taken back
    refine .inr ⟨rfl, fun s hs hi => ?_⟩
    have hs' := (hsame.mem s (hfresh s hs)).2 hs
    rcases a'.laid.disjoint hs' hnew with heq | hd | hd
    · exact hfresh s hs (by rw [heq])
    · dsimp only at hd
      omega
    · dsimp only at hd
      omega
  next => exact .inl rfl

/-- What a failed reservation leaves of the target's arena. -/
theorem arena_of_failed {ω : Type} {host : Host ω} {w w' : ω} {o : Objects} {e target : Endpoint}
    {tid : Int} {input : TransactionData} {node : Option Node} {r : Reservation}
    (hr : reservePayload host w o e tid target input node = (r, w')) (h0 : r.result ≠ 0) :
    r.arena = target.arena ∨
      ∃ a a', receiveArena target = some a ∧ r.arena = some a' ∧ a.Untouched a' := by
  rcases reservePayload_cases hr with ⟨_, _, hra | hra⟩ | ⟨arena, data, offsets, harena, hd, ho, hc, rfl⟩
  · exact .inl hra
  · cases ha : receiveArena target with
    | none =>
      refine .inl ?_
      rw [hra, ha]
      unfold receiveArena at ha
      split at ha
      · cases ha
      next hnone => exact hnone.symm
    | some a => exact .inr ⟨a, a, rfl, hra.trans ha, .refl a⟩
  · rcases storePayload_cases o e tid target arena input node hd ho hc with
      ⟨c, _, heq⟩ | ⟨b, reserved, held, t, hres, _, _, ⟨_, heq⟩ | ⟨_, heq⟩⟩
    · rw [heq]
      exact .inr ⟨arena, arena, harena, rfl, .refl arena⟩
    · rw [heq]
      exact .inr ⟨arena, _, harena, rfl, Arena.untouched_cancel hres⟩
    · rw [heq] at h0
      exact absurd rfl h0

/-- What a failed reservation leaves of the tables. -/
theorem Reserved.restored {d : Device} {e target : Endpoint} {th : Thread} {node : Option Node}
    {input : TransactionData} {r : Reservation} (ha : Accounts d)
    (hr : Reserved d e th target node input r) (h0 : r.result ≠ 0) :
    Objects.Restored d.objects r.objects := by
  obtain ⟨ω, host, w, w', hres⟩ := hr.result
  have hk := (Device.endpointFor_spec hr.targetFound).2.2
  rcases reservePayload_cases hres with ⟨_, ho, _⟩ | ⟨arena, data, offsets, harena, hd, ho, hc, rfl⟩
  · rw [ho]
    exact .refl _
  · rcases storePayload_cases d.objects e th.tid target arena input node hd ho hc with
      ⟨c, _, hr'⟩ | ⟨b, reserved, held, t, hres', hheld, ht, ⟨_, hr'⟩ | ⟨_, hr'⟩⟩
    · rw [hr']
      exact .refl _
    · rw [hr']
      have hsound := (loaded_translate ha.objects hk hr.nodeFound hheld ht).1.sound
      have hclaim : Objects.Staged target.token b.address d.objects held.2 := by
        rw [← hheld]
        unfold claimTarget
        split
        · exact .refl _
        next n =>
          split
          · exact .refl _
          · split
            next hadd => exact (Objects.Staged.refl _).addClaim ha.objects.toSound hk hadd
            next hadd => exact (Objects.Staged.refl _).addClaim ha.objects.toSound hk hadd
      have hinv : held.1 = 0 → held.2.Inv := by
        rw [← hheld]
        exact (ha.objects.claimTarget hk hr.nodeFound).2
      have hstaged : Objects.Staged target.token b.address d.objects t.objects := by
        rw [ht]
        split
        next hzero => exact hclaim.translate (hinv hzero) hk _ _
        next => exact hclaim
      obtain ⟨_, _, _, _, hpos, _⟩ := Arena.reserve_spec hres'
      refine hstaged.restored ha.objects hsound hk (Nat.ne_of_gt hpos) fun c hmem hc0 hat => ?_
      -- no claim is held by a buffer that was not there
      have hbuf := ha.buffers c hmem hc0
      rw [hat.1, hat.2, Device.bufferState, Device.arenaFor_of hr.targetFound,
        ← Device.stateAt_receiveArena harena] at hbuf
      exact hbuf (Arena.stateAt_reserve hres').1
    · rw [hr'] at h0
      exact absurd rfl h0

/-! ## The device afterwards -/

/-- The endpoint with the same buffers; the sender's thread may have an error. -/
structure Endpoint.Untouched (token : Nat) (tid : Int) (e e' : Endpoint) : Prop where
  rest : e' = { e with arena := e'.arena, threads := e'.threads }
  arena : e'.arena = e.arena ∨
    ∃ a a', receiveArena e = some a ∧ e'.arena = some a' ∧ a.Untouched a'
  threads : List.Forall₂ (fun t t' : Thread => t' = t ∨ (e.token = token ∧ t.tid = tid ∧
    t' = { t with error := t'.error, deadReply := t'.deadReply })) e.threads e'.threads

/-- Nothing a parcel could have left behind: the same objects, the same queue and calls, and
the same buffers. -/
structure Device.Untouched (token : Nat) (tid : Int) (d d' : Device) : Prop where
  rest : d' = { d with endpoints := d'.endpoints, objects := d'.objects, history := d'.history }
  objects : Objects.Restored d.objects d'.objects
  endpoints : List.Forall₂ (Endpoint.Untouched token tid) d.endpoints d'.endpoints

namespace Device

variable {d d' : Device} {token : Nat} {tid : Int}

theorem Untouched.refl (token : Nat) (tid : Int) (d : Device) : d.Untouched token tid d := by
  refine ⟨rfl, .refl _, List.forall₂_same.2 fun e _ => ⟨rfl, .inl rfl, List.forall₂_same.2 ?_⟩⟩
  intro t _
  exact .inl rfl

/-- The sender's thread gets its error. -/
theorem Untouched.updateThread (h : d.Untouched token tid d') {f : Thread → Thread}
    (hf : ∀ t, f t = { t with error := (f t).error, deadReply := (f t).deadReply }) :
    d.Untouched token tid (d'.updateThread token tid f) := by
  refine ⟨?_, h.objects, List.forall₂_map_right_iff.2 (h.endpoints.imp fun e e' he => ?_)⟩
  · rw [h.rest]
    rfl
  · have htoken : e'.token = e.token := by rw [he.rest]
    split
    next hmatch =>
      rw [beq_iff_eq, htoken] at hmatch
      refine ⟨by rw [he.rest], he.arena, List.forall₂_map_right_iff.2 (he.threads.imp fun t t' ht => ?_)⟩
      split
      next htid =>
        rw [beq_iff_eq] at htid
        rcases ht with rfl | ⟨_, hti, ht⟩
        · exact .inr ⟨hmatch, htid, hf t'⟩
        · refine .inr ⟨hmatch, hti, ?_⟩
          rw [hf t', ht]
      next => exact ht
    next => exact he

/-- An error on the sender's thread leaves the device untouched. -/
theorem Untouched.failThread (h : d.Untouched token tid d') (call : Bool) (word : BR) :
    d.Untouched token tid (d'.failThread token tid call word) := by
  have hthread := h.updateThread (f := fun th => { th with error := some word }) fun _ => rfl
  refine ⟨?_, hthread.objects, hthread.endpoints⟩
  rw [Device.failThread, Device.record, hthread.rest]

/-- A reservation that failed. -/
theorem Untouched.storeReservation (hi : EndpointIds d) (ha : Accounts d) {e target : Endpoint}
    {th : Thread} {node : Option Node} {input : TransactionData} {r : Reservation}
    (hr : Reserved d e th target node input r) (h0 : r.result ≠ 0) :
    d.Untouched token tid (d.storeReservation target.token r) := by
  obtain ⟨ω, host, w, w', hres⟩ := hr.result
  obtain ⟨hmem, _, htok⟩ := endpointFor_spec hr.targetFound
  refine ⟨rfl, hr.restored ha h0, List.forall₂_map_right_iff.2 (List.forall₂_same.2 fun x hx => ?_)⟩
  have hthreads : List.Forall₂ (fun t t' : Thread => t' = t ∨ (x.token = token ∧ t.tid = tid ∧
      t' = { t with error := t'.error, deadReply := t'.deadReply })) x.threads x.threads :=
    List.forall₂_same.2 fun t _ => .inl rfl
  split
  next hmatch =>
    rw [beq_iff_eq] at hmatch
    have hx : x = target := hi.tokens.eq_of_mem hx hmem (by rwa [hmatch]) htok hmatch
    subst hx
    exact ⟨rfl, arena_of_failed hres h0, hthreads⟩
  next => exact ⟨rfl, .inl rfl, hthreads⟩

/-- The refusal of a payload leaves the device untouched. -/
theorem Untouched.refusePayload (h : d.Untouched token tid d') {e : Endpoint} {th : Thread}
    (he : e.token = token) (hth : th.tid = tid) (call : Bool) (result : Int) :
    d.Untouched token tid (d'.refusePayload e th call result).2 := by
  unfold Device.refusePayload
  split
  · subst he hth
    exact h.failThread call .failedReply
  · exact h

end Device

section Packets

variable {ω : Type} {host : Host ω} {w : ω} {d : Device} {e : Endpoint} {th : Thread}

/-- The sender has an error return, or the packet was not consumed. -/
def Refused (e : Endpoint) (th : Thread) (out : Int × Device × ω) : Prop :=
  out.1 ≠ 0 ∨ ∃ th', out.2.1.threadFor e.token th.tid = some th' ∧ th'.error ≠ none

/-- A thread without an error that only ever gained other fields was not refused. -/
theorem not_refused {d' : Device} {w' : ω} (hf : Found d e th) (herr : th.error = none)
    {f : Thread → Thread} (hd : d'.threadFor e.token th.tid = (d.threadFor e.token th.tid).map f)
    (hkeep : (f th).error = th.error) : ¬ Refused e th (0, d', w') := by
  rintro (h0 | ⟨th', hth', hne⟩)
  · exact h0 rfl
  · dsimp only at hth'
    rw [hd, Device.threadFor_of hf.endpoint, hf.thread, Option.map_some, Option.some.injEq] at hth'
    rw [← hth', hkeep] at hne
    exact hne herr

/-- What the outcome of a packet has to show. -/
def Traceless (d : Device) (e : Endpoint) (th : Thread) (out : Int × Device × ω) : Prop :=
  Refused e th out → d.Untouched e.token th.tid out.2.1

/-- An outcome with the same device is traceless. -/
theorem traceless_same (c : Int) (w' : ω) : Traceless d e th (c, d, w') := fun _ => .refl _ _ d

/-- A transaction that is refused leaves no trace, at whichever check. -/
theorem transferCall_traceless (hi : EndpointIds d) (ha : Accounts d) {input : TransactionData}
    (hf : Found d e th) (herr : th.error = none) (hroom : d.work.length ≠ packetLimit) :
    Traceless d e th (transferCall host w d e th input) := by
  unfold transferCall
  dsimp only
  split
  · exact traceless_same _ _
  next word _ =>
    intro _
    exact (Device.Untouched.refl _ _ d).failThread _ word
  next target node hr =>
    obtain ⟨htarget, hnode, howner, _⟩ := callTarget_spec hr
    have hres : Reserved d e th target (some node) input
        (reservePayload host w d.objects e th.tid target input (some node)).1 :=
      ⟨hf.endpoint, hf.thread, htarget, fun n hn => by cases hn; exact ⟨hnode, howner⟩, herr, hroom,
        ω, host, w, _, rfl⟩
    split
    next h0 =>
      intro _
      exact (Device.Untouched.storeReservation hi ha hres h0).refusePayload rfl rfl _ _
    next h0 =>
      split
      · intro hrefused
        refine absurd hrefused (not_refused hf herr (f := fun th =>
          { th with completions := th.completions + 1 }) ?_ rfl)
        rw [Device.threadFor_sendOneway, if_pos ⟨rfl, rfl⟩]
      · intro hrefused
        refine absurd hrefused (not_refused hf herr (f := Device.called d.nextTransaction) ?_ rfl)
        rw [Device.threadFor_sendCall, if_pos ⟨rfl, rfl⟩]

/-- A reply that is refused leaves no trace, at whichever check. -/
theorem transferReply_traceless (hi : EndpointIds d) (ha : Accounts d) {input : TransactionData}
    (hf : Found d e th) (herr : th.error = none) (hroom : d.work.length ≠ packetLimit) :
    Traceless d e th (transferReply host w d e th input) := by
  unfold transferReply
  split
  · intro _
    exact ((Device.Untouched.refl _ _ d).updateThread (f := fun th =>
      { th with deadReply := false }) fun _ => rfl).failThread _ .deadReply
  · split
    · exact traceless_same _ _
    next target t ht =>
      have htarget : d.endpointFor target.token = some target := by
        have hfound := (Device.replyTarget_spec ht).2.2.1
        rw [(Device.endpointFor_spec hfound).2.1, hfound]
      have hres : Reserved d e th target none input
          (reservePayload host w d.objects e th.tid target input none).1 :=
        ⟨hf.endpoint, hf.thread, htarget, fun n hn => (by cases hn), herr, hroom, ω, host, w, _, rfl⟩
      dsimp only
      split
      next h0 =>
        intro _
        exact (Device.Untouched.storeReservation hi ha hres h0).refusePayload rfl rfl _ _
      next h0 =>
        intro hrefused
        refine absurd hrefused (not_refused hf herr
          (f := Device.answered e.token th.tid t e.token th.tid) ?_ rfl)
        rw [Device.threadFor_sendReply]

/-- A packet leaves no trace when its record is refused or cannot be read. -/
theorem transferPacket_traceless (hi : EndpointIds d) (ha : Accounts d) (hf : Found d e th)
    (address : Nat) (reply : Bool) :
    Traceless d e th (transferPacket host w d e th address reply) := by
  unfold transferPacket
  split
  · exact traceless_same _ _
  · split
    · exact traceless_same _ _
    · split
      · exact traceless_same _ _
      · split
        · exact traceless_same _ _
        · split
          · exact traceless_same _ _
          next hbusy =>
            simp only [not_or, Option.not_isSome_iff_eq_none] at hbusy
            split
            · exact transferReply_traceless hi ha hf hbusy.1 hbusy.2.2
            · exact transferCall_traceless hi ha hf hbusy.1 hbusy.2.2

/-- A packet that is not accepted leaves nothing behind: whatever was translated of it, the
nodes, references, claims, death subscriptions, calls and queued parcels are those from
before, in their slots, and so are the buffers of every endpoint. Only the node counter may
have moved, an empty arena may have been made, and free bytes may be zero. -/
theorem refused_traceless (host : Host ω) (w : ω) (h : d.Reachable) (hf : Found d e th)
    (address : Nat) (reply : Bool)
    (hrefused : Refused e th (transferPacket host w d e th address reply)) :
    d.Untouched e.token th.tid (transferPacket host w d e th address reply).2.1 :=
  transferPacket_traceless h.endpointIds h.accounts hf address reply hrefused

end Packets

/-- After the client's object was delivered its thread sends another object and then the first
one under a cookie that it does not have. -/
def conflictScript : Script :=
  exportScript ++ [(2, 3072, packetBytes .transaction 0 1 48 16 4096 5120),
    (2, 4096, objectBytes .binder 5 6 ++ objectBytes .binder 77 99),
    (2, 5120, Bytes.writeLE 8 0 ++ Bytes.writeLE 8 24)]

/-- The client's endpoint and thread after its object was delivered. -/
def conflictClient : Option (Endpoint × Thread) :=
  ((replay conflictScript exportCalls).endpointFor 2).bind fun e => (e.threadFor 2).map fun th => (e, th)

/-- The object reaches the client before the conflict. -/
theorem conflictClient_isSome : conflictClient.isSome = true := by decide +kernel

/-- The new object got a node before the parcel was refused, and nothing is left of it. -/
theorem conflict_traceless : ∃ e th, conflictClient = some (e, th) ∧
    (transferPacket scriptHost conflictScript (replay conflictScript exportCalls) e th 3072
      false).2.1.objects.nextNode = 4 ∧
    (replay conflictScript exportCalls).Untouched e.token th.tid
      (transferPacket scriptHost conflictScript (replay conflictScript exportCalls) e th 3072
        false).2.1 := by
  obtain ⟨⟨e, th⟩, hclient⟩ := Option.isSome_iff_exists.1 conflictClient_isSome
  have hget : conflictClient.get conflictClient_isSome = (e, th) := Option.get_of_eq_some conflictClient_isSome hclient
  obtain ⟨e', he, hmap⟩ := Option.bind_eq_some_iff.1 hclient
  obtain ⟨th', hth, heq⟩ := Option.map_eq_some_iff.1 hmap
  obtain ⟨rfl, rfl⟩ := Prod.mk.inj heq
  have hf : Found (replay conflictScript exportCalls) e' th' :=
    .of_threadFor he (by rw [Device.threadFor_of he, hth])
  have hfails : ∀ out, transferPacket scriptHost conflictScript (replay conflictScript exportCalls)
      (conflictClient.get conflictClient_isSome).1 (conflictClient.get conflictClient_isSome).2 3072 false = out →
        out.2.1.objects.nextNode = 4 ∧ (out.2.1.threadFor 2 2).map (·.error) = some (some .failedReply) := by
    rintro out rfl
    decide +kernel
  rw [hget] at hfails
  obtain ⟨hnext, herror⟩ := hfails _ rfl
  refine ⟨e', th', hclient, hnext, refused_traceless _ _ (replay_reachable conflictScript exportCalls) hf
    3072 false (.inr ?_)⟩
  obtain ⟨x, hx, hxe⟩ := Option.map_eq_some_iff.1 herror
  have htok := (Device.endpointFor_spec he).2.1
  have htid := (Endpoint.threadFor_spec hth).2
  exact ⟨x, by rw [htok, htid]; exact hx, by rw [hxe]; simp⟩

end Artbox.Binder
