import Artbox.Binder.Owners

/-!
# References and their death subscriptions

A reference names its subscription by a slot of the death table (`Objects.Links`). Most
operations on the tables only pass the names on: they copy references, add some without a
subscription, and drop some together with the slot they name (`Objects.Passes`).
-/

namespace Artbox.Binder

open Slots

namespace Objects

/-! ## Names of subscriptions -/

/-- References name subscriptions of their own that are not being cleared, and all of them. -/
structure Links (o : Objects) : Prop where
  named : ∀ r ∈ o.references, r.endpoint ≠ 0 → r.death ≠ 0 → ∃ s, o.deaths[r.death - 1]? = some s ∧
    s.endpoint = r.endpoint ∧ s.owner = r.owner ∧ s.clearing = false
  injective : Unique (fun r : Reference => r.endpoint ≠ 0 ∧ r.death ≠ 0) (·.death) o.references
  naming : ∀ i s, o.deaths[i]? = some s → s.endpoint ≠ 0 → s.clearing = false →
    ∃ r ∈ o.references, r.endpoint ≠ 0 ∧ r.death = i + 1

/-- A reference has its node's owner. -/
def Owned (o : Objects) : Prop :=
  ∀ r ∈ o.references, r.endpoint ≠ 0 → ∀ n, o.nodeFor r.node = some n → n.owner = r.owner

/-- Names are passed on, or dropped with what they name. -/
structure Passes (o o' : Objects) : Prop where
  old : ∀ r' ∈ o'.references, r'.endpoint ≠ 0 → r'.death ≠ 0 → ∃ r ∈ o.references, r'.SameKey r ∧
    r'.owner = r.owner ∧ r'.death = r.death
  kept : ∀ r ∈ o.references, r.endpoint ≠ 0 → r.death ≠ 0 →
    (∃ r' ∈ o'.references, r'.SameKey r ∧ r'.death = r.death) ∨
      ∀ s, o'.deaths[r.death - 1]? = some s → s = {}
  slots : ∀ i, o'.deaths[i]? = o.deaths[i]? ∨ (o'.deaths[i]? = some {} ∧ ∃ r ∈ o.references,
    r.endpoint ≠ 0 ∧ r.death = i + 1 ∧ ∀ r' ∈ o'.references, r'.SameKey r → r'.death = 0)

section Passes

variable {o o' o'' : Objects} {claims : List Claim} {r ref : Reference}

/-- The same references and subscriptions are passed on. -/
theorem Passes.of_eq (hr : o'.references = o.references) (hd : o'.deaths = o.deaths) : Passes o o' := by
  refine ⟨fun r' hr' _ _ => ⟨r', hr ▸ hr', ⟨rfl, rfl⟩, rfl, rfl⟩, fun r hr₀ _ _ => .inl ?_,
    fun i => .inl (by rw [hd])⟩
  exact ⟨r, hr ▸ hr₀, ⟨rfl, rfl⟩, rfl⟩

theorem Passes.refl (o : Objects) : Passes o o := .of_eq rfl rfl

theorem Passes.trans (h : Passes o o') (h' : Passes o' o'') : Passes o o'' := by
  refine ⟨fun r'' hr'' h0 hd => ?_, fun r hr h0 hd => ?_, fun i => ?_⟩
  · obtain ⟨r', hr', hk', how', hd'⟩ := h'.old r'' hr'' h0 hd
    obtain ⟨r, hr, hk, how, hd''⟩ := h.old r' hr' (hk'.1 ▸ h0) (hd' ▸ hd)
    exact ⟨r, hr, ⟨hk'.1.trans hk.1, hk'.2.trans hk.2⟩, how'.trans how, hd'.trans hd''⟩
  · rcases h.kept r hr h0 hd with ⟨r', hr', hk, hd'⟩ | hblank
    · rcases h'.kept r' hr' (hk.1 ▸ h0) (hd' ▸ hd) with ⟨r'', hr'', hk', hd''⟩ | hblank
      · exact .inl ⟨r'', hr'', ⟨hk'.1.trans hk.1, hk'.2.trans hk.2⟩, hd''.trans hd'⟩
      · exact .inr (hd' ▸ hblank)
    · refine .inr fun s hs => ?_
      rcases h'.slots (r.death - 1) with heq | ⟨heq, _⟩
      · exact hblank s (heq ▸ hs)
      · rw [heq] at hs
        cases hs
        rfl
  · rcases h'.slots i with heq' | ⟨heq', r', hr', h0', hd', hgone'⟩
    · rw [heq']
      rcases h.slots i with heq | ⟨heq, r, hr, h0, hd, hgone⟩
      · exact .inl heq
      · refine .inr ⟨heq, r, hr, h0, hd, fun r'' hr'' hk => ?_⟩
        -- a copy would have had a name in between
        by_contra hne
        obtain ⟨r', hr', hk', _, hd'⟩ := h'.old r'' hr'' (hk.1 ▸ h0) hne
        exact hne (hd'.trans (hgone r' hr' ⟨hk'.1.symm.trans hk.1, hk'.2.symm.trans hk.2⟩))
    · obtain ⟨r, hr, hk, _, hd⟩ := h.old r' hr' h0' (by omega)
      refine .inr ⟨heq', r, hr, hk.1 ▸ h0', hd.symm.trans hd', fun r'' hr'' hk'' => ?_⟩
      exact hgone' r'' hr'' ⟨hk''.1.trans hk.1.symm, hk''.2.trans hk.2.symm⟩

/-- One reference is written. -/
theorem Writes.passes (hw : Writes o o' ref)
    (hsame : ∀ r ∈ o.references, r.SameKey ref → r.owner = ref.owner ∧ r.death = ref.death)
    (hnew : ref.death ≠ 0 → ∃ r ∈ o.references, r.SameKey ref)
    (hd : (ref.Counted ∨ ref.death = 0) ∧ o'.deaths = o.deaths ∨
      ¬ ref.Counted ∧ ref.death ≠ 0 ∧ o'.deaths = o.deaths.set (ref.death - 1) {}) : Passes o o' := by
  refine ⟨fun r' hr' h0 hd0 => ?_, fun r hr h0 hd0 => ?_, fun i => ?_⟩
  · rcases (hw.mem r' h0).1 hr' with ⟨rfl, _⟩ | ⟨hr', _⟩
    · obtain ⟨r, hr, hk⟩ := hnew hd0
      obtain ⟨how, hdr⟩ := hsame r hr hk
      exact ⟨r, hr, ⟨hk.1.symm, hk.2.symm⟩, how.symm, hdr.symm⟩
    · exact ⟨r', hr', ⟨rfl, rfl⟩, rfl, rfl⟩
  · by_cases hk : r.SameKey ref
    · obtain ⟨_, hdr⟩ := hsame r hr hk
      rcases hd with ⟨hc, _⟩ | ⟨_, _, hset⟩
      · have hc : ref.Counted := hc.resolve_right (hdr ▸ hd0)
        exact .inl ⟨ref, (hw.mem ref hw.live).2 (.inl ⟨rfl, hc⟩), ⟨hk.1.symm, hk.2.symm⟩, hdr.symm⟩
      · refine .inr fun s hs => ?_
        rw [hset, hdr, List.getElem?_set_self'] at hs
        cases hold : o.deaths[ref.death - 1]? with
        | none =>
          rw [hold] at hs
          cases hs
        | some x =>
          rw [hold] at hs
          cases hs
          rfl
    · exact .inl ⟨r, (hw.mem r h0).2 (.inr ⟨hr, hk⟩), ⟨rfl, rfl⟩, rfl⟩
  · rcases hd with ⟨_, heq⟩ | ⟨hc, hd0, hset⟩
    · exact .inl (by rw [heq])
    · by_cases hi : ref.death - 1 = i
      · obtain ⟨r, hr, hk⟩ := hnew hd0
        obtain ⟨_, hdr⟩ := hsame r hr hk
        rw [hset, hi, List.getElem?_set_self']
        cases hold : o.deaths[i]? with
        | none => exact .inl rfl
        | some s =>
          refine .inr ⟨rfl, r, hr, hk.1 ▸ hw.live, by omega, fun r' hr' hk' => ?_⟩
          have hk'' : r'.SameKey ref := ⟨hk'.1.trans hk.1, hk'.2.trans hk.2⟩
          rcases (hw.mem r' (hk''.1 ▸ hw.live)).1 hr' with ⟨rfl, hcnt⟩ | ⟨_, hne⟩
          · exact absurd hcnt hc
          · exact absurd hk'' hne
      · exact .inl (by rw [hset, List.getElem?_set_ne hi])

/-- The slot a dropped reference names is freed. -/
theorem dropIfUnused_deaths (o : Objects) (ref : Reference) :
    (ref.Counted ∨ ref.death = 0) ∧ (o.dropIfUnused ref).deaths = o.deaths ∨
      ¬ ref.Counted ∧ ref.death ≠ 0 ∧
        (o.dropIfUnused ref).deaths = o.deaths.set (ref.death - 1) {} := by
  unfold dropIfUnused
  split
  next hun =>
    unfold dropReference
    by_cases hd : ref.death = 0
    · exact .inl ⟨.inr hd, by simp [hd]⟩
    · exact .inr ⟨fun hc => hc hun, hd, by simp [hd]⟩
  next hun => exact .inl ⟨.inl hun, rfl⟩

/-- A listed reference is written back with other counts. -/
theorem Tables.passes_write (h : o.Tables claims) (hr : r ∈ o.references) (h0 : r.endpoint ≠ 0)
    (hk : ref.SameKey r) (hn : ref.node = r.node) (how : ref.owner = r.owner) (hd : ref.death = r.death) :
    Passes o ((o.setReference ref).dropIfUnused ref) := by
  have hw := writes_listed h.handles h.targets hr h0 (h.small r hr h0) hk hn
  refine hw.passes (fun x hx hkx => ?_) (fun _ => ⟨r, hr, hk.1.symm, hk.2.symm⟩)
    (dropIfUnused_deaths (o.setReference ref) ref)
  have hxr : x = r := h.handles.eq_of_mem hx hr (by rw [hkx.1, hk.1]; exact h0) h0
    (Prod.ext (hkx.1.trans hk.1) (hkx.2.trans hk.2))
  rw [hxr]
  exact ⟨how.symm, hd.symm⟩

/-- What `ensure_reference` returned is written back with other counts. -/
theorem Tables.passes_ensured {y : Reference} (h : o.Tables claims) {k : Nat} {node : Node} (hk : k ≠ 0)
    (he : o.ensureReference k node = some (r, o')) (hkey : y.SameKey r) (hn : y.node = r.node)
    (how : y.owner = r.owner) (hd : y.death = r.death) :
    Passes o ((o'.setReference y).dropIfUnused y) := by
  have hw := h.writes_ensured hk he hkey hn
  obtain ⟨hre, hrn, hcase⟩ := ensureReference_spec he
  obtain ⟨hr, rfl⟩ | ⟨_, _, _, _, hfresh, references, hins, rfl⟩ := hcase
  · exact h.passes_write hr (hre ▸ hk) hkey hn how hd
  · have hd0 : r.death = 0 := by
      unfold ensureReference at he
      split at he
      next x hx =>
        have hq := List.find?_some hx
        simp only [Bool.and_eq_true, beq_iff_eq] at hq
        have hxr : x = r := (Prod.mk.inj (Option.some.inj he)).1
        exact absurd (hxr ▸ rfl) (hfresh x (List.mem_of_find?_eq_some hx) hq.1).1
      next =>
        split at he
        · cases he
        · obtain ⟨_, _, heq⟩ := Option.map_eq_some_iff.1 he
          cases heq
          rfl
    refine hw.passes (fun x hx hkx => ?_) (fun hne => absurd (hd.trans hd0) hne) ?_
    · have hxr : x.SameKey r := ⟨hkx.1.trans hkey.1, hkx.2.trans hkey.2⟩
      exact absurd hxr.2 (hfresh x hx (hxr.1.trans hre)).1
    · exact dropIfUnused_deaths ({ o with references }.setReference y) y

/-! ## What the names keep -/

/-- Passing names on keeps them right. -/
theorem Links.passes (h : o.Links) (ht : o'.Tables claims) (hp : Passes o o') : o'.Links := by
  refine ⟨fun r' hr' h0 hd => ?_, ?_, fun i s hs h0 hc => ?_⟩
  · obtain ⟨r, hr, hk, how, hdr⟩ := hp.old r' hr' h0 hd
    have hr0 : r.endpoint ≠ 0 := hk.1 ▸ h0
    obtain ⟨s, hs, hse, hso, hsc⟩ := h.named r hr hr0 (hdr ▸ hd)
    refine ⟨s, ?_, hse.trans hk.1.symm, hso.trans how.symm, hsc⟩
    rw [hdr]
    rcases hp.slots (r.death - 1) with heq | ⟨_, x, hx, hx0, hxd, hgone⟩
    · rw [heq, hs]
    · -- the slot's reference is this one, which was not dropped
      have hxr : x = r := h.injective.eq_of_mem hx hr ⟨hx0, by omega⟩ ⟨hr0, hdr ▸ hd⟩ (by
        show x.death = r.death
        have := hdr ▸ hd
        omega)
      exact absurd (hgone r' hr' (hxr ▸ hk)) hd
  · refine (List.pairwise_iff_forall_sublist.2 ?_)
    intro a b hsub la lb heq
    have hmem := hsub.subset
    have ha : a ∈ o'.references := hmem (by simp)
    have hb : b ∈ o'.references := hmem (by simp)
    obtain ⟨ra, hra, hka, _, hda⟩ := hp.old a ha la.1 la.2
    obtain ⟨rb, hrb, hkb, _, hdb⟩ := hp.old b hb lb.1 lb.2
    have hrr : ra = rb := h.injective.eq_of_mem hra hrb ⟨hka.1 ▸ la.1, hda ▸ la.2⟩
      ⟨hkb.1 ▸ lb.1, hdb ▸ lb.2⟩ (hda.symm.trans (heq.trans hdb))
    -- two copies of one reference are one
    have hpair := List.pairwise_iff_forall_sublist.1 ht.handles hsub la.1 lb.1
    exact hpair (Prod.ext (hka.1.trans (hrr ▸ hkb.1.symm)) (hka.2.trans (hrr ▸ hkb.2.symm)))
  · rcases hp.slots i with heq | ⟨heq, _⟩
    · rw [heq] at hs
      obtain ⟨r, hr, hr0, hd⟩ := h.naming i s hs h0 hc
      rcases hp.kept r hr hr0 (by omega) with ⟨r', hr', hk, hd'⟩ | hblank
      · exact ⟨r', hr', hk.1 ▸ hr0, hd'.trans hd⟩
      · have : s = {} := hblank s (by rw [hd, Nat.add_sub_cancel, heq, hs])
        rw [this] at h0
        exact absurd rfl h0
    · rw [heq] at hs
      cases hs
      exact absurd rfl h0

/-- The table of subscriptions keeps its length. -/
theorem Passes.length (hp : Passes o o') (h : o.Links) : o'.deaths.length = o.deaths.length := by
  have hiff : ∀ i, i < o'.deaths.length ↔ i < o.deaths.length := by
    intro i
    rw [← not_le, ← not_le, ← List.getElem?_eq_none_iff, ← List.getElem?_eq_none_iff]
    rcases hp.slots i with heq | ⟨heq, r, hr, hr0, hd, _⟩
    · rw [heq]
    · obtain ⟨s, hs, _⟩ := h.named r hr hr0 (by omega)
      rw [hd, Nat.add_sub_cancel] at hs
      simp [heq, hs]
  have h1 := hiff o.deaths.length
  have h2 := hiff o'.deaths.length
  omega

end Passes

/-! ## The operations pass the names on -/

/-- Names are passed on, and references keep their nodes' owners. -/
structure Carries (o o' : Objects) : Prop where
  passes : Passes o o'
  owned : o.Owned → o'.Owned

section Carries

variable {o o' o'' : Objects} {claims : List Claim} {r ref : Reference} {node : Node}

theorem Carries.refl (o : Objects) : Carries o o := ⟨.refl o, id⟩

theorem Carries.trans (h : Carries o o') (h' : Carries o' o'') : Carries o o'' :=
  ⟨h.passes.trans h'.passes, fun hw => h'.owned (h.owned hw)⟩

/-- An edit of nodes that leaves their owners. -/
theorem Nodes.carries (h : o.Nodes claims) {g : Node → Node} (hk : KeptBy g o o')
    (hg : ∀ n, (g n).owner = n.owner) (hr : o'.references = o.references) (hd : o'.deaths = o.deaths) :
    Carries o o' := by
  refine ⟨.of_eq hr hd, fun hw r hmem h0 n' hn' => ?_⟩
  rw [hr] at hmem
  rcases hk.nodes _ n' hn' with ⟨n, hn, hs⟩ | ⟨hnew, _⟩
  · exact hs.owner.trans ((hg n).trans (hw r hmem h0 n hn))
  · -- the node was there
    obtain ⟨n, hn, _⟩ := h.referred r hmem h0
    obtain ⟨hin, hid, hid0⟩ := nodeFor_spec hn
    exact absurd (hid ▸ h.issued n hin (hid ▸ hid0)) hnew

/-- The collection passes every name on. -/
theorem Sound.carries_collect (h : o.Sound) : Carries o o.collectNodes :=
  h.nodes.carries h.kept_collect (fun _ => rfl) rfl rfl

/-- A reference with its node's owner is written. -/
theorem Writes.owned (hw : Writes o o' ref) (hn : o'.nodes = o.nodes)
    (how : o.Owned → ∀ n, o.nodeFor ref.node = some n → n.owner = ref.owner) (h : o.Owned) : o'.Owned := by
  intro r hr h0 n hfor
  rw [nodeFor_congr hn] at hfor
  rcases (hw.mem r h0).1 hr with ⟨rfl, _⟩ | ⟨hr, _⟩
  · exact how h n hfor
  · exact h r hr h0 n hfor

/-- A raised reference has its node's owner. -/
theorem ensureReference_owner {k : Nat} (he : o.ensureReference k node = some (r, o'))
    (hfor : o.nodeFor node.id = some node) (h : o.Owned) (hk : k ≠ 0) {n : Node}
    (hn : o.nodeFor r.node = some n) : n.owner = r.owner := by
  obtain ⟨hre, hrn, _⟩ := ensureReference_spec he
  unfold ensureReference at he
  split at he
  next x hx =>
    have hxr : x = r := (Prod.mk.inj (Option.some.inj he)).1
    exact h r (hxr ▸ List.mem_of_find?_eq_some hx) (hre ▸ hk) n hn
  next =>
    split at he
    · cases he
    · obtain ⟨_, _, heq⟩ := Option.map_eq_some_iff.1 he
      rw [hrn, hfor] at hn
      cases hn
      rw [← (Prod.mk.inj heq).1]

/-- The counting half of `reference_command`. -/
theorem Inv.carries_adjustReference (h : o.Inv) {o₁ : Objects} {increment strong : Bool}
    (hf : o₁.nodes = o.nodes ∧ o₁.claims = o.claims ∧ o₁.nextNode = o.nextNode ∧
      o₁.managerNode = o.managerNode)
    (hw : ∀ ref : Reference, ref.SameKey r → ref.node = r.node →
      Writes o ((o₁.setReference ref).dropIfUnused ref) ref)
    (hp : ∀ ref : Reference, ref.SameKey r → ref.node = r.node → ref.owner = r.owner →
      ref.death = r.death → Passes o ((o₁.setReference ref).dropIfUnused ref))
    (hheld : r.temporaryStrong = o.claims.countP (·.holds r.endpoint r.node))
    (hnode : o.nodeFor r.node = some node) (hforeign : node.owner ≠ r.endpoint)
    (how : o.Owned → ∀ n, o.nodeFor r.node = some n → n.owner = r.owner)
    (hfull : (if strong then r.strong else r.weak) = uint32Max → o₁ = o) :
    Carries o (o₁.adjustReference r increment strong).2 := by
  rcases adjustReference_cases o₁ r increment strong with ⟨hmax, heq⟩ | ⟨ref, hk, hn, hro, hrd, ht, heq⟩ <;>
    rw [heq]
  · rw [hfull hmax]
    exact .refl o
  · have hwr := hw ref hk hn
    obtain ⟨hdn, hdc, hdx, hdm⟩ := @dropIfUnused_frame (o₁.setReference ref) ref
    have hsound := h.write hwr (hdn.trans hf.1) (hdc.trans hf.2.1) (hdx.trans hf.2.2.1)
      (by rw [ht, hheld, hk.1, hn]) (hn ▸ hnode) (hk.1 ▸ hforeign)
    have hcar : Carries o ((o₁.setReference ref).dropIfUnused ref) := by
      refine ⟨hp ref hk hn hro hrd, hwr.owned (hdn.trans hf.1) fun hw n hfor => ?_⟩
      rw [hn] at hfor
      rw [hro]
      exact how hw n hfor
    exact hcar.trans hsound.carries_collect

/-- A count of a handle passes names on, or drops the reference with its subscription. -/
theorem Inv.carries_referenceCommand (h : o.Inv) {manager endpoint handle : Nat}
    (increment strong : Bool) (hk : endpoint ≠ 0)
    (hm : manager ≠ 0 → ∀ n, o.nodeFor o.managerNode = some n → n.owner = manager) :
    Carries o (o.referenceCommand manager endpoint handle increment strong).2 := by
  unfold Objects.referenceCommand
  split
  next hinc =>
    split
    · exact .refl o
    next hne =>
      split
      · exact .refl o
      next node hnode =>
        split
        · exact .refl o
        next ref o₁ he =>
          obtain ⟨hre, hrn, hcase⟩ := ensureReference_spec he
          have hid := (nodeFor_spec hnode).2.1
          have hfor : o.nodeFor node.id = some node := by rw [hid, hnode]
          refine h.carries_adjustReference (ensureReference_frame he)
            (fun x hkey hn => h.tables.writes_ensured hk he hkey hn)
            (fun x hkey hn how hd => h.tables.passes_ensured hk he hkey hn how hd)
            (h.tables.ensured_held hk he) (by rwa [hrn]) (?_ : node.owner ≠ ref.endpoint)
            (fun how n hn => ensureReference_owner he hfor how hk hn) fun hmax => ?_
          · rw [hre, hm hinc.2.2 node hnode]
            exact hne
          · obtain ⟨_, rfl⟩ | ⟨h1, h2, _⟩ := hcase
            · rfl
            · rw [h1, h2] at hmax
              cases strong <;> cases hmax
  next =>
    split
    · exact .refl o
    next ref href =>
      obtain ⟨hr, hre, _⟩ := referenceFor_spec href
      have h0 : ref.endpoint ≠ 0 := hre ▸ hk
      obtain ⟨n, hn, hforeign⟩ := h.nodes.referred ref hr h0
      exact h.carries_adjustReference ⟨rfl, rfl, rfl, rfl⟩
        (fun x hkey hxn => writes_listed h.tables.handles h.tables.targets hr h0
          (h.tables.small ref hr h0) hkey hxn)
        (fun x hkey hxn how hd => h.tables.passes_write hr h0 hkey hxn how hd)
        (h.tables.held ref hr h0) hn hforeign (fun how => how ref hr h0) fun _ => rfl

/-- A claim passes every name on. -/
theorem Sound.carries_addClaim (h : o.Sound) {target buffer : Nat} {remote : Bool} (hk : target ≠ 0)
    (hnode : o.nodeFor node.id = some node) (hrem : remote = (node.owner != target)) {res : Option Nat}
    (heq : o.addClaim target buffer node remote = (res, o')) : Carries o o' := by
  have hcase := h.addClaim hk hnode hrem heq
  unfold Objects.addClaim at heq
  split at heq
  · cases heq
    exact .refl o
  split at heq
  next hr =>
    split at heq
    · cases heq
      exact .refl o
    next ref o₁ he =>
      split at heq
      next hmax =>
        obtain ⟨_, rfl⟩ | ⟨_, hres, _⟩ := hcase
        · exact .refl _
        · rw [← (Prod.mk.inj heq).1] at hres
          cases hres
      next =>
        have hcounted : ({ ref with temporaryStrong := ref.temporaryStrong + 1 } : Reference).Counted :=
          fun h => by simp at h
        have hp : Passes o _ := h.tables.passes_ensured hk he
          (y := { ref with temporaryStrong := ref.temporaryStrong + 1 }) ⟨rfl, rfl⟩ rfl rfl rfl
        have hw : Writes o _ { ref with temporaryStrong := ref.temporaryStrong + 1 } :=
          h.tables.writes_ensured hk he ⟨rfl, rfl⟩ rfl
        rw [dropIfUnused_of_counted hcounted] at hp hw
        have hwr := hw.owned (ensureReference_frame he).1 fun how n hn =>
          ensureReference_owner he hnode how hk hn
        have hcar : Carries o (o₁.setReference { ref with temporaryStrong := ref.temporaryStrong + 1 }) :=
          ⟨hp, hwr⟩
        dsimp only at heq
        split at heq
        · cases heq
          exact hcar
        · cases heq
          exact ⟨⟨hp.old, hp.kept, hp.slots⟩, hwr⟩
  next =>
    split at heq
    · cases heq
      exact .refl o
    · cases heq
      exact ⟨.of_eq rfl rfl, id⟩

/-- The resolution of an object passes every name on. -/
theorem Sound.carries_resolveObject (h : o.Sound) {source offset : Nat} {tid : Int} {data : List UInt8}
    (hr : o.resolveObject source tid data offset = .ok (node, o')) : Carries o o' := by
  obtain ⟨_, hkept, hrefs, _, _, hdeaths, _⟩ := h.resolveObject hr
  exact h.nodes.carries hkept (fun _ => rfl) hrefs hdeaths

/-- The translation of a parcel passes every name on. -/
theorem Inv.carries_translate (h : o.Inv) {source target buffer : Nat} {tid : Int} (hk : target ≠ 0)
    (offsets : List Nat) (data : List UInt8) :
    Carries o (Objects.translate source tid target buffer offsets o data).objects := by
  induction offsets generalizing o data with
  | nil => exact .refl o
  | cons offset rest ih =>
    unfold Objects.translate
    split
    · exact .refl o
    next node o₁ hr =>
      obtain ⟨hs, _, _, _, _, _, hfor, _⟩ := h.toSound.resolveObject hr
      have hcar := h.toSound.carries_resolveObject hr
      dsimp only
      split
      next o₂ hc => exact hcar.trans (hs.carries_addClaim hk hfor rfl hc)
      next handle o₂ hc =>
        have hinv := (h.claimObject hr hk hc).1
        exact (hcar.trans (hs.carries_addClaim hk hfor rfl hc)).trans (ih hinv _)

/-- Giving back a hold drops a name only with its reference. -/
theorem Tables.carries_releaseHold {c : Claim} (h : o.Tables (c :: claims)) (h0 : c.endpoint ≠ 0) :
    Carries o (Objects.releaseHold o c) := by
  unfold Objects.releaseHold
  split
  next hrem =>
    split
    · exact .refl o
    next r hfor =>
      split
      next hn =>
        obtain ⟨hr, hre, _⟩ := referenceFor_spec hfor
        have hr0 : r.endpoint ≠ 0 := hre ▸ h0
        refine ⟨h.passes_write hr hr0 ⟨rfl, rfl⟩ rfl rfl rfl, ?_⟩
        have hw : Writes o _ { r with temporaryStrong := r.temporaryStrong - 1 } :=
          writes_listed h.handles h.targets hr hr0 (h.small r hr hr0) ⟨rfl, rfl⟩ rfl
        exact hw.owned dropIfUnused_frame.1 fun how => how r hr hr0
      next => exact .refl o
  next => exact .refl o

/-- Giving back several holds drops names only with their references. -/
theorem Tables.carries_releaseHolds {l rest : List Claim} (h : o.Tables (l ++ rest))
    (hl : ∀ c ∈ l, c.endpoint ≠ 0) : Carries o (l.foldl Objects.releaseHold o) := by
  induction l generalizing o with
  | nil => exact .refl o
  | cons c l ih =>
    have h0 := hl c List.mem_cons_self
    exact (h.carries_releaseHold h0).trans
      (ih (h.releaseHold h0).1 fun c hc => hl c (List.mem_cons_of_mem _ hc))

/-- The release of a buffer drops names only with their references. -/
theorem Sound.carries_releaseClaims (h : o.Sound) {k buffer : Nat} (hk : k ≠ 0) :
    Carries o (o.releaseClaims k buffer) := by
  have hcar := (h.released_tables k buffer).carries_releaseHolds (claimMatches_live hk)
  obtain ⟨hsound, _, hn, _⟩ := h.uncollected (b := buffer) hk
  have hmid : Carries o (o.uncollected k buffer) := by
    refine ⟨⟨hcar.passes.old, hcar.passes.kept, hcar.passes.slots⟩, fun how r hr h0 n hfor => ?_⟩
    refine hcar.owned how r hr h0 n ?_
    rw [nodeFor_congr hn] at hfor
    rwa [nodeFor_congr ((h.released_tables k buffer).releaseHolds (claimMatches_live hk)).2.2.1]
  exact hmid.trans hsound.carries_collect

end Carries

/-! ## Teardown of an endpoint -/

/-- What the teardown of `token` does to a subscription. -/
def bereave (token : Nat) (s : Death) : Death :=
  if s.endpoint = token then {}
  else if s.endpoint ≠ 0 ∧ s.owner = token ∧ s.state = .armed then { s with state := .deathQueued }
  else s

section Retire

variable {o : Objects} {token : Nat}

theorem bereave_blank : bereave token {} = {} := by
  unfold bereave
  split
  · rfl
  · rw [if_neg fun h => h.1 rfl]

/-- Blanking the slots of the endpoint's own subscriptions makes no difference to what its
teardown leaves. -/
theorem dropReferences_deaths (l : List Reference)
    (hl : ∀ r ∈ l, r.death ≠ 0 → ∀ s, o.deaths[r.death - 1]? = some s → s.endpoint = token ∨ s = {}) :
    (l.foldl dropReference o).deaths.map (bereave token) = o.deaths.map (bereave token) := by
  induction l generalizing o with
  | nil => rfl
  | cons r l ih =>
    have hset : (o.dropReference r).deaths.map (bereave token) = o.deaths.map (bereave token) := by
      unfold dropReference
      by_cases hd : r.death = 0
      · simp [hd]
      · simp only [hd, if_false]
        refine List.ext_getElem? fun i => ?_
        rw [List.getElem?_map, List.getElem?_map]
        by_cases hi : r.death - 1 = i
        · rw [hi, List.getElem?_set_self']
          cases hs : o.deaths[i]? with
          | none => rfl
          | some s =>
            show some (bereave token {}) = some (bereave token s)
            rcases hl r List.mem_cons_self hd s (hi ▸ hs) with he | rfl
            · rw [bereave_blank, bereave, if_pos he]
            · rfl
        · rw [List.getElem?_set_ne hi]
    rw [List.foldl_cons, ih, hset]
    intro x hx hxd s hs
    unfold dropReference at hs
    by_cases hd : r.death = 0
    · rw [if_pos hd] at hs
      exact hl x (List.mem_cons_of_mem _ hx) hxd s hs
    · rw [if_neg hd] at hs
      by_cases hi : r.death - 1 = x.death - 1
      · rw [hi, List.getElem?_set_self'] at hs
        cases hold : o.deaths[x.death - 1]? with
        | none =>
          rw [hold] at hs
          cases hs
        | some y =>
          rw [hold] at hs
          cases hs
          exact .inr rfl
      · rw [List.getElem?_set_ne hi] at hs
        exact hl x (List.mem_cons_of_mem _ hx) hxd s hs

/-- The subscriptions after the two object steps of `release_endpoint`. -/
theorem Links.retire_deaths {claims : List Claim} (h : o.Links) (ht : o.Tables claims) (hk : token ≠ 0) :
    ((o.releaseReferences token).releaseClaims token).deaths = o.deaths.map (bereave token) := by
  have hclaims : ((o.releaseReferences token).releaseClaims token).deaths =
      (o.releaseReferences token).deaths := by
    unfold releaseClaims
    rw [releaseReferences_gone ht hk]
    rfl
  rw [hclaims]
  refine dropReferences_deaths _ fun r hr hd s hs => ?_
  obtain ⟨hmem, he⟩ := List.mem_filter.1 hr
  have he : r.endpoint = token := by simpa using he
  obtain ⟨x, hx, hxe, _⟩ := h.named r hmem (he ▸ hk) hd
  rw [hx] at hs
  cases hs
  exact .inl (hxe.trans he)

/-- The names after the teardown of an endpoint. -/
theorem Links.retire {o' : Objects} (h : o.Links) (hr : Retired o o' token)
    (hd : o'.deaths = o.deaths.map (bereave token)) : o'.Links := by
  have hslot : ∀ (i : Nat) (s : Death), o.deaths[i]? = some s → s.endpoint ≠ token →
      ∃ s' : Death, o'.deaths[i]? = some s' ∧ s'.endpoint = s.endpoint ∧ s'.owner = s.owner ∧
        s'.clearing = s.clearing := by
    intro i s hs hne
    refine ⟨bereave token s, by rw [hd, List.getElem?_map, hs]; rfl, ?_⟩
    unfold bereave
    rw [if_neg hne]
    split <;> exact ⟨rfl, rfl, rfl⟩
  refine ⟨fun r hmem h0 hr0 => ?_, ?_, fun i s' hs' h0 hc => ?_⟩
  · obtain ⟨hmem, hne⟩ := (hr.references r h0).1 hmem
    obtain ⟨s, hs, hse, hso, hsc⟩ := h.named r hmem h0 hr0
    obtain ⟨s', hs', he, ho, hcl⟩ := hslot _ s hs (hse ▸ hne)
    exact ⟨s', hs', he.trans hse, ho.trans hso, hcl.trans hsc⟩
  · refine List.pairwise_iff_forall_sublist.2 fun {a b} hsub la lb heq => ?_
    have ha := (hr.references a la.1).1 (hsub.subset (by simp))
    have hb := (hr.references b lb.1).1 (hsub.subset (by simp))
    have hab := h.injective.eq_of_mem ha.1 hb.1 la lb heq
    have hpair := List.pairwise_iff_forall_sublist.1 hr.inv.tables.handles hsub la.1 lb.1
    exact hpair (by rw [hab])
  · rw [hd, List.getElem?_map] at hs'
    obtain ⟨s, hs, rfl⟩ := Option.map_eq_some_iff.1 hs'
    have hne : s.endpoint ≠ token := by
      intro he
      unfold bereave at h0
      rw [if_pos he] at h0
      exact h0 rfl
    have hsame : (bereave token s).endpoint = s.endpoint ∧ (bereave token s).clearing = s.clearing := by
      unfold bereave
      rw [if_neg hne]
      split <;> exact ⟨rfl, rfl⟩
    obtain ⟨r, hmem, hr0, hrd⟩ := h.naming i s hs (hsame.1 ▸ h0) (hsame.2 ▸ hc)
    obtain ⟨x, hx, hxe, _⟩ := h.named r hmem hr0 (by omega)
    rw [hrd, Nat.add_sub_cancel, hs] at hx
    cases hx
    exact ⟨r, (hr.references r hr0).2 ⟨hmem, hxe ▸ hne⟩, hr0, hrd⟩

/-- The owners after the teardown of an endpoint. -/
theorem Owned.retire {o' : Objects} (h : o.Owned) (hr : Retired o o' token) : o'.Owned := by
  intro r hmem h0 n hn
  rw [hr.nodes, Option.filter_eq_some_iff] at hn
  obtain ⟨x, hx, rfl⟩ := Option.map_eq_some_iff.1 hn.1
  rw [(orphan_id token x).2]
  exact h r ((hr.references r h0).1 hmem).1 h0 x hx

end Retire

end Objects

end Artbox.Binder
