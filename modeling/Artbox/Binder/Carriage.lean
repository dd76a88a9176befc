import Artbox.Binder.Replies
import Artbox.Binder.Succession

/-!
# What the objects of a parcel denote

A flat object is a name for a node. A `BINDER` names one of its holder's own nodes by pointer
and cookie, a `HANDLE` one of somebody else's by a number that means nothing to anybody else.
A parcel on its way from one endpoint to another is therefore rewritten, object by object, and
what has to stay is the node: each object names to the receiver what it named to the sender
(`Sends`, `Arrives`). Everything else in the parcel is the sender's (`Parcel.Carries`).
-/

namespace Artbox.Binder

open Bytes Slots Objects

/-! ## Names -/

/-- Two records of one node. -/
structure Node.Twin (n n' : Node) : Prop where
  id : n'.id = n.id
  owner : n'.owner = n.owner
  pointer : n'.pointer = n.pointer
  cookie : n'.cookie = n.cookie

theorem Node.Twin.refl (n : Node) : n.Twin n := ⟨rfl, rfl, rfl, rfl⟩

theorem Node.Twin.symm {n n' : Node} (h : n.Twin n') : n'.Twin n :=
  ⟨h.id.symm, h.owner.symm, h.pointer.symm, h.cookie.symm⟩

theorem Node.Twin.trans {n n' n'' : Node} (h : n.Twin n') (h' : n'.Twin n'') : n.Twin n'' :=
  ⟨h'.id.trans h.id, h'.owner.trans h.owner, h'.pointer.trans h.pointer, h'.cookie.trans h.cookie⟩

/-- Alike nodes are twins. -/
theorem Node.Like.twin {n n' : Node} (h : n.Like n') : n.Twin n' :=
  ⟨h.id, h.owner, h.pointer, h.cookie⟩

/-- The object at `offset` names the node to its sender `k`: as a `BINDER` with the node's
pointer and cookie, or as a `HANDLE` that the sender holds strongly. -/
inductive Sends (o : Objects) (k : Nat) (data : List UInt8) (offset : Nat) (n : Node) : Prop
  | binder : read32 data offset = ObjectType.binder.word → n.owner = k →
    n.pointer = read64 data (offset + 8) → n.cookie = read64 data (offset + 16) →
      Sends o k data offset n
  | handle {r : Reference} : read32 data offset = ObjectType.handle.word →
    o.referenceFor k (read32 data (offset + 8)) = some r → r.strong ≠ 0 ∨ r.temporaryStrong ≠ 0 →
      r.node = n.id → Sends o k data offset n

/-- The object at `offset` names the node to its receiver `k`: a node of its own as a `BINDER`
with pointer and cookie, another one as a `HANDLE` that `k` holds strongly. -/
inductive Arrives (o : Objects) (k : Nat) (data : List UInt8) (offset : Nat) (n : Node) : Prop
  | binder : n.owner = k → read32 data offset = ObjectType.binder.word →
    read64 data (offset + 8) = n.pointer % 2 ^ 64 → read64 data (offset + 16) = n.cookie % 2 ^ 64 →
      Arrives o k data offset n
  | handle {r : Reference} : n.owner ≠ k → read32 data offset = ObjectType.handle.word →
    o.referenceFor k (read64 data (offset + 8)) = some r → r.temporaryStrong ≠ 0 → r.node = n.id →
      read64 data (offset + 16) = 0 → Arrives o k data offset n

/-- What translation leaves at `offset`. -/
structure Shows (data : List UInt8) (offset k : Nat) (n : Node) (handle : Nat) : Prop where
  type : read32 data offset = if n.owner = k then ObjectType.binder.word else ObjectType.handle.word
  first : read64 data (offset + 8) = (if n.owner = k then n.pointer else handle) % 2 ^ 64
  second : read64 data (offset + 16) = (if n.owner = k then n.cookie else 0) % 2 ^ 64

/-- The buffer at `x` of endpoint `k` shows the node at `offset` and holds it. -/
def Conveys (o : Objects) (k x : Nat) (data : List UInt8) (offset : Nat) (n : Node) : Prop :=
  ∃ handle, (⟨k, x, n.id, handle, n.owner != k⟩ : Claim) ∈ o.claims ∧ Shows data offset k n handle

/-- The node is there. -/
def Objects.Stands (o : Objects) (n : Node) : Prop := ∃ n', o.nodeFor n.id = some n' ∧ n.Twin n'

section Names

variable {o o' : Objects} {k x offset : Nat} {data data' : List UInt8} {n : Node}

/-- Only the bytes of the object matter. -/
theorem Sends.congr (h : Sends o k data offset n) (hb : ∀ j, offset ≤ j → data'[j]? = data[j]?) :
    Sends o k data' offset n := by
  have h32 : ∀ i, offset ≤ i → read32 data' i = read32 data i := fun i hi =>
    field_congr fun j hj _ => hb j (by omega)
  have h64 : ∀ i, offset ≤ i → read64 data' i = read64 data i := fun i hi =>
    field_congr fun j hj _ => hb j (by omega)
  cases h with
  | binder htype how hptr hcookie =>
    refine .binder ?_ how ?_ ?_
    · rw [h32 _ (Nat.le_refl _), htype]
    · rw [h64 _ (by omega), hptr]
    · rw [h64 _ (by omega), hcookie]
  | handle htype hr hheld hn =>
    refine .handle ?_ ?_ hheld hn
    · rw [h32 _ (Nat.le_refl _), htype]
    · rw [h32 _ (by omega), hr]

/-- What an object shows depends on its bytes and those before. -/
theorem Shows.congr {handle : Nat} (h : Shows data offset k n handle)
    (hb : ∀ j, j < offset + 24 → data'[j]? = data[j]?) : Shows data' offset k n handle := by
  have h32 : read32 data' offset = read32 data offset := field_congr fun j _ hj => hb j (by omega)
  have h64 : ∀ i, i + 8 ≤ offset + 24 → read64 data' i = read64 data i := fun i hi =>
    field_congr fun j _ hj => hb j (by omega)
  exact ⟨h32.trans h.type, (h64 _ (by omega)).trans h.first, (h64 _ (by omega)).trans h.second⟩

/-- Where the sender's handles are the same its objects name the same. -/
theorem Sends.names (h : Sends o' k data offset n)
    (hs : ∀ handle, o'.referenceFor k handle = o.referenceFor k handle) : Sends o k data offset n := by
  cases h with
  | binder htype how hptr hcookie => exact .binder htype how hptr hcookie
  | handle htype hr hheld hn => exact .handle htype (by rw [← hs, hr]) hheld hn

/-- A resolved object named its node. -/
theorem Sends.of_named (h : Named o k data offset n)
    (htype : read32 data offset = ObjectType.binder.word ∨ read32 data offset = ObjectType.handle.word) :
    Sends o k data offset n := by
  cases h with
  | binder hbinder how _ hptr hcookie => exact .binder hbinder how hptr hcookie
  | handle hne hr hheld hn =>
    exact .handle (htype.resolve_left hne) hr hheld (nodeFor_spec hn).2.1.symm

/-- What is conveyed arrives. -/
theorem Objects.Inv.arrives (h : o.Inv) (hk : k ≠ 0) (hc : Conveys o k x data offset n) :
    Arrives o k data offset n := by
  obtain ⟨handle, hmem, htype, hfirst, hsecond⟩ := hc
  by_cases how : n.owner = k
  · rw [if_pos how] at htype hfirst hsecond
    exact .binder how htype hfirst hsecond
  · rw [if_neg how] at htype hfirst hsecond
    have hrem : (n.owner != k) = true := by simpa using how
    obtain ⟨r, hr, hre, hrn, hrh⟩ := h.tables.covered _ hmem hk hrem
    have hr0 : r.endpoint ≠ 0 := hre ▸ hk
    -- the claim is one of those the reference counts
    have hheld : r.temporaryStrong ≠ 0 := by
      rw [h.tables.held r hr hr0]
      refine Nat.ne_of_gt (List.countP_pos_iff.2 ⟨_, hmem, ?_⟩)
      simp [Claim.holds, hrem, hre, hrn]
    have hrh : r.handle = handle := hrh
    have hsmall := h.tables.small r hr hr0
    have hfor := h.tables.referenceFor hr hr0
    rw [Nat.mod_eq_of_lt (by omega)] at hfirst
    rw [hre, hrh, ← hfirst] at hfor
    exact .handle how htype hfor hheld hrn hsecond

end Names

/-! ## Nodes stay who they are -/

section Twins

variable {o o' : Objects} {g : Node → Node} {claims : List Claim}

/-- A node that is there before and after is the same node. -/
theorem Objects.KeptBy.twin (h : KeptBy g o o') (hg : ∀ n : Node, n.Twin (g n)) (ho : o.Nodes claims)
    {id : Nat} {n n' : Node} (hn : o.nodeFor id = some n) (hn' : o'.nodeFor id = some n') :
    n.Twin n' := by
  rcases h.nodes id n' hn' with ⟨x, hx, hs⟩ | ⟨hnew, _⟩
  · rw [hn] at hx
    cases hx
    exact (hg n).trans hs.toLike.twin
  · obtain ⟨hmem, hid, h0⟩ := nodeFor_spec hn
    exact absurd (hid ▸ ho.issued n hmem (hid ▸ h0)) hnew

/-- What is claimed is there, and is what it was. -/
theorem Objects.Stands.kept {n : Node} {k x handle : Nat} {remote : Bool} (h : o.Stands n) (ho : o.Sound)
    (hk : Kept o o') (ho' : o'.Sound) (hc : (⟨k, x, n.id, handle, remote⟩ : Claim) ∈ o'.claims)
    (h0 : k ≠ 0) : o'.Stands n := by
  obtain ⟨n₁, hn₁, htwin⟩ := h
  obtain ⟨n₂, hn₂, _⟩ := ho'.nodes.claimed _ hc h0
  exact ⟨n₂, hn₂, htwin.trans (hk.twin (g := id) .refl ho.nodes hn₁ hn₂)⟩

end Twins

/-! ## The object loop -/

/-- The object that was written shows the node. -/
theorem shows_writeObject {data : List UInt8} {offset : Nat} (node : Node) (target handle : Nat)
    (h : offset + 24 ≤ data.length) :
    Shows (Objects.writeObject data offset node (node.owner != target) handle) offset target node handle := by
  obtain ⟨_, _, htype, hfirst, hsecond⟩ := writeObject_spec node (node.owner != target) handle h
  by_cases how : node.owner = target
  · have hrem : (node.owner != target) = false := by simpa using how
    rw [hrem] at htype hfirst hsecond ⊢
    exact ⟨by rw [if_pos how]; exact htype, by rw [if_pos how]; exact hfirst,
      by rw [if_pos how]; exact hsecond⟩
  · have hrem : (node.owner != target) = true := by simpa using how
    rw [hrem] at htype hfirst hsecond ⊢
    exact ⟨by rw [if_neg how]; exact htype, by rw [if_neg how]; exact hfirst,
      by rw [if_neg how]; exact hsecond⟩

/-- Each object of a translated parcel named a node to the sender, and names it to the
receiver. -/
theorem translate_conveys {o : Objects} {source target buffer last : Nat} {tid : Int}
    {offsets : List Nat} {data : List UInt8} (h : o.Inv) (h0 : source ≠ 0) (hk : target ≠ 0)
    (hne : target ≠ source) (hflat : Flat data last offsets) {t : Translation}
    (ht : Objects.translate source tid target buffer offsets o data = t) (hr : t.result = 0) :
    List.Forall₂ (fun offset n => Sends o source data offset n ∧
      Conveys t.objects target buffer t.data offset n ∧ t.objects.Stands n) offsets t.nodes := by
  induction offsets generalizing o data last t with
  | nil =>
    subst ht
    exact .nil
  | cons offset rest ih =>
    obtain ⟨_, hlen, htype, hrest⟩ := hflat
    unfold Objects.translate at ht
    cases hres : o.resolveObject source tid data offset with
    | error c =>
      rw [hres] at ht
      subst ht
      -- an error is not zero
      rcases not_allowed_of_error h.toSound h0 hres with rfl | ⟨rfl, _⟩ <;> cases hr
    | ok p =>
      obtain ⟨node, o₁⟩ := p
      rw [hres] at ht
      dsimp only at ht
      cases hadd : o₁.addClaim target buffer node (node.owner != target) with
      | mk res o₂ =>
        rw [hadd] at ht
        cases res with
        | none =>
          subst ht
          cases hr
        | some handle =>
          dsimp only at ht
          obtain ⟨_, _, hrefs, _, _, _, hfor, hnamed, _⟩ := h.toSound.resolveObject hres
          obtain ⟨hinv, _, hclaim⟩ := h.claimObject hres hk hadd
          have hshows := shows_writeObject node target handle hlen
          obtain ⟨hl, hout, _⟩ := writeObject_spec node (node.owner != target) handle hlen
          generalize Objects.writeObject data offset node (node.owner != target) handle = data' at *
          have hback : ∀ j, offset + 24 ≤ j → data'[j]? = data[j]? :=
            fun j hj => hout j (by unfold Touched; omega)
          have hflat := hrest.congr hl hback
          have hload := (hinv.translate (k := source) (i := tid) (b := buffer) hk rest data').1
          have hdata := (@translate_data source tid target buffer rest o₂ data' _ hflat).2
          have htail := ih hinv hflat rfl
          generalize Objects.translate source tid target buffer rest o₂ data' = t' at *
          subst ht
          have hnames : ∀ handle, o₂.referenceFor source handle = o.referenceFor source handle := by
            intro handle
            rw [(sameNames_addClaim h0 hne hadd).reference, Objects.referenceFor, hrefs]
            rfl
          have hmem := hload.counts.claims _ ((hclaim.mem _ hk).2 (.inl rfl)) hk
          have hstands : o₂.Stands node := ⟨node, by rw [nodeFor_congr hclaim.nodes, hfor], .refl node⟩
          refine .cons ⟨.of_named hnamed htype, ⟨handle, hmem, ?_⟩, ?_⟩ ?_
          · -- the rest of the table lies behind this object
            refine hshows.congr fun j hj => hdata j fun y hy htouched => ?_
            have := (hrest.mem hy).1
            unfold Touched at htouched
            omega
          · exact hstands.kept hinv.toSound hload.kept hload.sound hmem hk
          · obtain ⟨hlength, hall⟩ := List.forall₂_iff_zip.1 (htail hr)
            refine List.forall₂_iff_zip.2 ⟨hlength, fun {y n} hyn => ?_⟩
            obtain ⟨hsends, hconveys, hstands⟩ := hall hyn
            have hy := (hrest.mem (List.of_mem_zip hyn).1).1
            exact ⟨(hsends.names hnames).congr fun j hj => (hback j (by omega)).symm, hconveys, hstands⟩

/-! ## Accepted parcels -/

/-- The parcel's table lists an object at `offset` that names `n`. -/
def Parcel.Lists (p : Parcel) (offset : Nat) (n : Node) : Prop :=
  (offset, n) ∈ (offsetTable p.offsets).zip p.nodes

instance (p : Parcel) (offset : Nat) (n : Node) : Decidable (p.Lists offset n) :=
  inferInstanceAs (Decidable (_ ∈ _))

section Accepting

variable {d d' : Device} {e target : Endpoint} {th : Thread} {node : Option Node}
  {input : TransactionData} {r : Reservation}

/-- What became of the sender's data. -/
theorem Reserved.edits (hr : Reserved d e th target node input r) (h0 : r.result = 0) :
    r.data.length = r.sent.length ∧
      ∀ j, (∀ offset ∈ offsetTable r.offsets, ¬ Touched offset j) → r.data[j]? = r.sent[j]? := by
  obtain ⟨ω, host, w, w', hres⟩ := hr.result
  obtain ⟨arena, held, hacc⟩ := reservePayload_ok hres h0
  have hdata := @translate_data e.token th.tid target.token r.buffer.address _ held _ _
    (checkObjects_flat hacc.checked)
  rw [hacc.translated] at hdata
  exact hdata

/-- A reservation without an error sends every object of its table. -/
theorem Reserved.conveys (ha : Accounts d) (hr : Reserved d e th target node input r)
    (h0 : r.result = 0) (hne : target.token ≠ e.token) :
    List.Forall₂ (fun offset n => Sends d.objects e.token r.sent offset n ∧
      Conveys r.objects target.token r.buffer.address r.data offset n ∧ r.objects.Stands n)
        (offsetTable r.offsets) r.nodes := by
  obtain ⟨ω, host, w, w', hres⟩ := hr.result
  obtain ⟨arena, held, hacc⟩ := reservePayload_ok hres h0
  have hs0 := (Device.endpointFor_spec hr.sourceFound).2.2
  have hk := (Device.endpointFor_spec hr.targetFound).2.2
  have hinv := (ha.objects.claimTarget (b := r.buffer.address) hk hr.nodeFound).2
  rw [hacc.claimed] at hinv
  -- the hold on the addressed node is the target's
  have hnames : SameNames d.objects held e.token := by
    rcases claimTarget_cases d.objects target.token r.buffer.address node with heq | ⟨n, res, _, heq⟩
    · rw [hacc.claimed] at heq
      exact heq ▸ .refl _ _
    · rw [hacc.claimed] at heq
      exact sameNames_addClaim hs0 hne heq
  refine (translate_conveys (hinv rfl) hs0 hk hne (checkObjects_flat hacc.checked) hacc.translated
    rfl).imp fun offset n hn => ?_
  exact ⟨hn.1.names hnames.reference, hn.2⟩

/-- What an accepted parcel carries: the sender's bytes but for the type and the two fields of
each object, its offset table, and in each object the node it named. `d` has the tables before
the acceptance, `d'` those behind it. -/
structure Parcel.Carries (p : Parcel) (d d' : Device) : Prop where
  target : p.work.endpoint ≠ 0
  apart : p.source ≠ p.work.endpoint
  length : p.data.length = p.sent.length
  bytes : ∀ j, (∀ offset ∈ offsetTable p.offsets, ¬ Touched offset j) → p.data[j]? = p.sent[j]?
  queued : p.work ∈ d'.work
  stored : d'.Stores p.work.endpoint p.work.value.dataBuffer p.work.value.offsetsBuffer p.data p.offsets
  listed : (offsetTable p.offsets).length = p.nodes.length
  sends : ∀ offset n, p.Lists offset n → Sends d.objects p.source p.sent offset n
  arrives : ∀ offset n, p.Lists offset n → Arrives d'.objects p.work.endpoint p.data offset n
  conveys : ∀ offset n, p.Lists offset n →
    Conveys d'.objects p.work.endpoint p.work.value.dataBuffer p.data offset n
  stands : ∀ offset n, p.Lists offset n → d'.objects.Stands n

/-- The step that accepts a parcel carries it. -/
theorem Step.carries (h : d.Reachable) (hs : Step d d') {p : Parcel} (hold : .accepted p ∉ d.history)
    (hp : .accepted p ∈ d'.history) : p.Carries d d' := by
  have h' := h.then hs
  obtain hp' | ⟨e, th, target, node, input, r, hr, h0, hne, hof, hwork, hobj⟩ := hs.accepts h.callInv hp
  · exact absurd hp' hold
  obtain ⟨hlength, hbytes⟩ := hr.edits h0
  obtain ⟨hlisted, hall⟩ := List.forall₂_iff_zip.1 (hr.conveys h.accounts h0 hne)
  have hk := (Device.endpointFor_spec hr.targetFound).2.2
  have hlists : ∀ offset n, p.Lists offset n → Sends d.objects p.source p.sent offset n ∧
      Conveys d'.objects p.work.endpoint p.work.value.dataBuffer p.data offset n ∧ d'.objects.Stands n := by
    intro offset n hn
    unfold Parcel.Lists at hn
    rw [hof.offsets, hof.nodes] at hn
    obtain ⟨hsends, hconveys, n', hn', htwin⟩ := hall hn
    rw [hof.source, hof.sent, hof.endpoint, hof.buffer, hof.data, hobj]
    refine ⟨hsends, hconveys, gate p.work n', ?_, htwin.trans (gate_like _ _).twin⟩
    rw [nodeFor_map (o := r.objects) (fun n _ => (gate_like p.work n).id) rfl, hn']
    rfl
  refine ⟨?_, ?_, ?_, ?_, hwork, queued_stores h' hp hwork, ?_, fun offset n hn => (hlists offset n hn).1,
    fun offset n hn => ?_,
    fun offset n hn => (hlists offset n hn).2.1, fun offset n hn => (hlists offset n hn).2.2⟩
  · rw [hof.endpoint]
    exact hk
  · rw [hof.source, hof.endpoint]
    exact Ne.symm hne
  · rw [hof.data, hof.sent, hlength]
  · rw [hof.data, hof.sent, hof.offsets]
    exact hbytes
  · rw [hof.offsets, hof.nodes, hlisted]
  · refine h'.accounts.objects.arrives ?_ (hlists offset n hn).2.1
    rw [hof.endpoint]
    exact hk

end Accepting

/-! ## Every parcel of a run -/

/-- What was accepted was accepted by a step, behind everything that is older. -/
theorem Device.Reachable.accepting {d : Device} (h : d.Reachable) {p : Parcel} {newer older : List Event}
    (hh : d.history = newer ++ .accepted p :: older) : ∃ d₀ d₁, d₀.Reachable ∧ Step d₀ d₁ ∧
      d₀.history = older ∧ .accepted p ∈ d₁.history ∧ machine.Steps d₁ d := by
  induction h generalizing newer with
  | init hi =>
    rw [(machine_init hi).2.2.2.2.1] at hh
    simp at hh
  | @step d d' hr hs ih =>
    have hpast : ∀ l, d'.history = l ++ d.history → (∀ q, .accepted q ∉ l) → ∃ d₀ d₁, d₀.Reachable ∧
        Step d₀ d₁ ∧ d₀.history = older ∧ .accepted p ∈ d₁.history ∧ machine.Steps d₁ d' := by
      intro l hl hnone
      rw [hl] at hh
      rcases List.append_eq_append_iff.1 hh with ⟨l', _, hd⟩ | ⟨l', hl', hd⟩
      · obtain ⟨d₀, d₁, hd₀, hs₀, hold, hnew, hpath⟩ := ih hd
        exact ⟨d₀, d₁, hd₀, hs₀, hold, hnew, hpath.tail hs⟩
      · cases l' with
        | nil =>
          obtain ⟨d₀, d₁, hd₀, hs₀, hold, hnew, hpath⟩ := @ih [] hd.symm
          exact ⟨d₀, d₁, hd₀, hs₀, hold, hnew, hpath.tail hs⟩
        | cons e l' =>
          obtain ⟨rfl, _⟩ := List.cons.inj hd
          exact absurd (hl' ▸ List.mem_append_right _ List.mem_cons_self) (hnone p)
    cases Device.Reachable.traffic hr hs with
    | quiet _ _ hl hplain => exact hpast _ hl fun q hq => hplain _ hq
    | @accept q _ _ _ _ hl =>
      -- the parcel of this step, or an older one
      rw [hl] at hh
      cases newer with
      | nil => cases hh
      | cons e newer =>
        cases newer with
        | nil =>
          cases hh
          exact ⟨d, d', hr, hs, rfl, hl ▸ by simp, .refl⟩
        | cons e' newer =>
          simp only [List.cons_append, List.cons.injEq] at hh
          obtain ⟨d₀, d₁, hd₀, hs₀, hold, hnew, hpath⟩ := ih hh.2.2
          exact ⟨d₀, d₁, hd₀, hs₀, hold, hnew, hpath.tail hs⟩
    | deliver _ _ _ _ _ _ hl => exact hpast [_] hl (by simp)
    | drop hcut _ _ _ _ _ _ hl =>
      refine hpast _ (hl.trans (List.append_assoc ..).symm) fun q hq => ?_
      rcases List.mem_append.1 hq with hq | hq
      · simp at hq
      · obtain ⟨_, _, _, _, heq⟩ := hcut.cancelled _ hq
        cases heq

/-- No parcel is accepted twice. -/
theorem Device.Reachable.accepted_new {d : Device} (h : d.Reachable) {p : Parcel}
    {newer older : List Event} (hh : d.history = newer ++ .accepted p :: older) :
    .accepted p ∉ older := by
  intro hmem
  have hle := h.ledger.accepted_once p.work
  have hpos : 0 < older.countP (·.accepts p.work) := List.countP_pos_iff.2 ⟨_, hmem, by simp⟩
  rw [hh, List.countP_append, List.countP_cons_of_pos (by simp)] at hle
  omega

/-- Objects keep their identity on the way, in every run of calls on any host: at its
acceptance a parcel carries the sender's bytes, the sender's offset table and in each listed
object the node that it named to the sender. -/
theorem parcels_carry {ω : Type} {host : Host ω} {s : System ω} (h : (System.machine host).Reachable s)
    {p : Parcel} (hp : .accepted p ∈ s.device.history) :
    ∃ d d', d.Reachable ∧ Step d d' ∧ .accepted p ∉ d.history ∧ .accepted p ∈ d'.history ∧
      machine.Steps d' s.device ∧ p.Carries d d' := by
  obtain ⟨newer, older, hh⟩ := List.append_of_mem hp
  obtain ⟨d, d', hd, hs, rfl, hnew, hpath⟩ := (system_reachable h).accepting hh
  have hold := (system_reachable h).accepted_new hh
  exact ⟨d, d', hd, hs, hold, hnew, hpath, hs.carries hd hold hnew⟩

/-- The parcels of a list of calls, the latest first. -/
def parcels (script : Script) (calls : List Call) : List Parcel :=
  (replay script calls).history.filterMap fun e => match e with
    | .accepted p => some p
    | _ => none

theorem mem_parcels {script : Script} {calls : List Call} {p : Parcel}
    (h : p ∈ parcels script calls) : .accepted p ∈ (replay script calls).history := by
  obtain ⟨e, he, heq⟩ := List.mem_filterMap.1 h
  split at heq
  next q =>
    cases heq
    exact he
  next => cases heq

theorem parcels_export : parcels exportScript exportCalls ≠ [] := by decide

/-- The client's object reaches the manager. -/
theorem parcels_carry_export : ∃ p d d', .accepted p ∈ (replay exportScript exportCalls).history ∧
    Step d d' ∧ p.Carries d d' := by
  obtain ⟨p, hp⟩ := List.exists_mem_of_ne_nil _ parcels_export
  obtain ⟨s, hs, heq⟩ := replay_system exportScript exportCalls
  have hp := mem_parcels hp
  rw [← heq] at hp ⊢
  obtain ⟨d, d', _, hstep, _, _, _, hcarries⟩ := parcels_carry hs hp
  exact ⟨p, d, d', hp, hstep, hcarries⟩

end Artbox.Binder
