import Artbox.Binder.Delivery
import Artbox.Binder.References
import Artbox.Binder.ObjectTables

/-!
# Replies and the calls they answer

A reply that is queued ends its call on both sides. A reply whose parcel is malformed is
consumed as well, with an error return for the replying thread and nothing else: its
call goes on, and the caller waits. Which of the two happens is a property of what was
sent (`WellFormedReply`), of the parcel's bytes and of the names the sender may use in
it (`Nameable`).
-/

namespace Artbox.Binder

open Slots Bytes

/-! ## Names in a parcel -/

/-- The endpoint `source` may name the object that `data` has at `x`: what it exports
already has the cookie it gives, and a handle denotes a reference it holds strongly. -/
structure NameAllowed (o : Objects) (source : Nat) (data : List UInt8) (x : Nat) : Prop where
  exported : read32 data x = ObjectType.binder.word →
    ∀ n, o.ownedNode source (read64 data (x + 8)) = some n → n.cookie = read64 data (x + 16)
  held : read32 data x ≠ ObjectType.binder.word →
    ∃ ref, o.referenceFor source (read32 data (x + 8)) = some ref ∧
      (ref.strong ≠ 0 ∨ ref.temporaryStrong ≠ 0)

/-- Two objects exported under one pointer have one cookie. -/
def OneCookie (data : List UInt8) (x y : Nat) : Prop :=
  read32 data x = ObjectType.binder.word → read32 data y = ObjectType.binder.word →
    read64 data (x + 8) = read64 data (y + 8) → read64 data (x + 16) = read64 data (y + 16)

/-- `source` may name all the objects of a parcel. -/
def Nameable (o : Objects) (source : Nat) (data : List UInt8) (offsets : List Nat) : Prop :=
  (∀ x ∈ offsets, NameAllowed o source data x) ∧ offsets.Pairwise (OneCookie data)

/-- `source` finds the same nodes and references under the same names. -/
structure SameNames (o o' : Objects) (source : Nat) : Prop where
  owned : ∀ p, o'.ownedNode source p = o.ownedNode source p
  reference : ∀ handle, o'.referenceFor source handle = o.referenceFor source handle

namespace SameNames

variable {o o' o'' : Objects} {source : Nat}

theorem refl (o : Objects) (source : Nat) : SameNames o o source := ⟨fun _ => rfl, fun _ => rfl⟩

theorem trans (h : SameNames o o' source) (h' : SameNames o' o'' source) : SameNames o o'' source :=
  ⟨fun p => (h'.owned p).trans (h.owned p), fun x => (h'.reference x).trans (h.reference x)⟩

/-- The same objects may be named. -/
theorem allowed (h : SameNames o o' source) {data : List UInt8} {x : Nat} :
    NameAllowed o' source data x ↔ NameAllowed o source data x := by
  constructor
  · intro hn
    exact ⟨fun ht n hf => hn.exported ht n (by rwa [h.owned]), fun ht => by
      rw [← h.reference]
      exact hn.held ht⟩
  · intro hn
    exact ⟨fun ht n hf => hn.exported ht n (by rwa [← h.owned]), fun ht => by
      rw [h.reference]
      exact hn.held ht⟩

/-- The same parcels may be sent. -/
theorem nameable (h : SameNames o o' source) {data : List UInt8} {offsets : List Nat} :
    Nameable o' source data offsets ↔ Nameable o source data offsets :=
  and_congr (forall₂_congr fun _ _ => h.allowed) Iff.rfl

end SameNames

/-- Nothing another endpoint's reference does moves a name of `source`. -/
theorem SameNames.of_references {o : Objects} {source : Nat} {references : List Reference}
    (h : ∀ handle, references.find? (fun r => r.endpoint == source && r.handle == handle) =
      o.referenceFor source handle) : SameNames o { o with references } source :=
  ⟨fun _ => rfl, h⟩

section Claim

variable {o o' : Objects} {source target : Nat}

/-- Raising a reference of the target changes no name of the source. -/
theorem sameNames_ensureReference {node : Node} {ref : Reference} (h0 : source ≠ 0)
    (hne : target ≠ source) (he : o.ensureReference target node = some (ref, o')) :
    SameNames o o' source := by
  obtain ⟨hre, _, ⟨_, rfl⟩ | ⟨_, _, _, _, _, references, hins, rfl⟩⟩ :=
    Objects.ensureReference_spec he
  · exact .refl _ _
  · refine .of_references fun handle => find?_insertFree_other hins ?_ fun y hy => ?_
    · simp [hre, hne]
    · have hfree : y.endpoint = 0 := by simpa using hy
      simp [hfree, Ne.symm h0]

theorem sameNames_setReference {ref : Reference} (hne : ref.endpoint ≠ source) :
    SameNames o (o.setReference ref) source := by
  refine .of_references fun handle => ?_
  have hother : ∀ x : Reference, (x.endpoint == ref.endpoint && x.handle == ref.handle) = true →
      (x.endpoint == source && x.handle == handle) = false := by
    intro x hx
    have hx : x.endpoint = ref.endpoint ∧ x.handle = ref.handle := by simpa using hx
    simp [hx.1, hne]
  rw [find?_update fun x hx => by rw [hother x hx]; simp [hne]]
  change (o.referenceFor source handle).map _ = _
  cases hf : o.referenceFor source handle with
  | none => rfl
  | some r =>
    obtain ⟨_, hr, _⟩ := Objects.referenceFor_spec hf
    simp [hr, Ne.symm hne]

/-- A claim of another endpoint moves no name of the sender. -/
theorem sameNames_addClaim {buffer : Nat} {node : Node} {remote : Bool} {res : Option Nat}
    (h0 : source ≠ 0) (hne : target ≠ source)
    (hc : o.addClaim target buffer node remote = (res, o')) : SameNames o o' source := by
  unfold Objects.addClaim at hc
  split at hc
  · cases hc
    exact .refl _ _
  · split at hc
    · split at hc
      · cases hc
        exact .refl _ _
      next ref o₁ he =>
        have hensured := sameNames_ensureReference h0 hne he
        split at hc
        · cases hc
          exact hensured
        · have hre := (Objects.ensureReference_spec he).1
          have hset : SameNames o
              (o₁.setReference { ref with temporaryStrong := ref.temporaryStrong + 1 }) source :=
            hensured.trans (sameNames_setReference (by rw [hre]; exact hne))
          dsimp only at hc
          split at hc
          · cases hc
            exact hset
          · cases hc
            exact ⟨hset.owned, hset.reference⟩
    · split at hc
      · cases hc
        exact .refl _ _
      · cases hc
        exact ⟨fun _ => rfl, fun _ => rfl⟩

end Claim

/-! ## Naming one object -/

section Naming

variable {o o₁ : Objects} {source : Nat} {tid : Int} {data : List UInt8} {offset : Nat}
  {rest : List Nat} {node : Node}

/-- What the sender owns after it exported a new node. -/
theorem ownedNode_createNode {pointer cookie flags : Nat}
    (hnone : o.ownedNode source pointer = none)
    (hc : o.createNode source pointer cookie flags tid false = some (node, o₁)) (p : Nat) :
    o₁.ownedNode source p = if p = pointer then some node else o.ownedNode source p := by
  obtain ⟨hid, h0, how, hptr, _, _, hfresh, nodes, hins, rfl⟩ := Objects.createNode_spec hc
  have hdead := hfresh.dead
  split
  next hp =>
    refine find?_insertFree_self hins (by simp [hid, h0, hdead, how, hptr, hp]) fun n hn => ?_
    have := List.find?_eq_none.1 hnone n hn
    rw [hp]
    simpa using this
  next hp =>
    refine find?_insertFree_other hins (by simp [hptr, Ne.symm hp]) fun n hn => ?_
    have hn : n.id = 0 := by simpa using hn
    simp [hn]

/-- An object found among the sender's nodes is allowed, and so is every later one with
its pointer exactly if it has the same cookie. -/
theorem allowed_found (htype : read32 data offset = ObjectType.binder.word)
    (how : o.ownedNode source (read64 data (offset + 8)) = some node)
    (hcookie : node.cookie = read64 data (offset + 16)) :
    NameAllowed o source data offset ∧ ∀ y, NameAllowed o source data y → OneCookie data offset y := by
  refine ⟨⟨fun _ n hf => ?_, fun ht => absurd htype ht⟩, fun y hy _ hty hp => ?_⟩
  · rw [how] at hf
    cases hf
    exact hcookie
  · rw [← hcookie]
    exact hy.exported hty node (by rw [← hp]; exact how)

/-- A new node is owned from now on, with the cookie it was exported with. -/
theorem allowed_created (h : o.Sound) (htype : read32 data offset = ObjectType.binder.word)
    (hnone : o.ownedNode source (read64 data (offset + 8)) = none)
    (hc : o.createNode source (read64 data (offset + 8)) (read64 data (offset + 16))
      (read32 data (offset + 4)) tid false = some (node, o₁)) :
    NameAllowed o source data offset ∧
      ∀ y, (OneCookie data offset y ∧ NameAllowed o source data y) ↔ NameAllowed o₁ source data y := by
  have howned := ownedNode_createNode hnone hc
  have hcookie := (Objects.createNode_spec hc).2.2.2.2.1
  have hrefs : ∀ x, o₁.referenceFor source x = o.referenceFor source x := by
    intro x
    rw [Objects.referenceFor, (h.createNode hc).2.2.1]
    rfl
  refine ⟨⟨fun _ n hf => ?_, fun ht => absurd htype ht⟩, fun y => ⟨?_, fun hy => ⟨?_, ?_, ?_⟩⟩⟩
  · rw [hnone] at hf
    cases hf
  · rintro ⟨hone, hy⟩
    refine ⟨fun hty n hf => ?_, fun hty => ?_⟩
    · rw [howned] at hf
      split at hf
      next hp =>
        cases hf
        rw [hcookie]
        exact hone htype hty hp.symm
      next => exact hy.exported hty n hf
    · rw [hrefs]
      exact hy.held hty
  · intro _ hty hp
    rw [← hcookie]
    exact hy.exported hty node (by rw [howned, if_pos hp.symm])
  · intro hty n hf
    refine hy.exported hty n ?_
    rw [howned, if_neg, hf]
    intro hp
    rw [hp, hnone] at hf
    cases hf
  · intro hty
    rw [← hrefs]
    exact hy.held hty

/-- A resolved object was allowed, and makes the later ones with its pointer show its
cookie. -/
theorem allowed_resolved (h : o.Sound)
    (hr : o.resolveObject source tid data offset = .ok (node, o₁)) :
    NameAllowed o source data offset ∧
      ∀ y, (OneCookie data offset y ∧ NameAllowed o source data y) ↔ NameAllowed o₁ source data y := by
  unfold Objects.resolveObject at hr
  split at hr
  next htype =>
    cases how : o.ownedNode source (read64 data (offset + 8)) with
    | some n =>
      rw [how] at hr
      dsimp only at hr
      split at hr
      · cases hr
      next hcookie =>
        cases hr
        obtain ⟨hallowed, hone⟩ := allowed_found htype how (by simpa using hcookie)
        exact ⟨hallowed, fun y => ⟨And.right, fun hy => ⟨hone y hy, hy⟩⟩⟩
    | none =>
      rw [how] at hr
      dsimp only at hr
      split at hr
      · cases hr
      next hc =>
        cases hr
        exact allowed_created h htype how hc
  next htype =>
    split at hr
    · cases hr
    next ref href =>
      split at hr
      · cases hr
      next n hn =>
        cases hr
        obtain ⟨href, hheld⟩ := Option.filter_eq_some_iff.1 href
        exact ⟨⟨fun ht => absurd ht htype, fun _ => ⟨ref, href, by simpa using hheld⟩⟩,
          fun y => ⟨And.right, fun hy => ⟨fun ht => absurd ht htype, hy⟩⟩⟩

/-- An object that is not resolved was not allowed, unless no node was left for it. -/
theorem not_allowed_of_error (h : o.Sound) (h0 : source ≠ 0) {c : Int}
    (hr : o.resolveObject source tid data offset = .error c) :
    c = -12 ∨ (c = -22 ∧ ¬ NameAllowed o source data offset) := by
  unfold Objects.resolveObject at hr
  split at hr
  next htype =>
    split at hr
    next n how =>
      split at hr
      next hcookie =>
        cases hr
        exact .inr ⟨rfl, fun hx => hcookie (hx.exported htype n how)⟩
      next => cases hr
    next =>
      split at hr
      next => cases hr; exact .inl rfl
      next => cases hr
  next htype =>
    split at hr
    next hnone =>
      cases hr
      refine .inr ⟨rfl, fun hx => ?_⟩
      obtain ⟨ref, href, hheld⟩ := hx.held htype
      rw [href, Option.filter_some, if_pos (by simpa using hheld)] at hnone
      cases hnone
    next ref href =>
      split at hr
      next hnone =>
        -- a live reference denotes a node
        obtain ⟨hmem, hre, _⟩ := Objects.referenceFor_spec (Option.filter_eq_some_iff.1 href).1
        obtain ⟨n, hn, _⟩ := h.nodes.referred ref hmem (hre ▸ h0)
        rw [hn] at hnone
        cases hnone
      next => cases hr

/-- What the head of a parcel leaves to ask of its rest. -/
theorem nameable_cons (h : ∀ y, (OneCookie data offset y ∧ NameAllowed o source data y) ↔
      NameAllowed o₁ source data y) (hx : NameAllowed o source data offset) :
    Nameable o source data (offset :: rest) ↔ Nameable o₁ source data rest := by
  unfold Nameable
  rw [List.forall_mem_cons, List.pairwise_cons]
  constructor
  · rintro ⟨⟨_, hall⟩, hone, hpair⟩
    exact ⟨fun y hy => (h y).1 ⟨hone y hy, hall y hy⟩, hpair⟩
  · rintro ⟨hall, hpair⟩
    exact ⟨⟨hx, fun y hy => ((h y).2 (hall y hy)).2⟩, fun y hy => ((h y).2 (hall y hy)).1, hpair⟩

end Naming

/-! ## The object loop -/

/-- An edit before an object changes nothing it names. -/
theorem NameAllowed.congr {o : Objects} {source : Nat} {data data' : List UInt8} {x : Nat}
    (hb : ∀ j, x ≤ j → data'[j]? = data[j]?) :
    NameAllowed o source data' x ↔ NameAllowed o source data x := by
  have hread32 : ∀ i, x ≤ i → read32 data' i = read32 data i := fun i hi =>
    field_congr fun j hj _ => hb j (by omega)
  have hread64 : ∀ i, x ≤ i → read64 data' i = read64 data i := fun i hi =>
    field_congr fun j hj _ => hb j (by omega)
  constructor <;> intro h
  · have h1 := h.exported
    have h2 := h.held
    rw [hread32 _ (by omega), hread64 _ (by omega), hread64 _ (by omega)] at h1
    rw [hread32 _ (by omega), hread32 _ (by omega)] at h2
    exact ⟨h1, h2⟩
  · refine ⟨?_, ?_⟩
    · rw [hread32 _ (by omega), hread64 _ (by omega), hread64 _ (by omega)]
      exact h.exported
    · rw [hread32 _ (by omega), hread32 _ (by omega)]
      exact h.held

/-- Cookies depend only on the bytes of the objects. -/
theorem OneCookie.congr {data data' : List UInt8} {x y last : Nat}
    (hb : ∀ j, last ≤ j → data'[j]? = data[j]?) (hx : last ≤ x) (hy : last ≤ y) :
    OneCookie data' x y ↔ OneCookie data x y := by
  have hread32 : ∀ i, last ≤ i → read32 data' i = read32 data i := fun i hi =>
    field_congr fun j hj _ => hb j (by omega)
  have hread64 : ∀ i, last ≤ i → read64 data' i = read64 data i := fun i hi =>
    field_congr fun j hj _ => hb j (by omega)
  unfold OneCookie
  rw [hread32 x hx, hread32 y hy, hread64 _ (by omega), hread64 _ (by omega), hread64 _ (by omega),
    hread64 _ (by omega)]

/-- Whether a parcel may be sent depends only on the bytes of its objects. -/
theorem Nameable.congr {o : Objects} {source last : Nat} {data data' : List UInt8}
    {offsets : List Nat} (hb : ∀ j, last ≤ j → data'[j]? = data[j]?)
    (hl : ∀ x ∈ offsets, last ≤ x) :
    Nameable o source data' offsets ↔ Nameable o source data offsets := by
  unfold Nameable
  refine and_congr (forall₂_congr fun x hx => NameAllowed.congr fun j hj => hb j ?_) ?_
  · exact Nat.le_trans (hl x hx) hj
  · exact List.Pairwise.iff_of_mem fun hx hy => OneCookie.congr hb (hl _ hx) (hl _ hy)

/-- The object loop fails with `-22` only over a name that is not allowed, and succeeds only
if all are. -/
theorem translate_nameable {o : Objects} {source target buffer last : Nat} {tid : Int}
    {offsets : List Nat} {data : List UInt8} (h : o.Inv) (h0 : source ≠ 0) (hk : target ≠ 0)
    (hne : target ≠ source) (hflat : Flat data last offsets) :
    ((Objects.translate source tid target buffer offsets o data).result = 0 ∧
        Nameable o source data offsets) ∨
      (Objects.translate source tid target buffer offsets o data).result = -12 ∨
      ((Objects.translate source tid target buffer offsets o data).result = -22 ∧
        ¬ Nameable o source data offsets) := by
  induction offsets generalizing o data last with
  | nil => exact .inl ⟨rfl, by simp [Nameable]⟩
  | cons offset rest ih =>
    obtain ⟨_, hlen, _, hrest⟩ := hflat
    unfold Objects.translate
    cases hr : o.resolveObject source tid data offset with
    | error c =>
      dsimp only
      rcases not_allowed_of_error h.toSound h0 hr with hc | ⟨hc, hnot⟩
      · exact .inr (.inl hc)
      · exact .inr (.inr ⟨hc, fun hn => hnot (hn.1 offset List.mem_cons_self)⟩)
    | ok p =>
      obtain ⟨node, o₁⟩ := p
      dsimp only
      cases hc : o₁.addClaim target buffer node (node.owner != target) with
      | mk res o₂ =>
        cases res with
        | none => exact .inr (.inl rfl)
        | some handle =>
          obtain ⟨hinv, _, _⟩ := h.claimObject hr hk hc
          obtain ⟨hallowed, hlater⟩ := allowed_resolved h.toSound hr
          obtain ⟨hl, hout, _⟩ := writeObject_spec node (node.owner != target) handle hlen
          have hback : ∀ j, offset + 24 ≤ j →
              (Objects.writeObject data offset node (node.owner != target) handle)[j]? = data[j]? :=
            fun j hj => hout j (by unfold Touched; omega)
          have hnames : Nameable o₂ source
              (Objects.writeObject data offset node (node.owner != target) handle) rest ↔
                Nameable o source data (offset :: rest) := by
            rw [Nameable.congr hback fun x hx => (hrest.mem hx).1,
              (sameNames_addClaim h0 hne hc).nameable, nameable_cons hlater hallowed]
          have hloop := ih hinv (hrest.congr hl hback)
          rw [hnames] at hloop
          exact hloop

/-! ## Parcels -/

section Parcel

variable {ω : Type} {host : Host ω} {w w' : ω} {o : Objects} {e target : Endpoint} {tid : Int}
  {input : TransactionData} {r : Reservation}

/-- The bytes the sender's two buffers hold when they are read for the packet `input`. -/
def Snapshot (host : Host ω) (w : ω) (source : Endpoint) (input : TransactionData)
    (data offsets : List UInt8) : Prop :=
  ∃ w₁ bytes w₂ table w₃, host.allocate w (input.dataSize + input.offsetsSize) = (true, w₁) ∧
    host.read w₁ source.vm input.dataBuffer input.dataSize = (some bytes, w₂) ∧
    host.read w₂ source.vm input.offsetsBuffer input.offsetsSize = (some table, w₃) ∧
    data = bytes.1 ∧ offsets = table.1

/-- Both buffers are readable, the table has whole entries, each for a whole object of a
known type behind the object before, and the sender may name all of them. -/
def WellFormedParcel (host : Host ω) (w : ω) (o : Objects) (source : Endpoint)
    (input : TransactionData) : Prop :=
  ∃ data offsets, Snapshot host w source input data offsets ∧ input.offsetsSize % 8 = 0 ∧
    Complete data 0 (offsetTable offsets) ∧ Nameable o source.token data (offsetTable offsets)

/-- A payload is read where all of its memory can be. -/
theorem readPayload_ok_iff {data offsets : List UInt8} :
    (∃ w', readPayload host w e input = (.ok (data, offsets), w')) ↔
      Snapshot host w e input data offsets := by
  constructor
  · rintro ⟨w', hread⟩
    unfold readPayload at hread
    split at hread
    · cases hread
    next w₁ halloc =>
      split at hread
      · cases hread
      next bytes w₂ hdata =>
        split at hread
        · cases hread
        next table w₃ htable =>
          cases hread
          exact ⟨w₁, bytes, w₂, table, w', halloc, hdata, htable, rfl, rfl⟩
  · rintro ⟨w₁, bytes, w₂, table, w₃, halloc, hdata, htable, rfl, rfl⟩
    refine ⟨w₃, ?_⟩
    unfold readPayload
    rw [halloc]
    dsimp only
    rw [hdata]
    dsimp only
    rw [htable]

/-- The snapshot is what was read. -/
theorem Snapshot.unique {data offsets data' offsets' : List UInt8}
    (h : Snapshot host w e input data offsets) (h' : Snapshot host w e input data' offsets') :
    data' = data ∧ offsets' = offsets := by
  obtain ⟨w₁, h₁⟩ := readPayload_ok_iff.2 h
  obtain ⟨w₂, h₂⟩ := readPayload_ok_iff.2 h'
  rw [h₁] at h₂
  cases h₂
  exact ⟨rfl, rfl⟩

/-- The objects are valid where their table is whole and every object complete. -/
theorem validateObjects_ok_iff {data offsets : List UInt8} :
    (∃ n, validateObjects data offsets = .ok n) ↔
      offsets.length % 8 = 0 ∧ Complete data 0 (offsetTable offsets) := by
  rw [← validateFrom_ok]
  unfold validateObjects
  split
  next hmod => exact iff_of_false (by simp) fun h => hmod h.1
  next hmod =>
    have hmod : offsets.length % 8 = 0 := by omega
    cases hv : validateFrom data 0 (offsetTable offsets) with
    | error c => exact iff_of_false (by simp [Except.map]) fun h => by cases h.2
    | ok u => exact iff_of_true ⟨_, rfl⟩ ⟨hmod, rfl⟩

/-- With a whole table `-22` means an object that is not complete. -/
theorem checkObjects_invalid {data offsets : List UInt8} (h : checkObjects data offsets = -22)
    (hmod : offsets.length % 8 = 0) : ¬ Complete data 0 (offsetTable offsets) := by
  intro hc
  obtain ⟨n, hn⟩ := validateObjects_ok_iff.2 ⟨hmod, hc⟩
  unfold checkObjects at h
  rw [hn] at h
  dsimp only at h
  split at h <;> cases h

/-- Without an error every object is complete. -/
theorem checkObjects_complete {data offsets : List UInt8} (h : checkObjects data offsets = 0) :
    Complete data 0 (offsetTable offsets) := by
  unfold checkObjects at h
  split at h
  · cases h
  next n hn => exact (validateObjects_ok_iff.1 ⟨n, hn⟩).2

/-- A reservation for a reply that is settled one way or the other succeeds exactly if the
parcel is well formed. -/
theorem reservePayload_wellFormed (h : o.Inv) (hs : e.token ≠ 0) (hk : target.token ≠ 0)
    (hne : target.token ≠ e.token) (hr : reservePayload host w o e tid target input none = (r, w'))
    (hc : r.result = 0 ∨ r.result = -22 ∨ r.result = -14) :
    r.result = 0 ↔ WellFormedParcel host (host.watchBits w target.receiveWatch).2 o e input := by
  unfold reservePayload at hr
  dsimp only at hr
  split at hr
  next hsizes =>
    cases hr
    refine iff_of_false hsizes ?_
    rintro ⟨data, offsets, _, hmod, _⟩
    revert hc hsizes
    unfold checkSizes
    dsimp only
    repeat' split
    all_goals omega
  next hsizes =>
    have hmod : input.offsetsSize % 8 = 0 := by
      by_contra hmod
      apply hsizes
      unfold checkSizes
      repeat' split
      all_goals simp
    split at hr
    · cases hr
      simp at hc
    next arena harena =>
      cases hread : readPayload host (host.watchBits w target.receiveWatch).2 e input with
      | mk res w₁ =>
        rw [hread] at hr
        cases res with
        | error c =>
          cases hr
          refine iff_of_false (by rcases readPayload_error hread with rfl | rfl <;> simp) ?_
          rintro ⟨data, offsets, hsnap, _⟩
          obtain ⟨_, hok⟩ := readPayload_ok_iff.2 hsnap
          rw [hread] at hok
          cases hok
        | ok p =>
          obtain ⟨data, offsets⟩ := p
          obtain ⟨hdata, hoffsets⟩ := readPayload_ok hread
          have hsnap := readPayload_ok_iff.1 ⟨w₁, hread⟩
          dsimp only at hr
          -- only the parcel that was read counts
          have hparcel : WellFormedParcel host (host.watchBits w target.receiveWatch).2 o e input ↔
              Complete data 0 (offsetTable offsets) ∧ Nameable o e.token data (offsetTable offsets) := by
            constructor
            · rintro ⟨data', offsets', hsnap', _, hrest⟩
              obtain ⟨rfl, rfl⟩ := hsnap.unique hsnap'
              exact hrest
            · rintro ⟨hcomplete, hnames⟩
              exact ⟨data, offsets, hsnap, hmod, hcomplete, hnames⟩
          rw [hparcel]
          split at hr
          next hcheck =>
            cases hr
            refine iff_of_false hcheck fun hp => ?_
            refine checkObjects_invalid ?_ (by omega) hp.1
            dsimp only at hc
            revert hc hcheck
            unfold checkObjects
            repeat' split
            all_goals simp
          next hcheck =>
            have hcheck : checkObjects data offsets = 0 := by simpa using hcheck
            have hflat := checkObjects_flat hcheck
            cases hr
            rcases storePayload_cases o e tid target arena input none hdata hoffsets hcheck with
              ⟨c, hres, hst⟩ | ⟨b, reserved, held, t, hres, hheld, ht, hst⟩
            · rw [hst] at hc ⊢
              dsimp only at hc ⊢
              rcases Arena.reserve_error_code hres with h12 | ⟨_, hbroken⟩
              · omega
              · exact absurd hmod hbroken
            · have hheld : held = (0, o) := hheld.symm
              rw [hheld, if_pos rfl] at ht
              have hloop : (t.result = 0 ∧ Nameable o e.token data (offsetTable offsets)) ∨
                  t.result = -12 ∨
                    (t.result = -22 ∧ ¬ Nameable o e.token data (offsetTable offsets)) := by
                rw [ht]
                exact translate_nameable h hs hk hne hflat
              have hresult : (storePayload o e tid target arena input none data offsets).result =
                  t.result := by
                rcases hst with ⟨_, hst⟩ | ⟨h0, hst⟩
                · rw [hst]
                · rw [hst, h0]
              rw [hresult] at hc ⊢
              rcases hloop with ⟨h0, hnames⟩ | h12 | ⟨h22, hnot⟩
              · exact iff_of_true h0 ⟨checkObjects_complete hcheck, hnames⟩
              · omega
              · exact iff_of_false (by omega) fun hp => hnot hp.2

end Parcel

/-! ## The end of the call -/

/-- The call that `th` served is over in `d'`: the thread is free, nobody waits for the call, it
is not live, and its caller has a reply or an error to read. -/
structure CallEnded (d : Device) (e : Endpoint) (th : Thread) (d' : Device) : Prop where
  server : ∃ x, d'.threadFor e.token th.tid = some x ∧ x.incoming = 0
  waiting : ∀ k i x, d'.threadFor k i = some x → x.outgoing ≠ th.incoming
  ended : d'.transactionFor th.incoming = none
  caller : ∀ t, d.transactionFor th.incoming = some t →
    ∃ x, d'.threadFor t.source t.sourceTid = some x ∧
      (x.error.isSome = true ∨
        ∃ w ∈ d'.work, w.endpoint = t.source ∧ w.tid = t.sourceTid ∧ w.command = .reply)

/-- The packet at `address` answers the caller of the call that `th` serves with a well-formed
parcel. -/
def WellFormedReply {ω : Type} (host : Host ω) (w : ω) (d : Device) (e : Endpoint) (th : Thread)
    (address : Nat) : Prop :=
  ∃ bytes w₁ input t target, host.read w e.vm address 68 = (some bytes, w₁) ∧
    decodeTransaction ⟨BC.reply.word, bytes.1.drop 4⟩ = .ok input ∧
    d.transactionFor th.incoming = some t ∧ d.endpointFor t.source = some target ∧
    WellFormedParcel host (host.watchBits w₁ target.receiveWatch).2 d.objects e input

section Ends

variable {ω : Type} {host : Host ω} {w : ω} {d : Device} {e : Endpoint} {th : Thread}

/-- A queued reply ends its call. -/
theorem sendReply_ends (h : d.Reachable) (hf : Found d e th) {target : Endpoint} {t : Transaction}
    {input : TransactionData} {r : Reservation} (ht : d.replyTarget th = some (target, t)) :
    CallEnded d e th ((d.storeReservation target.token r).sendReply e th t input r) := by
  have hc := h.callInv
  obtain ⟨htin, _, _, caller, hcaller, hout⟩ := Device.replyTarget_spec ht
  have hid := (Device.transactionFor_spec htin).2.1
  have hth : d.threadFor e.token th.tid = some th := by
    rw [Device.threadFor_of hf.endpoint]
    exact hf.thread
  refine ⟨?_, fun k i x hx hox => ?_, ?_, fun t' ht' => ?_⟩
  · refine ⟨_, by rw [Device.threadFor_sendReply, hth]; rfl, ?_⟩
    show (if e.token = e.token ∧ th.tid = th.tid then 0 else th.incoming) = 0
    rw [if_pos ⟨rfl, rfl⟩]
  · rw [Device.threadFor_sendReply] at hx
    obtain ⟨y, hy, rfl⟩ := Option.map_eq_some_iff.1 hx
    change (if k = t.source ∧ i = t.sourceTid then 0 else y.outgoing) = th.incoming at hox
    split at hox
    next => exact (Device.transactionFor_spec htin).2.2 hox.symm
    next hki => exact hki (hc.only_caller htin hy hox)
  · rw [← hid]
    exact (Device.transactionFor_endTransaction t.id t.id).trans (if_pos rfl)
  · rw [htin] at ht'
    cases ht'
    refine ⟨_, by rw [Device.threadFor_sendReply, hcaller]; rfl, .inr ⟨_, List.mem_append_right _
      (List.mem_singleton.2 rfl), rfl, rfl, rfl⟩⟩

/-- A reply answered with an error return leaves its call where it was. -/
theorem not_ended_of_serving {d' : Device} (h0 : th.incoming ≠ 0) {x : Thread}
    (hx : d'.threadFor e.token th.tid = some x) (hin : x.incoming = th.incoming) :
    ¬ CallEnded d e th d' := by
  intro h
  obtain ⟨y, hy, hy0⟩ := h.server
  rw [hx] at hy
  cases hy
  exact h0 (hin.symm.trans hy0)

/-- A reply that is consumed without an error has ended its call. -/
theorem transferReply_ends (h : d.Reachable) (hf : Found d e th) (h0 : th.incoming ≠ 0)
    {input : TransactionData} (hc : (transferReply host w d e th input).1 = 0) :
    CallEnded d e th (transferReply host w d e th input).2.1 ↔
      ∃ t target, d.transactionFor th.incoming = some t ∧ d.endpointFor t.source = some target ∧
        WellFormedParcel host (host.watchBits w target.receiveWatch).2 d.objects e input := by
  have hth : d.threadFor e.token th.tid = some th := by
    rw [Device.threadFor_of hf.endpoint]
    exact hf.thread
  obtain ⟨hdead, t, ht, htarget, _⟩ := h.callInv.serving _ _ th hth h0
  revert hc
  unfold transferReply
  rw [if_neg (by rw [hdead]; decide)]
  cases hreply : d.replyTarget th with
  | none => intro hc; cases hc
  | some p =>
    obtain ⟨target, t'⟩ := p
    obtain ⟨htin, _, hsource, _⟩ := Device.replyTarget_spec hreply
    rw [ht] at htin
    cases htin
    -- nobody calls itself, so the reply crosses endpoints
    have hapart : target.token ≠ e.token := by
      rw [(Device.endpointFor_spec hsource).2.1, ← htarget]
      exact h.callInv.apart _ t ht
    have hs0 := (Device.endpointFor_spec hf.endpoint).2.2
    have ht0 : target.token ≠ 0 := by
      rw [(Device.endpointFor_spec hsource).2.1]
      exact (Device.endpointFor_spec hsource).2.2
    have hparcel : (∃ t target, d.transactionFor th.incoming = some t ∧
        d.endpointFor t.source = some target ∧
          WellFormedParcel host (host.watchBits w target.receiveWatch).2 d.objects e input) ↔
        WellFormedParcel host (host.watchBits w target.receiveWatch).2 d.objects e input := by
      constructor
      · rintro ⟨t', target', ht', htarget', hp⟩
        rw [ht] at ht'
        cases ht'
        rw [hsource] at htarget'
        cases htarget'
        exact hp
      · exact fun hp => ⟨t, target, ht, hsource, hp⟩
    rw [hparcel]
    dsimp only
    cases hres : reservePayload host w d.objects e th.tid target input none with
    | mk r w' =>
      intro hc
      dsimp only at hc ⊢
      have hwell := reservePayload_wellFormed h.accounts.objects hs0 ht0 hapart hres
      split at hc
      next hne =>
        rw [if_pos hne]
        unfold Device.refusePayload at hc ⊢
        split at hc
        next hcode =>
          rw [if_pos hcode]
          refine iff_of_false ?_ fun hp => hne ((hwell (by omega)).2 hp)
          have hserves : ((d.storeReservation target.token r).updateThread e.token th.tid fun th =>
              { th with error := some .failedReply }).threadFor e.token th.tid =
                some { th with error := some .failedReply } := by
            refine (Device.threadFor_updateThread (f := fun th => { th with error := some .failedReply })
              fun _ => rfl).trans ?_
            rw [if_pos ⟨rfl, rfl⟩, Device.threadFor_storeReservation, hth]
            rfl
          exact not_ended_of_serving h0 hserves rfl
        next => exact absurd hc hne
      next heq =>
        have heq : r.result = 0 := by omega
        rw [if_neg (by omega)]
        exact iff_of_true (sendReply_ends h hf hreply) ((hwell (.inl heq)).1 heq)

/-- A consumed reply ends the call it answers exactly if its parcel is well formed. -/
theorem reply_ends_iff (host : Host ω) (w : ω) (h : d.Reachable) (hf : Found d e th)
    (h0 : th.incoming ≠ 0) (address : Nat)
    (hc : (transferPacket host w d e th address true).1 = 0) :
    CallEnded d e th (transferPacket host w d e th address true).2.1 ↔
      WellFormedReply host w d e th address := by
  revert hc
  unfold transferPacket
  split
  · intro hc; cases hc
  · cases hread : host.read w e.vm address 68 with
    | mk res w₁ =>
      cases res with
      | none => intro hc; cases hc
      | some bytes =>
        dsimp only
        rw [if_pos rfl]
        cases hdec : decodeTransaction ⟨BC.reply.word, bytes.1.drop 4⟩ with
        | error c => intro hc; cases hc
        | ok input =>
          dsimp only
          split
          · intro hc; cases hc
          · split
            · intro hc; cases hc
            · rw [if_pos rfl]
              intro hc
              rw [transferReply_ends h hf h0 hc]
              constructor
              · rintro ⟨t, target, ht, htarget, hp⟩
                exact ⟨bytes, w₁, input, t, target, hread, hdec, ht, htarget, hp⟩
              · rintro ⟨bytes', w', input', t, target, hread', hdec', ht, htarget, hp⟩
                rw [hread] at hread'
                cases hread'
                rw [hdec] at hdec'
                cases hdec'
                exact ⟨t, target, ht, htarget, hp⟩

end Ends

/-- The client calls the manager, whose looper reads the call; packets at 1280 and 1408 are an
empty reply and one with half an entry in its offset table. -/
def replyScript : Script :=
  callScript ++ [(1, 1280, packetBytes .reply 0 0 0 0 0 0), (1, 1408, packetBytes .reply 0 0 0 4 0 2048),
    (1, 0, []), (1, 2048, Bytes.writeLE 4 0)]

theorem servingManager_isSome : (managerThread replyScript callCalls).isSome = true := by
  decide

/-- The broken reply is consumed, and the manager's thread still serves the call. -/
theorem reply_lost : ¬ ∀ (d : Device) (e : Endpoint) (th : Thread) (address : Nat), d.Reachable →
    Found d e th → th.incoming ≠ 0 →
      (transferPacket scriptHost replyScript d e th address true).1 = 0 →
        CallEnded d e th (transferPacket scriptHost replyScript d e th address true).2.1 := by
  intro hall
  obtain ⟨⟨e, th⟩, hthread⟩ := Option.isSome_iff_exists.1 servingManager_isSome
  have hget : (managerThread replyScript callCalls).get servingManager_isSome = (e, th) :=
    Option.get_of_eq_some servingManager_isSome hthread
  have hrun : ∀ x, (managerThread replyScript callCalls).get servingManager_isSome = x → x.2.incoming = 1 ∧
      (transferPacket scriptHost replyScript (replay replyScript callCalls) x.1 x.2 1408 true).1 = 0 ∧
      ((transferPacket scriptHost replyScript (replay replyScript callCalls) x.1 x.2 1408
        true).2.1.threadFor x.1.token x.2.tid).map (·.incoming) = some 1 := by
    rintro x rfl
    decide
  obtain ⟨hin, hzero, hafter⟩ := hrun _ hget
  obtain ⟨y, hy, hy1⟩ := Option.map_eq_some_iff.1 hafter
  exact not_ended_of_serving (by rw [hin]; decide) hy (hy1.trans hin.symm)
    (hall _ e th 1408 (replay_reachable replyScript callCalls) (managerThread_found hthread)
      (by rw [hin]; decide) hzero)

/-- The empty reply ends the call. -/
theorem reply_ends : ∃ e th, managerThread replyScript callCalls = some (e, th) ∧
    (CallEnded (replay replyScript callCalls) e th
      (transferPacket scriptHost replyScript (replay replyScript callCalls) e th 1280 true).2.1 ↔
        WellFormedReply scriptHost replyScript (replay replyScript callCalls) e th 1280) := by
  obtain ⟨⟨e, th⟩, hthread⟩ := Option.isSome_iff_exists.1 servingManager_isSome
  have hget : (managerThread replyScript callCalls).get servingManager_isSome = (e, th) :=
    Option.get_of_eq_some servingManager_isSome hthread
  have hrun : ∀ x, (managerThread replyScript callCalls).get servingManager_isSome = x → x.2.incoming = 1 ∧
      (transferPacket scriptHost replyScript (replay replyScript callCalls) x.1 x.2 1280 true).1 = 0 := by
    rintro x rfl
    decide
  obtain ⟨hin, hzero⟩ := hrun _ hget
  exact ⟨e, th, hthread, reply_ends_iff scriptHost replyScript
    (replay_reachable replyScript callCalls) (managerThread_found hthread) (by rw [hin]; decide) 1280
      hzero⟩

end Artbox.Binder
