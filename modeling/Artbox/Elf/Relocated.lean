import Artbox.Elf.Plan

/-!
# Relocation is exact

Sorting and the check behind it leave writes whose targets do not share a byte (`Spaced.apart`), so
that storing them one after the other gives each target its value and no other byte a new one
(`storeWrites_spec`). With the plan of `Plan.lean` this says what an accepted relocation does to the
views (`Relocated`).
-/

namespace Artbox.Elf

open Checked

variable {d : Dynamic} {memory memory' : List Memory} {bias : BitVec 64} {resolve : Option Resolver}
  {tls : Option Binding}

/-! ## Views -/

/-- The byte at a place in a view. -/
def byteAt (memory : List Memory) (view offset : Nat) : Option UInt8 :=
  memory[view]?.bind fun m => m.bytes[offset]?

/-- What stays of a view when its bytes change. -/
def Memory.shape (m : Memory) : Nat × Nat × Nat := (m.segmentIndex, m.address, m.bytes.length)

/-- The views have changed at most in their bytes. -/
def SameShape (memory memory' : List Memory) : Prop := memory'.map Memory.shape = memory.map Memory.shape

/-- Views of the same shape have views of the same length at each index. -/
theorem SameShape.get (h : SameShape memory memory') {i : Nat} {m : Memory} (hm : memory[i]? = some m) :
    ∃ m', memory'[i]? = some m' ∧ m'.bytes.length = m.bytes.length := by
  have hi : (memory'.map Memory.shape)[i]? = (memory.map Memory.shape)[i]? := by rw [h]
  rw [List.getElem?_map, List.getElem?_map, hm] at hi
  obtain ⟨m', hm', hshape⟩ := Option.map_eq_some_iff.1 hi
  exact ⟨m', hm', congrArg (·.2.2) hshape⟩

/-- Being of the same shape is symmetric. -/
theorem SameShape.symm (h : SameShape memory memory') : SameShape memory' memory := Eq.symm h

/-- Being of the same shape is transitive. -/
theorem SameShape.trans {memory'' : List Memory} (h : SameShape memory memory')
    (h' : SameShape memory' memory'') : SameShape memory memory'' := Eq.trans h' h

/-- A word is determined by its bytes. -/
theorem SameShape.word (h : SameShape memory memory') {view offset : Nat}
    (hbytes : ∀ o, offset ≤ o → o < offset + 8 → byteAt memory' view o = byteAt memory view o) :
    wordAt memory' view offset = wordAt memory view offset := by
  unfold wordAt
  cases hm : memory[view]? with
  | none =>
    have hnone : memory'[view]? = none := by
      cases hm' : memory'[view]? with
      | none => rfl
      | some m' =>
        obtain ⟨m, hsome, _⟩ := h.symm.get hm'
        rw [hm] at hsome
        cases hsome
    rw [hnone]
  | some m =>
    obtain ⟨m', hm', _⟩ := h.get hm
    rw [hm']
    refine congrArg (BitVec.ofNat 64) (Bytes.field_congr fun o hlow hhigh => ?_)
    have ho := hbytes o hlow hhigh
    unfold byteAt at ho
    rw [hm, hm'] at ho
    exact ho

/-! ## Storing -/

/-- The views hold `value` at a place, and else what they held before. -/
structure Patched (memory memory' : List Memory) (view offset : Nat) (value : BitVec 64) : Prop where
  shape : SameShape memory memory'
  word : wordAt memory' view offset = value
  others : ∀ v o, ¬ (v = view ∧ offset ≤ o ∧ o < offset + 8) → byteAt memory' v o = byteAt memory v o

/-- `p64` inside of a view patches one word there. -/
theorem p64_patched {view offset : Nat} {m : Memory} (value : BitVec 64) (hm : memory[view]? = some m)
    (hfits : offset + 8 ≤ m.bytes.length) :
    ∃ memory', p64 memory view offset value = .ok memory' ∧ Patched memory memory' view offset value := by
  have hlength : (Bytes.writeLE 8 value.toNat).length = 8 := Bytes.length_writeLE _ _
  have hview : view < memory.length := (List.getElem?_eq_some_iff.1 hm).1
  generalize hnew : Bytes.splice m.bytes offset (Bytes.writeLE 8 value.toNat) = new
  have hset : p64 memory view offset value = .ok (memory.set view { m with bytes := new }) := by
    unfold p64
    rw [hm, ← hnew]
    show (within _ >>= _) = _
    unfold within
    rw [if_pos hfits]
    rfl
  have hget : (memory.set view { m with bytes := new })[view]? = some { m with bytes := new } :=
    List.getElem?_set_self hview
  refine ⟨_, hset, ?_, ?_, ?_⟩
  · -- only the bytes of one view change
    unfold SameShape
    have hshape : Memory.shape { m with bytes := new } = Memory.shape m := by
      unfold Memory.shape
      rw [← hnew, Bytes.length_splice (by omega)]
    refine List.ext_getElem? fun i => ?_
    rw [List.getElem?_map, List.getElem?_map]
    by_cases hi : view = i
    · subst hi
      rw [hget, hm]
      exact congrArg some hshape
    · rw [List.getElem?_set_ne hi]
  · unfold wordAt
    rw [hget]
    show BitVec.ofNat 64 (Bytes.field new offset 8) = value
    rw [← hnew, Bytes.field_splice_self hfits]
    have hlt := value.isLt
    rw [Nat.mod_eq_of_lt (by omega)]
    rw [BitVec.ofNat_toNat, BitVec.setWidth_eq]
  · intro v o hout
    unfold byteAt
    by_cases hv : view = v
    · subst hv
      rw [hget, hm]
      show new[o]? = m.bytes[o]?
      rw [← hnew]
      exact Bytes.getElem?_splice_of_outside (by omega) (by
        by_contra h
        exact hout ⟨rfl, by omega, by omega⟩)
    · rw [List.getElem?_set_ne hv]

/-- A byte that a write writes. -/
def Write.Covers (w : Write) (v o : Nat) : Prop := v = w.view ∧ w.offset ≤ o ∧ o < w.offset + w.width

/-- A write's target is inside a view. -/
def Write.Inside (memory : List Memory) (w : Write) : Prop :=
  (w.width = 8 ∨ w.width = 16) ∧ ∃ m, memory[w.view]? = some m ∧ w.offset + w.width ≤ m.bytes.length

/-- A write inside of the views is inside of views of the same shape. -/
theorem SameShape.inside (h : SameShape memory memory') {w : Write} (hw : w.Inside memory) :
    w.Inside memory' := by
  obtain ⟨hwidth, m, hm, hfits⟩ := hw
  obtain ⟨m', hm', hlength⟩ := h.get hm
  exact ⟨hwidth, m', hm', by omega⟩

/-- The views hold what a write writes. -/
def Write.Stored (memory : List Memory) (w : Write) : Prop :=
  wordAt memory w.view w.offset = w.value ∧
    (w.width = 16 → wordAt memory w.view (w.offset + 8) = w.argument)

/-- What storing some writes does. -/
structure Stores (memory memory' : List Memory) (ws : List Write) : Prop where
  shape : SameShape memory memory'
  stored : ∀ w ∈ ws, w.Stored memory'
  others : ∀ v o, (∀ w ∈ ws, ¬ w.Covers v o) → byteAt memory' v o = byteAt memory v o

/-- One write. -/
theorem storeWrite_stores {w : Write} (hw : w.Inside memory) :
    ∃ memory', (p64 memory w.view w.offset w.value >>= fun memory =>
      if w.width = 16 then p64 memory w.view (w.offset + 8) w.argument else .ok memory) = .ok memory' ∧
        Stores memory memory' [w] := by
  obtain ⟨hwidth, m, hm, hfits⟩ := hw
  have hfits₀ : w.offset + 8 ≤ m.bytes.length := by omega
  obtain ⟨memory₁, hfirst, h₁⟩ := p64_patched w.value hm hfits₀
  rw [hfirst]
  show ∃ memory', (if w.width = 16 then p64 memory₁ w.view (w.offset + 8) w.argument else .ok memory₁) =
    .ok memory' ∧ _
  by_cases h16 : w.width = 16
  · obtain ⟨m₁, hm₁, hlength⟩ := h₁.shape.get hm
    have hfits₁ : w.offset + 8 + 8 ≤ m₁.bytes.length := by omega
    obtain ⟨memory₂, hsecond, h₂⟩ := p64_patched w.argument hm₁ hfits₁
    rw [if_pos h16]
    refine ⟨memory₂, hsecond, h₁.shape.trans h₂.shape, fun w' hw' => ?_, fun v o hout => ?_⟩
    · obtain rfl := List.mem_singleton.1 hw'
      refine ⟨?_, fun _ => h₂.word⟩
      rw [h₂.shape.word fun o hlow hhigh => h₂.others _ _ (by omega)]
      exact h₁.word
    · have hnot := hout w (List.mem_singleton.2 rfl)
      unfold Write.Covers at hnot
      rw [h₂.others v o (by omega), h₁.others v o (by omega)]
  · rw [if_neg h16]
    refine ⟨memory₁, rfl, h₁.shape, fun w' hw' => ?_, fun v o hout => ?_⟩
    · obtain rfl := List.mem_singleton.1 hw'
      exact ⟨h₁.word, fun h => absurd h h16⟩
    · have hnot := hout w (List.mem_singleton.2 rfl)
      unfold Write.Covers at hnot
      exact h₁.others v o (by omega)

/-- Two writes share no byte. -/
def Write.Apart (w w' : Write) : Prop := ∀ v o, w.Covers v o → ¬ w'.Covers v o

/-- What a write has written stays when others are stored. -/
theorem Stores.keeps {ws : List Write} (h : Stores memory memory' ws) {w : Write} (hwidth : 8 ≤ w.width)
    (hw : w.Stored memory) (hapart : ∀ w' ∈ ws, w.Apart w') : w.Stored memory' := by
  refine ⟨?_, fun h16 => ?_⟩
  · rw [h.shape.word fun o hlow hhigh => h.others _ _ fun w' hw' =>
      hapart w' hw' _ _ ⟨rfl, by omega, by omega⟩]
    exact hw.1
  · rw [h.shape.word fun o hlow hhigh => h.others _ _ fun w' hw' =>
      hapart w' hw' _ _ ⟨rfl, by omega, by omega⟩]
    exact hw.2 h16

/-- Writes that share no byte are all stored. -/
theorem storeWrites_spec {ws : List Write} (hinside : ∀ w ∈ ws, w.Inside memory)
    (hapart : ws.Pairwise Write.Apart) :
    ∃ memory', storeWrites ws memory = .ok memory' ∧ Stores memory memory' ws := by
  induction ws generalizing memory with
  | nil => exact ⟨memory, rfl, rfl, fun w hw => absurd hw List.not_mem_nil, fun _ _ _ => rfl⟩
  | cons w ws ih =>
    obtain ⟨hfirst, hrest⟩ := List.pairwise_cons.1 hapart
    obtain ⟨memory₁, hstore, h₁⟩ := storeWrite_stores (hinside w List.mem_cons_self)
    obtain ⟨memory₂, hstores, h₂⟩ := @ih memory₁
      (fun w' hw' => h₁.shape.inside (hinside w' (List.mem_cons_of_mem _ hw'))) hrest
    have hall : storeWrites (w :: ws) memory = .ok memory₂ := by
      show (p64 memory w.view w.offset w.value >>= fun memory =>
        (if w.width = 16 then p64 memory w.view (w.offset + 8) w.argument else .ok memory) >>=
          fun memory => storeWrites ws memory) = _
      rw [← bind_assoc, hstore]
      exact hstores
    refine ⟨memory₂, hall, h₁.shape.trans h₂.shape, fun w' hw' => ?_, fun v o hout => ?_⟩
    · rcases List.mem_cons.1 hw' with rfl | hw'
      · have hwidth := (hinside w' List.mem_cons_self).1
        exact h₂.keeps (by omega) (h₁.stored w' (List.mem_singleton.2 rfl)) hfirst
      · exact h₂.stored w' hw'
    · rw [h₂.others v o fun w' hw' => hout w' (List.mem_cons_of_mem _ hw')]
      refine h₁.others v o fun w' hw' => ?_
      rw [List.mem_singleton.1 hw']
      exact hout w List.mem_cons_self

/-! ## The plan in order -/

/-- What a planned write has of its entry. -/
structure Write.For (d : Dynamic) (memory : List Memory) (e : Entry) (w : Write) : Prop where
  address : w.address = e.address
  type : w.type = e.type
  symbol : w.symbol = e.symbol
  width : w.width = widthOf e.type
  place : target d.image memory e.address (widthOf e.type) = some (w.view, w.offset)
  value : w.value = e.addend.getD (wordAt memory w.view w.offset)

/-- What is planned for an entry is a write for it. -/
theorem Entry.write_some {e : Entry} {w : Write} (h : e.write d memory = some w) : w.For d memory e := by
  unfold Entry.write at h
  by_cases hcheck : (e.type ≠ rAbs64 ∧ e.type ≠ rGlobDat ∧ e.type ≠ rJumpSlot ∧ e.type ≠ rRelative ∧
      e.type ≠ rTlsdesc) ∨ d.symbolCount ≤ e.symbol ∨ (e.type = rRelative ∧ e.symbol ≠ 0)
  · rw [if_pos hcheck] at h
    cases h
  · rw [if_neg hcheck] at h
    obtain ⟨place, hplace, rfl⟩ := Option.map_eq_some_iff.1 h
    exact ⟨rfl, rfl, rfl, rfl, hplace, rfl⟩

/-- A write has one word or two. -/
theorem widthOf_cases (type : Nat) : widthOf type = 8 ∨ widthOf type = 16 := by
  unfold widthOf
  split
  · exact .inr rfl
  · exact .inl rfl

/-- The write for an entry is inside of the views. -/
theorem Write.For.inside {e : Entry} {w : Write} (h : w.For d memory e) : w.Inside memory := by
  obtain ⟨m, hm, _, _, hfits⟩ := target_some h.place
  refine ⟨h.width ▸ widthOf_cases _, m, hm, ?_⟩
  rw [h.width]
  exact hfits

/-- Targets behind each other in the address space share no byte. -/
theorem Write.For.apart {e e' : Entry} {w w' : Write} (h : w.For d memory e) (h' : w'.For d memory e')
    (hbehind : w.address + w.width ≤ w'.address) : w.Apart w' := by
  obtain ⟨m, hm, hlow, hoffset, _⟩ := target_some h.place
  obtain ⟨m', hm', hlow', hoffset', _⟩ := target_some h'.place
  rintro v o ⟨hv, hfirst, hlast⟩ ⟨hv', hfirst', _⟩
  dsimp only at hm hm' hoffset hoffset'
  rw [← hv] at hm
  rw [← hv', hm] at hm'
  obtain rfl := Option.some.inj hm'
  have haddress := h.address
  have haddress' := h'.address
  omega

/-- No write reaches the one behind it. -/
def Spaced (ws : List Write) : Prop := ws.IsChain fun w v => ¬ v.address - w.address < w.width

/-- Behind the check no write reaches the one behind it. -/
theorem checkApart_spaced {ws : List Write} : Safe (checkApart ws) (fun _ => Spaced ws) := by
  induction ws with
  | nil => exact Safe.ok .nil
  | cons w ws ih =>
    cases ws with
    | nil => exact Safe.ok (.singleton w)
    | cons v rest =>
      unfold checkApart
      refine Safe.bind Safe.reject fun _ hfar => ?_
      exact Safe.mono ih fun _ hrest => .cons_cons hfar hrest

instance : Std.Total byAddress := ⟨fun a b => Nat.le_total a.address b.address⟩

instance : IsTrans Write byAddress := ⟨fun _ _ _ h h' => Nat.le_trans h h'⟩

/-- Spaced writes in order are behind each other. -/
theorem Spaced.behind {ws : List Write} (h : Spaced ws) (hsorted : ws.Pairwise byAddress)
    (hwidth : ∀ w ∈ ws, 0 < w.width) : ws.Pairwise fun w v => w.address + w.width ≤ v.address := by
  induction ws with
  | nil => exact .nil
  | cons w ws ih =>
    obtain ⟨hfirst, hrest⟩ := List.pairwise_cons.1 hsorted
    have hpos := hwidth w List.mem_cons_self
    cases ws with
    | nil => exact List.pairwise_singleton _ _
    | cons v ws =>
      obtain ⟨hfar, hspaced⟩ := List.isChain_cons_cons.1 h
      have hall := ih hspaced hrest fun u hu => hwidth u (List.mem_cons_of_mem _ hu)
      refine List.pairwise_cons.2 ⟨fun u hu => ?_, hall⟩
      have hvu : v.address ≤ u.address := by
        rcases List.mem_cons.1 hu with rfl | hu
        · exact Nat.le_refl _
        · exact (List.pairwise_cons.1 hrest).1 u hu
      omega

/-! ## Values -/

/-- A map that succeeds does so for each member. -/
theorem mapM_some_iff {α β : Type} {f : α → Option β} {l : List α} {r : List β} :
    l.mapM f = some r ↔ List.Forall₂ (fun a b => f a = some b) l r := by
  induction l generalizing r with
  | nil =>
    constructor
    · intro h
      obtain rfl := Option.some.inj h
      exact .nil
    · rintro ⟨⟩
      rfl
  | cons a l ih =>
    rw [List.mapM_cons]
    constructor
    · intro h
      obtain ⟨b, hb, h⟩ := Option.bind_eq_some_iff.1 h
      obtain ⟨bs, hbs, h⟩ := Option.bind_eq_some_iff.1 h
      obtain rfl := Option.some.inj h
      exact .cons hb (ih.1 hbs)
    · rintro (_ | ⟨hb, hbs⟩)
      rw [hb, ih.2 hbs]
      rfl

/-- The resolver does not go wrong. -/
theorem askResolver_safe (index : Nat) : Safe (askResolver resolve index) fun _ => True := by
  unfold askResolver
  cases resolve with
  | none => exact Safe.ok trivial
  | some f =>
    dsimp only
    cases f index with
    | ok value => exact Safe.ok trivial
    | error e =>
      cases e with
      | notFound => exact Safe.ok trivial
      | invalid | unsupported | noMemory => exact Safe.fail _

/-- The value of a symbol is found inside of the image. -/
theorem symbolValue_safe (h : d.Sound) (index : Nat) :
    Safe (symbolValue d bias resolve index) fun _ => True := by
  unfold symbolValue
  refine Safe.ite (fun _ => Safe.ok trivial) fun _ => ?_
  refine Safe.bind (dynamicSymbol_safe h.strings h.symbols index) fun symbol _ => ?_
  refine Safe.bind Safe.reject fun _ _ => ?_
  refine Safe.bind Safe.reject fun _ _ => ?_
  refine Safe.bind Safe.reject fun _ _ => ?_
  refine Safe.bind (Safe.ite (fun _ => askResolver_safe index) fun _ => Safe.ok trivial) fun found _ => ?_
  cases found with
  | some value => exact Safe.pure trivial
  | none =>
    exact Safe.ite (fun _ => Safe.pure trivial) fun _ => Safe.ite (fun _ => Safe.pure trivial) fun _ =>
      Safe.fail _

/-- The symbol of a TLS descriptor is checked inside of the image. -/
theorem checkTls_safe (h : d.Sound) (index : Nat) : Safe (checkTls d index) fun _ => True := by
  unfold checkTls
  refine Safe.ite (fun _ => Safe.ok trivial) fun _ => ?_
  refine Safe.bind (dynamicSymbol_safe h.strings h.symbols index) fun symbol _ => ?_
  refine Safe.bind Safe.reject fun _ _ => ?_
  exact Safe.mono Safe.reject fun _ _ => trivial

/-- What a write's value is when it is bound. -/
def Bound (d : Dynamic) (bias : BitVec 64) (resolve : Option Resolver) (tls : Option Binding) (type symbol : Nat)
    (addend value argument : BitVec 64) : Prop :=
  if type = rTlsdesc then ∃ bind ∈ tls, bind symbol addend = .ok (value, argument)
  else if type = rRelative then value = bias + addend
  else ∃ s, symbolValue d bias resolve symbol = .ok s ∧ value = s + addend

/-- A TLS descriptor is bound to what the binding answers. -/
theorem Bound.descriptor {type symbol : Nat} {addend value argument : BitVec 64} {bind : Binding}
    (htype : type = rTlsdesc) (hbind : bind ∈ tls) (h : bind symbol addend = .ok (value, argument)) :
    Bound d bias resolve tls type symbol addend value argument := by
  unfold Bound
  rw [if_pos htype]
  exact ⟨bind, hbind, h⟩

/-- A relative address is bound to the bias and its addend. -/
theorem Bound.relative {type symbol : Nat} {addend value argument : BitVec 64} (htype : type = rRelative)
    (h : value = bias + addend) : Bound d bias resolve tls type symbol addend value argument := by
  unfold Bound
  rw [if_neg (by rw [htype]; decide), if_pos htype]
  exact h

/-- The other writes are bound to their symbol's value and their addend. -/
theorem Bound.symbol {type symbol : Nat} {addend value argument s : BitVec 64} (htls : type ≠ rTlsdesc)
    (hrelative : type ≠ rRelative) (hs : symbolValue d bias resolve symbol = .ok s)
    (h : value = s + addend) : Bound d bias resolve tls type symbol addend value argument := by
  unfold Bound
  rw [if_neg htls, if_neg hrelative]
  exact ⟨s, hs, h⟩

/-- A write keeps its place and is bound as its type says. -/
theorem bindWrite_safe (h : d.Sound) (w : Write) : Safe (bindWrite d bias resolve tls w) fun b =>
    b = { w with value := b.value, argument := b.argument } ∧
      Bound d bias resolve tls w.type w.symbol w.value b.value b.argument := by
  unfold bindWrite
  refine Safe.ite (fun htls => ?_) fun htls => ?_
  · refine Safe.bind (Safe.require fun _ hbind => hbind) fun bind hbind => ?_
    refine Safe.bind (checkTls_safe h w.symbol) fun _ _ => ?_
    refine Safe.bind (Safe.lift fun _ hfound => hfound) fun found hfound => ?_
    refine Safe.bind Safe.reject fun _ _ => ?_
    exact Safe.pure ⟨rfl, .descriptor htls hbind hfound⟩
  · by_cases hrelative : w.type = rRelative
    · rw [if_neg (not_not_intro hrelative)]
      exact Safe.pure ⟨rfl, .relative hrelative (BitVec.add_comm _ _)⟩
    · rw [if_pos hrelative]
      refine Safe.bind (symbolValue_safe h w.symbol).self fun s hs => ?_
      exact Safe.pure ⟨rfl, .symbol htls hrelative hs (BitVec.add_comm _ _)⟩

/-- All writes keep their places and are bound as their types say. -/
theorem bindWrites_safe (h : d.Sound) (ws : List Write) :
    Safe (bindWrites d bias resolve tls ws) fun bs => List.Forall₂ (fun w b =>
      b = { w with value := b.value, argument := b.argument } ∧
        Bound d bias resolve tls w.type w.symbol w.value b.value b.argument) ws bs := by
  induction ws with
  | nil => exact Safe.ok .nil
  | cons w ws ih =>
    refine Safe.bind (bindWrite_safe h w) fun b hb => ?_
    refine Safe.bind ih fun bs hbs => ?_
    exact Safe.pure (.cons hb hbs)

/-! ## What a relocation does -/

/-- A member of the first list is related to one of the second. -/
theorem forall₂_left {α β : Type} {R : α → β → Prop} {l : List α} {r : List β} (h : List.Forall₂ R l r) {a : α}
    (ha : a ∈ l) : ∃ b ∈ r, R a b := by
  induction h with
  | nil => cases ha
  | cons hab _ ih =>
    rcases List.mem_cons.1 ha with rfl | ha
    · exact ⟨_, List.mem_cons_self, hab⟩
    · obtain ⟨b, hb, hab⟩ := ih ha
      exact ⟨b, List.mem_cons_of_mem _ hb, hab⟩

/-- A member of the second list is related to one of the first. -/
theorem forall₂_right {α β : Type} {R : α → β → Prop} {l : List α} {r : List β} (h : List.Forall₂ R l r)
    {b : β} (hb : b ∈ r) : ∃ a ∈ l, R a b := forall₂_left h.flip hb

/-- What holds of all pairs of one list holds of those of a related one. -/
theorem pairwise_forall₂ {α β : Type} {R : α → β → Prop} {S : α → α → Prop} {T : β → β → Prop} {l : List α}
    {r : List β} (h : List.Forall₂ R l r) (hS : l.Pairwise S)
    (hT : ∀ a a' b b', R a b → R a' b' → S a a' → T b b') : r.Pairwise T := by
  induction h with
  | nil => exact .nil
  | cons hab hrest ih =>
    obtain ⟨hfirst, hS⟩ := List.pairwise_cons.1 hS
    refine List.pairwise_cons.2 ⟨fun b' hb' => ?_, ih hS⟩
    obtain ⟨a', ha', hab'⟩ := forall₂_right hrest hb'
    exact hT _ _ _ _ hab hab' (hfirst a' ha')

/-- The views after a relocation: each target holds its value, and no other byte has changed. -/
structure Relocated (d : Dynamic) (bias : BitVec 64) (resolve : Option Resolver) (tls : Option Binding)
    (memory : List Memory) (es : List Entry) (memory' : List Memory) : Prop where
  shape : SameShape memory memory'
  targets : ∀ e ∈ es, ∃ view offset,
    target d.image memory e.address (widthOf e.type) = some (view, offset) ∧
      Bound d bias resolve tls e.type e.symbol (e.addend.getD (wordAt memory view offset))
        (wordAt memory' view offset) (wordAt memory' view (offset + 8))
  others : ∀ v o, (∀ e ∈ es, ∀ offset,
    target d.image memory e.address (widthOf e.type) = some (v, offset) →
      ¬ (offset ≤ o ∧ o < offset + widthOf e.type)) → byteAt memory' v o = byteAt memory v o

/-- The argument matters to TLS descriptors. -/
theorem Bound.argument {type symbol : Nat} {addend value argument argument' : BitVec 64}
    (h : Bound d bias resolve tls type symbol addend value argument)
    (hargument : widthOf type = 16 → argument' = argument) :
    Bound d bias resolve tls type symbol addend value argument' := by
  unfold Bound at h ⊢
  unfold widthOf at hargument
  by_cases htls : type = rTlsdesc
  · rw [if_pos htls] at h hargument ⊢
    rw [hargument rfl]
    exact h
  · rw [if_neg htls] at h ⊢
    exact h

/-- Storing the bound writes of all entries relocates. -/
theorem relocated_of_plan {es : List Entry} {ws bs : List Write}
    (hplan : List.Forall₂ (fun e w => e.write d memory = some w) es ws)
    (hspaced : Spaced (ws.insertionSort byAddress))
    (hbound : List.Forall₂ (fun w b => b = { w with value := b.value, argument := b.argument } ∧
      Bound d bias resolve tls w.type w.symbol w.value b.value b.argument) (ws.insertionSort byAddress) bs) :
    ∃ memory', storeWrites bs memory = .ok memory' ∧
      Relocated d bias resolve tls memory es memory' := by
  have hmem : ∀ w, w ∈ ws.insertionSort byAddress ↔ w ∈ ws := fun w => List.mem_insertionSort byAddress
  have hfor : ∀ w ∈ ws.insertionSort byAddress, ∃ e ∈ es, w.For d memory e := by
    intro w hw
    obtain ⟨e, he, hwrite⟩ := forall₂_right hplan ((hmem w).1 hw)
    exact ⟨e, he, Entry.write_some hwrite⟩
  -- sorted by address and spaced, each write ends before the next begins
  have hbehind := hspaced.behind (List.pairwise_insertionSort byAddress ws) fun w hw => by
    obtain ⟨e, _, h⟩ := hfor w hw
    have hwidth := widthOf_cases e.type
    rw [h.width]
    omega
  have hboth := (List.forall₂_and_left _ _).2 ⟨hfor, hbound⟩
  -- binding changes the value of a write, never its place
  have hinside : ∀ b ∈ bs, b.Inside memory := by
    intro b hb
    obtain ⟨w, _, ⟨e, _, h⟩, heq, _⟩ := forall₂_right hboth hb
    rw [heq]
    exact h.inside
  have hapart : bs.Pairwise Write.Apart := by
    refine pairwise_forall₂ hboth hbehind fun w w' b b' hw hw' hlt => ?_
    obtain ⟨⟨e, _, h⟩, heq, _⟩ := hw
    obtain ⟨⟨e', _, h'⟩, heq', _⟩ := hw'
    have hwapart : w.Apart w' := h.apart h' hlt
    rw [heq, heq']
    exact hwapart
  obtain ⟨memory', hstore, hstores⟩ := storeWrites_spec hinside hapart
  refine ⟨memory', hstore, hstores.shape, fun e he => ?_, fun v o hout => ?_⟩
  · obtain ⟨w, hw, hwrite⟩ := forall₂_left hplan he
    have h := Entry.write_some hwrite
    obtain ⟨b, hb, heq, hvalue⟩ := forall₂_left hbound ((hmem w).2 hw)
    obtain ⟨hword, hargument⟩ := hstores.stored b hb
    have hview : b.view = w.view := by rw [heq]
    have hoffset : b.offset = w.offset := by rw [heq]
    have hwidth : b.width = w.width := by rw [heq]
    rw [hview, hoffset] at hword hargument
    rw [hwidth, h.width] at hargument
    rw [h.type, h.symbol, h.value] at hvalue
    refine ⟨w.view, w.offset, h.place, ?_⟩
    rw [hword]
    exact hvalue.argument hargument
  · refine hstores.others v o fun b hb hcovers => ?_
    obtain ⟨w, _, ⟨e, he, h⟩, heq, _⟩ := forall₂_right hboth hb
    rw [heq] at hcovers
    obtain ⟨hv, hlow, hhigh⟩ := hcovers
    dsimp only at hv hlow hhigh
    have hplace := h.place
    rw [← hv] at hplace
    exact hout e he w.offset hplace ⟨hlow, by rw [← h.width]; exact hhigh⟩

/-! ## The whole -/

/-- The check of the views reads nothing of the image. -/
theorem checkViews_safe (image : Image) (before rest : List Memory) :
    Safe (checkViews image before rest) fun _ => True := by
  induction rest generalizing before with
  | nil => exact Safe.ok trivial
  | cons m rest ih => exact Safe.bind Safe.reject fun _ _ => ih _

/-- The capacity of the plan is the number of entries and bits. -/
theorem reserve_safe (d : Dynamic) (memory : List Memory) (allocated : Bool) :
    Safe (reserve d memory allocated) fun capacity =>
      d.rela.size / 24 + d.pltRela.size / 24 + d.relr.size / 8 * 63 = capacity := by
  unfold reserve checkMemory
  refine Safe.bind Safe.reject fun _ _ => ?_
  refine Safe.bind (P := fun _ => True) ?_ fun _ _ => ?_
  · exact Safe.bind Safe.reject fun _ _ => checkViews_safe _ _ _
  refine Safe.bind Safe.reject fun _ _ => ?_
  refine Safe.bind Safe.reject fun _ _ => ?_
  refine Safe.bind Safe.reject fun _ _ => ?_
  refine Safe.bind Safe.reject fun _ _ => ?_
  exact Safe.pure rfl

/-- The writes that are planned are those of the entries, in order and with their values. -/
theorem planWrites_safe (h : d.Valid) (bias : BitVec 64) (memory : List Memory) (resolve : Option Resolver)
    (tls : Option Binding) (allocated : Bool) :
    Safe (planWrites d bias memory resolve tls allocated) fun r => r.2 = d.stats ∧
      ∃ es, d.entries = some es ∧ ∃ memory', storeWrites r.1 memory = .ok memory' ∧
        Relocated d bias resolve tls memory es memory' := by
  unfold planWrites
  refine Safe.bind (reserve_safe d memory allocated) fun capacity hcapacity => ?_
  refine Safe.bind (prepare_computes h hcapacity).safe fun p hp => ?_
  obtain ⟨ws, hws, rfl⟩ := Option.map_eq_some_iff.1 hp
  obtain ⟨es, hes, hplan⟩ := Option.bind_eq_some_iff.1 hws
  refine Safe.bind checkApart_spaced fun _ hspaced => ?_
  refine Safe.bind (bindWrites_safe h.toSound _) fun bs hbs => ?_
  exact Safe.pure ⟨rfl, es, hes, relocated_of_plan (mapM_some_iff.1 hplan) hspaced hbs⟩

/-! ## Order -/

/-- A table that is a view of its range is valid. -/
theorem Table.Viewed.valid {t : Table} {width : Nat} (h : t.Viewed d.image width) : TableValid d t width := by
  refine ⟨h.entries, ?_⟩
  by_cases h0 : t.size = 0
  · exact .inl h0
  · obtain ⟨p, hdata, hview⟩ := h.data h0
    refine .inr ?_
    rw [hdata, hview]
    exact ⟨rfl, rfl⟩

/-- The tables of `d'` have the entries of those of `d`, and decode to its addresses, in any order;
what relocation reads of the two is otherwise the same. -/
structure Reordered (d d' : Dynamic) : Prop where
  segments : d'.image.segments = d.image.segments
  tls : d'.image.tls = d.image.tls
  address : d'.image.data.address = d.image.data.address
  size : d'.image.size = d.image.size
  symbolCount : d'.symbolCount = d.symbolCount
  symbols : dynamicSymbol d' = dynamicSymbol d
  relaSize : d'.rela.size = d.rela.size
  pltRelaSize : d'.pltRela.size = d.pltRela.size
  relrSize : d'.relr.size = d.relr.size
  rela : (d.table d.rela).Perm (d'.table d'.rela)
  pltRela : (d.table d.pltRela).Perm (d'.table d'.pltRela)
  relr : Option.Rel List.Perm (relrAddresses none d.relrWords) (relrAddresses none d'.relrWords)

variable {d' : Dynamic}

namespace Reordered

/-- A reordered table can be put back in order. -/
theorem symm (h : Reordered d d') : Reordered d' d := by
  refine ⟨h.segments.symm, h.tls.symm, h.address.symm, h.size.symm, h.symbolCount.symm, h.symbols.symm,
    h.relaSize.symm, h.pltRelaSize.symm, h.relrSize.symm, h.rela.symm, h.pltRela.symm, ?_⟩
  have hrelr := h.relr
  generalize relrAddresses none d.relrWords = o at hrelr ⊢
  generalize relrAddresses none d'.relrWords = o' at hrelr ⊢
  cases hrelr with
  | none => exact .none
  | some hperm => exact .some hperm.symm

/-- The order of the entries does not matter to where an address is. -/
theorem target_eq (h : Reordered d d') (memory : List Memory) (address width : Nat) :
    target d'.image memory address width = target d.image memory address width := by
  have hfrom : ∀ i rest, targetFrom d'.image address width i rest = targetFrom d.image address width i rest := by
    intro i rest
    induction rest generalizing i with
    | nil => rfl
    | cons m rest ih =>
      unfold targetFrom Memory.start
      rw [h.segments, ih]
  unfold target
  rw [hfrom]

/-- The order of the entries does not matter to what is planned for an entry. -/
theorem write_eq (h : Reordered d d') (memory : List Memory) :
    Entry.write d' memory = Entry.write d memory := by
  funext e
  unfold Entry.write
  rw [h.symbolCount, h.target_eq]

/-- The order of the entries does not matter to the check of the views. -/
theorem checkViews_eq (h : Reordered d d') (before rest : List Memory) :
    checkViews d'.image before rest = checkViews d.image before rest := by
  induction rest generalizing before with
  | nil => rfl
  | cons m rest ih =>
    have hvalid : MemoryValid d'.image before m ↔ MemoryValid d.image before m := by
      unfold MemoryValid
      rw [h.segments, h.address, h.size]
    unfold checkViews
    rw [ih, reject_congr (not_congr hvalid)]

/-- The order of the entries does not matter to a symbol's range. -/
theorem definedRange_iff (h : Reordered d d') (symbol : Symbol) :
    DefinedRange d'.image symbol ↔ DefinedRange d.image symbol := by
  unfold DefinedRange
  rw [h.segments]

/-- The order of the entries does not matter to a symbol's value. -/
theorem symbolValue_eq (h : Reordered d d') : symbolValue d' bias resolve = symbolValue d bias resolve := by
  funext index
  unfold symbolValue
  rw [h.symbols]
  by_cases h0 : index = 0
  · rw [if_pos h0, if_pos h0]
  · rw [if_neg h0, if_neg h0]
    refine congrArg (dynamicSymbol d index >>= ·) (funext fun symbol => ?_)
    rw [reject_congr (and_congr_right' (not_congr (h.definedRange_iff symbol)))]

/-- The order of the entries does not matter to the symbol of a TLS descriptor. -/
theorem checkTls_eq (h : Reordered d d') : checkTls d' = checkTls d := by
  funext index
  unfold checkTls
  rw [h.symbols, h.tls]

/-- The order of the entries does not matter to what a write is bound to. -/
theorem bindWrites_eq (h : Reordered d d') :
    bindWrites d' bias resolve tls = bindWrites d bias resolve tls := by
  have hone : bindWrite d' bias resolve tls = bindWrite d bias resolve tls := by
    funext w
    unfold bindWrite
    rw [h.symbolValue_eq, h.checkTls_eq]
  funext ws
  induction ws with
  | nil => rfl
  | cons w ws ih =>
    unfold bindWrites
    rw [hone, ih]

/-- The order of the entries does not matter to the capacity. -/
theorem reserve_eq (h : Reordered d d') (hd : d.Valid) (hd' : d'.Valid) (memory : List Memory)
    (allocated : Bool) : reserve d' memory allocated = reserve d memory allocated := by
  have hmemory : checkMemory d'.image memory = checkMemory d.image memory := by
    unfold checkMemory
    rw [h.checkViews_eq, h.address, h.segments, h.size]
  have htables : reject (¬ TableValid d' d'.rela 24 ∨ ¬ TableValid d' d'.pltRela 24 ∨
      ¬ TableValid d' d'.relr 8) ElfError.invalid = reject (¬ TableValid d d.rela 24 ∨
        ¬ TableValid d d.pltRela 24 ∨ ¬ TableValid d d.relr 8) ElfError.invalid := by
    refine reject_congr ?_
    simp only [hd.rela.valid, hd.pltRela.valid, hd.relr.valid, hd'.rela.valid, hd'.pltRela.valid,
      hd'.relr.valid]
  unfold reserve
  rw [h.symbolCount, hmemory, htables, h.relaSize, h.pltRelaSize, h.relrSize]

/-- The order of the entries does not matter to the statistics. -/
theorem stats_eq (h : Reordered d d') : d'.stats = d.stats := by
  have hrelr : ((relrAddresses none d'.relrWords).getD []).length =
      ((relrAddresses none d.relrWords).getD []).length := by
    have hrel := h.relr
    generalize relrAddresses none d.relrWords = o at hrel ⊢
    generalize relrAddresses none d'.relrWords = o' at hrel ⊢
    cases hrel with
    | none => rfl
    | some hperm => exact hperm.length_eq.symm
  unfold Dynamic.stats
  rw [h.rela.length_eq, h.pltRela.length_eq, hrelr]

/-- Tables in another order give the same entries in another order. -/
theorem entries_perm (h : Reordered d d') {es : List Entry} (hes : d.entries = some es) :
    ∃ es', d'.entries = some es' ∧ es.Perm es' := by
  unfold Dynamic.entries at hes ⊢
  obtain ⟨addresses, haddresses, rfl⟩ := Option.map_eq_some_iff.1 hes
  have hrel := h.relr
  rw [haddresses] at hrel
  generalize relrAddresses none d'.relrWords = o' at hrel ⊢
  cases hrel with
  | some hperm => exact ⟨_, rfl, (hperm.map _).append (h.rela.append h.pltRela)⟩

/-- The writes of entries in another order are the writes in another order. -/
theorem plan_perm (h : Reordered d d') {es es' : List Entry} (hperm : es.Perm es') {ws : List Write}
    (hws : es.mapM (Entry.write d memory) = some ws) :
    ∃ ws', es'.mapM (Entry.write d' memory) = some ws' ∧ ws.Perm ws' := by
  obtain ⟨ws', hws', hperm'⟩ := List.perm_comp_forall₂ hperm.symm (mapM_some_iff.1 hws)
  rw [h.write_eq]
  exact ⟨ws', mapM_some_iff.2 hws', hperm'.symm⟩

end Reordered

/-- Writes that are spaced have one order. -/
theorem Spaced.sort_eq {ws ws' : List Write} (h : Spaced (ws.insertionSort byAddress))
    (hwidth : ∀ w ∈ ws, 0 < w.width) (hperm : ws.Perm ws') :
    ws'.insertionSort byAddress = ws.insertionSort byAddress := by
  have hsorted := List.pairwise_insertionSort byAddress ws
  have hmem : ∀ w, w ∈ ws.insertionSort byAddress ↔ w ∈ ws := fun w => List.mem_insertionSort byAddress
  have hbehind := h.behind hsorted fun w hw => hwidth w ((hmem w).1 hw)
  have hdistinct : ((ws.insertionSort byAddress).map (·.address)).Nodup := by
    refine List.pairwise_map.2 (hbehind.imp_of_mem fun {w v} hw _ hlt heq => ?_)
    have hpos := hwidth w ((hmem w).1 hw)
    omega
  have hsame : (ws'.insertionSort byAddress).Perm (ws.insertionSort byAddress) :=
    ((List.perm_insertionSort _ _).trans hperm.symm).trans (List.perm_insertionSort _ _).symm
  refine List.Perm.eq_of_pairwise (fun w v hw hv hle hge => ?_)
    (List.pairwise_insertionSort byAddress ws') hsorted hsame
  exact List.inj_on_of_nodup_map hdistinct (hsame.mem_iff.1 hw) hv (Nat.le_antisymm hle hge)

/-- The order of the entries does not matter to a plan that is accepted. -/
theorem Reordered.plan (h : Reordered d d') (hd : d.Valid) (hd' : d'.Valid) {allocated : Bool}
    {r : List Write × Stats} (hplan : planWrites d bias memory resolve tls allocated = .ok r) :
    planWrites d' bias memory resolve tls allocated = .ok r := by
  unfold planWrites at hplan ⊢
  obtain ⟨capacity, hreserve, hplan⟩ := bind_eq_ok.1 hplan
  obtain ⟨p, hprepare, hplan⟩ := bind_eq_ok.1 hplan
  have hcapacity := (reserve_safe d memory allocated).of_ok hreserve
  have hcapacity' : d'.rela.size / 24 + d'.pltRela.size / 24 + d'.relr.size / 8 * 63 = capacity := by
    rw [h.relaSize, h.pltRelaSize, h.relrSize]
    exact hcapacity
  -- the two plans
  have hp := (prepare_computes hd hcapacity).ok_iff.1 hprepare
  obtain ⟨ws, hws, rfl⟩ := Option.map_eq_some_iff.1 hp
  obtain ⟨es, hes, hws⟩ := Option.bind_eq_some_iff.1 hws
  obtain ⟨es', hes', hentries⟩ := h.entries_perm hes
  obtain ⟨ws', hws', hwrites⟩ := h.plan_perm hentries hws
  have hprepare' : prepare d' memory capacity =
      .ok { dynamic := d', memory, capacity, writes := ws', stats := d'.stats } := by
    refine (prepare_computes hd' hcapacity').ok_iff.2 ?_
    rw [hes']
    show (es'.mapM (Entry.write d' memory)).map _ = _
    rw [hws']
    rfl
  rw [h.reserve_eq hd hd', hreserve]
  refine bind_eq_ok.2 ⟨capacity, rfl, bind_eq_ok.2 ⟨_, hprepare', ?_⟩⟩
  -- in order they are the same
  obtain ⟨_, hapart, _⟩ := bind_eq_ok.1 hplan
  have hsort : ws'.insertionSort byAddress = ws.insertionSort byAddress := by
    refine (checkApart_spaced.of_ok hapart).sort_eq (fun w hw => ?_) hwrites
    obtain ⟨e, _, hwrite⟩ := forall₂_right (mapM_some_iff.1 hws) hw
    have hwidth := widthOf_cases e.type
    rw [(Entry.write_some hwrite).width]
    omega
  dsimp only at hplan ⊢
  rw [hsort, h.bindWrites_eq, h.stats_eq]
  exact hplan

/-- Relocation of an accepted image is exact and atomic: it never reads or writes outside the image,
the plan and the views; if it fails, neither the views nor the statistics change; if not, each
target holds the value that its entry asks for and no other byte changes; and the order of the
entries, and of the addresses that the RELR table stands for, does not matter to what it then does. -/
theorem relocateTls_exact {image : Image} {out : Dynamic} (hopen : dynamicOpen image out = .ok (none, d))
    (bias : BitVec 64) (memory : List Memory) (resolve : Option Resolver) (tls : Option Binding)
    (allocated : Bool) (stats : Stats) :
    (∃ r, relocateTls d bias memory resolve tls allocated stats = .ok r) ∧
    (∀ error memory' stats', relocateTls d bias memory resolve tls allocated stats =
      .ok (some error, memory', stats') → memory' = memory ∧ stats' = stats) ∧
    (∀ memory' stats', relocateTls d bias memory resolve tls allocated stats = .ok (none, memory', stats') →
      stats' = d.stats ∧ ∃ es, d.entries = some es ∧ Relocated d bias resolve tls memory es memory') ∧
    ∀ image' out' d', dynamicOpen image' out' = .ok (none, d') → Reordered d d' → ∀ memory' stats',
      relocateTls d bias memory resolve tls allocated stats = .ok (none, memory', stats') ↔
        relocateTls d' bias memory resolve tls allocated stats = .ok (none, memory', stats') := by
  have hvalid := ((openDynamic_safe image).of_ok (openDynamic_of_ok hopen)).2
  have hsafe := planWrites_safe hvalid bias memory resolve tls allocated
  -- one direction, which is symmetric in the two records
  have horder : ∀ d₁ d₂ : Dynamic, Reordered d₁ d₂ → d₁.Valid → d₂.Valid → ∀ memory' stats',
      relocateTls d₁ bias memory resolve tls allocated stats = .ok (none, memory', stats') →
        relocateTls d₂ bias memory resolve tls allocated stats = .ok (none, memory', stats') := by
    intro d₁ d₂ h h₁ h₂ memory' stats' hrelocate
    unfold relocateTls at hrelocate ⊢
    cases hplan : planWrites d₁ bias memory resolve tls allocated with
    | ok r =>
      rw [hplan] at hrelocate
      rw [h.plan h₁ h₂ hplan]
      exact hrelocate
    | error stop =>
      rw [hplan] at hrelocate
      cases stop with
      | error e =>
        have hnone := (Prod.mk.inj (Except.ok.inj hrelocate)).1
        cases hnone
      | wrong => cases hrelocate
  refine ⟨?_, fun error memory' stats' h => ?_, fun memory' stats' h => ?_,
    fun image' out' d' hopen' h memory' stats' => ?_⟩
  · unfold relocateTls
    cases hplan : planWrites d bias memory resolve tls allocated with
    | ok r =>
      obtain ⟨_, es, _, memory', hstore, _⟩ := hsafe.of_ok hplan
      dsimp only
      rw [hstore]
      exact ⟨_, rfl⟩
    | error stop =>
      cases stop with
      | error e => exact ⟨_, rfl⟩
      | wrong => exact absurd hplan hsafe.not_wrong
  · unfold relocateTls at h
    cases hplan : planWrites d bias memory resolve tls allocated with
    | ok r =>
      rw [hplan] at h
      obtain ⟨memory₁, _, h⟩ := bind_eq_ok.1 h
      have hnone := (Prod.mk.inj (Except.ok.inj h)).1
      cases hnone
    | error stop =>
      rw [hplan] at h
      cases stop with
      | error e =>
        have hsame := (Prod.mk.inj (Except.ok.inj h)).2
        exact ⟨(Prod.mk.inj hsame).1.symm, (Prod.mk.inj hsame).2.symm⟩
      | wrong => cases h
  · unfold relocateTls at h
    cases hplan : planWrites d bias memory resolve tls allocated with
    | ok r =>
      rw [hplan] at h
      obtain ⟨memory₁, hmemory₁, h⟩ := bind_eq_ok.1 h
      have hsame := (Prod.mk.inj (Except.ok.inj h)).2
      obtain ⟨hstats, es, hes, memory₂, hstore, hrelocated⟩ := hsafe.of_ok hplan
      obtain rfl : memory₂ = memory₁ := Except.ok.inj (hstore.symm.trans hmemory₁)
      rw [← (Prod.mk.inj hsame).1, ← (Prod.mk.inj hsame).2]
      exact ⟨hstats, es, hes, hrelocated⟩
    | error stop =>
      rw [hplan] at h
      cases stop with
      | error e =>
        have hnone := (Prod.mk.inj (Except.ok.inj h)).1
        cases hnone
      | wrong => cases h
  · have hvalid' := ((openDynamic_safe image').of_ok (openDynamic_of_ok hopen')).2
    exact ⟨horder d d' h hvalid hvalid' memory' stats', horder d' d h.symm hvalid' hvalid memory' stats'⟩

/-! ## Samples -/

/-- The view of the sample's writable segment. -/
def sampleMemory : List Memory := [⟨1, 0x100000, List.replicate 48 0⟩]

/-- The views after a relocation that succeeds. -/
def relocatedViews (d : Dynamic) : Option (List Memory) :=
  match relocateTls d 0x1000 sampleMemory none none true {} with
  | .ok (none, memory, _) => some memory
  | _ => none

/-- Views that are relocated are those of a relocation that succeeds. -/
theorem relocatedViews_some {memory' : List Memory} (h : relocatedViews d = some memory') :
    ∃ stats, relocateTls d 0x1000 sampleMemory none none true {} = .ok (none, memory', stats) := by
  unfold relocatedViews at h
  split at h
  next memory stats hrun =>
    obtain rfl := Option.some.inj h
    exact ⟨stats, hrun⟩
  next => cases h

theorem sample_dynamicOpen : dynamicOpen sampleImage sampleDynamic = .ok (none, sampleDynamic) := by
  unfold dynamicOpen
  rw [sampleDynamic_open]

/-- The sample is relocated as its entries say. -/
theorem sample_relocated : ∃ memory' es,
    relocateTls sampleDynamic 0x1000 sampleMemory none none true {} = .ok (none, memory', sampleDynamic.stats) ∧
      sampleDynamic.entries = some es ∧
        Relocated sampleDynamic 0x1000 none none sampleMemory es memory' := by
  have hsome : (relocatedViews sampleDynamic).isSome := by decide +kernel
  obtain ⟨memory', hviews⟩ := Option.isSome_iff_exists.1 hsome
  obtain ⟨stats, hrun⟩ := relocatedViews_some hviews
  obtain ⟨hstats, es, hes, hrelocated⟩ :=
    (relocateTls_exact sample_dynamicOpen 0x1000 sampleMemory none none true {}).2.2.1 memory' stats hrun
  rw [hstats] at hrun
  exact ⟨memory', es, hrun, hes, hrelocated⟩

/-- The sample with the words of its RELR table in another order. -/
def swappedInput : Input := ⟨4096, sampleBytes [0x240, 3, 0x230], by decide +kernel⟩

/-- The tables of that. -/
def swappedDynamic : Option Dynamic :=
  (openImage swappedInput true).toOption.bind fun image => (openDynamic image).toOption

/-- The order of the words of a RELR table matters: they are relocated in other places. -/
theorem relr_order_matters : ∃ image d',
    openImage swappedInput true = .ok image ∧ dynamicOpen image sampleDynamic = .ok (none, d') ∧
    dynamicOpen sampleImage sampleDynamic = .ok (none, sampleDynamic) ∧
    d'.relrWords.Perm sampleDynamic.relrWords ∧
    d'.table d'.rela = sampleDynamic.table sampleDynamic.rela ∧
    d'.table d'.pltRela = sampleDynamic.table sampleDynamic.pltRela ∧
    ∃ memory₁ memory₂ stats₁ stats₂,
      relocateTls sampleDynamic 0x1000 sampleMemory none none true {} = .ok (none, memory₁, stats₁) ∧
      relocateTls d' 0x1000 sampleMemory none none true {} = .ok (none, memory₂, stats₂) ∧
      memory₁ ≠ memory₂ := by
  have hfacts : ∃ d' ∈ swappedDynamic, d'.relrWords.Perm sampleDynamic.relrWords ∧
      d'.table d'.rela = sampleDynamic.table sampleDynamic.rela ∧
      d'.table d'.pltRela = sampleDynamic.table sampleDynamic.pltRela ∧
      (relocatedViews sampleDynamic).isSome ∧ (relocatedViews d').isSome ∧
      relocatedViews sampleDynamic ≠ relocatedViews d' := by decide +kernel
  obtain ⟨d', hd', hwords, hrela, hplt, hsome, hsome', hne⟩ := hfacts
  obtain ⟨memory₁, h₁⟩ := Option.isSome_iff_exists.1 hsome
  obtain ⟨memory₂, h₂⟩ := Option.isSome_iff_exists.1 hsome'
  obtain ⟨stats₁, hrun₁⟩ := relocatedViews_some h₁
  obtain ⟨stats₂, hrun₂⟩ := relocatedViews_some h₂
  obtain ⟨image, hok, hdynamic⟩ := openedTables_some hd' sampleDynamic
  refine ⟨image, d', hok, hdynamic, sample_dynamicOpen, hwords, hrela, hplt, memory₁, memory₂, stats₁, stats₂,
    hrun₁, hrun₂, fun heq => hne ?_⟩
  rw [h₁, h₂, heq]

end Artbox.Elf
