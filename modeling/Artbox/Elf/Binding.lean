import Artbox.Elf.Relocated

/-!
# Relocation with a context

The callbacks of `artbox_relocate_tls` get a context. A load group's resolver reads the tables of
its modules, and its binding leaves a record there for each descriptor that it binds, so that two
descriptors of one symbol get two arguments. `relocateWith` is `artbox_relocate_tls` over such
callbacks: after an error only the context may have changed, which the caller then resets. Where the
callbacks only answer it is `relocateTls` (`relocateTls_eq`).
-/

namespace Artbox.Elf

open Checked

variable {σ : Type} {d : Dynamic} {memory memory' : List Memory} {bias : BitVec 64}

/-- `artbox_relocation_resolver`, which may read images. -/
abbrev Asking := Nat → Checked ElfError (BitVec 64)

/-- `artbox_tlsdesc_binding`, which may also change its context. -/
abbrev Describing (σ : Type) := σ → Nat → BitVec 64 → Checked ElfError ((BitVec 64 × BitVec 64) × σ)

/-! ## Values -/

/-- What the resolver says of a symbol. -/
def askWith (resolve : Option Asking) (index : Nat) : Checked ElfError (Option (BitVec 64)) :=
  match resolve with
  | none => .ok none
  | some resolve =>
    match resolve index with
    | .ok value => .ok (some value)
    | .error (.error .notFound) => .ok none
    | .error stop => .error stop

/-- `symbol_value` -/
def symbolValueWith (d : Dynamic) (bias : BitVec 64) (resolve : Option Asking) (index : Nat) :
    Checked ElfError (BitVec 64) :=
  if index = 0 then .ok 0
  else do
    let symbol ← dynamicSymbol d index
    reject (2 < symbol.type ∨ 2 < symbol.binding ∨ (0xff00 ≤ symbol.sect ∧ symbol.sect ≠ 0xfff1)) .unsupported
    reject (symbol.sect ≠ 0 ∧ ¬ DefinedRange d.image symbol) .invalid
    reject (symbol.sect = 0 ∧ (symbol.binding = 0 ∨ symbol.visibility ≠ 0)) .invalid
    let found ← (if symbol.binding ≠ 0 ∧ symbol.visibility = 0 then askWith resolve index else .ok none)
    match found with
    | some value => return value
    | none =>
      if symbol.sect ≠ 0 then
        return BitVec.ofNat 64 symbol.value + (if symbol.sect = 0xfff1 then 0 else bias)
      else if symbol.binding = 2 then return 0
      else fail .notFound

/-- The body of the loop of `artbox_relocate_tls` that gives the writes their values. -/
def bindWriteWith (d : Dynamic) (bias : BitVec 64) (resolve : Option Asking) (tls : Option (Describing σ)) (s : σ)
    (w : Write) : Checked ElfError (Write × σ) :=
  if w.type = rTlsdesc then do
    let tls ← require tls .unsupported
    checkTls d w.symbol
    let (found, s) ← tls s w.symbol w.value
    reject (found.1 = 0 ∨ found.1 &&& 3 ≠ 0) .invalid
    return ({ w with value := found.1, argument := found.2 }, s)
  else do
    let value ← (if w.type ≠ rRelative then symbolValueWith d bias resolve w.symbol else .ok bias)
    return ({ w with value := w.value + value }, s)

/-- That loop. -/
def bindWritesWith (d : Dynamic) (bias : BitVec 64) (resolve : Option Asking) (tls : Option (Describing σ)) :
    (s : σ) → List Write → Checked ElfError (List Write × σ)
  | s, [] => .ok ([], s)
  | s, w :: rest => do
    let (w, s) ← bindWriteWith d bias resolve tls s w
    let (rest, s) ← bindWritesWith d bias resolve tls s rest
    return (w :: rest, s)

/-- `artbox_relocate_tls` -/
def relocateWith (d : Dynamic) (bias : BitVec 64) (memory : List Memory) (resolve : Option Asking)
    (tls : Option (Describing σ)) (allocated : Bool) (s : σ) : Checked ElfError (List Memory × Stats × σ) := do
  let capacity ← reserve d memory allocated
  let p ← prepare d memory capacity
  let writes := p.writes.insertionSort byAddress
  checkApart writes
  let (writes, s) ← bindWritesWith d bias resolve tls s writes
  let memory ← storeWrites writes memory
  return (memory, p.stats, s)

/-! ## Callbacks that only answer -/

/-- A resolver that reads nothing. -/
def asks (resolve : Resolver) : Asking := fun index => lift (resolve index)

/-- A binding that leaves its context alone. -/
def describes (tls : Binding) : Describing σ := fun s symbol addend => do
  let found ← lift (tls symbol addend)
  return (found, s)

theorem askWith_eq (resolve : Option Resolver) (index : Nat) :
    askWith (resolve.map asks) index = askResolver resolve index := by
  cases resolve with
  | none => rfl
  | some resolve =>
    show askWith (some (asks resolve)) index = askResolver (some resolve) index
    unfold askWith asks askResolver
    dsimp only
    cases resolve index with
    | ok value => rfl
    | error e => cases e <;> rfl

theorem symbolValueWith_eq (resolve : Option Resolver) (index : Nat) :
    symbolValueWith d bias (resolve.map asks) index = symbolValue d bias resolve index := by
  have hask : askWith (resolve.map asks) = askResolver resolve := funext (askWith_eq resolve)
  unfold symbolValueWith
  exact hask ▸ rfl

theorem bindWriteWith_eq (resolve : Option Resolver) (tls : Option Binding) (s : σ) (w : Write) :
    bindWriteWith d bias (resolve.map asks) (tls.map describes) s w =
      (bindWrite d bias resolve tls w).map fun b => (b, s) := by
  unfold bindWriteWith bindWrite
  by_cases htls : w.type = rTlsdesc
  · rw [if_pos htls, if_pos htls]
    cases tls with
    | none => rfl
    | some bind =>
      show (checkTls d w.symbol >>= fun _ => describes bind s w.symbol w.value >>= _) =
        (checkTls d w.symbol >>= fun _ => lift (bind w.symbol w.value) >>= _).map _
      unfold describes
      cases checkTls d w.symbol with
      | error e => rfl
      | ok u =>
        cases bind w.symbol w.value with
        | error e => rfl
        | ok found =>
          show (reject _ _ >>= _) = (reject _ _ >>= _).map _
          by_cases hinvalid : found.1 = 0 ∨ found.1 &&& 3 ≠ 0
          · rw [reject_pos hinvalid]
            rfl
          · rw [reject_neg hinvalid]
            rfl
  · rw [if_neg htls, if_neg htls, symbolValueWith_eq]
    cases (if w.type ≠ rRelative then symbolValue d bias resolve w.symbol else .ok bias) with
    | ok value => rfl
    | error e => rfl

theorem bindWritesWith_eq (resolve : Option Resolver) (tls : Option Binding) (s : σ) (ws : List Write) :
    bindWritesWith d bias (resolve.map asks) (tls.map describes) s ws =
      (bindWrites d bias resolve tls ws).map fun bs => (bs, s) := by
  induction ws with
  | nil => rfl
  | cons w ws ih =>
    show (bindWriteWith d bias (resolve.map asks) (tls.map describes) s w >>= fun r =>
      bindWritesWith d bias (resolve.map asks) (tls.map describes) r.2 ws >>= _) =
        (bindWrite d bias resolve tls w >>= fun b => bindWrites d bias resolve tls ws >>= _).map _
    rw [bindWriteWith_eq]
    cases bindWrite d bias resolve tls w with
    | error e => rfl
    | ok b =>
      show (bindWritesWith d bias (resolve.map asks) (tls.map describes) s ws >>= _) = _
      rw [ih]
      show ((bindWrites d bias resolve tls ws).map _ >>= _) = (bindWrites d bias resolve tls ws >>= _).map _
      cases bindWrites d bias resolve tls ws with
      | error e => rfl
      | ok bs => rfl

/-- With such callbacks the relocation is that of `relocateTls`. -/
theorem relocateTls_eq (resolve : Option Resolver) (tls : Option Binding) (allocated : Bool) (stats : Stats) (s : σ) :
    relocateTls d bias memory resolve tls allocated stats =
      match planWrites d bias memory resolve tls allocated with
      | .error (.error e) => .ok (some e, memory, stats)
      | _ => (relocateWith d bias memory (resolve.map asks) (tls.map describes) allocated s).map fun r =>
        (none, r.1, r.2.1) := by
  have hplan : relocateWith d bias memory (resolve.map asks) (tls.map describes) allocated s =
      planWrites d bias memory resolve tls allocated >>= fun r =>
        storeWrites r.1 memory >>= fun memory => .ok (memory, r.2, s) := by
    unfold relocateWith planWrites
    rw [bind_assoc]
    refine bind_congr fun capacity => ?_
    rw [bind_assoc]
    refine bind_congr fun p => ?_
    rw [bind_assoc]
    refine bind_congr fun _ => ?_
    rw [bindWritesWith_eq]
    cases bindWrites d bias resolve tls (p.writes.insertionSort byAddress) with
    | error e => rfl
    | ok bs => rfl
  unfold relocateTls
  rw [hplan]
  cases planWrites d bias memory resolve tls allocated with
  | error stop => cases stop <;> rfl
  | ok r =>
    show (storeWrites r.1 memory >>= _) = (storeWrites r.1 memory >>= _).map _
    cases storeWrites r.1 memory with
    | error e => rfl
    | ok memory' => rfl

/-! ## What such a relocation does -/

/-- The views after a relocation: each target holds a value that `B` has for its entry, and no other
byte has changed. -/
structure Placed (d : Dynamic) (B : (type symbol : Nat) → (addend value argument : BitVec 64) → Prop)
    (memory : List Memory) (es : List Entry) (memory' : List Memory) : Prop where
  shape : SameShape memory memory'
  targets : ∀ e ∈ es, ∃ view offset,
    target d.image memory e.address (widthOf e.type) = some (view, offset) ∧
      B e.type e.symbol (e.addend.getD (wordAt memory view offset))
        (wordAt memory' view offset) (wordAt memory' view (offset + 8))
  others : ∀ v o, (∀ e ∈ es, ∀ offset,
    target d.image memory e.address (widthOf e.type) = some (v, offset) →
      ¬ (offset ≤ o ∧ o < offset + widthOf e.type)) → byteAt memory' v o = byteAt memory v o

/-- A bound write. -/
def Binds (B : (type symbol : Nat) → (addend value argument : BitVec 64) → Prop) (w b : Write) : Prop :=
  b = { w with value := b.value, argument := b.argument } ∧ B w.type w.symbol w.value b.value b.argument

/-- Storing the bound writes of all entries relocates. -/
theorem placed_of_plan {B : (type symbol : Nat) → (addend value argument : BitVec 64) → Prop}
    (hB : ∀ type symbol addend value argument argument', B type symbol addend value argument →
      (widthOf type = 16 → argument' = argument) → B type symbol addend value argument')
    {es : List Entry} {ws bs : List Write}
    (hplan : List.Forall₂ (fun e w => e.write d memory = some w) es ws)
    (hspaced : Spaced (ws.insertionSort byAddress))
    (hbound : List.Forall₂ (Binds B) (ws.insertionSort byAddress) bs) :
    ∃ memory', storeWrites bs memory = .ok memory' ∧ Placed d B memory es memory' := by
  have hmem : ∀ w, w ∈ ws.insertionSort byAddress ↔ w ∈ ws := fun w => List.mem_insertionSort byAddress
  have hfor : ∀ w ∈ ws.insertionSort byAddress, ∃ e ∈ es, w.For d memory e := by
    intro w hw
    obtain ⟨e, he, hwrite⟩ := forall₂_right hplan ((hmem w).1 hw)
    exact ⟨e, he, Entry.write_some hwrite⟩
  have hbehind := hspaced.behind (List.pairwise_insertionSort byAddress ws) fun w hw => by
    obtain ⟨e, _, h⟩ := hfor w hw
    have hwidth := widthOf_cases e.type
    rw [h.width]
    omega
  have hboth := (List.forall₂_and_left _ _).2 ⟨hfor, hbound⟩
  have hinside : ∀ b ∈ bs, b.Inside memory := by
    intro b hb
    obtain ⟨w, _, ⟨e, _, h⟩, heq, _⟩ := forall₂_right hboth hb
    rw [heq]
    exact h.inside
  have hapart : bs.Pairwise Write.Apart := by
    refine pairwise_forall₂ hboth hbehind fun w w' b b' hw hw' hlt => ?_
    obtain ⟨⟨e, _, h⟩, heq, _⟩ := hw
    obtain ⟨⟨e', _, h'⟩, heq', _⟩ := hw'
    have hwapart : w.Apart w' := h.apart h' hlt
    rw [heq, heq']
    exact hwapart
  obtain ⟨memory', hstore, hstores⟩ := storeWrites_spec hinside hapart
  refine ⟨memory', hstore, hstores.shape, fun e he => ?_, fun v o hout => ?_⟩
  · obtain ⟨w, hw, hwrite⟩ := forall₂_left hplan he
    have h := Entry.write_some hwrite
    obtain ⟨b, hb, heq, hvalue⟩ := forall₂_left hbound ((hmem w).2 hw)
    obtain ⟨hword, hargument⟩ := hstores.stored b hb
    rw [heq] at hword hargument
    dsimp only at hword hargument
    rw [h.width] at hargument
    rw [h.type, h.symbol, h.value] at hvalue
    refine ⟨w.view, w.offset, h.place, ?_⟩
    rw [hword]
    exact hB _ _ _ _ _ _ hvalue hargument
  · refine hstores.others v o fun b hb hcovers => ?_
    obtain ⟨w, _, ⟨e, he, h⟩, heq, _⟩ := forall₂_right hboth hb
    rw [heq] at hcovers
    obtain ⟨hv, hlow, hhigh⟩ := hcovers
    dsimp only at hv hlow hhigh
    have hplace := h.place
    rw [← hv] at hplace
    exact hout e he w.offset hplace ⟨hlow, by rw [← h.width]; exact hhigh⟩

/-- What a write's value is when it is bound, where `D` tells what a descriptor gets. -/
def Assigned (d : Dynamic) (bias : BitVec 64) (resolve : Option Resolver)
    (D : (symbol : Nat) → (addend value argument : BitVec 64) → Prop) (type symbol : Nat)
    (addend value argument : BitVec 64) : Prop :=
  if type = rTlsdesc then D symbol addend value argument
  else Bound d bias resolve none type symbol addend value argument

/-- A binding whose context only grows, and what it says of a descriptor stays so. -/
structure Records (tls : Describing σ) (Grows : σ → σ → Prop)
    (D : σ → (symbol : Nat) → (addend value argument : BitVec 64) → Prop) : Prop where
  answers : ∀ s symbol addend, Safe (tls s symbol addend) fun r => Grows s r.2 ∧ D r.2 symbol addend r.1.1 r.1.2
  refl : ∀ s, Grows s s
  trans : ∀ {s t u}, Grows s t → Grows t u → Grows s u
  keep : ∀ {s t symbol addend value argument}, Grows s t → D s symbol addend value argument →
    D t symbol addend value argument

section Describe

variable {D : σ → (symbol : Nat) → (addend value argument : BitVec 64) → Prop} {Grows : σ → σ → Prop}
  {resolve : Option Resolver} {tls : Describing σ}

theorem bindWriteWith_safe (h : d.Sound) (htls : Records tls Grows D) (s : σ) (w : Write) :
    Safe (bindWriteWith d bias (resolve.map asks) (some tls) s w) fun r =>
      Grows s r.2 ∧ Binds (Assigned d bias resolve (D r.2)) w r.1 := by
  unfold bindWriteWith
  refine Safe.ite (fun htype => ?_) fun htype => ?_
  · refine Safe.bind (Safe.ok rfl : Safe _ fun t => t = tls) fun t ht => ?_
    rw [ht]
    refine Safe.bind (checkTls_safe h w.symbol) fun _ _ => ?_
    refine Safe.bind (htls.answers s w.symbol w.value) fun r hr => ?_
    refine Safe.bind Safe.reject fun _ _ => ?_
    refine Safe.pure ⟨hr.1, rfl, ?_⟩
    unfold Assigned
    rw [if_pos htype]
    exact hr.2
  · by_cases hrelative : w.type = rRelative
    · rw [if_neg (not_not_intro hrelative)]
      refine Safe.pure ⟨htls.refl s, rfl, ?_⟩
      unfold Assigned
      rw [if_neg htype]
      exact .relative hrelative (BitVec.add_comm _ _)
    · rw [if_pos hrelative, symbolValueWith_eq]
      refine Safe.bind (symbolValue_safe h w.symbol).self fun value hvalue => ?_
      refine Safe.pure ⟨htls.refl s, rfl, ?_⟩
      unfold Assigned
      rw [if_neg htype]
      exact .symbol htype hrelative hvalue (BitVec.add_comm _ _)

theorem bindWritesWith_safe (h : d.Sound) (htls : Records tls Grows D) (s : σ) (ws : List Write) :
    Safe (bindWritesWith d bias (resolve.map asks) (some tls) s ws) fun r =>
      Grows s r.2 ∧ List.Forall₂ (Binds (Assigned d bias resolve (D r.2))) ws r.1 := by
  induction ws generalizing s with
  | nil => exact Safe.ok ⟨htls.refl s, .nil⟩
  | cons w ws ih =>
    refine Safe.bind (bindWriteWith_safe h htls s w) fun r hr => ?_
    refine Safe.bind (ih r.2) fun t ht => Safe.pure ⟨htls.trans hr.1 ht.1, .cons ?_ ht.2⟩
    obtain ⟨_, heq, hvalue⟩ := hr
    refine ⟨heq, ?_⟩
    unfold Assigned at hvalue ⊢
    split
    next htype =>
      rw [if_pos htype] at hvalue
      exact htls.keep ht.1 hvalue
    next htype =>
      rw [if_neg htype] at hvalue
      exact hvalue

/-- A relocation with a context does not go wrong. If it returns, each target holds its value, where
what a descriptor got is told by what the context then holds. -/
theorem relocateWith_safe (resolve : Option Resolver) (h : d.Valid) (htls : Records tls Grows D) (allocated : Bool)
    (s : σ) :
    Safe (relocateWith d bias memory (resolve.map asks) (some tls) allocated s) fun r =>
      r.2.1 = d.stats ∧ Grows s r.2.2 ∧ ∃ es, d.entries = some es ∧
        Placed d (Assigned d bias resolve (D r.2.2)) memory es r.1 := by
  unfold relocateWith
  refine Safe.bind (reserve_safe d memory allocated) fun capacity hcapacity => ?_
  refine Safe.bind (prepare_computes h hcapacity).safe fun p hp => ?_
  obtain ⟨ws, hws, rfl⟩ := Option.map_eq_some_iff.1 hp
  obtain ⟨es, hes, hplan⟩ := Option.bind_eq_some_iff.1 hws
  refine Safe.bind checkApart_spaced fun _ hspaced => ?_
  refine Safe.bind (bindWritesWith_safe h.toSound htls s _) fun (writes, t) hr => ?_
  dsimp only at hr ⊢
  have hargument : ∀ type symbol addend value argument argument',
      Assigned d bias resolve (D t) type symbol addend value argument →
        (widthOf type = 16 → argument' = argument) →
          Assigned d bias resolve (D t) type symbol addend value argument' := by
    intro type symbol addend value argument argument' hvalue heq
    unfold Assigned at hvalue ⊢
    split
    next htype =>
      rw [if_pos htype] at hvalue
      rw [heq (by rw [htype]; rfl)]
      exact hvalue
    next htype =>
      rw [if_neg htype] at hvalue
      exact hvalue.argument heq
  obtain ⟨memory', hstore, hplaced⟩ := placed_of_plan hargument (mapM_some_iff.1 hplan) hspaced hr.2
  rw [hstore]
  exact Safe.pure ⟨rfl, hr.1, es, hes, hplaced⟩

end Describe

end Artbox.Elf
