import Artbox.Binder.Queue

/-!
# What a reservation does

`reserve_payload` edits a snapshot of the sender's data at the offsets the sender
lists. The listed objects are flat, whole and disjoint (`Flat`), so the edits stay
inside them and do not meet (`translate_data`). An accepted reservation
(`Accepted`) leaves a reserved buffer in the target's arena that holds the edited
snapshot and the offset table as sent; every reservation keeps the buffers that were
there.
-/

namespace Artbox.Binder

open Bytes

/-! ## Flat objects -/

/-- The objects at `offsets` are `BINDER`s and `HANDLE`s, one behind the other inside
`data`, none before `last`. -/
def Flat (data : List UInt8) : (last : Nat) → List Nat → Prop
  | _, [] => True
  | last, offset :: rest =>
    last ≤ offset ∧ offset + 24 ≤ data.length ∧
      (read32 data offset = ObjectType.binder.word ∨ read32 data offset = ObjectType.handle.word) ∧
        Flat data (offset + 24) rest

section Flat

variable {data data' : List UInt8} {last : Nat} {offsets : List Nat}

/-- Only the bytes from `last` on matter. -/
theorem Flat.congr (h : Flat data last offsets) (hl : data'.length = data.length)
    (hb : ∀ j, last ≤ j → data'[j]? = data[j]?) : Flat data' last offsets := by
  induction offsets generalizing last with
  | nil => trivial
  | cons offset rest ih =>
    obtain ⟨hle, hlen, htype, hrest⟩ := h
    have hread : read32 data' offset = read32 data offset :=
      field_congr fun j hj _ => hb j (by omega)
    exact ⟨hle, hl ▸ hlen, hread.symm ▸ htype, ih hrest fun j hj => hb j (by omega)⟩

theorem Flat.mem (h : Flat data last offsets) {offset : Nat} (ho : offset ∈ offsets) :
    last ≤ offset ∧ offset + 24 ≤ data.length := by
  induction offsets generalizing last with
  | nil => cases ho
  | cons x rest ih =>
    rcases List.mem_cons.1 ho with rfl | ho
    · exact ⟨h.1, h.2.1⟩
    · obtain ⟨h1, h2⟩ := ih h.2.2.2 ho
      exact ⟨by have := h.1; omega, h2⟩

/-- A table of allowed types that passed the validator lists flat objects. -/
theorem Placed.flat (h : Placed data last offsets)
    (ht : ∀ offset ∈ offsets, read32 data offset = ObjectType.binder.word ∨
      read32 data offset = ObjectType.handle.word) : Flat data last offsets := by
  induction offsets generalizing last with
  | nil => trivial
  | cons offset rest ih =>
    obtain ⟨hle, type, htype, hlen, hrest⟩ := h
    have hword := ObjectType.word_of_ofWord htype
    have hlength : type.length = 24 := by
      rcases ht offset List.mem_cons_self with h | h <;> rw [h] at hword <;>
        revert hword <;> cases type <;> decide
    rw [hlength] at hlen hrest
    exact ⟨hle, hlen, ht offset List.mem_cons_self,
      ih hrest fun o ho => ht o (List.mem_cons_of_mem _ ho)⟩

theorem checkObjects_flat {offs : List UInt8} (h : checkObjects data offs = 0) :
    Flat data 0 (offsetTable offs) := by
  unfold checkObjects at h
  split at h
  · cases h
  next n hv =>
    split at h
    next hall =>
      refine (validateObjects_spec hv).2.2.flat fun offset ho => ?_
      have := List.all_eq_true.1 hall offset ho
      simpa using this
    next => cases h

end Flat

/-! ## Editing an object -/

/-- The bytes of a flat object that translation rewrites: its type, and its two
64-bit fields. -/
def Touched (offset j : Nat) : Prop :=
  (offset ≤ j ∧ j < offset + 4) ∨ (offset + 8 ≤ j ∧ j < offset + 24)

/-- What the three writes leave: the length, the bytes they do not touch, and the three
fields. -/
theorem writeObject_spec {data : List UInt8} {offset : Nat} (node : Node) (remote : Bool)
    (handle : Nat) (h : offset + 24 ≤ data.length) :
    (Objects.writeObject data offset node remote handle).length = data.length ∧
      (∀ j, ¬ Touched offset j →
        (Objects.writeObject data offset node remote handle)[j]? = data[j]?) ∧
      read32 (Objects.writeObject data offset node remote handle) offset =
        (if remote then ObjectType.handle.word else ObjectType.binder.word) ∧
      read64 (Objects.writeObject data offset node remote handle) (offset + 8) =
        (if remote then handle else node.pointer) % 2 ^ 64 ∧
      read64 (Objects.writeObject data offset node remote handle) (offset + 16) =
        (if remote then 0 else node.cookie) % 2 ^ 64 := by
  simp only [Objects.writeObject]
  generalize htype : (if remote then ObjectType.handle.word else ObjectType.binder.word) = a
  generalize (if remote then handle else node.pointer) = b
  generalize (if remote then 0 else node.cookie) = c
  have ha : a % 256 ^ 4 = a := by
    rw [← htype]
    cases remote <;> decide
  have h1 : (splice data offset (writeLE 4 a)).length = data.length :=
    length_splice (by simp only [length_writeLE]; omega)
  generalize hd1 : splice data offset (writeLE 4 a) = d1 at *
  have h2 : (splice d1 (offset + 8) (writeLE 8 b)).length = data.length :=
    (length_splice (by simp only [length_writeLE]; omega)).trans h1
  generalize hd2 : splice d1 (offset + 8) (writeLE 8 b) = d2 at *
  refine ⟨(length_splice (by simp only [length_writeLE]; omega)).trans h2, fun j hj => ?_, ?_, ?_, ?_⟩
  · unfold Touched at hj
    rw [getElem?_splice_of_outside (by simp only [length_writeLE]; omega)
      (by simp only [length_writeLE]; omega), ← hd2,
      getElem?_splice_of_outside (by simp only [length_writeLE]; omega)
      (by simp only [length_writeLE]; omega), ← hd1,
      getElem?_splice_of_outside (by simp only [length_writeLE]; omega)
      (by simp only [length_writeLE]; omega)]
  · rw [read32, field_splice_disjoint (by simp only [length_writeLE]; omega) (by omega), ← hd2,
      field_splice_disjoint (by simp only [length_writeLE]; omega) (by omega), ← hd1,
      field_splice_self (by omega), ha]
  · rw [read64, field_splice_disjoint (by simp only [length_writeLE]; omega) (by omega), ← hd2,
      field_splice_self (by omega)]
    exact congrArg (b % ·) (by decide)
  · rw [read64, field_splice_self (by omega)]
    exact congrArg (c % ·) (by decide)

/-! ## The object loop -/

/-- The loop only edits the listed objects; it keeps the length. -/
theorem translate_data {source : Nat} {tid : Int} {target buffer : Nat} {offsets : List Nat}
    {o : Objects} {data : List UInt8} {last : Nat} (h : Flat data last offsets) :
    (Objects.translate source tid target buffer offsets o data).data.length = data.length ∧
      ∀ j, (∀ offset ∈ offsets, ¬ Touched offset j) →
        (Objects.translate source tid target buffer offsets o data).data[j]? = data[j]? := by
  induction offsets generalizing o data last with
  | nil => exact ⟨rfl, fun _ _ => rfl⟩
  | cons offset rest ih =>
    obtain ⟨hle, hlen, _, hrest⟩ := h
    simp only [Objects.translate]
    split
    · exact ⟨rfl, fun _ _ => rfl⟩
    next node o' _ =>
      split
      · exact ⟨rfl, fun _ _ => rfl⟩
      next handle o'' _ =>
        obtain ⟨hl, hout, _⟩ := writeObject_spec node (node.owner != target) handle hlen
        have hflat := hrest.congr hl fun j hj => hout j (by unfold Touched; omega)
        obtain ⟨hl', hout'⟩ := ih (o := o'') hflat
        refine ⟨hl'.trans hl, fun j hj => ?_⟩
        rw [hout' j fun x hx => hj x (List.mem_cons_of_mem _ hx)]
        exact hout j (hj offset List.mem_cons_self)

/-! ## Reservations -/

/-- An accepted reservation, step by step: the snapshot, the buffer, the hold on the
addressed node, and the translation. -/
structure Accepted (o : Objects) (e : Endpoint) (tid : Int) (target : Endpoint)
    (input : TransactionData) (node : Option Node) (r : Reservation) (arena : Arena)
    (held : Objects) : Prop where
  arenaFound : receiveArena target = some arena
  sentLength : r.sent.length = input.dataSize
  offsetsLength : r.offsets.length = input.offsetsSize
  checked : checkObjects r.sent r.offsets = 0
  reserved : ∃ reserved, arena.reserve input.dataSize input.offsetsSize 0 false =
    .ok (r.buffer, reserved) ∧ r.arena = some ((reserved.write r.buffer.address 0 r.data).2.write
      r.buffer.address (r.buffer.offsetsAddress - r.buffer.address) r.offsets).2
  claimed : claimTarget o target.token r.buffer.address node = (0, held)
  translated : Objects.translate e.token tid target.token r.buffer.address (offsetTable r.offsets)
    held r.sent = ⟨0, r.objects, r.data, r.nodes⟩

section Reserve

variable {ω : Type} {host : Host ω} {w w' : ω} {o : Objects} {e target : Endpoint} {tid : Int}
  {input : TransactionData} {node : Option Node} {r : Reservation}

/-- The two stores of a parcel into its fresh buffer do not fail. -/
theorem storePayload_cases (o : Objects) (e : Endpoint) (tid : Int) (target : Endpoint)
    (arena : Arena) (input : TransactionData) (node : Option Node) {data offsets : List UInt8}
    (hd : data.length = input.dataSize) (ho : offsets.length = input.offsetsSize)
    (hc : checkObjects data offsets = 0) :
    (∃ c, arena.reserve input.dataSize input.offsetsSize 0 false = .error c ∧
      storePayload o e tid target arena input node data offsets =
        { result := c, objects := o, arena := some arena }) ∨
    (∃ b reserved held t, arena.reserve input.dataSize input.offsetsSize 0 false = .ok (b, reserved) ∧
      claimTarget o target.token b.address node = held ∧
      t = (if held.1 = 0 then Objects.translate e.token tid target.token b.address
        (offsetTable offsets) held.2 data else ⟨held.1, held.2, data, []⟩) ∧
      ((t.result ≠ 0 ∧ storePayload o e tid target arena input node data offsets =
          { result := t.result, objects := t.objects.releaseClaims target.token b.address
            arena := some (reserved.cancel b.address).2 }) ∨
        (t.result = 0 ∧ storePayload o e tid target arena input node data offsets =
          { result := 0, objects := t.objects
            arena := some ((reserved.write b.address 0 t.data).2.write b.address
              (b.offsetsAddress - b.address) offsets).2
            buffer := b, sent := data, data := t.data, offsets, nodes := t.nodes }))) := by
  cases hres : arena.reserve input.dataSize input.offsetsSize 0 false with
  | error c => exact .inl ⟨c, rfl, by simp only [storePayload, hres]⟩
  | ok p =>
    obtain ⟨b, reserved⟩ := p
    refine .inr ⟨b, reserved, _, _, rfl, rfl, rfl, ?_⟩
    simp only [storePayload, hres]
    generalize claimTarget o target.token b.address node = held
    generalize ht : (if held.1 = 0 then Objects.translate e.token tid target.token b.address
        (offsetTable offsets) held.2 data else ⟨held.1, held.2, data, []⟩) = t
    by_cases h0 : t.result = 0
    · have hlen : t.data.length = data.length := by
        rw [← ht]
        split
        · exact (translate_data (checkObjects_flat hc)).1
        · rfl
      obtain ⟨hw1, hw2, _⟩ := Arena.store_spec hres (hlen.trans hd) ho
      refine .inr ⟨h0, ?_⟩
      simp only [if_pos h0, hw1, if_true, hw2]
      rw [if_neg (by simp)]
    · refine .inl ⟨h0, ?_⟩
      simp only [if_neg h0, if_pos (show t.result ≠ 0 from h0)]

theorem readPayload_error {c : Int} (h : readPayload host w e input = (.error c, w')) :
    c = -12 ∨ c = -14 := by
  simp only [readPayload] at h
  repeat' split at h
  all_goals cases h
  · exact .inl rfl
  · exact .inr rfl
  · exact .inr rfl

theorem readPayload_ok {data offsets : List UInt8}
    (h : readPayload host w e input = (.ok (data, offsets), w')) :
    data.length = input.dataSize ∧ offsets.length = input.offsetsSize := by
  simp only [readPayload] at h
  split at h
  · cases h
  · split at h
    · cases h
    next bs _ _ =>
      split at h
      · cases h
      next bs' _ _ =>
        cases h
        exact ⟨bs.2, bs'.2⟩

/-- A reservation stops before it touches anything, or gets to the buffer. -/
theorem reservePayload_cases (h : reservePayload host w o e tid target input node = (r, w')) :
    (r.result ≠ 0 ∧ r.objects = o ∧
      (r.arena = target.arena ∨ r.arena = receiveArena target)) ∨
    ∃ arena data offsets, receiveArena target = some arena ∧ data.length = input.dataSize ∧
      offsets.length = input.offsetsSize ∧ checkObjects data offsets = 0 ∧
      r = storePayload o e tid target arena input node data offsets := by
  simp only [reservePayload] at h
  split at h
  next hc =>
    cases h
    exact .inl ⟨hc, rfl, .inl rfl⟩
  next =>
    split at h
    next hnone =>
      cases h
      exact .inl ⟨(by decide : (-12 : Int) ≠ 0), rfl, .inr hnone.symm⟩
    next arena harena =>
      split at h
      next c w1 hread =>
        cases h
        refine .inl ⟨?_, rfl, .inr harena.symm⟩
        rcases readPayload_error hread with rfl | rfl <;> simp
      next data offsets w1 hread =>
        split at h
        next hcheck =>
          cases h
          exact .inl ⟨hcheck, rfl, .inr harena.symm⟩
        next hcheck =>
          cases h
          have hlen := readPayload_ok hread
          exact .inr ⟨arena, data, offsets, harena, hlen.1, hlen.2, by simpa using hcheck, rfl⟩

theorem reservePayload_ok (h : reservePayload host w o e tid target input node = (r, w'))
    (h0 : r.result = 0) : ∃ arena held, Accepted o e tid target input node r arena held := by
  rcases reservePayload_cases h with ⟨hne, _⟩ | ⟨arena, data, offsets, harena, hd, ho, hc, rfl⟩
  · exact absurd h0 hne
  · rcases storePayload_cases o e tid target arena input node hd ho hc with
      ⟨c, hres, hr⟩ | ⟨b, reserved, held, t, hres, hheld, ht, ⟨hne, hr⟩ | ⟨ht0, hr⟩⟩
    · rw [hr] at h0
      exact absurd (Arena.reserve_error hres) (by simpa using h0)
    · rw [hr] at h0
      exact absurd h0 hne
    · have hh : held.1 = 0 := by
        by_contra hh
        rw [if_neg hh] at ht
        rw [ht] at ht0
        exact hh ht0
      rw [if_pos hh] at ht
      refine ⟨arena, held.2, ⟨harena, ?_, ?_, ?_, ⟨reserved, ?_, ?_⟩, ?_, ?_⟩⟩ <;> rw [hr]
      · exact hd
      · exact ho
      · exact hc
      · exact hres
      · rw [hheld, ← hh]
      · rw [← ht, ← ht0]

/-- Every reservation keeps the buffers that were there. -/
theorem reservePayload_keeps (h : reservePayload host w o e tid target input node = (r, w'))
    {a : Arena} (ha : target.arena = some a) : ∃ a', r.arena = some a' ∧ a.Keeps a' := by
  have hrecv : receiveArena target = some a := by simp [receiveArena, ha]
  rcases reservePayload_cases h with ⟨_, _, hr⟩ | ⟨arena, data, offsets, harena, hd, ho, hc, rfl⟩
  · refine ⟨a, ?_, .refl a⟩
    rcases hr with hr | hr
    · rw [hr, ha]
    · rw [hr, hrecv]
  · rw [hrecv] at harena
    cases harena
    rcases storePayload_cases o e tid target a input node hd ho hc with
      ⟨c, hres, hr⟩ | ⟨b, reserved, held, t, hres, hheld, ht, ⟨hne, hr⟩ | ⟨ht0, hr⟩⟩ <;> rw [hr]
    · exact ⟨a, rfl, .refl a⟩
    · obtain ⟨_, hfresh, _, hsame, _, _⟩ := Arena.reserve_spec hres
      exact ⟨_, rfl, (hsame.trans Arena.removeBuffer_sameBut).keeps hfresh⟩
    · obtain ⟨_, hfresh, _, hsame, _, _⟩ := Arena.reserve_spec hres
      exact ⟨_, rfl, ((hsame.trans Arena.write_sameBut).trans Arena.write_sameBut).keeps hfresh⟩

end Reserve

/-- An accepted parcel is stored in the target's arena, at an address no buffer had. -/
theorem Accepted.stores {o held : Objects} {e target : Endpoint} {tid : Int}
    {input : TransactionData} {node : Option Node} {r : Reservation} {arena : Arena}
    (h : Accepted o e tid target input node r arena held) :
    ∃ a', r.arena = some a' ∧ arena.Keeps a' ∧
      (∀ s ∈ arena.buffers, s.value.address ≠ r.buffer.address) ∧ 0 < r.buffer.address ∧
      a'.Stores r.buffer.address r.buffer.offsetsAddress r.data r.offsets := by
  obtain ⟨reserved, hres, harena⟩ := h.reserved
  obtain ⟨_, hfresh, _, hsame, hpos, _⟩ := Arena.reserve_spec hres
  have hlen : r.data.length = input.dataSize := by
    have hflat := checkObjects_flat h.checked
    have := (@translate_data e.token tid target.token r.buffer.address _ held _ _ hflat).1
    rw [h.translated] at this
    exact this.trans h.sentLength
  exact ⟨_, harena, ((hsame.trans Arena.write_sameBut).trans Arena.write_sameBut).keeps hfresh,
    hfresh, hpos, (Arena.store_spec hres hlen h.offsetsLength).2.2⟩

end Artbox.Binder
