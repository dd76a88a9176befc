import Artbox.Elf.Relocation
import Artbox.Elf.Bounds

/-!
# The plan of a relocation

What the three tables ask for, as a list of entries (`Dynamic.entries`), and the write that each
entry gets (`Entry.write`). `artbox_relocate_tls` plans just these writes (`prepare_computes`): it
does so if every entry may be written, and else it fails, but it never reads outside the image or
writes behind its plan's capacity.
-/

namespace Artbox.Elf

open Checked

variable {d : Dynamic} {memory : List Memory} {image : Image}

/-! ## Entries -/

/-- What an entry of a table asks for; without an addend that is the word in place. -/
structure Entry where
  address : Nat
  type : Nat
  symbol : Nat
  addend : Option (BitVec 64)
deriving DecidableEq, Repr

/-- The addresses that the bits of a word stand for. -/
def bitAddresses (word cursor left bit : Nat) : List Nat :=
  ((List.range' bit left).filter word.testBit).map fun b => cursor + (b - 1) * 8

/-- The standard decoding of a RELR table: an even word is an address, and an odd one says which of
the 63 words at the cursor are relocated too. -/
def relrAddresses : (cursor : Option Nat) → List Nat → Option (List Nat)
  | _, [] => some []
  | cursor, word :: rest =>
    if word % 2 = 0 then
      if uint64Max - 8 < word then none else (relrAddresses (some (word + 8)) rest).map ([word] ++ ·)
    else
      match cursor with
      | none => none
      | some cursor =>
        if uint64Max - 63 * 8 < cursor then none
        else (relrAddresses (some (cursor + 63 * 8)) rest).map (bitAddresses word cursor 63 1 ++ ·)

/-- The words of a RELR table. -/
def relrWords (bytes : List UInt8) : (left place : Nat) → List Nat
  | 0, _ => []
  | left + 1, place => Bytes.field bytes place 8 :: relrWords bytes left (place + 8)

/-- The entries of a RELA table. -/
def relaEntries (bytes : List UInt8) : (left place : Nat) → List Entry
  | 0, _ => []
  | left + 1, place =>
    { address := Bytes.field bytes place 8
      type := Bytes.field bytes (place + 8) 8 % 2 ^ 32
      symbol := Bytes.field bytes (place + 8) 8 / 2 ^ 32
      addend := some (BitVec.ofNat 64 (Bytes.field bytes (place + 16) 8)) } ::
        relaEntries bytes left (place + 24)

/-- An address of a RELR table. -/
def Entry.relative (address : Nat) : Entry := { address, type := rRelative, symbol := 0, addend := none }

/-- What the entries of a table ask for, but for those of type `R_NONE`. -/
def Dynamic.table (d : Dynamic) (t : Table) : List Entry :=
  (relaEntries d.bytes (t.size / 24) (t.data.getD 0)).filter (·.type ≠ rNone)

/-- The words of its RELR table. -/
def Dynamic.relrWords (d : Dynamic) : List Nat :=
  Elf.relrWords d.bytes (d.relr.size / 8) (d.relr.data.getD 0)

/-- The word at a place in a view. -/
def wordAt (memory : List Memory) (view offset : Nat) : BitVec 64 :=
  BitVec.ofNat 64 (memory[view]?.elim 0 fun m => Bytes.field m.bytes offset 8)

/-- The write that an entry gets, if it may be written. -/
def Entry.write (d : Dynamic) (memory : List Memory) (e : Entry) : Option Write :=
  if (e.type ≠ rAbs64 ∧ e.type ≠ rGlobDat ∧ e.type ≠ rJumpSlot ∧ e.type ≠ rRelative ∧ e.type ≠ rTlsdesc) ∨
      d.symbolCount ≤ e.symbol ∨ (e.type = rRelative ∧ e.symbol ≠ 0) then
    none
  else (target d.image memory e.address (widthOf e.type)).map fun place =>
    { view := place.1, offset := place.2, address := e.address
      value := e.addend.getD (wordAt memory place.1 place.2)
      width := widthOf e.type, type := e.type, symbol := e.symbol }

/-! ## Targets -/

/-- A target lies in one of the views. -/
theorem targetFrom_some {address width i : Nat} (before : List Memory) {rest : List Memory}
    {place : Nat × Nat} (hi : i = before.length) (h : targetFrom image address width i rest = some place) :
    ∃ m, (before ++ rest)[place.1]? = some m ∧ m.start image ≤ address ∧
      place.2 = address - m.start image ∧ place.2 + width ≤ m.bytes.length := by
  induction rest generalizing before i with
  | nil => cases h
  | cons m rest ih =>
    unfold targetFrom at h
    by_cases hin : m.start image ≤ address ∧ width ≤ m.bytes.length ∧
        address - m.start image ≤ m.bytes.length - width
    · rw [if_pos hin] at h
      obtain rfl := Option.some.inj h
      refine ⟨m, ?_, hin.1, rfl, ?_⟩
      · show (before ++ m :: rest)[i]? = some m
        rw [hi, List.getElem?_append_right (Nat.le_refl _), Nat.sub_self]
        rfl
      · show address - m.start image + width ≤ m.bytes.length
        omega
    · rw [if_neg hin] at h
      have hrest := ih (before ++ [m]) (by rw [List.length_append]; exact congrArg (· + 1) hi) h
      rw [List.append_assoc] at hrest
      exact hrest

/-- A target is inside a view, at the address less where the view's segment starts. -/
theorem target_some {address width : Nat} {place : Nat × Nat}
    (h : target image memory address width = some place) :
    ∃ m, memory[place.1]? = some m ∧ m.start image ≤ address ∧
      place.2 = address - m.start image ∧ place.2 + width ≤ m.bytes.length := by
  unfold target at h
  by_cases hfar : uint64Max - width < address
  · rw [if_pos hfar] at h
    cases h
  · rw [if_neg hfar] at h
    exact targetFrom_some [] rfl h

/-- Every relocation is at least a word wide. -/
theorem le_widthOf (type : Nat) : 8 ≤ widthOf type := by
  unfold widthOf
  split <;> decide

/-- A word inside a view is read within bounds. -/
theorem u64_eq {view offset : Nat} {m : Memory} (hm : memory[view]? = some m)
    (h : offset + 8 ≤ m.bytes.length) : u64 memory view offset = .ok (wordAt memory view offset) := by
  unfold u64 wordAt
  rw [hm]
  show (fetch m.bytes offset 8 >>= _) = _
  rw [fetch_of_le h]
  rfl

/-! ## Planning -/

/-- More writes. -/
def Preparation.add (p : Preparation) (ws : List Write) : Preparation := { p with writes := p.writes ++ ws }

/-- More relative addresses. -/
def Preparation.countBy (p : Preparation) (n : Nat) : Preparation :=
  { p with stats := { p.stats with relrCount := p.stats.relrCount + n } }

/-- The writes of some entries. -/
def Preparation.plan (p : Preparation) (es : List Entry) : Option (List Write) :=
  es.mapM (Entry.write p.dynamic p.memory)

/-- An entry is written or refused, as its write says. -/
theorem addWrite_computes {p : Preparation} {address type symbol : Nat} {addend : BitVec 64} {implicit : Bool}
    (hne : type ≠ rNone) (hcapacity : p.writes.length < p.capacity) :
    Computes (addWrite p address type symbol addend implicit)
      ((Entry.write p.dynamic p.memory ⟨address, type, symbol, if implicit then none else some addend⟩).map
        fun w => p.add [w]) := by
  unfold addWrite Entry.write
  rw [if_neg hne]
  refine Computes.reject (fun h => ?_) fun htype => Computes.reject (fun h => ?_) fun hsymbol => ?_
  · rw [if_pos (.inl h)]
    rfl
  · rw [if_pos (.inr h)]
    rfl
  rw [if_neg (not_or.2 ⟨htype, hsymbol⟩)]
  refine Computes.bind Computes.require (fun h => ?_) fun place hplace => ?_
  · rw [h]
    rfl
  rw [hplace]
  refine Computes.read (if_pos hcapacity) ?_
  cases implicit with
  | true =>
    obtain ⟨m, hm, _, _, hfits⟩ := target_some hplace
    have hwidth := le_widthOf type
    exact Computes.read (u64_eq hm (by omega)) Computes.ok
  | false => exact Computes.read rfl Computes.ok

section

variable {p : Preparation}

/-- The writes of entries are those of the first and of the others. -/
theorem plan_cons (e : Entry) (es : List Entry) :
    p.plan (e :: es) = (e.write p.dynamic p.memory).bind fun w => (p.plan es).map fun ws => w :: ws := by
  unfold Preparation.plan
  rw [List.mapM_cons]
  cases Entry.write p.dynamic p.memory e with
  | none => rfl
  | some w => cases es.mapM (Entry.write p.dynamic p.memory) <;> rfl

/-- The writes of two tables are those of the one and of the other. -/
theorem plan_append (es fs : List Entry) :
    p.plan (es ++ fs) = (p.plan es).bind fun ws => (p.plan fs).map fun vs => ws ++ vs := by
  induction es with
  | nil =>
    show p.plan fs = (p.plan fs).map fun vs => [] ++ vs
    cases p.plan fs <;> rfl
  | cons e es ih =>
    rw [List.cons_append, plan_cons, plan_cons, ih]
    cases Entry.write p.dynamic p.memory e with
    | none => rfl
    | some w =>
      cases p.plan es with
      | none => rfl
      | some ws => cases p.plan fs <;> rfl

/-- Every entry gets one write. -/
theorem plan_length {es : List Entry} {ws : List Write} (h : p.plan es = some ws) :
    ws.length = es.length := by
  induction es generalizing ws with
  | nil =>
    obtain rfl := Option.some.inj h
    rfl
  | cons e es ih =>
    rw [plan_cons] at h
    obtain ⟨w, _, h⟩ := Option.bind_eq_some_iff.1 h
    obtain ⟨vs, hvs, rfl⟩ := Option.map_eq_some_iff.1 h
    exact congrArg (· + 1) (ih hvs)

@[simp] theorem add_nil (p : Preparation) : p.add [] = p := by
  unfold Preparation.add
  rw [List.append_nil]

/-- The next bit of a word stands for one address or for none. -/
theorem bitAddresses_succ (word cursor left bit : Nat) :
    bitAddresses word cursor (left + 1) bit =
      (if word.testBit bit then [cursor + (bit - 1) * 8] else []) ++
        bitAddresses word cursor left (bit + 1) := by
  unfold bitAddresses
  rw [List.range'_succ, List.filter_cons]
  by_cases hbit : word.testBit bit
  · rw [if_pos hbit, if_pos hbit]
    rfl
  · rw [if_neg hbit, if_neg hbit]
    rfl

/-- What is planned behind some writes. -/
theorem plan_behind (vs : List Write) (es : List Entry) :
    ((p.plan es).map fun ws => vs ++ ws).map (fun ws => (p.add ws).countBy ws.length) =
      (((p.add vs).countBy vs.length).plan es).map fun ws =>
        (((p.add vs).countBy vs.length).add ws).countBy ws.length := by
  rw [Option.map_map]
  refine congrArg (fun f => (p.plan es).map f) (funext fun ws => ?_)
  unfold Preparation.add Preparation.countBy
  simp only [Function.comp_apply, List.length_append, List.append_assoc, Nat.add_assoc]

/-- No more addresses than bits. -/
theorem length_bitAddresses (word cursor left bit : Nat) :
    (bitAddresses word cursor left bit).length ≤ left := by
  unfold bitAddresses
  rw [List.length_map]
  exact (List.length_filter_le _ _).trans (by rw [List.length_range'])

/-- Addresses whose first ones cannot be planned cannot be planned. -/
theorem plan_none {first : List Nat} (h : p.plan (first.map Entry.relative) = none)
    (o : Option (List Nat)) : ((o.map (first ++ ·)).bind fun addresses =>
      (p.plan (addresses.map Entry.relative)).map fun ws => (p.add ws).countBy ws.length) = none := by
  cases o with
  | none => rfl
  | some rest =>
    show (p.plan ((first ++ rest).map Entry.relative)).map _ = none
    rw [List.map_append, plan_append, h]
    rfl

/-- When the first ones are planned, the others are planned behind them. -/
theorem plan_rest {first : List Nat} {vs : List Write} (h : p.plan (first.map Entry.relative) = some vs)
    (o : Option (List Nat)) : ((o.map (first ++ ·)).bind fun addresses =>
      (p.plan (addresses.map Entry.relative)).map fun ws => (p.add ws).countBy ws.length) =
        o.bind fun addresses => (((p.add vs).countBy vs.length).plan (addresses.map Entry.relative)).map
          fun ws => (((p.add vs).countBy vs.length).add ws).countBy ws.length := by
  cases o with
  | none => rfl
  | some rest =>
    show (p.plan ((first ++ rest).map Entry.relative)).map _ = _
    rw [List.map_append, plan_append, h]
    exact plan_behind vs _

/-- A relative address is planned on its own. -/
theorem addWrite_relative (address : Nat) (hcapacity : p.writes.length < p.capacity) :
    Computes (addWrite p address rRelative 0 0 true)
      ((p.plan ([address].map Entry.relative)).map fun ws => p.add ws) := by
  have h := @addWrite_computes p address rRelative 0 0 true (by decide) hcapacity
  rw [if_pos rfl] at h
  have hplan : (p.plan ([address].map Entry.relative)) =
      (Entry.write p.dynamic p.memory ⟨address, rRelative, 0, none⟩).map fun w => [w] := by
    show p.plan [Entry.relative address] = _
    rw [plan_cons]
    unfold Entry.relative
    cases Entry.write p.dynamic p.memory ⟨address, rRelative, 0, none⟩ <;> rfl
  rw [hplan, Option.map_map]
  exact h

/-- The loop over the bits of a word plans its addresses. -/
theorem relrBits_computes {entry cursor left bit : Nat} (hcapacity : p.writes.length + left ≤ p.capacity) :
    Computes (relrBits entry cursor left bit p)
      ((p.plan ((bitAddresses entry cursor left bit).map Entry.relative)).map
        fun ws => (p.add ws).countBy ws.length) := by
  induction left generalizing bit p with
  | zero =>
    show some ((p.add []).countBy 0) = some p
    rw [add_nil]
    rfl
  | succ left ih =>
    unfold relrBits
    rw [bitAddresses_succ]
    by_cases hbit : entry.testBit bit
    · rw [if_pos hbit, if_pos hbit]
      refine Computes.bind (addWrite_relative _ (by omega)) (fun h => ?_) fun q hq => ?_
      · exact plan_none (Option.map_eq_none_iff.1 h) (some _)
      · obtain ⟨ws, hws, rfl⟩ := Option.map_eq_some_iff.1 hq
        have hone : ws.length = 1 := plan_length hws
        have hlength : ((p.add ws).countBy 1).writes.length = p.writes.length + ws.length := List.length_append
        have hrest := @ih ((p.add ws).countBy 1) (bit + 1) (by
          show _ ≤ p.capacity
          omega)
        have heq := plan_rest hws (some (bitAddresses entry cursor left (bit + 1)))
        rw [hone] at heq
        rw [show (p.plan (([cursor + (bit - 1) * 8] ++ bitAddresses entry cursor left (bit + 1)).map
          Entry.relative)).map _ = _ from heq]
        exact hrest
    · rw [if_neg hbit, if_neg hbit, List.nil_append]
      exact ih (by omega)

/-- The loop over a RELR table plans its standard decoding. -/
theorem prepareRelr_computes {left place cursor : Nat} {hasAddress : Bool}
    (hcapacity : p.writes.length + left * 63 ≤ p.capacity)
    (hbytes : left = 0 ∨ place + left * 8 ≤ p.dynamic.bytes.length) :
    Computes (prepareRelr left place cursor hasAddress p)
      ((relrAddresses (if hasAddress then some cursor else none)
        (relrWords p.dynamic.bytes left place)).bind fun addresses =>
          (p.plan (addresses.map Entry.relative)).map fun ws => (p.add ws).countBy ws.length) := by
  induction left generalizing p place cursor hasAddress with
  | zero =>
    show some ((p.add []).countBy 0) = some p
    rw [add_nil]
    rfl
  | succ left ih =>
    unfold prepareRelr relrWords
    refine Computes.read (fetch_of_le (by omega)) ?_
    generalize Bytes.field p.dynamic.bytes place 8 = word
    unfold relrAddresses
    -- an even word is an address, an odd one a bitmap behind the last
    refine Computes.ite (fun heven => ?_) fun hodd => ?_
    · rw [if_pos heven]
      refine Computes.reject (fun h => by rw [if_pos h]; rfl) fun hfar => ?_
      rw [if_neg hfar]
      refine Computes.bind (addWrite_relative _ (by omega)) (fun h => ?_) fun q hq => ?_
      · exact plan_none (Option.map_eq_none_iff.1 h) _
      · obtain ⟨ws, hws, rfl⟩ := Option.map_eq_some_iff.1 hq
        have hone : ws.length = 1 := plan_length hws
        have hlength : (p.add ws).countRelr.writes.length = p.writes.length + ws.length := List.length_append
        rw [plan_rest hws, hone]
        refine ih ?_ ?_
        · show _ ≤ p.capacity
          rw [hlength]
          omega
        · show left = 0 ∨ _ ≤ p.dynamic.bytes.length
          omega
    · rw [if_neg hodd]
      cases hasAddress with
      | false => exact Computes.reject (fun _ => rfl) fun h => absurd (.inl rfl) h
      | true =>
        refine Computes.reject (fun h => ?_) fun h => ?_
        · show ((if uint64Max - 63 * 8 < cursor then none else _) : Option (List Nat)).bind _ = none
          rw [if_pos (h.resolve_left (by decide))]
          rfl
        have hnear : ¬ uint64Max - 63 * 8 < cursor := fun hlt => h (.inr hlt)
        show Computes _ (((if uint64Max - 63 * 8 < cursor then none else _) : Option (List Nat)).bind _)
        rw [if_neg hnear]
        refine Computes.bind (relrBits_computes (by omega)) (fun h => ?_) fun q hq => ?_
        · exact plan_none (Option.map_eq_none_iff.1 h) _
        · obtain ⟨ws, hws, rfl⟩ := Option.map_eq_some_iff.1 hq
          have hlength : ((p.add ws).countBy ws.length).writes.length = p.writes.length + ws.length :=
            List.length_append
          -- a bitmap writes at most 63 words, which the capacity allowed for
          have hbits : ws.length ≤ 63 := by
            rw [plan_length hws, List.length_map]
            exact length_bitAddresses _ _ _ _
          rw [plan_rest hws]
          refine @ih _ (place + 8) (cursor + 63 * 8) true ?_ ?_
          · show _ ≤ p.capacity
            rw [hlength]
            omega
          · show left = 0 ∨ _ ≤ p.dynamic.bytes.length
            omega

/-- The loop over a RELA table plans its entries. -/
theorem prepareRela_computes {left place count : Nat} (hcapacity : p.writes.length + left ≤ p.capacity)
    (hbytes : left = 0 ∨ place + left * 24 ≤ p.dynamic.bytes.length) :
    Computes (prepareRela left place p count)
      ((p.plan ((relaEntries p.dynamic.bytes left place).filter (·.type ≠ rNone))).map
        fun ws => (p.add ws, count + ws.length)) := by
  induction left generalizing p place count with
  | zero =>
    show some (p.add [], count + 0) = some (p, count)
    rw [add_nil]
    rfl
  | succ left ih =>
    unfold prepareRela relaEntries
    refine Computes.read (fetch_of_le (by omega)) ?_
    refine Computes.read (fetch_of_le (by omega)) ?_
    refine Computes.read (fetch_of_le (by omega)) ?_
    generalize Bytes.field p.dynamic.bytes place 8 = address
    generalize Bytes.field p.dynamic.bytes (place + 8) 8 = info
    generalize BitVec.ofNat 64 (Bytes.field p.dynamic.bytes (place + 16) 8) = addend
    dsimp only
    by_cases hnone : info % 2 ^ 32 = rNone
    · rw [List.filter_cons_of_neg (by simpa using hnone)]
      refine Computes.read (if_pos hnone) ?_
      rw [if_neg (not_not_intro hnone)]
      exact ih (by omega) (by omega)
    · rw [List.filter_cons_of_pos (by simpa using hnone), plan_cons]
      refine Computes.bind (addWrite_computes hnone (by omega)) (fun h => ?_) fun q hq => ?_
      · have hwrite := Option.map_eq_none_iff.1 h
        rw [if_neg (by decide)] at hwrite
        rw [hwrite]
        rfl
      · obtain ⟨w, hw, rfl⟩ := Option.map_eq_some_iff.1 hq
        rw [if_neg (by decide)] at hw
        have hlength : (p.add [w]).writes.length = p.writes.length + 1 := List.length_append
        rw [hw, if_pos hnone]
        have hrest := @ih (p.add [w]) (place + 24) (count + 1) (by
          show _ ≤ p.capacity
          omega) (by
          show left = 0 ∨ _ ≤ p.dynamic.bytes.length
          omega)
        have heq : ((p.plan ((relaEntries p.dynamic.bytes left (place + 24)).filter (·.type ≠ rNone))).map
            fun ws => w :: ws).map (fun ws => (p.add ws, count + ws.length)) =
          ((p.add [w]).plan ((relaEntries (p.add [w]).dynamic.bytes left (place + 24)).filter
            (·.type ≠ rNone))).map fun ws => ((p.add [w]).add ws, count + 1 + ws.length) := by
          rw [Option.map_map]
          refine congrArg (fun f => Option.map f (p.plan _)) (funext fun ws => ?_)
          unfold Preparation.add
          simp only [Function.comp_apply, List.length_cons, List.append_assoc, List.singleton_append,
            Nat.add_assoc, Nat.add_comm 1]
        rw [show ((some w).bind fun w => (p.plan _).map fun ws => w :: ws).map _ = _ from heq]
        exact hrest

end

/-- What the tables ask for, if the RELR table can be decoded. -/
def Dynamic.entries (d : Dynamic) : Option (List Entry) :=
  (relrAddresses none d.relrWords).map fun addresses =>
    addresses.map Entry.relative ++ (d.table d.rela ++ d.table d.pltRela)

/-- The statistics of its tables. -/
def Dynamic.stats (d : Dynamic) : Stats :=
  { relaCount := (d.table d.rela).length
    pltCount := (d.table d.pltRela).length
    relrCount := ((relrAddresses none d.relrWords).getD []).length }

/-- A table of a valid image is read inside it. -/
theorem Table.Viewed.inside {width : Nat} {t : Table} (h : t.Viewed image width) :
    t.size / width = 0 ∨ t.data.getD 0 + t.size / width * width ≤ image.data.bytes.length := by
  by_cases h0 : t.size = 0
  · left
    rw [h0, Nat.zero_div]
  · obtain ⟨p, hdata, hview⟩ := h.data h0
    have hlt := view_ok hview
    have hle := Nat.div_mul_le_self t.size width
    right
    rw [hdata]
    show p + _ ≤ _
    omega

theorem length_relaEntries (bytes : List UInt8) (left place : Nat) :
    (relaEntries bytes left place).length = left := by
  induction left generalizing place with
  | zero => rfl
  | succ left ih => exact congrArg (· + 1) (ih _)

/-- A word stands for at most 63 addresses. -/
theorem length_relrAddresses {words : List Nat} {cursor : Option Nat} {addresses : List Nat}
    (h : relrAddresses cursor words = some addresses) : addresses.length ≤ words.length * 63 := by
  induction words generalizing cursor addresses with
  | nil =>
    obtain rfl := Option.some.inj h
    exact Nat.le_refl _
  | cons word words ih =>
    unfold relrAddresses at h
    rw [List.length_cons]
    by_cases heven : word % 2 = 0
    · rw [if_pos heven] at h
      by_cases hfar : uint64Max - 8 < word
      · rw [if_pos hfar] at h
        cases h
      · rw [if_neg hfar] at h
        obtain ⟨rest, hrest, rfl⟩ := Option.map_eq_some_iff.1 h
        have hle := ih hrest
        rw [List.length_append]
        show 1 + _ ≤ _
        omega
    · rw [if_neg heven] at h
      cases cursor with
      | none => cases h
      | some cursor =>
        dsimp only at h
        by_cases hfar : uint64Max - 63 * 8 < cursor
        · rw [if_pos hfar] at h
          cases h
        · rw [if_neg hfar] at h
          obtain ⟨rest, hrest, rfl⟩ := Option.map_eq_some_iff.1 h
          have hle := ih hrest
          have hbits := length_bitAddresses word cursor 63 1
          rw [List.length_append]
          omega

theorem length_relrWords (bytes : List UInt8) (left place : Nat) :
    (relrWords bytes left place).length = left := by
  induction left generalizing place with
  | zero => rfl
  | succ left ih => exact congrArg (· + 1) (ih _)

/-- A table has no more entries than its size has room for. -/
theorem length_table (d : Dynamic) (t : Table) : (d.table t).length ≤ t.size / 24 :=
  (List.length_filter_le _ _).trans (by rw [length_relaEntries])

/-- The plan is what the entries ask for. -/
theorem prepare_computes (h : d.Valid) {capacity : Nat}
    (hcapacity : d.rela.size / 24 + d.pltRela.size / 24 + d.relr.size / 8 * 63 = capacity) :
    Computes (prepare d memory capacity)
      ((d.entries.bind fun es => es.mapM (Entry.write d memory)).map fun ws =>
        { dynamic := d, memory, capacity, writes := ws, stats := d.stats }) := by
  generalize hp₀ : ({ dynamic := d, memory, capacity } : Preparation) = p₀
  have hplan : ∀ es : List Entry, es.mapM (Entry.write d memory) = p₀.plan es := by
    intro es
    rw [← hp₀]
    rfl
  unfold prepare
  rw [hp₀]
  have hrelr := @prepareRelr_computes p₀ (d.relr.size / 8) (d.relr.data.getD 0) 0 false (by
    rw [← hp₀]
    show 0 + _ ≤ capacity
    omega) (by
    rw [← hp₀]
    exact h.relr.inside)
  have hwords : relrWords p₀.dynamic.bytes (d.relr.size / 8) (d.relr.data.getD 0) = d.relrWords := by
    rw [← hp₀]
    rfl
  rw [if_neg (by decide), hwords] at hrelr
  unfold Dynamic.entries Dynamic.stats
  cases hdecode : relrAddresses none d.relrWords with
  | none =>
    rw [hdecode] at hrelr
    exact Computes.bind hrelr (fun _ => rfl) fun p hp => absurd hp nofun
  | some addresses =>
    rw [hdecode] at hrelr
    have hcount := length_relrAddresses hdecode
    unfold Dynamic.relrWords at hcount
    rw [length_relrWords] at hcount
    show Computes _ (((addresses.map Entry.relative ++ _).mapM (Entry.write d memory)).map _)
    rw [hplan, plan_append, plan_append]
    refine Computes.bind hrelr (fun hnone => ?_) fun p hp => ?_
    · rw [Option.map_eq_none_iff.1 hnone]
      rfl
    obtain ⟨ws, hws, rfl⟩ := Option.map_eq_some_iff.1 hp
    have hlength := plan_length hws
    rw [List.length_map] at hlength
    rw [hws]
    -- the RELA table
    have hsum : (p₀.add ws).writes.length = ws.length := by
      rw [← hp₀]
      rfl
    have hrela := @prepareRela_computes ((p₀.add ws).countBy ws.length) (d.rela.size / 24)
      (d.rela.data.getD 0) 0 (by
        show (p₀.add ws).writes.length + _ ≤ p₀.capacity
        rw [hsum, ← hp₀]
        show _ ≤ capacity
        omega) (by
        rw [← hp₀]
        exact h.rela.inside)
    have htable : (relaEntries ((p₀.add ws).countBy ws.length).dynamic.bytes (d.rela.size / 24)
        (d.rela.data.getD 0)).filter (·.type ≠ rNone) = d.table d.rela := by
      rw [← hp₀]
      rfl
    rw [htable] at hrela
    refine Computes.bind hrela (fun hnone => ?_) fun r hr => ?_
    · have hfail : p₀.plan (d.table d.rela) = none := Option.map_eq_none_iff.1 hnone
      rw [hfail]
      rfl
    obtain ⟨vs, hvs, rfl⟩ := Option.map_eq_some_iff.1 hr
    change p₀.plan (d.table d.rela) = some vs at hvs
    have hrelaLength := plan_length hvs
    have hrelaLe := length_table d d.rela
    rw [hvs]
    -- the PLT's table
    generalize hp₁ : ({ ((p₀.add ws).countBy ws.length).add vs with
      stats := { (((p₀.add ws).countBy ws.length).add vs).stats with relaCount := 0 + vs.length } } :
        Preparation) = p₁
    have hmemory : p₁.dynamic = p₀.dynamic ∧ p₁.memory = p₀.memory ∧ p₁.capacity = p₀.capacity := by
      rw [← hp₁]
      exact ⟨rfl, rfl, rfl⟩
    have hwrites : p₁.writes = ws ++ vs := by
      rw [← hp₁, ← hp₀]
      rfl
    have hplt := @prepareRela_computes p₁ (d.pltRela.size / 24) (d.pltRela.data.getD 0) 0 (by
        rw [hwrites, List.length_append, hmemory.2.2, ← hp₀]
        show _ ≤ capacity
        omega) (by
        rw [hmemory.1, ← hp₀]
        exact h.pltRela.inside)
    have hsame : p₁.plan = p₀.plan := by
      unfold Preparation.plan
      rw [hmemory.1, hmemory.2.1]
    have htable : (relaEntries p₁.dynamic.bytes (d.pltRela.size / 24)
        (d.pltRela.data.getD 0)).filter (·.type ≠ rNone) = d.table d.pltRela := by
      rw [hmemory.1, ← hp₀]
      rfl
    rw [htable, hsame] at hplt
    subst hp₁
    refine Computes.bind hplt (fun hnone => ?_) fun r hr => ?_
    · rw [Option.map_eq_none_iff.1 hnone]
      rfl
    obtain ⟨us, hus, rfl⟩ := Option.map_eq_some_iff.1 hr
    have hpltLength := plan_length hus
    rw [hus]
    show some _ = some _
    refine congrArg some ?_
    rw [← hp₀, ← hrelaLength, ← hpltLength]
    simp only [Preparation.countBy, Preparation.add, List.append_assoc, List.nil_append, Nat.zero_add,
      Option.getD_some, hlength]

end Artbox.Elf
