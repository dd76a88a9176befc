import Artbox.Lib.Checked
import Artbox.Binder.Wire

/-!
# Object tables

Which object tables `validateObjects` accepts, and what it says of the others. A table is
judged entry by entry against the end of the object before (`Complete`), and the first bad
entry decides the error: `unknown` if everything before its type is in order (`Untyped`).
`validateObjectsChecked` is the same loop with every read checked against its buffer; it
computes the same.
-/

namespace Artbox.Binder

open Bytes

/-! ## What is asked of a table -/

/-- The entry is aligned, not inside the object before, and leaves room for a type. -/
def Reaches (data : List UInt8) (last offset : Nat) : Prop :=
  offset % 4 = 0 ∧ last ≤ offset ∧ offset + 4 ≤ data.length

/-- Every entry names a whole object of a known type behind the object before. -/
def Complete (data : List UInt8) : (last : Nat) → List Nat → Prop
  | _, [] => True
  | last, offset :: rest => Reaches data last offset ∧
      ∃ type, ObjectType.ofWord (read32 data offset) = some type ∧
        offset + type.length ≤ data.length ∧ Complete data (offset + type.length) rest

/-- The first bad entry is bad by its type, and by nothing that comes before that. -/
def Untyped (data : List UInt8) : (last : Nat) → List Nat → Prop
  | _, [] => False
  | last, offset :: rest => Reaches data last offset ∧
      (ObjectType.ofWord (read32 data offset) = none ∨
        ∃ type, ObjectType.ofWord (read32 data offset) = some type ∧
          offset + type.length ≤ data.length ∧ Untyped data (offset + type.length) rest)

/-! ## The loop -/

theorem Reaches.iff_not {data : List UInt8} {last offset : Nat} :
    Reaches data last offset ↔ ¬ (data.length < offset ∨ offset % 4 ≠ 0 ∨ offset < last) ∧
      ¬ data.length - offset < 4 := by
  unfold Reaches
  omega

theorem validateFrom_ok {data : List UInt8} {entries : List Nat} {last : Nat} :
    validateFrom data last entries = .ok () ↔ Complete data last entries := by
  induction entries generalizing last with
  | nil => exact iff_of_true rfl trivial
  | cons offset rest ih =>
    unfold validateFrom Complete
    rw [Reaches.iff_not]
    split
    next h => exact iff_of_false (by simp) fun hc => hc.1.1 h
    next h =>
      split
      next h' => exact iff_of_false (by simp) fun hc => hc.1.2 h'
      next h' =>
        split
        next hnone =>
          refine iff_of_false (by simp) ?_
          rintro ⟨_, type, htype, _⟩
          rw [hnone] at htype
          cases htype
        next type htype =>
          split
          next hlong =>
            refine iff_of_false (by simp) ?_
            rintro ⟨_, type', htype', hfit, _⟩
            rw [htype] at htype'
            cases htype'
            omega
          next hfit =>
            rw [ih]
            constructor
            · intro hrest
              exact ⟨⟨h, h'⟩, type, htype, by omega, hrest⟩
            · rintro ⟨_, type', htype', _, hrest⟩
              rw [htype] at htype'
              cases htype'
              exact hrest

theorem validateFrom_unknown {data : List UInt8} {entries : List Nat} {last : Nat} :
    validateFrom data last entries = .error .unknown ↔ Untyped data last entries := by
  induction entries generalizing last with
  | nil => exact iff_of_false (by simp [validateFrom]) id
  | cons offset rest ih =>
    unfold validateFrom Untyped
    rw [Reaches.iff_not]
    split
    next h => exact iff_of_false (by simp) fun hc => hc.1.1 h
    next h =>
      split
      next h' => exact iff_of_false (by simp) fun hc => hc.1.2 h'
      next h' =>
        split
        next hnone => exact iff_of_true rfl ⟨⟨h, h'⟩, .inl hnone⟩
        next type htype =>
          have hsome : ∀ {p : ObjectType → Prop},
              (ObjectType.ofWord (read32 data offset) = none ∨
                ∃ type, ObjectType.ofWord (read32 data offset) = some type ∧ p type) → p type := by
            rintro p (hnone | ⟨type', htype', hp⟩)
            · rw [htype] at hnone
              cases hnone
            · rw [htype] at htype'
              cases htype'
              exact hp
          split
          next hlong =>
            refine iff_of_false (by simp) fun hc => ?_
            have hfit := (hsome hc.2).1
            omega
          next hfit =>
            rw [ih]
            constructor
            · intro hrest
              exact ⟨⟨h, h'⟩, .inr ⟨type, htype, by omega, hrest⟩⟩
            · intro hc
              exact (hsome hc.2).2

/-- The loop has no other errors. -/
theorem validateFrom_error {data : List UInt8} {entries : List Nat} {last : Nat} {e : WireError}
    (h : validateFrom data last entries = .error e) : e = .unknown ∨ e = .invalid := by
  induction entries generalizing last with
  | nil => cases h
  | cons offset rest ih =>
    unfold validateFrom at h
    split at h
    · cases h
      exact .inr rfl
    · split at h
      · cases h
        exact .inr rfl
      · split at h
        · cases h
          exact .inl rfl
        · split at h
          · cases h
            exact .inr rfl
          · exact ih h

/-! ## Checked reads -/

/-- The loop of `artbox_binder_validate_objects` over the table's bytes from `i` on, every
read checked. -/
def validateLoop (data offsets : List UInt8) : (left i last : Nat) → Checked WireError Unit
  | 0, _, _ => .ok ()
  | left + 1, i, last => do
    let offset ← Checked.fetch offsets i 8
    Checked.reject (data.length < offset ∨ offset % 4 ≠ 0 ∨ offset < last) .invalid
    Checked.reject (data.length - offset < 4) .invalid
    let word ← Checked.fetch data offset 4
    match ObjectType.ofWord word with
    | none => Checked.fail .unknown
    | some type => do
      Checked.reject (data.length - offset < type.length) .invalid
      validateLoop data offsets left (i + 8) (offset + type.length)

/-- `artbox_binder_validate_objects`, every read checked. -/
def validateObjectsChecked (data offsets : List UInt8) : Checked WireError Nat := do
  Checked.reject (offsets.length % 8 ≠ 0) .invalid
  validateLoop data offsets (offsets.length / 8) 0 0
  pure (offsets.length / 8)

theorem validateLoop_eq {data offsets : List UInt8} (left k last : Nat)
    (h : 8 * (k + left) ≤ offsets.length) :
    validateLoop data offsets left (8 * k) last =
      Checked.lift (validateFrom data last ((List.range' k left).map fun i => read64 offsets (8 * i))) := by
  induction left generalizing k last with
  | zero => rfl
  | succ left ih =>
    rw [List.range'_succ, List.map_cons]
    unfold validateLoop validateFrom
    rw [Checked.fetch_of_le (by omega)]
    -- the checks stand in the same order in both
    by_cases hplace : data.length < read64 offsets (8 * k) ∨ read64 offsets (8 * k) % 4 ≠ 0 ∨
        read64 offsets (8 * k) < last
    · rw [if_pos hplace]
      show Checked.reject _ _ >>= _ = _
      rw [Checked.reject_pos hplace]
      rfl
    rw [if_neg hplace]
    by_cases hroom : data.length - read64 offsets (8 * k) < 4
    · rw [if_pos hroom]
      show Checked.reject _ _ >>= _ = _
      rw [Checked.reject_neg hplace]
      show Checked.reject _ _ >>= _ = _
      rw [Checked.reject_pos hroom]
      rfl
    rw [if_neg hroom]
    show Checked.reject _ _ >>= _ = _
    rw [Checked.reject_neg hplace]
    show Checked.reject _ _ >>= _ = _
    rw [Checked.reject_neg hroom]
    show Checked.fetch data (read64 offsets (8 * k)) 4 >>= _ = _
    rw [Checked.fetch_of_le (by omega)]
    show (match ObjectType.ofWord (read32 data (read64 offsets (8 * k))) with
      | none => _
      | some type => _) = _
    cases ObjectType.ofWord (read32 data (read64 offsets (8 * k))) with
    | none => rfl
    | some type =>
      dsimp only
      by_cases hfit : data.length - read64 offsets (8 * k) < type.length
      · rw [if_pos hfit, Checked.reject_pos hfit]
        rfl
      · rw [if_neg hfit, Checked.reject_neg hfit]
        exact ih (k + 1) _ (by omega)

theorem validateObjectsChecked_eq (data offsets : List UInt8) :
    validateObjectsChecked data offsets = Checked.lift (validateObjects data offsets) := by
  unfold validateObjectsChecked validateObjects Checked.reject
  split
  · rfl
  next hmod =>
    have hloop := @validateLoop_eq data offsets (offsets.length / 8) 0 0 (by omega)
    show validateLoop data offsets (offsets.length / 8) (8 * 0) 0 >>= _ = _
    rw [hloop, ← List.range_eq_range', ← offsetTable]
    cases validateFrom data 0 (offsetTable offsets) with
    | ok u => rfl
    | error e => rfl

/-! ## The whole check -/

/-- The check accepts the complete tables and counts their entries, says `unknown` of those
whose first bad entry has a type it does not know, `invalid` of the others, and reads only
inside its two buffers. -/
theorem validateObjects_exact (data offsets : List UInt8) :
    (∀ n, validateObjects data offsets = .ok n ↔ offsets.length % 8 = 0 ∧
      Complete data 0 (offsetTable offsets) ∧ n = (offsetTable offsets).length) ∧
    (validateObjects data offsets = .error .unknown ↔ offsets.length % 8 = 0 ∧
      Untyped data 0 (offsetTable offsets)) ∧
    (validateObjects data offsets = .error .invalid ↔ offsets.length % 8 ≠ 0 ∨
      (¬ Complete data 0 (offsetTable offsets) ∧ ¬ Untyped data 0 (offsetTable offsets))) ∧
    validateObjectsChecked data offsets = Checked.lift (validateObjects data offsets) := by
  have hlength : (offsetTable offsets).length = offsets.length / 8 := by
    rw [offsetTable, List.length_map, List.length_range]
  rw [← validateFrom_ok, ← validateFrom_unknown]
  refine ⟨fun n => ?_, ?_, ?_, validateObjectsChecked_eq data offsets⟩ <;>
    unfold validateObjects <;> by_cases hmod : offsets.length % 8 = 0
  · rw [if_neg (not_not.2 hmod), hlength]
    cases validateFrom data 0 (offsetTable offsets) with
    | ok u =>
      constructor
      · intro h
        exact ⟨hmod, rfl, (Except.ok.inj h).symm⟩
      · rintro ⟨_, _, rfl⟩
        rfl
    | error e => exact iff_of_false (by simp [Except.map]) fun h => by cases h.2.1
  · rw [if_pos hmod]
    exact iff_of_false (by simp) fun h => hmod h.1
  · rw [if_neg (not_not.2 hmod)]
    cases validateFrom data 0 (offsetTable offsets) with
    | ok u => exact iff_of_false (by simp [Except.map]) fun h => by cases h.2
    | error e => simp [Except.map, hmod]
  · rw [if_pos hmod]
    exact iff_of_false (by simp) fun h => hmod h.1
  · rw [if_neg (not_not.2 hmod)]
    cases hv : validateFrom data 0 (offsetTable offsets) with
    | ok u => simp [Except.map, hmod]
    | error e =>
      rcases validateFrom_error hv with rfl | rfl <;> simp [Except.map, hmod]
  · rw [if_pos hmod]
    exact iff_of_true rfl (.inl hmod)

-- an object of an unknown type behind a complete one
example : validateObjects (writeLE 4 ObjectType.binder.word ++ List.replicate 24 0)
    (writeLE 8 0 ++ writeLE 8 24) = .error .unknown := by decide +kernel

end Artbox.Binder
