import Artbox.Lib.Bytes

/-!
# Computations that check their reads

A parser written over `Checked ε` stops in one of two ways besides returning: with an
error of its own, or `wrong`, at a read outside its input. `Safe x P` says that `x` does not
go wrong and that what it returns satisfies `P`. There is one rule for each way a
computation is put together, so the proof that a parser never goes wrong has the parser's
shape.
-/

namespace Checked

universe u v

/-- How a computation ends that returns nothing. -/
inductive Stop (ε : Type u)
  | error (e : ε)
  /-- It read outside its input. -/
  | wrong
deriving DecidableEq, Repr

end Checked

/-- A computation that may fail, and that may go wrong. -/
abbrev Checked (ε : Type u) (α : Type v) := Except (Checked.Stop ε) α

namespace Checked

variable {ε α β σ : Type}

/-- Stop with an error. -/
def fail (e : ε) : Checked ε α := .error (.error e)

/-- Stop with an error if `c` holds. -/
def reject (c : Prop) [Decidable c] (e : ε) : Checked ε Unit := if c then fail e else .ok ()

/-- A computation that reads nothing. -/
def lift : Except ε α → Checked ε α
  | .ok a => .ok a
  | .error e => fail e

/-- What must be there. -/
def require (o : Option α) (e : ε) : Checked ε α :=
  match o with
  | some a => .ok a
  | none => fail e

/-- What a computation returns, if it does. -/
def attempt : Checked ε α → Checked ε (Option α)
  | .ok a => .ok (some a)
  | .error (.error _) => .ok none
  | .error .wrong => .error .wrong

/-- The `n`-byte number at offset `i` of `bs`. -/
def fetch (bs : List UInt8) (i n : Nat) : Checked ε Nat :=
  if i + n ≤ bs.length then .ok (Bytes.field bs i n) else .error .wrong

/-- The `n` bytes at offset `i` of `bs`. -/
def slice (bs : List UInt8) (i n : Nat) : Checked ε (List UInt8) :=
  if i + n ≤ bs.length then .ok ((bs.drop i).take n) else .error .wrong

/-- What must hold for the computation not to go wrong. -/
def within (c : Prop) [Decidable c] : Checked ε Unit := if c then .ok () else .error .wrong

/-- The computation does not go wrong, and what it returns satisfies `P`. -/
def Safe (x : Checked ε α) (P : α → Prop) : Prop :=
  match x with
  | .ok a => P a
  | .error (.error _) => True
  | .error .wrong => False

/-! ## Rules -/

/-- A computation that returns is safe if what it returns is. -/
theorem Safe.ok {P : α → Prop} {a : α} (h : P a) : Safe (.ok a : Checked ε α) P := h

/-- A computation that returns is safe if what it returns is. -/
theorem Safe.pure {P : α → Prop} {a : α} (h : P a) : Safe (Pure.pure a : Checked ε α) P := h

/-- An error of the computation's own is safe. -/
theorem Safe.fail {P : α → Prop} (e : ε) : Safe (Checked.fail e : Checked ε α) P := trivial

/-- Two parts are safe together if the second is so for all that the first returns. -/
theorem Safe.bind {x : Checked ε α} {f : α → Checked ε β} {P : α → Prop} {Q : β → Prop}
    (hx : Safe x P) (hf : ∀ a, P a → Safe (f a) Q) : Safe (x >>= f) Q := by
  cases x with
  | ok a => exact hf a hx
  | error s =>
    cases s with
    | error e => trivial
    | wrong => exact hx

/-- What is safe for a property is safe for a weaker one. -/
theorem Safe.mono {x : Checked ε α} {P Q : α → Prop} (hx : Safe x P) (h : ∀ a, P a → Q a) :
    Safe x Q := by
  cases x with
  | ok a => exact h a hx
  | error s =>
    cases s with
    | error e => trivial
    | wrong => exact hx

/-- What is returned is what the computation returns. -/
theorem Safe.self {x : Checked ε α} {P : α → Prop} (h : Safe x P) : Safe x fun a => x = .ok a := by
  cases x with
  | ok a => rfl
  | error s =>
    cases s with
    | error e => trivial
    | wrong => exact h

/-- Behind a check its negation holds. -/
theorem Safe.reject {c : Prop} [Decidable c] {e : ε} : Safe (reject c e) fun _ => ¬ c := by
  unfold Checked.reject
  split
  · exact Safe.fail e
  next h => exact h

/-- A number inside of the input is read safely. -/
theorem Safe.fetch {bs : List UInt8} {i n : Nat} (h : i + n ≤ bs.length) :
    Safe (fetch bs i n : Checked ε Nat) fun v => v = Bytes.field bs i n := by
  unfold Checked.fetch
  rw [if_pos h]
  exact rfl

/-- Bytes inside of the input are read safely. -/
theorem Safe.slice {bs : List UInt8} {i n : Nat} (h : i + n ≤ bs.length) :
    Safe (slice bs i n : Checked ε (List UInt8)) fun l => l = (bs.drop i).take n := by
  unfold Checked.slice
  rw [if_pos h]
  exact rfl

/-- What must hold and holds is safe. -/
theorem Safe.within {c : Prop} [Decidable c] (h : c) : Safe (within c : Checked ε Unit) fun _ => True := by
  unfold Checked.within
  rw [if_pos h]
  exact trivial

/-- A computation that reads nothing is safe. -/
theorem Safe.lift {x : Except ε α} {P : α → Prop} (h : ∀ a, x = .ok a → P a) :
    Safe (lift x) P := by
  cases x with
  | ok a => exact h a rfl
  | error e => trivial

/-- What must be there is safe, as its lack is an error. -/
theorem Safe.require {o : Option α} {e : ε} {P : α → Prop} (h : ∀ a, o = some a → P a) :
    Safe (require o e) P := by
  cases o with
  | some a => exact h a rfl
  | none => trivial

/-- An attempt is safe if the computation is, and knows what it returned. -/
theorem Safe.attempt {x : Checked ε α} {P : α → Prop} (h : Safe x P) :
    Safe (attempt x) fun o => ∀ a, o = some a → x = .ok a ∧ P a := by
  cases x with
  | ok a =>
    intro a' ha
    cases ha
    exact ⟨rfl, h⟩
  | error s =>
    cases s with
    | error e => exact nofun
    | wrong => exact h

/-- A choice is safe if both ways are. -/
theorem Safe.ite {c : Prop} [Decidable c] {x y : Checked ε α} {P : α → Prop} (hx : c → Safe x P)
    (hy : ¬ c → Safe y P) : Safe (if c then x else y) P := by
  split
  next h => exact hx h
  next h => exact hy h

/-! ## Conclusions -/

/-- What is safe does not go wrong. -/
theorem Safe.not_wrong {x : Checked ε α} {P : α → Prop} (h : Safe x P) : x ≠ .error .wrong := by
  rintro rfl
  exact h

/-- What a safe computation returns has the property. -/
theorem Safe.of_ok {x : Checked ε α} {P : α → Prop} (h : Safe x P) {a : α} (hx : x = .ok a) : P a := by
  subst hx
  exact h

/-- Two parts return something if both do. -/
theorem bind_eq_ok {x : Checked ε α} {f : α → Checked ε β} {b : β} :
    x >>= f = .ok b ↔ ∃ a, x = .ok a ∧ f a = .ok b := by
  cases x with
  | ok a =>
    constructor
    · intro h
      exact ⟨a, rfl, h⟩
    · rintro ⟨a', ha, h⟩
      obtain rfl : a = a' := Except.ok.inj ha
      exact h
  | error s =>
    constructor
    · intro h
      cases h
    · rintro ⟨a', ha, _⟩
      cases ha

/-- A number inside of the input is read. -/
theorem fetch_of_le {bs : List UInt8} {i n : Nat} (h : i + n ≤ bs.length) :
    (fetch bs i n : Checked ε Nat) = .ok (Bytes.field bs i n) := if_pos h

/-- A check whose condition holds fails. -/
theorem reject_pos {c : Prop} [Decidable c] {e : ε} (h : c) : reject c e = fail e := if_pos h

/-- A check whose condition does not hold passes. -/
theorem reject_neg {c : Prop} [Decidable c] {e : ε} (h : ¬ c) : reject c e = .ok () := if_neg h

/-- A check passes just if its condition does not hold. -/
theorem reject_eq_ok {c : Prop} [Decidable c] {e : ε} {u : Unit} : reject c e = .ok u ↔ ¬ c := by
  by_cases h : c
  · rw [reject_pos h]
    exact ⟨nofun, fun hn => absurd h hn⟩
  · rw [reject_neg h]
    exact ⟨fun _ => h, fun _ => rfl⟩

/-- A computation returned something if it is no error. -/
theorem toOption_eq_some {x : Checked ε α} {a : α} : x.toOption = some a ↔ x = .ok a := by
  cases x with
  | ok b => exact ⟨fun h => congrArg _ (Option.some.inj h), fun h => congrArg _ (Except.ok.inj h)⟩
  | error s => exact ⟨nofun, nofun⟩

/-- A lifted computation returns what the computation does. -/
theorem lift_eq_ok {x : Except ε α} {a : α} : lift x = .ok a ↔ x = .ok a := by
  cases x with
  | ok b => exact ⟨fun h => congrArg _ (Except.ok.inj h), fun h => congrArg _ (Except.ok.inj h)⟩
  | error e => exact ⟨nofun, nofun⟩

/-- Equivalent conditions are checked alike. -/
theorem reject_congr {c c' : Prop} [Decidable c] [Decidable c'] {e : ε} (h : c ↔ c') :
    reject c e = reject c' e := by
  by_cases hc : c
  · rw [reject_pos hc, reject_pos (h.1 hc)]
  · rw [reject_neg hc, reject_neg fun hc' => hc (h.2 hc')]

/-! ## Exact results -/

/-- The computation returns what `o` has; if that is nothing, it fails with an error of its own. -/
def Computes (x : Checked ε α) (o : Option α) : Prop :=
  match x with
  | .ok a => o = some a
  | .error (.error _) => o = none
  | .error .wrong => False

/-- A computation that returns computes that. -/
theorem Computes.ok {a : α} : Computes (.ok a : Checked ε α) (some a) := rfl

/-- A computation that fails computes nothing. -/
theorem Computes.fail {e : ε} : Computes (Checked.fail e : Checked ε α) none := rfl

/-- A computation with two parts returns nothing if the first does not. -/
theorem Computes.bind {x : Checked ε α} {f : α → Checked ε β} {p : Option α} {o : Option β}
    (hx : Computes x p) (hnone : p = none → o = none) (hf : ∀ a, p = some a → Computes (f a) o) :
    Computes (x >>= f) o := by
  cases x with
  | ok a => exact hf a hx
  | error s =>
    cases s with
    | error e => exact hnone hx
    | wrong => exact hx.elim

/-- What is read does not decide whether something is returned. -/
theorem Computes.read {x : Checked ε α} {f : α → Checked ε β} {a : α} {o : Option β} (hx : x = .ok a)
    (hf : Computes (f a) o) : Computes (x >>= f) o := by
  rw [hx]
  exact hf

/-- Behind a check that passes the rest decides, and one that fails computes nothing. -/
theorem Computes.reject {c : Prop} [Decidable c] {e : ε} {f : Unit → Checked ε β} {o : Option β}
    (hpos : c → o = none) (hneg : ¬ c → Computes (f ()) o) : Computes (reject c e >>= f) o := by
  unfold Checked.reject
  split
  next h => exact hpos h
  next h => exact hneg h

/-- What must be there is computed. -/
theorem Computes.require {p : Option α} {e : ε} : Computes (require p e) p := by
  cases p <;> rfl

/-- A choice computes what both ways compute. -/
theorem Computes.ite {c : Prop} [Decidable c] {x y : Checked ε α} {o : Option α}
    (hx : c → Computes x o) (hy : ¬ c → Computes y o) : Computes (if c then x else y) o := by
  split
  next h => exact hx h
  next h => exact hy h

/-- What computes something is safe and returns it. -/
theorem Computes.safe {x : Checked ε α} {o : Option α} (h : Computes x o) : Safe x fun a => o = some a := by
  cases x with
  | ok a => exact h
  | error s =>
    cases s with
    | error e => trivial
    | wrong => exact h

/-- What computes something does not go wrong. -/
theorem Computes.not_wrong {x : Checked ε α} {o : Option α} (h : Computes x o) : x ≠ .error .wrong := by
  rintro rfl
  exact h

/-- What is computed is what is returned. -/
theorem Computes.ok_iff {x : Checked ε α} {o : Option α} (h : Computes x o) {a : α} :
    x = .ok a ↔ o = some a := by
  cases x with
  | ok b =>
    have hb : o = some b := h
    rw [hb]
    simp
  | error s =>
    cases s with
    | error e =>
      have hb : o = none := h
      rw [hb]
      simp
    | wrong => exact h.elim

end Checked
