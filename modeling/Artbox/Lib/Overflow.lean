import Mathlib.Data.Nat.Basic
import Mathlib.Algebra.Order.Ring.Int

/-!
# Arithmetic that notices overflow

Machine arithmetic in which a result that does not fit is no result. A computation
transcribed with these operations returns something exactly if none of its steps
overflows, and then it returns what the same steps give on unbounded numbers.
-/

namespace Overflow

/-! ## Unsigned 64-bit -/

/-- `a + b`. -/
def add64 (a b : Nat) : Option Nat := if a + b < 2 ^ 64 then some (a + b) else none

/-- `a - b`. -/
def sub64 (a b : Nat) : Option Nat := if b ≤ a then some (a - b) else none

theorem add64_eq {a b : Nat} (h : a + b < 2 ^ 64) : add64 a b = some (a + b) := if_pos h

theorem sub64_eq {a b : Nat} (h : b ≤ a) : sub64 a b = some (a - b) := if_pos h

/-! ## Signed 64-bit -/

/-- The value fits a signed 64-bit word. -/
def Fits (a : Int) : Prop := -2 ^ 63 ≤ a ∧ a < 2 ^ 63

instance (a : Int) : Decidable (Fits a) := inferInstanceAs (Decidable (_ ∧ _))

/-- The result of a signed operation. -/
def signed (a : Int) : Option Int := if Fits a then some a else none

theorem signed_eq {a : Int} (h : -2 ^ 63 ≤ a ∧ a < 2 ^ 63) : signed a = some a := if_pos h

end Overflow
