import Mathlib.Algebra.Order.Group.Multiset
import Mathlib.Data.Multiset.Filter

/-!
# What is taken and given back

A history of calls, the latest first, in which some calls take a thing of a host and some give one
back. `Holds A log hand` says that what was taken is what was given back and what is in hand: nothing
was forgotten, and nothing was given back that was not taken before. A program's invariant says what
is in hand by its state, and a call extends it by one of the three rules `Holds.quiet`, `Holds.take`
and `Holds.give`.
-/

/-- Which calls take a thing, and which give one back. -/
structure Holdings (ε ρ : Type*) where
  takes : ε → Option ρ
  gives : ε → Option ρ

namespace Holdings

variable {ε ρ : Type*} {A : Holdings ε ρ} {log : List ε} {hand : Multiset ρ} {e : ε} {k : ρ}

/-- What was taken. -/
def taken (A : Holdings ε ρ) (log : List ε) : Multiset ρ := ↑(log.filterMap A.takes)

/-- What was given back. -/
def given (A : Holdings ε ρ) (log : List ε) : Multiset ρ := ↑(log.filterMap A.gives)

/-- What was taken is what was given back and what is in hand. -/
def Holds (A : Holdings ε ρ) (log : List ε) (hand : Multiset ρ) : Prop := A.taken log = A.given log + hand

/-- A call that neither takes nor gives back. -/
theorem Holds.quiet (h : A.Holds log hand) (ht : A.takes e = none) (hg : A.gives e = none) :
    A.Holds (e :: log) hand := by
  unfold Holds taken given at h ⊢
  rw [List.filterMap_cons_none ht, List.filterMap_cons_none hg]
  exact h

theorem Holds.quiets {l : List ε} (h : A.Holds log hand) (hl : ∀ e ∈ l, A.takes e = none ∧ A.gives e = none) :
    A.Holds (l ++ log) hand := by
  induction l with
  | nil => exact h
  | cons e l ih =>
    have he := hl e List.mem_cons_self
    exact (ih fun x hx => hl x (List.mem_cons_of_mem e hx)).quiet he.1 he.2

/-- A call that takes a thing. -/
theorem Holds.take (h : A.Holds log hand) (ht : A.takes e = some k) (hg : A.gives e = none) :
    A.Holds (e :: log) (k ::ₘ hand) := by
  unfold Holds taken given at h ⊢
  rw [List.filterMap_cons_some ht, List.filterMap_cons_none hg, ← Multiset.cons_coe, h, Multiset.add_cons]

/-- A call that gives a thing back. -/
theorem Holds.give (h : A.Holds log (k ::ₘ hand)) (ht : A.takes e = none) (hg : A.gives e = some k) :
    A.Holds (e :: log) hand := by
  unfold Holds taken given at h ⊢
  rw [List.filterMap_cons_none ht, List.filterMap_cons_some hg, ← Multiset.cons_coe, h, Multiset.add_cons,
    Multiset.cons_add]

/-- What is in hand was taken, and not given back since. -/
theorem Holds.hand_eq [DecidableEq ρ] (h : A.Holds log hand) : hand = A.taken log - A.given log := by
  rw [h, add_tsub_cancel_left]

end Holdings
