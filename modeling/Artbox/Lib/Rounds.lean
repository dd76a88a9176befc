import Mathlib.Data.List.Rotate
import Mathlib.Data.List.Sublists
import Mathlib.Tactic.Common

/-!
# Round robin

A ring is a list with a position; the walk from the position is a rotation of the list
(`List.rotate`). Elements stay where they are when the walk steps over them, and what is behind
an element comes next when it is erased (`step_around`). Serving the first few that wait and
putting them behind the others serves everyone within as many turns as it takes to go round once
(`sublist_served`).
-/

namespace Rounds

variable {α : Type*}

/-- A step of a walk: over an element, or with the element erased. -/
theorem step_around {l : List α} {k : Nat} {x : α} (h : l[k]? = some x) :
    ∃ rest, l.rotate k = x :: rest ∧ l.rotate (k + 1) = rest ++ [x] ∧ (l.eraseIdx k).rotate k = rest := by
  obtain ⟨hlt, rfl⟩ := List.getElem?_eq_some_iff.1 h
  refine ⟨l.drop (k + 1) ++ l.take k, ?_, ?_, ?_⟩
  · rw [List.rotate_eq_drop_append_take (Nat.le_of_lt hlt), ← List.cons_getElem_drop_succ (h := hlt)]
    rfl
  · rw [List.rotate_eq_drop_append_take hlt, List.take_add_one, h]
    simp
  · have hlen : (l.take k).length = k := List.length_take_of_le (Nat.le_of_lt hlt)
    have hrotate := List.rotate_append_length_eq (l.take k) (l.drop (k + 1))
    rwa [hlen, ← List.eraseIdx_eq_take_drop_succ] at hrotate

/-- What so many turns serve, each the first `width` that wait. -/
def served (width : Nat) : (turns : Nat) → List α → List α
  | 0, _ => []
  | turns + 1, l => l.take width ++ served width turns (l.drop width ++ l.take width)

/-- Who is among the first is served in time, whoever waits behind. -/
theorem sublist_served {width turns : Nat} {l : List α} (behind : List α) (h : l.length ≤ turns * width) :
    l.Sublist (served width turns (l ++ behind)) := by
  induction turns generalizing l behind with
  | zero =>
    rw [Nat.zero_mul] at h
    rw [List.eq_nil_of_length_eq_zero (Nat.le_zero.1 h)]
    exact List.nil_sublist _
  | succ turns ih =>
    unfold served
    rcases Nat.le_total l.length width with hall | hmore
    · -- the first turn serves all
      rw [List.take_append, List.take_of_length_le hall, List.append_assoc]
      exact List.sublist_append_left _ _
    · rw [List.take_append_of_le_length hmore, List.drop_append_of_le_length hmore, List.append_assoc]
      have hrest : (l.drop width).length ≤ turns * width := by
        rw [List.length_drop]
        rw [Nat.succ_mul] at h
        omega
      have hsub := (List.Sublist.refl (l.take width)).append (ih (behind ++ l.take width) hrest)
      rwa [List.take_append_drop] at hsub

end Rounds
