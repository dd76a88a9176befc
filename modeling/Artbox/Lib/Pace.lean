import Mathlib.Algebra.BigOperators.Group.Finset.Basic
import Mathlib.Data.Nat.Basic
import Mathlib.Order.Monotone.Basic

/-!
# A machine at the pace of another

Two deterministic machines, each of which may get stuck. Where one step of the first is one or more of
the second, `paced` follows the first machine as long as its steps are in scope: after any number of its
steps the second machine, after a number of steps that grows with it, is in a related state.
-/

namespace Pace

variable {σ τ : Type}

/-- Any number of steps, the machine not getting stuck. -/
def run (f : σ → Option σ) : Nat → σ → Option σ
  | 0, s => some s
  | n + 1, s => (f s).bind (run f n)

variable {f : σ → Option σ} {g : τ → Option τ}

@[simp] theorem run_zero {s : σ} : run f 0 s = some s := rfl

theorem run_succ {n : Nat} {s s' : σ} (h : f s = some s') : run f (n + 1) s = run f n s' := by
  rw [run, h, Option.bind_some]

theorem run_one {s : σ} : run f 1 s = f s := by
  rw [run]
  cases f s <;> rfl

theorem run_add (m n : Nat) (s : σ) : run f (m + n) s = (run f m s).bind (run f n) := by
  induction m generalizing s with
  | zero => rw [Nat.zero_add, run_zero, Option.bind_some]
  | succ m ih =>
    rw [Nat.succ_add, run, run, Option.bind_assoc]
    exact congrArg _ (funext ih)

theorem run_append {m n : Nat} {s t u : σ} (h : run f m s = some t) (h' : run f n t = some u) :
    run f (m + n) s = some u := by
  rw [run_add, h, Option.bind_some, h']

/-- The number of steps the second machine needs for the first `n` of the first. -/
def pace (f : σ → Option σ) (cost : σ → Nat) (s : σ) (n : Nat) : Nat :=
  ∑ i ∈ Finset.range n, ((run f i s).map cost).getD 1

theorem pace_zero (cost : σ → Nat) (s : σ) : pace f cost s 0 = 0 := rfl

theorem pace_strictMono {cost : σ → Nat} (hcost : ∀ s, 0 < cost s) (s : σ) : StrictMono (pace f cost s) := by
  refine strictMono_nat_of_lt_succ fun n => ?_
  have hpos : 0 < ((run f n s).map cost).getD 1 := by
    cases run f n s with
    | none => exact Nat.one_pos
    | some t => exact hcost t
  rw [pace, pace, Finset.sum_range_succ]
  omega

/-- What one step of the first machine in scope keeps, its whole run in scope keeps. -/
theorem paced {R : σ → τ → Prop} {scope : σ → Prop} {cost : σ → Nat}
    (hstep : ∀ s t, R s t → scope s → ∃ s' t', f s = some s' ∧ run g (cost s) t = some t' ∧ R s' t')
    {s : σ} {t : τ} (h : R s t) (n : Nat) (hscope : ∀ i < n, ∀ u, run f i s = some u → scope u) :
    ∃ u v, run f n s = some u ∧ run g (pace f cost s n) t = some v ∧ R u v := by
  induction n with
  | zero => exact ⟨s, t, rfl, rfl, h⟩
  | succ n ih =>
    obtain ⟨u, v, hu, hv, hR⟩ := ih fun i hi => hscope i (Nat.lt_succ_of_lt hi)
    obtain ⟨u', v', hu', hv', hR'⟩ := hstep u v hR (hscope n (Nat.lt_succ_self n) u hu)
    have hpace : pace f cost s (n + 1) = pace f cost s n + cost u := by
      rw [pace, Finset.sum_range_succ, hu]
      rfl
    refine ⟨u', v', run_append hu (run_one.trans hu'), ?_, hR'⟩
    rw [hpace]
    exact run_append hv hv'

end Pace
