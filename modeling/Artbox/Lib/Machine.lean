import Mathlib.Logic.Relation

/-!
# Transition systems and their invariants

A `Machine` is a set of initial states with a step relation. Everything a
protocol proof needs of one is packaged here once: what is reachable, the rule
that an inductive predicate holds of every reachable state (`Reachable.inv`),
and the same rule with already established invariants at hand
(`Reachable.inv_of`), which is how a development with several invariants stacks
them.
-/

/-- A transition system: where it may start and how it may move. -/
structure Machine (σ : Type*) where
  init : σ → Prop
  step : σ → σ → Prop

namespace Machine

variable {σ : Type*} {M : Machine σ} {s s' : σ}

/-- The states some run of the machine passes through. -/
inductive Reachable (M : Machine σ) : σ → Prop
  | init {s : σ} : M.init s → Reachable M s
  | step {s s' : σ} : Reachable M s → M.step s s' → Reachable M s'

/-- Any number of steps. -/
abbrev Steps (M : Machine σ) : σ → σ → Prop := Relation.ReflTransGen M.step

theorem Reachable.steps (h : M.Reachable s) (hs : M.Steps s s') : M.Reachable s' := by
  induction hs with
  | refl => exact h
  | tail _ hstep ih => exact ih.step hstep

/-- What a list of actions leads to, where every action is a step. -/
theorem Reachable.foldl {α : Type*} {f : σ → α → σ} (hf : ∀ s a, M.step s (f s a)) (l : List α)
    (h : M.Reachable s) : M.Reachable (l.foldl f s) := by
  induction l generalizing s with
  | nil => exact h
  | cons a l ih => exact ih (h.step (hf s a))

/-- The same where an action may not be possible. -/
theorem Reachable.foldlM {α : Type*} {f : σ → α → Option σ} (hf : ∀ s a s', f s a = some s' → M.step s s')
    {l : List α} (h : M.Reachable s) (hl : l.foldlM f s = some s') : M.Reachable s' := by
  induction l generalizing s with
  | nil => exact Option.some.inj hl ▸ h
  | cons a l ih =>
    obtain ⟨t, ht, hl⟩ := Option.bind_eq_some_iff.1 ((List.foldlM_cons ..).symm.trans hl)
    exact ih (h.step (hf s a t ht)) hl

/-- The invariant rule: true at the start and kept by every step. -/
theorem Reachable.inv {I : σ → Prop} (h0 : ∀ s, M.init s → I s)
    (hstep : ∀ s s', I s → M.step s s' → I s') (h : M.Reachable s) : I s := by
  induction h with
  | init hi => exact h0 _ hi
  | step _ hs ih => exact hstep _ _ ih hs

/-- The invariant rule above an invariant `J` that is already known. -/
theorem Reachable.inv_of {I J : σ → Prop} (hJ : ∀ s, M.Reachable s → J s)
    (h0 : ∀ s, M.init s → I s)
    (hstep : ∀ s s', J s → I s → M.step s s' → I s') (h : M.Reachable s) : I s := by
  induction h with
  | init hi => exact h0 _ hi
  | step hr hs ih => exact hstep _ _ (hJ _ hr) ih hs

/-- What every step keeps, a sequence of steps keeps. -/
theorem Steps.keeps {I : σ → Prop} (hstep : ∀ s s', I s → M.step s s' → I s')
    (h : M.Steps s s') (hs : I s) : I s' := by
  induction h with
  | refl => exact hs
  | tail _ ht ih => exact hstep _ _ ih ht

end Machine
