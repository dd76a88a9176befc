import Mathlib.Data.List.Basic

/-!
# Two machines in lockstep

A deterministic machine answers each input and changes its state. `run` feeds it a list of inputs.
Two machines whose states are related, and stay related while they answer alike, answer alike over
every list of inputs (`run_agrees`).
-/

namespace Lockstep

variable {σ τ ι ο : Type}

/-- The answers to a list of inputs, and the state after them. -/
def run (f : σ → ι → ο × σ) : σ → List ι → List ο × σ
  | s, [] => ([], s)
  | s, a :: l => ((f s a).1 :: (run f (f s a).2 l).1, (run f (f s a).2 l).2)

variable {f : σ → ι → ο × σ} {g : τ → ι → ο × τ} {R : σ → τ → Prop}

/-- Both answer alike and stay related. -/
theorem run_agrees (hstep : ∀ s t a, R s t → (f s a).1 = (g t a).1 ∧ R (f s a).2 (g t a).2) {s : σ} {t : τ}
    (h : R s t) (l : List ι) : (run f s l).1 = (run g t l).1 ∧ R (run f s l).2 (run g t l).2 := by
  induction l generalizing s t with
  | nil => exact ⟨rfl, h⟩
  | cons a l ih =>
    obtain ⟨hanswer, hstate⟩ := hstep s t a h
    obtain ⟨hrest, hend⟩ := ih hstate
    refine ⟨?_, hend⟩
    show (f s a).1 :: _ = (g t a).1 :: _
    rw [hanswer, hrest]

end Lockstep
