import Mathlib.Data.List.Basic
import Mathlib.Data.List.Count

/-!
# Histories

A history is the list of events so far, the most recent first. `Always P` says that
every event satisfied `P` when it happened: `P e older` may look at the event and at
the history before it. Extending a history by events that satisfy `P` is the step
case of every statement about runs (`always_cons`), and reading the statement off a
given event is `Always.split`.
-/

namespace Trace

variable {ε : Type*} {P Q : ε → List ε → Prop} {h : List ε} {e : ε}

/-- Every event satisfied `P` on the history before it. -/
def Always (P : ε → List ε → Prop) : List ε → Prop
  | [] => True
  | e :: h => P e h ∧ Always P h

@[simp] theorem always_nil : Always P [] := trivial

@[simp] theorem always_cons : Always P (e :: h) ↔ P e h ∧ Always P h := Iff.rfl

instance decidableAlways [∀ e h, Decidable (P e h)] : ∀ h : List ε, Decidable (Always P h)
  | [] => isTrue trivial
  | e :: h => @instDecidableAnd (P e h) (Always P h) _ (decidableAlways h)

/-- The statement at one event of the history. -/
theorem Always.split {newer older : List ε} (ha : Always P (newer ++ e :: older)) : P e older := by
  induction newer with
  | nil => exact ha.1
  | cons x xs ih => exact ih ha.2

theorem Always.of_append {newer : List ε} (ha : Always P (newer ++ h)) : Always P h := by
  induction newer with
  | nil => exact ha
  | cons x xs ih => exact ih ha.2

/-- Events that satisfy `P` on any history may be added. -/
theorem Always.append {l : List ε} (ha : Always P h) (hn : ∀ e ∈ l, ∀ older, P e older) :
    Always P (l ++ h) := by
  induction l with
  | nil => exact ha
  | cons x xs ih =>
    exact ⟨hn x List.mem_cons_self _, ih fun e he => hn e (List.mem_cons_of_mem _ he)⟩

theorem Always.mono (ha : Always P h) (hpq : ∀ e older, P e older → Q e older) : Always Q h := by
  induction h with
  | nil => trivial
  | cons x xs ih => exact ⟨hpq x xs ha.1, ih ha.2⟩

theorem Always.mp (ha : Always P h) (hpq : Always (fun e older => P e older → Q e older) h) :
    Always Q h := by
  induction h with
  | nil => trivial
  | cons x xs ih => exact ⟨hpq.1 ha.1, ih ha.2 hpq.2⟩

/-- Statements that agreed about every event agree about the history. -/
theorem Always.congr (ha : Always (fun e older => P e older ↔ Q e older) h) :
    Always P h ↔ Always Q h := by
  induction h with
  | nil => exact .rfl
  | cons x xs ih => exact and_congr ha.1 (ih ha.2)

/-- An event that can only happen at one length of the history happens at most once. -/
theorem Always.countP_le_one {q : ε → Bool} {n : Nat}
    (ha : Always (fun e older => q e = true → older.length = n) h) : h.countP q ≤ 1 := by
  induction h with
  | nil => simp
  | cons x xs ih =>
    rw [List.countP_cons]
    by_cases hx : q x = true
    · -- everything older happened at a smaller length
      have hnone : xs.countP q = 0 := by
        refine List.countP_eq_zero.2 fun y hy hq => ?_
        obtain ⟨newer, older, rfl⟩ := List.append_of_mem hy
        have h1 := ha.1 hx
        have h2 := ha.2.split hq
        simp only [List.length_append, List.length_cons] at h1
        omega
      simp [hnone, hx]
    · simp only [hx]
      exact ih ha.2

/-- Events that carry the length of the history before them are told apart by it. -/
theorem Always.eq_of_length {f : ε → Option Nat} {e e' : ε} {n : Nat}
    (ha : Always (fun e older => ∀ n, f e = some n → n = older.length) h) (he : e ∈ h)
    (he' : e' ∈ h) (hf : f e = some n) (hf' : f e' = some n) : e = e' := by
  induction h with
  | nil => cases he
  | cons x xs ih =>
    have hold : ∀ y ∈ xs, f y = some n → n < xs.length := by
      intro y hy hfy
      obtain ⟨newer, older, rfl⟩ := List.append_of_mem hy
      have := ha.2.split n hfy
      simp only [List.length_append, List.length_cons]
      omega
    rcases List.mem_cons.1 he with rfl | hx <;> rcases List.mem_cons.1 he' with rfl | hx'
    · rfl
    · exact absurd (ha.1 n hf) (Nat.ne_of_lt (hold _ hx' hf'))
    · exact absurd (ha.1 n hf') (Nat.ne_of_lt (hold _ hx hf))
    · exact ih ha.2 hx hx'

/-! ## Since -/

/-- `q` has happened, and `p` not since then. -/
def Since (p q : ε → Prop) : List ε → Prop
  | [] => False
  | e :: h => q e ∨ (¬ p e ∧ Since p q h)

instance decidableSince {p q : ε → Prop} [DecidablePred p] [DecidablePred q] :
    ∀ h : List ε, Decidable (Since p q h)
  | [] => isFalse id
  | e :: h => @instDecidableOr (q e) _ _ (@instDecidableAnd (¬ p e) _ _ (decidableSince h))

theorem Since.append {p q : ε → Prop} {l : List ε} (hs : Since p q h) (hl : ∀ e ∈ l, ¬ p e) :
    Since p q (l ++ h) := by
  induction l with
  | nil => exact hs
  | cons x xs ih =>
    exact .inr ⟨hl x List.mem_cons_self, ih fun e he => hl e (List.mem_cons_of_mem _ he)⟩

theorem Since.of_append {p q : ε → Prop} {l : List ε} (hs : Since p q (l ++ h)) (hl : ∀ e ∈ l, ¬ q e) :
    Since p q h ∧ ∀ e ∈ l, ¬ p e := by
  induction l with
  | nil => exact ⟨hs, by simp⟩
  | cons x xs ih =>
    obtain ⟨hx, hrest⟩ := Or.resolve_left hs (hl x List.mem_cons_self)
    obtain ⟨hold, hnone⟩ := ih hrest fun e he => hl e (List.mem_cons_of_mem _ he)
    exact ⟨hold, List.forall_mem_cons.2 ⟨hx, hnone⟩⟩

theorem Since.mem {p q : ε → Prop} (hs : Since p q h) : ∃ e ∈ h, q e := by
  induction h with
  | nil => exact hs.elim
  | cons x xs ih =>
    rcases hs with hq | ⟨_, hs⟩
    · exact ⟨x, List.mem_cons_self, hq⟩
    · obtain ⟨e, he, hq⟩ := ih hs
      exact ⟨e, List.mem_cons_of_mem _ he, hq⟩

/-- Two events that are each the last of one kind are the same event. -/
theorem Since.common {p q q' : ε → Prop} (hs : Since p q h) (hs' : Since p q' h) (hq : ∀ e, q e → p e)
    (hq' : ∀ e, q' e → p e) : ∃ e ∈ h, q e ∧ q' e := by
  induction h with
  | nil => exact hs.elim
  | cons x xs ih =>
    rcases hs with hx | ⟨hx, hs⟩ <;> rcases hs' with hx' | ⟨hx', hs'⟩
    · exact ⟨x, List.mem_cons_self, hx, hx'⟩
    · exact absurd (hq x hx) hx'
    · exact absurd (hq' x hx') hx
    · obtain ⟨e, he, hboth⟩ := ih hs hs'
      exact ⟨e, List.mem_cons_of_mem _ he, hboth⟩

end Trace
