import Mathlib.Logic.Basic
import Mathlib.Tactic.Common

/-!
# Parsers that require

A parser that is a row of requirements returns something only if all of them hold. `bind_eq_ok`
and `require_eq_ok` take such a row apart. For a loop there are two rules: `foldlM_inv` says what
holds after it, if it ends, and `foldlM_ok` that it ends.
-/

namespace Require

variable {ε α β σ : Type}

/-- Stop with an error unless `c` holds. -/
def require (c : Prop) [Decidable c] (e : ε) : Except ε Unit := if c then .ok () else .error e

theorem require_eq_ok {c : Prop} [Decidable c] {e : ε} {u : Unit} : require c e = .ok u ↔ c := by
  unfold require
  split
  next h => exact ⟨fun _ => h, fun _ => rfl⟩
  next h => exact ⟨nofun, fun hc => absurd hc h⟩

theorem bind_eq_ok {x : Except ε α} {f : α → Except ε β} {b : β} :
    x >>= f = .ok b ↔ ∃ a, x = .ok a ∧ f a = .ok b := by
  cases x with
  | ok a =>
    constructor
    · intro h
      exact ⟨a, rfl, h⟩
    · intro hall
      obtain ⟨a', ha, h⟩ := hall
      cases ha
      exact h
  | error e =>
    constructor
    · intro h
      cases h
    · intro hall
      obtain ⟨a', ha, _⟩ := hall
      cases ha

/-- Behind a requirement it holds. -/
theorem require_bind_eq_ok {c : Prop} [Decidable c] {e : ε} {f : Unit → Except ε β} {b : β} :
    require c e >>= f = .ok b ↔ c ∧ f () = .ok b := by
  rw [bind_eq_ok]
  constructor
  · intro hall
    obtain ⟨u, hu, h⟩ := hall
    exact ⟨require_eq_ok.1 hu, h⟩
  · intro hall
    obtain ⟨hc, h⟩ := hall
    exact ⟨(), require_eq_ok.2 hc, h⟩

/-! ## Loops -/

/-- A loop ends if no pass fails, and what is kept by its passes holds at its end. -/
theorem foldlM_ok {f : σ → α → Except ε σ} {l : List α} {P : List α → σ → Prop}
    (hstep : ∀ done a rest s, l = done ++ a :: rest → P done s → ∃ s', f s a = .ok s' ∧ P (done ++ [a]) s')
    {s : σ} (h : P [] s) : ∃ s', l.foldlM f s = .ok s' ∧ P l s' := by
  suffices hrest : ∀ rest done s, l = done ++ rest → P done s → ∃ s', rest.foldlM f s = .ok s' ∧ P l s' from
    hrest l [] s rfl h
  intro rest
  induction rest with
  | nil =>
    intro done s hl h
    rw [List.append_nil] at hl
    exact ⟨s, rfl, hl ▸ h⟩
  | cons a rest ih =>
    intro done s hl h
    obtain ⟨t, ht, hpass⟩ := hstep done a rest s hl h
    obtain ⟨s', hs', hend⟩ := ih (done ++ [a]) t (by rw [hl, List.append_assoc, List.singleton_append]) hpass
    refine ⟨s', ?_, hend⟩
    rw [List.foldlM_cons, ht]
    exact hs'

/-- What holds at the start of a loop and is kept by its passes holds at its end. -/
theorem foldlM_inv {f : σ → α → Except ε σ} {l : List α} {P : List α → σ → Prop}
    (hstep : ∀ done a rest s s', l = done ++ a :: rest → P done s → f s a = .ok s' → P (done ++ [a]) s')
    {s s' : σ} (h : P [] s) (hrun : l.foldlM f s = .ok s') : P l s' := by
  suffices hrest : ∀ rest done s, l = done ++ rest → P done s → rest.foldlM f s = .ok s' → P l s' from
    hrest l [] s rfl h hrun
  intro rest
  induction rest with
  | nil =>
    intro done s hl h hrun
    cases hrun
    rw [List.append_nil] at hl
    exact hl ▸ h
  | cons a rest ih =>
    intro done s hl h hrun
    rw [List.foldlM_cons, bind_eq_ok] at hrun
    obtain ⟨t, ht, hrun⟩ := hrun
    exact ih (done ++ [a]) t (by rw [hl, List.append_assoc, List.singleton_append])
      (hstep done a rest s t hl h ht) hrun

/-- A loop that only checks ends if every check does. -/
theorem forM_ok {f : α → Except ε Unit} {l : List α} {u : Unit} (h : l.forM f = .ok u) :
    ∀ a ∈ l, f a = .ok () := by
  induction l with
  | nil => exact nofun
  | cons a l ih =>
    have hrun : (f a >>= fun _ => l.forM f) = .ok u := h
    rw [bind_eq_ok] at hrun
    obtain ⟨v, ha, hrest⟩ := hrun
    intro b hb
    rcases List.mem_cons.1 hb with rfl | hb
    · exact ha
    · exact ih hrest b hb

theorem range_split {n k : Nat} {done rest : List Nat} (h : List.range n = done ++ k :: rest) :
    done = List.range k ∧ k < n := by
  have hlength : done.length < n := by
    have := congrArg List.length h
    simp only [List.length_range, List.length_append, List.length_cons] at this
    omega
  have hk : k = done.length := by
    have hget := congrArg (fun l => l[done.length]?) h
    simp only [List.getElem?_range hlength, List.getElem?_append_right (Nat.le_refl _), Nat.sub_self,
      List.getElem?_cons_zero] at hget
    exact (Option.some.inj hget).symm
  refine ⟨?_, hk ▸ hlength⟩
  have htake := congrArg (List.take done.length) h
  rw [List.take_range, List.take_left, Nat.min_eq_left (Nat.le_of_lt hlength)] at htake
  rw [hk, htake]

/-- `foldlM_inv` for a loop that counts. -/
theorem range_inv {f : σ → Nat → Except ε σ} {n : Nat} {P : Nat → σ → Prop}
    (hstep : ∀ k < n, ∀ s s', P k s → f s k = .ok s' → P (k + 1) s') {s s' : σ} (h : P 0 s)
    (hrun : (List.range n).foldlM f s = .ok s') : P n s' := by
  have hend := foldlM_inv (P := fun done s => P done.length s) (fun done k rest s s' hl h hf => ?_) h hrun
  · rwa [List.length_range] at hend
  · obtain ⟨rfl, hk⟩ := range_split hl
    rw [List.length_append, List.length_range, List.length_singleton]
    rw [List.length_range] at h
    exact hstep k hk s s' h hf

end Require
