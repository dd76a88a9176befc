import Mathlib.Data.List.Basic

/-!
# First fit

A row of cells, some of them free. `search` is the loop of a first-fit allocator: it walks the
cells with the length of the current run of free ones and stops when the run is long enough.
What it returns is the lowest place where `count` cells in a row are free, and it returns
nothing where there is no such place (`search_eq_some_iff`, `search_eq_none_iff`). Cells before
`start` are not for sale.
-/

namespace FirstFit

variable {α : Type} {free : α → Bool} {count start n run i j : Nat} {l before rest : List α} {a : α}

/-- The `count` cells from `i` on are there and free. -/
def Fits (free : α → Bool) (l : List α) (count i : Nat) : Prop :=
  ∀ j, i ≤ j → j < i + count → ∃ a, l[j]? = some a ∧ free a = true

/-- The loop: the cells left, the index of the first of them and the run before it. -/
def search (free : α → Bool) (count : Nat) : List α → Nat → Nat → Option Nat
  | [], _, _ => none
  | a :: l, n, run =>
    let run := if free a then run + 1 else 0
    if run = count then some (n + 1 - count) else search free count l (n + 1) run

/-! ## Fitting -/

theorem Fits.le_length (hc : 0 < count) (h : Fits free l count i) : i + count ≤ l.length := by
  obtain ⟨a, ha, _⟩ := h (i + count - 1) (by omega) (by omega)
  have := (List.getElem?_eq_some_iff.1 ha).1
  omega

/-- Whether cells fit can be read off the cells themselves. -/
theorem fits_iff : Fits free l count i ↔
    i + count ≤ l.length ∧ ((l.drop i).take count).all free = true ∨ count = 0 := by
  constructor
  · intro h
    by_cases hc : count = 0
    · exact .inr hc
    · refine .inl ⟨h.le_length (Nat.pos_of_ne_zero hc), ?_⟩
      rw [List.all_eq_true]
      intro a ha
      obtain ⟨k, hk⟩ := List.mem_iff_getElem?.1 ha
      have hkc : k < count := by
        by_contra hn
        rw [List.getElem?_take_eq_none (by omega)] at hk
        cases hk
      rw [List.getElem?_take_of_lt hkc, List.getElem?_drop] at hk
      obtain ⟨b, hb, hf⟩ := h (i + k) (by omega) (by omega)
      rw [hk] at hb
      cases hb
      exact hf
  · rintro (⟨hle, hall⟩ | rfl)
    · intro j hij hj
      have hjl : j < l.length := by omega
      refine ⟨l[j], List.getElem?_eq_getElem hjl, ?_⟩
      refine List.all_eq_true.1 hall _ (List.mem_iff_getElem?.2 ⟨j - i, ?_⟩)
      rw [List.getElem?_take_of_lt (by omega), List.getElem?_drop, show i + (j - i) = j by omega]
      exact List.getElem?_eq_getElem _
    · intro j hij hj
      omega

/-! ## The loop -/

/-- What holds before the cell `n`: the run before it is free and as long as can be from `start`
on, shorter than `count`, and no place that ends before `n` fits. -/
structure Scanned (free : α → Bool) (l : List α) (count start n run : Nat) : Prop where
  reach : start + run ≤ n
  short : run < count
  run_free : Fits free l run (n - run)
  longest : start + run = n ∨ ∃ a, l[n - run - 1]? = some a ∧ free a = false
  none_before : ∀ i, start ≤ i → i + count ≤ n → ¬ Fits free l count i

theorem Scanned.begin (hc : 0 < count) : Scanned free l count start start 0 where
  reach := Nat.le_refl _
  short := hc
  run_free := fun j hj hj' => by omega
  longest := .inl rfl
  none_before := fun i hi hi' => by omega

/-- A free cell makes the run longer. -/
theorem Scanned.extend (h : Scanned free l count start n run) (ha : l[n]? = some a) (hf : free a = true) :
    Fits free l (run + 1) (n + 1 - (run + 1)) := by
  intro j hj hj'
  by_cases hjn : j = n
  · subst hjn
    exact ⟨a, ha, hf⟩
  · have := h.reach
    exact h.run_free j (by omega) (by omega)

/-- No place fits that reaches past the run on its left. -/
theorem Scanned.not_fits (h : Scanned free l count start n run) (hs : start ≤ i) (hi : i < n - run)
    (hn : n - run ≤ i + count) : ¬ Fits free l count i := by
  intro hfit
  rcases h.longest with heq | ⟨a, ha, hf⟩
  · omega
  · obtain ⟨b, hb, hbf⟩ := hfit (n - run - 1) (by omega) (by omega)
    rw [ha] at hb
    cases hb
    rw [hf] at hbf
    cases hbf

/-- What the loop returns is the lowest place from `start` on. -/
def Lowest (free : α → Bool) (l : List α) (count start : Nat) : Option Nat → Prop
  | some i => start ≤ i ∧ Fits free l count i ∧ ∀ j, start ≤ j → j < i → ¬ Fits free l count j
  | none => ∀ j, start ≤ j → ¬ Fits free l count j

theorem Scanned.lowest (hc : 0 < count) (h : Scanned free (before ++ rest) count start before.length run) :
    Lowest free (before ++ rest) count start (search free count rest before.length run) := by
  induction rest generalizing before run with
  | nil =>
    intro j hj hfit
    have hle := hfit.le_length hc
    rw [List.append_nil] at hle
    exact h.none_before j hj hle hfit
  | cons a rest ih =>
    have ha : (before ++ a :: rest)[before.length]? = some a := by simp
    have hreach := h.reach
    have hshort := h.short
    have hassoc : before ++ a :: rest = (before ++ [a]) ++ rest := by simp
    have hlen : before.length + 1 = (before ++ [a]).length := by simp
    cases hf : free a with
    | true =>
      by_cases hfound : run + 1 = count
      · -- the run is complete
        have hfit := h.extend ha hf
        rw [hfound] at hfit
        rw [search, if_pos hf, if_pos hfound]
        refine ⟨by omega, hfit, fun j hj hlt => ?_⟩
        by_cases hend : j + count ≤ before.length
        · exact h.none_before j hj hend
        · exact h.not_fits hj (by omega) (by omega)
      · rw [search, if_pos hf, if_neg hfound, hlen, hassoc]
        refine ih ?_
        rw [← hassoc, ← hlen]
        refine ⟨by omega, by omega, h.extend ha hf, ?_, fun i hi hle => ?_⟩
        · rcases h.longest with heq | ⟨b, hb, hbf⟩
          · exact .inl (by omega)
          · refine .inr ⟨b, ?_, hbf⟩
            rw [show before.length + 1 - (run + 1) - 1 = before.length - run - 1 by omega]
            exact hb
        · by_cases hend : i + count ≤ before.length
          · exact h.none_before i hi hend
          · exact h.not_fits hi (by omega) (by omega)
    | false =>
      -- the run is over, and no place has this cell
      have hne : ¬ free a = true := by simp [hf]
      rw [search, if_neg hne, if_neg (show ¬ 0 = count by omega), hlen, hassoc]
      refine ih ?_
      rw [← hassoc, ← hlen]
      refine ⟨by omega, hc, fun j hj hj' => by omega, .inr ⟨a, by simp, hf⟩, fun i hi hle => ?_⟩
      by_cases hend : i + count ≤ before.length
      · exact h.none_before i hi hend
      · intro hfit
        obtain ⟨b, hb, hbf⟩ := hfit before.length (by omega) (by omega)
        rw [ha] at hb
        cases hb
        exact hne hbf

/-- The search from `start` on finds the lowest place. -/
theorem search_lowest (hc : 0 < count) (hs : start ≤ l.length) :
    Lowest free l count start (search free count (l.drop start) start 0) := by
  have h : Scanned free (l.take start ++ l.drop start) count start (l.take start).length 0 := by
    rw [List.length_take_of_le hs]
    exact Scanned.begin hc
  have hlow := h.lowest hc
  rw [List.length_take_of_le hs, List.take_append_drop] at hlow
  exact hlow

theorem search_eq_some_iff (hc : 0 < count) (hs : start ≤ l.length) :
    search free count (l.drop start) start 0 = some i ↔
      start ≤ i ∧ Fits free l count i ∧ ∀ j, start ≤ j → j < i → ¬ Fits free l count j := by
  have hlow : Lowest free l count start (search free count (l.drop start) start 0) := search_lowest hc hs
  constructor
  · intro h
    rw [h] at hlow
    exact hlow
  · rintro ⟨hi, hfit, hmin⟩
    cases hr : search free count (l.drop start) start 0 with
    | none =>
      rw [hr] at hlow
      exact absurd hfit (hlow i hi)
    | some k =>
      rw [hr] at hlow
      obtain ⟨hk, hkfit, hkmin⟩ := hlow
      have h1 : ¬ k < i := fun hlt => hmin k hk hlt hkfit
      have h2 : ¬ i < k := fun hlt => hkmin i hi hlt hfit
      rw [show k = i by omega]

theorem search_eq_none_iff (hc : 0 < count) (hs : start ≤ l.length) :
    search free count (l.drop start) start 0 = none ↔ ∀ j, start ≤ j → ¬ Fits free l count j := by
  have hlow : Lowest free l count start (search free count (l.drop start) start 0) := search_lowest hc hs
  cases hr : search free count (l.drop start) start 0 with
  | none =>
    rw [hr] at hlow
    exact ⟨fun _ => hlow, fun _ => rfl⟩
  | some k =>
    rw [hr] at hlow
    exact ⟨nofun, fun h => absurd hlow.2.1 (h k hlow.1)⟩

end FirstFit
