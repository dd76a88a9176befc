import Mathlib.Data.List.Basic
import Mathlib.Data.List.Nodup

/-!
# Editing the first elements of a list

`editUpTo p f n l` applies `f` to the first `n` elements of `l` that satisfy `p`. A loop over
a table that edits matching entries and stops after a number of them is an `editUpTo`: it
keeps what `f` keeps (`map_editUpTo`), and where the entries have keys the ones it edited are
the first `n` that match (`editUpTo_eq_map`).
-/

namespace Edit

variable {α β : Type*} {p : α → Bool} {f : α → α} {n m : Nat} {l : List α}

/-- Apply `f` to the first `n` elements that satisfy `p`. -/
def editUpTo (p : α → Bool) (f : α → α) : Nat → List α → List α
  | _, [] => []
  | 0, l => l
  | n + 1, a :: l => if p a then f a :: editUpTo p f n l else a :: editUpTo p f (n + 1) l

@[simp] theorem editUpTo_nil : editUpTo p f n [] = [] := by
  cases n <;> rfl

@[simp] theorem editUpTo_zero : editUpTo p f 0 l = l := by
  cases l <;> rfl

theorem editUpTo_cons_pos {a : α} (h : p a = true) :
    editUpTo p f (n + 1) (a :: l) = f a :: editUpTo p f n l := by
  rw [editUpTo, if_pos h]

theorem editUpTo_cons_neg {a : α} (h : p a = false) :
    editUpTo p f n (a :: l) = a :: editUpTo p f n l := by
  cases n with
  | zero => simp
  | succ n => simp [editUpTo, h]

/-- What `f` keeps is the same for every element. -/
theorem map_editUpTo {g : α → β} (hg : ∀ a, g (f a) = g a) :
    (editUpTo p f n l).map g = l.map g := by
  induction l generalizing n with
  | nil => simp
  | cons a l ih =>
    cases n with
    | zero => simp
    | succ n =>
      rw [editUpTo]
      split
      · rw [List.map_cons, List.map_cons, hg, ih]
      · rw [List.map_cons, List.map_cons, ih]

@[simp] theorem length_editUpTo : (editUpTo p f n l).length = l.length := by
  have h := congrArg List.length (map_editUpTo (p := p) (f := f) (n := n) (l := l)
    (g := fun _ => ()) fun _ => rfl)
  simpa using h

/-- Where elements have keys of their own, the edited ones are the first `n` that match. -/
theorem editUpTo_eq_map [DecidableEq β] {key : α → β} (hk : (l.map key).Nodup) :
    editUpTo p f n l = l.map fun a =>
      if key a ∈ ((l.filter p).take n).map key then f a else a := by
  induction l generalizing n with
  | nil => simp
  | cons a l ih =>
    rw [List.map_cons, List.nodup_cons] at hk
    have hfresh : ∀ k : Nat, key a ∉ ((l.filter p).take k).map key := by
      intro k hmem
      obtain ⟨x, hx, hxa⟩ := List.mem_map.1 hmem
      have hxl := (List.mem_filter.1 (List.mem_of_mem_take hx)).1
      exact hk.1 (List.mem_map.2 ⟨x, hxl, hxa⟩)
    cases hp : p a with
    | false =>
      rw [editUpTo_cons_neg hp, ih hk.2, List.filter_cons_of_neg (by simp [hp]), List.map_cons,
        if_neg (hfresh n)]
    | true =>
      cases n with
      | zero => simp
      | succ n =>
        rw [editUpTo_cons_pos hp, ih hk.2, List.filter_cons_of_pos hp, List.take_succ_cons,
          List.map_cons, List.map_cons, if_pos List.mem_cons_self]
        refine congrArg (f a :: ·) (List.map_congr_left fun x hx => ?_)
        have hne : key x ≠ key a := fun heq => hk.1 (List.mem_map.2 ⟨x, hx, heq⟩)
        simp [hne]

/-- Where an edited element no longer matches, the matching ones that are left are the later ones. -/
theorem filter_editUpTo (hf : ∀ a, p a = true → p (f a) = false) :
    (editUpTo p f n l).filter p = (l.filter p).drop n := by
  induction l generalizing n with
  | nil => simp
  | cons a l ih =>
    cases hp : p a with
    | false => rw [editUpTo_cons_neg hp, List.filter_cons_of_neg (by simp [hp]),
        List.filter_cons_of_neg (by simp [hp]), ih]
    | true =>
      cases n with
      | zero => simp
      | succ n =>
        rw [editUpTo_cons_pos hp, List.filter_cons_of_neg (by simp [hf a hp]),
          List.filter_cons_of_pos hp, List.drop_succ_cons, ih]

end Edit
