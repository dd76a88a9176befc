import Mathlib.Data.List.Infix
import Mathlib.Data.List.TakeWhile

/-!
# Lists cut at a separator

A list stands for its segments between separators, as a path does for its components. Segments that
are not empty and have no separator in them are recovered from their joined list; the first of them
is what comes before the first separator, and empty segments in the list are where separators follow
each other.
-/

namespace Segments

variable {α : Type*} [DecidableEq α] {a : α} {l : List α} {xs ys : List (List α)}

/-- Segments that can be told apart after they are joined. -/
def Whole (a : α) (ls : List (List α)) : Prop := ∀ l ∈ ls, l ≠ [] ∧ a ∉ l

/-- The first segment of a list. -/
def first (a : α) (l : List α) : List α := l.takeWhile (· ≠ a)

/-! ## Joining -/

section Join

omit [DecidableEq α]

theorem Whole.append (hx : Whole a xs) (hy : Whole a ys) : Whole a (xs ++ ys) := by
  intro l hl
  rcases List.mem_append.1 hl with h | h
  · exact hx l h
  · exact hy l h

theorem Whole.sublist (h : Whole a ys) (hs : xs.Sublist ys) : Whole a xs := fun l hl => h l (hs.subset hl)

theorem join_cons (x : List α) : [a].intercalate (x :: xs) = x ++ if xs = [] then [] else a :: [a].intercalate xs := by
  cases xs with
  | nil => simp
  | cons y ys =>
    rw [List.intercalate_cons_cons, if_neg (List.cons_ne_nil y ys), List.append_assoc]
    rfl

/-- A separator comes between two joined lists when both have segments. -/
theorem join_append : [a].intercalate (xs ++ ys) =
    [a].intercalate xs ++ (if xs ≠ [] ∧ ys ≠ [] then [a] else []) ++ [a].intercalate ys := by
  induction xs with
  | nil => simp
  | cons x xs ih =>
    rw [List.cons_append, join_cons, ih, join_cons]
    by_cases hx : xs = []
    · subst hx
      by_cases hy : ys = [] <;> simp [hy]
    · have hxy : xs ++ ys ≠ [] := fun h => hx (List.append_eq_nil_iff.1 h).1
      rw [if_neg hxy, if_neg hx]
      by_cases hy : ys = [] <;> simp [hx, hy]

theorem join_eq_nil (h : Whole a xs) : [a].intercalate xs = [] ↔ xs = [] := by
  cases xs with
  | nil => simp
  | cons x xs =>
    rw [join_cons]
    have hx := (h x List.mem_cons_self).1
    simp [hx]

end Join

/-- The segments are recovered. -/
theorem splitOn_join (h : Whole a xs) : ([a].intercalate xs).splitOn a = if xs = [] then [[]] else xs := by
  by_cases hx : xs = []
  · rw [hx]
    simp
  · rw [if_neg hx]
    exact List.splitOn_intercalate a (fun l hl => (h l hl).2) hx

/-! ## The first segment -/

theorem first_append {x : List α} (hx : a ∉ x) (l : List α) : first a (x ++ l) = x ++ first a l := by
  unfold first
  rw [List.takeWhile_append_of_pos]
  intro b hb
  exact decide_eq_true fun heq => hx (heq ▸ hb)

theorem not_mem_first (l : List α) : a ∉ first a l := by
  intro h
  simpa using List.mem_takeWhile_imp h

theorem first_join (h : Whole a xs) : first a ([a].intercalate xs) = xs.headD [] := by
  cases xs with
  | nil => rfl
  | cons x xs =>
    rw [join_cons, first_append (h x List.mem_cons_self).2]
    by_cases hx : xs = []
    · simp [hx, first]
    · rw [if_neg hx]
      simp [first]

theorem take_first (l : List α) : l.take (first a l).length = first a l ∧
    (l.length = (first a l).length ∨ l[(first a l).length]? = some a) := by
  induction l with
  | nil => exact ⟨rfl, .inl rfl⟩
  | cons b l ih =>
    by_cases hb : b = a
    · simp [first, hb]
    · have hfirst : first a (b :: l) = b :: first a l := by simp [first, hb]
      rw [hfirst, List.length_cons, List.take_succ_cons, List.length_cons, List.getElem?_cons_succ, ih.1]
      exact ⟨rfl, ih.2.imp (congrArg (· + 1)) id⟩

/-- A list starts with a segment iff it starts with its elements, up to the end or a separator. -/
theorem first_eq_iff {x : List α} (hx : a ∉ x) :
    first a l = x ↔ l.take x.length = x ∧ (l.length = x.length ∨ l[x.length]? = some a) := by
  constructor
  · rintro rfl
    exact take_first l
  · rintro ⟨htake, hend⟩
    have hl : l = x ++ l.drop x.length := by
      conv => lhs; rw [← List.take_append_drop x.length l, htake]
    rw [hl, first_append hx]
    rcases hend with hlen | hsep
    · rw [← hlen, List.drop_length]
      simp [first]
    · obtain ⟨hlt, hget⟩ := List.getElem?_eq_some_iff.1 hsep
      rw [List.drop_eq_getElem_cons hlt, hget]
      simp [first]

/-! ## Segment after segment -/

/-- The segments behind the separator after the first one. -/
def behind (a : α) (l : List α) : List (List α) :=
  match l.dropWhile (· ≠ a) with
  | [] => []
  | _ :: rest => rest.splitOn a

theorem splitOn_eq (l : List α) : l.splitOn a = first a l :: behind a l := by
  induction l with
  | nil => simp [first, behind]
  | cons b l ih =>
    rw [List.splitOn_cons_eq_if_modifyHead]
    by_cases hb : b = a
    · simp [hb, first, behind]
    · have hba : (b == a) = false := beq_eq_false_iff_ne.2 hb
      rw [hba, ih]
      simp [first, behind, hb]

theorem not_mem_of_splitOn {x : List α} (hx : x ∈ l.splitOn a) : a ∉ x := by
  induction l generalizing x with
  | nil =>
    obtain rfl : x = [] := by simpa using hx
    exact List.not_mem_nil
  | cons b l ih =>
    rw [List.splitOn_cons_eq_if_modifyHead] at hx
    by_cases hb : b = a
    · rw [if_pos (beq_iff_eq.2 hb)] at hx
      rcases List.mem_cons.1 hx with rfl | hx
      · exact List.not_mem_nil
      · exact ih hx
    · rw [if_neg fun h => hb (beq_iff_eq.1 h)] at hx
      cases hs : l.splitOn a with
      | nil => exact absurd hs (List.splitOn_ne_nil a l)
      | cons y ys =>
        rw [hs, List.modifyHead_cons] at hx
        rcases List.mem_cons.1 hx with rfl | hx
        · intro hmem
          rcases List.mem_cons.1 hmem with h | h
          · exact hb h.symm
          · exact ih (hs ▸ List.mem_cons_self) h
        · exact ih (hs ▸ List.mem_cons_of_mem y hx)

/-- A list ends in a separator iff its last segment is empty. -/
theorem getLast_iff (hl : l ≠ []) : l.getLast? = some a ↔ (l.splitOn a).getLast? = some [] := by
  constructor
  · intro hlast
    obtain ⟨xs, rfl⟩ := List.getLast?_eq_some_iff.1 hlast
    rw [List.splitOn_append_cons_self, List.splitOn_nil, List.getLast?_concat]
  · intro hlast
    obtain ⟨xs, hxs⟩ := List.getLast?_eq_some_iff.1 hlast
    have hjoin : l = [a].intercalate xs ++ if xs = [] then [] else [a] := by
      have hwhole : [a].intercalate (l.splitOn a) = l := List.intercalate_splitOn a
      rw [← hwhole, hxs, join_append, List.intercalate_singleton, List.append_nil]
      by_cases hnil : xs = [] <;> simp [hnil]
    split at hjoin
    next hnil =>
      rw [hnil] at hjoin
      exact absurd hjoin hl
    · rw [hjoin, List.getLast?_concat]

end Segments
