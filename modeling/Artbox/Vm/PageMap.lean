import Artbox.Vm.Native

/-!
# The page map

What a space is for: a map from addresses to mapped pages (`Space.view`), and what becomes of it where one
region is edited, is new or is gone.
-/

namespace Artbox.Vm

/-- The mapped pages, by address. -/
abbrev PageMap := Nat → Option Page

/-- The map with a range of addresses changed. -/
def PageMap.patch (m : PageMap) (a n : Nat) (f : Option Page → Option Page) : PageMap :=
  fun x => if a ≤ x ∧ x < a + n then f (m x) else m x

/-- The address is in the region. -/
def Region.Has (r : Region) (x : Nat) : Prop := r.base ≤ x ∧ x < r.base + r.length

instance (r : Region) (x : Nat) : Decidable (r.Has x) := inferInstanceAs (Decidable (_ ∧ _))

/-- The mapped page of a region at an address. -/
def Region.pageAt (r : Region) (page x : Nat) : Option Page :=
  if r.Has x then (r.pages[(x - r.base) / page]?).filter (·.mapped) else none

/-- The map of a list of regions. -/
def viewOf (page : Nat) (l : List Region) : PageMap := fun x => l.findSome? (·.pageAt page x)

/-- The map of a space. -/
def Space.view (s : Space) : PageMap := viewOf s.pageSize s.regions

variable {r r' : Region} {done rest : List Region} {page x a n first count : Nat} {f : Page → Page}

/-! ## One region -/

theorem pageAt_of_not_has (hx : ¬ r.Has x) : r.pageAt page x = none := if_neg hx

theorem viewOf_append (l m : List Region) : viewOf page (l ++ m) x = (viewOf page l x).or (viewOf page m x) :=
  List.findSome?_append

theorem viewOf_cons (r : Region) (l : List Region) :
    viewOf page (r :: l) x = (r.pageAt page x).or (viewOf page l x) := by
  unfold viewOf
  rw [List.findSome?_cons]
  cases r.pageAt page x <;> rfl

theorem viewOf_none {l : List Region} (h : ∀ q ∈ l, ¬ q.Has x) : viewOf page l x = none :=
  List.findSome?_eq_none_iff.2 fun q hq => pageAt_of_not_has (h q hq)

theorem viewOf_of_not_has (hx : ¬ r.Has x) : viewOf page (done ++ r :: rest) x = viewOf page (done ++ rest) x := by
  rw [viewOf_append, viewOf_cons, pageAt_of_not_has hx, Option.none_or, viewOf_append]

/-- At an address of one region there is no other. -/
theorem Region.Disjoint.not_has {q : Region} (h : r.Disjoint q) (hx : r.Has x) : ¬ q.Has x := by
  intro hq
  have hd : r.base + r.length ≤ q.base ∨ q.base + q.length ≤ r.base := h
  unfold Region.Has at hx hq
  omega

theorem viewOf_of_has (hd : ∀ q ∈ done ++ rest, r.Disjoint q) (hx : r.Has x) :
    viewOf page (done ++ r :: rest) x = r.pageAt page x := by
  have hdone : viewOf page done x = none :=
    viewOf_none fun q hq => (hd q (List.mem_append_left _ hq)).not_has hx
  have hrest : viewOf page rest x = none :=
    viewOf_none fun q hq => (hd q (List.mem_append_right _ hq)).not_has hx
  rw [viewOf_append, viewOf_cons, hdone, hrest, Option.none_or, Option.or_none]

/-- The page of an address. -/
theorem Region.Has.inPage (hx : r.Has x) (hp : 0 < page) : r.InPage page ((x - r.base) / page) x := by
  have hdiv := Nat.div_add_mod (x - r.base) page
  have hmod := Nat.mod_lt (x - r.base) hp
  rw [Nat.mul_comm] at hdiv
  unfold Region.InPage
  rw [Nat.add_mul, Nat.one_mul]
  unfold Region.Has at hx
  exact ⟨by omega, by omega⟩

theorem Region.Has.page_lt (hx : r.Has x) (hp : 0 < page) (hw : r.pages.length * page = r.length) :
    (x - r.base) / page < r.pages.length := by
  rw [Nat.div_lt_iff_lt_mul hp, hw]
  unfold Region.Has at hx
  omega

theorem Region.Spans.has {size : Nat} (hs : r.Spans page a size first count) (hlo : a ≤ x) (hhi : x < a + size) :
    r.Has x := by
  have := hs.within
  unfold Region.Has
  omega

/-- A region whose pages are edited. -/
structure Region.Edits (r r' : Region) (first count : Nat) (f : Page → Page) : Prop where
  base : r'.base = r.base
  length : r'.length = r.length
  pages : r'.pages = (r.edit first count f).pages

theorem Region.Edits.has (h : r.Edits r' first count f) : r'.Has x ↔ r.Has x := by
  unfold Region.Has
  rw [h.base, h.length]

/-- The edited pages of a region at its addresses. -/
theorem pageAt_edit {size : Nat} (h : r.Edits r' first count f) (hs : r.Spans page a size first count)
    (hp : 0 < page) (hx : r.Has x) :
    r'.pageAt page x =
      if a ≤ x ∧ x < a + size then ((r.pages[(x - r.base) / page]?).map f).filter (·.mapped) else r.pageAt page x := by
  have hpage := hs.mem_iff (hx.inPage hp)
  unfold Region.pageAt
  rw [if_pos (h.has.2 hx), if_pos hx, h.pages, h.base, Region.getElem?_edit hs.inside]
  by_cases hin : a ≤ x ∧ x < a + size
  · rw [if_pos hin, if_pos (hpage.1 hin)]
  · rw [if_neg hin, if_neg fun h => hin (hpage.2 h)]

/-- The map, where one region is edited. -/
theorem viewOf_edit {size : Nat} {g : Option Page → Option Page} (h : r.Edits r' first count f)
    (hd : ∀ q ∈ done ++ rest, r.Disjoint q) (hs : r.Spans page a size first count) (hp : 0 < page)
    (hg : ∀ p ∈ r.slice first count, (some (f p)).filter (·.mapped) = g ((some p).filter (·.mapped))) :
    viewOf page (done ++ r' :: rest) = (viewOf page (done ++ r :: rest)).patch a size g := by
  have hd' : ∀ q ∈ done ++ rest, r'.Disjoint q := by
    unfold Region.Disjoint
    rw [h.base, h.length]
    exact hd
  funext x
  unfold PageMap.patch
  by_cases hx : r.Has x
  · rw [viewOf_of_has hd' (h.has.2 hx), pageAt_edit h hs hp hx, viewOf_of_has hd hx]
    by_cases hin : a ≤ x ∧ x < a + size
    · have hpage := (hs.mem_iff (hx.inPage hp)).1 hin
      obtain ⟨p, hq⟩ : ∃ p, r.pages[(x - r.base) / page]? = some p :=
        ⟨_, List.getElem?_eq_getElem (hx.page_lt hp hs.whole)⟩
      have hmem : p ∈ r.slice first count := by
        refine List.mem_iff_getElem?.2 ⟨(x - r.base) / page - first, ?_⟩
        rw [Region.slice, List.getElem?_take_of_lt (by omega), List.getElem?_drop,
          show first + ((x - r.base) / page - first) = (x - r.base) / page by omega]
        exact hq
      rw [if_pos hin, if_pos hin]
      unfold Region.pageAt
      rw [if_pos hx, hq]
      exact hg p hmem
    · rw [if_neg hin, if_neg hin]
  · have hout : ¬ (a ≤ x ∧ x < a + size) := fun hin => hx (hs.has hin.1 hin.2)
    rw [if_neg hout, viewOf_of_not_has (mt h.has.1 hx), viewOf_of_not_has hx]

/-- A region more. -/
theorem viewOf_push {l : List Region} {p : Page} (hd : ∀ q ∈ l, r.Disjoint q)
    (hr : ∀ x, r.Has x → r.pageAt page x = some p) :
    viewOf page (l ++ [r]) = (viewOf page l).patch r.base r.length fun _ => some p := by
  funext x
  have hnil : viewOf page (l ++ []) x = viewOf page l x := by rw [List.append_nil]
  show viewOf page (l ++ [r]) x = if r.Has x then some p else viewOf page l x
  by_cases hx : r.Has x
  · rw [viewOf_of_has (by rwa [List.append_nil]) hx, if_pos hx, hr x hx]
  · rw [viewOf_of_not_has hx, if_neg hx, hnil]

/-- The region of a new mapping. -/
theorem pageAt_replicate {p : Page} (hpages : r.pages = .replicate ((r.length + page - 1) / page) p) (hp : 0 < page)
    (hm : p.mapped = true) (hx : r.Has x) : r.pageAt page x = some p := by
  have hlt : (x - r.base) / page < (r.length + page - 1) / page := by
    have hdiv := Nat.div_add_mod (r.length + page - 1) page
    have hmod := Nat.mod_lt (r.length + page - 1) hp
    rw [Nat.mul_comm] at hdiv
    rw [Nat.div_lt_iff_lt_mul hp]
    unfold Region.Has at hx
    omega
  unfold Region.pageAt
  rw [if_pos hx, hpages, List.getElem?_replicate, if_pos hlt]
  exact if_pos hm

end Artbox.Vm
