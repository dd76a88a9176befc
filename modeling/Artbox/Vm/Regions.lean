import Artbox.Vm.Space
import Mathlib.Algebra.BigOperators.Group.List.Basic
import Mathlib.Tactic.Ring

/-!
# The regions of a space

What holds of a space in every run, whatever the callbacks answer: the regions have no common
address, each has a flag byte for every page and knows how many of them are mapped, the guard of
a window is never mapped, and `reserved` is what the owned regions have (`Space.Good`). There are
three ways a space changes, a region more (`Holds.push`), other pages in a region (`Holds.edit`)
and a region less (`Holds.erase`), and every operation is put together from them. Storage whose
release failed in a rollback may have an unusable address; it is in a poisoned space, where no
operation looks at it (`Region.Placed`).
-/

namespace Artbox.Vm

/-! ## Words -/

/-- A sum that fits is not wrapped. -/
theorem add64_eq {a b : Nat} (h : a + b < word) : add64 a b = a + b := Nat.mod_eq_of_lt h

/-- A difference that is not negative is not wrapped. -/
theorem sub64_eq {a b : Nat} (hb : b ≤ a) (ha : a < word) : sub64 a b = a - b := by
  rw [sub64, Nat.mod_eq_of_lt (Nat.lt_of_le_of_lt hb ha), show a + (word - b) = a - b + word by omega,
    Nat.add_mod_right]
  exact Nat.mod_eq_of_lt (by omega)

/-- A word below the sign bit is its own value. -/
theorem signed_eq {a : Nat} (h : a ≤ int64Max) : signed a = a := by
  rw [signed, BitVec.toInt_eq_toNat_of_lt]
  · rw [BitVec.toNat_ofNat, Nat.mod_eq_of_lt]
    unfold int64Max at h
    omega
  · rw [BitVec.toNat_ofNat]
    unfold int64Max at h
    omega

namespace Region

variable {r q : Region} {page first count n : Nat} {f : Page → Page}

/-! ## Editing pages -/

/-- The pages are those before a slice, the slice, and those behind it. -/
theorem pages_split (r : Region) (first count : Nat) :
    r.pages = r.pages.take first ++ r.slice first count ++ r.pages.drop (first + count) := by
  rw [slice, List.append_assoc, ← List.drop_drop, List.take_append_drop, List.take_append_drop]

/-- A slice inside of the pages has its length. -/
theorem length_slice (h : first + count ≤ r.pages.length) : (r.slice first count).length = count := by
  rw [slice, List.length_take, List.length_drop]
  omega

@[simp] theorem edit_base : (r.edit first count f).base = r.base := rfl
@[simp] theorem edit_length : (r.edit first count f).length = r.length := rfl

/-- An edit inside of the pages leaves their number. -/
theorem length_edit (h : first + count ≤ r.pages.length) :
    (r.edit first count f).pages.length = r.pages.length := by
  simp only [edit, List.length_append, List.length_map, List.length_take, List.length_drop, length_slice h]
  omega

/-- Only the pages of the range are rewritten. -/
theorem getElem?_edit (h : first + count ≤ r.pages.length) (n : Nat) :
    (r.edit first count f).pages[n]? =
      if first ≤ n ∧ n < first + count then (r.pages[n]?).map f else r.pages[n]? := by
  have hlen : (r.pages.take first).length = first := List.length_take_of_le (by omega)
  have hmid : ((r.slice first count).map f).length = count := by rw [List.length_map, length_slice h]
  unfold edit
  by_cases h1 : n < first
  · rw [if_neg (by omega), List.append_assoc, List.getElem?_append_left (by omega),
      List.getElem?_take_of_lt h1]
  · by_cases h2 : n < first + count
    · rw [if_pos ⟨by omega, h2⟩, List.getElem?_append_left (by rw [List.length_append]; omega),
        List.getElem?_append_right (by omega), List.getElem?_map, slice, List.getElem?_take_of_lt (by omega),
        List.getElem?_drop, hlen, show first + (n - first) = n by omega]
    · rw [if_neg (by omega), List.getElem?_append_right (by rw [List.length_append]; omega),
        List.length_append, hlen, hmid, List.getElem?_drop, show first + count + (n - (first + count)) = n by omega]

/-- Pages are counted before a slice, in it and behind it. -/
theorem countP_pages (r : Region) (first count : Nat) (p : Page → Bool) :
    r.pages.countP p =
      (r.pages.take first).countP p + (r.slice first count).countP p + (r.pages.drop (first + count)).countP p := by
  conv => lhs; rw [pages_split r first count]
  rw [List.countP_append, List.countP_append]

/-- Edited pages are counted before the slice, edited in it, and behind it. -/
theorem countP_edit (r : Region) (first count : Nat) (f : Page → Page) (p : Page → Bool) :
    (r.edit first count f).pages.countP p = (r.pages.take first).countP p +
      ((r.slice first count).map f).countP p + (r.pages.drop (first + count)).countP p := by
  rw [edit, List.countP_append, List.countP_append]

/-- A page of the edited region is an old one or a rewritten one. -/
theorem mem_edit {p : Page} (h : p ∈ (r.edit first count f).pages) :
    p ∈ r.pages ∨ ∃ q ∈ r.pages, p = f q := by
  unfold edit at h
  rw [List.mem_append, List.mem_append] at h
  rcases h with (h | h) | h
  · exact .inl (List.mem_of_mem_take h)
  · obtain ⟨q, hq, rfl⟩ := List.mem_map.1 h
    exact .inr ⟨q, List.mem_of_mem_drop (List.mem_of_mem_take hq), rfl⟩
  · exact .inl (List.mem_of_mem_drop h)

/-! ## Good regions -/

/-- The ranges of two regions have no common address. -/
def Disjoint (r q : Region) : Prop := r.base + r.length ≤ q.base ∨ q.base + q.length ≤ r.base

/-- What holds of a region. -/
structure Good (page : Nat) (r : Region) : Prop where
  length_pos : 0 < r.length
  pages_length : r.pages.length = (r.length + page - 1) / page
  le_word : r.base + r.length ≤ word
  live : r.live = r.pages.countP (·.mapped)
  /-- Only a read-only range of the host has no protectable pages. -/
  protectable : r.owned = true → r.protectable = true
  whole : r.protectable = true → r.length % page = 0
  guard : r.guardBytes ≠ 0 →
    r.owned = true ∧ r.file = none ∧ r.guardBytes % page = 0 ∧ r.guardBytes < r.length
  guard_unmapped : ∀ n < r.guardBytes / page, ∀ p, r.pages[n]? = some p → p.mapped = false
  file : ∀ p ∈ r.pages, p.filePage = true → r.file.isSome = true
  ceiling : ∀ p ∈ r.pages, p.denyWrite = true → p.protection &&& 2 = 0

/-- What holds of a region that is not left over from a failed rollback. -/
structure Placed (page : Nat) (r : Region) : Prop where
  lt_word : r.base + r.length < word
  aligned : r.protectable = true → r.base % page = 0
  window : r.guardBytes ≠ 0 → 0 < r.base ∧ r.base + r.length ≤ int64Max

/-- Only the pages, the number of mapped ones and the file are different. -/
structure SameFrame (r q : Region) : Prop where
  base : q.base = r.base
  length : q.length = r.length
  guardBytes : q.guardBytes = r.guardBytes
  owned : q.owned = r.owned
  protectable : q.protectable = r.protectable

/-- A region with the frame of a placed one is placed. -/
theorem SameFrame.placed (h : SameFrame r q) (hr : r.Placed page) : q.Placed page := by
  obtain ⟨hb, hl, hg, _, hp⟩ := h
  exact ⟨hb ▸ hl ▸ hr.lt_word, hb ▸ hp ▸ hr.aligned, hb ▸ hl ▸ hg ▸ hr.window⟩

/-- A region contains a range that lies between its ends. -/
theorem contains_iff {address length : Nat} :
    r.contains address length = true ↔ r.base ≤ address ∧ address + length ≤ r.base + r.length := by
  simp only [contains, Bool.and_eq_true, decide_eq_true_eq]
  omega

/-- Regions apart have no nonempty range in common. -/
theorem Disjoint.not_contains (h : Disjoint r q) {address length : Nat} (hn : 0 < length)
    (hr : r.contains address length = true) : q.contains address length = false := by
  rw [contains_iff] at hr
  rw [Bool.eq_false_iff, Ne, contains_iff]
  rcases h with h | h <;> omega

/-- The pages of a protectable region fill it. -/
theorem Good.pages_whole (h : r.Good page) (hp : 0 < page) (hw : r.protectable = true) :
    r.pages.length * page = r.length := by
  obtain ⟨k, hk⟩ := Nat.dvd_of_mod_eq_zero (h.whole hw)
  rw [h.pages_length, hk, show page * k + page - 1 = page - 1 + page * k by omega,
    Nat.add_mul_div_left _ _ hp, Nat.div_eq_of_lt (by omega), Nat.zero_add, Nat.mul_comm]

/-- Where the pages of a range in a region of whole pages are. -/
theorem Good.pages_of_contains (h : r.Good page) (hpl : r.Placed page) (hp : 0 < page)
    (hw : r.protectable = true) {address size : Nat} (ha : address % page = 0) (hz : size % page = 0)
    (hc : r.contains address size = true) :
    r.base + (address - r.base) / page * page = address ∧
      (address - r.base) / page + size / page ≤ r.pages.length := by
  have hlen := h.pages_whole hp hw
  rw [contains_iff] at hc
  obtain ⟨k, hk⟩ := Nat.dvd_of_mod_eq_zero (hpl.aligned hw)
  obtain ⟨m, hm⟩ := Nat.dvd_of_mod_eq_zero ha
  obtain ⟨z, hz⟩ := Nat.dvd_of_mod_eq_zero hz
  have hle : k ≤ m := Nat.le_of_mul_le_mul_left (by omega) hp
  have hsub : address - r.base = page * (m - k) := by rw [hk, hm, Nat.mul_sub]
  rw [hsub, hz, Nat.mul_div_cancel_left _ hp, Nat.mul_div_cancel_left _ hp]
  refine ⟨by rw [hk, hm, Nat.mul_comm _ page, ← Nat.mul_add, Nat.add_sub_cancel' hle], ?_⟩
  refine Nat.le_of_mul_le_mul_right (c := page) ?_ hp
  rw [hlen, Nat.add_mul, Nat.mul_comm _ page, Nat.mul_comm _ page, ← hsub, ← hz]
  omega

/-! ## Good regions stay good -/

/-- Mapped pages are all counted. -/
theorem mapped_constant {l : List Page} {p : Page} (h : p.mapped = true) :
    (l.map fun _ => p).countP (·.mapped) = l.length := by
  rw [List.countP_eq_length.2, List.length_map]
  intro q hq
  obtain ⟨_, _, rfl⟩ := List.mem_map.1 hq
  exact h

/-- Mapped and unmapped pages are all pages. -/
theorem countP_mapped_add (l : List Page) :
    l.countP (·.mapped) + l.countP (fun p => !p.mapped) = l.length := by
  rw [List.length_eq_countP_add_countP (·.mapped)]
  congr 2
  funext p
  simp

/-- The mapped pages after some were mapped. -/
theorem countP_replace (r : Region) (first count : Nat) (permissions : BitVec 2) :
    (r.edit first count fun _ => { mapped := true, protection := permissions }).pages.countP (·.mapped) =
      r.pages.countP (·.mapped) + (r.slice first count).countP fun p => !p.mapped := by
  have hslice := countP_mapped_add (r.slice first count)
  rw [countP_edit, countP_pages r first count, mapped_constant rfl]
  omega

/-- The mapped pages after some were unmapped. -/
theorem countP_unmap (r : Region) (first count : Nat) :
    (r.edit first count fun _ => {}).pages.countP (·.mapped) =
      r.pages.countP (·.mapped) - r.mappedIn first count := by
  have hzero : ((r.slice first count).map fun _ => ({} : Page)).countP (·.mapped) = 0 := by
    rw [List.countP_eq_zero]
    intro p hp
    obtain ⟨_, _, rfl⟩ := List.mem_map.1 hp
    simp
  rw [countP_edit, countP_pages r first count, hzero, mappedIn]
  omega

/-- A new protection maps nothing. -/
theorem countP_protect (r : Region) (first count : Nat) (permissions : BitVec 2) :
    (r.edit first count fun p => { p with protection := permissions }).pages.countP (·.mapped) =
      r.pages.countP (·.mapped) := by
  rw [countP_edit, countP_pages r first count, List.countP_map]
  rfl

/-- The pages of a good region may be rewritten if the guard of a window stays unmapped and no
page is writable against its ceiling. -/
theorem Good.edit {live : Nat} {file : Option FileMapping} (h : r.Good page)
    (hlen : first + count ≤ r.pages.length)
    (hlive : live = (r.edit first count f).pages.countP (·.mapped))
    (hguard : first < r.guardBytes / page → ∀ p, p.mapped = false → (f p).mapped = false)
    (hnone : r.file = none → file = none)
    (hfile : ∀ p ∈ (r.edit first count f).pages, p.filePage = true → file.isSome = true)
    (hceiling : ∀ p ∈ r.slice first count, (f p).denyWrite = true → (f p).protection &&& 2 = 0) :
    ({ r.edit first count f with live, file } : Region).Good page where
  length_pos := h.length_pos
  pages_length := (length_edit hlen).trans h.pages_length
  le_word := h.le_word
  live := hlive
  protectable := h.protectable
  whole := h.whole
  guard := fun hg =>
    have hw := h.guard hg
    ⟨hw.1, hnone hw.2.1, hw.2.2⟩
  guard_unmapped := fun n hn p hp => by
    have hp : (r.edit first count f).pages[n]? = some p := hp
    rw [getElem?_edit hlen] at hp
    split at hp
    next hin =>
      obtain ⟨q, hq, rfl⟩ := Option.map_eq_some_iff.1 hp
      exact hguard (Nat.lt_of_le_of_lt hin.1 hn) q (h.guard_unmapped n hn q hq)
    next => exact h.guard_unmapped n hn p hp
  file := hfile
  ceiling := fun p hp hd => by
    have hp : p ∈ (r.edit first count f).pages := hp
    unfold Region.edit at hp
    rw [List.mem_append, List.mem_append] at hp
    rcases hp with (hp | hp) | hp
    · exact h.ceiling p (List.mem_of_mem_take hp) hd
    · obtain ⟨q, hq, rfl⟩ := List.mem_map.1 hp
      exact hceiling q hq hd
    · exact h.ceiling p (List.mem_of_mem_drop hp) hd

end Region

namespace Space

variable {s : Space} {h : Host} {r r' : Region} {i : Nat} {done rest : List Region}

/-! ## Good spaces -/

/-- What a region adds to `reserved`. -/
def weight (r : Region) : Nat := if r.owned then r.length else 0

/-- What holds of a space with the regions `l`. -/
structure Holds (s : Space) (l : List Region) : Prop where
  page_pos : 0 < s.pageSize
  limit_lt : s.limit < word
  regions : ∀ r ∈ l, r.Good s.pageSize
  placed : s.poisoned = false → ∀ r ∈ l, r.Placed s.pageSize
  disjoint : l.Pairwise Region.Disjoint
  reserved : s.reserved = (l.map weight).sum
  reserved_le : s.reserved ≤ s.limit
  count : l.length ≤ s.regionLimit

/-- What holds of a space. -/
def Good (s : Space) : Prop := s.Holds s.regions

/-- The log, the watches and the window of the space are of no account. -/
theorem Holds.same {l : List Region} {s' : Space} (hs : s.Holds l) (hpage : s'.pageSize = s.pageSize)
    (hlimit : s'.limit = s.limit) (hcount : s'.regionLimit = s.regionLimit) (hreserved : s'.reserved = s.reserved)
    (hpo : s'.poisoned = false → s.poisoned = false) : s'.Holds l := by
  obtain ⟨h1, h2, h3, h4, h5, h6, h7, h8⟩ := hs
  exact ⟨hpage ▸ h1, hlimit ▸ h2, hpage ▸ h3, hpage ▸ fun hp => h4 (hpo hp), h5, hreserved ▸ h6,
    hlimit ▸ hreserved ▸ h7, hcount ▸ h8⟩

/-- Watches and the log do not matter to the regions. -/
theorem Holds.quiet {l : List Region} (hs : s.Holds l) (watches : List MappingState)
    (log : List (Request × Int)) : Holds { s with watches, log } l := hs.same rfl rfl rfl rfl id

/-- A note does not matter to the regions. -/
theorem Holds.note {l : List Region} (hs : s.Holds l) (request : Request) (answer : Int) :
    (s.note request answer).Holds l := hs.same rfl rfl rfl rfl id

/-- A native call does not matter to the regions, even if it poisons the space. -/
theorem Holds.mutation {l : List Region} (hs : s.Holds l) (request : Request) (answer : Int) :
    (s.mutation request answer).Holds l :=
  hs.same rfl rfl rfl rfl fun hp => (Bool.or_eq_false_iff.1 hp).1

/-- Watches and the log do not matter to a good space. -/
theorem Good.quiet (hs : s.Good) (watches : List MappingState) (log : List (Request × Int)) :
    Good { s with watches, log } := Holds.quiet hs watches log

/-- A note leaves a space good. -/
theorem Good.note (hs : s.Good) (request : Request) (answer : Int) : (s.note request answer).Good :=
  Holds.note hs request answer

/-- A native call leaves a space good, even if it poisons it. -/
theorem Good.mutation (hs : s.Good) (request : Request) (answer : Int) : (s.mutation request answer).Good :=
  Holds.mutation hs request answer

/-- What the destructor of a file and the watches change. -/
theorem watch_eq (s : Space) (tracking : Option Nat) (f : MappingState → MappingState) :
    ∃ watches, s.watch tracking f = { s with watches } := by
  cases tracking with
  | none => exact ⟨s.watches, rfl⟩
  | some i => exact ⟨_, rfl⟩

/-- A file that is dropped changes watches and the log only. -/
theorem drop_eq (s : Space) (file : Option FileMapping) :
    ∃ watches log, s.drop file = { s with watches, log } := by
  cases file with
  | none => exact ⟨s.watches, s.log, rfl⟩
  | some f =>
    obtain ⟨watches, hw⟩ := s.watch_eq f.tracking fun _ => ⟨false, false⟩
    simp only [Space.drop, hw]
    split
    · exact ⟨watches, s.log, rfl⟩
    · exact ⟨watches, _, rfl⟩

/-- The loss of file pages changes watches only. -/
theorem invalidateFilePages_eq (s : Space) (r : Region) (first count : Nat) :
    ∃ watches, s.invalidateFilePages r first count = { s with watches } := by
  unfold invalidateFilePages
  cases r.file with
  | none => exact ⟨s.watches, rfl⟩
  | some f =>
    simp only
    split
    · exact s.watch_eq _ _
    · exact ⟨s.watches, rfl⟩

/-- The file of a region is kept as long as the region has a page of it. -/
theorem releaseUnusedFile_eq (s : Space) (r : Region) :
    ∃ watches log file, s.releaseUnusedFile r = ({ s with watches, log }, file) ∧
      (r.file = none → file = none) ∧ ((∃ p ∈ r.pages, p.filePage = true) → file = r.file) := by
  unfold releaseUnusedFile
  by_cases hany : r.pages.any (·.filePage) = true
  · rw [if_pos hany]
    exact ⟨s.watches, s.log, r.file, rfl, id, fun _ => rfl⟩
  · obtain ⟨watches, log, hd⟩ := s.drop_eq r.file
    rw [if_neg hany, hd]
    refine ⟨watches, log, none, rfl, fun _ => rfl, fun hp => ?_⟩
    exact absurd (List.any_eq_true.2 hp) hany

/-- A file that is dropped leaves a space good. -/
theorem Good.drop (hs : s.Good) (file : Option FileMapping) : (s.drop file).Good := by
  obtain ⟨watches, log, hd⟩ := s.drop_eq file
  rw [hd]
  exact hs.quiet watches log

/-! ## The ways a space changes -/

/-- A region more. -/
theorem Holds.push {l : List Region} (hs : s.Holds l) (hr : r.Good s.pageSize)
    (hp : s.poisoned = false → r.Placed s.pageSize) (hd : ∀ q ∈ l, q.Disjoint r)
    (hn : l.length ≠ s.regionLimit) (hl : weight r ≤ s.limit - s.reserved) :
    Holds { s with reserved := s.reserved + weight r } (l ++ [r]) where
  page_pos := hs.page_pos
  limit_lt := hs.limit_lt
  regions := fun q hq => by
    rcases List.mem_append.1 hq with hq | hq
    · exact hs.regions q hq
    · obtain rfl := List.mem_singleton.1 hq
      exact hr
  placed := fun hpo q hq => by
    rcases List.mem_append.1 hq with hq | hq
    · exact hs.placed hpo q hq
    · obtain rfl := List.mem_singleton.1 hq
      exact hp hpo
  disjoint := by
    refine List.pairwise_append.2 ⟨hs.disjoint, List.pairwise_singleton _ _, fun q hq t ht => ?_⟩
    obtain rfl := List.mem_singleton.1 ht
    exact hd q hq
  reserved := by
    rw [List.map_append, List.sum_append, ← hs.reserved]
    simp
  reserved_le := by
    have := hs.reserved_le
    show s.reserved + weight r ≤ s.limit
    omega
  count := by
    have := hs.count
    rw [List.length_append, List.length_singleton]
    show l.length + 1 ≤ s.regionLimit
    omega

/-- Other pages in a region. -/
theorem Holds.edit (hs : s.Holds (done ++ r :: rest)) (hf : r.SameFrame r') (hg : r'.Good s.pageSize) :
    s.Holds (done ++ r' :: rest) where
  page_pos := hs.page_pos
  limit_lt := hs.limit_lt
  regions := fun q hq => by
    rcases List.mem_append.1 hq with hq | hq
    · exact hs.regions q (List.mem_append_left _ hq)
    · rcases List.mem_cons.1 hq with rfl | hq
      · exact hg
      · exact hs.regions q (List.mem_append_right _ (List.mem_cons_of_mem _ hq))
  placed := fun hpo q hq => by
    rcases List.mem_append.1 hq with hq | hq
    · exact hs.placed hpo q (List.mem_append_left _ hq)
    · rcases List.mem_cons.1 hq with rfl | hq
      · exact hf.placed (hs.placed hpo r (List.mem_append_right _ List.mem_cons_self))
      · exact hs.placed hpo q (List.mem_append_right _ (List.mem_cons_of_mem _ hq))
  disjoint := by
    have hd := List.pairwise_append.1 hs.disjoint
    have hc := List.pairwise_cons.1 hd.2.1
    refine List.pairwise_append.2 ⟨hd.1, List.pairwise_cons.2 ⟨fun q hq => ?_, hc.2⟩, fun q hq t ht => ?_⟩
    · have := hc.1 q hq
      unfold Region.Disjoint at this ⊢
      rw [hf.base, hf.length]
      exact this
    · rcases List.mem_cons.1 ht with rfl | ht
      · have := hd.2.2 q hq r List.mem_cons_self
        unfold Region.Disjoint at this ⊢
        rw [hf.base, hf.length]
        exact this
      · exact hd.2.2 q hq t (List.mem_cons_of_mem _ ht)
  reserved := by
    have hw : weight r' = weight r := by rw [weight, weight, hf.owned, hf.length]
    have hres := hs.reserved
    rw [List.map_append, List.map_cons] at hres ⊢
    rw [hw]
    exact hres
  reserved_le := hs.reserved_le
  count := by
    have := hs.count
    simp only [List.length_append, List.length_cons] at this ⊢
    exact this

/-- What a region has is reserved. -/
theorem Holds.weight_le (hs : s.Holds (done ++ r :: rest)) : weight r ≤ s.reserved := by
  rw [hs.reserved, List.map_append, List.map_cons, List.sum_append, List.sum_cons]
  omega

/-- A region less. -/
theorem Holds.erase (hs : s.Holds (done ++ r :: rest)) :
    Holds { s with reserved := s.reserved - weight r } (done ++ rest) where
  page_pos := hs.page_pos
  limit_lt := hs.limit_lt
  regions := fun q hq => hs.regions q (by
    rcases List.mem_append.1 hq with hq | hq
    · exact List.mem_append_left _ hq
    · exact List.mem_append_right _ (List.mem_cons_of_mem _ hq))
  placed := fun hpo q hq => hs.placed hpo q (by
    rcases List.mem_append.1 hq with hq | hq
    · exact List.mem_append_left _ hq
    · exact List.mem_append_right _ (List.mem_cons_of_mem _ hq))
  disjoint := hs.disjoint.sublist (List.Sublist.append_left (List.sublist_cons_self r rest) done)
  reserved := by
    show s.reserved - weight r = ((done ++ rest).map weight).sum
    rw [hs.reserved]
    simp only [List.map_append, List.map_cons, List.sum_append, List.sum_cons]
    omega
  reserved_le := Nat.le_trans (Nat.sub_le _ _) hs.reserved_le
  count := by
    have hc := hs.count
    show (done ++ rest).length ≤ s.regionLimit
    simp only [List.length_append, List.length_cons] at hc ⊢
    omega

/-- A good region with the same frame leaves a space good. -/
theorem Good.setRegion (hs : s.Good) (hi : s.regions[i]? = some r) (hf : r.SameFrame r')
    (hg : r'.Good s.pageSize) : (s.setRegion i r').Good := by
  obtain ⟨hlt, hr⟩ := List.getElem?_eq_some_iff.1 hi
  have hsplit : s.regions = s.regions.take i ++ r :: s.regions.drop (i + 1) := by
    rw [← hr, List.cons_getElem_drop_succ, List.take_append_drop]
  have hset : s.regions.set i r' = s.regions.take i ++ r' :: s.regions.drop (i + 1) := by
    rw [List.set_eq_take_append_cons_drop, if_pos hlt]
  have hs' : s.Holds (s.regions.take i ++ r :: s.regions.drop (i + 1)) := by
    rw [← hsplit]
    exact hs
  show Holds _ (s.regions.set i r')
  rw [hset]
  exact (hs'.edit hf hg).same rfl rfl rfl rfl id

/-! ## Sizes and places -/

/-- A length is rounded up to whole pages, or to zero where that does not fit. -/
theorem rounded_spec (hp : 0 < s.pageSize) {length : Nat} (h : s.rounded length ≠ 0) :
    s.rounded length % s.pageSize = 0 ∧ length ≤ s.rounded length ∧ s.rounded length < word := by
  unfold rounded at h ⊢
  simp only at h ⊢
  split at h
  · exact absurd rfl h
  next hc =>
    rw [if_neg hc]
    have hdiv := Nat.div_add_mod (length + (s.pageSize - 1)) s.pageSize
    have hmod := Nat.mod_lt (length + (s.pageSize - 1)) hp
    rw [Nat.mul_comm] at hdiv
    refine ⟨Nat.mul_mod_left _ _, ?_, ?_⟩ <;> omega

/-- A range is accepted if it starts at a page and does not wrap. -/
theorem range_iff {address length : Nat} :
    s.range address length = true ↔ address % s.pageSize = 0 ∧ address + length < word := by
  have hw : 0 < word := by decide
  simp only [range, Bool.and_eq_true, decide_eq_true_eq]
  omega

/-- What is found with its index is there. -/
theorem find_zipIdx {α : Type} {l : List α} {p : α × Nat → Bool} {a : α}
    (h : l.zipIdx.find? p = some (a, i)) : l[i]? = some a ∧ p (a, i) = true :=
  ⟨List.mem_zipIdx_iff_getElem?.1 (List.mem_of_find?_eq_some h), List.find?_some h⟩

/-- A region that is found contains the range. -/
theorem containing_some {address length : Nat} (h : s.containing address length = some (r, i)) :
    s.regions[i]? = some r ∧ r.contains address length = true := find_zipIdx h

/-- A window that is found starts at the base and is guarded. -/
theorem managedWindow_some {base : Nat} (h : s.managedWindow base = some (r, i)) :
    s.regions[i]? = some r ∧ r.base = base ∧ r.guardBytes ≠ 0 := by
  obtain ⟨hi, hp⟩ := find_zipIdx h
  simp only [Bool.and_eq_true, beq_iff_eq, bne_iff_ne] at hp
  exact ⟨hi, hp⟩

/-- In a space whose regions are apart, the region that has a range is the one that is found. -/
theorem Good.containing_eq (hs : s.Good) {address length : Nat} (hi : s.regions[i]? = some r)
    (hc : r.contains address length = true) (hn : 0 < length) :
    s.containing address length = some (r, i) := by
  cases hf : s.containing address length with
  | none =>
    have := List.find?_eq_none.1 hf (r, i) (List.mem_zipIdx_iff_getElem?.2 hi)
    exact absurd hc this
  | some q =>
    obtain ⟨q, j⟩ := q
    obtain ⟨hj, hq⟩ := containing_some hf
    have hd := List.pairwise_iff_getElem.1 hs.disjoint
    obtain ⟨hil, hir⟩ := List.getElem?_eq_some_iff.1 hi
    obtain ⟨hjl, hjr⟩ := List.getElem?_eq_some_iff.1 hj
    rcases Nat.lt_trichotomy i j with hlt | rfl | hlt
    · have := hd i j hil hjl hlt
      rw [hir, hjr] at this
      rw [this.not_contains hn hc] at hq
      cases hq
    · rw [← hir, ← hjr]
    · have := hd j i hjl hil hlt
      rw [hir, hjr] at this
      rw [this.not_contains hn hq] at hc
      cases hc

end Space

end Artbox.Vm
