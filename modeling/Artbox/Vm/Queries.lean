import Artbox.Vm.PageMap

/-!
# What an access is allowed

In a space that may be used, the queries say what the page map says: an access is allowed exactly where the
map and the host have every address of it with the permissions it needs, in one region (`queries_exact`).
-/

namespace Artbox.Vm.Space

variable {s : Space} {r : Region}

/-- The pages that an access looks at are those of its addresses. -/
theorem all_pages_iff {address length : Nat} {P : Page → Bool} (hg : r.Good s.pageSize) (hp : 0 < s.pageSize)
    (hn : 0 < length) (hc : r.contains address length = true) :
    (r.slice ((address - r.base) / s.pageSize)
        ((address - r.base + length - 1) / s.pageSize + 1 - (address - r.base) / s.pageSize)).all P = true ↔
      ∀ x, address ≤ x → x < address + length →
        ∃ p, r.pages[(x - r.base) / s.pageSize]? = some p ∧ P p = true := by
  obtain ⟨hlo, hhi⟩ := Region.contains_iff.1 hc
  have hfirst := Nat.div_le_div_right (c := s.pageSize) (show address - r.base ≤ address - r.base + length - 1 by omega)
  rw [List.all_eq_true]
  constructor
  · intro hall x hx hx'
    have hn1 : (address - r.base) / s.pageSize ≤ (x - r.base) / s.pageSize := Nat.div_le_div_right (by omega)
    have hn2 : (x - r.base) / s.pageSize ≤ (address - r.base + length - 1) / s.pageSize :=
      Nat.div_le_div_right (by omega)
    have hlt : (x - r.base) / s.pageSize < r.pages.length := by
      have hdiv := Nat.div_add_mod (r.length + s.pageSize - 1) s.pageSize
      have hmod := Nat.mod_lt (r.length + s.pageSize - 1) hp
      rw [Nat.mul_comm] at hdiv
      rw [Nat.div_lt_iff_lt_mul hp, hg.pages_length]
      omega
    refine ⟨_, List.getElem?_eq_getElem hlt, hall _ (List.mem_iff_getElem?.2
      ⟨(x - r.base) / s.pageSize - (address - r.base) / s.pageSize, ?_⟩)⟩
    rw [Region.slice, List.getElem?_take_of_lt (by omega), List.getElem?_drop, Nat.add_sub_cancel' hn1,
      List.getElem?_eq_getElem hlt]
  · intro hall p hmem
    obtain ⟨i, hi⟩ := List.mem_iff_getElem?.1 hmem
    have hi' : i < (address - r.base + length - 1) / s.pageSize + 1 - (address - r.base) / s.pageSize := by
      by_contra hge
      rw [Region.slice, List.getElem?_take_eq_none (Nat.le_of_not_lt hge)] at hi
      cases hi
    rw [Region.slice, List.getElem?_take_of_lt hi', List.getElem?_drop] at hi
    generalize hm : (address - r.base) / s.pageSize + i = m at hi
    have hm' : m * s.pageSize ≤ address - r.base + length - 1 := (Nat.le_div_iff_mul_le hp).1 (by omega)
    -- the first address of the page, or of the range
    have hpage : (max address (r.base + m * s.pageSize) - r.base) / s.pageSize = m := by
      rcases Nat.le_total address (r.base + m * s.pageSize) with hle | hle
      · rw [Nat.max_eq_right hle, Nat.add_sub_cancel_left, Nat.mul_div_cancel _ hp]
      · rw [Nat.max_eq_left hle]
        have : m ≤ (address - r.base) / s.pageSize := (Nat.le_div_iff_mul_le hp).2 (by omega)
        omega
    obtain ⟨q, hq, hP⟩ := hall (max address (r.base + m * s.pageSize)) (by omega) (by omega)
    rw [hpage, hi] at hq
    exact Option.some.inj hq ▸ hP

/-- An access is allowed where all its addresses are mapped with the permissions it needs, in one region. -/
theorem access_exact (hr : machine.Reachable s) {address length : Nat} {required : BitVec 2} (hn : 0 < length) :
    s.accessible address length required = true ↔
      s.poisoned = false ∧ ∃ r ∈ s.regions, r.contains address length = true ∧
        ∀ x, address ≤ x → x < address + length → ∃ p, s.view x = some p ∧ p.protection &&& required = required := by
  have hs := reachable_good hr
  -- the map in the region that has the range
  have hview : ∀ r ∈ s.regions, r.contains address length = true → ∀ x, address ≤ x → x < address + length →
      s.view x = (r.pages[(x - r.base) / s.pageSize]?).filter (·.mapped) := by
    intro r hmem hc x hx hx'
    obtain ⟨hlo, hhi⟩ := Region.contains_iff.1 hc
    obtain ⟨done, rest, hsplit⟩ := List.append_of_mem hmem
    have hs' : s.Holds (done ++ r :: rest) := hsplit ▸ hs
    have hhas : r.Has x := ⟨by omega, by omega⟩
    unfold view
    rw [hsplit, viewOf_of_has hs'.apart hhas]
    exact if_pos hhas
  have hregion : ∀ r ∈ s.regions, r.contains address length = true →
      ((r.slice ((address - r.base) / s.pageSize)
          ((address - r.base + length - 1) / s.pageSize + 1 - (address - r.base) / s.pageSize)).all
            (fun p => p.mapped && p.protection &&& required == required) = true ↔
        ∀ x, address ≤ x → x < address + length →
          ∃ p, s.view x = some p ∧ p.protection &&& required = required) := by
    intro r hmem hc
    rw [all_pages_iff (hs.regions r hmem) hs.page_pos hn hc]
    refine forall_congr' fun x => imp_congr_right fun hx => imp_congr_right fun hx' => exists_congr fun p => ?_
    rw [hview r hmem hc x hx hx', Option.filter_eq_some_iff, Bool.and_eq_true, beq_iff_eq, and_assoc]
  unfold accessible
  cases hpo : s.poisoned with
  | true => exact ⟨nofun, nofun⟩
  | false =>
    rw [if_neg Bool.false_ne_true, if_neg (Nat.ne_of_gt hn)]
    cases hc : s.containing address length with
    | none =>
      refine ⟨nofun, fun ⟨_, r, hmem, hin, _⟩ => ?_⟩
      obtain ⟨i, hi⟩ := List.mem_iff_getElem?.1 hmem
      rw [hs.containing_eq hi hin hn] at hc
      cases hc
    | some q =>
      obtain ⟨r, i⟩ := q
      obtain ⟨hi, hin⟩ := containing_some hc
      refine (hregion r (List.mem_of_getElem? hi) hin).trans
        ⟨fun hall => ⟨rfl, r, List.mem_of_getElem? hi, hin, hall⟩, fun ⟨_, _, _, _, hall⟩ => hall⟩

/-- `artbox_vm_fault_info`. -/
structure FaultInfo where
  mapped : Bool := false
  protection : BitVec 2 := 0
  fileBacked : Bool := false
deriving DecidableEq, Repr

/-- `artbox_vm_fault_snapshot`, where it may read. -/
def faultSnapshot (s : Space) (address : Nat) : Except Int FaultInfo :=
  if s.poisoned then .error (-5)
  else
    match s.containing address 1 with
    | none => .ok {}
    | some (r, _) =>
      let p := r.pages.getD ((address - r.base) / s.pageSize) {}
      .ok (if p.mapped then ⟨true, p.protection, p.filePage⟩ else {})

/-- In a space that may be used, an access is allowed exactly where all its addresses are mapped in one region with
the permissions it needs, and then the host has them with these permissions, if the region is an owned one. A fault
snapshot says what the map has at its address. -/
theorem queries_exact (hr : machine.Reachable s) (hpo : s.poisoned = false) :
    (∀ address length required, 0 < length →
      (s.accessible address length required = true ↔
        ∃ r ∈ s.regions, r.contains address length = true ∧
          ∀ x, address ≤ x → x < address + length →
            (∃ p, s.view x = some p ∧ p.protection &&& required = required) ∧
            (r.owned = true → ∃ c, native s.log x = some c ∧ c.protection &&& required = required))) ∧
    ∀ x, s.faultSnapshot x = .ok (match s.view x with
      | some p => ⟨true, p.protection, p.filePage⟩
      | none => {}) := by
  have hs := reachable_good hr
  refine ⟨fun address length required hn => ?_, fun x => ?_⟩
  · rw [access_exact hr hn]
    refine ⟨fun ⟨_, r, hmem, hc, hall⟩ => ⟨r, hmem, hc, fun x hx hx' => ⟨hall x hx hx', fun ho => ?_⟩⟩,
      fun ⟨r, hmem, hc, hall⟩ => ⟨hpo, r, hmem, hc, fun x hx hx' => (hall x hx hx').1⟩⟩
    obtain ⟨hlo, hhi⟩ := Region.contains_iff.1 hc
    have hhas : r.Has x := ⟨by omega, by omega⟩
    obtain ⟨done, rest, hsplit⟩ := List.append_of_mem hmem
    have hs' : s.Holds (done ++ r :: rest) := hsplit ▸ hs
    obtain ⟨p, hp, hrequired⟩ := hall x hx hx'
    unfold view at hp
    rw [hsplit, viewOf_of_has hs'.apart hhas] at hp
    have hp : (r.pages[(x - r.base) / s.pageSize]?).filter (·.mapped) = some p := (if_pos hhas).symm.trans hp
    rw [Option.filter_eq_some_iff] at hp
    -- what the space says of the page is what the host last did to it
    have hagrees := (hostAgrees_reachable hr).regions hpo r hmem ho
    exact ⟨_, hagrees.pages _ p hp.1 x (hhas.inPage hs.page_pos), hrequired⟩
  · unfold faultSnapshot
    rw [hpo, if_neg Bool.false_ne_true]
    cases hc : s.containing x 1 with
    | none =>
      have hnone : s.view x = none := by
        refine viewOf_none fun r hmem hhas => ?_
        obtain ⟨i, hi⟩ := List.mem_iff_getElem?.1 hmem
        have hin : r.contains x 1 = true := by
          unfold Region.Has at hhas
          exact Region.contains_iff.2 ⟨hhas.1, by omega⟩
        rw [hs.containing_eq hi hin Nat.one_pos] at hc
        cases hc
      rw [hnone]
    | some q =>
      obtain ⟨r, i⟩ := q
      obtain ⟨hi, hin⟩ := containing_some hc
      have hmem := List.mem_of_getElem? hi
      obtain ⟨hlo, hhi⟩ := Region.contains_iff.1 hin
      have hhas : r.Has x := ⟨hlo, by omega⟩
      obtain ⟨done, rest, hsplit⟩ := List.append_of_mem hmem
      have hs' : s.Holds (done ++ r :: rest) := hsplit ▸ hs
      have hview : s.view x = (r.pages[(x - r.base) / s.pageSize]?).filter (·.mapped) := by
        unfold view
        rw [hsplit, viewOf_of_has hs'.apart hhas]
        exact if_pos hhas
      rw [hview]
      dsimp only
      rw [List.getD_eq_getElem?_getD]
      cases r.pages[(x - r.base) / s.pageSize]? with
      | none => rfl
      | some p =>
        rw [Option.filter_some, Option.getD_some]
        split <;> rfl

theorem queries_exact_sample : sampleUnmapped.faultSnapshot 0x11000 = .ok ⟨true, 3, true⟩ :=
  (queries_exact sampleUnmapped_reachable (by decide)).2 0x11000

end Artbox.Vm.Space
