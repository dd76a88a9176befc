import Artbox.Pack.Text
import Mathlib.Data.List.Pairwise

/-!
# What `transformed` does to an image

`Inspected` is what `inspectText` has checked when it returns the sites, and `Rewritten` what the payload
is: the image with a branch at each site, zeros up to a multiple of 4, and the veneers, 128 bytes each, in
the order of the sites. A pass of the loop keeps `Rewritten` for the sites it has gone over.
-/

namespace Artbox.Pack

open Bytes Require

/-- Aligning to words rounds up to a multiple of four. -/
theorem align_four (value : Nat) : align value 4 = (value + 3) / 4 * 4 := by
  show Nat.ldiff (value + 3) 3 = (value + 3) / 4 * 4
  generalize value + 3 = n
  refine Nat.eq_of_testBit_eq fun i => ?_
  have h3 : Nat.testBit 3 i = decide (i < 2) := Nat.testBit_two_pow_sub_one 2 i
  have h4 : n / 4 * 4 = 2 ^ 2 * (n / 2 ^ 2) := Nat.mul_comm _ 4
  rw [Nat.testBit_ldiff, h3, h4, Nat.testBit_two_pow_mul, Nat.testBit_div_two_pow]
  by_cases hi : i < 2
  · simp [hi]
  · have hle : 2 ≤ i := Nat.not_lt.1 hi
    rw [Nat.sub_add_cancel hle]
    simp [hi, hle]

/-- A word is unpacked exactly where the image has four bytes. -/
theorem unpackWord_eq_ok {image : List UInt8} {offset word : Nat} :
    unpackWord image offset = .ok word ↔ offset + 4 ≤ image.length ∧ word = field image offset 4 := by
  have hoffset : ¬ (offset : Int) < 0 := by omega
  have hnat : ((offset : Int)).toNat = offset := Int.toNat_natCast offset
  simp only [unpackWord, if_neg hoffset, hnat]
  rw [require_bind_eq_ok]
  constructor
  · intro hall
    obtain ⟨⟨_, h⟩, hword⟩ := hall
    cases hword
    exact ⟨by omega, rfl⟩
  · intro hall
    obtain ⟨h, rfl⟩ := hall
    exact ⟨⟨by omega, by omega⟩, rfl⟩

/-! ## `inspect_text` -/

/-- A word that is no supervisor call is one of those allowed, and it stays in the text. -/
structure Allowed (image : List UInt8) (textSize pc word : Nat) (o : Operands) : Prop where
  operands : operands image pc word = .ok o
  registers : ∀ r ∈ o.registers, r ≠ 18 ∧ r ≠ 27 ∧ r ≠ 28
  target : ∀ target ∈ o.target, 0 ≤ target ∧ target < textSize

/-- The supervisor calls among the first words. -/
def calls (image : List UInt8) (k : Nat) : List Nat :=
  ((List.range k).map (4 * ·)).filter fun pc => field image pc 4 = 0xd4000001

/-- The listed sites are the words that are supervisor calls. -/
theorem mem_calls {image : List UInt8} {k site : Nat} :
    site ∈ calls image k ↔ ∃ j < k, 4 * j = site ∧ field image site 4 = 0xd4000001 := by
  rw [calls, List.mem_filter, List.mem_map, decide_eq_true_iff]
  constructor
  · intro hall
    obtain ⟨⟨j, hj, rfl⟩, hword⟩ := hall
    exact ⟨j, List.mem_range.1 hj, rfl, hword⟩
  · intro hall
    obtain ⟨j, hj, rfl, hword⟩ := hall
    exact ⟨⟨j, List.mem_range.2 hj, rfl⟩, hword⟩

/-- One more word lists at most one more site. -/
theorem calls_succ (image : List UInt8) (k : Nat) :
    calls image (k + 1) = calls image k ++ if field image (4 * k) 4 = 0xd4000001 then [4 * k] else [] := by
  rw [calls, List.range_succ, List.map_append, List.filter_append, List.map_singleton, List.filter_singleton]
  by_cases h : field image (4 * k) 4 = 0xd4000001
  · rw [decide_eq_true h, if_pos h]
    rfl
  · rw [decide_eq_false h, if_neg h]
    rfl

/-- Two sites do not overlap, and the earlier one is listed first. -/
theorem calls_apart (image : List UInt8) (k : Nat) : (calls image k).Pairwise fun a b => a + 4 ≤ b := by
  refine List.Pairwise.filter _ (List.pairwise_map.2 ?_)
  refine List.pairwise_lt_range.imp fun {a b} h => ?_
  omega

/-- What is known of the text when `inspect_text` returns. -/
structure Inspected (image : List UInt8) (textSize : Nat) (sites : List Nat) : Prop where
  sites_eq : sites = calls image ((textSize + 3) / 4)
  nonempty : sites ≠ []
  word : ∀ k < (textSize + 3) / 4, 4 * k + 4 ≤ image.length ∧
    (field image (4 * k) 4 = 0xd4000001 ∨ ∃ o, Allowed image textSize (4 * k) (field image (4 * k) 4) o)
  four_le : 4 ≤ textSize
  size_le : textSize ≤ image.length
  last : field image (textSize - 4) 4 &&& 0xfc000000 = 0x14000000

variable {image payload : List UInt8} {textSize : Nat} {sites : List Nat}

/-- One word more is inspected. -/
theorem inspectWord_ok {k : Nat} {sites' : List Nat} (h : inspectWord image textSize sites (4 * k) = .ok sites') :
    4 * k + 4 ≤ image.length ∧
      (field image (4 * k) 4 = 0xd4000001 ∨ ∃ o, Allowed image textSize (4 * k) (field image (4 * k) 4) o) ∧
      sites' = sites ++ if field image (4 * k) 4 = 0xd4000001 then [4 * k] else [] := by
  rw [inspectWord, bind_eq_ok] at h
  obtain ⟨word, hword, h⟩ := h
  obtain ⟨hle, rfl⟩ := unpackWord_eq_ok.1 hword
  by_cases hcall : field image (4 * k) 4 = 0xd4000001
  · rw [if_pos hcall] at h
    cases h
    exact ⟨hle, Or.inl hcall, by rw [if_pos hcall]⟩
  · rw [if_neg hcall, bind_eq_ok] at h
    obtain ⟨o, ho, h⟩ := h
    rw [require_bind_eq_ok, require_bind_eq_ok] at h
    obtain ⟨hregisters, htarget, h⟩ := h
    cases h
    exact ⟨hle, Or.inr ⟨o, ho, hregisters, htarget⟩, by rw [if_neg hcall, List.append_nil]⟩

/-- What `inspect_text` returns are all the supervisor calls of the text. -/
theorem Inspected.of_ok (h : inspectText image textSize = .ok sites) : Inspected image textSize sites := by
  rw [inspectText, bind_eq_ok] at h
  obtain ⟨last, hlast, h⟩ := h
  rw [require_bind_eq_ok, bind_eq_ok] at h
  obtain ⟨hbranch, sites', hloop, h⟩ := h
  rw [require_bind_eq_ok] at h
  obtain ⟨hne, h⟩ := h
  cases h
  obtain ⟨hsites, hwords⟩ := range_inv
    (P := fun k s => s = calls image k ∧ ∀ j < k, 4 * j + 4 ≤ image.length ∧
      (field image (4 * j) 4 = 0xd4000001 ∨ ∃ o, Allowed image textSize (4 * j) (field image (4 * j) 4) o))
    (fun k hk s s' hP hs => by
      obtain ⟨hle, hallowed, rfl⟩ := inspectWord_ok hs
      refine ⟨by rw [calls_succ, hP.1], fun j hj => ?_⟩
      rcases Nat.lt_succ_iff_lt_or_eq.1 hj with hj | rfl
      · exact hP.2 j hj
      · exact ⟨hle, hallowed⟩)
    ⟨rfl, fun j hj => absurd hj (Nat.not_lt_zero j)⟩ hloop
  -- a text of less than one word has no site, or its last word is not there
  have hpos : 0 < textSize := by
    rcases Nat.eq_zero_or_pos textSize with rfl | hpos
    · exact absurd hsites hne
    · exact hpos
  have hfour : 4 ≤ textSize := by
    by_contra hlt
    have hneg : (textSize : Int) - 4 < 0 := by omega
    simp only [unpackWord, if_pos hneg] at hlast
    rw [require_bind_eq_ok] at hlast
    omega
  have hcast : (textSize : Int) - 4 = ((textSize - 4 : Nat) : Int) := by omega
  rw [hcast, unpackWord_eq_ok] at hlast
  obtain ⟨hle, rfl⟩ := hlast
  exact ⟨hsites, hne, hwords, hfour, by omega, hbranch⟩

/-- Every site is an aligned supervisor call inside the text and the image. -/
theorem Inspected.mem (h : Inspected image textSize sites) {site : Nat} (hs : site ∈ sites) :
    site + 4 ≤ image.length ∧ site % 4 = 0 ∧ site < textSize ∧ field image site 4 = 0xd4000001 := by
  rw [h.sites_eq, mem_calls] at hs
  obtain ⟨j, hj, rfl, hword⟩ := hs
  exact ⟨(h.word j hj).1, by omega, by omega, hword⟩

/-- The sites do not overlap, and they come in the order of the text. -/
theorem Inspected.apart (h : Inspected image textSize sites) : sites.Pairwise fun a b => a + 4 ≤ b := by
  rw [h.sites_eq]
  exact calls_apart image _

/-! ## `branch` and `veneer` -/

/-- A branch is encoded exactly for an aligned displacement within 128 MiB. -/
theorem branch_eq_ok {source target word : Nat} :
    branch source target = .ok word ↔
      (((target : Int) - source) % 4 = 0 ∧ -2 ^ 27 ≤ (target : Int) - source ∧ (target : Int) - source < 2 ^ 27) ∧
        word = 0x14000000 ||| (((target : Int) - source) / 4 % 0x4000000).toNat := by
  rw [branch, require_bind_eq_ok]
  refine and_congr_right fun _ => ?_
  constructor
  · intro h
    cases h
    rfl
  · intro heq
    subst heq
    rfl

/-- An encoded branch is a 32-bit word. -/
theorem branch_lt {source target word : Nat} (h : branch source target = .ok word) : word < 2 ^ 32 := by
  obtain ⟨-, rfl⟩ := branch_eq_ok.1 h
  refine Nat.or_lt_two_pow (by decide) ?_
  omega

/-- A veneer has 31 words before its branch back. -/
theorem length_veneerWords : veneerWords.length = 31 := rfl

/-- The words of a veneer are 32-bit words. -/
theorem veneerWords_lt : ∀ word ∈ veneerWords, word < 2 ^ 32 := by
  decide

/-- A veneer is made exactly where its branch back is in range. -/
theorem veneer_eq_ok {address resume : Nat} {code : List UInt8} :
    veneer address resume = .ok code ↔
      ∃ back, branch (address + 124) resume = .ok back ∧ code = (veneerWords ++ [back]).flatMap (writeLE 4) := by
  rw [veneer, length_veneerWords, bind_eq_ok]
  refine exists_congr fun back => and_congr_right fun hback => ?_
  have hlength : (veneerWords ++ [back]).length = 32 := by
    rw [List.length_append, length_veneerWords, List.length_singleton]
  have hlt : ∀ word ∈ veneerWords ++ [back], word < 2 ^ 32 := by
    intro word hword
    rcases List.mem_append.1 hword with hword | hword
    · exact veneerWords_lt word hword
    · rw [List.mem_singleton.1 hword]
      exact branch_lt hback
  rw [require_bind_eq_ok, packWords, require_bind_eq_ok]
  constructor
  · intro h
    cases h.2.2
    rfl
  · intro hcode
    subst hcode
    exact ⟨hlength, hlt, rfl⟩

/-- A veneer takes 128 bytes. -/
theorem length_veneer {address resume : Nat} {code : List UInt8} (h : veneer address resume = .ok code) :
    code.length = 128 := by
  obtain ⟨back, _, rfl⟩ := veneer_eq_ok.1 h
  rw [length_flatMap_writeLE, List.length_append, length_veneerWords]
  rfl

/-- A veneer in reach of its site is written and branched to. -/
theorem addVeneer_ok {site : Nat} (hsite : site % 4 = 0) (hsite4 : site + 4 ≤ payload.length)
    (hpayload : payload.length % 4 = 0) (hreach : payload.length + 128 ≤ 2 ^ 27) :
    ∃ payload', addVeneer payload site = .ok payload' := by
  obtain ⟨back, hback⟩ : ∃ back, branch (payload.length + 124) (site + 4) = .ok back :=
    ⟨_, branch_eq_ok.2 ⟨by omega, rfl⟩⟩
  obtain ⟨jump, hjump⟩ : ∃ jump, branch site payload.length = .ok jump := ⟨_, branch_eq_ok.2 ⟨by omega, rfl⟩⟩
  have hveneer := veneer_eq_ok.2 ⟨back, hback, rfl⟩
  refine ⟨splice (payload ++ (veneerWords ++ [back]).flatMap (writeLE 4)) site (writeLE 4 jump), ?_⟩
  rw [addVeneer, bind_eq_ok]
  refine ⟨_, hveneer, ?_⟩
  rw [bind_eq_ok]
  refine ⟨jump, hjump, ?_⟩
  rw [packWord, require_bind_eq_ok, List.length_append]
  exact ⟨⟨by omega, branch_lt hjump⟩, rfl⟩

/-- A veneer is appended to the payload, and its site becomes a branch to it. -/
theorem addVeneer_eq_ok {site : Nat} {payload' : List UInt8} (h : addVeneer payload site = .ok payload') :
    ∃ code jump, veneer payload.length (site + 4) = .ok code ∧ branch site payload.length = .ok jump ∧
      payload' = splice (payload ++ code) site (writeLE 4 jump) := by
  rw [addVeneer, bind_eq_ok] at h
  obtain ⟨code, hcode, h⟩ := h
  rw [bind_eq_ok] at h
  obtain ⟨jump, hjump, h⟩ := h
  rw [packWord, require_bind_eq_ok] at h
  obtain ⟨_, h⟩ := h
  cases h
  exact ⟨code, jump, hcode, hjump, rfl⟩

/-! ## `transformed` -/

/-- Where the veneer of the `i`th site is. -/
def veneerAt (image : List UInt8) (i : Nat) : Nat := align image.length 4 + 128 * i

/-- The payload after the veneers of some sites. -/
structure Rewritten (image : List UInt8) (sites : List Nat) (payload : List UInt8) : Prop where
  length_eq : payload.length = veneerAt image sites.length
  kept : ∀ k < image.length, (∀ site ∈ sites, k < site ∨ site + 4 ≤ k) → payload[k]? = image[k]?
  padding : ∀ k, image.length ≤ k → k < align image.length 4 → payload[k]? = some 0
  site : ∀ i site : Nat, sites[i]? = some site → branch site (veneerAt image i) = .ok (field payload site 4)
  veneer : ∀ i site : Nat, sites[i]? = some site →
    veneer (veneerAt image i) (site + 4) = .ok ((payload.drop (veneerAt image i)).take 128)

/-- Veneers lie behind the image. -/
theorem le_veneerAt (image : List UInt8) (i : Nat) : image.length ≤ veneerAt image i := by
  rw [veneerAt, align_four]
  omega

/-- Veneers are aligned to words. -/
theorem veneerAt_mod_four (image : List UInt8) (i : Nat) : veneerAt image i % 4 = 0 := by
  rw [veneerAt, align_four]
  omega

/-- Each lies directly behind the one before. -/
theorem veneerAt_succ (image : List UInt8) (i : Nat) : veneerAt image (i + 1) = veneerAt image i + 128 := by
  rw [veneerAt, veneerAt]
  omega

/-- No two veneers overlap. -/
theorem veneerAt_le (image : List UInt8) {i j : Nat} (h : i < j) : veneerAt image i + 128 ≤ veneerAt image j := by
  rw [veneerAt, veneerAt]
  omega

/-- An image within the limit of `parse_elf`, with a site at each word, is in reach of a branch. -/
theorem Inspected.in_reach (h : Inspected image textSize sites) (hlimit : image.length ≤ 2 * 1024 * 1024 / 2) :
    veneerAt image sites.length ≤ 2 ^ 27 := by
  have hsites : sites.length ≤ (textSize + 3) / 4 := by
    rw [h.sites_eq, calls]
    refine Nat.le_trans (List.length_filter_le _ _) ?_
    rw [List.length_map, List.length_range]
  have hsize := h.size_le
  rw [veneerAt, align_four]
  omega

/-- The image, filled up with zeros. -/
theorem Rewritten.start (image : List UInt8) :
    Rewritten image [] (image ++ List.replicate (align image.length 4 - image.length) 0) where
  length_eq := by
    have hle := le_veneerAt image 0
    rw [List.length_append, List.length_replicate]
    unfold veneerAt at hle ⊢
    rw [List.length_nil]
    omega
  kept k hk _ := List.getElem?_append_left hk
  padding k hk hlt := by
    rw [List.getElem?_append_right hk, List.getElem?_replicate, if_pos (by omega)]
  site i site h := by cases h
  veneer i site h := by cases h

/-- One site more. -/
theorem Rewritten.add {done : List Nat} {site : Nat} {payload' : List UInt8} (h : Rewritten image done payload)
    (hsite : site + 4 ≤ image.length) (hbefore : ∀ a ∈ done, a + 4 ≤ site)
    (hadd : addVeneer payload site = .ok payload') :
    Rewritten image (done ++ [site]) payload' := by
  obtain ⟨code, jump, hcode, hjump, rfl⟩ := addVeneer_eq_ok hadd
  have hlength := h.length_eq
  have hcode128 := length_veneer hcode
  have himage := le_veneerAt image done.length
  have hroom : site + (writeLE 4 jump).length ≤ (payload ++ code).length := by
    rw [length_writeLE, List.length_append]
    omega
  -- everything before the new veneer stays, but for the new branch
  have hstays : ∀ k < payload.length, (k < site ∨ site + 4 ≤ k) →
      (splice (payload ++ code) site (writeLE 4 jump))[k]? = payload[k]? := by
    intro k hk hout
    rw [getElem?_splice_of_outside hroom (by rwa [length_writeLE]), List.getElem?_append_left hk]
  have hcases : ∀ i a : Nat, (done ++ [site])[i]? = some a →
      done[i]? = some a ∨ (i = done.length ∧ a = site) := by
    intro i a hi
    rcases Nat.lt_or_ge i done.length with hlt | hge
    · rw [List.getElem?_append_left hlt] at hi
      exact Or.inl hi
    · rw [List.getElem?_append_right hge, List.getElem?_singleton] at hi
      split at hi
      next h0 => exact Or.inr ⟨by omega, (Option.some.inj hi).symm⟩
      next => cases hi
  constructor
  case length_eq =>
    rw [length_splice hroom, List.length_append, List.length_append, List.length_singleton, veneerAt_succ]
    omega
  case kept =>
    intro k hk hout
    rw [hstays k (by omega) (hout site (by simp))]
    exact h.kept k hk fun a ha => hout a (List.mem_append_left _ ha)
  case padding =>
    intro k hk hlt
    have hle := veneerAt_le image (Nat.lt_succ_self done.length)
    rw [hstays k (by unfold veneerAt at hlength; omega) (by omega)]
    exact h.padding k hk hlt
  case site =>
    intro i a hi
    rcases hcases i a hi with hi | ⟨rfl, rfl⟩
    · have ha := hbefore a (List.mem_of_getElem? hi)
      rw [h.site i a hi]
      refine congrArg _ (field_congr fun k hk hlt => (hstays k ?_ ?_).symm)
      · omega
      · omega
    · have hword : jump % 256 ^ 4 = jump := Nat.mod_eq_of_lt (branch_lt hjump)
      rw [field_splice_self (by rwa [length_writeLE] at hroom), hword, ← hlength]
      exact hjump
  case veneer =>
    intro i a hi
    rcases hcases i a hi with hi | ⟨rfl, rfl⟩
    · have hlt : i < done.length := (List.getElem?_eq_some_iff.1 hi).1
      have hbelow := veneerAt_le image hlt
      have hi0 := le_veneerAt image i
      rw [h.veneer i a hi]
      refine congrArg _ (slice_congr fun k hk hlt => (hstays k ?_ ?_).symm)
      · omega
      · omega
    · have hdrop : (payload ++ code).drop payload.length = code := List.drop_left
      rw [← hlength, hcode]
      refine congrArg _ ?_
      calc code = ((payload ++ code).drop payload.length).take 128 := by
            rw [hdrop, List.take_of_length_le (Nat.le_of_eq hcode128)]
        _ = _ := slice_congr fun k hk _ => by
            rw [getElem?_splice_of_outside hroom]
            rw [length_writeLE]
            omega

/-- A site lies inside the image and behind the sites already rewritten. -/
theorem Inspected.before (h : Inspected image textSize sites) {done rest : List Nat} {site : Nat}
    (hl : sites = done ++ site :: rest) : site + 4 ≤ image.length ∧ ∀ a ∈ done, a + 4 ≤ site := by
  have happart := h.apart
  rw [hl, List.pairwise_append] at happart
  refine ⟨(h.mem (by rw [hl]; simp)).1, fun a ha => happart.2.2 a ha site List.mem_cons_self⟩

/-- A payload that `transform` returns has every site rewritten. -/
theorem Inspected.rewritten {sites' : List Nat} (h : inspectText image textSize = .ok sites)
    (ht : transformed image textSize = .ok (payload, sites')) : sites' = sites ∧ Rewritten image sites payload := by
  have hinspected := Inspected.of_ok h
  rw [transformed, bind_eq_ok] at ht
  obtain ⟨s, hs, ht⟩ := ht
  rw [bind_eq_ok] at ht
  obtain ⟨p, hp, ht⟩ := ht
  rw [h] at hs
  cases hs
  cases ht
  refine ⟨rfl, foldlM_inv (P := Rewritten image) (fun done site rest q q' hl hq hadd => ?_) (Rewritten.start image) hp⟩
  obtain ⟨hsite, hbefore⟩ := hinspected.before hl
  exact hq.add hsite hbefore hadd

/-- An image in reach of a branch is transformed. -/
theorem Inspected.transformed_ok (h : inspectText image textSize = .ok sites)
    (hreach : veneerAt image sites.length ≤ 2 ^ 27) : ∃ payload, transformed image textSize = .ok (payload, sites) := by
  have hinspected := Inspected.of_ok h
  obtain ⟨payload, hp, _⟩ := foldlM_ok (P := Rewritten image) (f := addVeneer) (l := sites)
    (fun done site rest q hl hq => by
      obtain ⟨hsite, hbefore⟩ := hinspected.before hl
      have hsites : site ∈ sites := by
        rw [hl]
        exact List.mem_append_right done List.mem_cons_self
      have hmem := hinspected.mem hsites
      have hq4 := veneerAt_mod_four image done.length
      have himage := le_veneerAt image done.length
      have hle : veneerAt image done.length + 128 ≤ veneerAt image sites.length :=
        veneerAt_le image (by rw [hl, List.length_append, List.length_cons]; omega)
      have hlength := hq.length_eq
      obtain ⟨q', hq'⟩ : ∃ q', addVeneer q site = .ok q' := addVeneer_ok hmem.2.1 (by omega) (by omega) (by omega)
      exact ⟨q', hq', hq.add hsite hbefore hq'⟩)
    (Rewritten.start image)
  refine ⟨payload, ?_⟩
  rw [transformed, bind_eq_ok]
  refine ⟨sites, h, ?_⟩
  rw [bind_eq_ok]
  exact ⟨payload, hp, rfl⟩

end Artbox.Pack
