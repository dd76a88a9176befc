import Artbox.Vm.Regions

/-!
# The operations keep a space good

One lemma for each operation, and from them what holds in every run of a space (`reachable_good`).
-/

namespace Artbox.Vm.Space

variable {s : Space} {h : Host}

/-- An operation that branches. -/
theorem good_ite {c : Prop} [Decidable c] {x y : Int × Space} (hx : c → x.2.Good) (hy : ¬ c → y.2.Good) :
    (if c then x else y).2.Good := by
  by_cases hc : c
  · rw [if_pos hc]
    exact hx hc
  · rw [if_neg hc]
    exact hy hc

/-- An operation that checks first: a refused request changes nothing. -/
theorem Good.check {c : Prop} [Decidable c] {error : Int} {x : Int × Space} (hs : s.Good)
    (hx : ¬ c → x.2.Good) : (if c then (error, s) else x).2.Good :=
  good_ite (fun _ => hs) hx

/-! ## Anonymous storage -/

/-- A fixed mapping keeps the invariant, also where the native call fails. -/
theorem Good.replace (hs : s.Good) (hpo : s.poisoned = false) {window : Option Nat} {address size : Nat}
    {permissions : BitVec 2} (hz : size % s.pageSize = 0) :
    (s.replace h window address size permissions).2.Good := by
  have hp := hs.page_pos
  unfold Space.replace
  split
  · exact hs
  next hrange =>
    have hrange := range_iff.1 (by simpa using hrange)
    cases hc : s.containing address size with
    | none => exact hs
    | some q =>
      obtain ⟨r, i⟩ := q
      obtain ⟨hi, hin⟩ := containing_some hc
      simp only
      split
      · exact hs
      split
      · exact hs
      next ho =>
        split
        · exact hs
        next hguard =>
          have ho : r.owned = true := by simpa using ho
          have hr := List.mem_of_getElem? hi
          have hplaced := hs.placed hpo r hr
          have hgood := hs.regions r hr
          obtain ⟨hfirst, hlen⟩ := hgood.pages_of_contains hplaced hp (hgood.protectable ho) hrange.1 hz hin
          obtain ⟨watches, hw⟩ := s.invalidateFilePages_eq r ((address - r.base) / s.pageSize) (size / s.pageSize)
          rw [hw]
          have hs' := (hs.quiet watches s.log).mutation (.reset address size permissions)
            (h.reset address size permissions)
          split
          · exact hs'
          · generalize hr' : ({ r.edit ((address - r.base) / s.pageSize) (size / s.pageSize)
              (fun _ => { mapped := true, protection := permissions }) with
              live := r.live + (r.slice ((address - r.base) / s.pageSize) (size / s.pageSize)).countP
                fun p => !p.mapped } : Region) = r'
            obtain ⟨watches', log', file, hf, hnone, hkeep⟩ := releaseUnusedFile_eq
              (Space.mutation { s with watches } (.reset address size permissions)
                (h.reset address size permissions)) r'
            rw [hf]
            refine (hs'.quiet watches' log').setRegion (r := r) hi ?_ ?_
            · subst hr'
              exact ⟨rfl, rfl, rfl, rfl, rfl⟩
            · subst hr'
              refine hgood.edit hlen ?_ ?_ hnone ?_ ?_
              · rw [hgood.live, Region.countP_replace]
              · intro hlt
                -- the range begins behind the guard
                have hg : r.guardBytes ≠ 0 := by
                  rintro hg
                  rw [hg, Nat.zero_div] at hlt
                  exact absurd hlt (Nat.not_lt_zero _)
                obtain ⟨_, _, hgm, hgl⟩ := hgood.guard hg
                rw [add64_eq (by have := hplaced.lt_word; omega)] at hguard
                have := Nat.div_mul_cancel (Nat.dvd_of_mod_eq_zero hgm)
                have hmul := Nat.mul_le_mul_right s.pageSize (Nat.succ_le_of_lt hlt)
                rw [Nat.succ_mul] at hmul
                omega
              · intro p hpm hfp
                rw [hkeep ⟨p, hpm, hfp⟩]
                rcases Region.mem_edit hpm with hpm | ⟨_, _, rfl⟩
                · exact hgood.file p hpm hfp
                · cases hfp
              · intro p hpm hd
                cases hd

/-- Pages of one kind make a good region. -/
theorem good_uniform {r : Region} {page count : Nat} {p : Page} (hpages : r.pages = .replicate count p)
    (hlive : r.live = if p.mapped then count else 0) (hguard : r.guardBytes = 0)
    (hcount : count = (r.length + page - 1) / page) (hpos : 0 < r.length) (hword : r.base + r.length ≤ word)
    (hprotectable : r.owned = true → r.protectable = true) (hwhole : r.protectable = true → r.length % page = 0)
    (hfile : p.filePage = true → r.file.isSome = true)
    (hceiling : p.denyWrite = true → p.protection &&& 2 = 0) : r.Good page where
  length_pos := hpos
  pages_length := by rw [hpages, List.length_replicate, hcount]
  le_word := hword
  live := by rw [hlive, hpages, List.countP_replicate]
  protectable := hprotectable
  whole := hwhole
  guard := fun hg => absurd hguard hg
  guard_unmapped := fun n hn => by
    rw [hguard, Nat.zero_div] at hn
    exact absurd hn (Nat.not_lt_zero n)
  file := fun q hq => by
    rw [hpages] at hq
    rw [List.eq_of_mem_replicate hq]
    exact hfile
  ceiling := fun q hq => by
    rw [hpages] at hq
    rw [List.eq_of_mem_replicate hq]
    exact hceiling

/-- Whole pages need no rounding. -/
theorem round_up_of_mod {size page : Nat} (hp : 0 < page) (hz : size % page = 0) :
    size / page = (size + page - 1) / page := by
  obtain ⟨k, rfl⟩ := Nat.dvd_of_mod_eq_zero hz
  rw [Nat.mul_div_cancel_left _ hp, show page * k + page - 1 = page - 1 + page * k by omega,
    Nat.add_mul_div_left _ _ hp, Nat.div_eq_of_lt (by omega), Nat.zero_add]

/-- An owned region more. -/
theorem Good.keep {r : Region} (hs : s.Good) (ho : r.owned = true) (hr : r.Good s.pageSize)
    (hp : s.poisoned = false → r.Placed s.pageSize)
    (hd : ∀ q ∈ s.regions, r.base + r.length ≤ q.base ∨ q.base + q.length ≤ r.base)
    (hroom : ¬ (s.regions.length = s.regionLimit ∨ s.limit - s.reserved < r.length)) : (s.keep r).Good := by
  rw [not_or] at hroom
  have hw : weight r = r.length := if_pos ho
  refine (Holds.push hs hr hp (fun q hq => (hd q hq).symm) hroom.1 ?_).same rfl rfl rfl ?_ id
  · rw [hw]
    exact Nat.le_of_not_lt hroom.2
  · rw [hw]
    rfl

/-- Storage that could not be used is given back or stays owned. -/
theorem Good.rollback {r : Region} (hs : s.Good) (ho : r.owned = true) (hr : r.Good s.pageSize)
    (hd : ∀ q ∈ s.regions, r.base + r.length ≤ q.base ∨ q.base + q.length ≤ r.base)
    (hroom : ¬ (s.regions.length = s.regionLimit ∨ s.limit - s.reserved < r.length)) :
    (s.rollback h r).Good := by
  have hs1 := hs.note (.release r.base r.length) (h.release r.base r.length)
  unfold Space.rollback
  simp only
  split
  · have hpoison : Good { s.note (.release r.base r.length) (h.release r.base r.length) with
        poisoned := true } := Holds.same hs1 rfl rfl rfl rfl nofun
    exact hpoison.keep ho hr nofun hd hroom
  · exact hs1.drop r.file

/-- A mapping in fresh storage keeps the invariant. -/
theorem Good.reserveRegion (hs : s.Good) (hf : h.Fresh s.regions) {size : Nat}
    {permissions : BitVec 2} (hz : size % s.pageSize = 0) (hn : size ≠ 0) :
    (s.reserveRegion h size permissions).2.Good := by
  unfold Space.reserveRegion
  split
  · exact hs
  next hroom =>
    split
    · exact hs
    next =>
      have hfresh := hf size
      generalize hres : h.reserve size = answer at hfresh ⊢
      obtain ⟨result, storage⟩ := answer
      have hs1 := hs.note (.reserve size storage) result
      simp only at hfresh ⊢
      split
      · exact hs1
      next hresult =>
        split
        · split
          · exact hs1.note _ _
          · exact hs1
        next hplace =>
          rw [not_or, not_or] at hplace
          have hrange : (s.note (.reserve size storage) result).range storage size = true := by
            simpa using hplace.2.2
          obtain ⟨haligned, hend⟩ := range_iff.1 hrange
          obtain ⟨_, hdisjoint⟩ := hfresh (by simpa using hresult) hplace.1
          have hgood : (Region.uniform storage size (size / s.pageSize)
              { mapped := true, protection := permissions }).Good s.pageSize :=
            good_uniform (p := { mapped := true, protection := permissions }) rfl rfl rfl
              (round_up_of_mod hs.page_pos hz) (Nat.pos_of_ne_zero hn) (Nat.le_of_lt hend) (fun _ => rfl)
              (fun _ => hz) nofun nofun
          have hplaced : (Region.uniform storage size (size / s.pageSize)
              { mapped := true, protection := permissions }).Placed s.pageSize :=
            ⟨hend, fun _ => haligned, fun hg => absurd rfl hg⟩
          split
          next hp0 =>
            exact hs1.keep rfl hgood (fun _ => hplaced) hdisjoint hroom
          next =>
            have hs2 := hs1.note (.protect storage size permissions) (h.protect storage size permissions)
            simp only
            split
            · exact hs2.rollback rfl hgood hdisjoint hroom
            · exact hs2.keep rfl hgood (fun _ => hplaced) hdisjoint hroom

/-- An anonymous mapping keeps it. -/
theorem Good.mmapLocked (hs : s.Good) (hf : h.Fresh s.regions) {window : Option (Region × Nat)}
    {address length offset : Nat} {prot flags : BitVec 64} :
    (s.mmapLocked h window address length prot flags offset).2.Good := by
  unfold Space.mmapLocked
  split
  · exact hs
  next hpo =>
    have hpo : s.poisoned = false := by simpa using hpo
    simp only
    split
    · exact hs
    next hsize =>
      obtain ⟨hz, _⟩ := rounded_spec hs.page_pos (not_or.1 hsize).1
      cases protection prot with
      | error e => exact hs
      | ok permissions =>
        simp only
        split
        · exact hs
        split
        · exact hs.replace hpo hz
        · cases window with
          | none => exact hs.reserveRegion hf hz (not_or.1 hsize).1
          | some q =>
            obtain ⟨r, i⟩ := q
            simp only
            split
            · exact hs
            · exact hs.replace hpo hz

/-- An anonymous mapping in a window keeps the invariant. -/
theorem Good.mmapWindow (hs : s.Good) (hf : h.Fresh s.regions) {base address length offset : Nat}
    {prot flags : BitVec 64} : (s.mmapWindow h base address length prot flags offset).2.Good := by
  unfold Space.mmapWindow
  split
  · exact hs
  · split
    · exact hs
    · exact hs.mmapLocked hf

/-! ## Windows -/

/-- The reservation of a window keeps the invariant. -/
theorem Good.reserveWindow (hs : s.Good) (hf : h.Fresh s.regions) {length guardBytes : Nat} :
    (s.reserveWindow h length guardBytes).2.1.Good := by
  unfold Space.reserveWindow
  split
  · exact hs
  next hargs =>
    simp only [not_or, Decidable.not_not] at hargs
    obtain ⟨_, hz, hg0, hgz, hgl⟩ := hargs
    split
    · exact hs
    split
    · exact hs
    next hroom =>
      split
      · exact hs
      next =>
        have hfresh := hf length
        generalize hres : h.reserve length = answer at hfresh ⊢
        obtain ⟨result, storage⟩ := answer
        have hs1 := hs.note (.reserve length storage) result
        simp only at hfresh ⊢
        split
        · exact hs1
        next hresult =>
          have hresult : result = 0 := Decidable.not_not.1 hresult
          -- the window is one region without a mapped page, whatever becomes of it
          have hgood : storage + length ≤ word → Region.Good s.pageSize
              { Region.uniform storage length (length / s.pageSize) {} with guardBytes } := by
            intro hword
            have hu : (Region.uniform storage length (length / s.pageSize) {}).Good s.pageSize :=
              good_uniform (p := {}) rfl rfl rfl (round_up_of_mod hs.page_pos hz) (by show 0 < length; omega) hword
                (fun _ => rfl) (fun _ => hz) nofun nofun
            exact ⟨hu.length_pos, hu.pages_length, hu.le_word, hu.live, hu.protectable, hu.whole,
              fun _ => ⟨rfl, rfl, hgz, Nat.lt_of_not_le hgl⟩,
              fun n _ p hp => by rw [List.eq_of_mem_replicate (List.mem_of_getElem? hp)], hu.file, hu.ceiling⟩
          split
          · split
            next hstorage =>
              obtain ⟨hword, hdisjoint⟩ := hfresh hresult hstorage
              exact hs1.rollback rfl (hgood hword) hdisjoint hroom
            · exact hs1
          next hplace =>
            simp only [not_or] at hplace
            have hrange : (s.note (.reserve length storage) result).range storage length = true := by
              simpa using hplace.2.2.1
            obtain ⟨haligned, hend⟩ := range_iff.1 hrange
            have hvalid : validWindow storage length guardBytes = true := by simpa using hplace.2.2.2
            have hstorage : storage ≠ 0 := by
              unfold validWindow at hvalid
              simp only [Bool.and_eq_true, bne_iff_ne] at hvalid
              exact hvalid.1.1.1.1.1
            obtain ⟨hword, hdisjoint⟩ := hfresh hresult hstorage
            refine hs1.keep rfl (hgood hword) (fun _ => ⟨hend, fun _ => haligned, fun _ => ?_⟩) hdisjoint hroom
            refine ⟨Nat.pos_of_ne_zero hstorage, ?_⟩
            show storage + length ≤ int64Max
            omega

/-! ## Files -/

/-- Attaching a file to a region that is good with it keeps the invariant. -/
theorem Good.attachFile {r : Region} {file : FileMapping} {permissions : BitVec 2} {watched : Bool}
    (hs : s.Good) (ho : r.owned = true) (hr : ∀ f, Region.Good s.pageSize { r with file := some f })
    (hfile : r.file = some file) (hp : r.Placed s.pageSize)
    (hd : ∀ q ∈ s.regions, r.base + r.length ≤ q.base ∨ q.base + q.length ≤ r.base)
    (hroom : ¬ (s.regions.length = s.regionLimit ∨ s.limit - s.reserved < r.length)) :
    (s.attachFile h r file permissions watched).2.Good := by
  have hs1 := hs.note (.map file.reference r.base r.length permissions file.sharing file.offset)
    (h.map file.reference r.base r.length permissions file.sharing file.offset)
  have hr1 : r.Good s.pageSize := by
    have := hr file
    rwa [← hfile] at this
  unfold Space.attachFile
  simp only
  split
  · exact hs1.rollback ho hr1 hd hroom
  split
  · refine (hs1.quiet _ _).keep ho (hr _) (fun _ => ⟨hp.lt_word, hp.aligned, hp.window⟩) hd hroom
  · exact hs1.keep ho hr1 (fun _ => hp) hd hroom

/-- A file mapping in fresh storage keeps the invariant. -/
theorem Good.reserveFile (hs : s.Good) (hf : h.Fresh s.regions) {size : Nat} {page : Page} {file : FileMapping}
    {watched : Bool} (hz : size % s.pageSize = 0) (hn : size ≠ 0)
    (hceiling : page.denyWrite = true → page.protection &&& 2 = 0)
    (hroom : ¬ (s.regions.length = s.regionLimit ∨ s.limit - s.reserved < size)) :
    (s.reserveFile h size page file watched).2.Good := by
  unfold Space.reserveFile
  have hfresh := hf size
  generalize hres : h.reserve size = answer at hfresh ⊢
  obtain ⟨error, storage⟩ := answer
  have hs1 := hs.note (.reserve size storage) error
  simp only at hfresh ⊢
  split
  · exact hs1.drop (some file)
  next hresult =>
    split
    · split
      · exact (hs1.note _ _).drop (some file)
      · exact hs1.drop (some file)
    next hplace =>
      rw [not_or, not_or] at hplace
      have hrange : (s.note (.reserve size storage) error).range storage size = true := by
        simpa using hplace.2.2
      obtain ⟨haligned, hend⟩ := range_iff.1 hrange
      obtain ⟨_, hdisjoint⟩ := hfresh (Decidable.not_not.1 hresult) hplace.1
      refine hs1.attachFile rfl (fun f => ?_) rfl ⟨hend, fun _ => haligned, fun hg => absurd rfl hg⟩ hdisjoint hroom
      exact good_uniform rfl rfl rfl (round_up_of_mod hs.page_pos hz) (Nat.pos_of_ne_zero hn)
        (Nat.le_of_lt hend) (fun _ => rfl) (fun _ => hz) (fun _ => rfl) hceiling

/-- `artbox_vm_map_file` keeps the invariant. -/
theorem Good.mapFile (hs : s.Good) (hf : h.Fresh s.regions) {length offset file : Nat} {prot flags : BitVec 64}
    {maximum : BitVec 2} {watched : Bool} :
    (s.mapFile h length prot flags offset file maximum watched).2.Good := by
  unfold Space.mapFile
  refine hs.check fun _ => hs.check fun _ => hs.check fun _ => hs.check fun hsize => hs.check fun _ => ?_
  obtain ⟨hz, _⟩ := rounded_spec hs.page_pos (not_or.1 hsize).1
  cases protection prot with
  | error e => exact hs
  | ok permissions =>
    refine hs.check fun _ => hs.check fun _ => hs.check fun hmax => hs.check fun hroom => hs.check fun _ => ?_
    generalize h.acquire file = answer
    obtain ⟨error, reference⟩ := answer
    have hs1 := hs.note (.acquire file reference) error
    refine good_ite (fun _ => ?_) fun _ => hs1.check fun _ => ?_
    · exact hs1.drop (some ⟨reference, offset, (flags &&& 0xf).toNat, none⟩)
    · refine hs1.reserveFile hf hz (not_or.1 hsize).1 (fun hd => ?_) hroom
      -- the ceiling is read-only, and so are the permissions
      have hone : maximum = 1 := by simpa using hd
      rw [hone] at hmax
      exact Decidable.not_not.1 hmax

/-! ## Existing pages -/

/-- `artbox_vm_mprotect` keeps it, run by run. -/
theorem Good.mprotect (hs : s.Good) {address length : Nat} {prot : BitVec 64} :
    (s.mprotect h address length prot).2.Good := by
  unfold Space.mprotect
  refine hs.check fun hpo => ?_
  have hpo : s.poisoned = false := by simpa using hpo
  cases protection prot with
  | error e => exact hs
  | ok permissions =>
    refine hs.check fun hrange => hs.check fun hlength => ?_
    rw [not_or] at hrange
    have hsize : s.rounded length ≠ 0 := fun h0 => hrange.2 ⟨h0, hlength⟩
    obtain ⟨hz, _⟩ := rounded_spec hs.page_pos hsize
    cases hc : s.containing address (s.rounded length) with
    | none => exact hs
    | some q =>
      obtain ⟨r, i⟩ := q
      obtain ⟨hi, hin⟩ := containing_some hc
      have hr := List.mem_of_getElem? hi
      have hgood := hs.regions r hr
      refine hs.check fun hprotectable => ?_
      have hprotectable : r.protectable = true := by simpa using hprotectable
      have haligned := (range_iff.1 (by simpa using hrange.1)).1
      obtain ⟨_, hlen⟩ :=
        hgood.pages_of_contains (hs.placed hpo r hr) hs.page_pos hprotectable haligned hz hin
      refine hs.check fun _ => hs.check fun hdeny => ?_
      have hs1 := hs.mutation (.protect address (s.rounded length) permissions)
        (h.protect address (s.rounded length) permissions)
      simp only
      split
      · refine hs1.setRegion (r := r) hi ⟨rfl, rfl, rfl, rfl, rfl⟩ ?_
        refine hgood.edit hlen ?_ (fun _ p hp => hp) id ?_ ?_
        · exact hgood.live.trans (Region.countP_protect r _ _ _).symm
        · intro p hp hf
          rcases Region.mem_edit hp with hp | ⟨q, hq, rfl⟩
          · exact hgood.file p hp hf
          · exact hgood.file q hq hf
        · intro p hp hd
          by_contra hw
          exact hdeny ⟨hw, List.any_eq_true.2 ⟨p, hp, hd⟩⟩
      · exact hs1

/-- What a range of whole pages has in common with a region of whole pages: it is a range of the
region. -/
theorem overlap_spec {r : Region} {page address size : Nat} (hg : r.Good page) (hpl : r.Placed page)
    (hw : r.protectable = true) (ha : address % page = 0) (hz : size % page = 0) (hend : address + size < word)
    (ho : overlaps address size r.base r.length = true) :
    let start := max address r.base
    let stop := min (add64 address size) (add64 r.base r.length)
    start % page = 0 ∧ (stop - start) % page = 0 ∧ r.contains start (stop - start) = true := by
  have hbase := hpl.aligned hw
  have hlen := hg.whole hw
  have hlt := hpl.lt_word
  have hpos := hg.length_pos
  unfold overlaps at ho
  rw [add64_eq hend, add64_eq hlt] at ho ⊢
  simp only [Bool.and_eq_true, decide_eq_true_eq] at ho
  have hdvd : page ∣ min (address + size) (r.base + r.length) := by
    rcases Nat.le_total (address + size) (r.base + r.length) with hle | hle
    · rw [Nat.min_eq_left hle]
      exact Nat.dvd_add (Nat.dvd_of_mod_eq_zero ha) (Nat.dvd_of_mod_eq_zero hz)
    · rw [Nat.min_eq_right hle]
      exact Nat.dvd_add (Nat.dvd_of_mod_eq_zero hbase) (Nat.dvd_of_mod_eq_zero hlen)
  have hdvd' : page ∣ max address r.base := by
    rcases Nat.le_total address r.base with hle | hle
    · rw [Nat.max_eq_right hle]
      exact Nat.dvd_of_mod_eq_zero hbase
    · rw [Nat.max_eq_left hle]
      exact Nat.dvd_of_mod_eq_zero ha
  refine ⟨Nat.mod_eq_zero_of_dvd hdvd', Nat.mod_eq_zero_of_dvd (Nat.dvd_sub hdvd hdvd'), ?_⟩
  rw [Region.contains_iff]
  omega

/-- One region of `artbox_vm_munmap`. -/
theorem Holds.unmapRegion {address size : Nat} {done rest : List Region} {r : Region}
    (hs : s.Holds (done ++ r :: rest)) (hpo : s.poisoned = false) (ha : address % s.pageSize = 0)
    (hz : size % s.pageSize = 0) (hend : address + size < word)
    (ho : overlaps address size r.base r.length = true) (hown : r.owned = true) :
    (s.unmapRegion h address size r).2.1.Holds (done ++ (s.unmapRegion h address size r).2.2.toList ++ rest) ∧
      (s.unmapRegion h address size r).2.1.pageSize = s.pageSize ∧
      ((s.unmapRegion h address size r).1 = 0 → (s.unmapRegion h address size r).2.1.poisoned = false) := by
  have hr : r ∈ done ++ r :: rest := List.mem_append_right _ List.mem_cons_self
  have hgood := hs.regions r hr
  have hplaced := hs.placed hpo r hr
  have hpr := hgood.protectable hown
  obtain ⟨hstart, hsize, hin⟩ := overlap_spec hgood hplaced hpr ha hz hend ho
  obtain ⟨_, hlen⟩ := hgood.pages_of_contains hplaced hs.page_pos hpr hstart hsize hin
  have hstay : done ++ (some r).toList ++ rest = done ++ r :: rest := by simp
  unfold Space.unmapRegion
  extract_lets start stop first count removed s₁ result s₂ dropped result' s₃ edited r'
  obtain ⟨watches, hw⟩ : ∃ watches, s₁ = { s with watches } := s.invalidateFilePages_eq r first count
  have hs₁ : s₁.Holds (done ++ r :: rest) := hw ▸ hs.quiet watches s.log
  have hpage : s₁.pageSize = s.pageSize := by rw [hw]
  have hpo₁ : s₁.poisoned = false := by rw [hw, ← hpo]
  -- the whole region goes, or pages of it do, or there were none
  by_cases hwhole : removed = r.live ∧ r.guardBytes = 0
  · have hs₂ : s₂.Holds (done ++ r :: rest) := hs₁.mutation _ _
    rw [if_pos hwhole]
    by_cases hres : result ≠ 0
    · rw [if_pos hres]
      exact ⟨hstay ▸ hs₂, hpage, fun h0 => absurd h0 hres⟩
    · rw [if_neg hres]
      obtain ⟨watches', log', hd⟩ : ∃ watches log, dropped = { s₂ with watches, log } := drop_eq s₂ r.file
      have hpo₂ : s₂.poisoned = false := by
        show (s₁.poisoned || result != 0) = false
        rw [hpo₁, Decidable.not_not.1 hres]
        rfl
      -- the released bytes were counted, so the sum does not wrap
      have hsub : sub64 s₂.reserved r.length = s₂.reserved - weight r := by
        rw [show weight r = r.length from if_pos hown]
        refine sub64_eq ?_ (Nat.lt_of_le_of_lt hs₂.reserved_le hs₂.limit_lt)
        rw [← show weight r = r.length from if_pos hown]
        exact hs₂.weight_le
      refine ⟨?_, ?_, fun _ => ?_⟩
      · rw [Option.toList_none, List.append_nil]
        refine hs₂.erase.same ?_ ?_ ?_ hsub ?_
        · show dropped.pageSize = s₂.pageSize
          rw [hd]
        · show dropped.limit = s₂.limit
          rw [hd]
        · show dropped.regionLimit = s₂.regionLimit
          rw [hd]
        · exact fun _ => hpo₂
      · show dropped.pageSize = s.pageSize
        rw [hd]
        exact hpage
      · show dropped.poisoned = false
        rw [hd]
        exact hpo₂
  · rw [if_neg hwhole]
    by_cases hrem : removed ≠ 0
    · have hs₃ : s₃.Holds (done ++ r :: rest) := hs₁.mutation _ _
      rw [if_pos hrem]
      by_cases hres : result' ≠ 0
      · rw [if_pos hres]
        exact ⟨hstay ▸ hs₃, hpage, fun h0 => absurd h0 hres⟩
      · rw [if_neg hres]
        obtain ⟨watches', log', file, hd, hnone, hkeep⟩ := releaseUnusedFile_eq s₃ r'
        have hpo₃ : s₃.poisoned = false := by
          show (s₁.poisoned || result' != 0) = false
          rw [hpo₁, Decidable.not_not.1 hres]
          rfl
        rw [hd]
        refine ⟨?_, hpage, fun _ => hpo₃⟩
        rw [Option.toList_some, List.append_assoc, List.singleton_append]
        refine (hs₃.quiet watches' log').edit ⟨rfl, rfl, rfl, rfl, rfl⟩ ?_
        show Region.Good s₁.pageSize { r' with file }
        rw [hpage]
        refine hgood.edit hlen ?_ (fun _ _ _ => rfl) hnone ?_ nofun
        · show r.live - removed = _
          rw [Region.countP_unmap, ← hgood.live]
        · intro p hp hf
          rw [hkeep ⟨p, hp, hf⟩]
          rcases Region.mem_edit hp with hp | ⟨_, _, rfl⟩
          · exact hgood.file p hp hf
          · cases hf
    · rw [if_neg hrem]
      exact ⟨hstay ▸ hs₁, hpage, fun _ => hpo₁⟩

/-- The loop of `artbox_vm_munmap`. -/
theorem good_munmapRegions {address size : Nat} {done rest : List Region} (hs : s.Holds (done ++ rest))
    (hpo : s.poisoned = false) (ha : address % s.pageSize = 0) (hz : size % s.pageSize = 0)
    (hend : address + size < word)
    (howned : ∀ r ∈ rest, overlaps address size r.base r.length = true → r.owned = true) :
    (munmapRegions h address size done rest s).2.Good := by
  induction rest generalizing done s with
  | nil =>
    rw [List.append_nil] at hs
    exact hs.same rfl rfl rfl rfl id
  | cons r rest ih =>
    have hrest : ∀ q ∈ rest, overlaps address size q.base q.length = true → q.owned = true :=
      fun q hq => howned q (List.mem_cons_of_mem r hq)
    unfold munmapRegions
    refine good_ite (fun ho => ?_) fun _ => ?_
    · obtain ⟨hs', hpage, hok⟩ := hs.unmapRegion (h := h) hpo ha hz hend ho (howned r List.mem_cons_self ho)
      refine good_ite (fun _ => hs'.same rfl rfl rfl rfl id) fun hres => ?_
      rw [← hpage] at ha hz
      exact ih hs' (hok (Decidable.not_not.1 hres)) ha hz hrest
    · refine ih ?_ hpo ha hz hrest
      rw [List.append_assoc]
      exact hs

/-- `artbox_vm_munmap` keeps it. -/
theorem Good.munmap (hs : s.Good) {address length : Nat} : (s.munmap h address length).2.Good := by
  unfold Space.munmap
  refine hs.check fun hpo => hs.check fun hrange => hs.check fun howned => ?_
  rw [not_or] at hrange
  have hr := range_iff.1 (by simpa using hrange.2)
  obtain ⟨hz, _⟩ := rounded_spec hs.page_pos hrange.1
  have hall : s.Holds ([] ++ s.regions) := hs
  refine good_munmapRegions hall (by simpa using hpo) hr.1 hz hr.2 fun r hr ho => ?_
  by_contra hown
  refine howned (List.any_eq_true.2 ⟨r, hr, ?_⟩)
  rw [Bool.eq_false_iff.2 hown, ho]
  rfl

/-- The loop of `artbox_vm_madvise` changes no region. -/
theorem Good.discard (hs : s.Good) {r : Region} {n : Nat} {runs : List (List Page)} :
    (discard h r n runs s).2.Good := by
  induction runs generalizing n s with
  | nil => exact hs
  | cons run runs ih =>
    unfold Space.discard
    exact (hs.mutation _ _).check fun _ => ih (hs.mutation _ _)

/-- `artbox_vm_madvise` keeps it. -/
theorem Good.madvise (hs : s.Good) {address length : Nat} {advice : Int} :
    (s.madvise h address length advice).2.Good := by
  unfold Space.madvise
  refine hs.check fun _ => hs.check fun _ => hs.check fun _ => hs.check fun _ => ?_
  cases s.containing address (s.rounded length) with
  | none => exact hs
  | some q => exact hs.check fun _ => hs.check fun _ => hs.check fun _ => hs.discard

/-! ## Ranges of the host -/

/-- A borrowed region more. -/
theorem Good.borrow {r : Region} (hs : s.Good) (ho : r.owned = false) (hr : r.Good s.pageSize)
    (hp : r.Placed s.pageSize) (hd : ¬ s.regions.any (fun q => overlaps r.base r.length q.base q.length) = true)
    (hpo : s.poisoned = false) (hn : s.regions.length ≠ s.regionLimit) :
    Good { s with regions := s.regions ++ [r] } := by
  have hw : weight r = 0 := by rw [weight, ho, if_neg Bool.false_ne_true]
  refine (Holds.push hs hr (fun _ => hp) (fun q hq => ?_) hn ?_).same rfl rfl rfl ?_ id
  · have hno : overlaps r.base r.length q.base q.length = false := by
      rw [Bool.eq_false_iff]
      exact fun hov => hd (List.any_eq_true.2 ⟨q, hq, hov⟩)
    unfold overlaps at hno
    rw [add64_eq hp.lt_word, add64_eq (hs.placed hpo q hq).lt_word, Bool.and_eq_false_iff] at hno
    simp only [decide_eq_false_iff_not, Nat.not_lt] at hno
    exact hno
  · rw [hw]
    exact Nat.zero_le _
  · rw [hw]
    rfl

/-- Registering data keeps it. -/
theorem Good.registerData (hs : s.Good) {address length : Nat} {prot : BitVec 64} :
    (s.registerData h address length prot).2.Good := by
  unfold Space.registerData
  refine hs.check fun _ => hs.check fun hpo => hs.check fun _ => ?_
  cases protection prot with
  | error e => exact hs
  | ok permissions =>
    refine hs.check fun hrange => hs.check fun hover => hs.check fun hroom => hs.check fun _ => ?_
    simp only [not_or, Decidable.not_not] at hrange
    obtain ⟨hpos, hz, hrange⟩ := hrange
    obtain ⟨ha, hend⟩ := range_iff.1 (by simpa using hrange)
    refine hs.borrow rfl ?_ ⟨hend, fun _ => ha, fun hg => absurd rfl hg⟩ hover (by simpa using hpo) hroom
    exact good_uniform (p := ⟨true, false, false, permissions⟩) rfl rfl rfl (round_up_of_mod hs.page_pos hz)
      (Nat.pos_of_ne_zero hpos) (Nat.le_of_lt hend) nofun (fun _ => hz) nofun nofun

/-- Registering an image keeps it. -/
theorem Good.registerReadonly (hs : s.Good) {address length : Nat} :
    (s.registerReadonly h address length).2.Good := by
  unfold Space.registerReadonly
  refine hs.check fun hrange => hs.check fun hpo => hs.check fun _ => hs.check fun hover =>
    hs.check fun hroom => hs.check fun _ => ?_
  simp only [not_or] at hrange
  obtain ⟨_, hpos, hrange⟩ := hrange
  have hend : address + length < word := by
    have : 0 < word := by decide
    omega
  have hp := hs.page_pos
  refine hs.borrow rfl ?_ ⟨hend, nofun, fun hg => absurd rfl hg⟩ hover (by simpa using hpo) hroom
  refine good_uniform (p := ⟨true, false, false, 1⟩) rfl rfl rfl ?_ (Nat.pos_of_ne_zero hpos)
    (Nat.le_of_lt hend) nofun nofun nofun nofun
  show (length - 1) / s.pageSize + 1 = (length + s.pageSize - 1) / s.pageSize
  rw [show length + s.pageSize - 1 = length - 1 + s.pageSize by omega, Nat.add_div_right _ hp]

/-! ## Runs -/

/-- A new space is good. -/
theorem good_create {pageSize limit regionLimit : Nat} (hc : create h pageSize limit regionLimit = some s) :
    s.Good := by
  unfold create at hc
  split at hc
  · cases hc
  next hargs =>
    simp only [not_or] at hargs
    split at hc
    · cases hc
    · obtain rfl := Option.some.inj hc
      have hp : 0 < pageSize := by omega
      have hl : limit < word := by omega
      exact ⟨hp, hl, nofun, nofun, .nil, rfl, Nat.zero_le _, Nat.zero_le _⟩

/-- A new space has no region. -/
theorem create_regions {pageSize limit regionLimit : Nat} (hc : create h pageSize limit regionLimit = some s) :
    s.regions = [] := by
  unfold create at hc
  split at hc
  · cases hc
  split at hc
  · cases hc
  · obtain rfl := Option.some.inj hc
    rfl

/-- A new space with a window is good. -/
theorem good_createWindow {pageSize length guardBytes : Nat} (hf : h.Fresh [])
    (hc : createWindow h pageSize length guardBytes = some s) : s.Good := by
  unfold createWindow at hc
  cases h₀ : create h pageSize length 1 with
  | none =>
    rw [h₀] at hc
    cases hc
  | some s₀ =>
    have hf₀ : h.Fresh s₀.regions := by
      rw [create_regions h₀]
      exact hf
    have hs : (s₀.reserveWindow h length guardBytes).2.1.Good := (good_create h₀).reserveWindow hf₀
    rw [h₀] at hc
    simp only at hc
    split at hc
    · cases hc
    · obtain rfl := Option.some.inj hc
      exact Holds.same hs rfl rfl rfl rfl id

/-- Every operation keeps a space good. -/
theorem Good.perform (hs : s.Good) (hf : h.Fresh s.regions) (op : Op) : (s.perform h op).2.Good := by
  cases op with
  | reserveWindow length guardBytes => exact hs.reserveWindow hf
  | mmap address length prot flags offset => exact hs.mmapLocked hf
  | mmapWindow base address length prot flags offset => exact hs.mmapWindow hf
  | mapFile length prot flags offset file maximum watched => exact hs.mapFile hf
  | mprotect address length prot => exact hs.mprotect
  | munmap address length => exact hs.munmap
  | madvise address length advice => exact hs.madvise
  | registerData address length prot => exact hs.registerData
  | registerReadonly address length => exact hs.registerReadonly

/-- A space is good in every run. -/
theorem reachable_good (hr : machine.Reachable s) : s.Good := by
  refine hr.inv ?_ ?_
  · rintro s ⟨h, hf, ⟨_, _, _, hc⟩ | ⟨_, _, _, hc⟩⟩
    · exact good_create hc
    · exact good_createWindow hf hc
  · rintro s s' hs ⟨h, op, hf, rfl⟩
    exact hs.perform hf op

end Artbox.Vm.Space
