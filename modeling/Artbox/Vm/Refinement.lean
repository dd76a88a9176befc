import Artbox.Vm.PageMap

/-!
# The operations on the page map

The operations of a space are what `PageMap.after` says of its map, by their result alone, as long as the
space may be used (`perform_view`), and so is every run (`run_view`). A host reports errors by their numbers
(`Host.Errnos`), so that the result of a mapping says whether there is one.
-/

namespace Artbox.Vm

variable {r r' : Region} {done rest : List Region} {page x a n first count : Nat} {f : Page → Page}

/-! ## What the operations say of the map -/

/-- A Linux error number. -/
def Errno (error : Int) : Prop := -4096 < error ∧ error < 0

instance (error : Int) : Decidable (Errno error) := inferInstanceAs (Decidable (_ ∧ _))

/-- The callbacks return zero or a Linux error number. -/
structure Host.Errnos (h : Host) : Prop where
  reserve : ∀ n, (h.reserve n).1 = 0 ∨ Errno (h.reserve n).1
  protect : ∀ a n p, h.protect a n p = 0 ∨ Errno (h.protect a n p)
  acquire : ∀ file, (h.acquire file).1 = 0 ∨ Errno (h.acquire file).1
  map : ∀ reference a n p sharing offset,
    h.map reference a n p sharing offset = 0 ∨ Errno (h.map reference a n p sharing offset)

/-- The address that a result stands for. -/
def unsigned (result : Int) : Nat := (BitVec.ofInt 64 result).toNat

/-- The permissions that a value stands for. -/
def permissionsOf (prot : BitVec 64) : BitVec 2 := if prot = 2 then 3 else prot.setWidth 2

/-- A length in whole pages. -/
def roundUp (page length : Nat) : Nat := (length + (page - 1)) / page * page

/-- The map behind a mapping of `n` bytes, which is where its result says. -/
def PageMap.placed (m : PageMap) (n : Nat) (p : Page) (result : Int) : PageMap :=
  if Errno result then m else m.patch (unsigned result) n fun _ => some p

/-- The map behind an operation. -/
def PageMap.after (m : PageMap) (page : Nat) (op : Space.Op) (result : Int) : PageMap :=
  match op with
  | .mmap _ length prot _ _ => m.placed (roundUp page length) { mapped := true, protection := permissionsOf prot } result
  | .mmapWindow _ _ length prot _ _ =>
    m.placed (roundUp page length) { mapped := true, protection := permissionsOf prot } result
  | .mapFile length prot _ _ _ maximum _ =>
    m.placed (roundUp page length)
      { mapped := true, filePage := true, denyWrite := maximum == 1, protection := permissionsOf prot } result
  | .mprotect address length prot =>
    if result ≠ 0 then m
    else m.patch address (roundUp page length) (Option.map fun p => { p with protection := permissionsOf prot })
  | .munmap address length => if result ≠ 0 then m else m.patch address (roundUp page length) fun _ => none
  | .registerData address length prot =>
    if result ≠ 0 then m
    else m.patch address length fun _ => some { mapped := true, protection := permissionsOf prot }
  | .registerReadonly address length =>
    if result ≠ 0 then m else m.patch address length fun _ => some { mapped := true, protection := 1 }
  | .madvise _ _ _ => m
  | .reserveWindow _ _ => m

/-- The map behind operations one after the other. -/
def PageMap.afterAll (m : PageMap) (page : Nat) (ops : List (Host × Space.Op)) (results : List Int) : PageMap :=
  (ops.zip results).foldl (fun m e => m.after page e.1.2 e.2) m

/-- An address survives the signed result it is returned in. -/
theorem unsigned_signed (ha : a < word) : unsigned (signed a) = a := by
  unfold unsigned signed
  rw [BitVec.ofInt_toInt, BitVec.toNat_ofNat]
  exact Nat.mod_eq_of_lt ha

/-- An address is no error number. -/
theorem not_errno_signed (ha : a + n < word) (hn : 4096 ≤ n) : ¬ Errno (signed a) := by
  unfold Errno signed
  rw [BitVec.toInt_eq_toNat_cond, BitVec.toNat_ofNat]
  unfold word at ha
  rw [Nat.mod_eq_of_lt (by omega)]
  split <;> omega

/-- A result that is an address places the pages there. -/
theorem placed_signed {m : PageMap} {p : Page} (ha : a + n < word) (hn : 4096 ≤ n) :
    m.placed n p (signed a) = m.patch a n fun _ => some p := by
  unfold PageMap.placed
  rw [if_neg (not_errno_signed ha hn), unsigned_signed (by omega)]

/-- A result that is an error number leaves the map as it was. -/
theorem placed_errno {m : PageMap} {p : Page} {result : Int} (h : Errno result) : m.placed n p result = m := if_pos h

theorem patch_zero {m : PageMap} {g : Option Page → Option Page} : m.patch a 0 g = m := by
  funext x
  exact if_neg (by omega)

/-- An accepted `prot` gives the permissions of its low bits. -/
theorem protection_ok {prot : BitVec 64} {p : BitVec 2} (h : protection prot = .ok p) : p = permissionsOf prot := by
  unfold protection at h
  split at h
  · cases h
  · split at h
    · cases h
    · exact (Except.ok.inj h).symm

/-- A refused `prot` is reported by an error number. -/
theorem protection_error {prot : BitVec 64} {error : Int} (h : protection prot = .error error) : Errno error := by
  unfold protection at h
  split at h
  · cases h
    decide
  · split at h
    · cases h
      decide
    · cases h

namespace Space

variable {s : Space} {h : Host} {e : Int → PageMap}

/-- The checked rounding agrees with the plain one wherever it does not overflow. -/
theorem rounded_eq_roundUp {length : Nat} (hn : s.rounded length ≠ 0) :
    s.rounded length = roundUp s.pageSize length := by
  unfold rounded at hn ⊢
  dsimp only at hn ⊢
  split at hn
  · exact absurd rfl hn
  next hc =>
    rw [if_neg hc]
    rfl

/-- The map behind an operation is as its result says. -/
def Yields (e : Int → PageMap) (out : Int × Space) : Prop := out.2.poisoned = false → out.2.view = e out.1

theorem yields_ite {c : Prop} [Decidable c] {x y : Int × Space} (hx : c → Yields e x) (hy : ¬ c → Yields e y) :
    Yields e (if c then x else y) := by
  split
  next hc => exact hx hc
  next hc => exact hy hc

/-- An operation that leaves the map alone yields any map its result leaves alone. -/
theorem yields_same {result : Int} {s' : Space} (hv : s'.view = s.view) (he : e result = s.view) :
    Yields e (result, s') := fun _ => hv.trans he.symm

/-- A request that is refused changes nothing. -/
theorem Yields.check {c : Prop} [Decidable c] {error : Int} {x : Int × Space} (he : e error = s.view)
    (hx : ¬ c → Yields e x) : Yields e (if c then (error, s) else x) :=
  yields_ite (fun _ => yields_same rfl he) hx

/-- Giving up a file mapping touches no page. -/
theorem view_drop (s : Space) (file : Option FileMapping) : (s.drop file).view = s.view := by
  obtain ⟨watches, log, hd⟩ := s.drop_eq file
  rw [hd]
  rfl

/-- What is left of storage that was given back, where it was. -/
theorem view_rollback (hpo : (s.rollback h r).poisoned = false) : (s.rollback h r).view = s.view := by
  unfold rollback at hpo ⊢
  dsimp only at hpo ⊢
  split at hpo
  · cases hpo
  next hres =>
    rw [if_neg hres, view_drop]
    rfl

/-- A fixed mapping over owned regions is placed where its result says. -/
theorem yields_replace (hs : s.Good) (hpo : s.poisoned = false) (hpage : 4096 ≤ s.pageSize) {window : Option Nat}
    {address size : Nat} {permissions : BitVec 2} (hz : size % s.pageSize = 0) (hn : size ≠ 0) :
    Yields (s.view.placed size { mapped := true, protection := permissions })
      (s.replace h window address size permissions) := by
  unfold Space.replace
  refine Yields.check (placed_errno (by decide)) fun hrange => ?_
  obtain ⟨ha, hend⟩ := range_iff.1 (by simpa using hrange)
  cases hc : s.containing address size with
  | none => exact yields_same rfl (placed_errno (by decide))
  | some q =>
    obtain ⟨r, i⟩ := q
    obtain ⟨hi, hin⟩ := containing_some hc
    obtain ⟨done, rest, hsplit, hset⟩ := split_at hi
    have hr := List.mem_of_getElem? hi
    refine Yields.check (placed_errno (by decide)) fun _ => Yields.check (placed_errno (by decide)) fun ho =>
      Yields.check (placed_errno (by decide)) fun _ => ?_
    have ho : r.owned = true := by simpa using ho
    have hgood := hs.regions r hr
    have hspans := spans_of_contains hgood (hs.placed hpo r hr) hs.page_pos (hgood.protectable ho) ha hz hin
    have hs' : s.Holds (done ++ r :: rest) := hsplit ▸ hs
    extract_lets first count s₁ result s₂ live r₁ r'
    refine yields_ite (fun hres hpo' => ?_) fun hres _ => ?_
    · have hpo' : (s₁.poisoned || result != 0) = false := hpo'
      rw [bne_iff_ne.2 hres, Bool.or_true] at hpo'
      cases hpo'
    · have hsize : 4096 ≤ size :=
        Nat.le_trans hpage (Nat.le_of_dvd (Nat.pos_of_ne_zero hn) (Nat.dvd_of_mod_eq_zero hz))
      rw [placed_signed hend hsize]
      have hregions : (s₂.releaseUnusedFile r').1.regions = s.regions := by simp [s₂, s₁]
      have hpages : (s₂.releaseUnusedFile r').1.pageSize = s.pageSize := by
        obtain ⟨watches, log, file, hf, _⟩ := s₂.releaseUnusedFile_eq r'
        obtain ⟨watches', hw⟩ : ∃ watches, s₁ = { s with watches } := s.invalidateFilePages_eq r first count
        rw [hf]
        show s₁.pageSize = s.pageSize
        rw [hw]
      show viewOf (s₂.releaseUnusedFile r').1.pageSize ((s₂.releaseUnusedFile r').1.regions.set i _) = _
      unfold view
      rw [hpages, hregions, hset, hsplit]
      exact viewOf_edit (f := fun _ => { mapped := true, protection := permissions }) ⟨rfl, rfl, rfl⟩ hs'.apart hspans
        hs.page_pos fun _ _ => rfl

/-- A new region, all of whose pages are mapped. -/
theorem view_push {s' : Space} {p : Page} (hp : 0 < s.pageSize) (hpage : s'.pageSize = s.pageSize)
    (hregions : s'.regions = s.regions ++ [r]) (hd : ∀ q ∈ s.regions, r.Disjoint q)
    (hpages : r.pages = .replicate ((r.length + s.pageSize - 1) / s.pageSize) p) (hm : p.mapped = true) :
    s'.view = s.view.patch r.base r.length fun _ => some p := by
  unfold view
  rw [hpage, hregions]
  exact viewOf_push hd fun x hx => pageAt_replicate hpages hp hm hx

/-- New storage is apart from the regions. -/
theorem Fresh.apart (hf : h.Fresh s.regions) (hres : (h.reserve n).1 = 0) (h0 : (h.reserve n).2 ≠ 0)
    (hb : r.base = (h.reserve n).2) (hl : r.length = n) : ∀ q ∈ s.regions, r.Disjoint q := by
  intro q hq
  have hd := (hf n hres h0).2 q hq
  unfold Region.Disjoint
  rw [hb, hl]
  exact hd

/-- A mapping in fresh storage is placed where the storage is. -/
theorem yields_reserveRegion (hs : s.Good) (hf : h.Fresh s.regions) (he : h.Errnos) (hpage : 4096 ≤ s.pageSize)
    {size : Nat} {permissions : BitVec 2} (hz : size % s.pageSize = 0) (hn : size ≠ 0) :
    Yields (s.view.placed size { mapped := true, protection := permissions }) (s.reserveRegion h size permissions) := by
  have hsize : 4096 ≤ size :=
    Nat.le_trans hpage (Nat.le_of_dvd (Nat.pos_of_ne_zero hn) (Nat.dvd_of_mod_eq_zero hz))
  have hcount := round_up_of_mod hs.page_pos hz
  unfold Space.reserveRegion
  refine Yields.check (placed_errno (by decide)) fun _ => Yields.check (placed_errno (by decide)) fun _ => ?_
  have herror := he.reserve size
  have hapart := fun hres h0 (r : Region) => Fresh.apart (r := r) (n := size) hf hres h0
  generalize h.reserve size = answer at herror hapart ⊢
  obtain ⟨result, storage⟩ := answer
  dsimp -zeta only at herror hapart ⊢
  refine yields_ite (fun hres => yields_same rfl (placed_errno (herror.resolve_left hres))) fun hres => ?_
  obtain rfl : result = 0 := Decidable.not_not.1 hres
  refine yields_ite (fun _ => yields_same ?_ (placed_errno (by decide))) fun hgood => ?_
  · split <;> rfl
  rw [not_or, not_or] at hgood
  obtain ⟨hstorage, hmax, hrange⟩ := hgood
  obtain ⟨_, hend⟩ := range_iff.1 (by simpa using hrange)
  have hplaced := placed_signed (m := s.view) (p := { mapped := true, protection := permissions }) hend hsize
  extract_lets r
  have hd := hapart rfl hstorage r rfl rfl
  have hpages : r.pages = .replicate ((r.length + s.pageSize - 1) / s.pageSize)
      { mapped := true, protection := permissions } := by
    show List.replicate (size / s.pageSize) _ = List.replicate ((size + s.pageSize - 1) / s.pageSize) _
    rw [hcount]
  have hkeep : ∀ {s' : Space}, s'.regions = s.regions → s'.pageSize = s.pageSize →
      Yields (s.view.placed size { mapped := true, protection := permissions }) (signed storage, s'.keep r) := by
    intro s' hregions hpage' _
    rw [hplaced]
    show Space.view (s'.keep r) = s.view.patch r.base r.length _
    refine view_push hs.page_pos hpage' ?_ hd hpages rfl
    show s'.regions ++ [r] = _
    rw [hregions]
  by_cases hp0 : permissions = 0
  · rw [if_pos hp0, if_neg (not_not_intro rfl)]
    exact hkeep rfl rfl
  rw [if_neg hp0]
  refine yields_ite (fun hres hpo => ?_) fun _ => hkeep rfl rfl
  rw [view_rollback hpo, placed_errno ((he.protect _ _ _).resolve_left hres)]
  rfl

/-- An anonymous mapping, fixed or not, is placed where its result says. -/
theorem yields_mmapLocked (hs : s.Good) (hf : h.Fresh s.regions) (he : h.Errnos) (hpage : 4096 ≤ s.pageSize)
    {window : Option (Region × Nat)} {address length offset : Nat} {prot flags : BitVec 64} :
    Yields (s.view.placed (roundUp s.pageSize length) { mapped := true, protection := permissionsOf prot })
      (s.mmapLocked h window address length prot flags offset) := by
  unfold Space.mmapLocked
  refine Yields.check (placed_errno (by decide)) fun hpo => Yields.check (placed_errno (by decide)) fun hsize => ?_
  have hpo : s.poisoned = false := by simpa using hpo
  have hn := (not_or.1 hsize).1
  obtain ⟨hz, _⟩ := rounded_spec hs.page_pos hn
  cases hprot : protection prot with
  | error e => exact yields_same rfl (placed_errno (protection_error hprot))
  | ok permissions =>
    rw [← protection_ok hprot, ← rounded_eq_roundUp hn]
    refine Yields.check (placed_errno (by decide)) fun _ =>
      yields_ite (fun _ => yields_replace hs hpo hpage hz hn) fun _ => ?_
    cases window with
    | none => exact yields_reserveRegion hs hf he hpage hz hn
    | some q =>
      obtain ⟨r, i⟩ := q
      dsimp only
      split
      · exact yields_same rfl (placed_errno (by decide))
      · exact yields_replace hs hpo hpage hz hn

/-- An anonymous mapping in a reserved window is placed where its result says. -/
theorem yields_mmapWindow (hs : s.Good) (hf : h.Fresh s.regions) (he : h.Errnos) (hpage : 4096 ≤ s.pageSize)
    {base address length offset : Nat} {prot flags : BitVec 64} :
    Yields (s.view.placed (roundUp s.pageSize length) { mapped := true, protection := permissionsOf prot })
      (s.mmapWindow h base address length prot flags offset) := by
  unfold Space.mmapWindow
  refine Yields.check (placed_errno (by decide)) fun _ => ?_
  cases s.managedWindow base with
  | none => exact yields_same rfl (placed_errno (by decide))
  | some window => exact yields_mmapLocked hs hf he hpage

/-- A file mapping is placed over the fresh region that was reserved for it. -/
theorem yields_attachFile {page : Page} {file : FileMapping} {watched : Bool} {permissions : BitVec 2} (hs : s.Good)
    (he : h.Errnos) (hd : ∀ q ∈ s.regions, r.Disjoint q) (hend : r.base + r.length < word) (hsize : 4096 ≤ r.length)
    (hpages : r.pages = .replicate ((r.length + s.pageSize - 1) / s.pageSize) page) (hm : page.mapped = true) :
    Yields (s.view.placed r.length page) (s.attachFile h r file permissions watched) := by
  have hplaced := placed_signed (m := s.view) (p := page) hend hsize
  unfold Space.attachFile
  extract_lets error s₁ r'
  refine yields_ite (fun hres hpo => ?_) fun _ => yields_ite (fun _ _ => ?_) fun _ _ => ?_
  · rw [view_rollback hpo, placed_errno ((he.map _ _ _ _ _ _).resolve_left hres)]
    rfl
  · rw [hplaced]
    show Space.view (Space.keep _ r') = s.view.patch r'.base r'.length _
    exact view_push hs.page_pos rfl rfl hd hpages hm
  · rw [hplaced]
    show Space.view (Space.keep _ r) = s.view.patch r.base r.length _
    exact view_push hs.page_pos rfl rfl hd hpages hm

/-- A file mapping in fresh storage is placed where the storage is. -/
theorem yields_reserveFile (hs : s.Good) (hf : h.Fresh s.regions) (he : h.Errnos) (hpage : 4096 ≤ s.pageSize)
    {size : Nat} {page : Page} {file : FileMapping} {watched : Bool} (hz : size % s.pageSize = 0) (hn : size ≠ 0)
    (hm : page.mapped = true) : Yields (s.view.placed size page) (s.reserveFile h size page file watched) := by
  have hsize : 4096 ≤ size :=
    Nat.le_trans hpage (Nat.le_of_dvd (Nat.pos_of_ne_zero hn) (Nat.dvd_of_mod_eq_zero hz))
  have hcount := round_up_of_mod hs.page_pos hz
  unfold Space.reserveFile
  have herror := he.reserve size
  have hapart := fun hres h0 (r : Region) => Fresh.apart (r := r) (n := size) hf hres h0
  generalize h.reserve size = answer at herror hapart ⊢
  obtain ⟨result, storage⟩ := answer
  dsimp only at herror hapart ⊢
  refine yields_ite (fun hres => yields_same (view_drop _ _) (placed_errno (herror.resolve_left hres))) fun hres => ?_
  obtain rfl : result = 0 := Decidable.not_not.1 hres
  refine yields_ite (fun _ => yields_same ?_ (placed_errno (by decide))) fun hgood => ?_
  · rw [view_drop]
    split <;> rfl
  · rw [not_or, not_or] at hgood
    obtain ⟨hstorage, _, hrange⟩ := hgood
    obtain ⟨_, hend⟩ := range_iff.1 (by simpa using hrange)
    refine yields_attachFile (hs.note _ _) he ?_ hend hsize ?_ hm
    · exact hapart rfl hstorage _ rfl rfl
    · show List.replicate (size / s.pageSize) _ = List.replicate ((size + s.pageSize - 1) / s.pageSize) _
      rw [hcount]

/-- `artbox_vm_map_file` places file pages with their write limit. -/
theorem yields_mapFile (hs : s.Good) (hf : h.Fresh s.regions) (he : h.Errnos) (hpage : 4096 ≤ s.pageSize)
    {length offset file : Nat} {prot flags : BitVec 64} {maximum : BitVec 2} {watched : Bool} :
    Yields (s.view.placed (roundUp s.pageSize length)
        { mapped := true, filePage := true, denyWrite := maximum == 1, protection := permissionsOf prot })
      (s.mapFile h length prot flags offset file maximum watched) := by
  unfold Space.mapFile
  refine Yields.check (placed_errno (by decide)) fun _ => Yields.check (placed_errno (by decide)) fun _ =>
    Yields.check (placed_errno (by decide)) fun _ => Yields.check (placed_errno (by decide)) fun hsize =>
    Yields.check (placed_errno (by decide)) fun _ => ?_
  have hn := (not_or.1 hsize).1
  obtain ⟨hz, _⟩ := rounded_spec hs.page_pos hn
  cases hprot : protection prot with
  | error e => exact yields_same rfl (placed_errno (protection_error hprot))
  | ok permissions =>
    rw [← protection_ok hprot, ← rounded_eq_roundUp hn]
    refine Yields.check (placed_errno (by decide)) fun _ => Yields.check (placed_errno (by decide)) fun _ =>
      Yields.check (placed_errno (by decide)) fun _ => Yields.check (placed_errno (by decide)) fun _ =>
      Yields.check (placed_errno (by decide)) fun _ => ?_
    have herror := he.acquire file
    generalize h.acquire file = answer at herror ⊢
    obtain ⟨error, reference⟩ := answer
    dsimp only at herror ⊢
    refine yields_ite (fun hres => yields_same (view_drop _ _) (placed_errno (herror.resolve_left hres))) fun _ =>
      yields_ite (fun _ => yields_same rfl (placed_errno (by decide))) fun _ => ?_
    exact yields_reserveFile (hs.note _ _) hf he hpage hz hn rfl

/-- `artbox_vm_mprotect` changes the protection of its range and of nothing else. -/
theorem yields_mprotect (hs : s.Good) {address length : Nat} {prot : BitVec 64} :
    Yields (fun result => s.view.after s.pageSize (.mprotect address length prot) result)
      (s.mprotect h address length prot) := by
  have hrefused : ∀ {error : Int}, error ≠ 0 → s.view.after s.pageSize (.mprotect address length prot) error = s.view :=
    fun h0 => if_pos h0
  unfold Space.mprotect
  refine Yields.check (hrefused (by decide)) fun hpo => ?_
  have hpo : s.poisoned = false := by simpa using hpo
  cases hprot : protection prot with
  | error e => exact yields_same rfl (hrefused (Int.ne_of_lt (protection_error hprot).2))
  | ok permissions =>
    refine Yields.check (hrefused (by decide)) fun hrange => yields_ite (fun h0 => ?_) fun hlength => ?_
    · -- no pages
      have hzero : roundUp s.pageSize length = 0 := by
        unfold roundUp
        rw [h0, Nat.zero_add, Nat.div_eq_of_lt (by have := hs.page_pos; omega), Nat.zero_mul]
      refine yields_same rfl ?_
      show s.view.patch address (roundUp s.pageSize length) _ = s.view
      rw [hzero, patch_zero]
    rw [not_or] at hrange
    have hsize : s.rounded length ≠ 0 := fun h0 => hrange.2 ⟨h0, hlength⟩
    obtain ⟨hz, _⟩ := rounded_spec hs.page_pos hsize
    cases hc : s.containing address (s.rounded length) with
    | none => exact yields_same rfl (hrefused (by decide))
    | some q =>
      obtain ⟨r, i⟩ := q
      obtain ⟨hi, hin⟩ := containing_some hc
      obtain ⟨done, rest, hsplit, hset⟩ := split_at hi
      have hr := List.mem_of_getElem? hi
      refine Yields.check (hrefused (by decide)) fun hprotectable => Yields.check (hrefused (by decide)) fun hpresent =>
        Yields.check (hrefused (by decide)) fun _ => ?_
      have hprotectable : r.protectable = true := by simpa using hprotectable
      have hpresent : r.present ((address - r.base) / s.pageSize) (s.rounded length / s.pageSize) = true := by
        simpa using hpresent
      have haligned := (range_iff.1 (by simpa using hrange.1)).1
      have hspans := spans_of_contains (hs.regions r hr) (hs.placed hpo r hr) hs.page_pos hprotectable haligned hz hin
      have hs' : s.Holds (done ++ r :: rest) := hsplit ▸ hs
      -- the view changes only when the host agreed; otherwise the space is poisoned and shows nothing
      extract_lets result s₁
      intro hpo'
      by_cases hres : result = 0
      · rw [if_pos hres]
        refine Eq.trans ?_ (if_neg (not_not_intro hres)).symm
        rw [← rounded_eq_roundUp hsize, ← protection_ok hprot]
        show viewOf s.pageSize (s.regions.set i _) = (viewOf s.pageSize s.regions).patch _ _ _
        rw [hset, hsplit]
        refine viewOf_edit (f := fun p => { p with protection := permissions }) ⟨rfl, rfl, rfl⟩ hs'.apart hspans
          hs.page_pos fun p hp => ?_
        have hmapped : p.mapped = true := List.all_eq_true.1 hpresent p hp
        rw [Option.filter_some, Option.filter_some, if_pos hmapped, if_pos hmapped]
        rfl
      · rw [if_neg hres] at hpo'
        have hpo' : (s.poisoned || result != 0) = false := hpo'
        rw [bne_iff_ne.2 hres, Bool.or_true] at hpo'
        cases hpo'

/-- `MADV_DONTNEED` leaves every page mapped as it was. -/
theorem regions_discard {n : Nat} {runs : List (List Page)} :
    (discard h r n runs s).2.view = s.view := by
  induction runs generalizing s n with
  | nil => rfl
  | cons run runs ih =>
    obtain ⟨result, hcons⟩ := discard_cons (h := h) s r n run runs
    rw [hcons]
    split
    · rfl
    · rw [ih]
      rfl

/-- `artbox_vm_madvise` does not change the map, whatever it returns. -/
theorem yields_madvise {address length : Nat} {advice : Int} :
    Yields (fun _ => s.view) (s.madvise h address length advice) := by
  have hsame : ∀ {result : Int}, Yields (fun _ => s.view) (result, s) := fun _ => rfl
  unfold Space.madvise
  refine Yields.check rfl fun _ => Yields.check rfl fun _ => Yields.check rfl fun _ =>
    yields_ite (fun _ => hsame) fun _ => ?_
  cases s.containing address (s.rounded length) with
  | none => exact hsame
  | some q =>
    obtain ⟨r, i⟩ := q
    exact Yields.check rfl fun _ => Yields.check rfl fun _ => yields_ite (fun _ => hsame) fun _ _ => regions_discard

/-- A window has no mapped page yet. -/
theorem view_keep_unmapped (hpages : ∀ p ∈ r.pages, p.mapped = false) : (s.keep r).view = s.view := by
  funext x
  have hnone : r.pageAt s.pageSize x = none := by
    unfold Region.pageAt
    split
    · cases hp : r.pages[(x - r.base) / s.pageSize]? with
      | none => rfl
      | some p =>
        rw [Option.filter_some, if_neg]
        rw [hpages p (List.mem_of_getElem? hp)]
        exact Bool.false_ne_true
    · rfl
  show viewOf s.pageSize (s.regions ++ [r]) x = viewOf s.pageSize s.regions x
  rw [viewOf_append, viewOf_cons, hnone]
  exact Option.or_none

/-- A reserved window adds no mapped page. -/
theorem view_reserveWindow {length guardBytes : Nat}
    (hpo : (s.reserveWindow h length guardBytes).2.1.poisoned = false) :
    (s.reserveWindow h length guardBytes).2.1.view = s.view := by
  unfold Space.reserveWindow at hpo ⊢
  split
  · rfl
  split
  · rfl
  split
  · rfl
  split
  · rfl
  next h1 h2 h3 h4 =>
    rw [if_neg h1, if_neg h2, if_neg h3, if_neg h4] at hpo
    generalize h.reserve length = answer at hpo ⊢
    obtain ⟨result, storage⟩ := answer
    dsimp only at hpo ⊢
    split
    · rfl
    next h5 =>
      rw [if_neg h5] at hpo
      split
      next h6 =>
        rw [if_pos h6] at hpo
        split
        next h7 =>
          rw [if_pos h7] at hpo
          exact view_rollback hpo
        · rfl
      · exact view_keep_unmapped fun p hp => by rw [List.eq_of_mem_replicate hp]

/-- Registered data appears in the map with its protection. -/
theorem yields_registerData (hs : s.Good) {address length : Nat} {prot : BitVec 64} :
    Yields (fun result => s.view.after s.pageSize (.registerData address length prot) result)
      (s.registerData h address length prot) := by
  have hrefused : ∀ {error : Int}, error ≠ 0 →
      s.view.after s.pageSize (.registerData address length prot) error = s.view :=
    fun h0 => if_pos h0
  unfold Space.registerData
  refine Yields.check (hrefused (by decide)) fun _ => Yields.check (hrefused (by decide)) fun hpo =>
    Yields.check (hrefused (by decide)) fun _ => ?_
  cases hprot : protection prot with
  | error e => exact yields_same rfl (hrefused (Int.ne_of_lt (protection_error hprot).2))
  | ok permissions =>
    refine Yields.check (hrefused (by decide)) fun hrange => Yields.check (hrefused (by decide)) fun hover =>
      Yields.check (hrefused (by decide)) fun _ => Yields.check (hrefused (by decide)) fun _ => ?_
    simp only [not_or, Decidable.not_not] at hrange
    obtain ⟨_, hend⟩ := range_iff.1 (by simpa using hrange.2.2)
    have hapart := hs.apart_of_overlaps (by simpa using hpo) hend hover
    intro _
    show Space.view _ = s.view.patch address length fun _ => some { mapped := true, protection := permissionsOf prot }
    rw [← protection_ok hprot]
    refine view_push (r := { Region.uniform address length (length / s.pageSize)
      { mapped := true, protection := permissions } with owned := false })
      hs.page_pos rfl rfl (fun q hq => (hapart q hq).symm) ?_ rfl
    show List.replicate (length / s.pageSize) _ = List.replicate ((length + s.pageSize - 1) / s.pageSize) _
    rw [round_up_of_mod hs.page_pos hrange.2.1]

/-- A registered image appears in the map as readable pages. -/
theorem yields_registerReadonly (hs : s.Good) {address length : Nat} :
    Yields (fun result => s.view.after s.pageSize (.registerReadonly address length) result)
      (s.registerReadonly h address length) := by
  have hrefused : ∀ {error : Int}, error ≠ 0 →
      s.view.after s.pageSize (.registerReadonly address length) error = s.view :=
    fun h0 => if_pos h0
  unfold Space.registerReadonly
  refine Yields.check (hrefused (by decide)) fun hrange => Yields.check (hrefused (by decide)) fun hpo =>
    Yields.check (hrefused (by decide)) fun _ => Yields.check (hrefused (by decide)) fun hover =>
    Yields.check (hrefused (by decide)) fun _ => Yields.check (hrefused (by decide)) fun _ => ?_
  simp only [not_or] at hrange
  have hend : address + length < word := by
    have : 0 < word := by decide
    omega
  have hapart := hs.apart_of_overlaps (by simpa using hpo) hend hover
  intro _
  show Space.view _ = s.view.patch address length fun _ => some { mapped := true, protection := 1 }
  refine view_push (r := { Region.uniform address length ((length - 1) / s.pageSize + 1)
    { mapped := true, protection := 1 } with owned := false, protectable := false })
    hs.page_pos rfl rfl (fun q hq => (hapart q hq).symm) ?_ rfl
  show List.replicate ((length - 1) / s.pageSize + 1) _ = List.replicate ((length + s.pageSize - 1) / s.pageSize) _
  have hpos := hs.page_pos
  rw [← Nat.add_div_right _ hpos, show length - 1 + s.pageSize = length + s.pageSize - 1 by omega]

/-! ## Unmapping -/

/-- The map without the addresses of a region in a range. -/
def clearIn (m : PageMap) (r : Region) (address size : Nat) : PageMap :=
  fun x => if r.Has x ∧ address ≤ x ∧ x < address + size then none else m x

/-- A region without mapped pages outside a range of pages. -/
theorem pageAt_of_removed {page first count size : Nat} (hg : r.Good page) (hs : r.Spans page a size first count)
    (hp : 0 < page) (hrem : r.mappedIn first count = r.live) (hx : r.Has x) (hout : ¬ (a ≤ x ∧ x < a + size)) :
    r.pageAt page x = none := by
  have hcount := Region.countP_pages r first count (·.mapped)
  rw [← hg.live, ← hrem] at hcount
  unfold Region.mappedIn at hcount
  have hn := mt (hs.mem_iff (hx.inPage hp)).2 hout
  unfold Region.pageAt
  rw [if_pos hx]
  cases hq : r.pages[(x - r.base) / page]? with
  | none => rfl
  | some p =>
    have hunmapped : p.mapped = false := by
      rw [Bool.eq_false_iff]
      intro hmapped
      by_cases hlo : first ≤ (x - r.base) / page
      · have hmem : p ∈ r.pages.drop (first + count) := by
          refine List.mem_iff_getElem?.2 ⟨(x - r.base) / page - (first + count), ?_⟩
          rw [List.getElem?_drop,
            show first + count + ((x - r.base) / page - (first + count)) = (x - r.base) / page by omega]
          exact hq
        have hpos : 0 < (r.pages.drop (first + count)).countP (·.mapped) := List.countP_pos_iff.2 ⟨p, hmem, hmapped⟩
        omega
      · have hmem : p ∈ r.pages.take first := by
          refine List.mem_iff_getElem?.2 ⟨(x - r.base) / page, ?_⟩
          rw [List.getElem?_take_of_lt (by omega)]
          exact hq
        have hpos : 0 < (r.pages.take first).countP (·.mapped) := List.countP_pos_iff.2 ⟨p, hmem, hmapped⟩
        omega
    rw [Option.filter_some, hunmapped]
    rfl

/-- A range of pages none of which is mapped. -/
theorem pageAt_of_unmapped {page first count size : Nat} (hs : r.Spans page a size first count) (hp : 0 < page)
    (hrem : r.mappedIn first count = 0) (hx : r.Has x) (hin : a ≤ x ∧ x < a + size) : r.pageAt page x = none := by
  have hn := (hs.mem_iff (hx.inPage hp)).1 hin
  unfold Region.pageAt
  rw [if_pos hx]
  cases hq : r.pages[(x - r.base) / page]? with
  | none => rfl
  | some p =>
    have hmem : p ∈ r.slice first count := by
      refine List.mem_iff_getElem?.2 ⟨(x - r.base) / page - first, ?_⟩
      rw [Region.slice, List.getElem?_take_of_lt (by omega), List.getElem?_drop,
        show first + ((x - r.base) / page - first) = (x - r.base) / page by omega]
      exact hq
    rw [Option.filter_some, if_neg (List.countP_eq_zero.1 hrem p hmem)]

/-- One region of `artbox_vm_munmap`. -/
theorem view_unmapRegion {address size : Nat} {done rest : List Region} (hs : s.Holds (done ++ r :: rest))
    (hpo : s.poisoned = false) (ha : address % s.pageSize = 0) (hz : size % s.pageSize = 0)
    (hend : address + size < word) (ho : overlaps address size r.base r.length = true) (hown : r.owned = true) :
    if (s.unmapRegion h address size r).1 = 0 then
      viewOf s.pageSize (done ++ (s.unmapRegion h address size r).2.2.toList ++ rest) =
        clearIn (viewOf s.pageSize (done ++ r :: rest)) r address size
    else (s.unmapRegion h address size r).2.1.poisoned = true := by
  have hr : r ∈ done ++ r :: rest := List.mem_append_right _ List.mem_cons_self
  have hgood := hs.regions r hr
  have hplaced := hs.placed hpo r hr
  have hpr := hgood.protectable hown
  obtain ⟨hstart, hsize, hin⟩ := overlap_spec hgood hplaced hpr ha hz hend ho
  have hspans := spans_of_contains hgood hplaced hs.page_pos hpr hstart hsize hin
  have hstay : done ++ (some r).toList ++ rest = done ++ r :: rest := by simp
  -- the addresses of the region in the range are those of its pages
  have hmem : ∀ x, r.Has x → (address ≤ x ∧ x < address + size ↔
      max address r.base ≤ x ∧
        x < max address r.base + (min (add64 address size) (add64 r.base r.length) - max address r.base)) := by
    intro x hx
    rw [add64_eq hend, add64_eq hplaced.lt_word]
    unfold Region.Has at hx
    omega
  have hfail : ∀ {s' : Space} {request : Request} {result : Int}, result ≠ 0 →
      (s'.mutation request result).poisoned = true := by
    intro s' request result hres
    show (s'.poisoned || result != 0) = true
    rw [bne_iff_ne.2 hres, Bool.or_true]
  unfold Space.unmapRegion
  extract_lets start stop first count removed s₁ result₁ s₂ dropped result₂ s₃ edited r'
  by_cases hwhole : removed = r.live ∧ r.guardBytes = 0
  · rw [if_pos hwhole]
    by_cases hres : result₁ = 0
    · rw [if_neg (not_not_intro hres), if_pos rfl, Option.toList_none, List.append_nil]
      funext x
      unfold clearIn
      by_cases hx : r.Has x
      · have hnone : viewOf s.pageSize (done ++ rest) x = none :=
          viewOf_none fun q hq => (hs.apart q hq).not_has hx
        rw [hnone]
        split
        · rfl
        next hout =>
          rw [viewOf_of_has hs.apart hx, pageAt_of_removed hgood hspans hs.page_pos hwhole.1 hx]
          exact fun h' => hout ⟨hx, (hmem x hx).2 h'⟩
      · rw [if_neg fun h' => hx h'.1, viewOf_of_not_has hx]
    · rw [if_pos hres, if_neg hres]
      exact hfail hres
  rw [if_neg hwhole]
  by_cases hrem : removed = 0
  · rw [if_neg (not_not_intro hrem), if_pos rfl, hstay]
    funext x
    unfold clearIn
    split
    next hx =>
      rw [viewOf_of_has hs.apart hx.1]
      exact pageAt_of_unmapped hspans hs.page_pos hrem hx.1 ((hmem x hx.1).1 hx.2)
    · rfl
  rw [if_pos hrem]
  by_cases hres : result₂ = 0
  · have hedit : viewOf s.pageSize (done ++ { r' with file := (s₃.releaseUnusedFile r').2 } :: rest) =
        (viewOf s.pageSize (done ++ r :: rest)).patch start (stop - start) fun _ => none :=
      viewOf_edit (f := fun _ => {}) ⟨rfl, rfl, rfl⟩ hs.apart hspans hs.page_pos fun _ _ => rfl
    rw [if_neg (not_not_intro hres), if_pos rfl, Option.toList_some, List.append_assoc, List.singleton_append, hedit]
    funext x
    refine if_congr ⟨fun hin => ?_, fun hin => (hmem x hin.1).1 hin.2⟩ rfl rfl
    have hx := hspans.has hin.1 hin.2
    exact ⟨hx, (hmem x hx).2 hin⟩
  · rw [if_pos hres, if_neg hres]
    exact hfail hres

/-- The loop of `artbox_vm_munmap`: the regions to come lose their pages in the range. -/
theorem view_munmapRegions {address size : Nat} {done rest : List Region} (hs : s.Holds (done ++ rest))
    (hpo : s.poisoned = false) (ha : address % s.pageSize = 0) (hz : size % s.pageSize = 0)
    (hend : address + size < word)
    (howned : ∀ r ∈ rest, overlaps address size r.base r.length = true → r.owned = true)
    (hpo' : (munmapRegions h address size done rest s).2.poisoned = false) :
    (munmapRegions h address size done rest s).1 = 0 ∧
      (munmapRegions h address size done rest s).2.view =
        rest.foldl (fun m r => clearIn m r address size) (viewOf s.pageSize (done ++ rest)) := by
  induction rest generalizing done s with
  | nil =>
    rw [List.append_nil]
    exact ⟨rfl, rfl⟩
  | cons r rest ih =>
    have hrest : ∀ q ∈ rest, overlaps address size q.base q.length = true → q.owned = true :=
      fun q hq => howned q (List.mem_cons_of_mem r hq)
    rw [List.foldl_cons]
    unfold munmapRegions at hpo' ⊢
    by_cases ho : overlaps address size r.base r.length = true
    · rw [if_pos ho] at hpo' ⊢
      have hown := howned r List.mem_cons_self ho
      obtain ⟨hs', hpage, hok⟩ := hs.unmapRegion (h := h) hpo ha hz hend ho hown
      have hview := view_unmapRegion (h := h) hs hpo ha hz hend ho hown
      generalize s.unmapRegion h address size r = out at hs' hpage hok hview hpo' ⊢
      obtain ⟨result, s', left⟩ := out
      dsimp only at hs' hpage hok hview hpo' ⊢
      by_cases hres : result = 0
      · rw [if_neg (not_not_intro hres)] at hpo' ⊢
        rw [if_pos hres] at hview
        rw [← hpage] at ha hz
        rw [← hview, ← hpage]
        exact ih hs' (hok hres) ha hz hrest hpo'
      · rw [if_neg hres] at hview
        rw [if_pos hres] at hpo'
        rw [show Space.poisoned _ = true from hview] at hpo'
        cases hpo'
    · rw [if_neg ho] at hpo' ⊢
      have hnone : clearIn (viewOf s.pageSize (done ++ r :: rest)) r address size =
          viewOf s.pageSize (done ++ [r] ++ rest) := by
        have hplaced := hs.placed hpo r (List.mem_append_right _ List.mem_cons_self)
        rw [List.append_assoc, List.singleton_append]
        funext x
        refine if_neg fun hx => ho ?_
        unfold overlaps
        rw [add64_eq hend, add64_eq hplaced.lt_word, Bool.and_eq_true, decide_eq_true_eq, decide_eq_true_eq]
        have hhas : r.base ≤ x ∧ x < r.base + r.length := hx.1
        omega
      rw [hnone]
      refine ih ?_ hpo ha hz hrest hpo'
      rw [List.append_assoc]
      exact hs

/-- A list of regions without their pages in a range. -/
theorem clearIn_all {address size : Nat} (l : List Region) (m : PageMap) (hm : ∀ x, (∀ r ∈ l, ¬ r.Has x) → m x = none) :
    l.foldl (fun m r => clearIn m r address size) m = m.patch address size fun _ => none := by
  have hfold : ∀ (l : List Region) (m : PageMap) (x : Nat),
      l.foldl (fun m r => clearIn m r address size) m x =
        if (∃ r ∈ l, r.Has x) ∧ address ≤ x ∧ x < address + size then none else m x := by
    intro l
    induction l with
    | nil => exact fun m x => (if_neg fun hx => by obtain ⟨⟨_, hr, _⟩, _⟩ := hx; cases hr).symm
    | cons r l ih =>
      intro m x
      rw [List.foldl_cons, ih]
      unfold clearIn
      by_cases hl : (∃ q ∈ l, q.Has x) ∧ address ≤ x ∧ x < address + size
      · obtain ⟨⟨q, hq, hx⟩, hin⟩ := hl
        rw [if_pos ⟨⟨q, hq, hx⟩, hin⟩, if_pos ⟨⟨q, List.mem_cons_of_mem r hq, hx⟩, hin⟩]
      · rw [if_neg hl]
        refine if_congr ⟨fun h' => ⟨⟨r, List.mem_cons_self, h'.1⟩, h'.2⟩, fun ⟨⟨q, hq, hx⟩, hin⟩ => ?_⟩ rfl rfl
        rcases List.mem_cons.1 hq with rfl | hq
        · exact ⟨hx, hin⟩
        · exact absurd ⟨⟨q, hq, hx⟩, hin⟩ hl
  funext x
  rw [hfold]
  unfold PageMap.patch
  by_cases hin : address ≤ x ∧ x < address + size
  · rw [if_pos hin]
    by_cases hex : ∃ r ∈ l, r.Has x
    · rw [if_pos ⟨hex, hin⟩]
    · rw [if_neg fun h' => hex h'.1]
      exact hm x fun r hr hx => hex ⟨r, hr, hx⟩
  · rw [if_neg fun h' => hin h'.2, if_neg hin]

/-- `artbox_vm_munmap` takes the range out of the map. -/
theorem yields_munmap (hs : s.Good) {address length : Nat} :
    Yields (fun result => s.view.after s.pageSize (.munmap address length) result) (s.munmap h address length) := by
  have hrefused : ∀ {error : Int}, error ≠ 0 → s.view.after s.pageSize (.munmap address length) error = s.view :=
    fun h0 => if_pos h0
  unfold Space.munmap
  refine Yields.check (hrefused (by decide)) fun hpo => Yields.check (hrefused (by decide)) fun hrange =>
    Yields.check (hrefused (by decide)) fun howned hpo' => ?_
  rw [not_or] at hrange
  have hr := range_iff.1 (by simpa using hrange.2)
  obtain ⟨hz, _⟩ := rounded_spec hs.page_pos hrange.1
  have hall : s.Holds ([] ++ s.regions) := hs
  have hregions : ∀ r ∈ s.regions, overlaps address (s.rounded length) r.base r.length = true → r.owned = true := by
    intro r hmem ho
    by_contra hown
    refine howned (List.any_eq_true.2 ⟨r, hmem, ?_⟩)
    rw [Bool.eq_false_iff.2 hown, ho]
    rfl
  obtain ⟨hresult, hview⟩ := view_munmapRegions hall (by simpa using hpo) hr.1 hz hr.2 hregions hpo'
  rw [hview, List.nil_append, clearIn_all s.regions (viewOf s.pageSize s.regions) fun x hx => viewOf_none hx]
  refine Eq.trans ?_ (if_neg (not_not_intro hresult)).symm
  rw [rounded_eq_roundUp hrange.1]
  rfl

/-! ## Every operation -/

/-- The map behind an operation is what its result says. -/
theorem perform_view (hs : s.Good) (hf : h.Fresh s.regions) (he : h.Errnos) (hpage : 4096 ≤ s.pageSize) (op : Op)
    (hpo : (s.perform h op).2.poisoned = false) :
    (s.perform h op).2.view = s.view.after s.pageSize op (s.perform h op).1 := by
  cases op with
  | reserveWindow length guardBytes => exact view_reserveWindow hpo
  | mmap address length prot flags offset => exact yields_mmapLocked hs hf he hpage hpo
  | mmapWindow base address length prot flags offset => exact yields_mmapWindow hs hf he hpage hpo
  | mapFile length prot flags offset file maximum watched => exact yields_mapFile hs hf he hpage hpo
  | mprotect address length prot => exact yields_mprotect hs hpo
  | munmap address length => exact yields_munmap hs hpo
  | madvise address length advice => exact yields_madvise hpo
  | registerData address length prot => exact yields_registerData hs hpo
  | registerReadonly address length => exact yields_registerReadonly hs hpo

/-! ## Runs -/

/-- Operations one after the other, each on the host of its time: their results and the last space. -/
def run (s : Space) : List (Host × Op) → List Int × Space
  | [] => ([], s)
  | (h, op) :: ops =>
    let (result, s) := s.perform h op
    let (results, s) := run s ops
    (result :: results, s)

/-- Every host of the run reserves fresh storage and reports errors by their numbers. -/
def Runs (s : Space) : List (Host × Op) → Prop
  | [] => True
  | (h, op) :: ops => h.Fresh s.regions ∧ h.Errnos ∧ Runs (s.perform h op).2 ops

/-- No move changes the page size or lifts the poison. -/
theorem moves_page {a b : Space × Hand} (hm : Moves a b) :
    b.1.pageSize = a.1.pageSize ∧ (a.1.poisoned = true → b.1.poisoned = true) := by
  induction hm with
  | refl => exact ⟨rfl, id⟩
  | tail _ hm ih =>
    obtain ⟨l, hl⟩ := move_notes hm
    exact ⟨hl.pageSize.trans ih.1, fun h => hl.poisoned (ih.2 h)⟩

/-- A reachable space has pages of at least 4096 bytes. -/
theorem page_le (hr : machine.Reachable s) : 4096 ≤ s.pageSize := by
  have hcreate : ∀ {h pageSize limit regionLimit s}, create h pageSize limit regionLimit = some s →
      4096 ≤ s.pageSize := by
    intro h pageSize limit regionLimit s hc
    unfold create at hc
    split at hc
    · cases hc
    next hbad =>
      split at hc
      · cases hc
      · obtain rfl := Option.some.inj hc
        rw [not_or, not_or] at hbad
        exact Nat.le_of_not_lt hbad.2.1
  refine hr.inv_of (I := fun s => 4096 ≤ s.pageSize) (J := Good) (fun _ => reachable_good) ?_ ?_
  · intro s hinit
    obtain ⟨h, hf, ⟨_, _, _, hc⟩ | ⟨pageSize, length, guardBytes, hc⟩⟩ := hinit
    · exact hcreate hc
    · unfold createWindow at hc
      cases h₀ : create h pageSize length 1 with
      | none =>
        rw [h₀] at hc
        cases hc
      | some s₀ =>
        rw [h₀] at hc
        dsimp only at hc
        split at hc
        · cases hc
        · obtain rfl := Option.some.inj hc
          have hf₀ : h.Fresh s₀.regions := by
            rw [create_regions h₀]
            exact hf
          have hpage := (moves_page (turn_reserveWindow hf₀ length guardBytes)).1
          exact hpage ▸ hcreate h₀
  · intro s s' hs hI hstep
    obtain ⟨h, op, hf, rfl⟩ := hstep
    have hpage := (moves_page (perform_moves hs hf op)).1
    exact hpage ▸ hI

/-- A window that could be reserved is in a space that may be used. -/
theorem reserveWindow_ok {length guardBytes : Nat} :
    (s.reserveWindow h length guardBytes).1 = 0 → (s.reserveWindow h length guardBytes).2.1.poisoned = false := by
  unfold Space.reserveWindow
  split
  · exact fun h0 => absurd (show (-22 : Int) = 0 from h0) (by decide)
  split
  · exact fun h0 => absurd (show (-5 : Int) = 0 from h0) (by decide)
  next hpo =>
    have hpo : s.poisoned = false := by simpa using hpo
    split
    · exact fun h0 => absurd (show (-12 : Int) = 0 from h0) (by decide)
    split
    · exact fun h0 => absurd (show (-12 : Int) = 0 from h0) (by decide)
    generalize h.reserve length = answer
    obtain ⟨result, storage⟩ := answer
    dsimp only
    split
    next hres => exact fun h0 => absurd h0 hres
    next =>
      split
      · exact fun h0 => absurd (show (-12 : Int) = 0 from h0) (by decide)
      · exact fun _ => hpo

/-- A new space has no mapped page. -/
theorem view_init (hi : machine.init s) : s.view = fun _ => none := by
  have hcreate : ∀ {h pageSize limit regionLimit s}, create h pageSize limit regionLimit = some s →
      s.view = fun _ => none := by
    intro h pageSize limit regionLimit s hc
    unfold view
    rw [create_regions hc]
    rfl
  obtain ⟨h, _, ⟨_, _, _, hc⟩ | ⟨pageSize, length, guardBytes, hc⟩⟩ := hi
  · exact hcreate hc
  · unfold createWindow at hc
    cases h₀ : create h pageSize length 1 with
    | none =>
      rw [h₀] at hc
      cases hc
    | some s₀ =>
      rw [h₀] at hc
      dsimp only at hc
      split at hc
      · cases hc
      next hres =>
        obtain rfl := Option.some.inj hc
        have hpo := reserveWindow_ok (Decidable.not_not.1 hres)
        exact (view_reserveWindow hpo).trans (hcreate h₀)

/-- The map of a space is what the operations and their results say, from no mapped page on. -/
theorem run_view (hi : machine.init s) {ops : List (Host × Op)} (hr : Runs s ops)
    (hpo : (s.run ops).2.poisoned = false) :
    (s.run ops).2.view = PageMap.afterAll (fun _ => none) s.pageSize ops (s.run ops).1 := by
  have hall : ∀ (ops : List (Host × Op)) (s : Space), machine.Reachable s → Runs s ops →
      (s.run ops).2.poisoned = false →
      s.poisoned = false ∧ (s.run ops).2.view = s.view.afterAll s.pageSize ops (s.run ops).1 := by
    intro ops
    induction ops with
    | nil => exact fun s _ _ hpo => ⟨hpo, rfl⟩
    | cons op ops ih =>
      obtain ⟨h, op⟩ := op
      intro s hr hruns hpo
      obtain ⟨hf, he, hruns⟩ := hruns
      have hs := reachable_good hr
      obtain ⟨hpage, hpoison⟩ := moves_page (perform_moves hs hf op)
      obtain ⟨hpo', hview⟩ := ih _ (hr.step ⟨h, op, hf, rfl⟩) hruns hpo
      refine ⟨Bool.eq_false_iff.2 fun hp => ?_, ?_⟩
      · rw [show Space.poisoned _ = true from hpoison hp] at hpo'
        cases hpo'
      · have hpage : (s.perform h op).2.pageSize = s.pageSize := hpage
        rw [perform_view hs hf he (page_le hr) op hpo', hpage] at hview
        exact hview
  rw [← view_init hi]
  exact (hall ops s (.init hi) hr hpo).2

theorem sampleRoom_errnos {storage : Nat} : (sampleRoom storage 0).Errnos where
  reserve n := by
    unfold sampleRoom
    dsimp only
    split
    · exact .inl rfl
    · exact .inr (by decide)
  protect _ _ _ := .inl rfl
  acquire _ := .inl rfl
  map _ _ _ _ _ _ := .inl rfl

theorem sampleFull_errnos : (sampleFull 0).Errnos where
  reserve _ := .inr (show Errno (-12) by decide)
  protect _ _ _ := .inl rfl
  acquire _ := .inl rfl
  map _ _ _ _ _ _ := .inl rfl

/-- A file is mapped, and a page of it unmapped. -/
def sampleRun : List (Host × Op) :=
  [(sampleRoom 0x10000 0, .mapFile 0x3000 3 2 0x2000 7 3 true), (sampleFull 0, .munmap 0x10000 0x1000)]

theorem run_view_sample :
    (sampleEmpty.run sampleRun).2.view = PageMap.afterAll (fun _ => none) 0x1000 sampleRun [0x10000, 0] := by
  have hcreate : create (sampleRoom 0x10000 0) 0x1000 0x10000 2 = some sampleEmpty := by decide
  have hruns : Runs sampleEmpty sampleRun :=
    ⟨sampleRoom_fresh (by decide), sampleRoom_errnos, sampleFull_fresh, sampleFull_errnos, trivial⟩
  exact run_view ⟨_, sampleRoom_fresh (by decide), .inl ⟨_, _, _, hcreate⟩⟩ hruns (by decide)

end Space

end Artbox.Vm
