import Artbox.Vm.Operations
import Mathlib.Data.List.SplitBy

/-!
# What an operation of a space can do

Every operation is a row of moves (`perform_moves`): it asks the host for storage or for a file and
then has them in hand, it makes a region of what it has in hand or gives it back, and it changes the
pages of a region or takes the region away. What is said of the runs of a space in the modules behind
this one is proved move by move, so that no operation is taken apart twice.
-/

namespace Artbox.Vm

/-- Storage that the code of `vm.cpp` refuses. -/
def Space.Unusable (s : Space) (address length : Nat) : Prop := int64Max < address ∨ s.range address length = false

/-- The pages of a region that a range of addresses is. -/
structure Region.Spans (r : Region) (page address size first count : Nat) : Prop where
  address_eq : address = r.base + first * page
  size_eq : size = count * page
  inside : first + count ≤ r.pages.length
  whole : r.pages.length * page = r.length

/-- The addresses of a range of pages are in the region. -/
theorem Region.Spans.within {r : Region} {page address size first count : Nat}
    (hs : r.Spans page address size first count) :
    r.base ≤ address ∧ address + size ≤ r.base + r.length := by
  have hle : (first + count) * page ≤ r.pages.length * page := Nat.mul_le_mul_right page hs.inside
  rw [hs.whole, Nat.add_mul] at hle
  rw [hs.address_eq, hs.size_eq]
  exact ⟨by omega, by omega⟩

/-- What an operation has in hand between two callbacks: storage that is no region yet, the
permissions the host gave it and whether it mapped the file there, if that is known, and the file. -/
structure Hand where
  storage : Option (Nat × Nat) := none
  made : Option (BitVec 2 × Bool) := none
  file : Option FileMapping := none

/-- The range of existing pages that a callback is asked to change. -/
def Request.changes : Request → Option (Nat × Nat)
  | .protect address length _ => some (address, length)
  | .reset address length _ => some (address, length)
  | .release address length => some (address, length)
  | .map _ address length _ _ _ => some (address, length)
  | _ => none

/-- A request about addresses of the region that the code of `vm.cpp` may make. -/
structure Region.Admits (r : Region) (request : Request) : Prop where
  range : ∃ a n, request.changes = some (a, n) ∧ r.base ≤ a ∧ a + n ≤ r.base + r.length
  kind : r.owned = true ∨ r.protectable = true ∧ ∃ a n p, request = .protect a n p

namespace Space

variable {s : Space} {h : Host} {r : Region} {i : Nat}

/-- The space with other regions. -/
def put (s : Space) (l : List Region) : Space := { s with regions := l }

/-- The callback that gives a run of equal pages new storage. -/
def discardRequest (page : Nat) (r : Region) (n : Nat) (run : List Page) : Request :=
  let start := r.base + n * page
  let bytes := run.length * page
  let permissions := (run.headD {}).protection
  match (run.headD {}).filePage, r.file with
  | true, some f => .map f.reference start bytes permissions f.sharing (f.offset + n * page)
  | _, _ => .reset start bytes permissions

/-- A new region is as the host made its storage. -/
structure Made (k : Hand) (page : Nat) (r : Region) (p : Page) : Prop where
  storage : k.storage = some (r.base, r.length)
  pages : r.pages = .replicate (r.length / page) p
  whole : r.length / page * page = r.length
  pos : 0 < r.length
  owned : r.owned = true
  file : p.filePage = r.file.isSome
  mapped : p.filePage = true → p.mapped = true

/-- One move of an operation. -/
inductive Move : Space × Hand → Space × Hand → Prop
  | acquire (s : Space) (file : Nat) (f : FileMapping) (error : Int) (ht : f.tracking = none) :
    Move (s, {}) (s.note (.acquire file f.reference) error, { file := some f })
  | drop (s : Space) (k : Hand) (hk : k.storage = none) : Move (s, k) (s.drop k.file, {})
  | refuse (s : Space) (k : Hand) (size storage : Nat) (error : Int) (hk : k.storage = none)
      (hr : error ≠ 0 ∨ storage = 0) :
    Move (s, k) (s.note (.reserve size storage) error, k)
  | reserve (s : Space) (k : Hand) (size storage : Nat) (hk : k.storage = none) (h0 : storage ≠ 0)
      (hw : storage + size ≤ word)
      (hd : ∀ r ∈ s.regions, storage + size ≤ r.base ∨ r.base + r.length ≤ storage) :
    Move (s, k) (s.note (.reserve size storage) 0, { k with storage := some (storage, size), made := some (0, false) })
  | protect (s : Space) (k : Hand) (b n : Nat) (p : BitVec 2) (answer : Int) (hk : k.storage = some (b, n))
      (hm : k.made = some (0, false)) :
    Move (s, k) (s.note (.protect b n p) answer, { k with made := if answer = 0 then some (p, false) else none })
  | map (s : Space) (k : Hand) (b n : Nat) (p : BitVec 2) (f : FileMapping) (answer : Int)
      (hk : k.storage = some (b, n)) (hf : k.file = some f) :
    Move (s, k) (s.note (.map f.reference b n p f.sharing f.offset) answer,
      { k with made := if answer = 0 then some (p, true) else none })
  | release (s : Space) (k : Hand) (b n : Nat) (answer : Int) (hk : k.storage = some (b, n))
      (hu : answer ≠ 0 → s.Unusable b n) :
    Move (s, k) (s.note (.release b n) answer, { file := k.file })
  | retain (s : Space) (k : Hand) (r : Region) (p : Page) (error : Int) (hr : Made k s.pageSize r p)
      (hf : r.file = k.file) (he : error ≠ 0) :
    Move (s, k) (keep { s.note (.release r.base r.length) error with poisoned := true } r, {})
  | keep (s : Space) (k : Hand) (r : Region) (p : Page) (hr : Made k s.pageSize r p)
      (hm : k.made = some (p.protection, p.filePage)) (hf : r.file = k.file) :
    Move (s, k) (s.keep r, {})
  | watch (s : Space) (k : Hand) (r : Region) (p : Page) (f : FileMapping) (hr : Made k s.pageSize r p)
      (hm : k.made = some (p.protection, p.filePage)) (hf : k.file = some f)
      (ht : r.file = some { f with tracking := some s.watches.length }) :
    Move (s, k) (Space.keep { s with watches := s.watches ++ [{}] } r, {})
  | register (s : Space) (r : Region) (ho : r.owned = false) (hf : r.file = none)
      (hp : ∀ p ∈ r.pages, p.filePage = false) (hd : ∀ q ∈ s.regions, q.Disjoint r) :
    Move (s, {}) (s.put (s.regions ++ [r]), {})
  | spoil (s : Space) (r : Region) (first count : Nat) (request : Request) (error : Int) (hr : r ∈ s.regions)
      (hq : r.Admits request) (he : error ≠ 0) :
    Move (s, {}) ((s.invalidateFilePages r first count).mutation request error, {})
  | skip (s : Space) (r : Region) (first count : Nat) (hr : r ∈ s.regions) (hn : r.mappedIn first count = 0) :
    Move (s, {}) (s.invalidateFilePages r first count, {})
  | reset (s : Space) (done rest : List Region) (r : Region) (address size first count live : Nat) (p : Page)
      (hs : s.regions = done ++ r :: rest) (hd : ∀ q ∈ done ++ rest, r.Disjoint q)
      (hr : r.Spans s.pageSize address size first count) (ho : r.owned = true) (hp : p.filePage = false) :
    Move (s, {})
      (let s' := (s.invalidateFilePages r first count).mutation (.reset address size p.protection) 0
       let r' := { r.edit first count (fun _ => p) with live }
       ((s'.releaseUnusedFile r').1.put (done ++ { r' with file := (s'.releaseUnusedFile r').2 } :: rest), {}))
  | reprotect (s : Space) (done rest : List Region) (r : Region) (address size first count : Nat) (p : BitVec 2)
      (hs : s.regions = done ++ r :: rest) (hd : ∀ q ∈ done ++ rest, r.Disjoint q)
      (hr : r.Spans s.pageSize address size first count) (hm : r.present first count = true)
      (hw : r.protectable = true) :
    Move (s, {}) ((s.mutation (.protect address size p) 0).put
      (done ++ r.edit first count (fun q => { q with protection := p }) :: rest), {})
  | discard (s : Space) (r : Region) (n : Nat) (run : List Page) (hr : r ∈ s.regions)
      (hs : r.Spans s.pageSize (r.base + n * s.pageSize) (run.length * s.pageSize) n run.length)
      (ho : r.owned = true) (hn : run = r.slice n run.length) (he : ∀ p ∈ run, p = run.headD {}) :
    Move (s, {}) (s.mutation (discardRequest s.pageSize r n run) 0, {})
  | erase (s : Space) (done rest : List Region) (r : Region) (first count : Nat)
      (hs : s.regions = done ++ r :: rest) (hd : ∀ q ∈ done ++ rest, r.Disjoint q) (ho : r.owned = true) :
    Move (s, {})
      (let s' := (s.invalidateFilePages r first count).mutation (.release r.base r.length) 0
       ({ (s'.drop r.file).put (done ++ rest) with reserved := sub64 s.reserved r.length }, {}))

/-- A row of moves. -/
abbrev Moves : Space × Hand → Space × Hand → Prop := Relation.ReflTransGen Move

/-- The moves of an operation, which has nothing in hand before it and behind it. -/
abbrev Turn (s s' : Space) : Prop := Moves (s, {}) (s', {})

/-! ## The regions of a space -/

/-- A list around one of its entries. -/
theorem split_at {α : Type} {l : List α} {a : α} (h : l[i]? = some a) :
    ∃ done rest, l = done ++ a :: rest ∧ ∀ b, l.set i b = done ++ b :: rest := by
  obtain ⟨hlt, ha⟩ := List.getElem?_eq_some_iff.1 h
  refine ⟨l.take i, l.drop (i + 1), ?_, fun b => ?_⟩
  · rw [← ha, List.cons_getElem_drop_succ, List.take_append_drop]
  · rw [List.set_eq_take_append_cons_drop, if_pos hlt]

/-- A region is apart from the others. -/
theorem Holds.apart {done rest : List Region} (hs : s.Holds (done ++ r :: rest)) :
    ∀ q ∈ done ++ rest, r.Disjoint q := by
  have hsymm : ∀ {x y : Region}, x.Disjoint y → y.Disjoint x := fun hxy => hxy.symm
  exact (List.pairwise_cons.1 ((List.pairwise_middle hsymm).1 hs.disjoint)).1

/-- The pages that a range is of a region of whole pages. -/
theorem spans_of_contains {address size : Nat} (hg : r.Good s.pageSize) (hpl : r.Placed s.pageSize)
    (hp : 0 < s.pageSize) (hw : r.protectable = true) (ha : address % s.pageSize = 0) (hz : size % s.pageSize = 0)
    (hc : r.contains address size = true) :
    r.Spans s.pageSize address size ((address - r.base) / s.pageSize) (size / s.pageSize) := by
  obtain ⟨hstart, hin⟩ := hg.pages_of_contains hpl hp hw ha hz hc
  exact ⟨hstart.symm, (Nat.div_mul_cancel (Nat.dvd_of_mod_eq_zero hz)).symm, hin, hg.pages_whole hp hw⟩

/-! ## What the callbacks leave alone -/

/-- A change of a watch is no change of a region. -/
@[simp] theorem watch_regions (s : Space) (tracking : Option Nat) (f : MappingState → MappingState) :
    (s.watch tracking f).regions = s.regions := by
  cases tracking <;> rfl

@[simp] theorem invalidateFilePages_regions (s : Space) (r : Region) (first count : Nat) :
    (s.invalidateFilePages r first count).regions = s.regions := by
  obtain ⟨watches, hw⟩ := s.invalidateFilePages_eq r first count
  rw [hw]

@[simp] theorem releaseUnusedFile_regions (s : Space) (r : Region) : (s.releaseUnusedFile r).1.regions = s.regions := by
  obtain ⟨watches, log, file, hf, _⟩ := s.releaseUnusedFile_eq r
  rw [hf]

/-- The log of native calls is no region either. -/
@[simp] theorem mutation_regions (s : Space) (request : Request) (answer : Int) :
    (s.mutation request answer).regions = s.regions := rfl

/-- Only the last regions that were put count. -/
@[simp] theorem put_put (s : Space) (l l' : List Region) : (s.put l).put l' = s.put l' := rfl

/-- A native call and a change of the regions can be told in either order. -/
@[simp] theorem mutation_put (s : Space) (l : List Region) (request : Request) (answer : Int) :
    (s.put l).mutation request answer = (s.mutation request answer).put l := rfl

/-- An invalidated watch and a change of the regions can be told in either order. -/
@[simp] theorem invalidateFilePages_put (s : Space) (l : List Region) (r : Region) (first count : Nat) :
    (s.put l).invalidateFilePages r first count = (s.invalidateFilePages r first count).put l := by
  unfold Space.invalidateFilePages
  cases r.file with
  | none => rfl
  | some f =>
    dsimp only
    split
    · cases f.tracking <;> rfl
    · rfl

/-- Giving up a file and changing the regions can be told in either order. -/
@[simp] theorem drop_put (s : Space) (l : List Region) (file : Option FileMapping) :
    (s.put l).drop file = (s.drop file).put l := by
  cases file with
  | none => rfl
  | some f =>
    obtain ⟨reference, offset, sharing, tracking⟩ := f
    unfold Space.drop
    dsimp only
    cases tracking <;> split <;> rfl

/-- The release of an unused file and a change of the regions can be told in either order. -/
@[simp] theorem releaseUnusedFile_put (s : Space) (l : List Region) (r : Region) :
    (s.put l).releaseUnusedFile r = ((s.releaseUnusedFile r).1.put l, (s.releaseUnusedFile r).2) := by
  unfold Space.releaseUnusedFile
  split
  · rfl
  · rw [drop_put]

/-- No page is invalidated. -/
theorem invalidateFilePages_empty (s : Space) (r : Region) : s.invalidateFilePages r 0 0 = s := by
  unfold Space.invalidateFilePages
  cases r.file <;> rfl

theorem invalidateFilePages_reserved (s : Space) (r : Region) (first count : Nat) :
    (s.invalidateFilePages r first count).reserved = s.reserved := by
  obtain ⟨watches, hw⟩ := s.invalidateFilePages_eq r first count
  rw [hw]

/-! ## The operations -/

/-- An operation that branches. -/
theorem moves_ite {a : Space × Hand} {c : Prop} [Decidable c] {x y : Int × Space} (hx : c → Moves a (x.2, {}))
    (hy : ¬ c → Moves a (y.2, {})) : Moves a ((if c then x else y).2, {}) := by
  by_cases hc : c
  · rw [if_pos hc]
    exact hx hc
  · rw [if_neg hc]
    exact hy hc

/-- An operation that checks first: a refused request makes no move. -/
theorem Turn.check {c : Prop} [Decidable c] {error : Int} {x : Int × Space} (hx : ¬ c → Turn s x.2) :
    Turn s (if c then (error, s) else x).2 :=
  moves_ite (fun _ => .refl) hx

/-- A fixed mapping is a row of moves, also where the native call fails. -/
theorem turn_replace (hs : s.Good) (hpo : s.poisoned = false) {window : Option Nat} {address size : Nat}
    {permissions : BitVec 2} (hz : size % s.pageSize = 0) :
    Turn s (s.replace h window address size permissions).2 := by
  unfold Space.replace
  refine Turn.check fun hrange => ?_
  obtain ⟨ha, _⟩ := range_iff.1 (by simpa using hrange)
  cases hc : s.containing address size with
  | none => exact .refl
  | some q =>
    obtain ⟨r, i⟩ := q
    obtain ⟨hi, hin⟩ := containing_some hc
    obtain ⟨done, rest, hsplit, hset⟩ := split_at hi
    have hr := List.mem_of_getElem? hi
    refine Turn.check fun _ => Turn.check fun ho => Turn.check fun _ => ?_
    have ho : r.owned = true := by simpa using ho
    have hgood := hs.regions r hr
    have hspans := spans_of_contains hgood (hs.placed hpo r hr) hs.page_pos (hgood.protectable ho) ha hz hin
    have hs' : s.Holds (done ++ r :: rest) := hsplit ▸ hs
    extract_lets first count s₁ result s₂ live r₁ r'
    by_cases hres : result = 0
    · have hmove := Move.reset s done rest r address size first count live
        { mapped := true, protection := permissions } hsplit hs'.apart hspans ho rfl
      rw [if_neg (not_not_intro hres)]
      show Turn s ((s₂.releaseUnusedFile r').1.setRegion i { r' with file := (s₂.releaseUnusedFile r').2 })
      have hregions : (s₂.releaseUnusedFile r').1.regions = s.regions := by simp [s₂, s₁]
      unfold Space.setRegion
      rw [hregions, hset]
      have hs₂ : s₂ = s₁.mutation (.reset address size permissions) 0 := by rw [← hres]
      rw [hs₂]
      exact .single hmove
    · rw [if_pos hres]
      exact .single (Move.spoil s r first count _ result hr ⟨⟨_, _, rfl, hspans.within⟩, .inl ho⟩ hres)

/-- Storage in hand that cannot be used. -/
theorem moves_rollback {k : Hand} {p : Page} (hr : Made k s.pageSize r p) (hf : r.file = k.file) :
    Moves (s, k) (s.rollback h r, {}) := by
  unfold Space.rollback
  extract_lets result s₁
  by_cases hres : result = 0
  · rw [if_neg (not_not_intro hres), hf]
    exact (Relation.ReflTransGen.single
      (Move.release s k r.base r.length result hr.storage fun he => absurd hres he)).tail (Move.drop _ _ rfl)
  · rw [if_pos hres]
    exact .single (Move.retain s k r p result hr hf hres)

/-- A mapping in fresh storage is a row of moves. -/
theorem turn_reserveRegion (hf : h.Fresh s.regions) {size : Nat} {permissions : BitVec 2}
    (hz : size % s.pageSize = 0) (hn : size ≠ 0) : Turn s (s.reserveRegion h size permissions).2 := by
  unfold Space.reserveRegion
  refine Turn.check fun _ => Turn.check fun _ => ?_
  have hfresh := hf size
  generalize h.reserve size = answer at hfresh ⊢
  obtain ⟨result, storage⟩ := answer
  dsimp -zeta only at hfresh ⊢
  refine moves_ite (fun hres => .single (Move.refuse s {} size storage result rfl (.inl hres))) fun hres => ?_
  obtain rfl : result = 0 := Decidable.not_not.1 hres
  by_cases hstorage : storage = 0
  · rw [if_pos (.inl hstorage), if_neg (not_not_intro hstorage)]
    exact .single (Move.refuse s {} size storage 0 rfl (.inr hstorage))
  obtain ⟨hw, hd⟩ := hfresh rfl hstorage
  have hreserve := Relation.ReflTransGen.single (Move.reserve s {} size storage rfl hstorage hw hd)
  refine moves_ite (fun hbad => ?_) fun _ => ?_
  · rw [if_pos hstorage]
    exact hreserve.tail (Move.release _ _ storage size _ rfl fun _ => hbad.resolve_left hstorage)
  have hwhole := Nat.div_mul_cancel (Nat.dvd_of_mod_eq_zero hz)
  have hpos := Nat.pos_of_ne_zero hn
  extract_lets r
  by_cases hp0 : permissions = 0
  · rw [if_pos hp0, if_neg (not_not_intro rfl)]
    refine hreserve.tail (Move.keep _ _ r { mapped := true, protection := permissions }
      ⟨rfl, rfl, hwhole, hpos, rfl, rfl, nofun⟩ ?_ rfl)
    show some (0, false) = some (permissions, false)
    rw [hp0]
  rw [if_neg hp0]
  have hprotect := hreserve.tail
    (Move.protect _ _ storage size permissions (h.protect storage size permissions) rfl rfl)
  refine moves_ite (fun _ => ?_) fun hok => ?_
  · exact hprotect.trans (moves_rollback (p := { mapped := true, protection := permissions })
      ⟨rfl, rfl, hwhole, hpos, rfl, rfl, nofun⟩ rfl)
  · refine hprotect.tail (Move.keep _ _ r { mapped := true, protection := permissions }
      ⟨rfl, rfl, hwhole, hpos, rfl, rfl, nofun⟩ ?_ rfl)
    exact if_pos (Decidable.not_not.1 hok)

/-- An anonymous mapping is a row of moves, fixed or not. -/
theorem turn_mmapLocked (hs : s.Good) (hf : h.Fresh s.regions) {window : Option (Region × Nat)}
    {address length offset : Nat} {prot flags : BitVec 64} :
    Turn s (s.mmapLocked h window address length prot flags offset).2 := by
  unfold Space.mmapLocked
  refine Turn.check fun hpo => Turn.check fun hsize => ?_
  have hpo : s.poisoned = false := by simpa using hpo
  obtain ⟨hz, _⟩ := rounded_spec hs.page_pos (not_or.1 hsize).1
  cases protection prot with
  | error e => exact .refl
  | ok permissions =>
    refine Turn.check fun _ => moves_ite (fun _ => turn_replace hs hpo hz) fun _ => ?_
    cases window with
    | none => exact turn_reserveRegion hf hz (not_or.1 hsize).1
    | some q =>
      obtain ⟨r, i⟩ := q
      dsimp only
      split
      · exact .refl
      · exact turn_replace hs hpo hz

/-- An anonymous mapping in a window is a row of moves. -/
theorem turn_mmapWindow (hs : s.Good) (hf : h.Fresh s.regions) {base address length offset : Nat}
    {prot flags : BitVec 64} : Turn s (s.mmapWindow h base address length prot flags offset).2 := by
  unfold Space.mmapWindow
  refine Turn.check fun _ => ?_
  cases s.managedWindow base with
  | none => exact .refl
  | some window => exact turn_mmapLocked hs hf

/-- The reservation of a window is a row of moves. -/
theorem turn_reserveWindow (hf : h.Fresh s.regions) (length guardBytes : Nat) :
    Turn s (s.reserveWindow h length guardBytes).2.1 := by
  unfold Space.reserveWindow
  split
  · exact .refl
  next hargs =>
    split
    · exact .refl
    split
    · exact .refl
    split
    · exact .refl
    simp only [not_or, Decidable.not_not] at hargs
    obtain ⟨_, hz, hg0, _, hgl⟩ := hargs
    have hfresh := hf length
    generalize h.reserve length = answer at hfresh ⊢
    obtain ⟨result, storage⟩ := answer
    dsimp only at hfresh ⊢
    by_cases hres : result ≠ 0
    · rw [if_pos hres]
      exact .single (Move.refuse s {} length storage result rfl (.inl hres))
    rw [if_neg hres]
    obtain rfl : result = 0 := Decidable.not_not.1 hres
    by_cases hstorage : storage = 0
    · have hvalid : validWindow storage length guardBytes = false := by
        rw [hstorage]
        rfl
      rw [if_pos (.inr (.inr (.inr hvalid))), if_neg (not_not_intro hstorage)]
      exact .single (Move.refuse s {} length storage 0 rfl (.inr hstorage))
    obtain ⟨hw, hd⟩ := hfresh rfl hstorage
    have hreserve := Relation.ReflTransGen.single (Move.reserve s {} length storage rfl hstorage hw hd)
    have hwhole := Nat.div_mul_cancel (Nat.dvd_of_mod_eq_zero hz)
    have hpos : 0 < length := by omega
    split
    · exact hreserve.trans (moves_rollback (p := {}) ⟨rfl, rfl, hwhole, hpos, rfl, rfl, nofun⟩ rfl)
    · exact hreserve.tail (Move.keep _ _ _ {} ⟨rfl, rfl, hwhole, hpos, rfl, rfl, nofun⟩ rfl rfl)

/-- With fresh storage in hand, attaching a file is a row of moves that leaves nothing in hand. -/
theorem moves_attachFile {k : Hand} {page : Page} {file : FileMapping} {watched : Bool}
    (hr : Made k s.pageSize r page) (hk : k.file = some file) (hf : r.file = some file) :
    Moves (s, k) ((s.attachFile h r file page.protection watched).2, {}) := by
  have hpage : page.filePage = true := by rw [hr.file, hf]; rfl
  unfold Space.attachFile
  extract_lets error s₁ r'
  have hmap := Relation.ReflTransGen.single
    (Move.map s k r.base r.length page.protection file error hr.storage hk)
  have hr₁ : Made { k with made := if error = 0 then some (page.protection, true) else none } s.pageSize r page :=
    ⟨hr.storage, hr.pages, hr.whole, hr.pos, hr.owned, hr.file, hr.mapped⟩
  by_cases herror : error = 0
  · have hmade : (if error = 0 then some (page.protection, true) else none) =
        some (page.protection, page.filePage) := by
      rw [if_pos herror, hpage]
    rw [if_neg (not_not_intro herror)]
    split
    · have hr' : Made { k with made := if error = 0 then some (page.protection, true) else none } s.pageSize r' page :=
        ⟨hr.storage, hr.pages, hr.whole, hr.pos, hr.owned, hpage, hr.mapped⟩
      exact hmap.tail (Move.watch _ _ r' page file hr' hmade hk rfl)
    · exact hmap.tail (Move.keep _ _ r page hr₁ hmade (hf.trans hk.symm))
  · rw [if_pos herror]
    exact hmap.trans (moves_rollback hr₁ (hf.trans hk.symm))

/-- With a file in hand, so is reserving storage for it. -/
theorem moves_reserveFile (hf : h.Fresh s.regions) {size : Nat} {page : Page} {file : FileMapping}
    {watched : Bool} (hz : size % s.pageSize = 0) (hn : size ≠ 0) (hp : page.filePage = true)
    (hm : page.mapped = true) :
    Moves (s, { file := some file }) ((s.reserveFile h size page file watched).2, {}) := by
  unfold Space.reserveFile
  have hfresh := hf size
  generalize h.reserve size = answer at hfresh ⊢
  obtain ⟨error, storage⟩ := answer
  dsimp only at hfresh ⊢
  refine moves_ite (fun herror => (Relation.ReflTransGen.single
    (Move.refuse s _ size storage error rfl (.inl herror))).tail (Move.drop _ _ rfl)) fun herror => ?_
  obtain rfl : error = 0 := Decidable.not_not.1 herror
  by_cases hstorage : storage = 0
  · rw [if_pos (.inl hstorage), if_neg (not_not_intro hstorage)]
    exact (Relation.ReflTransGen.single (Move.refuse s _ size storage 0 rfl (.inr hstorage))).tail
      (Move.drop _ _ rfl)
  obtain ⟨hw, hd⟩ := hfresh rfl hstorage
  have hreserve := Relation.ReflTransGen.single
    (Move.reserve s { file := some file } size storage rfl hstorage hw hd)
  refine moves_ite (fun hbad => ?_) fun _ => ?_
  · rw [if_pos hstorage]
    exact (hreserve.tail (Move.release _ _ storage size _ rfl fun _ => hbad.resolve_left hstorage)).tail
      (Move.drop _ _ rfl)
  · have hwhole := Nat.div_mul_cancel (Nat.dvd_of_mod_eq_zero hz)
    exact hreserve.trans
      (moves_attachFile ⟨rfl, rfl, hwhole, Nat.pos_of_ne_zero hn, rfl, hp, fun _ => hm⟩ rfl rfl)

/-- `artbox_vm_map_file` is a row of moves from its reference to the file on. -/
theorem turn_mapFile (hs : s.Good) (hf : h.Fresh s.regions) {length offset file : Nat} {prot flags : BitVec 64}
    {maximum : BitVec 2} {watched : Bool} :
    Turn s (s.mapFile h length prot flags offset file maximum watched).2 := by
  unfold Space.mapFile
  refine Turn.check fun _ => Turn.check fun _ => Turn.check fun _ => Turn.check fun hsize => Turn.check fun _ => ?_
  obtain ⟨hz, _⟩ := rounded_spec hs.page_pos (not_or.1 hsize).1
  cases protection prot with
  | error e => exact .refl
  | ok permissions =>
    refine Turn.check fun _ => Turn.check fun _ => Turn.check fun _ => Turn.check fun _ => Turn.check fun _ => ?_
    generalize h.acquire file = answer
    obtain ⟨error, reference⟩ := answer
    have hacquire := Relation.ReflTransGen.single
      (Move.acquire s file ⟨reference, offset, (flags &&& 0xf).toNat, none⟩ error rfl)
    refine moves_ite (fun _ => hacquire.tail (Move.drop _ _ rfl)) fun _ => moves_ite (fun h0 => ?_) fun _ => ?_
    · -- there is no reference to give back
      have hdrop := hacquire.tail (Move.drop _ _ rfl)
      unfold Space.drop at hdrop
      dsimp only at hdrop
      rw [if_pos h0] at hdrop
      exact hdrop
    · dsimp only
      refine hacquire.trans (moves_reserveFile ?_ ?_ (not_or.1 hsize).1 rfl rfl)
      · exact hf
      · exact hz

/-- `artbox_vm_mprotect` is a row of moves, run by run. -/
theorem turn_mprotect (hs : s.Good) {address length : Nat} {prot : BitVec 64} :
    Turn s (s.mprotect h address length prot).2 := by
  unfold Space.mprotect
  refine Turn.check fun hpo => ?_
  have hpo : s.poisoned = false := by simpa using hpo
  cases protection prot with
  | error e => exact .refl
  | ok permissions =>
    refine Turn.check fun hrange => Turn.check fun hlength => ?_
    rw [not_or] at hrange
    have hsize : s.rounded length ≠ 0 := fun h0 => hrange.2 ⟨h0, hlength⟩
    obtain ⟨hz, _⟩ := rounded_spec hs.page_pos hsize
    cases hc : s.containing address (s.rounded length) with
    | none => exact .refl
    | some q =>
      obtain ⟨r, i⟩ := q
      obtain ⟨hi, hin⟩ := containing_some hc
      obtain ⟨done, rest, hsplit, hset⟩ := split_at hi
      have hr := List.mem_of_getElem? hi
      refine Turn.check fun hprotectable => Turn.check fun hpresent => Turn.check fun _ => ?_
      have hprotectable : r.protectable = true := by simpa using hprotectable
      have haligned := (range_iff.1 (by simpa using hrange.1)).1
      have hspans := spans_of_contains (hs.regions r hr) (hs.placed hpo r hr) hs.page_pos hprotectable haligned hz hin
      have hs' : s.Holds (done ++ r :: rest) := hsplit ▸ hs
      extract_lets result s₁
      by_cases hres : result = 0
      · rw [if_pos hres]
        unfold Space.setRegion
        rw [show s₁.regions = s.regions from rfl, hset,
          show s₁ = s.mutation (.protect address (s.rounded length) permissions) 0 by rw [← hres]]
        exact .single (Move.reprotect s done rest r address (s.rounded length) _ _ permissions hsplit hs'.apart
          hspans (by simpa using hpresent) hprotectable)
      · rw [if_neg hres]
        have hspoil := Move.spoil s r 0 0 (.protect address (s.rounded length) permissions) result hr
          ⟨⟨_, _, rfl, hspans.within⟩, .inr ⟨hprotectable, _, _, _, rfl⟩⟩ hres
        rw [invalidateFilePages_empty] at hspoil
        exact .single hspoil

/-- The loop of `artbox_vm_madvise` at a run of equal pages. -/
theorem discard_cons (s : Space) (r : Region) (n : Nat) (run : List Page) (runs : List (List Page)) :
    ∃ result, discard h r n (run :: runs) s =
      if result ≠ 0 then (result, s.mutation (discardRequest s.pageSize r n run) result)
      else discard h r (n + run.length) runs (s.mutation (discardRequest s.pageSize r n run) result) := by
  conv => enter [1, result, 1]; unfold Space.discard
  unfold discardRequest
  cases (run.headD {}).filePage <;> cases r.file <;> exact ⟨_, rfl⟩

/-- That loop, where the runs are the pages of the region from page `n` on. -/
theorem turn_discard {n count : Nat} {runs : List (List Page)} (hr : r ∈ s.regions) (ho : r.owned = true)
    (hw : r.pages.length * s.pageSize = r.length) (hin : n + count ≤ r.pages.length)
    (hruns : runs.flatten = r.slice n count) (he : ∀ run ∈ runs, ∀ p ∈ run, p = run.headD {}) :
    Turn s (discard h r n runs s).2 := by
  induction runs generalizing s n count with
  | nil => exact .refl
  | cons run runs ih =>
    have hlength := Region.length_slice hin
    rw [List.flatten_cons] at hruns
    rw [← hruns, List.length_append] at hlength
    have hrun : run = r.slice n run.length := by
      have htake := congrArg (List.take run.length) hruns
      rw [List.take_left, Region.slice, List.take_take, Nat.min_eq_left (by omega)] at htake
      exact htake
    have hrest : runs.flatten = r.slice (n + run.length) (count - run.length) := by
      have hdrop := congrArg (List.drop run.length) hruns
      rw [List.drop_left, Region.slice, List.drop_take, List.drop_drop] at hdrop
      exact hdrop
    have hspans : r.Spans s.pageSize (r.base + n * s.pageSize) (run.length * s.pageSize) n run.length :=
      ⟨rfl, rfl, by omega, hw⟩
    obtain ⟨result, hcons⟩ := discard_cons (h := h) s r n run runs
    rw [hcons]
    refine moves_ite (fun hres => ?_) fun hres => ?_
    · have hspoil := Move.spoil s r 0 0 (discardRequest s.pageSize r n run) result hr ?_ hres
      · rw [invalidateFilePages_empty] at hspoil
        exact .single hspoil
      · refine ⟨⟨_, _, ?_, hspans.within⟩, .inl ho⟩
        unfold discardRequest
        split <;> rfl
    · rw [Decidable.not_not.1 hres]
      have hmove := Relation.ReflTransGen.single
        (Move.discard s r n run hr hspans ho hrun (he run List.mem_cons_self))
      exact hmove.trans (ih hr hw (by omega) hrest fun q hq => he q (List.mem_cons_of_mem run hq))

/-- The pages of a run are equal. -/
theorem eq_head_of_run {l run : List Page} (h : run ∈ l.splitBy (· == ·)) : ∀ p ∈ run, p = run.headD {} := by
  have hchain : run.IsChain (· = ·) := (List.isChain_of_mem_splitBy h).imp fun _ _ => eq_of_beq
  cases run with
  | nil => nofun
  | cons q run =>
    intro p hp
    rcases List.mem_cons.1 hp with rfl | hp
    · rfl
    · exact ((List.pairwise_cons.1 (List.isChain_iff_pairwise.1 hchain)).1 p hp).symm

/-- `artbox_vm_madvise` is a row of moves, run by run. -/
theorem turn_madvise (hs : s.Good) {address length : Nat} {advice : Int} :
    Turn s (s.madvise h address length advice).2 := by
  unfold Space.madvise
  refine Turn.check fun hpo => Turn.check fun _ => Turn.check fun hrange => Turn.check fun hlength => ?_
  rw [not_or] at hrange
  have hsize : s.rounded length ≠ 0 := fun h0 => hrange.2 ⟨h0, hlength⟩
  obtain ⟨hz, _⟩ := rounded_spec hs.page_pos hsize
  have haligned := (range_iff.1 (by simpa using hrange.1)).1
  cases hc : s.containing address (s.rounded length) with
  | none => exact .refl
  | some q =>
    obtain ⟨r, i⟩ := q
    obtain ⟨hi, hin⟩ := containing_some hc
    have hr := List.mem_of_getElem? hi
    refine Turn.check fun ho => Turn.check fun _ => moves_ite (fun _ => .refl) fun _ => ?_
    have ho : r.owned = true := by simpa using ho
    have hgood := hs.regions r hr
    have hspans := spans_of_contains hgood (hs.placed (by simpa using hpo) r hr) hs.page_pos
      (hgood.protectable ho) haligned hz hin
    exact turn_discard hr ho hspans.whole hspans.inside (List.flatten_splitBy _ _) fun run hrun => eq_head_of_run hrun

/-- One region of `artbox_vm_munmap`. -/
theorem turn_unmapRegion {address size : Nat} {done rest : List Region} (hs : s.Holds (done ++ r :: rest))
    (hpo : s.poisoned = false) (ha : address % s.pageSize = 0) (hz : size % s.pageSize = 0)
    (hend : address + size < word) (ho : overlaps address size r.base r.length = true) (hown : r.owned = true) :
    Turn (s.put (done ++ r :: rest))
      ((s.unmapRegion h address size r).2.1.put (done ++ (s.unmapRegion h address size r).2.2.toList ++ rest)) := by
  have hr : r ∈ done ++ r :: rest := List.mem_append_right _ List.mem_cons_self
  have hgood := hs.regions r hr
  have hplaced := hs.placed hpo r hr
  have hpr := hgood.protectable hown
  obtain ⟨hstart, hsize, hin⟩ := overlap_spec hgood hplaced hpr ha hz hend ho
  have hspans := spans_of_contains hgood hplaced hs.page_pos hpr hstart hsize hin
  have hstay : done ++ (some r).toList ++ rest = done ++ r :: rest := by simp
  unfold Space.unmapRegion
  extract_lets start stop first count removed s₁ result₁ s₂ dropped result₂ s₃ edited r'
  by_cases hwhole : removed = r.live ∧ r.guardBytes = 0
  · rw [if_pos hwhole]
    by_cases hres : result₁ = 0
    · have herase := Move.erase (s.put (done ++ r :: rest)) done rest r first count rfl hs.apart hown
      simp only [invalidateFilePages_put, mutation_put, drop_put, put_put] at herase
      have hs₂ : s₂ = s₁.mutation (.release r.base r.length) 0 := by rw [← hres]
      have hreserved : s₂.reserved = s.reserved := s.invalidateFilePages_reserved r first count
      rw [if_neg (not_not_intro hres), hreserved, show dropped = s₂.drop r.file from rfl, hs₂, Option.toList_none,
        List.append_nil]
      exact .single herase
    · have hspoil := Move.spoil (s.put (done ++ r :: rest)) r first count (.release r.base r.length) result₁ hr
        ⟨⟨_, _, rfl, Nat.le_refl _, Nat.le_refl _⟩, .inl hown⟩ hres
      rw [invalidateFilePages_put, mutation_put] at hspoil
      rw [if_pos hres, hstay]
      exact .single hspoil
  rw [if_neg hwhole]
  by_cases hrem : removed = 0
  · have hskip := Move.skip (s.put (done ++ r :: rest)) r first count hr hrem
    rw [invalidateFilePages_put] at hskip
    rw [if_neg (not_not_intro hrem), hstay]
    exact .single hskip
  rw [if_pos hrem]
  by_cases hres : result₂ = 0
  · have hreset := Move.reset (s.put (done ++ r :: rest)) done rest r start (stop - start) first count
      (r.live - removed) {} rfl hs.apart hspans hown rfl
    simp only [invalidateFilePages_put, mutation_put, releaseUnusedFile_put, put_put] at hreset
    have hs₃ : s₃ = s₁.mutation (.reset start (stop - start) 0) 0 := by rw [← hres]
    rw [if_neg (not_not_intro hres)]
    show Turn _ ((s₃.releaseUnusedFile r').1.put (done ++ [{ r' with file := (s₃.releaseUnusedFile r').2 }] ++ rest))
    rw [List.append_assoc, List.singleton_append, hs₃]
    exact .single hreset
  · have hspoil := Move.spoil (s.put (done ++ r :: rest)) r first count (.reset start (stop - start) 0) result₂ hr
      ⟨⟨_, _, rfl, hspans.within⟩, .inl hown⟩ hres
    rw [invalidateFilePages_put, mutation_put] at hspoil
    rw [if_pos hres, hstay]
    exact .single hspoil

/-- The loop of `artbox_vm_munmap`. -/
theorem turn_munmapRegions {address size : Nat} {done rest : List Region} (hs : s.Holds (done ++ rest))
    (hpo : s.poisoned = false) (ha : address % s.pageSize = 0) (hz : size % s.pageSize = 0)
    (hend : address + size < word)
    (howned : ∀ r ∈ rest, overlaps address size r.base r.length = true → r.owned = true) :
    Turn (s.put (done ++ rest)) (munmapRegions h address size done rest s).2 := by
  induction rest generalizing done s with
  | nil =>
    rw [List.append_nil]
    exact .refl
  | cons r rest ih =>
    have hrest : ∀ q ∈ rest, overlaps address size q.base q.length = true → q.owned = true :=
      fun q hq => howned q (List.mem_cons_of_mem r hq)
    unfold munmapRegions
    refine moves_ite (fun ho => ?_) fun _ => ?_
    · have hown := howned r List.mem_cons_self ho
      obtain ⟨hs', hpage, hok⟩ := hs.unmapRegion (h := h) hpo ha hz hend ho hown
      have hturn := turn_unmapRegion (h := h) hs hpo ha hz hend ho hown
      refine moves_ite (fun _ => hturn) fun hres => hturn.trans ?_
      rw [← hpage] at ha hz
      exact ih hs' (hok (Decidable.not_not.1 hres)) ha hz hrest
    · rw [← List.singleton_append, ← List.append_assoc] at hs ⊢
      exact ih hs hpo ha hz hrest

/-- `artbox_vm_munmap` is a row of moves. -/
theorem turn_munmap (hs : s.Good) {address length : Nat} : Turn s (s.munmap h address length).2 := by
  unfold Space.munmap
  refine Turn.check fun hpo => Turn.check fun hrange => Turn.check fun howned => ?_
  rw [not_or] at hrange
  have hr := range_iff.1 (by simpa using hrange.2)
  obtain ⟨hz, _⟩ := rounded_spec hs.page_pos hrange.1
  have hall : s.Holds ([] ++ s.regions) := hs
  refine turn_munmapRegions hall (by simpa using hpo) hr.1 hz hr.2 fun r hr ho => ?_
  by_contra hown
  refine howned (List.any_eq_true.2 ⟨r, hr, ?_⟩)
  rw [Bool.eq_false_iff.2 hown, ho]
  rfl

/-- A range of the host is apart from the regions. -/
theorem Good.apart_of_overlaps (hs : s.Good) (hpo : s.poisoned = false) {address length : Nat}
    (hend : address + length < word)
    (hover : ¬ s.regions.any (fun r => overlaps address length r.base r.length) = true) :
    ∀ q ∈ s.regions, q.base + q.length ≤ address ∨ address + length ≤ q.base := by
  intro q hq
  have hno : overlaps address length q.base q.length = false := by
    rw [Bool.eq_false_iff]
    exact fun hov => hover (List.any_eq_true.2 ⟨q, hq, hov⟩)
  unfold overlaps at hno
  rw [add64_eq hend, add64_eq (hs.placed hpo q hq).lt_word, Bool.and_eq_false_iff] at hno
  simp only [decide_eq_false_iff_not, Nat.not_lt] at hno
  exact hno

/-- The registration of data is a row of moves. -/
theorem turn_registerData (hs : s.Good) {address length : Nat} {prot : BitVec 64} :
    Turn s (s.registerData h address length prot).2 := by
  unfold Space.registerData
  refine Turn.check fun _ => Turn.check fun hpo => Turn.check fun _ => ?_
  cases protection prot with
  | error e => exact .refl
  | ok permissions =>
    refine Turn.check fun hrange => Turn.check fun hover => Turn.check fun _ => Turn.check fun _ => ?_
    simp only [not_or, Decidable.not_not] at hrange
    obtain ⟨_, hend⟩ := range_iff.1 (by simpa using hrange.2.2)
    refine .single (Move.register s _ rfl rfl (fun p hp => ?_) (hs.apart_of_overlaps (by simpa using hpo) hend hover))
    rw [List.eq_of_mem_replicate hp]

/-- The registration of an image is a row of moves. -/
theorem turn_registerReadonly (hs : s.Good) {address length : Nat} :
    Turn s (s.registerReadonly h address length).2 := by
  unfold Space.registerReadonly
  refine Turn.check fun hrange => Turn.check fun hpo => Turn.check fun _ => Turn.check fun hover =>
    Turn.check fun _ => Turn.check fun _ => ?_
  simp only [not_or] at hrange
  have hend : address + length < word := by
    have : 0 < word := by decide
    omega
  refine .single (Move.register s _ rfl rfl (fun p hp => ?_) (hs.apart_of_overlaps (by simpa using hpo) hend hover))
  rw [List.eq_of_mem_replicate hp]

/-- Every operation is a row of moves. -/
theorem perform_moves (hs : s.Good) (hf : h.Fresh s.regions) (op : Op) : Turn s (s.perform h op).2 := by
  cases op with
  | reserveWindow length guardBytes => exact turn_reserveWindow hf _ _
  | mmap address length prot flags offset => exact turn_mmapLocked hs hf
  | mmapWindow base address length prot flags offset => exact turn_mmapWindow hs hf
  | mapFile length prot flags offset file maximum watched => exact turn_mapFile hs hf
  | mprotect address length prot => exact turn_mprotect hs
  | munmap address length => exact turn_munmap hs
  | madvise address length advice => exact turn_madvise hs
  | registerData address length prot => exact turn_registerData hs
  | registerReadonly address length => exact turn_registerReadonly hs

/-! ## Runs -/

/-- A part of a run is a row of moves. -/
theorem steps_moves {s' : Space} (hr : machine.Reachable s) (hs : machine.Steps s s') : Turn s s' := by
  induction hs with
  | refl => exact .refl
  | tail hs hstep ih =>
    obtain ⟨h, op, hf, rfl⟩ := hstep
    exact ih.trans (perform_moves (reachable_good (hr.steps hs)) hf op)

/-- What every move keeps holds of every state of a run, if it holds of a space without regions and does not
look at the window. -/
theorem reachable_of_moves {I : Space × Hand → Prop} (hr : machine.Reachable s)
    (hmove : ∀ a b, Move a b → I a → I b)
    (hinit : ∀ s : Space, s.regions = [] → s.log = [] → s.watches = [] → s.poisoned = false → I (s, {}))
    (hwindow : ∀ (s : Space) (window : Nat), I (s, {}) → I ({ s with window }, {})) : I (s, {}) := by
  have hmoves : ∀ {a b}, Moves a b → I a → I b := by
    intro a b hab ha
    induction hab with
    | refl => exact ha
    | tail _ hm ih => exact hmove _ _ hm ih
  have hcreate : ∀ {h pageSize limit regionLimit s}, create h pageSize limit regionLimit = some s → I (s, {}) := by
    intro h pageSize limit regionLimit s hc
    unfold create at hc
    split at hc
    · cases hc
    split at hc
    · cases hc
    · obtain rfl := Option.some.inj hc
      exact hinit _ rfl rfl rfl rfl
  refine hr.inv_of (I := fun s => I (s, {})) (J := Good) (fun _ => reachable_good) ?_ ?_
  · rintro s ⟨h, hf, ⟨_, _, _, hc⟩ | ⟨pageSize, length, guardBytes, hc⟩⟩
    · exact hcreate hc
    · unfold createWindow at hc
      cases h₀ : create h pageSize length 1 with
      | none =>
        rw [h₀] at hc
        cases hc
      | some s₀ =>
        rw [h₀] at hc
        dsimp only at hc
        split at hc
        · cases hc
        · obtain rfl := Option.some.inj hc
          have hf₀ : h.Fresh s₀.regions := by
            rw [create_regions h₀]
            exact hf
          exact hwindow _ _ (hmoves (turn_reserveWindow hf₀ _ _) (hcreate h₀))
  · rintro s s' hs hI ⟨h, op, hf, rfl⟩
    exact hmoves (perform_moves hs hf op) hI

end Space

end Artbox.Vm
