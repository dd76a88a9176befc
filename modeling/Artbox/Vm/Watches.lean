import Artbox.Vm.Accounts
import Mathlib.Data.List.Nodup

/-!
# Files and their watches

A region holds its file exactly as long as one of its pages is a file page (`Filed`). A watch is live as
long as there is such a region, and intact as long as all its pages are file pages (`Tracked`), unless a
callback failed. Both flags are only ever cleared, and a page that is no file page never becomes one
(`Wanes`).
-/

namespace Artbox.Vm

/-- The watch of a region. -/
def Region.tracking (r : Region) : Option Nat := r.file.bind (·.tracking)

/-- The watches of the regions. -/
def trackings (l : List Region) : List Nat := l.filterMap Region.tracking

/-- Change the state of a watch. -/
def retrack (tracking : Option Nat) (f : MappingState → MappingState) (watches : List MappingState) :
    List MappingState :=
  tracking.elim watches fun i => watches.modify i f

/-- All the pages of the region are file pages. -/
def Region.Unbroken (r : Region) : Prop := ∀ p ∈ r.pages, p.filePage = true

/-- The state of the watch of a region. -/
structure Watched (poisoned : Bool) (r : Region) (w : MappingState) : Prop where
  live : w.live = true
  unbroken : w.intact = true → r.Unbroken
  intact : poisoned = false → r.Unbroken → w.intact = true

/-- The watches of a space with the regions `l`. -/
structure Tracked (watches : List MappingState) (poisoned : Bool) (l : List Region) : Prop where
  nodup : (trackings l).Nodup
  bound : ∀ i ∈ trackings l, i < watches.length
  dead : ∀ i w, watches[i]? = some w → i ∉ trackings l → w = ⟨false, false⟩
  watched : ∀ r ∈ l, ∀ i w, r.tracking = some i → watches[i]? = some w → Watched poisoned r w

/-- What holds of the file of a region. -/
structure Region.Filed (r : Region) : Prop where
  mapped : ∀ p ∈ r.pages, p.filePage = true → p.mapped = true
  held : r.file.isSome = r.pages.any (·.filePage)

variable {s : Space} {a b : Space × Hand} {r r' : Region} {done rest l : List Region} {watches : List MappingState}
  {poisoned : Bool} {f : MappingState → MappingState} {i : Nat}

/-! ## The states of the watches -/

/-- The trackings of two lists are those of the first and then those of the second. -/
@[simp] theorem trackings_append (l m : List Region) : trackings (l ++ m) = trackings l ++ trackings m :=
  List.filterMap_append

/-- The trackings of a list start with that of its first region. -/
theorem trackings_cons (r : Region) (l : List Region) : trackings (r :: l) = r.tracking.toList ++ trackings l := by
  unfold trackings
  cases h : r.tracking with
  | none => rw [List.filterMap_cons_none h]; rfl
  | some i => rw [List.filterMap_cons_some h]; rfl

/-- An update of a watch leaves the number of watches. -/
@[simp] theorem length_retrack (tracking : Option Nat) : (retrack tracking f watches).length = watches.length := by
  cases tracking with
  | none => rfl
  | some i => exact List.length_modify _ _ _

/-- An update of a watch is seen at its index alone. -/
theorem getElem?_retrack {tracking : Option Nat} :
    (retrack tracking f watches)[i]? = if tracking = some i then (watches[i]?).map f else watches[i]? := by
  cases tracking with
  | none => rfl
  | some j =>
    show (watches.modify j f)[i]? = _
    rw [List.getElem?_modify]
    by_cases h : j = i
    · simp only [if_pos h, if_pos (congrArg some h)]
      rfl
    · simp only [if_neg h, if_neg fun h' => h (Option.some.inj h')]
      exact Option.map_id'

/-- An update that changes nothing leaves the watches. -/
theorem retrack_id (tracking : Option Nat) (watches : List MappingState) :
    retrack tracking (fun m => m) watches = watches := by
  cases tracking with
  | none => rfl
  | some i => exact List.modify_id i watches

/-- Two updates of one watch are one update. -/
theorem retrack_retrack {tracking : Option Nat} {g : MappingState → MappingState} :
    retrack tracking g (retrack tracking f watches) = retrack tracking (fun m => g (f m)) watches := by
  refine List.ext_getElem? fun i => ?_
  rw [getElem?_retrack, getElem?_retrack, getElem?_retrack]
  split
  · exact Option.map_map g f _
  · rfl

/-! ## One region changes -/

/-- Without one region the others track each watch once, and not the one it tracks. -/
theorem Tracked.nodup_middle (h : Tracked watches poisoned (done ++ r :: rest)) :
    (trackings (done ++ rest)).Nodup ∧ ∀ i, r.tracking = some i → i ∉ trackings (done ++ rest) := by
  have hn := h.nodup
  rw [trackings_append, trackings_cons] at hn
  rw [trackings_append]
  cases hr : r.tracking with
  | none =>
    rw [hr] at hn
    exact ⟨hn, nofun⟩
  | some i =>
    rw [hr] at hn
    have hn := List.nodup_middle.1 hn
    refine ⟨(List.nodup_cons.1 hn).2, fun j hj => ?_⟩
    obtain rfl := Option.some.inj hj
    exact (List.nodup_cons.1 hn).1

/-- A watch is tracked if one of the regions tracks it. -/
theorem mem_trackings {i : Nat} : i ∈ trackings l ↔ ∃ r ∈ l, r.tracking = some i := List.mem_filterMap

/-- A watch is tracked by the region in the middle or by one of the others. -/
theorem mem_trackings_middle {i : Nat} :
    i ∈ trackings (done ++ r :: rest) ↔ r.tracking = some i ∨ i ∈ trackings (done ++ rest) := by
  rw [trackings_append, trackings_cons, trackings_append, List.mem_append, List.mem_append, List.mem_append]
  have hr : i ∈ r.tracking.toList ↔ r.tracking = some i := Option.mem_toList
  rw [hr]
  exact or_left_comm

/-- The region keeps its watch, whose state changes. -/
theorem Tracked.edit {poisoned' : Bool} (h : Tracked watches poisoned (done ++ r :: rest))
    (ht : r'.tracking = r.tracking) (hpo : poisoned' = false → poisoned = false)
    (hw : ∀ i w, r.tracking = some i → watches[i]? = some w → Watched poisoned r w → Watched poisoned' r' (f w)) :
    Tracked (retrack r.tracking f watches) poisoned' (done ++ r' :: rest) := by
  have htrackings : trackings (done ++ r' :: rest) = trackings (done ++ r :: rest) := by
    rw [trackings_append, trackings_append, trackings_cons, trackings_cons, ht]
  obtain ⟨_, hfresh⟩ := h.nodup_middle
  refine ⟨htrackings ▸ h.nodup, ?_, fun i w hi hno => ?_, fun q hq i w hqi hi => ?_⟩
  · rw [htrackings, length_retrack]
    exact h.bound
  · rw [htrackings] at hno
    rw [getElem?_retrack, if_neg fun hr => hno (mem_trackings_middle.2 (.inl hr))] at hi
    exact h.dead i w hi hno
  · rw [getElem?_retrack] at hi
    rcases List.mem_append.1 hq with hq | hq
    · have hother : i ∈ trackings (done ++ rest) := mem_trackings.2 ⟨q, List.mem_append_left _ hq, hqi⟩
      rw [if_neg fun hr => hfresh i hr hother] at hi
      obtain ⟨h1, h2, h3⟩ := h.watched q (List.mem_append_left _ hq) i w hqi hi
      exact ⟨h1, h2, fun hp => h3 (hpo hp)⟩
    rcases List.mem_cons.1 hq with rfl | hq
    · rw [ht] at hqi
      rw [if_pos hqi] at hi
      obtain ⟨w₀, hw₀, rfl⟩ := Option.map_eq_some_iff.1 hi
      exact hw i w₀ hqi hw₀ (h.watched r (List.mem_append_right _ List.mem_cons_self) i w₀ hqi hw₀)
    · have hother : i ∈ trackings (done ++ rest) := mem_trackings.2 ⟨q, List.mem_append_right _ hq, hqi⟩
      rw [if_neg fun hr => hfresh i hr hother] at hi
      obtain ⟨h1, h2, h3⟩ := h.watched q (List.mem_append_right _ (List.mem_cons_of_mem _ hq)) i w hqi hi
      exact ⟨h1, h2, fun hp => h3 (hpo hp)⟩

/-- The region is taken away, and its watch is over. -/
theorem Tracked.erase (h : Tracked watches poisoned (done ++ r :: rest)) :
    Tracked (retrack r.tracking (fun _ => ⟨false, false⟩) watches) poisoned (done ++ rest) := by
  obtain ⟨hnodup, hfresh⟩ := h.nodup_middle
  refine ⟨hnodup, fun i hi => ?_, fun i w hi hno => ?_, fun q hq i w hqi hi => ?_⟩
  · rw [length_retrack]
    exact h.bound i (mem_trackings_middle.2 (.inr hi))
  · rw [getElem?_retrack] at hi
    by_cases hr : r.tracking = some i
    · rw [if_pos hr] at hi
      obtain ⟨_, _, rfl⟩ := Option.map_eq_some_iff.1 hi
      rfl
    · rw [if_neg hr] at hi
      exact h.dead i w hi fun hmem => (mem_trackings_middle.1 hmem).elim hr hno
  · have hother : i ∈ trackings (done ++ rest) := mem_trackings.2 ⟨q, hq, hqi⟩
    rw [getElem?_retrack, if_neg fun hr => hfresh i hr hother] at hi
    refine h.watched q ?_ i w hqi hi
    rcases List.mem_append.1 hq with hq | hq
    · exact List.mem_append_left _ hq
    · exact List.mem_append_right _ (List.mem_cons_of_mem _ hq)

/-- A region without a watch. -/
theorem Tracked.insert (h : Tracked watches poisoned (done ++ rest)) (hr : r.tracking = none) :
    Tracked watches poisoned (done ++ r :: rest) := by
  have htrackings : trackings (done ++ r :: rest) = trackings (done ++ rest) := by
    rw [trackings_append, trackings_cons, hr, trackings_append]
    rfl
  refine ⟨htrackings ▸ h.nodup, htrackings ▸ h.bound, htrackings ▸ h.dead, fun q hq i w hqi hi => ?_⟩
  rcases List.mem_append.1 hq with hq | hq
  · exact h.watched q (List.mem_append_left _ hq) i w hqi hi
  rcases List.mem_cons.1 hq with rfl | hq
  · rw [hr] at hqi
    cases hqi
  · exact h.watched q (List.mem_append_right _ hq) i w hqi hi

/-- A region with a new watch. -/
theorem Tracked.push (h : Tracked watches poisoned l) (hr : r.tracking = some watches.length) (hu : r.Unbroken) :
    Tracked (watches ++ [⟨true, true⟩]) poisoned (l ++ [r]) := by
  have htrackings : trackings (l ++ [r]) = trackings l ++ [watches.length] := by
    rw [trackings_append, trackings_cons, hr]
    rfl
  refine ⟨?_, fun i hi => ?_, fun i w hi hno => ?_, fun q hq i w hqi hi => ?_⟩
  · rw [htrackings, List.nodup_append]
    refine ⟨h.nodup, List.nodup_singleton _, fun i hi j hj => ?_⟩
    rw [List.mem_singleton.1 hj]
    exact Nat.ne_of_lt (h.bound i hi)
  · rw [htrackings] at hi
    rw [List.length_append, List.length_singleton]
    rcases List.mem_append.1 hi with hi | hi
    · exact Nat.lt_succ_of_lt (h.bound i hi)
    · rw [List.mem_singleton.1 hi]
      exact Nat.lt_succ_self _
  · rw [htrackings, List.mem_append, List.mem_singleton, not_or] at hno
    have hlt : i < watches.length := by
      have := (List.getElem?_eq_some_iff.1 hi).1
      rw [List.length_append, List.length_singleton] at this
      omega
    rw [List.getElem?_append_left hlt] at hi
    exact h.dead i w hi hno.1
  · rcases List.mem_append.1 hq with hq | hq
    · rw [List.getElem?_append_left (h.bound i (mem_trackings.2 ⟨q, hq, hqi⟩))] at hi
      exact h.watched q hq i w hqi hi
    · obtain rfl := List.mem_singleton.1 hq
      rw [hr] at hqi
      obtain rfl := Option.some.inj hqi
      rw [List.getElem?_append_right (Nat.le_refl _), Nat.sub_self] at hi
      obtain rfl := Option.some.inj hi
      exact ⟨rfl, fun _ => hu, fun _ _ => rfl⟩

/-- A poisoned space tracks its watches. -/
theorem Tracked.poison (h : Tracked watches poisoned l) : Tracked watches true l :=
  ⟨h.nodup, h.bound, h.dead, fun r hr i w hi hw => ⟨(h.watched r hr i w hi hw).1, (h.watched r hr i w hi hw).2, nofun⟩⟩

/-! ## The pages of a region -/

/-- A page after an edit is an old one or an edited one of the slice. -/
theorem mem_edit_slice {first count : Nat} {g : Page → Page} {p : Page} (h : p ∈ (r.edit first count g).pages) :
    p ∈ r.pages ∨ ∃ q ∈ r.slice first count, p = g q := by
  unfold Region.edit at h
  rw [List.mem_append, List.mem_append] at h
  rcases h with (h | h) | h
  · exact .inl (List.mem_of_mem_take h)
  · obtain ⟨q, hq, rfl⟩ := List.mem_map.1 h
    exact .inr ⟨q, hq, rfl⟩
  · exact .inl (List.mem_of_mem_drop h)

/-- A page of the slice is edited. -/
theorem map_mem_edit {first count : Nat} {g : Page → Page} {q : Page} (h : q ∈ r.slice first count) :
    g q ∈ (r.edit first count g).pages := by
  unfold Region.edit
  exact List.mem_append_left _ (List.mem_append_right _ (List.mem_map_of_mem h))

/-- A page of a slice is a page of the region. -/
theorem mem_of_slice {first count : Nat} {q : Page} (h : q ∈ r.slice first count) : q ∈ r.pages :=
  List.mem_of_mem_drop (List.mem_of_mem_take h)

/-- An edit of no page leaves the pages. -/
theorem edit_of_slice_nil {first count : Nat} {g : Page → Page} (h : r.slice first count = []) :
    (r.edit first count g).pages = r.pages := by
  rw [r.pages_split first count, h]
  unfold Region.edit
  rw [h]
  rfl

/-- Pages that stay file pages, if they were. -/
theorem filePages_edit (r : Region) (first count : Nat) {g : Page → Page} (hg : ∀ q, (g q).filePage = q.filePage) :
    (r.edit first count g).pages.map (·.filePage) = r.pages.map (·.filePage) := by
  rw [r.pages_split first count]
  unfold Region.edit
  simp only [List.map_append, List.map_map, Function.comp_def, hg]

/-- A region is unbroken if all its pages are file pages. -/
theorem unbroken_iff : r.Unbroken ↔ ∀ c ∈ r.pages.map (·.filePage), c = true := by
  unfold Region.Unbroken
  rw [List.forall_mem_map]

/-- A region without a file and without file pages is in order. -/
theorem filed_of_none (hf : r.file = none) (hp : ∀ p ∈ r.pages, p.filePage = false) : r.Filed := by
  refine ⟨fun p hmem h => ?_, ?_⟩
  · rw [hp p hmem] at h
    cases h
  · rw [hf, Option.isSome_none, eq_comm, List.any_eq_false]
    intro p hmem
    rw [hp p hmem]
    exact Bool.false_ne_true

/-- All pages of a new region are alike. -/
theorem Space.Made.mem {k : Hand} {page : Nat} {p q : Page} (hr : Space.Made k page r p) (hq : q ∈ r.pages) :
    q = p := by
  rw [hr.pages] at hq
  exact List.eq_of_mem_replicate hq

/-- A new region has file pages only with a file. -/
theorem Space.Made.filed {k : Hand} {page : Nat} {p : Page} (hr : Space.Made k page r p) : r.Filed := by
  refine ⟨fun q hq h => ?_, ?_⟩
  · rw [hr.mem hq] at h ⊢
    exact hr.mapped h
  · rw [← hr.file, hr.pages]
    have hpos : r.length / page ≠ 0 := by
      intro h0
      have hwhole := hr.whole
      rw [h0, Nat.zero_mul] at hwhole
      exact absurd hwhole.symm (Nat.ne_of_gt hr.pos)
    obtain ⟨n, hn⟩ := Nat.exists_eq_succ_of_ne_zero hpos
    rw [hn, List.replicate_succ, List.any_cons]
    cases h : p.filePage with
    | true => rfl
    | false =>
      rw [Bool.false_or, eq_comm, List.any_eq_false]
      intro q hq
      rw [List.eq_of_mem_replicate hq, h]
      exact Bool.false_ne_true

/-- Pages of a region become pages without a file. -/
theorem filed_edit {first count live : Nat} {p : Page} (h : r.Filed) (hp : p.filePage = false)
    (hr' : { r.edit first count (fun _ => p) with live } = r') :
    ({ r' with file := if r'.pages.any (·.filePage) = true then r'.file else none } : Region).Filed := by
  have hpages : r'.pages = (r.edit first count fun _ => p).pages := by rw [← hr']
  have hfile : r'.file = r.file := by rw [← hr']; rfl
  refine ⟨fun q hq hq' => ?_, ?_⟩
  · rcases mem_edit_slice (hpages ▸ hq) with hq | ⟨_, _, rfl⟩
    · exact h.mapped q hq hq'
    · rw [hp] at hq'
      cases hq'
  · show Option.isSome (if _ then _ else _) = r'.pages.any (·.filePage)
    by_cases hany : r'.pages.any (·.filePage) = true
    · rw [if_pos hany, hany, hfile, h.held, List.any_eq_true]
      obtain ⟨q, hq, hq'⟩ := List.any_eq_true.1 hany
      rcases mem_edit_slice (hpages ▸ hq) with hq | ⟨_, _, rfl⟩
      · exact ⟨q, hq, hq'⟩
      · rw [hp] at hq'
        cases hq'
    · rw [if_neg hany, Bool.eq_false_iff.2 hany]
      rfl

/-- Another protection leaves the file pages. -/
theorem filed_reprotect {first count : Nat} {permissions : BitVec 2} (h : r.Filed) :
    (r.edit first count fun q => { q with protection := permissions }).Filed := by
  refine ⟨fun q hq hfile => ?_, ?_⟩
  · rcases mem_edit_slice hq with hq | ⟨q', hq', rfl⟩
    · exact h.mapped q hq hfile
    · exact h.mapped q' (mem_of_slice hq') hfile
  · have hmap := filePages_edit r first count
      (g := fun q => { q with protection := permissions }) fun _ => rfl
    have hany : ∀ l : List Page, l.any (·.filePage) = (l.map (·.filePage)).any id := by
      intro l
      rw [List.any_map]
      rfl
    show r.file.isSome = _
    rw [h.held, hany, hany, hmap]

/-- Another protection leaves an unbroken region unbroken. -/
theorem unbroken_reprotect (r : Region) (first count : Nat) (permissions : BitVec 2) :
    (r.edit first count fun q => { q with protection := permissions }).Unbroken ↔ r.Unbroken := by
  have hmap := filePages_edit r first count
    (g := fun q => { q with protection := permissions }) fun _ => rfl
  rw [unbroken_iff, unbroken_iff, hmap]

/-- The watch of a region some of whose pages become pages without a file. -/
theorem Watched.edit {first count live : Nat} {p : Page} {w : MappingState} (h : Watched poisoned r w)
    (hp : p.filePage = false) :
    Watched poisoned { r.edit first count (fun _ => p) with live }
      (if (r.slice first count).any (·.filePage) = true then { w with intact := false } else w) := by
  have hnil : ∀ q ∈ r.slice first count, p ∈ (r.edit first count fun _ => p).pages := fun q hq =>
    map_mem_edit (g := fun _ => p) hq
  by_cases hany : (r.slice first count).any (·.filePage) = true
  · rw [if_pos hany]
    obtain ⟨q, hq, _⟩ := List.any_eq_true.1 hany
    refine ⟨h.live, nofun, fun _ hu => ?_⟩
    have hfile := hu p (hnil q hq)
    rw [hp] at hfile
    cases hfile
  rw [if_neg hany]
  refine ⟨h.live, fun hi => ?_, fun hpo hu => h.intact hpo ?_⟩
  · have hempty : r.slice first count = [] := by
      refine List.eq_nil_iff_forall_not_mem.2 fun q hq => hany (List.any_eq_true.2 ⟨q, hq, ?_⟩)
      exact h.unbroken hi q (mem_of_slice hq)
    show ∀ q ∈ (r.edit first count fun _ => p).pages, _
    rw [edit_of_slice_nil hempty]
    exact h.unbroken hi
  · have hempty : r.slice first count = [] := by
      refine List.eq_nil_iff_forall_not_mem.2 fun q hq => ?_
      have hfile := hu p (hnil q hq)
      rw [hp] at hfile
      cases hfile
    have hu : ∀ q ∈ (r.edit first count fun _ => p).pages, q.filePage = true := hu
    rw [edit_of_slice_nil hempty] at hu
    exact hu

namespace Space

/-- A region that is watched updates the watch it tracks. -/
theorem watch_watches (s : Space) (tracking : Option Nat) :
    (s.watch tracking f).watches = retrack tracking f s.watches := by
  cases tracking <;> rfl

/-- The loss of file pages clears INTACT of the region's watch, and nothing if there were none. -/
theorem invalidateFilePages_watches (s : Space) (r : Region) (first count : Nat) :
    (s.invalidateFilePages r first count).watches =
      if (r.slice first count).any (·.filePage) = true then
        retrack r.tracking (fun m => { m with intact := false }) s.watches
      else s.watches := by
  unfold invalidateFilePages Region.tracking
  cases r.file with
  | none =>
    dsimp only
    split <;> rfl
  | some file =>
    dsimp only
    split
    · exact watch_watches s file.tracking
    · rfl

/-- A file that is dropped clears both flags of its watch. -/
theorem drop_watches (s : Space) (file : Option FileMapping) :
    (s.drop file).watches = retrack (file.bind (·.tracking)) (fun _ => ⟨false, false⟩) s.watches := by
  cases file with
  | none => rfl
  | some file =>
    unfold Space.drop
    dsimp only
    split <;> exact watch_watches s file.tracking

/-! ## Every move -/

/-- What holds of the region in the middle and of the others holds of all. -/
theorem forall_middle {P : Region → Prop} (hr : P r) (h : ∀ q ∈ done ++ rest, P q) : ∀ q ∈ done ++ r :: rest, P q := by
  intro q hq
  rcases List.mem_append.1 hq with hq | hq
  · exact h q (List.mem_append_left _ hq)
  rcases List.mem_cons.1 hq with rfl | hq
  · exact hr
  · exact h q (List.mem_append_right _ hq)

/-- What holds of all regions holds of those around one. -/
theorem forall_others {P : Region → Prop} (h : ∀ q ∈ done ++ r :: rest, P q) : ∀ q ∈ done ++ rest, P q := by
  intro q hq
  refine h q ?_
  rcases List.mem_append.1 hq with hq | hq
  · exact List.mem_append_left _ hq
  · exact List.mem_append_right _ (List.mem_cons_of_mem _ hq)

/-- The files and the watches of a space with a file in hand. -/
structure WatchesKept (a : Space × Hand) : Prop where
  idle : ∀ file, a.2.file = some file → file.tracking = none
  filed : ∀ r ∈ a.1.regions, r.Filed
  tracked : Tracked a.1.watches a.1.poisoned a.1.regions

/-- A new region with the file in hand keeps the watches in order. -/
theorem WatchesKept.push {k : Hand} {p : Page} (h : WatchesKept (s, k)) (hr : Made k s.pageSize r p)
    (hf : r.file = k.file) :
    (∀ q ∈ s.regions ++ [r], q.Filed) ∧ Tracked s.watches s.poisoned (s.regions ++ [r]) := by
  refine ⟨fun q hq => ?_, ?_⟩
  · rcases List.mem_append.1 hq with hq | hq
    · exact h.filed q hq
    · rw [List.mem_singleton.1 hq]
      exact hr.filed
  · have ht : r.tracking = none := by
      unfold Region.tracking
      rw [hf]
      cases hk : k.file with
      | none => rfl
      | some file => exact h.idle file hk
    have htracked : Tracked s.watches s.poisoned (s.regions ++ []) := (List.append_nil s.regions).symm ▸ h.tracked
    exact htracked.insert ht

/-- A native call that fails poisons the space, and the watch of the region loses INTACT at most. -/
theorem WatchesKept.spoil {first count : Nat} {request : Request} {error : Int} (h : WatchesKept (s, {}))
    (hr : r ∈ s.regions) (he : error ≠ 0) :
    WatchesKept ((s.invalidateFilePages r first count).mutation request error, {}) := by
  have hpo : (s.poisoned || error != 0) = true := by rw [bne_iff_ne.2 he, Bool.or_true]
  have hregions : ((s.invalidateFilePages r first count).mutation request error).regions = s.regions :=
    s.invalidateFilePages_regions r first count
  have hpoisoned : ((s.invalidateFilePages r first count).mutation request error).poisoned = true := by
    obtain ⟨watches, hw⟩ := s.invalidateFilePages_eq r first count
    rw [hw]
    exact hpo
  refine ⟨nofun, hregions ▸ h.filed, ?_⟩
  rw [hregions, hpoisoned]
  show Tracked (s.invalidateFilePages r first count).watches true s.regions
  rw [invalidateFilePages_watches]
  obtain ⟨done, rest, hs⟩ := List.append_of_mem hr
  have htracked : Tracked s.watches s.poisoned (done ++ r :: rest) := hs ▸ h.tracked
  rw [hs]
  split
  · exact htracked.edit rfl nofun fun i w _ _ hw => ⟨hw.live, nofun, nofun⟩
  · exact htracked.poison

/-- The pages of a range get new storage, and the watch of the region loses INTACT if a file page was there. -/
theorem WatchesKept.reset {address size first count live : Nat} {p : Page} (h : WatchesKept (s, {}))
    (hs : s.regions = done ++ r :: rest) (hp : p.filePage = false) :
    WatchesKept
      (let s' := (s.invalidateFilePages r first count).mutation (.reset address size p.protection) 0
       let r' := { r.edit first count (fun _ => p) with live }
       ((s'.releaseUnusedFile r').1.put (done ++ { r' with file := (s'.releaseUnusedFile r').2 } :: rest), {})) := by
  have hwatches := s.invalidateFilePages_watches r first count
  obtain ⟨watches, hw⟩ := s.invalidateFilePages_eq r first count
  rw [hw] at hwatches ⊢
  obtain rfl : watches = _ := hwatches
  show WatchesKept (Space.put _ _, {})
  generalize hs' : Space.mutation _ (.reset address size p.protection) 0 = s'
  generalize hr' : { r.edit first count (fun _ => p) with live } = r'
  have htracked : Tracked s.watches s.poisoned (done ++ r :: rest) := hs ▸ h.tracked
  have ht : r'.tracking = r.tracking := by rw [← hr']; rfl
  have hedited : Tracked s'.watches s'.poisoned (done ++ r' :: rest) := by
    have hpo : s'.poisoned = s.poisoned := by rw [← hs']; exact Bool.or_false _
    have hwatches : s'.watches = retrack r.tracking
        (fun m => if (r.slice first count).any (·.filePage) = true then { m with intact := false } else m)
        s.watches := by
      rw [← hs']
      show (if _ then _ else _) = _
      split
      · rfl
      · exact (retrack_id _ _).symm
    rw [hwatches, hpo]
    refine htracked.edit ht id fun i w _ _ hw => ?_
    rw [← hr']
    exact hw.edit hp
  have hfiled := filed_edit (h.filed r (hs ▸ List.mem_append_right _ List.mem_cons_self)) hp hr'
  have hothers : ∀ q ∈ done ++ rest, q.Filed := forall_others (hs ▸ h.filed)
  unfold releaseUnusedFile
  by_cases hany : r'.pages.any (·.filePage) = true
  · rw [if_pos hany] at hfiled ⊢
    exact ⟨nofun, forall_middle hfiled hothers, hedited⟩
  · rw [if_neg hany] at hfiled ⊢
    refine ⟨nofun, forall_middle hfiled hothers, ?_⟩
    show Tracked (s'.drop r'.file).watches (s'.drop r'.file).poisoned _
    rw [drop_watches, show (s'.drop r'.file).poisoned = s'.poisoned by obtain ⟨_, _, hd⟩ := s'.drop_eq r'.file; rw [hd]]
    exact hedited.erase.insert rfl

/-- A region that is released whole clears its watch. -/
theorem WatchesKept.erase {first count : Nat} (h : WatchesKept (s, {})) (hs : s.regions = done ++ r :: rest) :
    WatchesKept
      (let s' := (s.invalidateFilePages r first count).mutation (.release r.base r.length) 0
       ({ (s'.drop r.file).put (done ++ rest) with reserved := sub64 s.reserved r.length }, {})) := by
  have hwatches := s.invalidateFilePages_watches r first count
  obtain ⟨watches, hw⟩ := s.invalidateFilePages_eq r first count
  rw [hw] at hwatches ⊢
  obtain rfl : watches = _ := hwatches
  show WatchesKept ({ Space.put _ _ with reserved := _ }, {})
  generalize hs' : Space.mutation _ (.release r.base r.length) 0 = s'
  have htracked : Tracked s.watches s.poisoned (done ++ r :: rest) := hs ▸ h.tracked
  have hgone : Tracked (s'.drop r.file).watches (s'.drop r.file).poisoned (done ++ rest) := by
    rw [drop_watches, show (s'.drop r.file).poisoned = s.poisoned by
      obtain ⟨_, _, hd⟩ := s'.drop_eq r.file; rw [hd, ← hs']; exact Bool.or_false _]
    have hwatches : retrack r.tracking (fun _ => (⟨false, false⟩ : MappingState)) s'.watches =
        retrack r.tracking (fun _ => ⟨false, false⟩) s.watches := by
      rw [← hs']
      show retrack _ _ (if _ then _ else _) = _
      split
      · exact retrack_retrack
      · rfl
    exact hwatches ▸ htracked.erase
  exact ⟨nofun, forall_others (hs ▸ h.filed), hgone⟩

/-- Every move keeps the watches in order. -/
theorem watchesKept_move (hm : Move a b) (h : WatchesKept a) : WatchesKept b := by
  cases hm with
  | acquire s file f error ht => exact ⟨fun f' hf => Option.some.inj hf ▸ ht, h.filed, h.tracked⟩
  | drop s k hk =>
    have hw : (s.drop k.file).watches = s.watches := by
      rw [drop_watches]
      cases hf : k.file with
      | none => rfl
      | some file =>
        rw [Option.bind_some, h.idle file hf]
        rfl
    obtain ⟨watches, log, hd⟩ := s.drop_eq k.file
    rw [hd] at hw ⊢
    obtain rfl : watches = s.watches := hw
    exact ⟨nofun, h.filed, h.tracked⟩
  | refuse s k size storage error hk hr => exact ⟨h.idle, h.filed, h.tracked⟩
  | reserve s k size storage hk h0 hw hd => exact ⟨h.idle, h.filed, h.tracked⟩
  | protect s k b n p answer hk hm => exact ⟨h.idle, h.filed, h.tracked⟩
  | map s k b n p f answer hk hf => exact ⟨h.idle, h.filed, h.tracked⟩
  | release s k b n answer hk hu => exact ⟨h.idle, h.filed, h.tracked⟩
  | retain s k r p error hr hf he => exact ⟨nofun, (h.push hr hf).1, (h.push hr hf).2.poison⟩
  | keep s k r p hr hm hf => exact ⟨nofun, (h.push hr hf).1, (h.push hr hf).2⟩
  | watch s k r p f hr hm hf ht =>
    have hfile : p.filePage = true := by rw [hr.file, ht]; rfl
    refine ⟨nofun, fun q hq => ?_, h.tracked.push ?_ fun q hq => ?_⟩
    · rcases List.mem_append.1 hq with hq | hq
      · exact h.filed q hq
      · rw [List.mem_singleton.1 hq]
        exact hr.filed
    · unfold Region.tracking
      rw [ht]
      rfl
    · rw [hr.mem hq]
      exact hfile
  | register s r ho hf hp hd =>
    refine ⟨nofun, fun q hq => ?_, ?_⟩
    · rcases List.mem_append.1 hq with hq | hq
      · exact h.filed q hq
      · rw [List.mem_singleton.1 hq]
        exact filed_of_none hf hp
    · have htracked : Tracked s.watches s.poisoned (s.regions ++ []) := (List.append_nil s.regions).symm ▸ h.tracked
      refine htracked.insert ?_
      unfold Region.tracking
      rw [hf]
      rfl
  | spoil s r first count request error hr hq he => exact h.spoil hr he
  | skip s r first count hr hn =>
    -- no page of the range is a mapped file page
    have hnone : ¬ (r.slice first count).any (·.filePage) = true := by
      intro hany
      obtain ⟨p, hp, hfile⟩ := List.any_eq_true.1 hany
      exact List.countP_eq_zero.1 hn p hp ((h.filed r hr).mapped p (mem_of_slice hp) hfile)
    have hw := s.invalidateFilePages_watches r first count
    rw [if_neg hnone] at hw
    obtain ⟨watches, heq⟩ := s.invalidateFilePages_eq r first count
    rw [heq] at hw ⊢
    obtain rfl : watches = s.watches := hw
    exact h
  | reset s done rest r address size first count live p hs hd hr ho hp => exact h.reset hs hp
  | reprotect s done rest r address size first count p hs hd hr hm hw =>
    have htracked : Tracked s.watches s.poisoned (done ++ r :: rest) := hs ▸ h.tracked
    have hfiled := h.filed r (hs ▸ List.mem_append_right _ List.mem_cons_self)
    have hothers : ∀ q ∈ done ++ rest, q.Filed := forall_others (hs ▸ h.filed)
    refine ⟨nofun, forall_middle (filed_reprotect hfiled) hothers, ?_⟩
    have hpo : (s.poisoned || ((0 : Int) != 0)) = s.poisoned := Bool.or_false _
    show Tracked s.watches (s.poisoned || ((0 : Int) != 0)) _
    rw [hpo, ← retrack_id r.tracking s.watches]
    refine htracked.edit rfl id fun i w _ _ hw => ?_
    have hu := unbroken_reprotect r first count p
    exact ⟨hw.live, fun hi => hu.2 (hw.unbroken hi), fun hpo hb => hw.intact hpo (hu.1 hb)⟩
  | discard s r n run hr hs ho hn he =>
    refine ⟨nofun, h.filed, ?_⟩
    have hpo : (s.poisoned || ((0 : Int) != 0)) = s.poisoned := Bool.or_false _
    show Tracked s.watches (s.poisoned || ((0 : Int) != 0)) s.regions
    rw [hpo]
    exact h.tracked
  | erase s done rest r first count hs hd ho => exact h.erase hs

/-- The watches are in order in every reachable space. -/
theorem watchesKept_reachable (hr : machine.Reachable s) : WatchesKept (s, {}) := by
  refine reachable_of_moves hr (fun a b => watchesKept_move) (fun s h _ h' _ => ?_)
    fun s window h => ⟨h.idle, h.filed, h.tracked⟩
  refine ⟨nofun, ?_, ?_⟩
  · rw [h]
    exact nofun
  · rw [h, h']
    exact ⟨List.nodup_nil, nofun, nofun, nofun⟩

/-- A watch is live as long as its region has a file page, and intact as long as it has no other page, unless a
callback failed. -/
theorem watch_state (hr : machine.Reachable s) {w : MappingState} (hw : s.watches[i]? = some w) :
    (w.live = true ↔ ∃ r ∈ s.regions, r.tracking = some i ∧ ∃ p ∈ r.pages, p.filePage = true) ∧
    (w.intact = true → w.live = true ∧ ∃ r ∈ s.regions, r.tracking = some i ∧ r.Unbroken) ∧
    (s.poisoned = false → (∃ r ∈ s.regions, r.tracking = some i ∧ r.Unbroken) → w.intact = true) := by
  have h := watchesKept_reachable hr
  refine ⟨⟨fun hl => ?_, fun ⟨r, hmem, ht, _⟩ => (h.tracked.watched r hmem i w ht hw).live⟩, fun hi => ?_,
    fun hpo ⟨r, hmem, ht, hu⟩ => (h.tracked.watched r hmem i w ht hw).intact hpo hu⟩
  · by_contra hno
    have hdead := h.tracked.dead i w hw fun hmem => ?_
    · rw [hdead] at hl
      cases hl
    · obtain ⟨r, hr, ht⟩ := mem_trackings.1 hmem
      have hfile : r.file.isSome = true := by
        unfold Region.tracking at ht
        obtain ⟨file, hfile, _⟩ := Option.bind_eq_some_iff.1 ht
        rw [hfile]
        rfl
      rw [(h.filed r hr).held] at hfile
      obtain ⟨p, hp, hpage⟩ := List.any_eq_true.1 hfile
      exact hno ⟨r, hr, ht, p, hp, hpage⟩
  · by_cases hmem : i ∈ trackings s.regions
    · obtain ⟨r, hr, ht⟩ := mem_trackings.1 hmem
      have hwatched := h.tracked.watched r hr i w ht hw
      exact ⟨hwatched.live, r, hr, ht, hwatched.unbroken hi⟩
    · rw [h.tracked.dead i w hw hmem] at hi
      cases hi

/-- A host that has no room. -/
def sampleFull (released : Int) : Host := { sampleRoom 0 released with reserve := fun _ => (-12, 0) }

/-- The sample's host reserves fresh storage. -/
theorem sampleFull_fresh {released : Int} {l : List Region} : (sampleFull released).Fresh l :=
  fun _ hn => absurd (show (-12 : Int) = 0 from hn) (by decide)

/-- A file of three pages, mapped with a watch. -/
def sampleMapped : Space :=
  (sampleEmpty.perform (sampleRoom 0x10000 0) (.mapFile 0x3000 3 2 0x2000 7 3 true)).2

/-- The space without the first of the pages. -/
def sampleUnmapped : Space := (sampleMapped.perform (sampleFull 0) (.munmap 0x10000 0x1000)).2

theorem sampleMapped_reachable : machine.Reachable sampleMapped :=
  sampleEmpty_reachable.step ⟨_, _, sampleRoom_fresh (by decide), rfl⟩

theorem sampleUnmapped_steps : machine.Steps sampleMapped sampleUnmapped :=
  .single ⟨_, _, sampleFull_fresh, rfl⟩

theorem sampleUnmapped_reachable : machine.Reachable sampleUnmapped := sampleMapped_reachable.steps sampleUnmapped_steps

/-- The sample's region has lost one file page and keeps the other. -/
theorem watch_state_sample :
    ∃ r ∈ sampleUnmapped.regions, r.tracking = some 0 ∧ ∃ p ∈ r.pages, p.filePage = true :=
  (watch_state sampleUnmapped_reachable (show sampleUnmapped.watches[0]? = some ⟨true, false⟩ by decide)).1.1 rfl

/-! ## Flags and file pages only go -/

/-- Flags that are set later were set before. -/
def Fades (watches watches' : List MappingState) : Prop :=
  ∀ (i : Nat) (w : MappingState), watches[i]? = some w → ∃ w' : MappingState, watches'[i]? = some w' ∧
    (w'.live = true → w.live = true) ∧ (w'.intact = true → w.intact = true)

/-- File pages of a region that are there later were there before. -/
structure Thins (r r' : Region) : Prop where
  base : r'.base = r.base
  length : r'.length = r.length
  pages : ∀ (n : Nat) (p' : Page), r'.pages[n]? = some p' → p'.filePage = true →
    ∃ p : Page, r.pages[n]? = some p ∧ p.filePage = true

/-- Flags and file pages only go: what is left in `s'` of the watches of `s` and of their regions. -/
structure Wanes (s s' : Space) : Prop where
  flags : Fades s.watches s'.watches
  regions : ∀ r' ∈ s'.regions, ∀ i < s.watches.length, r'.tracking = some i →
    ∃ r ∈ s.regions, r.tracking = some i ∧ Thins r r'

/-- Flags that stay have not come back. -/
theorem Fades.refl (watches : List MappingState) : Fades watches watches := fun _ w h => ⟨w, h, id, id⟩

/-- Flags that do not come back in two runs do not in both. -/
theorem Fades.trans {watches' watches'' : List MappingState} (h : Fades watches watches')
    (h' : Fades watches' watches'') : Fades watches watches'' := by
  intro i w hw
  obtain ⟨w', hw', hl, hi⟩ := h i w hw
  obtain ⟨w'', hw'', hl', hi'⟩ := h' i w' hw'
  exact ⟨w'', hw'', fun h => hl (hl' h), fun h => hi (hi' h)⟩

/-- An update that sets no flag lets the flags fade. -/
theorem fades_retrack {tracking : Option Nat}
    (hf : ∀ m, ((f m).live = true → m.live = true) ∧ ((f m).intact = true → m.intact = true)) :
    Fades watches (retrack tracking f watches) := by
  intro i w hw
  rw [getElem?_retrack, hw]
  split
  · exact ⟨f w, rfl, hf w⟩
  · exact ⟨w, rfl, id, id⟩

/-- Watches are not taken away. -/
theorem Fades.length_le {watches' : List MappingState} (h : Fades watches watches') :
    watches.length ≤ watches'.length := by
  by_contra hlt
  obtain ⟨w', hw', _⟩ := h watches'.length _ (List.getElem?_eq_getElem (Nat.lt_of_not_le hlt))
  rw [List.getElem?_eq_none (Nat.le_refl _)] at hw'
  cases hw'

/-- Pages that stay have not become file pages. -/
theorem Thins.refl (r : Region) : Thins r r := ⟨rfl, rfl, fun _ p h hp => ⟨p, h, hp⟩⟩

/-- Pages that do not become file pages in two runs do not in both. -/
theorem Thins.trans {r'' : Region} (h : Thins r r') (h' : Thins r' r'') : Thins r r'' := by
  refine ⟨h'.base.trans h.base, h'.length.trans h.length, fun n p' hp' hfile => ?_⟩
  obtain ⟨p, hp, hfile⟩ := h'.pages n p' hp' hfile
  exact h.pages n p hp hfile

/-- A space that stays as it is wanes. -/
theorem Wanes.refl (s : Space) : Wanes s s := ⟨.refl _, fun r hr _ _ ht => ⟨r, hr, ht, .refl r⟩⟩

/-- Two runs that wane wane together. -/
theorem Wanes.trans {s' s'' : Space} (h : Wanes s s') (h' : Wanes s' s'') : Wanes s s'' := by
  refine ⟨h.flags.trans h'.flags, fun r'' hr'' i hi ht'' => ?_⟩
  obtain ⟨r', hr', ht', hthin'⟩ := h'.regions r'' hr'' i (Nat.lt_of_lt_of_le hi h.flags.length_le) ht''
  obtain ⟨r, hr, ht, hthin⟩ := h.regions r' hr' i hi ht'
  exact ⟨r, hr, ht, hthin.trans hthin'⟩

/-- Regions that were there before, and new ones with no watch or a new one. -/
theorem Wanes.of_regions {s' : Space} (hflags : Fades s.watches s'.watches)
    (h : ∀ r' ∈ s'.regions, r' ∈ s.regions ∨ ∀ i < s.watches.length, r'.tracking ≠ some i) : Wanes s s' := by
  refine ⟨hflags, fun r' hr' i hi ht => ?_⟩
  rcases h r' hr' with hr | hnew
  · exact ⟨r', hr, ht, .refl r'⟩
  · exact absurd ht (hnew i hi)

/-- One region changes. -/
theorem Wanes.of_edit {s' : Space} (hflags : Fades s.watches s'.watches) (hs : s.regions = done ++ r :: rest)
    (hs' : s'.regions = done ++ r' :: rest) (ht : ∀ i, r'.tracking = some i → r.tracking = some i)
    (hthin : Thins r r') : Wanes s s' := by
  refine ⟨hflags, ?_⟩
  rw [hs, hs']
  intro q hq i _ hqi
  rcases List.mem_append.1 hq with hq | hq
  · exact ⟨q, List.mem_append_left _ hq, hqi, .refl q⟩
  rcases List.mem_cons.1 hq with rfl | hq
  · exact ⟨r, List.mem_append_right _ List.mem_cons_self, ht i hqi, hthin⟩
  · exact ⟨q, List.mem_append_right _ (List.mem_cons_of_mem _ hq), hqi, .refl q⟩

/-- An edit that makes no file page thins the region. -/
theorem thins_edit {first count : Nat} {g : Page → Page} (hin : first + count ≤ r.pages.length)
    (hg : ∀ q, (g q).filePage = true → q.filePage = true) : Thins r (r.edit first count g) := by
  refine ⟨rfl, rfl, fun n p' hp' hfile => ?_⟩
  rw [Region.getElem?_edit hin] at hp'
  split at hp'
  · obtain ⟨p, hp, rfl⟩ := Option.map_eq_some_iff.1 hp'
    exact ⟨p, hp, hg p hfile⟩
  · exact ⟨p', hp', hfile⟩

/-- The loss of file pages lets the flags fade. -/
theorem fades_invalidate (s : Space) (r : Region) (first count : Nat) :
    Fades s.watches (s.invalidateFilePages r first count).watches := by
  rw [invalidateFilePages_watches]
  split
  · exact fades_retrack fun m => ⟨id, nofun⟩
  · exact .refl _

/-- A file that is dropped lets the flags fade. -/
theorem fades_drop (s : Space) (file : Option FileMapping) : Fades s.watches (s.drop file).watches := by
  rw [drop_watches]
  exact fades_retrack fun m => ⟨nofun, nofun⟩

/-- Every move lets the space wane. -/
theorem wanes_move (hm : Move a b) (h : WatchesKept a) : Wanes a.1 b.1 := by
  -- a new region tracks no watch yet
  have huntracked : ∀ {s : Space} {k : Hand} {r : Region}, WatchesKept (s, k) → r.file = k.file →
      ∀ r' ∈ s.regions ++ [r], r' ∈ s.regions ∨ ∀ i < s.watches.length, r'.tracking ≠ some i := by
    intro s k r h hf r' hr'
    rcases List.mem_append.1 hr' with hr' | hr'
    · exact .inl hr'
    · refine .inr fun i _ ht => ?_
      rw [List.mem_singleton.1 hr'] at ht
      obtain ⟨file, hfile, hi⟩ := Option.bind_eq_some_iff.1 ht
      rw [h.idle file (hf ▸ hfile)] at hi
      cases hi
  cases hm with
  | acquire s file f error ht => exact .of_regions (.refl _) fun r' hr' => .inl hr'
  | drop s k hk =>
    refine .of_regions (fades_drop s k.file) fun r' hr' => .inl ?_
    obtain ⟨_, _, hd⟩ := s.drop_eq k.file
    rw [hd] at hr'
    exact hr'
  | refuse s k size storage error hk hr => exact .of_regions (.refl _) fun r' hr' => .inl hr'
  | reserve s k size storage hk h0 hw hd => exact .of_regions (.refl _) fun r' hr' => .inl hr'
  | protect s k b n p answer hk hm => exact .of_regions (.refl _) fun r' hr' => .inl hr'
  | map s k b n p f answer hk hf => exact .of_regions (.refl _) fun r' hr' => .inl hr'
  | release s k b n answer hk hu => exact .of_regions (.refl _) fun r' hr' => .inl hr'
  | retain s k r p error hr hf he =>
    exact Wanes.of_regions (s := s) (.refl _) (huntracked (s := s) (k := k) (r := r) h hf)
  | keep s k r p hr hm hf => exact .of_regions (.refl _) (huntracked h hf)
  | watch s k r p f hr hm hf ht =>
    refine .of_regions (fun i w hw => ?_) fun r' hr' => ?_
    · refine ⟨w, ?_, id, id⟩
      show (s.watches ++ [_])[i]? = _
      rw [List.getElem?_append_left (List.getElem?_eq_some_iff.1 hw).1]
      exact hw
    · rcases List.mem_append.1 hr' with hr' | hr'
      · exact .inl hr'
      · -- its watch is the new one
        refine .inr fun i hi htracking => ?_
        rw [List.mem_singleton.1 hr', Region.tracking, ht] at htracking
        exact absurd (Option.some.inj htracking) (Nat.ne_of_gt hi)
  | register s r ho hf hp hd => exact .of_regions (.refl _) (huntracked h hf)
  | spoil s r first count request error hr hq he =>
    refine .of_regions (s.fades_invalidate r first count) fun r' hr' => .inl ?_
    rwa [mutation_regions, invalidateFilePages_regions] at hr'
  | skip s r first count hr hn =>
    refine .of_regions (s.fades_invalidate r first count) fun r' hr' => .inl ?_
    rwa [invalidateFilePages_regions] at hr'
  | reset s done rest r address size first count live p hs hd hr ho hp =>
    have hfades := s.fades_invalidate r first count
    show Wanes s (Space.put _ _)
    generalize hs' : (s.invalidateFilePages r first count).mutation (.reset address size p.protection) 0 = s'
    have hfades : Fades s.watches s'.watches := by
      rw [← hs']
      exact hfades
    have hthin := thins_edit (r := r) (g := fun _ => p) hr.inside fun q hq => by rw [hp] at hq; cases hq
    generalize hr' : { r.edit first count (fun _ => p) with live } = r'
    have ht : r'.tracking = r.tracking := by rw [← hr']; rfl
    have hthin : Thins r r' := by
      rw [← hr']
      exact ⟨rfl, rfl, hthin.pages⟩
    unfold releaseUnusedFile
    split
    · exact .of_edit hfades hs rfl (fun i hi => ht ▸ hi) ⟨hthin.base, hthin.length, hthin.pages⟩
    · exact .of_edit (hfades.trans (s'.fades_drop r'.file)) hs rfl nofun ⟨hthin.base, hthin.length, hthin.pages⟩
  | reprotect s done rest r address size first count p hs hd hr hm hw =>
    exact .of_edit (.refl _) hs rfl (fun _ hi => hi)
      (thins_edit (r := r) (g := fun q => { q with protection := p }) hr.inside fun q hq => hq)
  | discard s r n run hr hs ho hn he => exact .of_regions (.refl _) fun r' hr' => .inl hr'
  | erase s done rest r first count hs hd ho =>
    refine .of_regions ?_ fun r' hr' => .inl ?_
    · exact (s.fades_invalidate r first count).trans (fades_drop (Space.mutation _ _ _) r.file)
    · rw [hs]
      have hr' : r' ∈ done ++ rest := hr'
      rcases List.mem_append.1 hr' with hr' | hr'
      · exact List.mem_append_left _ hr'
      · exact List.mem_append_right _ (List.mem_cons_of_mem _ hr')

/-- In a run, the flags of a watch are only cleared, and its region stays where it is and gets no new file page. -/
theorem watch_wanes {s' : Space} (hr : machine.Reachable s) (hs : machine.Steps s s') : Wanes s s' := by
  have hmoves : ∀ {a b}, Moves a b → WatchesKept a → WatchesKept b ∧ Wanes a.1 b.1 := by
    intro a b hab h
    induction hab with
    | refl => exact ⟨h, .refl _⟩
    | tail _ hm ih => exact ⟨watchesKept_move hm ih.1, ih.2.trans (wanes_move hm ih.1)⟩
  exact (hmoves (steps_moves hr hs) (watchesKept_reachable hr)).2

/-- The unmapping of the sample's page lets its watch wane. -/
theorem watch_wanes_sample : Wanes sampleMapped sampleUnmapped :=
  watch_wanes sampleMapped_reachable sampleUnmapped_steps

/-! ## References and destruction -/

/-- The references to files are in the regions, and a region has a file exactly as long as it has a file page. -/
theorem files_accounted (hr : machine.Reachable s) :
    fileHoldings.Holds s.log (references s.regions) ∧
      ∀ r ∈ s.regions, r.file.isSome = true ↔ ∃ p ∈ r.pages, p.filePage = true := by
  have hfiles : fileHoldings.Holds s.log (references s.regions + 0) := filesKept_reachable hr
  rw [add_zero] at hfiles
  refine ⟨hfiles, fun r hmem => ?_⟩
  rw [((watchesKept_reachable hr).filed r hmem).held]
  exact List.any_eq_true

/-- The sample holds the reference of its one file. -/
theorem files_accounted_sample : fileHoldings.Holds sampleUnmapped.log (references sampleUnmapped.regions) :=
  (files_accounted sampleUnmapped_reachable).1

/-- The watches of other regions are over. -/
def Settles (watches : List MappingState) (l : List Region) : Prop :=
  ∀ (i : Nat) (w : MappingState), watches[i]? = some w → i ∉ trackings l → w = ⟨false, false⟩

/-- Watches that settle do so when a file mapping is invalidated. -/
theorem Settles.invalidate (h : Settles s.watches l) (file : Option FileMapping) :
    Settles (s.invalidate file).watches l := by
  cases file with
  | none => exact h
  | some file =>
    show Settles (s.watch file.tracking _).watches l
    rw [watch_watches]
    intro i w hw hno
    rw [getElem?_retrack] at hw
    split at hw
    · obtain ⟨w₀, hw₀, rfl⟩ := Option.map_eq_some_iff.1 hw
      rw [h i w₀ hw₀ hno]
    · exact h i w hw hno

/-- The drop of a region's file settles its watch. -/
theorem Settles.drop (h : Settles s.watches (r :: l)) : Settles (s.drop r.file).watches l := by
  rw [drop_watches]
  intro i w hw hno
  rw [getElem?_retrack] at hw
  by_cases ht : r.file.bind (·.tracking) = some i
  · rw [if_pos ht] at hw
    obtain ⟨_, _, rfl⟩ := Option.map_eq_some_iff.1 hw
    rfl
  · rw [if_neg ht] at hw
    refine h i w hw fun hmem => ?_
    rw [trackings_cons, List.mem_append] at hmem
    exact hmem.elim (fun hmem => ht (Option.mem_toList.1 hmem)) hno

/-- The release of storage leaves the watches as they settle. -/
theorem settles_releaseRegions {h : Host} {regions : List Region} {result : Int} (hs : Settles s.watches l) :
    Settles (releaseRegions h regions result s).2.watches l := by
  induction regions generalizing s result with
  | nil => exact hs
  | cons r regions ih =>
    unfold releaseRegions
    split
    · exact ih (hs.invalidate r.file)
    · exact ih (hs.invalidate r.file)

/-- When all files are dropped every watch has settled. -/
theorem settles_dropFiles (hs : Settles s.watches l) :
    Settles (l.foldl (fun s r => s.drop r.file) s).watches [] := by
  induction l generalizing s with
  | nil => exact hs
  | cons r l ih => exact ih hs.drop

/-- Behind the destruction of a space, every reference to a file was dropped as often as it was acquired, every watch
is over, and all storage was released but what was forgotten and what the host does not take back. The result says
whether there is such storage. -/
theorem destroy_settles (hr : machine.Reachable s) (h : Host) :
    fileHoldings.Holds (s.destroy h).2.log 0 ∧
    (∀ w ∈ (s.destroy h).2.watches, w = ⟨false, false⟩) ∧
    (∃ lost : Multiset (Nat × Nat), storageHoldings.Holds (s.destroy h).2.log (denied h s.regions + lost) ∧
      ∀ x ∈ lost, s.Forgotten x) ∧
    ((s.destroy h).1 = 0 ↔ denied h s.regions = 0) := by
  obtain ⟨hfiles, hstorage, hresult⟩ := destroy_accounted hr h
  refine ⟨hfiles, fun w hw => ?_, hstorage, hresult⟩
  obtain ⟨i, hi⟩ := List.mem_iff_getElem?.1 hw
  have hsettles : Settles (releaseRegions h s.regions 0 s).2.watches (releaseRegions h s.regions 0 s).2.regions := by
    rw [(releaseRegions_files _ _ _ (filesKept_reachable hr)).2]
    exact settles_releaseRegions (watchesKept_reachable hr).tracked.dead
  exact settles_dropFiles hsettles i w hi List.not_mem_nil

/-- The destruction of the sample gives its reference back. -/
theorem destroy_settles_sample : fileHoldings.Holds (sampleUnmapped.destroy (sampleFull (-1))).2.log 0 :=
  (destroy_settles sampleUnmapped_reachable (sampleFull (-1))).1

end Space

end Artbox.Vm
