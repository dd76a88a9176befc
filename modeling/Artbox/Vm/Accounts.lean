import Artbox.Lib.Holdings
import Artbox.Vm.Moves

/-!
# What a space owes its host

The storage a space reserved and the files it acquired are in its regions, or they were given back
(`storage_accounted`, `files_accounted`). Only storage with an unusable address, whose release fails
too, is forgotten: the code that reserves it has no region to keep it in.
-/

namespace Artbox.Vm

/-- The host's storage. -/
def storageHoldings : Holdings (Request × Int) (Nat × Nat) where
  takes
    | (.reserve length storage, answer) => if answer = 0 ∧ storage ≠ 0 then some (storage, length) else none
    | _ => none
  gives
    | (.release address length, answer) => if answer = 0 then some (address, length) else none
    | _ => none

/-- The references to files. A reference that a failed callback returned is a reference, too. -/
def fileHoldings : Holdings (Request × Int) Nat where
  takes
    | (.acquire _ reference, _) => if reference ≠ 0 then some reference else none
    | _ => none
  gives
    | (.drop reference, _) => some reference
    | _ => none

/-- The storage of the owned regions. -/
def ownedRanges (l : List Region) : Multiset (Nat × Nat) := ↑((l.filter (·.owned)).map fun r => (r.base, r.length))

/-- The storage in hand. -/
def Hand.ranges (k : Hand) : Multiset (Nat × Nat) := k.storage.elim 0 fun x => {x}

/-- The reference of a file. -/
def referenceOf : Option FileMapping → Multiset Nat
  | none => 0
  | some f => if f.reference = 0 then 0 else {f.reference}

/-- The references of the regions. -/
def references (l : List Region) : Multiset Nat := (l.map fun r => referenceOf r.file).sum

/-- What the destructor of a file asks. -/
def dropEvents : Option FileMapping → List (Request × Int)
  | none => []
  | some f => if f.reference = 0 then [] else [(.drop f.reference, 0)]

@[simp] theorem ownedRanges_nil : ownedRanges [] = 0 := rfl

/-- Two lists own what each of them owns. -/
@[simp] theorem ownedRanges_append (l m : List Region) : ownedRanges (l ++ m) = ownedRanges l + ownedRanges m := by
  unfold ownedRanges
  rw [List.filter_append, List.map_append, Multiset.coe_add]

/-- A list owns what its first region owns and what the others own. -/
theorem ownedRanges_cons (r : Region) (l : List Region) :
    ownedRanges (r :: l) = (if r.owned then {(r.base, r.length)} else 0) + ownedRanges l := by
  unfold ownedRanges
  rw [List.filter_cons]
  split
  · rw [List.map_cons, ← Multiset.cons_coe, Multiset.singleton_add]
  · rw [zero_add]

@[simp] theorem references_nil : references [] = 0 := rfl

/-- Two lists hold the references that each of them holds. -/
@[simp] theorem references_append (l m : List Region) : references (l ++ m) = references l + references m := by
  unfold references
  rw [List.map_append, List.sum_append]

/-- A list holds the reference of its first region and those of the others. -/
theorem references_cons (r : Region) (l : List Region) : references (r :: l) = referenceOf r.file + references l := rfl

namespace Space

variable {s : Space} {a b : Space × Hand}

/-! ## What the callbacks note -/

/-- The loss of file pages asks the host nothing. -/
theorem invalidateFilePages_log (s : Space) (r : Region) (first count : Nat) :
    (s.invalidateFilePages r first count).log = s.log := by
  obtain ⟨watches, hw⟩ := s.invalidateFilePages_eq r first count
  rw [hw]

/-- A file that is dropped is given back to the host. -/
theorem drop_log (s : Space) (file : Option FileMapping) : (s.drop file).log = dropEvents file ++ s.log := by
  cases file with
  | none => rfl
  | some f =>
    obtain ⟨reference, offset, sharing, tracking⟩ := f
    unfold Space.drop dropEvents
    dsimp only
    cases tracking <;> split <;> rfl

/-- A file is given back when the region has no file page left, and stays otherwise. -/
theorem releaseUnusedFile_log (s : Space) (r : Region) :
    (s.releaseUnusedFile r).1.log = s.log ∧ (s.releaseUnusedFile r).2 = r.file ∨
      (s.releaseUnusedFile r).1.log = dropEvents r.file ++ s.log ∧ (s.releaseUnusedFile r).2 = none := by
  unfold releaseUnusedFile
  split
  · exact .inl ⟨rfl, rfl⟩
  · exact .inr ⟨drop_log s r.file, rfl⟩

/-- A destructor touches no storage. -/
theorem dropEvents_quiet (file : Option FileMapping) :
    ∀ e ∈ dropEvents file, storageHoldings.takes e = none ∧ storageHoldings.gives e = none := by
  intro e he
  unfold dropEvents at he
  split at he
  · cases he
  · split at he
    · cases he
    · rw [List.mem_singleton.1 he]
      exact ⟨rfl, rfl⟩

/-! ## Storage -/

/-- Storage that is forgotten: it could not be used, and its release failed. -/
def Forgotten (s : Space) (x : Nat × Nat) : Prop :=
  s.Unusable x.1 x.2 ∧ ∃ error, error ≠ 0 ∧ (Request.release x.1 x.2, error) ∈ s.log

/-- The storage that was reserved is in hand, in the regions or forgotten, or it was released. -/
def StorageKept (a : Space × Hand) : Prop :=
  ∃ lost : Multiset (Nat × Nat),
    storageHoldings.Holds a.1.log (ownedRanges a.1.regions + a.2.ranges + lost) ∧
      ∀ x ∈ lost, a.1.Forgotten x

/-- Storage that is forgotten stays so as the log grows. -/
theorem Forgotten.mono {s' : Space} {x : Nat × Nat} (h : s.Forgotten x) (hp : s'.pageSize = s.pageSize)
    (hlog : ∀ e ∈ s.log, e ∈ s'.log) : s'.Forgotten x := by
  obtain ⟨hu, error, he, hmem⟩ := h
  refine ⟨?_, error, he, hlog _ hmem⟩
  unfold Unusable range at hu ⊢
  rw [hp]
  exact hu

/-- A move that takes nothing and gives nothing back. -/
theorem StorageKept.quiet {l : List (Request × Int)} (h : StorageKept a) (hlog : b.1.log = l ++ a.1.log)
    (hl : ∀ e ∈ l, storageHoldings.takes e = none ∧ storageHoldings.gives e = none)
    (hp : b.1.pageSize = a.1.pageSize)
    (hand : ownedRanges b.1.regions + b.2.ranges = ownedRanges a.1.regions + a.2.ranges) : StorageKept b := by
  obtain ⟨lost, hholds, hlost⟩ := h
  refine ⟨lost, ?_, fun x hx => (hlost x hx).mono hp fun e he => ?_⟩
  · rw [hlog, hand]
    exact hholds.quiets hl
  · rw [hlog]
    exact List.mem_append_right l he

/-- What is in hand becomes a region. -/
theorem ownedRanges_made {k : Hand} {page : Nat} {r : Region} {p : Page} (hr : Made k page r p) (l : List Region) :
    ownedRanges (l ++ [r]) + ({} : Hand).ranges = ownedRanges l + k.ranges := by
  have hk : k.ranges = {(r.base, r.length)} := by rw [Hand.ranges, hr.storage]; rfl
  rw [ownedRanges_append, ownedRanges_cons, if_pos hr.owned, hk, ownedRanges_nil, add_zero]
  exact add_zero _

/-- A region that keeps its range and owner leaves what is owned. -/
theorem ownedRanges_same {done rest : List Region} {r r' : Region} (hb : r'.base = r.base)
    (hl : r'.length = r.length) (ho : r'.owned = r.owned) :
    ownedRanges (done ++ r' :: rest) = ownedRanges (done ++ r :: rest) := by
  rw [ownedRanges_append, ownedRanges_append, ownedRanges_cons, ownedRanges_cons, hb, hl, ho]

/-- One call that takes nothing and gives nothing back. -/
theorem quiet_call {request : Request} {answer : Int} (ht : storageHoldings.takes (request, answer) = none)
    (hg : storageHoldings.gives (request, answer) = none) :
    ∀ e ∈ [(request, answer)], storageHoldings.takes e = none ∧ storageHoldings.gives e = none := by
  intro e he
  rw [List.mem_singleton.1 he]
  exact ⟨ht, hg⟩

/-- Storage in hand is released, or forgotten if the release fails. -/
theorem StorageKept.release {k : Hand} {b n : Nat} {answer : Int} (h : StorageKept (s, k))
    (hk : k.storage = some (b, n)) (hu : answer ≠ 0 → s.Unusable b n) :
    StorageKept (s.note (.release b n) answer, { file := k.file }) := by
  obtain ⟨lost, hholds, hlost⟩ := h
  have hone : k.ranges = {(b, n)} := by rw [Hand.ranges, hk]; rfl
  by_cases hanswer : answer = 0
  · refine ⟨lost, ?_, fun x hx => (hlost x hx).mono rfl fun e he => List.mem_cons_of_mem _ he⟩
    rw [hone, add_comm (ownedRanges _), Multiset.singleton_add, Multiset.cons_add] at hholds
    have hgive := hholds.give (e := (Request.release b n, answer)) rfl
      (show (if _ then _ else _) = _ from if_pos hanswer)
    show storageHoldings.Holds _ (_ + 0 + _)
    rw [add_zero]
    exact hgive
  · -- it is not in hand any more, and it was not given back
    refine ⟨(b, n) ::ₘ lost, ?_, fun x hx => ?_⟩
    · have hq := hholds.quiet (e := (Request.release b n, answer)) rfl
        (show (if _ then _ else _) = _ from if_neg hanswer)
      rw [hone, add_assoc, Multiset.singleton_add] at hq
      show storageHoldings.Holds _ (_ + 0 + _)
      rw [add_zero]
      exact hq
    · rcases Multiset.mem_cons.1 hx with rfl | hx
      · exact ⟨hu hanswer, answer, hanswer, List.mem_cons_self⟩
      · exact (hlost x hx).mono rfl fun e he => List.mem_cons_of_mem _ he

/-- New storage for the pages of a range is in place of the old. -/
theorem StorageKept.reset {done rest : List Region} {r : Region} {address size first count live : Nat} {p : Page}
    (h : StorageKept (s, {})) (hs : s.regions = done ++ r :: rest) :
    StorageKept
      (let s' := (s.invalidateFilePages r first count).mutation (.reset address size p.protection) 0
       let r' := { r.edit first count (fun _ => p) with live }
       ((s'.releaseUnusedFile r').1.put (done ++ { r' with file := (s'.releaseUnusedFile r').2 } :: rest), {})) := by
  have hlog' := s.invalidateFilePages_log r first count
  obtain ⟨watches, hw⟩ := s.invalidateFilePages_eq r first count
  have hpage : (s.invalidateFilePages r first count).pageSize = s.pageSize := by rw [hw]
  show StorageKept (Space.put _ _, {})
  generalize hs' : (s.invalidateFilePages r first count).mutation (.reset address size p.protection) 0 = s'
  generalize hr' : { r.edit first count (fun _ => p) with live } = r'
  have hlog₀ : s'.log = (.reset address size p.protection, 0) :: s.log := by
    rw [← hs', ← hlog']
    rfl
  have hpage₀ : s'.pageSize = s.pageSize := by
    rw [← hs', ← hpage]
    rfl
  obtain ⟨watches', log', file, hfile, _⟩ := s'.releaseUnusedFile_eq r'
  have hpage' : (s'.releaseUnusedFile r').1.pageSize = s.pageSize := by rw [hfile, ← hpage₀]
  have hregions : ownedRanges (done ++ { r' with file := (s'.releaseUnusedFile r').2 } :: rest) =
      ownedRanges s.regions := by
    rw [hs, ← hr']
    exact ownedRanges_same rfl rfl rfl
  rcases s'.releaseUnusedFile_log r' with ⟨hlog, _⟩ | ⟨hlog, _⟩
  · exact h.quiet (l := [_]) (hlog.trans hlog₀) (quiet_call rfl rfl) hpage' (congrArg (· + 0) hregions)
  · refine h.quiet (l := dropEvents r'.file ++ [(.reset address size p.protection, 0)]) ?_ ?_ hpage'
      (congrArg (· + 0) hregions)
    · exact hlog.trans ((congrArg _ hlog₀).trans (List.append_assoc _ [_] _).symm)
    · intro e he
      rcases List.mem_append.1 he with he | he
      · exact dropEvents_quiet _ e he
      · exact quiet_call rfl rfl e he

/-- A region that is released whole gives its range back. -/
theorem StorageKept.erase {done rest : List Region} {r : Region} {first count : Nat} (h : StorageKept (s, {}))
    (hs : s.regions = done ++ r :: rest) (ho : r.owned = true) :
    StorageKept
      (let s' := (s.invalidateFilePages r first count).mutation (.release r.base r.length) 0
       ({ (s'.drop r.file).put (done ++ rest) with reserved := sub64 s.reserved r.length }, {})) := by
  have hlog' := s.invalidateFilePages_log r first count
  obtain ⟨watches, hw⟩ := s.invalidateFilePages_eq r first count
  have hpage : (s.invalidateFilePages r first count).pageSize = s.pageSize := by rw [hw]
  obtain ⟨lost, hholds, hlost⟩ := h
  show StorageKept ({ Space.put _ _ with reserved := _ }, {})
  generalize hs' : (s.invalidateFilePages r first count).mutation (.release r.base r.length) 0 = s'
  have hlog : (s'.drop r.file).log = dropEvents r.file ++ (.release r.base r.length, 0) :: s.log := by
    rw [drop_log, ← hs', ← hlog']
    rfl
  have hpage' : (s'.drop r.file).pageSize = s.pageSize := by
    obtain ⟨watches', log', hdrop⟩ := s'.drop_eq r.file
    rw [hdrop, ← hpage, ← hs']
    rfl
  refine ⟨lost, ?_, fun x hx => (hlost x hx).mono hpage' fun e he => ?_⟩
  · have howned : ownedRanges s.regions = (r.base, r.length) ::ₘ ownedRanges (done ++ rest) := by
      rw [hs, ownedRanges_append, ownedRanges_cons, if_pos ho, ownedRanges_append, ← Multiset.singleton_add,
        add_left_comm]
    rw [howned, Multiset.cons_add, Multiset.cons_add] at hholds
    show storageHoldings.Holds (s'.drop r.file).log _
    rw [hlog]
    exact (hholds.give (e := (Request.release r.base r.length, 0)) rfl rfl).quiets (dropEvents_quiet r.file)
  · show e ∈ (s'.drop r.file).log
    rw [hlog]
    exact List.mem_append_right _ (List.mem_cons_of_mem _ he)

/-- Every move keeps the account of storage. -/
theorem storageKept_move (hm : Move a b) (h : StorageKept a) : StorageKept b := by
  cases hm with
  | acquire s file f error ht => exact h.quiet (l := [_]) rfl (quiet_call rfl rfl) rfl rfl
  | drop s k hk =>
    obtain ⟨watches, log, hd⟩ := s.drop_eq k.file
    refine h.quiet (drop_log s k.file) (dropEvents_quiet k.file) ?_ ?_
    · rw [hd]
    · rw [hd]
      show ownedRanges s.regions + 0 = ownedRanges s.regions + k.ranges
      rw [Hand.ranges, hk]
      rfl
  | refuse s k size storage error hk hr =>
    refine h.quiet (l := [_]) rfl (quiet_call (if_neg ?_) rfl) rfl rfl
    rcases hr with hr | hr
    · exact fun hc => hr hc.1
    · exact fun hc => hc.2 hr
  | reserve s k size storage hk h0 hw hd =>
    obtain ⟨lost, hholds, hlost⟩ := h
    refine ⟨lost, ?_, fun x hx => (hlost x hx).mono rfl fun e he => List.mem_cons_of_mem _ he⟩
    have hnone : k.ranges = 0 := by rw [Hand.ranges, hk]; rfl
    -- the range that the host gave is held by no region yet
    have htake := hholds.take (e := (Request.reserve size storage, 0)) (k := (storage, size))
      (show (if _ then _ else _) = _ from if_pos ⟨rfl, h0⟩) rfl
    rw [hnone, add_zero, ← Multiset.cons_add, ← Multiset.singleton_add, add_comm {_}] at htake
    exact htake
  | protect s k b n p answer hk hm => exact h.quiet (l := [_]) rfl (quiet_call rfl rfl) rfl rfl
  | map s k b n p f answer hk hf => exact h.quiet (l := [_]) rfl (quiet_call rfl rfl) rfl rfl
  | release s k b n answer hk hu => exact h.release hk hu
  | retain s k r p error hr hf he =>
    exact h.quiet (l := [_]) rfl (quiet_call rfl (if_neg he)) rfl (ownedRanges_made hr _)
  | keep s k r p hr hm hf => exact h.quiet (l := []) rfl (List.forall_mem_nil _) rfl (ownedRanges_made hr _)
  | watch s k r p f hr hm hf ht => exact h.quiet (l := []) rfl (List.forall_mem_nil _) rfl (ownedRanges_made hr _)
  | register s r ho hf hp hd =>
    refine h.quiet (l := []) rfl (List.forall_mem_nil _) rfl ?_
    show ownedRanges (s.regions ++ [r]) + 0 = ownedRanges s.regions + 0
    rw [ownedRanges_append, ownedRanges_cons, if_neg (by rw [ho]; exact Bool.false_ne_true), ownedRanges_nil,
      add_zero, add_zero]
  | spoil s r first count request error hr hq he =>
    obtain ⟨watches, hw⟩ := s.invalidateFilePages_eq r first count
    rw [hw]
    obtain ⟨_, _, hq, _⟩ := hq.range
    refine h.quiet (l := [_]) rfl (quiet_call ?_ ?_) rfl rfl
    · cases request <;> first | rfl | cases hq
    · cases request <;> first | rfl | exact if_neg he
  | skip s r first count hr hn =>
    obtain ⟨watches, hw⟩ := s.invalidateFilePages_eq r first count
    rw [hw]
    exact h.quiet (l := []) rfl (List.forall_mem_nil _) rfl rfl
  | reset s done rest r address size first count live p hs hd hr ho hp => exact h.reset hs
  | reprotect s done rest r address size first count p hs hd hr hm hw =>
    refine h.quiet (l := [_]) rfl (quiet_call rfl rfl) rfl ?_
    show ownedRanges (done ++ _ :: rest) + 0 = ownedRanges s.regions + 0
    rw [hs]
    exact congrArg (· + 0) (ownedRanges_same rfl rfl rfl)
  | discard s r n run hr hs ho hn he =>
    refine h.quiet (l := [_]) rfl (quiet_call ?_ ?_) rfl rfl
    · unfold discardRequest
      split <;> rfl
    · unfold discardRequest
      split <;> rfl
  | erase s done rest r first count hs hd ho => exact h.erase hs ho

/-! ## References to files -/

/-- The references that were acquired are the files of the regions and the file in hand, or they were dropped. -/
def FilesKept (a : Space × Hand) : Prop :=
  fileHoldings.Holds a.1.log (references a.1.regions + referenceOf a.2.file)

/-- A call that is not of a file. -/
def Plain (e : Request × Int) : Prop := fileHoldings.takes e = none ∧ fileHoldings.gives e = none

/-- A file that is dropped leaves the hand. -/
theorem holds_drop {log : List (Request × Int)} {hand : Multiset Nat} {file : Option FileMapping}
    (h : fileHoldings.Holds log (referenceOf file + hand)) : fileHoldings.Holds (dropEvents file ++ log) hand := by
  cases file with
  | none => exact (zero_add hand) ▸ h
  | some f =>
    unfold referenceOf at h
    unfold dropEvents
    dsimp only at h ⊢
    split at h
    next h0 =>
      rw [if_pos h0]
      exact (zero_add hand) ▸ h
    next h0 =>
      rw [if_neg h0]
      rw [Multiset.singleton_add] at h
      exact h.give rfl rfl

/-- A new region takes the reference that was in hand. -/
theorem references_made {k : Hand} {r : Region} (hf : r.file = k.file) (l : List Region) :
    references (l ++ [r]) + referenceOf ({} : Hand).file = references l + referenceOf k.file := by
  rw [references_append, references_cons, hf, references_nil, add_zero]
  exact add_zero _

/-- A region that keeps its reference leaves what is held. -/
theorem references_same {done rest : List Region} {r r' : Region} (h : referenceOf r'.file = referenceOf r.file) :
    references (done ++ r' :: rest) = references (done ++ r :: rest) := by
  rw [references_append, references_append, references_cons, references_cons, h]

/-- A region less, with its file first. -/
theorem references_erase (done rest : List Region) (r : Region) :
    references (done ++ r :: rest) = referenceOf r.file + references (done ++ rest) := by
  rw [references_append, references_cons, references_append, add_left_comm]

/-- Every move keeps the account of file references. -/
theorem filesKept_move (hm : Move a b) (h : FilesKept a) : FilesKept b := by
  unfold FilesKept at h ⊢
  cases hm with
  | acquire s file f error ht =>
    show fileHoldings.Holds (_ :: s.log) (references s.regions + referenceOf (some f))
    have h : fileHoldings.Holds s.log (references s.regions + 0) := h
    rw [add_zero] at h
    unfold referenceOf
    dsimp only
    split
    next h0 =>
      rw [add_zero]
      exact h.quiet (show (if _ then _ else _) = _ from if_neg (not_not_intro h0)) rfl
    next h0 =>
      rw [add_comm, Multiset.singleton_add]
      exact h.take (show (if _ then _ else _) = _ from if_pos h0) rfl
  | drop s k hk =>
    rw [add_comm] at h
    rw [drop_log, show (s.drop k.file).regions = s.regions by obtain ⟨_, _, hd⟩ := s.drop_eq k.file; rw [hd]]
    exact (add_zero (references s.regions)).symm ▸ holds_drop h
  | refuse s k size storage error hk hr => exact h.quiet rfl rfl
  | reserve s k size storage hk h0 hw hd => exact h.quiet rfl rfl
  | protect s k b n p answer hk hm => exact h.quiet rfl rfl
  | map s k b n p f answer hk hf => exact h.quiet rfl rfl
  | release s k b n answer hk hu => exact h.quiet rfl rfl
  | retain s k r p error hr hf he =>
    show fileHoldings.Holds (_ :: s.log) (references (s.regions ++ [r]) + _)
    rw [references_made hf]
    exact h.quiet rfl rfl
  | keep s k r p hr hm hf =>
    show fileHoldings.Holds s.log (references (s.regions ++ [r]) + _)
    rw [references_made hf]
    exact h
  | watch s k r p f hr hm hf ht =>
    show fileHoldings.Holds s.log (references (s.regions ++ [r]) + 0)
    rw [hf] at h
    rw [references_append, references_cons, ht, references_nil, add_zero, add_zero]
    exact h
  | register s r ho hf hp hd =>
    show fileHoldings.Holds s.log (references (s.regions ++ [r]) + 0)
    rw [references_append, references_cons, hf, references_nil, add_zero]
    exact h
  | spoil s r first count request error hr hq he =>
    obtain ⟨watches, hw⟩ := s.invalidateFilePages_eq r first count
    rw [hw]
    obtain ⟨_, _, hq, _⟩ := hq.range
    refine h.quiet ?_ ?_ <;> cases request <;> first | rfl | cases hq
  | skip s r first count hr hn =>
    obtain ⟨watches, hw⟩ := s.invalidateFilePages_eq r first count
    rw [hw]
    exact h
  | reset s done rest r address size first count live p hs hd hr ho hp =>
    have hlog' := s.invalidateFilePages_log r first count
    show fileHoldings.Holds (Space.releaseUnusedFile _ _).1.log (references (done ++ _ :: rest) + 0)
    generalize hs' : (s.invalidateFilePages r first count).mutation (.reset address size p.protection) 0 = s'
    generalize hr' : { r.edit first count (fun _ => p) with live } = r'
    have hfile : r'.file = r.file := by rw [← hr']; rfl
    have hlog₀ : s'.log = (.reset address size p.protection, 0) :: s.log := by
      rw [← hs', ← hlog']
      rfl
    have h : fileHoldings.Holds s'.log (references s.regions + 0) := by
      rw [hlog₀]
      exact Holdings.Holds.quiet h rfl rfl
    rw [hs] at h
    -- the file is given back when its last page goes
    rcases s'.releaseUnusedFile_log r' with ⟨hlog, hkept⟩ | ⟨hlog, hgone⟩
    · rw [hlog, hkept, references_same (r := r) (congrArg referenceOf hfile)]
      exact h
    · rw [add_zero, references_erase] at h
      rw [hlog, hgone, hfile, add_zero, references_erase]
      exact (zero_add (references (done ++ rest))).symm ▸ holds_drop h
  | reprotect s done rest r address size first count p hs hd hr hm hw =>
    show fileHoldings.Holds (_ :: s.log) (references (done ++ _ :: rest) + 0)
    rw [hs] at h
    have hsame : references (done ++ (r.edit first count fun q => { q with protection := p }) :: rest) =
        references (done ++ r :: rest) := references_same rfl
    rw [hsame]
    exact Holdings.Holds.quiet h rfl rfl
  | discard s r n run hr hs ho hn he =>
    refine h.quiet ?_ ?_ <;> unfold discardRequest <;> split <;> rfl
  | erase s done rest r first count hs hd ho =>
    have hlog' := s.invalidateFilePages_log r first count
    show fileHoldings.Holds (Space.drop _ _).log (references (done ++ rest) + 0)
    rw [drop_log, show (Space.mutation _ _ _).log = (.release r.base r.length, 0) :: s.log from
      congrArg (_ :: ·) hlog', add_zero]
    have h : fileHoldings.Holds s.log (references s.regions + 0) := h
    rw [add_zero, hs, references_erase] at h
    exact holds_drop (h.quiet rfl rfl)

/-! ## What is noted -/

/-- What a move adds to what was noted. -/
structure Notes (a b : Space × Hand) (l : List (Request × Int)) : Prop where
  log : b.1.log = l ++ a.1.log
  pageSize : b.1.pageSize = a.1.pageSize
  poisoned : a.1.poisoned = true → b.1.poisoned = true
  release : ∀ address length error, error ≠ 0 → (Request.release address length, error) ∈ l →
    b.1.poisoned = true ∨ a.1.Unusable address length

/-- A move that asks for one thing. -/
theorem notes_one {request : Request} {answer : Int} (hlog : b.1.log = (request, answer) :: a.1.log)
    (hp : b.1.pageSize = a.1.pageSize) (hpo : a.1.poisoned = true → b.1.poisoned = true)
    (hr : ∀ address length, answer ≠ 0 → request = .release address length →
      b.1.poisoned = true ∨ a.1.Unusable address length) : Notes a b [(request, answer)] := by
  refine ⟨hlog, hp, hpo, fun address length error he hmem => ?_⟩
  have heq := List.mem_singleton.1 hmem
  have hanswer : error = answer := congrArg Prod.snd heq
  exact hr address length (hanswer ▸ he) (congrArg Prod.fst heq).symm

/-- A move without a native call notes nothing. -/
theorem notes_nil (hlog : b.1.log = a.1.log) (hp : b.1.pageSize = a.1.pageSize)
    (hpo : a.1.poisoned = true → b.1.poisoned = true) : Notes a b [] :=
  ⟨hlog, hp, hpo, nofun⟩

/-- A destructor and a call before it. -/
theorem notes_drop (request : Request) (file : Option FileMapping)
    (hlog : b.1.log = dropEvents file ++ (request, 0) :: a.1.log)
    (hp : b.1.pageSize = a.1.pageSize) (hpo : a.1.poisoned = true → b.1.poisoned = true) :
    Notes a b (dropEvents file ++ [(request, 0)]) := by
  refine ⟨hlog.trans (List.append_assoc _ [_] _).symm, hp, hpo, fun address length error he hmem => ?_⟩
  rcases List.mem_append.1 hmem with hmem | hmem
  · unfold dropEvents at hmem
    split at hmem
    · cases hmem
    · split at hmem
      · cases hmem
      · cases List.mem_singleton.1 hmem
  · exact absurd (congrArg Prod.snd (List.mem_singleton.1 hmem)) he

/-- Every move notes its native calls. -/
theorem move_notes (hm : Move a b) : ∃ l, Notes a b l := by
  cases hm with
  | acquire s file f error ht => exact ⟨_, notes_one rfl rfl id nofun⟩
  | drop s k hk =>
    obtain ⟨watches, log, hd⟩ := s.drop_eq k.file
    refine ⟨dropEvents k.file, drop_log s k.file, by rw [hd], by rw [hd]; exact id, fun _ _ error he hmem => ?_⟩
    unfold dropEvents at hmem
    split at hmem
    · cases hmem
    · split at hmem
      · cases hmem
      · cases List.mem_singleton.1 hmem
  | refuse s k size storage error hk hr => exact ⟨_, notes_one rfl rfl id nofun⟩
  | reserve s k size storage hk h0 hw hd => exact ⟨_, notes_one rfl rfl id nofun⟩
  | protect s k b n p answer hk hm => exact ⟨_, notes_one rfl rfl id nofun⟩
  | map s k b n p f answer hk hf => exact ⟨_, notes_one rfl rfl id nofun⟩
  | release s k b n answer hk hu =>
    refine ⟨_, notes_one rfl rfl id fun address length he heq => .inr ?_⟩
    obtain ⟨rfl, rfl⟩ := Request.release.inj heq
    exact hu he
  | retain s k r p error hr hf he => exact ⟨_, notes_one rfl rfl (fun _ => rfl) fun _ _ _ _ => .inl rfl⟩
  | keep s k r p hr hm hf => exact ⟨_, notes_nil rfl rfl id⟩
  | watch s k r p f hr hm hf ht => exact ⟨_, notes_nil rfl rfl id⟩
  | register s r ho hf hp hd => exact ⟨_, notes_nil rfl rfl id⟩
  | spoil s r first count request error hr hq he =>
    obtain ⟨watches, hw⟩ := s.invalidateFilePages_eq r first count
    rw [hw]
    have hpo : (s.poisoned || error != 0) = true := by rw [bne_iff_ne.2 he, Bool.or_true]
    exact ⟨_, notes_one rfl rfl (fun _ => hpo) fun _ _ _ _ => .inl hpo⟩
  | skip s r first count hr hn =>
    obtain ⟨watches, hw⟩ := s.invalidateFilePages_eq r first count
    rw [hw]
    exact ⟨_, notes_nil rfl rfl id⟩
  | reset s done rest r address size first count live p hs hd hr ho hp =>
    obtain ⟨watches, hw⟩ := s.invalidateFilePages_eq r first count
    rw [hw]
    show ∃ l, Notes _ (Space.put _ _, {}) l
    generalize hs' : ({ s with watches } : Space).mutation (.reset address size p.protection) 0 = s'
    generalize hr' : { r.edit first count (fun _ => p) with live } = r'
    -- a call that succeeds does not lift the poison
    have hpo : s.poisoned = true → s'.poisoned = true := by
      intro h
      rw [← hs']
      show (s.poisoned || _) = true
      rw [h, Bool.true_or]
    have hpage : s'.pageSize = s.pageSize := by rw [← hs']; rfl
    have hlog₀ : s'.log = (.reset address size p.protection, 0) :: s.log := by rw [← hs']; rfl
    obtain ⟨watches', log', file, hfile, _⟩ := s'.releaseUnusedFile_eq r'
    have hpo' : s.poisoned = true → (s'.releaseUnusedFile r').1.poisoned = true := by rw [hfile]; exact hpo
    have hpage' : (s'.releaseUnusedFile r').1.pageSize = s.pageSize := by rw [hfile]; exact hpage
    rcases s'.releaseUnusedFile_log r' with ⟨hlog, _⟩ | ⟨hlog, _⟩
    · exact ⟨_, notes_one (hlog.trans hlog₀) hpage' hpo' nofun⟩
    · exact ⟨_, notes_drop _ _ (hlog.trans (congrArg _ hlog₀)) hpage' hpo'⟩
  | reprotect s done rest r address size first count p hs hd hr hm hw =>
    refine ⟨_, notes_one rfl rfl (fun h => ?_) nofun⟩
    show (s.poisoned || _) = true
    rw [h, Bool.true_or]
  | discard s r n run hr hs ho hn he =>
    refine ⟨_, notes_one rfl rfl (fun h => ?_) fun _ _ h0 => absurd rfl h0⟩
    show (s.poisoned || _) = true
    rw [h, Bool.true_or]
  | erase s done rest r first count hs hd ho =>
    obtain ⟨watches, hw⟩ := s.invalidateFilePages_eq r first count
    rw [hw]
    show ∃ l, Notes _ ({ Space.put _ _ with reserved := _ }, {}) l
    generalize hs' : ({ s with watches } : Space).mutation (.release r.base r.length) 0 = s'
    obtain ⟨watches', log', hdrop⟩ := s'.drop_eq r.file
    have hlog := s'.drop_log r.file
    refine ⟨_, notes_drop (.release r.base r.length) r.file ?_ ?_ ?_⟩
    · show (s'.drop r.file).log = _
      rw [hlog, ← hs']
      rfl
    · show (s'.drop r.file).pageSize = _
      rw [hdrop, ← hs']
      rfl
    · intro h
      have h : s.poisoned = true := h
      show (s'.drop r.file).poisoned = true
      rw [hdrop, ← hs']
      show (s.poisoned || _) = true
      rw [h, Bool.true_or]

/-- In a space that may be used, only storage that could not be used was not released. -/
def ReleasesSound (a : Space × Hand) : Prop :=
  a.1.poisoned = false → ∀ address length error, error ≠ 0 → (Request.release address length, error) ∈ a.1.log →
    a.1.Unusable address length

/-- Every move keeps the releases sound. -/
theorem releasesSound_move (hm : Move a b) (h : ReleasesSound a) : ReleasesSound b := by
  obtain ⟨l, hl⟩ := move_notes hm
  intro hpo address length error he hmem
  have hunusable : a.1.Unusable address length := by
    rw [hl.log] at hmem
    rcases List.mem_append.1 hmem with hmem | hmem
    · refine (hl.release address length error he hmem).resolve_left fun h => ?_
      rw [hpo] at h
      cases h
    · refine h (Bool.eq_false_iff.2 fun h => ?_) address length error he hmem
      rw [hl.poisoned h] at hpo
      cases hpo
  unfold Unusable range at hunusable ⊢
  rw [hl.pageSize]
  exact hunusable

/-! ## Every run -/

/-- Storage is accounted for in every reachable space. -/
theorem storageKept_reachable (hr : machine.Reachable s) : StorageKept (s, {}) := by
  refine reachable_of_moves hr (fun a b => storageKept_move) (fun s h h' _ _ => ⟨0, ?_, nofun⟩) fun s window h => h
  rw [h, h']
  rfl

/-- File references are accounted for in every reachable space. -/
theorem filesKept_reachable (hr : machine.Reachable s) : FilesKept (s, {}) := by
  refine reachable_of_moves hr (fun a b => filesKept_move) (fun s h h' _ _ => ?_) fun s window h => h
  unfold FilesKept
  rw [h, h']
  rfl

/-- The releases are sound in every reachable space. -/
theorem releasesSound_reachable (hr : machine.Reachable s) : ReleasesSound (s, {}) := by
  refine reachable_of_moves hr (fun a b => releasesSound_move) (fun s _ h _ _ _ _ _ _ _ hmem => ?_) fun s window h => h
  rw [h] at hmem
  cases hmem

/-- Storage is forgotten only where it could not be used, and a space with another failed release is out of use. -/
theorem storage_accounted (hr : machine.Reachable s) :
    (∃ lost : Multiset (Nat × Nat), storageHoldings.Holds s.log (ownedRanges s.regions + lost) ∧
      ∀ x ∈ lost, s.Forgotten x) ∧
    (s.poisoned = false → ∀ address length error, error ≠ 0 → (Request.release address length, error) ∈ s.log →
      s.Unusable address length) := by
  refine ⟨?_, releasesSound_reachable hr⟩
  obtain ⟨lost, hholds, hlost⟩ := storageKept_reachable hr
  refine ⟨lost, ?_, hlost⟩
  have hholds : storageHoldings.Holds s.log (ownedRanges s.regions + 0 + lost) := hholds
  rwa [add_zero] at hholds

/-- A host with room for a mapping at `storage`, which it may not take back. -/
def sampleRoom (storage : Nat) (released : Int) : Host where
  allocates _ := true
  reserve n := if n ≤ 0x10000 then (0, storage) else (-12, 0)
  protect _ _ _ := 0
  reset _ _ _ := 0
  release _ _ := released
  acquire _ := (0, 1)
  map _ _ _ _ _ _ := 0

/-- The sample's host reserves fresh storage. -/
theorem sampleRoom_fresh {storage : Nat} {released : Int} (h : storage + 0x10000 ≤ word) :
    (sampleRoom storage released).Fresh [] := by
  intro n hn _
  refine ⟨?_, nofun⟩
  unfold sampleRoom at hn ⊢
  dsimp only at hn ⊢
  split at hn
  next hle =>
    rw [if_pos hle]
    dsimp only
    omega
  next => cases hn

/-- A space of 4 KiB pages. -/
def sampleEmpty : Space := { pageSize := 0x1000, limit := 0x10000, regionLimit := 2 }

theorem sampleEmpty_reachable : machine.Reachable sampleEmpty := by
  have hcreate : create (sampleRoom 0x10000 0) 0x1000 0x10000 2 = some sampleEmpty := by decide
  exact .init ⟨_, sampleRoom_fresh (by decide), .inl ⟨_, _, _, hcreate⟩⟩

/-- Storage at an address that is no `int64_t`, and that the host does not take back. -/
def sampleStranded : Space := { sampleEmpty with
  log := [(.release 0x8000000000000000 0x1000, -1), (.reserve 0x1000 0x8000000000000000, 0)] }

/-- The sample owns what was reserved but for the range that is forgotten. -/
theorem storage_accounted_stranded :
    ∃ lost : Multiset (Nat × Nat),
      storageHoldings.Holds sampleStranded.log (ownedRanges sampleStranded.regions + lost) ∧
      ∀ x ∈ lost, sampleStranded.Forgotten x := by
  have hstep : sampleStranded =
      (sampleEmpty.perform (sampleRoom 0x8000000000000000 (-1)) (.mmap 0 0x1000 3 0x22 0)).2 := by decide
  exact (storage_accounted (sampleEmpty_reachable.step ⟨_, _, sampleRoom_fresh (by decide), hstep⟩)).1

/-! ## Destruction -/

/-- `FileMapping::invalidate`. -/
def invalidate (s : Space) (file : Option FileMapping) : Space :=
  match file with
  | none => s
  | some f => s.watch f.tracking fun m => { m with intact := false }

/-- The loop of `artbox_vm_destroy`, with the result before it. -/
def releaseRegions (h : Host) : List Region → Int → Space → Int × Space
  | [], result, s => (result, s)
  | r :: rest, result, s =>
    let s := s.invalidate r.file
    if r.owned then
      let answer := h.release r.base r.length
      releaseRegions h rest (if answer ≠ 0 then -5 else result) (s.note (.release r.base r.length) answer)
    else releaseRegions h rest result s

/-- `artbox_vm_destroy`. The regions go with the space, and every file with its region. -/
def destroy (h : Host) (s : Space) : Int × Space :=
  let (result, s) := releaseRegions h s.regions 0 s
  (result, { s.regions.foldl (fun s r => s.drop r.file) s with regions := [] })

/-- The owned storage that the host does not take back. -/
def denied (h : Host) (l : List Region) : Multiset (Nat × Nat) :=
  (ownedRanges l).filter fun x => h.release x.1 x.2 ≠ 0

/-- An invalidated mapping asks the host nothing. -/
theorem invalidate_log (s : Space) (file : Option FileMapping) : (s.invalidate file).log = s.log := by
  cases file with
  | none => rfl
  | some f =>
    show (s.watch f.tracking _).log = s.log
    cases f.tracking <;> rfl

/-- An invalidated mapping leaves the regions. -/
theorem invalidate_regions (s : Space) (file : Option FileMapping) : (s.invalidate file).regions = s.regions := by
  cases file with
  | none => rfl
  | some f => exact watch_regions s f.tracking _

/-- What the host refuses to take back is counted region by region. -/
theorem denied_cons (h : Host) (r : Region) (l : List Region) :
    denied h (r :: l) =
      (if r.owned = true ∧ h.release r.base r.length ≠ 0 then {(r.base, r.length)} else 0) + denied h l := by
  unfold denied
  rw [ownedRanges_cons, Multiset.filter_add]
  congr 1
  by_cases ho : r.owned = true
  · rw [if_pos ho, Multiset.filter_singleton]
    by_cases hc : h.release r.base r.length ≠ 0
    · rw [if_pos hc, if_pos ⟨ho, hc⟩]
    · rw [if_neg hc, if_neg fun h' => hc h'.2]
      rfl
  · rw [if_neg ho, if_neg fun h' => ho h'.1]
    rfl

/-- The loop takes every owned range from what is in hand, but those that the host does not take back. -/
theorem releaseRegions_storage {h : Host} {l : List Region} {result : Int} {hand : Multiset (Nat × Nat)}
    (hs : storageHoldings.Holds s.log (ownedRanges l + hand)) :
    storageHoldings.Holds (releaseRegions h l result s).2.log (denied h l + hand) := by
  induction l generalizing s result hand with
  | nil => exact hs
  | cons r l ih =>
    rw [ownedRanges_cons] at hs
    unfold releaseRegions
    by_cases ho : r.owned = true
    · rw [if_pos ho, add_assoc] at hs
      rw [if_pos ho, denied_cons]
      by_cases hc : h.release r.base r.length = 0
      · rw [if_neg fun h' => h'.2 hc, zero_add]
        refine ih ?_
        show storageHoldings.Holds (_ :: (s.invalidate r.file).log) _
        rw [invalidate_log]
        rw [Multiset.singleton_add] at hs
        exact hs.give rfl (show (if _ then _ else _) = _ from if_pos hc)
      · rw [if_pos ⟨ho, hc⟩, add_comm {_}, add_assoc]
        refine ih ?_
        show storageHoldings.Holds (_ :: (s.invalidate r.file).log) _
        rw [invalidate_log, add_left_comm]
        exact hs.quiet rfl (show (if _ then _ else _) = _ from if_neg hc)
    · rw [if_neg ho, zero_add] at hs
      rw [if_neg ho, denied_cons, if_neg fun h' => ho h'.1, zero_add]
      exact ih (by rwa [invalidate_log])

/-- The loop reports a range that the host does not take back. -/
theorem releaseRegions_result {h : Host} {l : List Region} {result : Int} :
    (releaseRegions h l result s).1 = 0 ↔ result = 0 ∧ denied h l = 0 := by
  induction l generalizing s result with
  | nil => exact ⟨fun h' => ⟨h', rfl⟩, fun h' => h'.1⟩
  | cons r l ih =>
    unfold releaseRegions
    rw [denied_cons]
    by_cases ho : r.owned = true
    · rw [if_pos ho]
      refine ih.trans ?_
      by_cases hc : h.release r.base r.length = 0
      · rw [if_neg (not_not_intro hc), if_neg fun h' => h'.2 hc, zero_add]
      · rw [if_pos hc, if_pos ⟨ho, hc⟩, Multiset.singleton_add]
        exact ⟨fun h' => absurd h'.1 (by decide), fun h' => absurd h'.2 (Multiset.cons_ne_zero)⟩
    · rw [if_neg ho, if_neg fun h' => ho h'.1, zero_add]
      exact ih

/-- The release of storage leaves the file references. -/
theorem releaseRegions_files (h : Host) (l : List Region) (result : Int) {hand : Multiset Nat}
    (hs : fileHoldings.Holds s.log hand) :
    fileHoldings.Holds (releaseRegions h l result s).2.log hand ∧
      (releaseRegions h l result s).2.regions = s.regions := by
  induction l generalizing s result with
  | nil => exact ⟨hs, rfl⟩
  | cons r l ih =>
    unfold releaseRegions
    have hs' : fileHoldings.Holds (s.invalidate r.file).log hand := by rwa [invalidate_log]
    split
    · refine ⟨(ih _ ?_).1, ((ih _ ?_).2).trans (s.invalidate_regions r.file)⟩
      · exact hs'.quiet rfl rfl
      · exact hs'.quiet rfl rfl
    · exact ⟨(ih _ hs').1, ((ih _ hs').2).trans (s.invalidate_regions r.file)⟩

/-- Every region drops its file. -/
theorem dropFiles_files {l : List Region} {hand : Multiset Nat}
    (hs : fileHoldings.Holds s.log (references l + hand)) :
    fileHoldings.Holds (l.foldl (fun s r => s.drop r.file) s).log hand := by
  induction l generalizing s with
  | nil => exact (zero_add hand) ▸ hs
  | cons r l ih =>
    refine ih ?_
    rw [drop_log]
    rw [references_cons, add_assoc] at hs
    exact holds_drop hs

/-- The drop of files leaves the storage. -/
theorem dropFiles_storage {l : List Region} {hand : Multiset (Nat × Nat)} (hs : storageHoldings.Holds s.log hand) :
    storageHoldings.Holds (l.foldl (fun s r => s.drop r.file) s).log hand := by
  induction l generalizing s with
  | nil => exact hs
  | cons r l ih =>
    refine ih ?_
    rw [drop_log]
    exact hs.quiets (dropEvents_quiet r.file)

/-- Behind the destruction of a space, every reference to a file was dropped as often as it was acquired, and
all storage was released but what was forgotten and what the host does not take back. The result says whether there is
such storage. -/
theorem destroy_accounted (hr : machine.Reachable s) (h : Host) :
    fileHoldings.Holds (s.destroy h).2.log 0 ∧
    (∃ lost : Multiset (Nat × Nat), storageHoldings.Holds (s.destroy h).2.log (denied h s.regions + lost) ∧
      ∀ x ∈ lost, s.Forgotten x) ∧
    ((s.destroy h).1 = 0 ↔ denied h s.regions = 0) := by
  obtain ⟨lost, hholds, hlost⟩ := storageKept_reachable hr
  have hstorage : storageHoldings.Holds s.log (ownedRanges s.regions + 0 + lost) := hholds
  rw [add_zero] at hstorage
  have hfiles : fileHoldings.Holds s.log (references s.regions + 0) := filesKept_reachable hr
  obtain ⟨hfiles, hregions⟩ := releaseRegions_files h s.regions 0 hfiles
  refine ⟨?_, ⟨lost, ?_, hlost⟩, releaseRegions_result.trans (and_iff_right rfl)⟩
  · refine dropFiles_files ?_
    rw [hregions]
    exact hfiles
  · exact dropFiles_storage (releaseRegions_storage hstorage)

end Space

end Artbox.Vm
