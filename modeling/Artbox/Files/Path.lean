import Artbox.Lib.Segments
import Artbox.Vm.Memory

/-!
# Paths

`core/src/vfs.cpp` reads a path from the guest byte by byte, drops its empty and `.` components and
refuses `..` (`path`). What is left over, behind the path of the directory descriptor that a
relative path starts at, is the canonical path; virtual devices and protected trees are told by it
(`device`, `below`). `path_ok` says this in terms of the components; a second slash or `./` behind
a slash makes no difference to it (`normalize_doubled`).
-/

namespace Artbox.Files

open Vm (Space Guest word)
open Segments

/-- A path, or one component of it: bytes without a NUL. -/
abbrev Name := List UInt8

/-- The bytes of a literal. -/
def ascii (l : List Char) : Name := l.map fun c => UInt8.ofNat c.toNat

/-- `'/'` -/
def slash : UInt8 := 47

/-- `'.'` -/
def period : UInt8 := 46

def dot : Name := [period]

def dotdot : Name := [period, period]

def system : Name := ascii ['s', 'y', 's', 't', 'e', 'm']

def dev : Name := ascii ['d', 'e', 'v']

def proc : Name := ascii ['p', 'r', 'o', 'c']

/-! ## The descriptor table -/

/-- A handle of the provider. `location` is a history variable: the names from the preopened root on
under which the file was opened. -/
structure Handle where
  file : Nat
  location : List Name
deriving DecidableEq, Repr

/-- `descriptor`; kind zero is a free slot. An eventfd (11), timerfd (12) or epoll (10) has the
address space it was made in, a Binder open (9) also its token. -/
structure Descriptor where
  kind : Nat := 0
  flags : BitVec 32 := 0
  directory : Bool := false
  handle : Option Handle := none
  path : Name := []
  position : Nat := 0
  vm : Nat := 0
  token : Nat := 0
deriving DecidableEq, Repr

/-- `artbox_vfs`. -/
structure Table where
  descriptors : List Descriptor
  commandline : List UInt8 := []
  /-- A Binder device is attached. -/
  binder : Bool := false
  /-- The provider has `open`, and `unlink`. -/
  files : Bool := true
  unlink : Bool := true
deriving DecidableEq, Repr

/-- `get` -/
def Table.get (t : Table) (fd : Int) : Option Descriptor :=
  if fd < 3 then none
  else
    match t.descriptors[(fd - 3).toNat]? with
    | none => none
    | some d => if d.kind = 0 then none else some d

/-! ## Normalization -/

/-- `path_info` -/
structure PathInfo where
  relative : Name
  canonical : Name
  directory : Option Handle := none
  trailing : Bool := false
  terminalDot : Bool := false
deriving DecidableEq, Repr

/-- The bytes up to the first NUL, where `room` more fit. -/
def readString (s : Space) (address : Nat) : (room : Nat) → (bytes : Name) → Guest → Except Int Name × Guest
  | 0, _, g => (.error (-36), g)
  | room + 1, bytes, g =>
    if word - 1 - bytes.length < address then (.error (-14), g)
    else
      match s.read g (address + bytes.length) 1 with
      | (.error _, g) => (.error (-14), g)
      | (.ok read, g) =>
        let byte := read.headD 0
        if byte = 0 then (.ok bytes, g) else readString s address room (bytes ++ [byte]) g

/-- The last component is `.`, with or without slashes behind it. -/
def terminalDot (bytes : Name) : Bool :=
  match bytes.reverse.dropWhile (· == slash) with
  | [] => false
  | b :: rest => b == period && (rest.isEmpty || rest.head? == some slash)

/-- The loop of `path` over the bytes from the cursor on; each turn but the last takes a byte. -/
def appendComponents : (turns : Nat) → (bytes relative : Name) → Except Int Name
  | 0, _, relative => .ok relative
  | turns + 1, bytes, relative =>
    if bytes = [] then .ok relative
    else
      let start := bytes.dropWhile (· = slash)
      let component := start.takeWhile (· ≠ slash)
      let bytes := start.dropWhile (· ≠ slash)
      if component = [] ∨ component = dot then appendComponents turns bytes relative
      else if component = dotdot then .error (-1)
      else appendComponents turns bytes ((if relative = [] then [] else relative ++ [slash]) ++ component)

/-- Where a path starts: the handle and the path of a directory. -/
def Table.origin (t : Table) (dirfd : Int) (bytes : Name) : Except Int (Option Handle × Name) :=
  if bytes.head? = some slash ∨ dirfd = -100 then .ok (none, [])
  else
    match t.get dirfd with
    | none => .error (-9)
    | some base => if base.directory then .ok (base.handle, base.path) else .error (-20)

/-- The canonical path: the path of the directory, and behind it what is relative to it. -/
def canonicalOf (base relative : Name) : Name :=
  base ++ (if base ≠ [] ∧ relative ≠ [] then [slash] else []) ++ relative

/-- `path`, after the bytes are read. -/
def Table.normalize (t : Table) (dirfd : Int) (bytes : Name) : Except Int PathInfo :=
  if bytes = [] then .error (-2)
  else
    match t.origin dirfd bytes with
    | .error error => .error error
    | .ok (directory, base) =>
      match appendComponents bytes.length bytes [] with
      | .error error => .error error
      | .ok relative =>
        let canonical := canonicalOf base relative
        if 4096 ≤ canonical.length then .error (-36)
        else .ok {
          relative, canonical, directory
          trailing := bytes.getLast? == some slash
          terminalDot := terminalDot bytes }

/-- `path` -/
def Table.path (t : Table) (s : Space) (g : Guest) (address : Nat) (dirfd : Int) : Except Int PathInfo × Guest :=
  match readString s address 4096 [] g with
  | (.error error, g) => (.error error, g)
  | (.ok bytes, g) => (t.normalize dirfd bytes, g)

/-! ## Classification -/

/-- `device` -/
def device (name : Name) : Nat :=
  if name = ascii ['d', 'e', 'v', '/', 'n', 'u', 'l', 'l'] then 1
  else if name = ascii ['d', 'e', 'v', '/', 'z', 'e', 'r', 'o'] then 2
  else if name = ascii ['d', 'e', 'v', '/', 'u', 'r', 'a', 'n', 'd', 'o', 'm'] then 3
  else if name = dev then 4
  else if name = ascii ['p', 'r', 'o', 'c', '/', 's', 'e', 'l', 'f', '/', 'c', 'm', 'd', 'l', 'i', 'n', 'e'] then 6
  else if name = proc then 7
  else if name = ascii ['p', 'r', 'o', 'c', '/', 's', 'e', 'l', 'f'] then 8
  else if name = ascii ['d', 'e', 'v', '/', 'b', 'i', 'n', 'd', 'e', 'r'] then 9
  else 0

/-- `virtual_directory` -/
def virtualDirectory (kind : Nat) : Bool := kind == 4 || kind == 7 || kind == 8

/-- `below` -/
def below (name tree : Name) : Bool :=
  name.take tree.length == tree && (name.length == tree.length || name[tree.length]? == some slash)

/-! ## Components -/

/-- The components of a path without the empty ones and the `.` ones. -/
def components (bytes : Name) : List Name := (bytes.splitOn slash).filter fun c => c ≠ [] ∧ c ≠ dot

/-- Components are whole, without a slash. -/
theorem components_whole (bytes : Name) : Whole slash (components bytes) := by
  intro c hc
  obtain ⟨hmem, hkept⟩ := List.mem_filter.1 hc
  exact ⟨(of_decide_eq_true hkept).1, not_mem_of_splitOn hmem⟩

/-- A slash parts the components. -/
theorem components_append (u v : Name) : components (u ++ slash :: v) = components u ++ components v := by
  unfold components
  rw [List.splitOn_append_cons_self, List.filter_append]

/-- A slash in front adds no component. -/
theorem components_slash (l : Name) : components (slash :: l) = components l := components_append [] l

theorem components_skip (l : Name) : components (l.dropWhile (· = slash)) = components l := by
  induction l with
  | nil => rfl
  | cons b l ih =>
    by_cases hb : b = slash
    · subst hb
      rw [components_slash, ← ih, List.dropWhile_cons_of_pos (by simp)]
    · rw [List.dropWhile_cons_of_neg (by simpa using hb)]

/-- The component at the cursor, and those behind it. -/
theorem components_step (l : Name) : components l =
    (if first slash l = [] ∨ first slash l = dot then [] else [first slash l]) ++
      components (l.dropWhile (· ≠ slash)) := by
  have hrest : components (l.dropWhile (· ≠ slash)) = (behind slash l).filter fun c => c ≠ [] ∧ c ≠ dot := by
    unfold behind
    split
    next hd =>
      rw [hd]
      rfl
    next b rest hd =>
      have hne : l.dropWhile (· ≠ slash) ≠ [] := by
        rw [hd]
        exact List.cons_ne_nil b rest
      have hb : (l.dropWhile (· ≠ slash)).head hne = slash := by
        simpa using List.head_dropWhile_not (fun x => decide (x ≠ slash)) hne
      have hbs : b = slash := by simpa only [hd, List.head_cons] using hb
      rw [hd, hbs, components_slash]
      rfl
  rw [hrest]
  conv => lhs; unfold components; rw [splitOn_eq, List.filter_cons]
  by_cases hc : first slash l = [] ∨ first slash l = dot
  · rw [if_pos hc, if_neg (by simpa [or_iff_not_imp_left] using hc), List.nil_append]
  · rw [if_neg hc, if_pos (by simpa using hc), List.singleton_append]

/-- Each turn takes a byte. -/
theorem rest_lt {b : UInt8} {l : Name} :
    (((b :: l).dropWhile (· = slash)).dropWhile (· ≠ slash)).length < (b :: l).length := by
  rw [List.length_cons, Nat.lt_succ_iff]
  by_cases hb : b = slash
  · rw [List.dropWhile_cons_of_pos (by simpa using hb)]
    exact ((List.dropWhile_sublist _).trans (List.dropWhile_sublist _)).length_le
  · rw [List.dropWhile_cons_of_neg (by simpa using hb), List.dropWhile_cons_of_pos (by simpa using hb)]
    exact (List.dropWhile_sublist _).length_le

/-- The loop appends the components, unless one is `..`. -/
theorem appendComponents_eq {turns : Nat} {bytes : Name} {cs : List Name} (hcs : Whole slash cs)
    (h : bytes.length ≤ turns) : appendComponents turns bytes ([slash].intercalate cs) =
      if dotdot ∈ components bytes then .error (-1) else .ok ([slash].intercalate (cs ++ components bytes)) := by
  induction turns generalizing bytes cs with
  | zero =>
    rw [List.eq_nil_of_length_eq_zero (Nat.le_zero.1 h)]
    show Except.ok _ = Except.ok ([slash].intercalate (cs ++ []))
    rw [List.append_nil]
  | succ turns ih =>
    cases bytes with
    | nil =>
      show Except.ok _ = Except.ok ([slash].intercalate (cs ++ []))
      rw [List.append_nil]
    | cons b l =>
      have hrest := Nat.le_of_lt_succ (Nat.lt_of_lt_of_le rest_lt h)
      unfold appendComponents
      rw [if_neg (List.cons_ne_nil b l), ← components_skip (b :: l), components_step]
      generalize (b :: l).dropWhile (· = slash) = start at hrest ⊢
      show (if first slash start = [] ∨ first slash start = dot then _ else
        if first slash start = dotdot then _ else _) = _
      by_cases hskip : first slash start = [] ∨ first slash start = dot
      · rw [if_pos hskip, if_pos hskip, ih hcs hrest]
        rfl
      rw [if_neg hskip, if_neg hskip]
      by_cases hparent : first slash start = dotdot
      · rw [if_pos hparent, if_pos (by simp [hparent])]
      rw [if_neg hparent]
      have hone : Whole slash [first slash start] := by
        intro c hc
        obtain rfl := List.mem_singleton.1 hc
        exact ⟨fun hnil => hskip (.inl hnil), not_mem_first start⟩
      have hjoin : (if [slash].intercalate cs = [] then [] else [slash].intercalate cs ++ [slash]) ++ first slash start =
          [slash].intercalate (cs ++ [first slash start]) := by
        rw [join_append, List.intercalate_singleton]
        by_cases hcs' : cs = [] <;> simp [hcs', join_eq_nil hcs]
      refine (congrArg (appendComponents turns _) hjoin).trans ?_
      rw [ih (hcs.append hone) hrest, List.append_assoc]
      have hmem : dotdot ∈ [first slash start] ++ components (start.dropWhile (· ≠ slash)) ↔
          dotdot ∈ components (start.dropWhile (· ≠ slash)) := by
        simp [Ne.symm hparent]
      simp only [hmem]

/-- A joined list has the components that it was joined from. -/
theorem components_join {names : List Name} (hwhole : Whole slash names) (hdot : ∀ c ∈ names, c ≠ dot) :
    components ([slash].intercalate names) = names := by
  unfold components
  rw [splitOn_join hwhole]
  split
  next hnil =>
    rw [hnil]
    rfl
  · exact List.filter_eq_self.2 fun c hc => decide_eq_true ⟨(hwhole c hc).1, hdot c hc⟩

/-- No component is `.`. -/
theorem components_ne_dot {bytes c : Name} (hc : c ∈ components bytes) : c ≠ dot :=
  (of_decide_eq_true (List.mem_filter.1 hc).2).2

/-- Leaving out empty components and `.` leaves every `..`. -/
theorem dotdot_mem_components (bytes : Name) : dotdot ∈ components bytes ↔ dotdot ∈ bytes.splitOn slash := by
  unfold components
  rw [List.mem_filter]
  exact and_iff_left (by decide)

/-! ## What `path` gives -/

/-- What `path` gives of a string. -/
structure PathInfo.Names (p : PathInfo) (t : Table) (dirfd : Int) (bytes : Name) : Prop where
  trailing_eq : p.trailing = (bytes.getLast? == some slash)
  terminalDot_eq : p.terminalDot = Files.terminalDot bytes
  no_parent : dotdot ∉ bytes.splitOn slash
  relative_eq : p.relative = [slash].intercalate (components bytes)
  /-- The path of the directory it starts at goes before it. -/
  canonical_eq : ∃ base, t.origin dirfd bytes = .ok (p.directory, base) ∧ p.canonical = canonicalOf base p.relative
  length_lt : p.canonical.length < 4096

theorem normalize_eq (t : Table) (dirfd : Int) {bytes : Name} (hne : bytes ≠ []) :
    t.normalize dirfd bytes = (do
      let (directory, base) ← t.origin dirfd bytes
      if dotdot ∈ components bytes then .error (-1)
      else
        let relative := [slash].intercalate (components bytes)
        if 4096 ≤ (canonicalOf base relative).length then .error (-36)
        else .ok {
          relative, canonical := canonicalOf base relative, directory
          trailing := bytes.getLast? == some slash
          terminalDot := terminalDot bytes }) := by
  unfold Table.normalize
  rw [if_neg hne]
  cases t.origin dirfd bytes with
  | error error => rfl
  | ok origin =>
    obtain ⟨directory, base⟩ := origin
    have hwhole : Whole slash [] := nofun
    have hloop := appendComponents_eq hwhole (Nat.le_refl bytes.length)
    rw [List.nil_append, List.intercalate_nil] at hloop
    show (match appendComponents bytes.length bytes [] with
      | .error error => Except.error error
      | .ok relative => _) = _
    rw [hloop]
    by_cases hparent : dotdot ∈ components bytes
    · simp only [if_pos hparent]
      rfl
    · simp only [if_neg hparent]
      rfl

/-- A normalized path names what its bytes do. -/
theorem normalize_names {t : Table} {dirfd : Int} {bytes : Name} {p : PathInfo}
    (h : t.normalize dirfd bytes = .ok p) : p.Names t dirfd bytes := by
  have hne : bytes ≠ [] := by
    intro hnil
    rw [hnil] at h
    cases h
  rw [normalize_eq t dirfd hne] at h
  cases horigin : t.origin dirfd bytes with
  | error error =>
    rw [horigin] at h
    cases h
  | ok origin =>
    rw [horigin] at h
    change (if _ then _ else if _ then _ else _) = _ at h
    split at h
    · cases h
    next hparent =>
    split at h
    · cases h
    next hlength =>
      obtain rfl := Except.ok.inj h
      exact ⟨rfl, rfl, mt (dotdot_mem_components bytes).2 hparent, rfl, ⟨origin.2, horigin, rfl⟩,
        Nat.lt_of_not_le hlength⟩

/-! ## Spellings of one path -/

/-- What says which file a path names and how it is classified. -/
def PathInfo.named (p : PathInfo) : Name × Name × Option Handle := (p.relative, p.canonical, p.directory)

/-- A path with the same start and the same components is the same. -/
theorem normalize_congr {t : Table} {dirfd : Int} {bytes bytes' : Name} (hne : bytes ≠ []) (hne' : bytes' ≠ [])
    (hhead : bytes'.head? = bytes.head?) (hcomponents : components bytes' = components bytes) :
    (t.normalize dirfd bytes').map PathInfo.named = (t.normalize dirfd bytes).map PathInfo.named := by
  have horigin : t.origin dirfd bytes' = t.origin dirfd bytes := by
    unfold Table.origin
    rw [hhead]
  rw [normalize_eq t dirfd hne, normalize_eq t dirfd hne', horigin, hcomponents]
  cases t.origin dirfd bytes with
  | error error => rfl
  | ok origin =>
    show ((if _ then _ else if _ then _ else _) : Except Int PathInfo).map _ =
      ((if _ then _ else if _ then _ else _) : Except Int PathInfo).map _
    split
    · rfl
    split
    · rfl
    · rfl

/-- One more slash, or `./`, behind a slash. -/
theorem normalize_doubled (t : Table) (dirfd : Int) (u v : Name) {extra : Name}
    (hextra : extra = [] ∨ extra = dot) :
    (t.normalize dirfd (u ++ slash :: (extra ++ slash :: v))).map PathInfo.named =
      (t.normalize dirfd (u ++ slash :: v)).map PathInfo.named := by
  refine normalize_congr (by simp) (by simp) (by cases u <;> rfl) ?_
  rw [components_append, components_append, components_append]
  have hnone : components extra = [] := by
    rcases hextra with rfl | rfl
    · rfl
    · rfl
  rw [hnone, List.nil_append]

/-! ## Reading the string -/

/-- The guest has the string at the address. -/
structure StringAt (g : Guest) (address : Nat) (bytes : Name) : Prop where
  bytes_eq : g.range address bytes.length = bytes
  no_nul : 0 ∉ bytes
  ends : g.byte (address + bytes.length) = 0

/-- A string ends at its first NUL. -/
theorem StringAt.unique {g : Guest} {address : Nat} {u v : Name} (hu : StringAt g address u)
    (hv : StringAt g address v) :
    u = v := by
  have hle : ∀ {u v : Name}, StringAt g address u → StringAt g address v → u.length ≤ v.length := by
    intro u v hu hv
    by_contra hlt
    refine hu.no_nul ?_
    rw [← hu.bytes_eq, ← hv.ends]
    exact List.mem_map_of_mem (List.mem_range.2 (Nat.lt_of_not_le hlt))
  rw [← hu.bytes_eq, ← hv.bytes_eq, Nat.le_antisymm (hle hu hv) (hle hv hu)]

theorem range_succ (g : Guest) (address n : Nat) :
    g.range address (n + 1) = g.range address n ++ [g.byte (address + n)] := by
  unfold Guest.range
  rw [List.range_succ, List.map_append]
  rfl

theorem read_byte (s : Space) (g : Guest) (address : Nat) : (s.read g address 1).2.byte = g.byte ∧
    ∀ read, (s.read g address 1).1 = .ok read → read = [g.byte address] := by
  unfold Space.read
  split
  · exact ⟨rfl, nofun⟩
  split
  · exact ⟨rfl, nofun⟩
  split
  next hzero => cases hzero
  · refine ⟨rfl, fun read h => ?_⟩
    rw [← Except.ok.inj h]
    show g.range address (0 + 1) = _
    rw [range_succ]
    rfl

/-- A string is read up to its first zero byte, if there is room. -/
theorem readString_spec {s : Space} {address room : Nat} {bytes : Name} {g g' : Guest} {out : Except Int Name}
    (h : readString s address room bytes g = (out, g')) (hbytes : g.range address bytes.length = bytes)
    (hnul : 0 ∉ bytes) :
    g'.byte = g.byte ∧ ∀ string, out = .ok string →
      StringAt g address string ∧ string.length < bytes.length + room := by
  induction room generalizing bytes g with
  | zero =>
    obtain ⟨rfl, rfl⟩ := Prod.mk.inj h
    exact ⟨rfl, nofun⟩
  | succ room ih =>
    unfold readString at h
    split at h
    · obtain ⟨rfl, rfl⟩ := Prod.mk.inj h
      exact ⟨rfl, nofun⟩
    obtain ⟨hsame, hread⟩ := read_byte s g (address + bytes.length)
    split at h
    next error g₁ heq =>
      rw [heq] at hsame
      obtain ⟨rfl, rfl⟩ := Prod.mk.inj h
      exact ⟨hsame, nofun⟩
    next read g₁ heq =>
      rw [heq] at hsame hread
      rw [hread read rfl] at h
      change (if g.byte (address + bytes.length) = 0 then _ else _) = _ at h
      split at h
      next hzero =>
        obtain ⟨rfl, rfl⟩ := Prod.mk.inj h
        refine ⟨hsame, fun string hstring => ?_⟩
        obtain rfl := Except.ok.inj hstring
        exact ⟨⟨hbytes, hnul, hzero⟩, by omega⟩
      next hbyte =>
        have hrange : ∀ n, g₁.range address n = g.range address n := by
          intro n
          unfold Guest.range
          rw [hsame]
        obtain ⟨hkept, hstring⟩ := ih h (by
          rw [hrange, List.length_append, List.length_singleton, range_succ, hbytes]
          rfl) (by
          rw [List.mem_append, List.mem_singleton, not_or]
          exact ⟨hnul, Ne.symm hbyte⟩)
        refine ⟨hkept.trans hsame, fun string hout => ?_⟩
        obtain ⟨⟨hb, hn, he⟩, hlt⟩ := hstring string hout
        rw [List.length_append, List.length_singleton] at hlt
        refine ⟨⟨?_, hn, ?_⟩, by omega⟩
        · rw [← hrange]
          exact hb
        · rw [← hsame]
          exact he

/-- `path` goes on with the string that the guest has at the address. -/
theorem path_string {t : Table} {s : Space} {g : Guest} {address : Nat} {dirfd : Int} {p : PathInfo}
    (h : (t.path s g address dirfd).1 = .ok p) :
    ∃ bytes, StringAt g address bytes ∧ bytes.length < 4096 ∧ t.normalize dirfd bytes = .ok p := by
  unfold Table.path at h
  split at h
  · cases h
  next bytes g' heq =>
    obtain ⟨_, hstring⟩ := readString_spec heq rfl List.not_mem_nil
    obtain ⟨hat, hlt⟩ := hstring bytes rfl
    exact ⟨bytes, hat, by simpa using hlt, h⟩

/-! ## Classification by components -/

/-- A name is below a tree if the tree is its first component. -/
theorem below_iff {name tree : Name} (htree : slash ∉ tree) : below name tree = true ↔ first slash name = tree := by
  rw [first_eq_iff htree]
  simp [below]

/-- What is at or below a tree in the root has its name in front. -/
theorem below_join {cs : List Name} {tree : Name} (hcs : Whole slash cs) (htree : slash ∉ tree) :
    below ([slash].intercalate cs) tree = true ↔ cs.headD [] = tree := by
  rw [below_iff htree, first_join hcs]

end Artbox.Files
