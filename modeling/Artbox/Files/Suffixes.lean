import Artbox.Files.Confinement

/-!
# Suffixes that ask for a directory

A path that ends in `/` or in the component `.` stands for a directory. Normalization drops both, and
`path` keeps a flag for each. unlinkat goes by the two flags; faccessat, newfstatat and openat go by
`trailing` alone, so that a final `.` passes behind a file or a device, and openat even makes a file
before it (`Slips`). Everywhere else they succeed only on directories (`suffix_kept_iff`), with any
provider whose answers are those of a tree (`Provider.Shows`).
-/

namespace Artbox.Files

open Segments
open Vm (Space Guest)

/-- What a tree of files has under a name. -/
inductive Entry
  | directory
  | file
deriving DecidableEq, Repr

/-- The answers of a provider are those of a tree; errors are negative. -/
structure Provider.Shows {σ : Type} (p : Provider σ) (tree : σ → List Name → Option Entry) : Prop where
  /-- Names are looked up in directories. -/
  open_above : ∀ {dir name flags mode x file}, (p.openFile dir name flags mode x).1 = .ok file →
    tree x (location dir) = some .directory
  /-- O_DIRECTORY -/
  open_directory : ∀ {dir name flags mode x file}, (p.openFile dir name flags mode x).1 = .ok file →
    flags &&& 0x4000 ≠ 0 → tree x (locate dir name) = some .directory
  /-- Without O_CREAT the file is there. -/
  open_there : ∀ {dir name flags mode x file}, (p.openFile dir name flags mode x).1 = .ok file →
    flags &&& 0x40 = 0 → tree x (locate dir name) ≠ none
  open_keeps : ∀ {dir name flags mode x}, flags &&& (3 ||| 0x40 ||| 0x200) = 0 →
    tree (p.openFile dir name flags mode x).2 = tree x
  open_error : ∀ {dir name flags mode x error}, (p.openFile dir name flags mode x).1 = .error error → error < 0
  close_keeps : ∀ {handle x}, tree (p.closeFile handle x).2 = tree x
  close_error : ∀ {handle x}, (p.closeFile handle x).1 ≤ 0
  stat_above : ∀ {dir name x info}, (p.statAt dir name x).1 = .ok info → tree x (location dir) = some .directory
  stat_type : ∀ {dir name x info}, (p.statAt dir name x).1 = .ok info →
    tree x (locate dir name) = some (if info.isDirectory then .directory else .file)
  stat_error : ∀ {dir name x error}, (p.statAt dir name x).1 = .error error → error < 0
  statFile_error : ∀ {handle x error}, (p.statFile handle x).1 = .error error → error < 0

/-- The path ends in `/`, or its last component is `.`. -/
def Suffixed (bytes : Name) : Prop :=
  (bytes.splitOn slash).getLast? = some [] ∨ (bytes.splitOn slash).getLast? = some dot

/-- What the components of a path name is a directory. -/
def PathInfo.NamesDirectory (p : PathInfo) (view : List Name → Option Entry) : Prop :=
  if device p.canonical = 0 then view (location p.directory ++ components p.relative) = some .directory
  else virtualDirectory (device p.canonical) = true

/-- faccessat, openat or newfstatat of a path, with any flags. -/
def Call.LooksUp (c : Call) (dirfd : Int) (address : Nat) : Prop :=
  match c with
  | .faccessat d a _ => d = dirfd ∧ a = address
  | .openat _ d a _ _ => d = dirfd ∧ a = address
  | .newfstatat d a _ _ => d = dirfd ∧ a = address
  | _ => False

/-- The calls on the path at an address succeed with a suffix only if it names a directory, whatever
the provider is that shows the files. -/
def KeepsSuffix (t : Table) (space : Space) (guest : Guest) (address : Nat) (dirfd : Int)
    (view : List Name → Option Entry) : Prop :=
  ∀ (σ : Type) (h : Host σ) (tree : σ → List Name → Option Entry) (files : σ) (log : List Request) (c : Call),
    h.files.Shows tree → tree files = view → c.LooksUp dirfd address →
      0 ≤ (({ table := t, files, space, guest, log } : System σ).call h c).1 →
        (∃ bytes, StringAt guest address bytes ∧ Suffixed bytes) →
          ∃ p, (t.path space guest address dirfd).1 = .ok p ∧ p.NamesDirectory view

/-- The path has no slash behind its final `.`, and before it a device that is no directory, or a file,
or a name that openat can make a file under. -/
structure Slips (t : Table) (space : Space) (guest : Guest) (address : Nat) (dirfd : Int)
    (view : List Name → Option Entry) (p : PathInfo) : Prop where
  path_ok : (t.path space guest address dirfd).1 = .ok p
  final_dot : ∃ bytes, StringAt guest address bytes ∧ (bytes.splitOn slash).getLast? = some dot
  binder : device p.canonical = 9 → t.binder = true
  commandline : device p.canonical = 6 → t.commandline ≠ []
  passes :
    if device p.canonical ≠ 0 then virtualDirectory (device p.canonical) = false
    else
      let names := components p.relative
      ¬ Virtual p.canonical ∧ t.files = true ∧ names ≠ [] ∧
        (∀ k < names.length, view (location p.directory ++ names.take k) = some .directory) ∧
        (view (location p.directory ++ names) = some .file ∨
          view (location p.directory ++ names) = none ∧ below p.canonical system = false ∧
            ∃ d ∈ t.descriptors, d.kind = 0)

namespace System

variable {σ : Type} {h : Host σ} {p : Provider σ} {s s' : System σ} {tree : σ → List Name → Option Entry}

/-! ## The walk over a tree -/

/-- A callback that opened a file. -/
theorem openFile_ok {dir : Option Handle} {name : Name} {flags mode : BitVec 32} {handle : Handle}
    (h : s.openFile p dir name flags mode = (.ok handle, s')) :
    (p.openFile dir name flags mode s.files).1 = .ok handle.file ∧
      s'.files = (p.openFile dir name flags mode s.files).2 ∧ location (some handle) = locate dir name := by
  have hat : handle.location = locate dir name := openFile_location (congrArg Prod.fst h)
  obtain ⟨hanswer, rfl⟩ := Prod.mk.inj h
  refine ⟨?_, rfl, hat⟩
  cases hfile : (p.openFile dir name flags mode s.files).1 with
  | error error =>
    rw [hfile] at hanswer
    cases hanswer
  | ok file =>
    rw [hfile] at hanswer
    rw [← Except.ok.inj hanswer]

/-- What the provider refuses to open has a negative errno. -/
theorem openFile_error (hp : p.Shows tree) {dir : Option Handle} {name : Name} {flags mode : BitVec 32} {error : Int}
    (h : (s.openFile p dir name flags mode).1 = .error error) : error < 0 := by
  change Except.map _ (p.openFile dir name flags mode s.files).1 = _ at h
  cases hfile : (p.openFile dir name flags mode s.files).1 with
  | error e =>
    rw [hfile] at h
    rw [← Except.error.inj h]
    exact hp.open_error hfile
  | ok file =>
    rw [hfile] at h
    cases h

/-- The walk from `current` fails with an error, or comes through directories and changes nothing. -/
structure Climbs (tree : σ → List Name → Option Entry) (parts : List Name) (current : Option Handle) (s : System σ)
    (r : Except Int (Option Handle × Name) × Option Handle × System σ) : Prop where
  error_neg : ∀ error, r.1 = .error error → error < 0
  keeps : ∀ q, r.1 = .ok q → tree r.2.2.files = tree s.files
  ends : ∀ q, r.1 = .ok q → location q.1 = location current ++ parts.dropLast
  above : ∀ q, r.1 = .ok q → ∀ k, k + 1 < parts.length →
    tree s.files (location current ++ parts.take k) = some .directory

/-- One directory further. -/
theorem Climbs.step (hp : p.Shows tree) {component after : Name} {rest : List Name} {current : Option Handle}
    {next : Handle} {s₁ s₂ : System σ} {r : Except Int (Option Handle × Name) × Option Handle × System σ}
    (hdot : component ≠ dot) (hopen : s.openFile p current component 0x84000 0 = (.ok next, s₁))
    (hkeeps : tree s₂.files = tree s₁.files) (hr : Climbs tree (after :: rest) (some next) s₂ r) :
    Climbs tree (component :: after :: rest) current s r := by
  obtain ⟨hfile, hfiles, hat⟩ := openFile_ok hopen
  have hnext : location (some next) = location current ++ [component] := by
    rw [hat]
    unfold locate
    rw [if_neg hdot]
    rfl
  have hsame : tree s₂.files = tree s.files := by
    rw [hkeeps, hfiles]
    exact hp.open_keeps (by decide)
  refine ⟨hr.error_neg, fun q hq => (hr.keeps q hq).trans hsame, fun q hq => ?_, fun q hq k hk => ?_⟩
  · rw [hr.ends q hq, hnext, List.append_assoc]
    rfl
  · cases k with
    | zero =>
      rw [List.take_zero, List.append_nil]
      exact hp.open_above hfile
    | succ k =>
      have hbelow := hr.above q hq k (Nat.lt_of_succ_lt_succ hk)
      rw [hsame, hnext, List.append_assoc] at hbelow
      exact hbelow

/-- Resolving components climbs through directories or fails. -/
theorem resolve_climbs (hp : p.Shows tree) {parts : List Name} (current owned : Option Handle) (hparts : Parts parts) :
    Climbs tree parts current s (resolve p parts current owned s) := by
  fun_induction resolve p parts current owned s with
  | case1 current owned s =>
    refine ⟨nofun, fun _ _ => rfl, fun q hq => ?_, fun _ _ k hk => absurd hk (Nat.not_lt_zero _)⟩
    rw [← Except.ok.inj hq]
    exact (List.append_nil _).symm
  | case2 leaf current owned s =>
    refine ⟨nofun, fun _ _ => rfl, fun q hq => ?_, fun _ _ k hk => absurd hk (by simp)⟩
    rw [← Except.ok.inj hq]
    exact (List.append_nil _).symm
  | case3 component after rest current owned s error s₁ hopen =>
    refine ⟨fun e he => ?_, nofun, nofun, nofun⟩
    rw [← Except.error.inj he]
    exact openFile_error hp (congrArg Prod.fst hopen)
  | case4 component after rest current s next s₁ hopen ih =>
    have hrest : Parts (after :: rest) := fun c hc => hparts c (by simp [hc])
    exact (ih hrest).step hp (hparts component (by simp)).2 hopen rfl
  | case5 component after rest current owned s next s₁ hopen howned closed hclosed =>
    refine ⟨fun e he => ?_, nofun, nofun, nofun⟩
    rw [← Except.error.inj he]
    exact lt_of_le_of_ne hp.close_error hclosed
  | case6 component after rest current owned s next s₁ hopen howned closed hclosed ih =>
    have hrest : Parts (after :: rest) := fun c hc => hparts c (by simp [hc])
    exact (ih hrest).step hp (hparts component (by simp)).2 hopen hp.close_keeps

/-- A path that is walked fails with an error, or the call acts at its place in the tree it started with. -/
theorem walk_shows {α : Type} (hp : p.Shows tree) {relative : Name} {names : List Name} (directory : Option Handle)
    (act : Option Handle → Name → System σ → Except Int α × System σ) (hwhole : Whole slash names)
    (hdot : ∀ c ∈ names, c ≠ dot) (hrelative : relative = join names)
    (hact : ∀ current leaf s₁ error, (act current leaf s₁).1 = .error error → error < 0) :
    (∀ error, (s.walk p directory relative act).1 = .error error → error < 0) ∧
      ∀ a, (s.walk p directory relative act).1 = .ok a → ∃ current leaf s₁,
        (act current leaf s₁).1 = .ok a ∧ tree s₁.files = tree s.files ∧
          locate current leaf = location directory ++ names ∧ location current = location directory ++ names.dropLast ∧
            ∀ k, k + 1 < names.length → tree s.files (location directory ++ names.take k) = some .directory := by
  obtain ⟨hparts, hkept, _⟩ := parts_relative hwhole hdot (.inl rfl)
  have hsplit : relative.splitOn slash = if names = [] then [[]] else names := by
    rw [hrelative]
    exact splitOn_join hwhole
  rw [List.append_nil, ← hrelative] at hparts hkept
  have hclimbs := resolve_climbs (s := s) hp directory none hparts
  have hplace := (resolve_asks (P := fun _ => True) (p := p) (s := s) directory none hparts
    fun _ _ _ => trivial).2
  rw [hkept] at hplace
  unfold walk
  split
  next error owned s₁ heq =>
    rw [heq] at hclimbs
    refine ⟨fun e he => ?_, nofun⟩
    exact hclimbs.error_neg e (congrArg Except.error (Except.error.inj he))
  next current leaf owned s₁ heq =>
    rw [heq] at hclimbs hplace
    refine ⟨hact current leaf s₁, fun a ha => ?_⟩
    refine ⟨current, leaf, s₁, ha, hclimbs.keeps _ rfl, hplace current leaf rfl, ?_, ?_⟩
    · have hends := hclimbs.ends _ rfl
      rw [hsplit] at hends
      by_cases hnil : names = []
      · rw [if_pos hnil] at hends
        rw [hnil]
        exact hends
      · rw [if_neg hnil] at hends
        exact hends
    · intro k hk
      have habove := hclimbs.above _ rfl k
      rw [hsplit, if_neg (by rintro rfl; cases hk)] at habove
      exact habove hk

/-! ## What a call that succeeds has seen -/

/-- The place of a path is reached through directories. -/
structure Reached (view : List Name → Option Entry) (p : PathInfo) : Prop where
  above : ∀ k < (components p.relative).length,
    view (location p.directory ++ (components p.relative).take k) = some .directory
  root : components p.relative = [] → view (location p.directory) = some .directory

/-- A path whose components above the last are directories is reached. -/
theorem reached_of {view : List Name → Option Entry} {p : PathInfo}
    (habove : ∀ k, k + 1 < (components p.relative).length →
      view (location p.directory ++ (components p.relative).take k) = some .directory)
    (hlast : view (location p.directory ++ (components p.relative).dropLast) = some .directory) : Reached view p := by
  refine ⟨fun k hk => ?_, fun hnil => ?_⟩
  · by_cases hend : k + 1 < (components p.relative).length
    · exact habove k hend
    · rw [List.dropLast_eq_take] at hlast
      rw [show k = (components p.relative).length - 1 by omega]
      exact hlast
  · rw [hnil] at hlast
    simpa using hlast

/-- The relative path is joined from components. -/
theorem relative_join {t : Table} {q : PathInfo} {dirfd : Int} {bytes : Name} (h : q.Names t dirfd bytes) :
    Whole slash (components q.relative) ∧ (∀ c ∈ components q.relative, c ≠ dot) ∧
      q.relative = join (components q.relative) := by
  have hsame : components q.relative = components bytes := by
    rw [h.relative_eq]
    exact components_join (components_whole bytes) fun c => components_ne_dot
  refine ⟨components_whole _, fun c => components_ne_dot, ?_⟩
  rw [hsame]
  exact h.relative_eq

/-- A lookup that succeeds has found what the tree shows under the path. -/
theorem lookup_shows (hp : h.files.Shows tree) {t : Table} {q : PathInfo} {dirfd : Int} {bytes : Name}
    (hq : q.Names t dirfd bytes) :
    (∀ error, (s.lookup h 0 q).1 = .error error → error < 0) ∧
      ∀ info, (s.lookup h 0 q).1 = .ok info → Reached (tree s.files) q ∧
        tree s.files (location q.directory ++ components q.relative) ≠ none ∧
          (q.trailing = true → tree s.files (location q.directory ++ components q.relative) = some .directory) := by
  obtain ⟨hwhole, hdot, hrelative⟩ := relative_join hq
  obtain ⟨herror, hok⟩ := walk_shows (s := s) hp q.directory
    (fun current leaf s => s.statAt h.files current leaf) hwhole hdot hrelative
    fun current leaf s₁ error => hp.stat_error
  unfold System.lookup
  rw [if_neg (by decide)]
  split
  next error s₁ heq =>
    rw [heq] at herror
    exact ⟨fun e he => herror e (congrArg Except.error (Except.error.inj he)), nofun⟩
  next info s₁ heq =>
    rw [heq] at hok
    obtain ⟨current, leaf, s₂, hstat, hsame, hplace, habove, hthrough⟩ := hok info rfl
    have hreached : Reached (tree s.files) q := by
      refine reached_of hthrough ?_
      rw [← habove, ← hsame]
      exact hp.stat_above hstat
    have htype := hp.stat_type hstat
    rw [hsame, hplace] at htype
    split
    · refine ⟨fun e he => ?_, nofun⟩
      rw [← Except.error.inj he]
      decide
    next hsuffix =>
      refine ⟨nofun, fun _ _ => ⟨hreached, ?_, fun htrailing => ?_⟩⟩
      · rw [htype]
        exact Option.some_ne_none _
      · have hdirectory : info.isDirectory = true := by
          by_contra hnot
          exact hsuffix ⟨htrailing, hnot⟩
        rw [htype, if_pos hdirectory]

/-- The directory of an opened leaf is one, and the leaf is in the tree unless it may be made. -/
theorem openLeaf_shows (hp : h.files.Shows tree) {flags mode : BitVec 32} {current : Option Handle} {leaf : Name} :
    (∀ error, (openLeaf h flags mode current leaf s).1 = .error error → error < 0) ∧
      ∀ r, (openLeaf h flags mode current leaf s).1 = .ok r →
        tree s.files (location current) = some .directory ∧
          (flags &&& 0x4000 ≠ 0 → tree s.files (locate current leaf) = some .directory) ∧
            (flags &&& 0x40 = 0 → tree s.files (locate current leaf) ≠ none) := by
  unfold openLeaf
  split
  next error s₁ heq =>
    refine ⟨fun e he => ?_, nofun⟩
    rw [← Except.error.inj he]
    exact openFile_error hp (congrArg Prod.fst heq)
  next handle s₁ heq =>
    obtain ⟨hfile, _, _⟩ := openFile_ok heq
    split
    next error s₂ heq' =>
      refine ⟨fun e he => ?_, nofun⟩
      rw [← Except.error.inj he]
      exact hp.statFile_error (congrArg Prod.fst heq')
    · exact ⟨nofun, fun _ _ => ⟨hp.open_above hfile, hp.open_directory hfile, hp.open_there hfile⟩⟩

/-- What the tree has where a call succeeded. -/
structure Succeeds (t : Table) (view : List Name → Option Entry) (p : PathInfo) : Prop where
  classified : t.classify p = .ok (device p.canonical)
  reached : device p.canonical = 0 → Reached view p
  trailing : device p.canonical = 0 → p.trailing = true →
    view (location p.directory ++ components p.relative) = some .directory
  missing : device p.canonical = 0 → view (location p.directory ++ components p.relative) = none →
    below p.canonical system = false ∧ ∃ d ∈ t.descriptors, d.kind = 0

/-- A path that is refused by its kind has a negative errno. -/
theorem classify_error {t : Table} {q : PathInfo} {error : Int} (hc : t.classify q = .error error) : error < 0 := by
  unfold Table.classify at hc
  dsimp only at hc
  repeat' split at hc
  all_goals cases hc
  all_goals decide

/-- A path that cannot be read has a negative errno. -/
theorem readString_error {space : Space} {address room : Nat} {bytes : Name} {g g' : Guest} {error : Int}
    (hr : readString space address room bytes g = (.error error, g')) : error < 0 := by
  induction room generalizing bytes g with
  | zero =>
    rw [← Except.error.inj (Prod.mk.inj hr).1]
    decide
  | succ room ih =>
    unfold readString at hr
    split at hr
    · rw [← Except.error.inj (Prod.mk.inj hr).1]
      decide
    split at hr
    · rw [← Except.error.inj (Prod.mk.inj hr).1]
      decide
    · dsimp only at hr
      split at hr
      · cases (Prod.mk.inj hr).1
      · exact ih hr

/-- A descriptor that names no directory has a negative errno. -/
theorem origin_error {t : Table} {dirfd : Int} {bytes : Name} {error : Int}
    (hr : t.origin dirfd bytes = .error error) : error < 0 := by
  unfold Table.origin at hr
  split at hr
  · cases hr
  split at hr
  · rw [← Except.error.inj hr]
    decide
  split at hr
  · cases hr
  · rw [← Except.error.inj hr]
    decide

/-- Every failure before the lookup has a negative errno. -/
theorem path_error {t : Table} {space : Space} {g : Guest} {address : Nat} {dirfd error : Int}
    (hr : (t.path space g address dirfd).1 = .error error) : error < 0 := by
  unfold Table.path at hr
  split at hr
  next e g' heq =>
    rw [← Except.error.inj hr]
    exact readString_error heq
  next bytes g' heq =>
    by_cases hne : bytes = []
    · rw [hne] at hr
      rw [← Except.error.inj hr]
      decide
    · rw [normalize_eq t dirfd hne] at hr
      cases horigin : t.origin dirfd bytes with
      | error e =>
        rw [horigin] at hr
        rw [← Except.error.inj hr]
        exact origin_error horigin
      | ok origin =>
        rw [horigin] at hr
        change (if _ then _ else if _ then _ else _) = _ at hr
        split at hr
        · rw [← Except.error.inj hr]
          decide
        split at hr
        · rw [← Except.error.inj hr]
          decide
        · cases hr

/-- A path that is read leaves the table and the files. -/
theorem path_read {address : Nat} {dirfd : Int} {q : PathInfo} (heq : s.path address dirfd = (.ok q, s')) :
    (s.table.path s.space s.guest address dirfd).1 = .ok q ∧ (∃ bytes, q.Names s'.table dirfd bytes) ∧
      s'.table = s.table ∧ s'.files = s.files := by
  have hq : (s.table.path s.space s.guest address dirfd).1 = .ok q := congrArg Prod.fst heq
  obtain ⟨bytes, _, _, hnormalize⟩ := path_string hq
  obtain ⟨_, rfl⟩ := Prod.mk.inj heq
  exact ⟨hq, ⟨bytes, normalize_names hnormalize⟩, rfl, rfl⟩

/-- A call that looks the path up. -/
theorem lookup_succeeds (hp : h.files.Shows tree) {q : PathInfo} {dirfd : Int} {bytes : Name}
    (hq : q.Names s.table dirfd bytes) {kind : Nat} (hkind : s.table.classify q = .ok kind)
    {info : FileInfo} (hlook : (s.lookup h kind q).1 = .ok info) : Succeeds s.table (tree s.files) q := by
  obtain ⟨hdevice, _⟩ := classify_ok hkind
  rw [hdevice] at hkind hlook
  have hshows : device q.canonical = 0 → Reached (tree s.files) q ∧
      tree s.files (location q.directory ++ components q.relative) ≠ none ∧
        (q.trailing = true → tree s.files (location q.directory ++ components q.relative) = some .directory) := by
    intro hzero
    rw [hzero] at hlook
    exact (lookup_shows hp hq).2 info hlook
  exact ⟨hkind, fun hz => (hshows hz).1, fun hz => (hshows hz).2.2, fun hz hnone => absurd hnone (hshows hz).2.1⟩

/-- Every failure of a lookup has a negative errno. -/
theorem lookup_error (hp : h.files.Shows tree) {q : PathInfo} {dirfd : Int} {bytes : Name}
    (hq : q.Names s.table dirfd bytes) {kind : Nat} {error : Int} (hlook : (s.lookup h kind q).1 = .error error) :
    error < 0 := by
  by_cases hzero : kind = 0
  · rw [hzero] at hlook
    exact (lookup_shows hp hq).1 error hlook
  · unfold System.lookup at hlook
    rw [if_pos hzero] at hlook
    cases hlook

/-- Where `faccessat` succeeds the tree has the path. -/
theorem faccessat_succeeds (hp : h.files.Shows tree) {dirfd : Int} {address : Nat} {flags : BitVec 32}
    (hpos : 0 ≤ (s.faccessat h dirfd address flags).1) :
    ∃ q, (s.table.path s.space s.guest address dirfd).1 = .ok q ∧ Succeeds s.table (tree s.files) q := by
  unfold System.faccessat at hpos
  split at hpos
  · change (0 : Int) ≤ -22 at hpos
    omega
  split at hpos
  next error s₁ heq => exact absurd (path_error (congrArg Prod.fst heq)) (Int.not_lt.2 hpos)
  next q s₁ heq =>
  obtain ⟨hpath, ⟨bytes, hq⟩, htable, hfiles⟩ := path_read heq
  refine ⟨q, hpath, ?_⟩
  split at hpos
  next error hkind => exact absurd (classify_error hkind) (Int.not_lt.2 hpos)
  next kind hkind =>
  split at hpos
  next error s₂ hlook => exact absurd (lookup_error hp hq (congrArg Prod.fst hlook)) (Int.not_lt.2 hpos)
  next info s₂ hlook =>
    rw [← htable, ← hfiles]
    exact lookup_succeeds hp hq hkind (congrArg Prod.fst hlook)

/-- Where `newfstatat` succeeds the tree has the path. -/
theorem newfstatat_succeeds (hp : h.files.Shows tree) {dirfd : Int} {address buffer : Nat} {flags : BitVec 64}
    (hpos : 0 ≤ (s.newfstatat h dirfd address buffer flags).1) :
    ∃ q, (s.table.path s.space s.guest address dirfd).1 = .ok q ∧ Succeeds s.table (tree s.files) q := by
  unfold System.newfstatat at hpos
  split at hpos
  · change (0 : Int) ≤ -95 at hpos
    omega
  split at hpos
  next error s₁ heq => exact absurd (path_error (congrArg Prod.fst heq)) (Int.not_lt.2 hpos)
  next q s₁ heq =>
  obtain ⟨hpath, ⟨bytes, hq⟩, htable, hfiles⟩ := path_read heq
  refine ⟨q, hpath, ?_⟩
  split at hpos
  next error hkind => exact absurd (classify_error hkind) (Int.not_lt.2 hpos)
  next kind hkind =>
  split at hpos
  · change (0 : Int) ≤ -95 at hpos
    omega
  split at hpos
  next error s₂ hlook => exact absurd (lookup_error hp hq (congrArg Prod.fst hlook)) (Int.not_lt.2 hpos)
  next info s₂ hlook =>
    rw [← htable, ← hfiles]
    exact lookup_succeeds hp hq hkind (congrArg Prod.fst hlook)

/-- The flags of a device are refused with a negative errno. -/
theorem openError_neg {kind : Nat} {canonical : Name} {flags : BitVec 32} {error : Int}
    (ho : openError kind canonical flags = some error) : error < 0 := by
  unfold openError at ho
  repeat' split at ho
  all_goals cases ho
  all_goals decide

/-- Where `openat` succeeds the tree has the path, or had a place for it. -/
theorem openat_succeeds (hp : h.files.Shows tree) {caller : Nat} {dirfd : Int} {address : Nat} {flags mode : BitVec 32}
    (hpos : 0 ≤ (s.openat h caller dirfd address flags mode).1) :
    ∃ q, (s.table.path s.space s.guest address dirfd).1 = .ok q ∧ Succeeds s.table (tree s.files) q := by
  unfold System.openat at hpos
  split at hpos
  next error s₁ heq => exact absurd (path_error (congrArg Prod.fst heq)) (Int.not_lt.2 hpos)
  next q s₁ heq =>
  obtain ⟨hpath, ⟨bytes, hq⟩, htable, hfiles⟩ := path_read heq
  refine ⟨q, hpath, ?_⟩
  split at hpos
  next error hkind => exact absurd (classify_error hkind) (Int.not_lt.2 hpos)
  next kind hkind =>
  obtain ⟨hdevice, _⟩ := classify_ok hkind
  rw [hdevice] at hkind
  by_cases hne : device q.canonical ≠ 0
  · rw [← htable]
    exact ⟨hkind, fun hz => absurd hz hne, fun hz => absurd hz hne, fun hz => absurd hz hne⟩
  have hzero : kind = 0 := hdevice.trans (Decidable.not_not.1 hne)
  rw [hzero, if_neg (by simp)] at hpos
  split at hpos
  next error hflags => exact absurd (openError_neg hflags) (Int.not_lt.2 hpos)
  next hflags =>
  split at hpos
  · change (0 : Int) ≤ -24 at hpos
    omega
  next slot hslot =>
  rw [if_neg (by decide), if_neg (by decide)] at hpos
  obtain ⟨hwhole, hdot, hrelative⟩ := relative_join hq
  obtain ⟨herror, hok⟩ := walk_shows (s := s₁) hp q.directory
    (openLeaf h (flags ||| if q.trailing then 0x4000 else 0) (mode &&& 0o777)) hwhole hdot hrelative
    fun current leaf s₂ => (openLeaf_shows hp).1
  dsimp only at hpos
  split at hpos
  next error s₂ hend =>
    rw [hend] at herror
    exact absurd (herror error rfl) (Int.not_lt.2 hpos)
  next handle directory s₂ hend =>
    rw [hend] at hok
    obtain ⟨current, leaf, s₃, hleaf, hsame, hplace, habove, hthrough⟩ := hok _ rfl
    obtain ⟨hlast, hdirectory, hthere⟩ := (openLeaf_shows hp).2 _ hleaf
    rw [hsame, habove] at hlast
    rw [hsame, hplace] at hdirectory hthere
    rw [← htable, ← hfiles]
    refine ⟨hkind, fun _ => reached_of hthrough hlast, fun _ htrailing => hdirectory ?_, fun _ hnone => ?_⟩
    · rw [htrailing, if_pos rfl, BitVec.and_or_distrib_right]
      intro hnone
      exact absurd (BitVec.or_eq_zero_iff.1 hnone).2 (by decide)
    · -- only O_CREAT opens what is not there, and it is refused below `system`
      refine ⟨?_, ?_⟩
      · by_contra hbelow
        obtain ⟨_, hmake⟩ := openError_system hflags (by simpa using hbelow)
        refine hthere ?_ hnone
        rw [and_native rfl, show (0x40 : BitVec 32) = (0x40 ||| 0x200) &&& 0x40 from rfl, ← BitVec.and_assoc, hmake]
        exact BitVec.zero_and
      · obtain ⟨hlt, hfree, _⟩ := List.findIdx?_eq_some_iff_getElem.1 hslot
        exact ⟨_, List.getElem_mem hlt, by simpa using hfree⟩

end System

/-! ## A provider over a tree -/

/-- The metadata of an entry. -/
def Entry.info : Entry → FileInfo
  | .directory => { mode := 0o040755 }
  | .file => { mode := 0o100644 }

/-- The metadata of an entry tells directories from files. -/
theorem Entry.isDirectory_info (e : Entry) : (if e.info.isDirectory then Entry.directory else .file) = e := by
  cases e with
  | directory => rfl
  | file => rfl

/-- A provider that keeps a tree and answers by it. -/
def treeProvider : Provider (List Name → Option Entry) where
  openFile dir name flags _ tree :=
    if tree (location dir) ≠ some .directory then (.error (-20), tree)
    else if tree (locate dir name) = none then
      if flags &&& 0x40 = 0 then (.error (-2), tree)
      else if flags &&& 0x4000 ≠ 0 then (.error (-22), tree)
      else (.ok 1, fun l => if l = locate dir name then some .file else tree l)
    else if flags &&& 0x4000 ≠ 0 ∧ tree (locate dir name) ≠ some .directory then (.error (-20), tree)
    else (.ok 1, tree)
  closeFile _ tree := (0, tree)
  readFile _ _ tree := ((0, []), tree)
  writeFile _ _ tree := (0, tree)
  seekFile _ _ _ tree := (0, tree)
  statFile handle tree :=
    match tree (location handle) with
    | none => (.error (-2), tree)
    | some e => (.ok e.info, tree)
  statAt dir name tree :=
    if tree (location dir) ≠ some .directory then (.error (-20), tree)
    else
      match tree (locate dir name) with
      | none => (.error (-2), tree)
      | some e => (.ok e.info, tree)
  unlinkFile dir name _ tree := (0, fun l => if l = locate dir name then none else tree l)

/-- What the sample provider opens is in its tree. -/
theorem treeProvider_open {dir : Option Handle} {name : Name} {flags mode : BitVec 32} {tree : List Name → Option Entry}
    {file : Nat} (h : (treeProvider.openFile dir name flags mode tree).1 = .ok file) :
    tree (location dir) = some .directory ∧ (flags &&& 0x4000 ≠ 0 → tree (locate dir name) = some .directory) ∧
      (flags &&& 0x40 = 0 → tree (locate dir name) ≠ none) := by
  unfold treeProvider at h
  dsimp only at h
  split at h
  · cases h
  next habove =>
  refine ⟨Decidable.not_not.1 habove, ?_⟩
  split at h
  · split at h
    · cases h
    next hmake =>
    split at h
    · cases h
    next hdirectory => exact ⟨fun hd => absurd hd hdirectory, fun hm => absurd hm hmake⟩
  next hthere =>
    split at h
    · cases h
    next hdirectory =>
      exact ⟨fun hd => Decidable.not_not.1 fun hnot => hdirectory ⟨hd, hnot⟩, fun _ => hthere⟩

/-- The sample provider shows its tree. -/
theorem treeProvider_shows : treeProvider.Shows fun tree => tree where
  open_above h := (treeProvider_open h).1
  open_directory h := (treeProvider_open h).2.1
  open_there h := (treeProvider_open h).2.2
  open_keeps {dir name flags mode tree} hflags := by
    have hmake : flags &&& 0x40 = 0 := by
      rw [show (0x40 : BitVec 32) = (3 ||| 0x40 ||| 0x200) &&& 0x40 from rfl, ← BitVec.and_assoc, hflags]
      exact BitVec.zero_and
    unfold treeProvider
    dsimp only
    rw [if_pos hmake]
    repeat' split
    all_goals rfl
  open_error {dir name flags mode tree error} h := by
    unfold treeProvider at h
    dsimp only at h
    repeat' split at h
    all_goals cases h
    all_goals decide
  close_keeps := rfl
  close_error := Int.le_refl 0
  stat_above {dir name tree info} h := by
    unfold treeProvider at h
    dsimp only at h
    split at h
    · cases h
    next habove => exact Decidable.not_not.1 habove
  stat_type {dir name tree info} h := by
    unfold treeProvider at h
    dsimp only at h
    split at h
    · cases h
    split at h
    · cases h
    next e he => rw [he, ← Except.ok.inj h, e.isDirectory_info]
  stat_error {dir name tree error} h := by
    unfold treeProvider at h
    dsimp only at h
    repeat' split at h
    all_goals cases h
    all_goals decide
  statFile_error {handle tree error} h := by
    unfold treeProvider at h
    dsimp only at h
    repeat' split at h
    all_goals cases h
    all_goals decide

def treeHost : Host (List Name → Option Entry) where
  files := treeProvider
  random _ tree := ((0, fun _ => 7), tree)
  deviceOpen tree := (.ok 1, tree)
  setNonblocking _ _ tree := (0, tree)
  waitFor _ _ _ _ tree := (0, tree)

namespace System

variable {s : System (List Name → Option Entry)}

/-- A directory is opened, and the tree stays. -/
theorem openFile_directory {dir : Option Handle} {name : Name} {flags mode : BitVec 32}
    (habove : s.files (location dir) = some .directory) (hat : s.files (locate dir name) = some .directory) :
    treeProvider.openFile dir name flags mode s.files = (.ok 1, s.files) := by
  unfold treeProvider
  dsimp only
  rw [habove, hat, if_neg (by simp), if_neg (by simp), if_neg (by simp)]

/-- The sample provider opens the directories of its tree. -/
theorem openFile_directory_eq {dir : Option Handle} {name : Name} {flags mode : BitVec 32}
    (habove : s.files (location dir) = some .directory) (hat : s.files (locate dir name) = some .directory) :
    s.openFile treeProvider dir name flags mode =
      (.ok ⟨1, locate dir name⟩, { s with log := .openFile (locate dir name) flags :: s.log }) := by
  unfold System.openFile
  rw [openFile_directory habove hat]
  rfl

/-- Through directories the walk comes to its end. -/
theorem resolve_tree {parts : List Name} {current : Option Handle} (owned : Option Handle) (hparts : Parts parts)
    (habove : ∀ k < parts.length, s.files (location current ++ parts.take k) = some .directory) :
    ∃ q, (resolve treeProvider parts current owned s).1 = .ok q := by
  induction parts generalizing current owned s with
  | nil => exact ⟨_, rfl⟩
  | cons component rest ih =>
    cases rest with
    | nil => exact ⟨_, rfl⟩
    | cons after rest =>
      have hdot := (hparts component (by simp)).2
      have hplace : location current ++ [component] = locate current component := by
        unfold locate
        rw [if_neg hdot]
        rfl
      have hhere := habove 0 (Nat.succ_pos _)
      have hnext := habove 1 (by simp)
      rw [List.take_zero, List.append_nil] at hhere
      rw [List.take_succ_cons, List.take_zero, hplace] at hnext
      have hrest : Parts (after :: rest) := fun c hc => hparts c (by simp [hc])
      have hgo : ∀ owned log, ∃ q, (resolve treeProvider (after :: rest) (some ⟨1, locate current component⟩) owned
          { s with log }).1 = .ok q := by
        intro owned log
        refine ih owned hrest fun k hk => ?_
        show s.files (locate current component ++ _) = _
        rw [← hplace, List.append_assoc]
        exact habove (k + 1) (Nat.succ_lt_succ hk)
      unfold resolve
      rw [openFile_directory_eq hhere hnext]
      dsimp only
      split
      · exact hgo _ _
      · exact hgo _ _

/-- A path over directories is walked, and the call acts at its place. -/
theorem walk_tree {α : Type} {directory : Option Handle} {relative : Name} {names : List Name}
    (act : Option Handle → Name → System (List Name → Option Entry) → Except Int α × System (List Name → Option Entry))
    (hwhole : Whole slash names) (hdot : ∀ c ∈ names, c ≠ dot) (hrelative : relative = join names) (hne : names ≠ [])
    (habove : ∀ k < names.length, s.files (location directory ++ names.take k) = some .directory) :
    ∃ current leaf owned s₁, s.walk treeProvider directory relative act =
        ((act current leaf s₁).1, (act current leaf s₁).2.closeOwned treeProvider owned) ∧
      s₁.files = s.files ∧ s₁.table = s.table ∧ locate current leaf = location directory ++ names ∧
        s₁.files (location current) = some .directory := by
  obtain ⟨hparts, hkept, _⟩ := parts_relative hwhole hdot (.inl rfl)
  have hsplit : relative.splitOn slash = names := by
    rw [hrelative]
    exact (splitOn_join hwhole).trans (if_neg hne)
  rw [List.append_nil, ← hrelative, hsplit] at hparts hkept
  obtain ⟨⟨current, leaf⟩, hok⟩ := resolve_tree none hparts habove
  have hclimbs := resolve_climbs (s := s) treeProvider_shows directory none hparts
  obtain ⟨hasks, hplace⟩ := resolve_asks (P := fun _ => True) (p := treeProvider) (s := s) directory none
    hparts fun _ _ _ => trivial
  rw [hkept] at hplace
  have hsame := hclimbs.keeps _ hok
  refine ⟨current, leaf, (resolve treeProvider names directory none s).2.1,
    (resolve treeProvider names directory none s).2.2, ?_, hsame, hasks.table, hplace current leaf hok, ?_⟩
  · unfold walk
    rw [hsplit]
    cases hresolve : resolve treeProvider names directory none s with
    | mk result rest =>
      rw [hresolve] at hok
      dsimp only at hok
      rw [hok]
  · rw [hsame, hclimbs.ends _ hok, List.dropLast_eq_take]
    exact habove _ (Nat.sub_lt (List.length_pos_iff.2 hne) Nat.one_pos)

end System

/-! ## Where the suffix is kept -/

/-- With a final `.` there is no slash at the end. -/
theorem Slips.trailing {t : Table} {space : Space} {guest : Guest} {address : Nat} {dirfd : Int}
    {view : List Name → Option Entry} {q : PathInfo} (hs : Slips t space guest address dirfd view q) :
    q.trailing = false := by
  obtain ⟨bytes, hat, hlast⟩ := hs.final_dot
  obtain ⟨bytes', hat', _, hnormalize⟩ := path_string hs.path_ok
  rw [(normalize_names hnormalize).trailing_eq, hat'.unique hat, beq_eq_false_iff_ne]
  intro hslash
  have hne : bytes ≠ [] := by
    rintro rfl
    cases hslash
  rw [getLast_iff hne, hlast] at hslash
  cases hslash

/-- A path that slips is classified by its canonical name. -/
theorem Slips.classified {t : Table} {space : Space} {guest : Guest} {address : Nat} {dirfd : Int}
    {view : List Name → Option Entry} {q : PathInfo} (hs : Slips t space guest address dirfd view q) :
    t.classify q = .ok (device q.canonical) := by
  have htrailing := hs.trailing
  have hpasses := hs.passes
  unfold Table.classify
  dsimp only
  rw [if_neg (by rintro ⟨hk, hb⟩; rw [hs.binder hk] at hb; cases hb)]
  rw [if_neg (by
    rintro ⟨hk, hv⟩
    rw [hk, if_neg (by decide)] at hpasses
    exact hpasses.1 hv)]
  rw [if_neg (by rintro ⟨hk, hc⟩; exact hs.commandline hk hc)]
  rw [if_neg (by
    rintro ⟨hk, hf⟩
    rw [hk, if_neg (by decide)] at hpasses
    rw [hpasses.2.1] at hf
    cases hf)]
  rw [if_neg (by rintro ⟨_, _, ht⟩; rw [htrailing] at ht; cases ht)]

/-- A call that succeeds with a suffix, on no directory, is one that slips. -/
theorem slips_of_succeeds {t : Table} {space : Space} {guest : Guest} {address : Nat} {dirfd : Int}
    {view : List Name → Option Entry} {q : PathInfo} (hpath : (t.path space guest address dirfd).1 = .ok q)
    (hsucceeds : System.Succeeds t view q) {bytes : Name} (hat : StringAt guest address bytes)
    (hsuffix : Suffixed bytes)
    (hnot : ¬ q.NamesDirectory view) : Slips t space guest address dirfd view q := by
  obtain ⟨bytes', hat', _, hnormalize⟩ := path_string hpath
  obtain rfl := hat'.unique hat
  have hnames := normalize_names hnormalize
  have hne : bytes' ≠ [] := by
    rintro rfl
    cases hnormalize
  have hclassified := hsucceeds.classified
  unfold PathInfo.NamesDirectory at hnot
  unfold Table.classify at hclassified
  dsimp only at hclassified
  split at hclassified
  · cases hclassified
  next hbinder =>
  split at hclassified
  · cases hclassified
  next hvirtual =>
  split at hclassified
  · cases hclassified
  next hcommandline =>
  split at hclassified
  · cases hclassified
  next hfiles =>
  split at hclassified
  · cases hclassified
  next hdevice =>
  have hdot : (bytes'.splitOn slash).getLast? = some dot := by
    refine hsuffix.resolve_left fun hslash => hnot ?_
    -- with a slash at the end the calls ask for a directory
    have htrailing : q.trailing = true := by
      rw [hnames.trailing_eq, (getLast_iff hne).2 hslash]
      rfl
    by_cases hzero : device q.canonical = 0
    · rw [if_pos hzero]
      exact hsucceeds.trailing hzero htrailing
    · rw [if_neg hzero]
      by_contra hdirectory
      exact hdevice ⟨hzero, hdirectory, htrailing⟩
  refine ⟨hpath, ⟨bytes', hat', hdot⟩, fun hk => ?_, fun hk hc => hcommandline ⟨hk, hc⟩, ?_⟩
  · by_contra hb
    exact hbinder ⟨hk, by simpa using hb⟩
  by_cases hzero : device q.canonical = 0
  · rw [if_pos hzero] at hnot
    rw [if_neg (not_not.2 hzero)]
    have hreached := hsucceeds.reached hzero
    refine ⟨fun hv => hvirtual ⟨hzero, hv⟩, ?_, fun hnil => ?_, hreached.above, ?_⟩
    · by_contra hf
      exact hfiles ⟨hzero, by simpa using hf⟩
    · refine hnot ?_
      rw [hnil, List.append_nil]
      exact hreached.root hnil
    · cases hplace : view (location q.directory ++ components q.relative) with
      | none => exact .inr ⟨rfl, hsucceeds.missing hzero hplace⟩
      | some e =>
        cases e with
        | directory => exact absurd hplace hnot
        | file => exact .inl rfl
  · rw [if_neg hzero] at hnot
    rw [if_pos hzero]
    simpa using hnot

namespace System

variable {s s₁ : System (List Name → Option Entry)} {q : PathInfo} {address : Nat} {dirfd : Int}

/-- faccessat asks for no permission of an entry that it finds. -/
theorem faccessat_found {kind : Nat} {info : FileInfo} (hpath : s.path address dirfd = (.ok q, s₁))
    (hkind : s₁.table.classify q = .ok kind) (hlook : (s₁.lookup treeHost kind q).1 = .ok info) :
    (s.faccessat treeHost dirfd address 0).1 = 0 := by
  unfold System.faccessat
  rw [if_neg (by decide), hpath]
  dsimp only
  rw [hkind]
  dsimp only
  cases hresult : s₁.lookup treeHost kind q with
  | mk result s₂ =>
    rw [hresult] at hlook
    dsimp only at hlook
    rw [hlook]
    dsimp only
    rw [if_neg fun h => h.2 rfl, if_pos (show info.mode >>> 6 &&& 7 &&& 0 = 0 from BitVec.and_zero)]

/-- A file that is there is found behind a final `.`. -/
theorem lookup_file {names : List Name} (hwhole : Whole slash names) (hdot : ∀ c ∈ names, c ≠ dot)
    (hrelative : q.relative = join names) (hne : names ≠ []) (htrailing : q.trailing = false)
    (habove : ∀ k < names.length, s.files (location q.directory ++ names.take k) = some .directory)
    (hfile : s.files (location q.directory ++ names) = some .file) :
    (s.lookup treeHost 0 q).1 = .ok Entry.file.info := by
  obtain ⟨current, leaf, owned, s₁, hwalk, hsame, _, hplace, hhere⟩ :=
    walk_tree (fun current leaf s => s.statAt treeHost.files current leaf) hwhole hdot hrelative hne habove
  have hstat : (s₁.statAt treeHost.files current leaf).1 = .ok Entry.file.info := by
    show (treeProvider.statAt current leaf s₁.files).1 = _
    unfold treeProvider
    dsimp only
    rw [if_neg (not_not.2 hhere), hplace, hsame, hfile]
  have hfound : s.walk treeHost.files q.directory q.relative
      (fun current leaf s => s.statAt treeHost.files current leaf) = _ := hwalk
  unfold System.lookup
  rw [if_neg (by decide), hfound, hstat]
  dsimp only
  rw [if_neg (by rw [htrailing]; simp)]

/-- A file is made before a final `.`. -/
theorem openLeaf_made {current : Option Handle} {leaf : Name} (hhere : s.files (location current) = some .directory)
    (hnone : s.files (locate current leaf) = none) :
    (openLeaf treeHost 0x41 0 current leaf s).1 = .ok (⟨1, locate current leaf⟩, false) := by
  have hopen : treeProvider.openFile current leaf 0x41 0 s.files =
      (.ok 1, fun l => if l = locate current leaf then some .file else s.files l) := by
    unfold treeProvider
    dsimp only
    rw [if_neg (not_not.2 hhere), if_pos hnone, if_neg (by decide), if_neg (by decide)]
  unfold openLeaf
  have hopened : s.openFile treeHost.files current leaf 0x41 0 = (.ok ⟨1, locate current leaf⟩, { s with
      files := fun l => if l = locate current leaf then some .file else s.files l
      log := .openFile (locate current leaf) 0x41 :: s.log }) := by
    unfold System.openFile
    rw [show treeHost.files.openFile current leaf 0x41 0 s.files = _ from hopen]
    rfl
  rw [hopened]
  dsimp only
  have hstat : ∀ log, (({ s with
      files := fun l => if l = locate current leaf then some .file else s.files l, log } :
        System (List Name → Option Entry)).statFile treeHost.files (some ⟨1, locate current leaf⟩)).1 =
          .ok Entry.file.info := by
    intro log
    show (treeProvider.statFile _ _).1 = _
    unfold treeProvider
    dsimp only
    rw [show location (some ⟨1, locate current leaf⟩) = locate current leaf from rfl, if_pos rfl]
  split
  next error s₂ heq =>
    have h := hstat (.openFile (locate current leaf) 0x41 :: s.log)
    rw [heq] at h
    cases h
  next info s₂ heq =>
    have h := hstat (.openFile (locate current leaf) 0x41 :: s.log)
    rw [heq] at h
    rw [Except.ok.inj h]
    rfl

/-- `openat` makes a file under a path whose directories are there. -/
theorem openat_made {names : List Name} (hpath : s.path address dirfd = (.ok q, s₁))
    (hkind : s₁.table.classify q = .ok 0) (hsystem : below q.canonical system = false)
    (hfree : ∃ d ∈ s₁.table.descriptors, d.kind = 0) (hwhole : Whole slash names) (hdot : ∀ c ∈ names, c ≠ dot)
    (hrelative : q.relative = join names) (hne : names ≠ []) (htrailing : q.trailing = false)
    (habove : ∀ k < names.length, s₁.files (location q.directory ++ names.take k) = some .directory)
    (hnone : s₁.files (location q.directory ++ names) = none) :
    0 ≤ (s.openat treeHost 0 dirfd address 0x41 0).1 := by
  have hflags : openError 0 q.canonical 0x41 = none := by
    unfold openError
    rw [hsystem]
    decide
  obtain ⟨slot, hslot⟩ : ∃ slot, s₁.table.descriptors.findIdx? (fun d => d.kind == 0) = some slot := by
    obtain ⟨d, hd, hk⟩ := hfree
    rw [← Option.isSome_iff_exists, List.findIdx?_isSome, List.any_eq_true]
    exact ⟨d, hd, by rw [hk]; rfl⟩
  obtain ⟨current, leaf, owned, s₂, hwalk, hsame, _, hplace, hhere⟩ :=
    walk_tree (openLeaf treeHost 0x41 0) hwhole hdot hrelative hne habove
  have hmade := openLeaf_made hhere (by rw [hplace, hsame]; exact hnone)
  unfold System.openat
  rw [hpath]
  dsimp only
  rw [hkind]
  dsimp only
  rw [if_neg (by decide), hflags]
  dsimp only
  rw [hslot]
  dsimp only
  have hnative : (0x41 : BitVec 32) ||| (if false = true then 0x4000 else 0) = 0x41 := by decide
  have hmode : (0 : BitVec 32) &&& 0o777 = 0 := by decide
  have hopened : s₁.walk treeHost.files q.directory q.relative (openLeaf treeHost 0x41 0) = _ := hwalk
  rw [if_neg (by decide), if_neg (by decide), htrailing, hnative, hmode, hopened, hmade]
  show (0 : Int) ≤ slot + 3
  omega

/-- A call on a path that slips succeeds, on what is no directory. -/
theorem slips_succeeds {t : Table} {space : Space} {guest : Guest} {address : Nat} {dirfd : Int}
    {view : List Name → Option Entry} {q : PathInfo} (hs : Slips t space guest address dirfd view q) :
    ¬ q.NamesDirectory view ∧ ∃ c : Call, c.LooksUp dirfd address ∧
      0 ≤ (({ table := t, files := view, space, guest } : System _).call treeHost c).1 := by
  obtain ⟨_, _, _, hnormalize⟩ := path_string hs.path_ok
  obtain ⟨hwhole, hdot, hrelative⟩ := relative_join (normalize_names hnormalize)
  have hclassified := hs.classified
  have hpasses := hs.passes
  generalize hstart : ({ table := t, files := view, space, guest } : System (List Name → Option Entry)) = s
  obtain ⟨s₁, hpath, htable, hfiles⟩ : ∃ s₁, s.path address dirfd = (.ok q, s₁) ∧ s₁.table = t ∧ s₁.files = view := by
    subst hstart
    exact ⟨_, Prod.ext hs.path_ok rfl, rfl, rfl⟩
  rw [← htable] at hclassified
  unfold PathInfo.NamesDirectory
  by_cases hzero : device q.canonical = 0
  · rw [if_neg (not_not.2 hzero)] at hpasses
    rw [if_pos hzero]
    rw [hzero] at hclassified
    obtain ⟨_, _, hne, habove, hplace⟩ := hpasses
    rw [← hfiles] at habove hplace
    rcases hplace with hfile | ⟨hnone, hsystem, hfree⟩
    · refine ⟨?_, .faccessat dirfd address 0, ⟨rfl, rfl⟩, ?_⟩
      · rw [← hfiles, hfile]
        exact nofun
      · have hfound := lookup_file hwhole hdot hrelative hne hs.trailing habove hfile
        exact Int.le_of_eq (faccessat_found hpath hclassified hfound).symm
    · refine ⟨?_, .openat 0 dirfd address 0x41 0, ⟨rfl, rfl⟩, ?_⟩
      · rw [← hfiles, hnone]
        exact nofun
      · rw [← htable] at hfree
        exact openat_made hpath hclassified hsystem hfree hwhole hdot hrelative hne hs.trailing habove hnone
  · rw [if_pos hzero] at hpasses
    rw [if_neg hzero]
    refine ⟨by rw [hpasses]; exact nofun, .faccessat dirfd address 0, ⟨rfl, rfl⟩, ?_⟩
    have hdevice : (s₁.lookup treeHost (device q.canonical) q).1 = .ok (deviceInfo (device q.canonical)) := by
      unfold System.lookup
      rw [if_pos hzero]
    exact Int.le_of_eq (faccessat_found hpath hclassified hdevice).symm

end System

/-- The calls keep the meaning of a suffix on every path that does not slip, and on no other. -/
theorem suffix_kept_iff (t : Table) (space : Space) (guest : Guest) (address : Nat) (dirfd : Int)
    (view : List Name → Option Entry) :
    KeepsSuffix t space guest address dirfd view ↔ ∀ p, ¬ Slips t space guest address dirfd view p := by
  constructor
  · intro hkeeps q hs
    obtain ⟨hnot, c, hlooks, hpos⟩ := System.slips_succeeds hs
    obtain ⟨bytes, hat, hlast⟩ := hs.final_dot
    obtain ⟨q', hpath, hdirectory⟩ :=
      hkeeps _ treeHost (fun tree => tree) view [] c treeProvider_shows rfl hlooks hpos ⟨bytes, hat, .inr hlast⟩
    rw [← Except.ok.inj (hs.path_ok.symm.trans hpath)] at hdirectory
    exact hnot hdirectory
  · intro hnone σ h tree files log c hp hview hlooks hpos hsuffix
    obtain ⟨bytes, hat, hsuffix⟩ := hsuffix
    have hcall : ∃ q, (t.path space guest address dirfd).1 = .ok q ∧ System.Succeeds t (tree files) q := by
      cases c with
      | faccessat d a flags =>
        obtain ⟨rfl, rfl⟩ := hlooks
        exact System.faccessat_succeeds hp hpos
      | openat caller d a flags mode =>
        obtain ⟨rfl, rfl⟩ := hlooks
        exact System.openat_succeeds hp hpos
      | newfstatat d a buffer flags =>
        obtain ⟨rfl, rfl⟩ := hlooks
        exact System.newfstatat_succeeds hp hpos
      | unlinkat => cases hlooks
      | close => cases hlooks
      | lseek => cases hlooks
      | fstat => cases hlooks
      | read => cases hlooks
      | write => cases hlooks
    obtain ⟨q, hpath, hsucceeds⟩ := hcall
    rw [hview] at hsucceeds
    refine ⟨q, hpath, ?_⟩
    by_contra hnot
    exact hnone q (slips_of_succeeds hpath hsucceeds hat hsuffix hnot)

/-! ## A file with a final `.` -/

/-- A tree with one file. -/
def sampleTree (l : List Name) : Option Entry :=
  if l = [] then some .directory else if l = [ascii ['a']] then some .file else none

def sampleFiles (string : Name) : System (List Name → Option Entry) where
  table := { descriptors := [{}] }
  files := sampleTree
  space := System.sampleSpace
  guest := System.sampleGuest string

/-- `a/.` passes where `a` is a file, and `a/` does not. -/
theorem final_dot_passes :
    ¬ KeepsSuffix { descriptors := [{}] } System.sampleSpace (System.sampleGuest (ascii ['a', '/', '.'])) 4096 (-100)
        sampleTree ∧
      ((sampleFiles (ascii ['a', '/', '.'])).call treeHost (.openat 0 (-100) 4096 0 0)).1 = 3 ∧
      ((sampleFiles (ascii ['a', '/', '.'])).call treeHost (.newfstatat (-100) 4096 5120 0)).1 = 0 ∧
      ((sampleFiles (ascii ['a', '/'])).call treeHost (.newfstatat (-100) 4096 5120 0)).1 = -20 := by
  refine ⟨fun hkeeps => ?_, by decide +kernel, by decide +kernel, by decide +kernel⟩
  have hstring : StringAt (System.sampleGuest (ascii ['a', '/', '.'])) 4096 (ascii ['a', '/', '.']) :=
    ⟨by decide, by decide, by decide⟩
  obtain ⟨p, hpath, hdirectory⟩ := hkeeps _ treeHost (fun tree => tree) sampleTree [] (.faccessat (-100) 4096 0)
    treeProvider_shows rfl ⟨rfl, rfl⟩ (by decide) ⟨_, hstring, .inr (by decide)⟩
  have hp : (Table.path { descriptors := [{}] } System.sampleSpace
      (System.sampleGuest (ascii ['a', '/', '.'])) 4096 (-100)).1 =
        .ok { relative := ascii ['a'], canonical := ascii ['a'], terminalDot := true } := by decide
  rw [Except.ok.inj (hpath.symm.trans hp), PathInfo.NamesDirectory, if_pos (by decide)] at hdirectory
  exact absurd hdirectory (by decide)

end Artbox.Files
