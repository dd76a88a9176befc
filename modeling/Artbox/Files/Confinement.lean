import Artbox.Files.Model

/-!
# Confinement

Calls classify a path by its canonical path and then walk to it from a directory that was opened
before. The two agree because each directory descriptor has the canonical path under which its
handle was opened (`Descriptor.Settled`), over any chain of relative opens. So the provider is never
asked for anything at or below `dev` and `proc`, and below `system` only to read
(`Request.Confined`).
-/

namespace Artbox.Files

open Segments
open Vm (Space Guest)

/-- The canonical path of a file of the provider. -/
def join (location : List Name) : Name := [slash].intercalate location

/-- Where a handle was opened; the null pointer is the root. -/
def location (directory : Option Handle) : List Name := directory.elim [] Handle.location

/-- A path at or below a tree of virtual files. -/
def Virtual (name : Name) : Prop := below name dev = true ∨ below name proc = true

/-- A request that stays out of the trees that the provider does not serve. -/
def Request.Confined : Request → Prop
  | .openFile location flags => ¬ Virtual (join location) ∧
      (below (join location) system = true → flags &&& 3 = 0 ∧ flags &&& (0x40 ||| 0x200) = 0)
  | .stat location => ¬ Virtual (join location)
  | .unlinkFile location => ¬ Virtual (join location) ∧ below (join location) system = false

/-- What the path of a descriptor says about its handle. -/
def Descriptor.Settled (d : Descriptor) : Prop :=
  ∃ cs, Whole slash cs ∧ d.path = join cs ∧
    if d.kind = 5 then (∃ file, d.handle = some ⟨file, cs⟩) ∧ ¬ Virtual d.path
    else d.directory = true → d.handle = none ∧ Virtual d.path

/-- The invariant of a table. -/
structure Table.Settled (t : Table) : Prop where
  settled : ∀ d ∈ t.descriptors, d.kind ≠ 0 → d.Settled

/-- The invariant of a run. -/
structure System.Confined {σ : Type} (s : System σ) : Prop where
  settled : s.table.Settled
  asked : ∀ r ∈ s.log, r.Confined

/-! ## Canonical paths -/

/-- The name of the device tree is one component. -/
theorem slash_not_mem_dev : slash ∉ dev := by decide

/-- The name of the process tree is one component. -/
theorem slash_not_mem_proc : slash ∉ proc := by decide

/-- A path is virtual if its first component names a virtual tree. -/
theorem virtual_join {cs : List Name} (h : Whole slash cs) :
    Virtual (join cs) ↔ cs.headD [] = dev ∨ cs.headD [] = proc := by
  unfold Virtual join
  rw [below_join h slash_not_mem_dev, below_join h slash_not_mem_proc]

/-- A relative path is put behind the components of its directory. -/
theorem canonicalOf_join {xs ys : List Name} (hx : Whole slash xs) (hy : Whole slash ys) :
    canonicalOf (join xs) (join ys) = join (xs ++ ys) := by
  unfold canonicalOf join
  rw [join_append]
  simp only [ne_eq, join_eq_nil hx, join_eq_nil hy]

/-- Every prefix of a location but the root is in the same tree of the root. -/
theorem headD_eq {xs ys : List Name} (h : xs <+: ys) (hne : xs ≠ []) : xs.headD [] = ys.headD [] := by
  obtain ⟨zs, rfl⟩ := h
  cases xs with
  | nil => exact absurd rfl hne
  | cons x xs => rfl

/-- What lies above a path outside of the virtual trees is outside of them. -/
theorem not_virtual_above {xs ys : List Name} (h : xs <+: ys) (hys : Whole slash ys) (hv : ¬ Virtual (join ys)) :
    ¬ Virtual (join xs) := by
  have hxs : Whole slash xs := hys.sublist h.sublist
  by_cases hne : xs = []
  · rw [virtual_join hxs, hne]
    decide
  · rw [virtual_join hxs, headD_eq h hne, ← virtual_join hys]
    exact hv

/-- A device is in a virtual tree. -/
theorem device_virtual {name : Name} (h : device name ≠ 0) : Virtual name := by
  unfold device at h
  unfold Virtual
  split at h
  next heq => rw [heq]; decide
  split at h
  next heq => rw [heq]; decide
  split at h
  next heq => rw [heq]; decide
  split at h
  next heq => rw [heq]; decide
  split at h
  next heq => rw [heq]; decide
  split at h
  next heq => rw [heq]; decide
  split at h
  next heq => rw [heq]; decide
  split at h
  next heq => rw [heq]; decide
  · exact absurd rfl h

/-! ## The descriptors -/

/-- A descriptor that is found is one of the table's and in use. -/
theorem get_mem {t : Table} {fd : Int} {d : Descriptor} (h : t.get fd = some d) : d ∈ t.descriptors ∧ d.kind ≠ 0 := by
  unfold Table.get at h
  split at h
  · cases h
  split at h
  · cases h
  next d' hget =>
  split at h
  · cases h
  next hkind =>
    obtain rfl := Option.some.inj h
    exact ⟨List.mem_of_getElem? hget, hkind⟩

/-- A descriptor that is found in a settled table is settled. -/
theorem Table.Settled.get {t : Table} (h : t.Settled) {fd : Int} {d : Descriptor} (hd : t.get fd = some d) :
    d.Settled := h.settled d (get_mem hd).1 (get_mem hd).2

/-- The position of a descriptor does not matter. -/
theorem Descriptor.Settled.moved {d : Descriptor} (h : d.Settled) (position : Nat) :
    Descriptor.Settled { d with position } := h

/-- What a call knows of a path:
 its place, and that it comes there from the handle it starts at. -/
structure PathInfo.Located (p : PathInfo) (cs : List Name) : Prop where
  whole : Whole slash cs
  canonical_eq : p.canonical = join cs
  relative : ∃ names, Whole slash names ∧ (∀ c ∈ names, c ≠ dot) ∧ p.relative = join names ∧
    (¬ Virtual p.canonical → location p.directory ++ names = cs)

/-- What `path` gives from a settled table has a place. -/
theorem PathInfo.Names.located {p : PathInfo} {t : Table} {dirfd : Int} {bytes : Name} (h : p.Names t dirfd bytes)
    (ht : t.Settled) : ∃ cs, p.Located cs := by
  obtain ⟨base, horigin, hcanonical⟩ := h.canonical_eq
  have hnames := components_whole bytes
  have hrelative : p.relative = join (components bytes) := h.relative_eq
  rw [hrelative] at hcanonical
  unfold Table.origin at horigin
  split at horigin
  · obtain ⟨hdirectory, rfl⟩ := Prod.mk.inj (Except.ok.inj horigin)
    refine ⟨components bytes, hnames, ?_, components bytes, hnames, fun c => components_ne_dot, hrelative, fun _ => ?_⟩
    · rw [hcanonical]
      simp [canonicalOf]
    · rw [← hdirectory]
      rfl
  split at horigin
  · cases horigin
  next d hget =>
  split at horigin
  next hdir =>
    obtain ⟨hdirectory, rfl⟩ := Prod.mk.inj (Except.ok.inj horigin)
    obtain ⟨cs, hcs, hpath, hkind⟩ := ht.get hget
    rw [hpath, canonicalOf_join hcs hnames] at hcanonical
    refine ⟨cs ++ components bytes, hcs.append hnames, hcanonical, components bytes, hnames,
      fun c => components_ne_dot, hrelative, fun hv => ?_⟩
    split at hkind
    · obtain ⟨⟨file, hhandle⟩, _⟩ := hkind
      rw [← hdirectory, hhandle]
      rfl
    · -- below a virtual directory everything is virtual
      obtain ⟨_, hvirtual⟩ := hkind hdir
      rw [hpath] at hvirtual
      rw [hcanonical] at hv
      exact absurd hvirtual (not_virtual_above (List.prefix_append cs _) (hcs.append hnames) hv)
  · cases horigin

namespace System

variable {σ : Type} {h : Host σ} {p : Provider σ} {s s' : System σ}

/-! ## Steps that ask nothing new -/

/-- The table stays, and what is asked satisfies `P`. -/
structure Asks (P : Request → Prop) (s s' : System σ) : Prop where
  table : s'.table = s.table
  asked : ∀ q ∈ s'.log, q ∈ s.log ∨ P q

variable {P : Request → Prop}

/-- A step without a request asks nothing. -/
theorem Asks.quiet (htable : s'.table = s.table) (hlog : s'.log = s.log) : Asks P s s' :=
  ⟨htable, fun _ hr => .inl (hlog ▸ hr)⟩

/-- No step asks nothing. -/
theorem Asks.refl (s : System σ) : Asks P s s := .quiet rfl rfl

/-- One request is asked for if it is allowed. -/
theorem Asks.one {q : Request} (hq : P q) (htable : s'.table = s.table) (hlog : s'.log = q :: s.log) : Asks P s s' := by
  refine ⟨htable, fun r hr => ?_⟩
  rw [hlog] at hr
  rcases List.mem_cons.1 hr with rfl | hr
  · exact .inr hq
  · exact .inl hr

/-- Two steps ask for what each of them asks for. -/
theorem Asks.trans {s'' : System σ} (h₁ : Asks P s s') (h₂ : Asks P s' s'') : Asks P s s'' := by
  refine ⟨h₂.table.trans h₁.table, fun r hr => ?_⟩
  exact (h₂.asked r hr).elim (h₁.asked r) .inr

/-- A close of a file asks nothing about a name. -/
theorem Asks.closeFile (hs : Asks P s s') (handle : Option Handle) : Asks P s (s'.closeFile p handle).2 :=
  hs.trans (.quiet rfl rfl)

/-- The close of an owned file asks nothing about a name. -/
theorem Asks.closeOwned (hs : Asks P s s') (owned : Option Handle) : Asks P s (s'.closeOwned p owned) := by
  unfold System.closeOwned
  split
  · exact hs
  · exact hs.closeFile owned

/-- Confined requests leave the log confined. -/
theorem Confined.asks (hs : s.Confined) (ha : Asks Request.Confined s s') : s'.Confined := by
  refine ⟨?_, fun r hr => (ha.asked r hr).elim (hs.asked r) fun hr => hr⟩

  rw [ha.table]
  exact hs.settled

/-- A settled descriptor leaves the table confined. -/
theorem Confined.install (hs : s.Confined) {slot : Nat} {d : Descriptor} (hd : d.kind ≠ 0 → d.Settled) :
    (s.install slot d).2.Confined := by
  refine ⟨⟨fun d' hd' hkind => ?_⟩, hs.asked⟩
  rcases List.mem_or_eq_of_mem_set hd' with hold | rfl
  · exact hs.settled.settled d' hold hkind
  · exact hd hkind

/-! ## The walk -/

/-- A file that was opened is located where it was asked for. -/
theorem openFile_location {directory : Option Handle} {name : Name} {flags mode : BitVec 32} {handle : Handle}
    (h : (s.openFile p directory name flags mode).1 = .ok handle) : handle.location = locate directory name := by
  change Except.map _ (p.openFile directory name flags mode s.files).1 = _ at h
  cases hanswer : (p.openFile directory name flags mode s.files).1 with
  | error error =>
    rw [hanswer] at h
    cases h
  | ok file =>
    rw [hanswer] at h
    rw [← Except.ok.inj h]

/-- Parts that the walk takes as names: all but the last are neither empty nor `.`. -/
def Parts (parts : List Name) : Prop := ∀ c ∈ parts.dropLast, c ≠ [] ∧ c ≠ dot

/-- The walk opens the directories before the leaf, to read, and comes to the place the parts name. -/
theorem resolve_asks {parts : List Name} (current owned : Option Handle) (hparts : Parts parts)
    (hopen : ∀ k, 0 < k → k < parts.length → P (.openFile (location current ++ parts.take k) 0x84000)) :
    Asks P s (resolve p parts current owned s).2.2 ∧
      ∀ current' leaf, (resolve p parts current owned s).1 = .ok (current', leaf) →
        locate current' leaf = location current ++ parts.filter fun c => c ≠ [] ∧ c ≠ dot := by
  induction parts generalizing current owned s with
  | nil =>
    refine ⟨.refl s, fun current' leaf heq => ?_⟩
    obtain ⟨rfl, rfl⟩ := Prod.mk.inj (Except.ok.inj heq)
    rfl
  | cons component rest ih =>
    cases rest with
    | nil =>
      refine ⟨.refl s, fun current' leaf heq => ?_⟩
      obtain ⟨rfl, rfl⟩ := Prod.mk.inj (Except.ok.inj heq)
      unfold locate location
      by_cases hnil : component = []
      · rw [if_pos hnil, if_pos rfl, hnil]
        rfl
      · by_cases hdot : component = dot
        · rw [if_neg hnil, if_pos hdot, hdot]
          rfl
        · rw [if_neg hnil, if_neg hdot, List.filter_cons_of_pos (by simp [hnil, hdot])]
          rfl
    | cons after rest =>
      obtain ⟨hne, hdot⟩ := hparts component (by simp)
      have hrest : Parts (after :: rest) := fun c hc => hparts c (by simp [hc])
      have hfilter : (component :: after :: rest).filter (fun c => c ≠ [] ∧ c ≠ dot) =
          component :: (after :: rest).filter fun c => c ≠ [] ∧ c ≠ dot :=
        List.filter_cons_of_pos (by simp [hne, hdot])
      -- one component is opened, below where the walk stands
      have hlocate : locate current component = location current ++ [component] := by
        unfold locate
        rw [if_neg hdot]
        rfl
      have hasks : Asks P s (s.openFile p current component 0x84000 0).2 := by
        refine .one (q := .openFile (locate current component) 0x84000) ?_ rfl rfl
        rw [hlocate]
        exact hopen 1 Nat.one_pos (by simp)
      unfold resolve
      split
      next error s₁ heq =>
        rw [heq] at hasks
        exact ⟨hasks, nofun⟩
      next next s₁ heq =>
        rw [heq] at hasks
        have hnext : location (some next) = location current ++ [component] :=
          (openFile_location (congrArg Prod.fst heq)).trans hlocate
        have hopen' : ∀ k, 0 < k → k < (after :: rest).length →
            P (.openFile (location (some next) ++ (after :: rest).take k) 0x84000) := by
          intro k _ hlt
          rw [hnext, List.append_assoc]
          exact hopen (k + 1) (Nat.succ_pos k) (Nat.succ_lt_succ hlt)
        -- the rest is the walk from there, whatever was closed in between
        have hgo : ∀ owned (s₂ : System σ), Asks P s s₂ →
            Asks P s (resolve p (after :: rest) (some next) owned s₂).2.2 ∧
              ∀ current' leaf, (resolve p (after :: rest) (some next) owned s₂).1 = .ok (current', leaf) →
                locate current' leaf =
                  location current ++ (component :: after :: rest).filter fun c => c ≠ [] ∧ c ≠ dot := by
          intro owned s₂ hs₂
          obtain ⟨hall, hend⟩ := ih (some next) owned (s := s₂) hrest hopen'
          refine ⟨hs₂.trans hall, fun current' leaf heq => ?_⟩
          rw [hend current' leaf heq, hnext, hfilter, List.append_assoc]
          rfl
        split
        · exact hgo _ _ hasks
        · dsimp only
          split
          · exact ⟨hasks.closeFile owned, nofun⟩
          · exact hgo _ _ (hasks.closeFile owned)

/-- The parts of a normalized path, with a terminal `.` or without. -/
theorem parts_relative {names extra : List Name} (hwhole : Whole slash names) (hdot : ∀ c ∈ names, c ≠ dot)
    (hextra : extra = [] ∨ extra = [dot]) :
    Parts ((join (names ++ extra)).splitOn slash) ∧
      ((join (names ++ extra)).splitOn slash).filter (fun c => c ≠ [] ∧ c ≠ dot) = names ∧
      ∀ k, k < ((join (names ++ extra)).splitOn slash).length →
        ((join (names ++ extra)).splitOn slash).take k <+: names := by
  have hkept : names.filter (fun c => c ≠ [] ∧ c ≠ dot) = names :=
    List.filter_eq_self.2 fun c hc => decide_eq_true ⟨(hwhole c hc).1, hdot c hc⟩
  have hall : Whole slash (names ++ extra) := by
    refine hwhole.append ?_
    rcases hextra with rfl | rfl
    · exact nofun
    · intro c hc
      obtain rfl := List.mem_singleton.1 hc
      decide
  unfold join
  rw [splitOn_join hall]
  split
  next hnil =>
    obtain ⟨rfl, rfl⟩ := List.append_eq_nil_iff.1 hnil
    refine ⟨nofun, rfl, fun k hk => ?_⟩
    rw [Nat.lt_one_iff.1 hk]
    exact List.nil_prefix
  · rcases hextra with rfl | rfl
    · rw [List.append_nil]
      refine ⟨fun c hc => ?_, hkept, fun k _ => List.take_prefix k names⟩
      have hmem := List.mem_of_mem_dropLast hc
      exact ⟨(hwhole c hmem).1, hdot c hmem⟩
    · refine ⟨fun c hc => ?_, ?_, fun k hk => ?_⟩
      · rw [List.dropLast_concat] at hc
        exact ⟨(hwhole c hc).1, hdot c hc⟩
      · rw [List.filter_append, hkept]
        exact List.append_nil names
      · rw [List.length_append, List.length_singleton, Nat.lt_succ_iff] at hk
        rw [List.take_append_of_le_length hk]
        exact List.take_prefix k names

/-- A walk asks to open the directories of a path, and acts at its place. -/
theorem walk_asks {α : Type} {directory : Option Handle} {relative : Name} {names extra : List Name}
    (act : Option Handle → Name → System σ → Except Int α × System σ) (hwhole : Whole slash names)
    (hdot : ∀ c ∈ names, c ≠ dot) (hextra : extra = [] ∨ extra = [dot]) (hrelative : relative = join (names ++ extra))
    (hopen : ∀ e, e <+: location directory ++ names → P (.openFile e 0x84000))
    (hact : ∀ current leaf s₁, locate current leaf = location directory ++ names → Asks P s₁ (act current leaf s₁).2) :
    Asks P s (s.walk p directory relative act).2 ∧
      ∀ a, (s.walk p directory relative act).1 = .ok a → ∃ current leaf s₁,
        locate current leaf = location directory ++ names ∧ (act current leaf s₁).1 = .ok a := by
  obtain ⟨hparts, hkept, htake⟩ := parts_relative hwhole hdot hextra
  rw [← hrelative] at hparts hkept htake
  obtain ⟨hasks, hend⟩ := resolve_asks (P := P) (p := p) (s := s) directory none hparts
    fun k _ hk => hopen _ ((List.prefix_append_right_inj _).2 (htake k hk))
  rw [hkept] at hend
  unfold walk
  split
  next error owned s₁ heq =>
    rw [heq] at hasks
    exact ⟨hasks.closeOwned owned, nofun⟩
  next current leaf owned s₁ heq =>
    rw [heq] at hasks hend
    have hplace := hend current leaf rfl
    exact ⟨(hasks.trans (hact current leaf s₁ hplace)).closeOwned owned, fun a ha => ⟨current, leaf, s₁, hplace, ha⟩⟩

/-! ## Calls with a path -/

/-- A path that is read leaves the run confined, and has a place. -/
theorem Confined.path (hs : s.Confined) {address : Nat} {dirfd : Int} {r : Except Int PathInfo}
    (h : s.path address dirfd = (r, s')) : s'.Confined ∧ ∀ p, r = .ok p → ∃ cs, p.Located cs := by
  obtain ⟨hr, rfl⟩ := Prod.mk.inj h
  refine ⟨⟨hs.settled, hs.asked⟩, fun p hp => ?_⟩
  obtain ⟨bytes, _, _, hnormalize⟩ := path_string (hr.trans hp)
  exact (normalize_names hnormalize).located hs.settled

/-- The directories before a place outside the virtual trees may be opened to read. -/
theorem confined_above {cs e : List Name} (hcs : Whole slash cs) (hv : ¬ Virtual (join cs)) (he : e <+: cs) :
    Request.Confined (.openFile e 0x84000) := by
  refine ⟨not_virtual_above he hcs hv, fun _ => ?_⟩
  decide

/-- What unlinkat walks is the path, with the terminal `.` that was dropped. -/
theorem unlinked_relative {p : PathInfo} {names : List Name} (hrelative : p.relative = join names) :
    ∃ extra, (extra = [] ∨ extra = [dot]) ∧
      (if p.terminalDot ∧ p.relative ≠ [] then p.relative ++ slash :: dot else p.relative) = join (names ++ extra) := by
  split
  next hterminal =>
    refine ⟨[dot], .inr rfl, ?_⟩
    have hne : names ≠ [] := by
      intro hnil
      refine hterminal.2 ?_
      rw [hrelative, hnil]
      rfl
    unfold join
    rw [join_append, if_pos ⟨hne, List.cons_ne_nil _ _⟩, hrelative, List.append_assoc]
    rfl
  · exact ⟨[], .inl rfl, by rw [List.append_nil, hrelative]⟩

/-- unlinkat is confined. -/
theorem Confined.unlinkat (hs : s.Confined) {dirfd : Int} {address : Nat} {flags : BitVec 32} :
    (s.unlinkat h dirfd address flags).2.Confined := by
  unfold System.unlinkat
  split
  · exact hs
  split
  · exact hs
  split
  next error s₁ heq => exact (hs.path heq).1
  next p s₁ heq =>
  obtain ⟨hs₁, hlocated⟩ := hs.path heq
  split
  · exact hs₁
  next hclear =>
  split
  · exact hs₁
  · obtain ⟨cs, hwhole, hcanonical, names, hnames, hdot, hrelative, hplace⟩ := hlocated p rfl
    rw [not_or] at hclear
    obtain ⟨hsystem, hv⟩ := hclear
    replace hplace := hplace hv
    rw [hcanonical] at hsystem hv
    obtain ⟨extra, hextra, heq⟩ := unlinked_relative hrelative
    have hact : ∀ current leaf (s₂ : System σ), locate current leaf = location p.directory ++ names →
        Asks Request.Confined s₂ (s₂.unlinkFile h.files current leaf p.trailing).2 := by
      intro current leaf s₂ hat
      refine .one (q := .unlinkFile (locate current leaf)) ?_ rfl rfl
      rw [hat, hplace]
      exact ⟨hv, by simpa using hsystem⟩
    have hwalk := (walk_asks (p := h.files) (s := s₁)
      (fun current leaf s => (.ok (s.unlinkFile h.files current leaf p.trailing).1,
        (s.unlinkFile h.files current leaf p.trailing).2)) hnames hdot hextra heq
      (fun e he => confined_above hwhole hv (hplace ▸ he)) hact).1
    dsimp only
    split
    next hend =>
      rw [hend] at hwalk
      exact hs₁.asks hwalk
    next hend =>
      rw [hend] at hwalk
      exact hs₁.asks hwalk

/-- A file of the provider is not in a virtual tree. -/
theorem classify_ok {t : Table} {p : PathInfo} {kind : Nat} (hc : t.classify p = .ok kind) :
    kind = device p.canonical ∧ (kind = 0 → ¬ Virtual p.canonical) := by
  unfold Table.classify at hc
  dsimp only at hc
  split at hc
  · cases hc
  split at hc
  · cases hc
  next hclear =>
  split at hc
  · cases hc
  split at hc
  · cases hc
  split at hc
  · cases hc
  · have hkind := Except.ok.inj hc
    refine ⟨hkind.symm, fun hzero hv => hclear ⟨hkind.trans hzero, hv⟩⟩

/-- A lookup is confined to the place of its path. -/
theorem Confined.lookup (hs : s.Confined) {p : PathInfo} {cs : List Name} (hp : p.Located cs) {kind : Nat}
    (hc : s.table.classify p = .ok kind) : (s.lookup h kind p).2.Confined := by
  unfold System.lookup
  split
  · exact hs
  next hkind =>
    have hv := (classify_ok hc).2 (Decidable.not_not.1 hkind)
    obtain ⟨hwhole, hcanonical, names, hnames, hdot, hrelative, hplace⟩ := hp
    replace hplace := hplace hv
    rw [hcanonical] at hv
    have hact : ∀ current leaf (s₂ : System σ), locate current leaf = location p.directory ++ names →
        Asks Request.Confined s₂ (s₂.statAt h.files current leaf).2 := by
      intro current leaf s₂ hat
      refine .one (q := .stat (locate current leaf)) ?_ rfl rfl
      rw [hat, hplace]
      exact hv
    have hwalk := (walk_asks (p := h.files) (s := s) _ hnames hdot (.inl rfl)
      (hrelative.trans (congrArg join (List.append_nil names).symm))
      (fun e he => confined_above hwhole hv (hplace ▸ he)) hact).1
    split
    next hend =>
      rw [hend] at hwalk
      exact hs.asks hwalk
    next hend =>
      rw [hend] at hwalk
      split
      · exact hs.asks hwalk
      · exact hs.asks hwalk

/-- The copy of a stat record asks the provider nothing. -/
theorem Confined.statBytes (hs : s.Confined) {buffer : Nat} {info : FileInfo} : (s.statBytes buffer info).2.Confined :=
  ⟨hs.settled, hs.asked⟩

/-- faccessat is confined. -/
theorem Confined.faccessat (hs : s.Confined) {dirfd : Int} {address : Nat} {flags : BitVec 32} :
    (s.faccessat h dirfd address flags).2.Confined := by
  unfold System.faccessat
  split
  · exact hs
  split
  next error s₁ heq => exact (hs.path heq).1
  next p s₁ heq =>
  obtain ⟨hs₁, hlocated⟩ := hs.path heq
  obtain ⟨cs, hp⟩ := hlocated p rfl
  split
  · exact hs₁
  next kind hkind =>
  have hlook := hs₁.lookup (h := h) hp hkind
  split
  next heq =>
    rw [heq] at hlook
    exact hlook
  next heq =>
    rw [heq] at hlook
    dsimp only
    split
    · exact hlook
    split
    · exact hlook
    · exact hlook

/-- newfstatat is confined. -/
theorem Confined.newfstatat (hs : s.Confined) {dirfd : Int} {address buffer : Nat} {flags : BitVec 64} :
    (s.newfstatat h dirfd address buffer flags).2.Confined := by
  unfold System.newfstatat
  split
  · exact hs
  split
  next error s₁ heq => exact (hs.path heq).1
  next p s₁ heq =>
  obtain ⟨hs₁, hlocated⟩ := hs.path heq
  obtain ⟨cs, hp⟩ := hlocated p rfl
  split
  · exact hs₁
  next kind hkind =>
  split
  · exact hs₁
  have hlook := hs₁.lookup (h := h) hp hkind
  split
  next heq =>
    rw [heq] at hlook
    exact hlook
  next heq =>
    rw [heq] at hlook
    exact hlook.statBytes

/-- What openat opens below `system` it opens to read. -/
theorem openError_system {canonical : Name} {flags : BitVec 32} {kind : Nat}
    (ho : openError kind canonical flags = none)
    (hs : below canonical system = true) : flags &&& 3 = 0 ∧ flags &&& (0x40 ||| 0x200) = 0 := by
  by_contra hnot
  have hwrites : below canonical system ∧ (flags &&& 3 ≠ 0 ∨ flags &&& (0x40 ||| 0x200) ≠ 0) :=
    ⟨hs, Decidable.not_and_iff_not_or_not.1 hnot⟩
  unfold openError at ho
  rw [if_pos hwrites] at ho
  split at ho
  · cases ho
  split at ho
  · cases ho
  split at ho
  · cases ho
  split at ho
  · cases ho
  split at ho
  · cases ho
  split at ho
  · cases ho
  split at ho
  · cases ho
  · cases ho

/-- The flags that the provider gets have the same bits of these. -/
theorem and_native {flags mask : BitVec 32} {trailing : Bool} (hmask : (0x4000 : BitVec 32) &&& mask = 0) :
    (flags ||| if trailing then 0x4000 else 0) &&& mask = flags &&& mask := by
  cases trailing with
  | true =>
    show (flags ||| 0x4000) &&& mask = _
    rw [BitVec.and_or_distrib_right, hmask]
    exact BitVec.or_zero
  | false => simp

/-- The open of a device is confined: the provider is not asked. -/
theorem Confined.openDevice (hs : s.Confined) {slot caller : Nat} {d : Descriptor}
    (hd : ∀ token, ({ d with vm := caller, token } : Descriptor).Settled) :
    (s.openDevice h slot caller d).2.Confined := by
  unfold System.openDevice
  split
  · exact ⟨hs.settled, hs.asked⟩
  next token files _ =>
    have hs₁ : ∀ files : σ, System.Confined { s with files } := fun files => ⟨hs.settled, hs.asked⟩
    dsimp only
    split
    · exact hs₁ _
    · exact (hs₁ _).install fun _ => hd token

/-- The leaf is opened at its place. -/
theorem openLeaf_asks {flags mode : BitVec 32} {current : Option Handle} {leaf : Name}
    (hopen : P (.openFile (locate current leaf) flags)) (hstat : P (.stat (locate current leaf))) :
    Asks P s (openLeaf h flags mode current leaf s).2 ∧
      ∀ handle directory, (openLeaf h flags mode current leaf s).1 = .ok (handle, directory) →
        handle.location = locate current leaf := by
  have hasks : Asks P s (s.openFile h.files current leaf flags mode).2 := .one hopen rfl rfl
  unfold openLeaf
  split
  next error s₁ heq =>
    rw [heq] at hasks
    exact ⟨hasks, nofun⟩
  next handle s₁ heq =>
    rw [heq] at hasks
    have hat : handle.location = locate current leaf := openFile_location (congrArg Prod.fst heq)
    have hstatted : Asks P s (s₁.statFile h.files (some handle)).2 := by
      refine hasks.trans (.one (q := .stat handle.location) ?_ rfl rfl)
      rw [hat]
      exact hstat
    split
    next heq' =>
      rw [heq'] at hstatted
      exact ⟨hstatted.closeFile _, nofun⟩
    next heq' =>
      rw [heq'] at hstatted
      refine ⟨hstatted, fun opened directory hopened => ?_⟩
      rw [← (Prod.mk.inj (Except.ok.inj hopened)).1]
      exact hat

/-- A device is in a virtual tree and has no handle. -/
theorem settled_device {kind vm token : Nat} {flags : BitVec 32} {canonical : Name} {cs : List Name}
    (hcs : Whole slash cs) (hcanonical : canonical = join cs) (hdevice : kind = device canonical) (hne : kind ≠ 0) :
    Descriptor.Settled { kind, flags, directory := virtualDirectory kind, path := canonical, vm, token } := by
  have hv : Virtual canonical := device_virtual (hdevice ▸ hne)
  refine ⟨cs, hcs, hcanonical, ?_⟩
  split
  next hfive =>
    refine absurd (hdevice.symm.trans hfive) ?_
    unfold device
    repeat' split
    all_goals decide
  · exact fun _ => ⟨rfl, hv⟩

/-- openat is confined. -/
theorem Confined.openat (hs : s.Confined) {caller : Nat} {dirfd : Int} {address : Nat} {flags mode : BitVec 32} :
    (s.openat h caller dirfd address flags mode).2.Confined := by
  unfold System.openat
  split
  next error s₁ heq => exact (hs.path heq).1
  next p s₁ heq =>
  obtain ⟨hs₁, hlocated⟩ := hs.path heq
  obtain ⟨cs, hwhole, hcanonical, names, hnames, hdot, hrelative, hplace⟩ := hlocated p rfl
  split
  · exact hs₁
  next kind hkind =>
  obtain ⟨hdevice, hregular⟩ := classify_ok hkind
  split
  · exact hs₁
  split
  · exact hs₁
  next hflags =>
  split
  · exact hs₁
  next slot _ =>
  dsimp only
  split
  next hnine =>
    have hne : kind ≠ 0 := by
      rw [hnine]
      decide
    rw [if_pos hne]
    exact hs₁.openDevice fun token => settled_device hwhole hcanonical hdevice hne
  split
  next hne => exact hs₁.install fun _ => settled_device hwhole hcanonical hdevice hne
  next hzero =>
  have hv := hregular (Decidable.not_not.1 hzero)
  replace hplace := hplace hv
  -- what the walk opens lies where the path was settled, and is not made anew below `system`
  have hopen : ∀ current leaf, locate current leaf = location p.directory ++ names →
      Request.Confined (.openFile (locate current leaf) (flags ||| if p.trailing then 0x4000 else 0)) ∧
        Request.Confined (.stat (locate current leaf)) := by
    intro current leaf hat
    rw [hat, hplace]
    rw [hcanonical] at hv hflags
    refine ⟨⟨hv, fun hbelow => ?_⟩, hv⟩
    rw [and_native rfl, and_native rfl]
    exact openError_system hflags hbelow
  obtain ⟨hwalk, hopened⟩ := walk_asks (P := Request.Confined) (p := h.files) (s := s₁)
    (openLeaf h (flags ||| if p.trailing then 0x4000 else 0) (mode &&& 0o777)) hnames hdot (.inl rfl)
    (hrelative.trans (congrArg join (List.append_nil names).symm))
    (fun e he => confined_above hwhole (hcanonical ▸ hv) (hplace ▸ he))
    fun current leaf s₂ hat => (openLeaf_asks (hopen current leaf hat).1 (hopen current leaf hat).2).1
  split
  next hend =>
    rw [hend] at hwalk
    exact hs₁.asks hwalk
  next handle directory s₂ hend =>
    rw [hend] at hwalk hopened
    obtain ⟨current, leaf, s₃, hat, hleaf⟩ := hopened _ rfl
    have hlocation := (openLeaf_asks (hopen current leaf hat).1 (hopen current leaf hat).2).2 handle directory hleaf
    refine (hs₁.asks hwalk).install fun _ => ⟨cs, hwhole, hcanonical, ?_⟩
    refine ⟨⟨handle.file, ?_⟩, hv⟩
    show some handle = _
    rw [← hplace, ← hat, ← hlocation]

/-! ## Calls on a descriptor -/

/-- close is confined. -/
theorem Confined.close (hs : s.Confined) {fd : Int} : (s.close h fd).2.Confined := by
  unfold System.close
  split
  · exact hs
  next d _ =>
    have hclosed : System.Confined (if d.kind = 5 then s.closeFile h.files d.handle else (0, s)).2 := by
      split
      · exact ⟨hs.settled, hs.asked⟩
      · exact hs
    exact hclosed.install fun hne => absurd rfl hne

/-- What another model answers changes only the files. -/
theorem Confined.special (hs : s.Confined) {caller : Nat} {d : Descriptor} {reads writes : Bool} {address count : Nat}
    {r : Int × System σ} (hr : s.special h caller d reads writes address count = some r) : r.2.Confined := by
  unfold System.special at hr
  dsimp only at hr
  repeat' split at hr
  all_goals cases hr
  all_goals exact ⟨hs.settled, hs.asked⟩

/-- lseek is confined. -/
theorem Confined.lseek (hs : s.Confined) {caller : Nat} {fd offset : Int} {origin : BitVec 32} :
    (s.lseek h caller fd offset origin).2.Confined := by
  unfold System.lseek
  split
  · exact hs
  next d hget =>
  split
  next hr => exact hs.special hr
  split
  · exact hs
  split
  · split
    · exact hs
    split
    · exact hs
    · dsimp only
      generalize (if origin = 1 then (d.position : Int) else 0) = base
      split
      · exact hs
      · exact hs.install fun _ => (hs.settled.get hget).moved _
  split
  · exact hs
  · exact ⟨hs.settled, hs.asked⟩

/-- A regular descriptor may be asked about. -/
theorem stat_confined {t : Table} (ht : t.Settled) {fd : Int} {d : Descriptor} (hget : t.get fd = some d)
    (hkind : d.kind = 5) : Request.Confined (.stat (location d.handle)) := by
  obtain ⟨cs, _, hpath, hplace⟩ := ht.get hget
  rw [if_pos hkind] at hplace
  obtain ⟨⟨file, hhandle⟩, hv⟩ := hplace
  rw [hhandle]
  rw [hpath] at hv
  exact hv

/-- fstat is confined. -/
theorem Confined.fstat (hs : s.Confined) {fd : Int} {buffer : Nat} : (s.fstat h fd buffer).2.Confined := by
  unfold System.fstat
  split
  · exact hs
  next d hget =>
  split
  · exact hs
  split
  next hkind =>
    have hasked : (s.statFile h.files d.handle).2.Confined :=
      hs.asks (.one (stat_confined hs.settled hget hkind) rfl rfl)
    split
    next heq =>
      rw [heq] at hasked
      exact hasked
    next heq =>
      rw [heq] at hasked
      exact hasked.statBytes
  · exact hs.statBytes

/-! ## Reading and writing -/

/-- A transfer asks nothing about a name. -/
theorem transfer_asks {d : Descriptor} {writing : Bool} {address length : Nat} :
    Asks P s (s.transfer h d writing address length).2 := by
  unfold System.transfer
  generalize (if writing = true then (1 : BitVec 2) else 2) = access
  split
  · exact .refl s
  split
  · exact .refl s
  split
  · exact .refl s
  · cases writing with
    | true => exact .quiet rfl rfl
    | false => exact .quiet rfl rfl

/-- A fragment of a file's transfer asks at most for the file's state. -/
theorem fileFragment_asks {d : Descriptor} {writing : Bool} {position address chunk : Nat}
    (hstat : P (.stat (location d.handle))) : Asks P s (s.fileFragment h d writing position address chunk).system := by
  have hmoved : Asks P s (s.transfer h d writing address chunk).2 := transfer_asks
  unfold System.fileFragment
  dsimp only
  split
  · have hsought : Asks P s ((s.transfer h d writing address chunk).2.seekFile h.files d.handle 0 1).2 :=
      hmoved.trans (.quiet rfl rfl)
    split
    · exact hsought
    · generalize ((s.transfer h d writing address chunk).2.seekFile h.files d.handle 0 1).2 = s₁ at hsought
      have hstatted : Asks P s (s₁.statFile h.files d.handle).2 := hsought.trans (.one hstat rfl rfl)
      split
      next heq =>
        rw [heq] at hstatted
        exact hstatted
      next heq =>
        rw [heq] at hstatted
        exact hstatted
  · exact hmoved

/-- A fragment of a transfer asks at most for the file's state. -/
theorem fragment_asks {d : Descriptor} {writing : Bool} {position address chunk : Nat}
    (hstat : d.kind = 5 → P (.stat (location d.handle))) :
    Asks P s (s.fragment h d writing position address chunk).system := by
  unfold System.fragment
  split
  · unfold System.commandlineFragment
    dsimp only
    split
    · exact .quiet rfl rfl
    · exact .quiet rfl rfl
  split
  next hkind => exact fileFragment_asks (hstat hkind)
  · unfold System.deviceFragment
    dsimp only
    generalize (if d.kind = 3 then h.random (min chunk 256) s.files else ((0, fun _ => 0), s.files)) = r
    split
    · exact .quiet rfl rfl
    · exact .quiet rfl rfl

/-- The loop of a transfer asks at most for the file's state. -/
theorem transferLoop_asks {d : Descriptor} {writing : Bool} {start count turns done position : Nat}
    (hstat : d.kind = 5 → P (.stat (location d.handle))) :
    Asks P s (transferLoop h d writing start count turns done position s).2.2 := by
  induction turns generalizing done position s with
  | zero => exact .refl s
  | succ turns ih =>
    have hone : Asks P s (s.fragment h d writing position (start + done)
        (min (s.space.pageSize - (start + done) % s.space.pageSize) (count - done))).system := fragment_asks hstat
    unfold transferLoop
    dsimp only
    split
    · exact .refl s
    split
    · exact .refl s
    split
    · exact hone
    split
    · exact hone
    · exact hone.trans ih

/-- Reads and writes are confined. -/
theorem Confined.readWrite (hs : s.Confined) {caller : Nat} {fd : Int} {writing : Bool} {address count : Nat} :
    (s.readWrite h caller fd writing address count).2.Confined := by
  unfold System.readWrite
  split
  · exact hs
  next d hget =>
  split
  next hr => exact hs.special hr
  dsimp only
  split
  · exact hs
  split
  · exact hs
  split
  · exact hs
  split
  · exact hs
  split
  · exact hs
  · have hmoved : (transferLoop h d writing address (min count s.transferCap) (min count s.transferCap + 1) 0 d.position
        s).2.2.Confined := hs.asks (transferLoop_asks (stat_confined hs.settled hget))
    refine hmoved.install fun _ => ?_
    exact (hs.settled.get hget).moved _

/-! ## Runs -/

/-- Every call is confined. -/
theorem Confined.perform (hs : s.Confined) (op : Op) : (s.perform h op).2.Confined := by
  cases op with
  | call c =>
    cases c with
    | unlinkat dirfd address flags => exact hs.unlinkat
    | faccessat dirfd address flags => exact hs.faccessat
    | openat caller dirfd address flags mode => exact hs.openat
    | newfstatat dirfd address buffer flags => exact hs.newfstatat
    | close fd => exact hs.close
    | lseek caller fd offset origin => exact hs.lseek
    | fstat fd buffer => exact hs.fstat
    | read caller fd address count => exact hs.readWrite
    | write caller fd address count => exact hs.readWrite
  | create w flags vm =>
    unfold System.perform
    dsimp only
    split
    · exact hs
    · refine hs.install fun _ => ⟨[], nofun, rfl, ?_⟩
      cases w with
      | epoll => exact nofun
      | eventfd => exact nofun
      | timerfd => exact nofun
  | setBinder =>
    unfold System.perform
    dsimp only
    split
    · exact hs
    · exact ⟨⟨hs.settled.settled⟩, hs.asked⟩
  | setCommandline bytes =>
    unfold System.perform
    dsimp only
    repeat' split
    all_goals first | exact hs | exact ⟨⟨hs.settled.settled⟩, hs.asked⟩

/-- Every reachable log is confined. -/
theorem reachable_confined (hr : (machine σ).Reachable s) : s.Confined := by
  refine hr.inv ?_ ?_
  · intro s hinit
    obtain ⟨hfree, _, _, hlog⟩ := hinit
    refine ⟨⟨fun d hd hkind => ?_⟩, fun r hr => ?_⟩
    · rw [hfree d hd] at hkind
      exact absurd rfl hkind
    · rw [hlog] at hr
      cases hr
  · intro s s' hs hstep
    obtain ⟨h, op, files, space, guest, rfl⟩ := hstep
    have hs' : System.Confined { s with files, space, guest } := ⟨hs.settled, hs.asked⟩
    exact hs'.perform op

/-- Normalization takes the components, another slash or `./` behind a slash makes no difference to it,
and over every run the provider is asked only for what the canonical path of a call allows. -/
theorem paths_confined (hr : (machine σ).Reachable s) :
    (∀ (t : Table) (space : Space) (guest : Guest) (address : Nat) (dirfd : Int) (p : PathInfo),
      (t.path space guest address dirfd).1 = .ok p →
        ∃ bytes, StringAt guest address bytes ∧ t.normalize dirfd bytes = .ok p ∧ p.Names t dirfd bytes) ∧
    (∀ (t : Table) (dirfd : Int) (u v extra : Name), extra = [] ∨ extra = dot →
      (t.normalize dirfd (u ++ slash :: (extra ++ slash :: v))).map PathInfo.named =
        (t.normalize dirfd (u ++ slash :: v)).map PathInfo.named) ∧
    s.table.Settled ∧ ∀ r ∈ s.log, r.Confined := by
  have hs := reachable_confined hr
  refine ⟨fun t space guest address dirfd p hp => ?_, fun t dirfd u v extra => normalize_doubled t dirfd u v,
    hs.settled, hs.asked⟩
  obtain ⟨bytes, hat, _, hnormalize⟩ := path_string hp
  exact ⟨bytes, hat, hnormalize, normalize_names hnormalize⟩

/-! ## A run -/

/-- A provider that has a directory under every name. -/
def sampleProvider : Provider Unit where
  openFile _ _ _ _ _ := (.ok 1, ())
  closeFile _ _ := (0, ())
  readFile _ _ _ := ((0, []), ())
  writeFile _ _ _ := (0, ())
  seekFile _ _ _ _ := (0, ())
  statFile _ _ := (.ok { mode := 0o040755 }, ())
  statAt _ _ _ := (.ok { mode := 0o040755 }, ())
  unlinkFile _ _ _ _ := (0, ())

def sampleHost : Host Unit where
  files := sampleProvider
  random _ _ := ((0, fun _ => 7), ())
  deviceOpen _ := (.ok 1, ())
  setNonblocking _ _ _ := (0, ())
  waitFor _ _ _ _ _ := (0, ())

/-- One page that the guest reads and writes. -/
def sampleSpace : Space where
  pageSize := 4096
  limit := 4096
  regionLimit := 1
  regions := [.uniform 4096 4096 1 { mapped := true, protection := 3 }]

/-- The page begins with a string. -/
def sampleGuest (string : Name) : Guest where
  byte n := string.getD (n - 4096) 0

/-- A new table, where the guest has a string. -/
def sampleSystem (string : Name) : System Unit where
  table := { descriptors := [{}, {}] }
  files := ()
  space := sampleSpace
  guest := sampleGuest string

/-- The table after `/system//./lib` was opened to read. -/
def sampleOpened : System Unit :=
  ((sampleSystem (slash :: system ++ [slash, slash, period, slash] ++ ascii ['l', 'i', 'b'])).perform sampleHost
    (.call (.openat 0 (-100) 4096 0x4000 0))).2

/-- The sample opens the directory above the name that it asks for, inside the root. -/
theorem paths_confined_sample :
    sampleOpened.log = [.stat [system, ascii ['l', 'i', 'b']], .openFile [system, ascii ['l', 'i', 'b']] 0x4000,
      .openFile [system] 0x84000] ∧ ∀ r ∈ sampleOpened.log, r.Confined := by
  have hreach : (machine Unit).Reachable sampleOpened := by
    have hstart : (machine Unit).Reachable (sampleSystem []) := .init ⟨by decide, rfl, rfl, rfl⟩
    exact hstart.step ⟨sampleHost, .call (.openat 0 (-100) 4096 0x4000 0), (), sampleSpace, sampleGuest _, rfl⟩

  exact ⟨by decide, (paths_confined hreach).2.2.2⟩

end System

end Artbox.Files
