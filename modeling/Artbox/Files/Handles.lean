import Artbox.Files.Confinement
import Artbox.Lib.Holdings
import Artbox.Lib.Trace

/-!
# Handles of the provider

A file that a call opens is closed by the call or is in a descriptor, and a descriptor's file is
closed with it. A provider that writes down what it is asked (`Provider.recorded`) shows this of
every run: it is only ever given handles that are open, and what is open is what the descriptors
have (`Ledger`).
-/

namespace Artbox.Files

open Vm (Space Guest)
open Trace

/-! ## A provider that writes down what it is asked -/

/-- What a provider is asked, as far as its handles go. -/
inductive HandleCall
  /-- A file is opened in a directory. -/
  | opened (directory : Option Handle) (handle : Handle)
  /-- A directory is searched: an open that fails, a stat or an unlink by name. -/
  | searched (directory : Option Handle)
  /-- A file is read, written, asked for its metadata or its position. -/
  | used (handle : Option Handle)
  | closed (handle : Option Handle)
deriving DecidableEq, Repr

/-- Which calls open and which close. -/
def handles : Holdings HandleCall Handle where
  takes
    | .opened _ handle => some handle
    | _ => none
  gives
    | .closed handle => handle
    | _ => none

/-- The handle was opened and has not been closed as often. -/
def Open (log : List HandleCall) (handle : Handle) : Prop := handle ∈ handles.taken log - handles.given log

/-- What a provider is given is open; for a directory the null pointer is the root. -/
def Lawful : HandleCall → List HandleCall → Prop
  | .opened directory _, older | .searched directory, older => ∀ h ∈ directory, Open older h
  | .used handle, older | .closed handle, older => ∃ h ∈ handle, Open older h

section Recorded

variable {σ : Type}

def Provider.recorded (p : Provider σ) : Provider (σ × List HandleCall) where
  openFile directory name flags mode x :=
    let r := p.openFile directory name flags mode x.1
    let call := match r.1 with
      | .ok file => .opened directory ⟨file, locate directory name⟩
      | .error _ => .searched directory
    (r.1, r.2, call :: x.2)
  closeFile handle x :=
    let r := p.closeFile handle x.1
    (r.1, r.2, .closed handle :: x.2)
  readFile handle length x :=
    let r := p.readFile handle length x.1
    (r.1, r.2, .used handle :: x.2)
  writeFile handle bytes x :=
    let r := p.writeFile handle bytes x.1
    (r.1, r.2, .used handle :: x.2)
  seekFile handle offset origin x :=
    let r := p.seekFile handle offset origin x.1
    (r.1, r.2, .used handle :: x.2)
  statFile handle x :=
    let r := p.statFile handle x.1
    (r.1, r.2, .used handle :: x.2)
  statAt directory name x :=
    let r := p.statAt directory name x.1
    (r.1, r.2, .searched directory :: x.2)
  unlinkFile directory name trailing x :=
    let r := p.unlinkFile directory name trailing x.1
    (r.1, r.2, .searched directory :: x.2)

def Host.recorded (h : Host σ) : Host (σ × List HandleCall) where
  files := h.files.recorded
  random n x :=
    let r := h.random n x.1
    (r.1, r.2, x.2)
  deviceOpen x :=
    let r := h.deviceOpen x.1
    (r.1, r.2, x.2)
  setNonblocking token enabled x :=
    let r := h.setNonblocking token enabled x.1
    (r.1, r.2, x.2)
  waitFor d writing address count x :=
    let r := h.waitFor d writing address count x.1
    (r.1, r.2, x.2)

@[simp] theorem Host.recorded_files (h : Host σ) : h.recorded.files = h.files.recorded := rfl

end Recorded

/-! ## The ledger -/

/-- Every call was lawful, and what was opened is closed or in hand. -/
structure Ledger (log : List HandleCall) (hand : Multiset Handle) : Prop where
  holds : handles.Holds log hand
  lawful : Always Lawful log

namespace Ledger

variable {log : List HandleCall} {hand : Multiset Handle} {directory : Option Handle} {handle : Handle}

/-- No call leaves nothing open. -/
theorem nil : Ledger [] 0 := ⟨rfl, trivial⟩

/-- A handle in hand is open. -/
theorem isOpen (hl : Ledger log hand) (hmem : handle ∈ hand) : Open log handle := by
  unfold Open
  rw [← hl.holds.hand_eq]
  exact hmem

/-- A call that opens adds its handle to those in hand. -/
theorem opened (hl : Ledger log hand) (hd : ∀ h ∈ directory, h ∈ hand) :
    Ledger (.opened directory handle :: log) (handle ::ₘ hand) :=
  ⟨hl.holds.take rfl rfl, fun h hh => hl.isOpen (hd h hh), hl.lawful⟩

/-- A search in an open directory leaves what is in hand. -/
theorem searched (hl : Ledger log hand) (hd : ∀ h ∈ directory, h ∈ hand) :
    Ledger (.searched directory :: log) hand :=
  ⟨hl.holds.quiet rfl rfl, fun h hh => hl.isOpen (hd h hh), hl.lawful⟩

/-- A use of a handle in hand leaves what is in hand. -/
theorem used (hl : Ledger log hand) (hmem : handle ∈ hand) : Ledger (.used (some handle) :: log) hand :=
  ⟨hl.holds.quiet rfl rfl, ⟨handle, rfl, hl.isOpen hmem⟩, hl.lawful⟩

/-- A close takes its handle from the hand. -/
theorem closed (hl : Ledger log (handle ::ₘ hand)) : Ledger (.closed (some handle) :: log) hand :=
  ⟨hl.holds.give rfl rfl, ⟨handle, rfl, hl.isOpen (Multiset.mem_cons_self handle hand)⟩, hl.lawful⟩

end Ledger

/-- None or one. -/
def owns (handle : Option Handle) : Multiset Handle := handle.elim 0 ({·})

/-- Who owns no handle owns nothing. -/
@[simp] theorem owns_none : owns none = 0 := rfl

/-- Who owns a handle owns it once. -/
@[simp] theorem owns_some (handle : Handle) : owns (some handle) = {handle} := rfl

/-- The table stays, and this is in hand. -/
structure Carries {σ : Type} (s s' : System (σ × List HandleCall)) (hand : Multiset Handle) : Prop where
  table : s'.table = s.table
  ledger : Ledger s'.files.2 hand

namespace System

variable {σ : Type} {p : Provider σ} {s s' : System (σ × List HandleCall)} {hand : Multiset Handle}
  {directory : Option Handle}

/-- What a result adds to what is in hand. -/
def gains {α : Type} (f : α → Multiset Handle) : Except Int α → Multiset Handle
  | .ok a => f a
  | .error _ => 0

/-- A result that is a success gains what it says. -/
@[simp] theorem gains_ok {α : Type} (f : α → Multiset Handle) (a : α) : gains f (.ok a) = f a := rfl

/-- An error gains nothing. -/
@[simp] theorem gains_error {α : Type} (f : α → Multiset Handle) (error : Int) : gains f (.error error) = 0 := rfl

/-- An open that succeeds gains one handle. -/
theorem carries_openFile {name : Name} {flags mode : BitVec 32} (hs : Carries s s' hand)
    (hd : ∀ h ∈ directory, h ∈ hand) : Carries s (s'.openFile p.recorded directory name flags mode).2
      (gains ({·}) (s'.openFile p.recorded directory name flags mode).1 + hand) := by
  refine ⟨hs.table, ?_⟩
  unfold System.openFile Provider.recorded
  dsimp only
  cases (p.openFile directory name flags mode s'.files.1).1 with
  | ok file => exact hs.ledger.opened hd
  | error error =>
    change Ledger _ (0 + hand)
    rw [zero_add]
    exact hs.ledger.searched hd

/-- A close gives up its handle. -/
theorem carries_closeFile {handle : Handle} (hs : Carries s s' (handle ::ₘ hand)) :
    Carries s (s'.closeFile p.recorded (some handle)).2 hand :=
  ⟨hs.table, hs.ledger.closed⟩

/-- A seek keeps the handles in hand. -/
theorem carries_seekFile {handle : Handle} {offset : Int} {origin : BitVec 32} (hs : Carries s s' hand)
    (hmem : handle ∈ hand) : Carries s (s'.seekFile p.recorded (some handle) offset origin).2 hand :=
  ⟨hs.table, hs.ledger.used hmem⟩

/-- A stat of an open file keeps the handles in hand. -/
theorem carries_statFile {handle : Handle} (hs : Carries s s' hand) (hmem : handle ∈ hand) :
    Carries s (s'.statFile p.recorded (some handle)).2 hand :=
  ⟨hs.table, hs.ledger.used hmem⟩

/-- A stat of a name keeps the handles in hand. -/
theorem carries_statAt {name : Name} (hs : Carries s s' hand) (hd : ∀ h ∈ directory, h ∈ hand) :
    Carries s (s'.statAt p.recorded directory name).2 hand :=
  ⟨hs.table, hs.ledger.searched hd⟩

/-- An unlink keeps the handles in hand. -/
theorem carries_unlinkFile {name : Name} {trailing : Bool} (hs : Carries s s' hand)
    (hd : ∀ h ∈ directory, h ∈ hand) : Carries s (s'.unlinkFile p.recorded directory name trailing).2 hand :=
  ⟨hs.table, hs.ledger.searched hd⟩

/-- What a path owns is given up. -/
theorem carries_closeOwned {owned : Option Handle} (hs : Carries s s' (owns owned + hand)) :
    Carries s (s'.closeOwned p.recorded owned) hand := by
  unfold System.closeOwned
  cases owned with
  | none =>
    rw [if_pos rfl]
    exact ⟨hs.table, by simpa using hs.ledger⟩
  | some handle =>
    rw [if_neg (Option.some_ne_none handle)]
    refine carries_closeFile ⟨hs.table, ?_⟩
    rw [← Multiset.singleton_add]
    exact hs.ledger

/-! ## The walk -/

/-- The walk has at most the directory it is in, and that is where it acts. -/
theorem carries_resolve {parts : List Name} {current owned : Option Handle}
    (hs : Carries s s' (owns owned + hand)) (hcurrent : ∀ h ∈ current, h ∈ owns owned + hand) :
    Carries s (resolve p.recorded parts current owned s').2.2
        (owns (resolve p.recorded parts current owned s').2.1 + hand) ∧
      ∀ current' leaf, (resolve p.recorded parts current owned s').1 = .ok (current', leaf) →
        ∀ h ∈ current', h ∈ owns (resolve p.recorded parts current owned s').2.1 + hand := by
  induction parts generalizing current owned s' with
  | nil =>
    refine ⟨hs, fun current' leaf heq => ?_⟩
    obtain ⟨rfl, _⟩ := Prod.mk.inj (Except.ok.inj heq)
    exact hcurrent
  | cons component rest ih =>
    cases rest with
    | nil =>
      refine ⟨hs, fun current' leaf heq => ?_⟩
      obtain ⟨rfl, _⟩ := Prod.mk.inj (Except.ok.inj heq)
      exact hcurrent
    | cons after rest =>
      have hopened : Carries s (s'.openFile p.recorded current component 0x84000 0).2
          (gains ({·}) (s'.openFile p.recorded current component 0x84000 0).1 + (owns owned + hand)) :=
        carries_openFile hs hcurrent
      unfold resolve
      split
      next error s₁ heq =>
        rw [heq] at hopened
        refine ⟨?_, nofun⟩
        rw [gains_error, zero_add] at hopened
        exact hopened
      next next s₁ heq =>
        rw [heq] at hopened
        rw [gains_ok] at hopened
        have hnext : ∀ h ∈ some next, h ∈ owns (some next) + hand := by
          rintro h ⟨rfl⟩
          exact Multiset.mem_add.2 (.inl (Multiset.mem_singleton_self _))
        cases owned with
        | none =>
          rw [if_pos rfl]
          refine ih ⟨hopened.table, ?_⟩ hnext
          simpa using hopened.ledger
        | some old =>
          rw [if_neg (Option.some_ne_none old)]
          -- the directory before is let go
          have hclosed : Carries s (s₁.closeFile p.recorded (some old)).2 (owns (some next) + hand) := by
            refine carries_closeFile ⟨hopened.table, ?_⟩
            rw [owns_some, ← Multiset.singleton_add, add_left_comm]
            exact hopened.ledger
          dsimp only
          split
          · exact ⟨hclosed, nofun⟩
          · exact ih hclosed hnext

/-- A walk lets go of all it opened; what is left is what it was for. -/
theorem carries_walk {α : Type} {f : α → Multiset Handle} {relative : Name}
    {act : Option Handle → Name → System (σ × List HandleCall) → Except Int α × System (σ × List HandleCall)}
    (hs : Carries s s' hand) (hd : ∀ h ∈ directory, h ∈ hand)
    (hact : ∀ current leaf s₁ hand', Carries s s₁ hand' → (∀ h ∈ current, h ∈ hand') →
      Carries s (act current leaf s₁).2 (gains f (act current leaf s₁).1 + hand')) :
    Carries s (s'.walk p.recorded directory relative act).2
      (gains f (s'.walk p.recorded directory relative act).1 + hand) := by
  have hstart : Carries s s' (owns none + hand) := ⟨hs.table, by simpa using hs.ledger⟩
  have hroot : ∀ h ∈ directory, h ∈ owns none + hand := by simpa using hd
  obtain ⟨hresolved, hplace⟩ := @carries_resolve σ p s s' hand (relative.splitOn slash) directory none hstart hroot
  unfold walk
  split
  next error owned s₁ heq =>
    rw [heq] at hresolved
    rw [gains_error, zero_add]
    exact carries_closeOwned hresolved
  next current leaf owned s₁ heq =>
    rw [heq] at hresolved hplace
    have hacted := hact current leaf s₁ _ hresolved (hplace current leaf rfl)
    rw [add_left_comm] at hacted
    exact carries_closeOwned hacted

end System

/-! ## The table -/

/-- The handles of the descriptors. -/
def Table.held (t : Table) : Multiset Handle := ↑(t.descriptors.filterMap (·.handle))

/-- Files of the provider have handles, and nothing else has one. -/
def Descriptor.Filed (d : Descriptor) : Prop := d.kind = 5 ↔ d.handle.isSome = true

/-- What a table holds is what one descriptor owns and what the others hold. -/
theorem held_append_cons (l l' : List Descriptor) (d : Descriptor) :
    (↑((l ++ d :: l').filterMap (·.handle)) : Multiset Handle) =
      owns d.handle + ↑((l ++ l').filterMap (·.handle)) := by
  rw [List.filterMap_append, List.filterMap_append, List.filterMap_cons]
  cases d.handle with
  | none => exact (zero_add _).symm
  | some handle =>
    rw [owns_some, Multiset.singleton_add, Multiset.cons_coe, Multiset.coe_eq_coe]
    exact List.perm_middle

/-- What the other descriptors have stays when one changes. -/
theorem held_set {t : Table} {slot : Nat} {old : Descriptor} (h : t.descriptors[slot]? = some old) :
    ∃ rest, t.held = owns old.handle + rest ∧
      ∀ d, ({ t with descriptors := t.descriptors.set slot d } : Table).held = owns d.handle + rest := by
  obtain ⟨hlt, rfl⟩ := List.getElem?_eq_some_iff.1 h
  refine ⟨↑((t.descriptors.take slot ++ t.descriptors.drop (slot + 1)).filterMap (·.handle)), ?_, fun d => ?_⟩
  · rw [← held_append_cons, ← List.drop_eq_getElem_cons hlt, List.take_append_drop]
    rfl
  · rw [← held_append_cons]
    unfold Table.held
    rw [List.set_eq_take_append_cons_drop, if_pos hlt]

/-- A descriptor's handle is held. -/
theorem mem_held {t : Table} {d : Descriptor} (hd : d ∈ t.descriptors) : ∀ h ∈ d.handle, h ∈ t.held := by
  intro h hh
  exact Multiset.mem_coe.2 (List.mem_filterMap.2 ⟨d, hd, hh⟩)

/-- A descriptor that is found is in the slot of its number. -/
theorem get_slot {t : Table} {fd : Int} {d : Descriptor} (h : t.get fd = some d) :
    t.descriptors[(fd - 3).toNat]? = some d := by
  unfold Table.get at h
  split at h
  · cases h
  split at h
  · cases h
  next hget =>
    split at h
    · cases h
    · rw [← Option.some.inj h]
      exact hget

/-- A path starts at a directory of the table. -/
theorem normalize_directory {t : Table} {dirfd : Int} {bytes : Name} {p : PathInfo}
    (h : t.normalize dirfd bytes = .ok p) : ∀ handle ∈ p.directory, handle ∈ t.held := by
  obtain ⟨base, horigin, _⟩ := (normalize_names h).canonical_eq
  intro handle hmem
  unfold Table.origin at horigin
  split at horigin
  · obtain ⟨hnone, _⟩ := Prod.mk.inj (Except.ok.inj horigin)
    rw [← hnone] at hmem
    cases hmem
  split at horigin
  · cases horigin
  next d hget =>
  split at horigin
  · obtain ⟨heq, _⟩ := Prod.mk.inj (Except.ok.inj horigin)
    exact mem_held (get_mem hget).1 handle (heq ▸ hmem)
  · cases horigin

namespace System

/-- What is open is what the descriptors have, and the provider was only given open handles. -/
structure Accounted {σ : Type} (s : System (σ × List HandleCall)) : Prop where
  filed : ∀ d ∈ s.table.descriptors, d.Filed
  ledger : Ledger s.files.2 s.table.held

section Calls

variable {σ : Type} {h : Host σ} {s s' : System (σ × List HandleCall)}

/-- A call begins with what the table holds. -/
theorem Accounted.start (hs : Accounted s) : Carries s s s.table.held := ⟨rfl, hs.ledger⟩

/-- A call that ends with what the table holds is accounted for. -/
theorem Accounted.carries (hs : Accounted s) (hc : Carries s s' s.table.held) : Accounted s' :=
  ⟨hc.table.symm ▸ hs.filed, hc.table.symm ▸ hc.ledger⟩

/-- A call without a request that leaves the table is accounted for. -/
theorem Accounted.same (hs : Accounted s) (htable : s'.table = s.table) (hfiles : s'.files.2 = s.files.2) :
    Accounted s' := hs.carries ⟨htable, hfiles.symm ▸ hs.ledger⟩

/-- A free slot is filled. -/
theorem Accounted.install (hs : Accounted s) {hand : Multiset Handle} (hc : Carries s s' hand) {slot : Nat}
    (hslot : s.table.descriptors.findIdx? (fun d => d.kind == 0) = some slot) {d : Descriptor} (hd : d.Filed)
    (hhand : hand = owns d.handle + s.table.held) : Accounted (s'.install slot d).2 := by
  obtain ⟨hlt, hfree, _⟩ := List.findIdx?_eq_some_iff_getElem.1 hslot
  have hget := List.getElem?_eq_getElem hlt
  obtain ⟨rest, hold, hnew⟩ := held_set hget
  -- a free slot has no handle
  have hnone : (s.table.descriptors[slot]).handle = none := by
    have hfiled := hs.filed _ (List.getElem_mem hlt)
    rw [beq_iff_eq] at hfree
    unfold Descriptor.Filed at hfiled
    rw [hfree] at hfiled
    exact Option.not_isSome_iff_eq_none.1 fun hsome => absurd (hfiled.2 hsome) (by decide)
  rw [hnone, owns_none, zero_add] at hold
  refine ⟨fun d' hd' => ?_, ?_⟩
  · change d' ∈ s'.table.descriptors.set slot d at hd'
    rw [hc.table] at hd'
    rcases List.mem_or_eq_of_mem_set hd' with hmem | rfl
    · exact hs.filed d' hmem
    · exact hd
  · show Ledger s'.files.2 (Table.held { s'.table with descriptors := s'.table.descriptors.set slot d })
    rw [hc.table, hnew, ← hold, ← hhand]
    exact hc.ledger

/-- A descriptor's position moves. -/
theorem Accounted.moved (hs : Accounted s) (hc : Carries s s' s.table.held) {fd : Int} {d : Descriptor}
    (hget : s.table.get fd = some d) (position : Nat) :
    Accounted (s'.install (fd - 3).toNat { d with position }).2 := by
  obtain ⟨rest, hold, hnew⟩ := held_set (get_slot hget)
  refine ⟨fun d' hd' => ?_, ?_⟩
  · change d' ∈ s'.table.descriptors.set _ _ at hd'
    rw [hc.table] at hd'
    rcases List.mem_or_eq_of_mem_set hd' with hmem | rfl
    · exact hs.filed d' hmem
    · exact hs.filed d (get_mem hget).1
  · show Ledger s'.files.2 (Table.held { s'.table with
      descriptors := s'.table.descriptors.set (fd - 3).toNat { d with position } })
    rw [hc.table, hnew]
    rw [hold] at hc
    exact hc.ledger

/-- A path that is found lends a directory that the table holds. -/
theorem Accounted.path (hs : Accounted s) {address : Nat} {dirfd : Int} {r : Except Int PathInfo}
    (hp : s.path address dirfd = (r, s')) :
    Carries s s' s.table.held ∧ ∀ p, r = .ok p → ∀ handle ∈ p.directory, handle ∈ s.table.held := by
  obtain ⟨hr, rfl⟩ := Prod.mk.inj hp
  refine ⟨⟨rfl, hs.ledger⟩, fun p hok => ?_⟩
  obtain ⟨bytes, _, _, hnormalize⟩ := path_string (hr.trans hok)
  exact normalize_directory hnormalize

/-- The descriptor of a regular file has a handle that the table holds. -/
theorem Accounted.file (hs : Accounted s) {fd : Int} {d : Descriptor} (hget : s.table.get fd = some d)
    (hkind : d.kind = 5) : ∃ handle, d.handle = some handle ∧ handle ∈ s.table.held := by
  obtain ⟨handle, hhandle⟩ := Option.isSome_iff_exists.1 ((hs.filed d (get_mem hget).1).1 hkind)
  exact ⟨handle, hhandle, mem_held (get_mem hget).1 handle hhandle⟩

/-! ## The calls -/

/-- unlinkat is accounted for. -/
theorem Accounted.unlinkat (hs : Accounted s) {dirfd : Int} {address : Nat} {flags : BitVec 32} :
    Accounted (s.unlinkat h.recorded dirfd address flags).2 := by
  unfold System.unlinkat
  split
  · exact hs
  split
  · exact hs
  split
  next heq => exact hs.carries (hs.path heq).1
  next p s₁ heq =>
  obtain ⟨hs₁, hdirectory⟩ := hs.path heq
  split
  · exact hs.carries hs₁
  split
  · exact hs.carries hs₁
  · dsimp only
    generalize (if p.terminalDot = true ∧ p.relative ≠ [] then p.relative ++ slash :: dot else p.relative) = relative
    rw [Host.recorded_files]
    let act (current : Option Handle) (leaf : Name) (s : System (σ × List HandleCall)) :
        Except Int Int × System (σ × List HandleCall) :=
      let r := s.unlinkFile h.files.recorded current leaf p.trailing
      (.ok r.1, r.2)
    have hwalk : Carries s (s₁.walk h.files.recorded p.directory relative act).2
        (gains (fun _ => 0) (s₁.walk h.files.recorded p.directory relative act).1 + s.table.held) := by
      refine carries_walk hs₁ (hdirectory p rfl) fun current leaf s₂ hand hs₂ hcurrent => ?_
      rw [gains_ok, zero_add]
      exact carries_unlinkFile hs₂ hcurrent
    split
    next hend =>
      rw [hend, gains_error, zero_add] at hwalk
      exact hs.carries hwalk
    next hend =>
      rw [hend, gains_ok, zero_add] at hwalk
      exact hs.carries hwalk

/-- A lookup gives back what it opens. -/
theorem Accounted.lookup (hs : Accounted s) {s₁ s₂ : System (σ × List HandleCall)} {kind : Nat} {p : PathInfo}
    {r : Except Int FileInfo} (hc : Carries s s₁ s.table.held) (hd : ∀ handle ∈ p.directory, handle ∈ s.table.held)
    (heq : s₁.lookup h.recorded kind p = (r, s₂)) : Accounted s₂ := by
  unfold System.lookup at heq
  split at heq
  · cases heq
    exact hs.carries hc
  rw [Host.recorded_files] at heq
  let act (current : Option Handle) (leaf : Name) (s : System (σ × List HandleCall)) :
      Except Int FileInfo × System (σ × List HandleCall) := s.statAt h.files.recorded current leaf
  have hwalk : Carries s (s₁.walk h.files.recorded p.directory p.relative act).2
      (gains (fun _ => 0) (s₁.walk h.files.recorded p.directory p.relative act).1 + s.table.held) := by
    refine carries_walk hc hd fun current leaf s' hand hs' hcurrent => ?_
    have hasked : Carries s (act current leaf s').2 hand := carries_statAt hs' hcurrent
    cases (act current leaf s').1 with
    | ok info =>
      rw [gains_ok, zero_add]
      exact hasked
    | error error =>
      rw [gains_error, zero_add]
      exact hasked
  split at heq
  next hend =>
    rw [hend, gains_error, zero_add] at hwalk
    cases heq
    exact hs.carries hwalk
  next hend =>
    rw [hend, gains_ok, zero_add] at hwalk
    split at heq <;> cases heq <;> exact hs.carries hwalk

/-- The copy of a stat record asks the provider nothing. -/
theorem Accounted.statBytes (hs : Accounted s) {buffer : Nat} {info : FileInfo} :
    Accounted (s.statBytes buffer info).2 := hs.same rfl rfl

/-- faccessat is accounted for. -/
theorem Accounted.faccessat (hs : Accounted s) {dirfd : Int} {address : Nat} {flags : BitVec 32} :
    Accounted (s.faccessat h.recorded dirfd address flags).2 := by
  unfold System.faccessat
  split
  · exact hs
  split
  next heq => exact hs.carries (hs.path heq).1
  next p s₁ heq =>
  obtain ⟨hs₁, hdirectory⟩ := hs.path heq
  split
  · exact hs.carries hs₁
  split
  next heq => exact hs.lookup hs₁ (hdirectory p rfl) heq
  next heq =>
    have hlooked := hs.lookup hs₁ (hdirectory p rfl) heq
    dsimp only
    split
    · exact hlooked
    split
    · exact hlooked
    · exact hlooked

/-- newfstatat is accounted for. -/
theorem Accounted.newfstatat (hs : Accounted s) {dirfd : Int} {address buffer : Nat} {flags : BitVec 64} :
    Accounted (s.newfstatat h.recorded dirfd address buffer flags).2 := by
  unfold System.newfstatat
  split
  · exact hs
  split
  next heq => exact hs.carries (hs.path heq).1
  next p s₁ heq =>
  obtain ⟨hs₁, hdirectory⟩ := hs.path heq
  split
  · exact hs.carries hs₁
  split
  · exact hs.carries hs₁
  split
  next heq => exact hs.lookup hs₁ (hdirectory p rfl) heq
  next heq => exact (hs.lookup hs₁ (hdirectory p rfl) heq).statBytes

/-- A file that is opened and cannot be asked about is closed. -/
theorem carries_openLeaf {p : Host σ} {flags mode : BitVec 32} {current : Option Handle} {leaf : Name}
    {hand : Multiset Handle} (hs : Carries s s' hand) (hcurrent : ∀ h ∈ current, h ∈ hand) :
    Carries s (openLeaf p.recorded flags mode current leaf s').2
      (gains (fun r => {r.1}) (openLeaf p.recorded flags mode current leaf s').1 + hand) := by
  unfold openLeaf
  rw [Host.recorded_files]
  have hopened : Carries s (s'.openFile p.files.recorded current leaf flags mode).2
      (gains ({·}) (s'.openFile p.files.recorded current leaf flags mode).1 + hand) := carries_openFile hs hcurrent
  split
  next heq =>
    rw [heq] at hopened
    exact hopened
  next handle s₁ heq =>
    rw [heq, gains_ok] at hopened
    have hasked := carries_statFile (p := p.files) hopened
      (Multiset.mem_add.2 (.inl (Multiset.mem_singleton_self handle)))
    split
    next hstat =>
      rw [hstat, Multiset.singleton_add] at hasked
      rw [gains_error, zero_add]
      exact carries_closeFile hasked
    next hstat =>
      rw [hstat] at hasked
      exact hasked

/-- No device is a regular file. -/
theorem device_ne_file (name : Name) : device name ≠ 5 := by
  unfold device
  repeat' split
  all_goals decide

/-- A device is opened, and the descriptor has no handle. -/
theorem Accounted.openDevice (hs : Accounted s) (hc : Carries s s' s.table.held) {slot caller : Nat}
    (hslot : s.table.descriptors.findIdx? (fun d => d.kind == 0) = some slot) {d : Descriptor} (hkind : d.kind = 9)
    (hnone : d.handle = none) : Accounted (s'.openDevice h.recorded slot caller d).2 := by
  have hopened : ∀ files : σ × List HandleCall, files.2 = s'.files.2 →
      Carries s { s' with files } s.table.held := fun files heq => ⟨hc.table, heq.symm ▸ hc.ledger⟩
  unfold System.openDevice
  split
  next heq => exact hs.carries (hopened _ (congrArg (fun r => r.2.2) heq.symm))
  next token files heq =>
    have hfiles : files.2 = s'.files.2 := congrArg (fun r => r.2.2) heq.symm
    have hset : (h.recorded.setNonblocking token (d.flags &&& 0x800 != 0) files).2.2 = s'.files.2 := hfiles
    dsimp only
    split
    · exact hs.carries (hopened _ hset)
    · refine hs.install (hopened _ hset) hslot ?_ ?_
      · unfold Descriptor.Filed
        rw [hkind, hnone]
        decide
      · rw [hnone, owns_none, zero_add]

/-- openat is accounted for: the handle it opens is held or given back. -/
theorem Accounted.openat (hs : Accounted s) {caller : Nat} {dirfd : Int} {address : Nat} {flags mode : BitVec 32} :
    Accounted (s.openat h.recorded caller dirfd address flags mode).2 := by
  unfold System.openat
  split
  next heq => exact hs.carries (hs.path heq).1
  next p s₁ heq =>
  obtain ⟨hs₁, hdirectory⟩ := hs.path heq
  split
  · exact hs.carries hs₁
  next kind hkind =>
  obtain ⟨hdevice, _⟩ := classify_ok hkind
  split
  · exact hs.carries hs₁
  split
  · exact hs.carries hs₁
  rw [hs₁.table]
  split
  · exact hs.carries hs₁
  next slot hslot =>
  dsimp only
  split
  next h9 => exact hs.openDevice hs₁ hslot (by rw [h9, if_pos (by decide)]) rfl
  split
  next h0 =>
    refine hs.install hs₁ hslot ?_ (zero_add _).symm
    show kind = 5 ↔ _
    rw [hdevice]
    exact ⟨fun h5 => absurd h5 (device_ne_file _), nofun⟩
  next h0 =>
    rw [Host.recorded_files]
    generalize (flags ||| if p.trailing = true then 0x4000 else 0) = native
    have hwalk : Carries s
        (s₁.walk h.files.recorded p.directory p.relative (openLeaf h.recorded native (mode &&& 0o777))).2
        (gains (fun r => {r.1}) (s₁.walk h.files.recorded p.directory p.relative
          (openLeaf h.recorded native (mode &&& 0o777))).1 + s.table.held) :=
      carries_walk hs₁ (hdirectory p rfl) fun current leaf s₂ hand hs₂ hcurrent => carries_openLeaf hs₂ hcurrent
    split
    next hend =>
      rw [hend, gains_error, zero_add] at hwalk
      exact hs.carries hwalk
    next handle directory s₂ hend =>
      rw [hend, gains_ok] at hwalk
      exact hs.install hwalk hslot ⟨fun _ => rfl, fun _ => rfl⟩ rfl

/-- close is accounted for: it gives up the handle that was held. -/
theorem Accounted.close (hs : Accounted s) {fd : Int} : Accounted (s.close h.recorded fd).2 := by
  unfold System.close
  split
  · exact hs
  next d hget =>
    obtain ⟨rest, hold, hnew⟩ := held_set (get_slot hget)
    have hclosed : Carries s (if d.kind = 5 then s.closeFile h.recorded.files d.handle else (0, s)).2 rest := by
      split
      next hkind =>
        obtain ⟨handle, hhandle, _⟩ := hs.file hget hkind
        rw [hhandle, owns_some, Multiset.singleton_add] at hold
        rw [hhandle]
        exact carries_closeFile ⟨rfl, hold ▸ hs.ledger⟩
      next hkind =>
        have hnone : d.handle = none := Option.not_isSome_iff_eq_none.1 fun hsome =>
          hkind ((hs.filed d (get_mem hget).1).2 hsome)
        rw [hnone, owns_none, zero_add] at hold
        exact ⟨rfl, hold ▸ hs.ledger⟩
    refine ⟨fun d' hd' => ?_, ?_⟩
    · dsimp only at hd'
      rw [hclosed.table] at hd'
      rcases List.mem_or_eq_of_mem_set hd' with hmem | rfl
      · exact hs.filed d' hmem
      · unfold Descriptor.Filed
        decide
    · dsimp only
      rw [hclosed.table, hnew, owns_none, zero_add]
      exact hclosed.ledger

/-! ## Descriptors -/

/-- What another model answers asks nothing of the provider. -/
theorem Accounted.special (hs : Accounted s) {caller : Nat} {d : Descriptor} {reads writes : Bool}
    {address count : Nat} {r : Int × System (σ × List HandleCall)}
    (hr : s.special h.recorded caller d reads writes address count = some r) : Accounted r.2 := by
  unfold System.special at hr
  dsimp only at hr
  repeat' split at hr
  all_goals cases hr
  all_goals exact hs.same rfl rfl

/-- lseek is accounted for. -/
theorem Accounted.lseek (hs : Accounted s) {caller : Nat} {fd offset : Int} {origin : BitVec 32} :
    Accounted (s.lseek h.recorded caller fd offset origin).2 := by
  unfold System.lseek
  split
  · exact hs
  next d hget =>
  split
  next hr => exact hs.special hr
  split
  · exact hs
  split
  · split
    · exact hs
    split
    · exact hs
    · dsimp only
      generalize (if origin = 1 then (d.position : Int) else 0) = base
      split
      · exact hs
      · exact hs.moved hs.start hget _
  split
  · exact hs
  next hkind =>
    obtain ⟨handle, hhandle, hmem⟩ := hs.file hget (not_not.1 hkind)
    rw [hhandle]
    exact hs.carries (carries_seekFile hs.start hmem)

/-- fstat is accounted for. -/
theorem Accounted.fstat (hs : Accounted s) {fd : Int} {buffer : Nat} :
    Accounted (s.fstat h.recorded fd buffer).2 := by
  unfold System.fstat
  split
  · exact hs
  next d hget =>
  split
  · exact hs
  split
  next hkind =>
    obtain ⟨handle, hhandle, hmem⟩ := hs.file hget hkind
    rw [hhandle]
    have hasked := carries_statFile (p := h.files) hs.start hmem
    rw [Host.recorded_files]
    split
    next heq =>
      rw [heq] at hasked
      exact hs.carries hasked
    next heq =>
      rw [heq] at hasked
      exact (hs.carries hasked).statBytes
  · exact hs.statBytes

/-! ## Reading and writing -/

/-- A transfer uses a handle in hand. -/
theorem carries_transfer {d : Descriptor} {handle : Handle} {hand : Multiset Handle} {writing : Bool}
    {address length : Nat} (hs : Carries s s' hand) (hd : d.handle = some handle) (hmem : handle ∈ hand) :
    Carries s (s'.transfer h.recorded d writing address length).2 hand := by
  unfold System.transfer
  generalize (if writing = true then (1 : BitVec 2) else 2) = access
  split
  · exact hs
  split
  · exact hs
  split
  · exact hs
  · rw [hd]
    cases writing with
    | true => exact ⟨hs.table, hs.ledger.used hmem⟩
    | false => exact ⟨hs.table, hs.ledger.used hmem⟩

/-- A fragment of a transfer keeps the handles in hand. -/
theorem carries_fragment {d : Descriptor} {hand : Multiset Handle} {writing : Bool} {position address chunk : Nat}
    (hs : Carries s s' hand) (hd : d.kind = 5 → ∃ handle, d.handle = some handle ∧ handle ∈ hand) :
    Carries s (s'.fragment h.recorded d writing position address chunk).system hand := by
  unfold System.fragment
  split
  · unfold System.commandlineFragment
    dsimp only
    split
    · exact ⟨hs.table, hs.ledger⟩
    · exact ⟨hs.table, hs.ledger⟩
  split
  next hkind =>
    obtain ⟨handle, hhandle, hmem⟩ := hd hkind
    have hmoved : Carries s (s'.transfer h.recorded d writing address chunk).2 hand :=
      carries_transfer hs hhandle hmem
    unfold System.fileFragment
    dsimp only
    split
    · rw [hhandle, Host.recorded_files]
      have hsought : Carries s ((s'.transfer h.recorded d writing address chunk).2.seekFile h.files.recorded
          (some handle) 0 1).2 hand := carries_seekFile hmoved hmem
      have hasked := carries_statFile (p := h.files) hsought hmem
      split
      · exact hsought
      split
      next heq =>
        rw [heq] at hasked
        exact hasked
      next heq =>
        rw [heq] at hasked
        exact hasked
    · exact hmoved
  · unfold System.deviceFragment
    dsimp only
    have hrandom : (if d.kind = 3 then h.recorded.random (min chunk 256) s'.files
        else ((0, fun _ => 0), s'.files)).2.2 = s'.files.2 := by
      split <;> rfl
    generalize (if d.kind = 3 then h.recorded.random (min chunk 256) s'.files
      else ((0, fun _ => 0), s'.files)) = r at hrandom
    have hfilled : Carries s { s' with files := r.2 } hand := ⟨hs.table, hrandom.symm ▸ hs.ledger⟩
    split
    · exact hfilled
    · exact ⟨hfilled.table, hfilled.ledger⟩

/-- The loop of a transfer keeps the handles in hand. -/
theorem carries_transferLoop {d : Descriptor} {hand : Multiset Handle} {writing : Bool}
    {start count turns done position : Nat} (hs : Carries s s' hand)
    (hd : d.kind = 5 → ∃ handle, d.handle = some handle ∧ handle ∈ hand) :
    Carries s (transferLoop h.recorded d writing start count turns done position s').2.2 hand := by
  induction turns generalizing done position s' with
  | zero => exact hs
  | succ turns ih =>
    have hone : Carries s (s'.fragment h.recorded d writing position (start + done)
        (min (s'.space.pageSize - (start + done) % s'.space.pageSize) (count - done))).system hand :=
      carries_fragment hs hd
    unfold transferLoop
    dsimp only
    split
    · exact hs
    split
    · exact hs
    split
    · exact hone
    split
    · exact hone
    · exact ih hone

/-- Reads and writes are accounted for. -/
theorem Accounted.readWrite (hs : Accounted s) {caller : Nat} {fd : Int} {writing : Bool} {address count : Nat} :
    Accounted (s.readWrite h.recorded caller fd writing address count).2 := by
  unfold System.readWrite
  split
  · exact hs
  next d hget =>
  split
  next hr => exact hs.special hr
  dsimp only
  split
  · exact hs
  split
  · exact hs
  split
  · exact hs
  split
  · exact hs
  split
  · exact hs
  · exact hs.moved (carries_transferLoop hs.start fun hkind => hs.file hget hkind) hget _

/-! ## Runs -/

/-- Every call is accounted for. -/
theorem Accounted.perform (hs : Accounted s) (op : Op) : Accounted (s.perform h.recorded op).2 := by
  cases op with
  | call c =>
    cases c with
    | unlinkat dirfd address flags => exact hs.unlinkat
    | faccessat dirfd address flags => exact hs.faccessat
    | openat caller dirfd address flags mode => exact hs.openat
    | newfstatat dirfd address buffer flags => exact hs.newfstatat
    | close fd => exact hs.close
    | lseek caller fd offset origin => exact hs.lseek
    | fstat fd buffer => exact hs.fstat
    | read caller fd address count => exact hs.readWrite
    | write caller fd address count => exact hs.readWrite
  | create w flags vm =>
    unfold System.perform
    dsimp only
    split
    · exact hs
    next slot hslot =>
      refine hs.install hs.start hslot ?_ (zero_add _).symm
      cases w with
      | epoll => exact ⟨nofun, nofun⟩
      | eventfd => exact ⟨nofun, nofun⟩
      | timerfd => exact ⟨nofun, nofun⟩
  | setBinder =>
    unfold System.perform
    dsimp only
    split
    · exact hs
    · exact ⟨hs.filed, hs.ledger⟩
  | setCommandline bytes =>
    unfold System.perform
    dsimp only
    repeat' split
    all_goals first | exact hs | exact ⟨hs.filed, hs.ledger⟩

end Calls

section Runs

variable {σ : Type}

/-- The runs of a table with a provider that writes down what it is asked. -/
def recordedMachine (σ : Type) : Machine (System (σ × List HandleCall)) where
  init s := (machine (σ × List HandleCall)).init s ∧ s.files.2 = []
  step s s' := ∃ (h : Host σ) (op : Op) (files : σ) (space : Space) (guest : Guest),
    s' = (({ s with files := (files, s.files.2), space, guest } : System _).perform h.recorded op).2

/-- Every reachable table is accounted for. -/
theorem reachable_accounted {s : System (σ × List HandleCall)} (hr : (recordedMachine σ).Reachable s) :
    s.Accounted := by
  refine hr.inv ?_ ?_
  · intro s hinit
    obtain ⟨⟨hfree, _, _, _⟩, hlog⟩ := hinit
    refine ⟨fun d hd => ?_, ?_⟩
    · rw [hfree d hd]
      unfold Descriptor.Filed
      decide
    · have hnone : s.table.held = 0 := by
        unfold Table.held
        rw [List.filterMap_eq_nil_iff.2 fun d hd => by rw [hfree d hd]]
        rfl
      rw [hlog, hnone]
      exact .nil
  · intro s s' hs hstep
    obtain ⟨h, op, files, space, guest, rfl⟩ := hstep
    have hs' : System.Accounted { s with files := (files, s.files.2), space, guest } := ⟨hs.filed, hs.ledger⟩
    exact hs'.perform op

/-- The loop of `artbox_vfs_destroy`, which closes all files and keeps the first error. -/
def closeAll (h : Host σ) : List Descriptor → (result : Int) → System σ → Int × System σ
  | [], result, s => (result, s)
  | d :: rest, result, s =>
    if d.kind = 5 then
      let r := s.closeFile h.files d.handle
      closeAll h rest (if result = 0 then r.1 else result) r.2
    else closeAll h rest result s

/-- `artbox_vfs_destroy`; `unobserve` is what the removal of a poll hub's subscription answers, zero
without one. The table is gone then. -/
def destroy (h : Host σ) (unobserve : Int) (s : System σ) : Int × System σ :=
  if unobserve ≠ 0 then (unobserve, s)
  else
    let r := closeAll h s.table.descriptors 0 s
    (r.1, { r.2 with table := { r.2.table with descriptors := [] } })

/-- The destruction closes every handle that is still held. -/
theorem closeAll_ledger {h : Host σ} {descriptors : List Descriptor} {result : Int}
    {s : System (σ × List HandleCall)} (hfiled : ∀ d ∈ descriptors, d.Filed)
    (hl : Ledger s.files.2 ↑(descriptors.filterMap (·.handle))) :
    Ledger (closeAll h.recorded descriptors result s).2.files.2 0 := by
  induction descriptors generalizing result s with
  | nil => exact hl
  | cons d rest ih =>
    have hrest := fun d hd => hfiled d (List.mem_cons_of_mem _ hd)
    have hd := hfiled d List.mem_cons_self
    have hsplit := held_append_cons [] rest d
    rw [List.nil_append, List.nil_append] at hsplit
    rw [hsplit] at hl
    unfold closeAll
    split
    next hkind =>
      obtain ⟨handle, hhandle⟩ := Option.isSome_iff_exists.1 (hd.1 hkind)
      rw [hhandle] at hl ⊢
      exact ih hrest hl.closed
    next hkind =>
      have hnone : d.handle = none := Option.not_isSome_iff_eq_none.1 fun hsome => hkind (hd.2 hsome)
      rw [hnone, owns_none, zero_add] at hl
      exact ih hrest hl

/-- Handles of the provider in every run, whatever it answers: it is given only handles that it
opened and that were not closed since, what is open is what the descriptors have, and a table
that is destroyed leaves nothing open. -/
theorem handles_settled {s : System (σ × List HandleCall)} (hr : (recordedMachine σ).Reachable s) :
    Always Lawful s.files.2 ∧ handles.taken s.files.2 = handles.given s.files.2 + s.table.held ∧
      ∀ (h : Host σ) (files : σ),
        let destroyed := (destroy h.recorded 0 { s with files := (files, s.files.2) }).2
        Always Lawful destroyed.files.2 ∧ handles.taken destroyed.files.2 = handles.given destroyed.files.2 := by
  have hs := reachable_accounted hr
  refine ⟨hs.ledger.lawful, hs.ledger.holds, fun h files => ?_⟩
  have hclosed : Ledger (destroy h.recorded 0 { s with files := (files, s.files.2) }).2.files.2 0 :=
    closeAll_ledger hs.filed hs.ledger
  refine ⟨hclosed.lawful, ?_⟩
  exact hclosed.holds.trans (add_zero _)

/-- The table after `/system//./lib` was opened to read, with what the provider was asked. -/
def sampleRecorded : System (Unit × List HandleCall) :=
  let string := slash :: system ++ [slash, slash, period, slash] ++ ascii ['l', 'i', 'b']
  let new : System (Unit × List HandleCall) :=
    { table := { descriptors := [{}, {}] }, files := ((), []), space := sampleSpace, guest := sampleGuest string }
  (new.perform sampleHost.recorded (.call (.openat 0 (-100) 4096 0x4000 0))).2

/-- The directory before the leaf is closed again, the leaf when the table is destroyed. -/
theorem handles_settled_sample :
    let lib : Handle := ⟨1, [system, ascii ['l', 'i', 'b']]⟩
    sampleRecorded.files.2 = [.closed (some ⟨1, [system]⟩), .used (some lib), .opened (some ⟨1, [system]⟩) lib,
        .opened none ⟨1, [system]⟩] ∧
      sampleRecorded.table.held = {lib} ∧
      handles.taken (destroy sampleHost.recorded 0 sampleRecorded).2.files.2 =
        handles.given (destroy sampleHost.recorded 0 sampleRecorded).2.files.2 := by
  have hreach : (recordedMachine Unit).Reachable sampleRecorded := by
    have hstart : (recordedMachine Unit).Reachable
        { table := { descriptors := [{}, {}] }, files := ((), []), space := sampleSpace, guest := sampleGuest [] } :=
      .init ⟨⟨by decide, rfl, rfl, rfl⟩, rfl⟩
    exact hstart.step ⟨sampleHost, .call (.openat 0 (-100) 4096 0x4000 0), (), sampleSpace, sampleGuest _, rfl⟩
  exact ⟨by decide, by decide, ((handles_settled hreach).2.2 sampleHost ()).2⟩

end Runs

end System

end Artbox.Files
