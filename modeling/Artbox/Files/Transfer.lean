import Artbox.Files.Model

/-!
# What a read or a write moved

The loop of read and write cuts a transfer at the ends of pages, of the source's chunks and of the
data, and takes each fragment from another place for each kind of descriptor. `readWrite_moves` says
that its result is the number of bytes that it moved, as one copy at the start of the buffer, and that
the offset of the descriptor advanced by it; where that is less than was asked for, the fragment that
stopped the loop is named (`CutShort`). An error says that nothing moved.

What a file of the provider holds is the provider's matter. It tells how far it is in the file and
what it moved so far (`Progress`), and its promise is about one call of it (`Provider.Exact`).
-/

namespace Artbox.Files

open Vm (Space Guest word int64Max)

variable {σ : Type}

/-- What a provider keeps of its open files: the offset, and the bytes moved so far. -/
structure Progress (σ : Type) where
  offset : Option Handle → σ → Nat
  moved : Option Handle → σ → List UInt8

/-- Between two states some bytes were moved. -/
def Progress.Advances (m : Progress σ) (handle : Option Handle) (x y : σ) (bytes : List UInt8) : Prop :=
  m.offset handle y = m.offset handle x + bytes.length ∧ m.moved handle y = m.moved handle x ++ bytes

/-- The provider answers the number of contiguous bytes it moved, never more than it was asked for. -/
structure Provider.Exact (p : Provider σ) (m : Progress σ) : Prop where
  read : ∀ {handle length x}, 0 ≤ (p.readFile handle length x).1.1 →
    (p.readFile handle length x).1.1 = (p.readFile handle length x).1.2.length ∧
      (p.readFile handle length x).1.2.length ≤ length
  read_failed : ∀ {handle length x}, (p.readFile handle length x).1.1 < 0 → (p.readFile handle length x).1.2 = []
  read_advances : ∀ {handle length x},
    m.Advances handle x (p.readFile handle length x).2 (p.readFile handle length x).1.2
  write : ∀ {handle bytes x}, (p.writeFile handle bytes x).1 ≤ bytes.length
  write_advances : ∀ {handle bytes x},
    m.Advances handle x (p.writeFile handle bytes x).2 (bytes.take (p.writeFile handle bytes x).1.toNat)
  /-- SEEK_CUR with nothing to go. -/
  seek_keeps : ∀ {handle x}, m.Advances handle x (p.seekFile handle 0 1 x).2 []
  stat_keeps : ∀ {handle x}, m.Advances handle x (p.statFile handle x).2 []

/-- The descriptors whose transfers go through the loop. -/
def Descriptor.Transfers (d : Descriptor) (writing : Bool) : Prop :=
  d.kind = 5 ∨ writing = false ∧ (d.kind = 2 ∨ d.kind = 3 ∨ d.kind = 6)

/-- From one position and state to another a descriptor moved bytes, at one place of the guest. -/
structure Moves (m : Progress σ) (d : Descriptor) (writing : Bool) (address position : Nat) (s : System σ)
    (position' : Nat) (s' : System σ) (bytes : List UInt8) : Prop where
  read : writing = false → s'.guest.byte = (s.guest.store address bytes).byte ∧
    s'.guest.written = s.guest.written ++ bytes
  write : writing = true → s'.guest.byte = s.guest.byte ∧ s'.guest.written = s.guest.written ∧
    bytes = s.guest.range address bytes.length
  file : d.kind = 5 → m.Advances d.handle s.files s'.files bytes
  commandline : d.kind = 6 → bytes = (s.table.commandline.drop position).take bytes.length
  zero : d.kind = 2 → bytes = List.replicate bytes.length 0
  position : position' = position + if d.kind = 6 then bytes.length else 0

/-- How much a turn of the loop tries. -/
def System.fragmentLength (s : System σ) (d : Descriptor) (position address left : Nat) : Nat :=
  let chunk := min (s.space.pageSize - address % s.space.pageSize) left
  if d.kind = 6 then min chunk (s.table.commandline.length - position)
  else if d.kind = 5 then chunk
  else min chunk 256

/-- Why no more than some bytes of a fragment were moved. -/
inductive Stops (h : Host σ) (d : Descriptor) (writing : Bool) (position address length : Nat) (s : System σ) :
    Nat → Prop
  /-- The end of the data. -/
  | ended (hkind : d.kind = 6) (hend : s.table.commandline.length ≤ position) :
    Stops h d writing position address length s 0
  /-- The end of the addresses. -/
  | wraps (hword : word ≤ address) : Stops h d writing position address length s 0
  | inaccessible (haccess : s.space.accessible address length (if writing then 1 else 2) = false) :
    Stops h d writing position address length s 0
  | draws (hkind : d.kind = 3) (hfails : (h.random length s.files).1.1 < 0) :
    Stops h d writing position address length s 0
  /-- The file answers an error, or less than it was asked for; nothing at its end. -/
  | reads (hkind : d.kind = 5) (hw : writing = false)
      (hshort : (h.files.readFile d.handle length s.files).1.1 < length) :
    Stops h d writing position address length s (h.files.readFile d.handle length s.files).1.1.toNat
  | writes (hkind : d.kind = 5) (hw : writing = true)
      (hshort : (h.files.writeFile d.handle (s.guest.range address length) s.files).1 < length) :
    Stops h d writing position address length s
      (h.files.writeFile d.handle (s.guest.range address length) s.files).1.toNat

/-- The bytes are all that could be moved: they end in the fragment that stopped the loop. -/
def CutShort (m : Progress σ) (h : Host σ) (d : Descriptor) (writing : Bool) (address left position : Nat)
    (s : System σ) (bytes : List UInt8) : Prop :=
  ∃ (whole part : List UInt8) (position' : Nat) (s' : System σ), bytes = whole ++ part ∧
    Moves m d writing address position s position' s' whole ∧ s'.table = s.table ∧ s'.space = s.space ∧
    Stops h d writing position' (address + whole.length)
      (s'.fragmentLength d position' (address + whole.length) (left - whole.length)) s' part.length

/-! ## Bytes behind bytes -/

theorem Progress.Advances.refl (m : Progress σ) (handle : Option Handle) (x : σ) : m.Advances handle x x [] :=
  ⟨rfl, (List.append_nil _).symm⟩

/-- Moves of bytes compose. -/
theorem Progress.Advances.trans {m : Progress σ} {handle : Option Handle} {x y z : σ} {bytes more : List UInt8}
    (h : m.Advances handle x y bytes) (h' : m.Advances handle y z more) : m.Advances handle x z (bytes ++ more) := by
  refine ⟨?_, ?_⟩
  · rw [h'.1, h.1, List.length_append, Nat.add_assoc]
  · rw [h'.2, h.2, List.append_assoc]

variable {m : Progress σ} {d : Descriptor} {writing : Bool} {address position : Nat} {s : System σ}

theorem Moves.refl (m : Progress σ) (d : Descriptor) (writing : Bool) (address position : Nat) (s : System σ) :
    Moves m d writing address position s position s [] where
  read _ := ⟨Guest.byte_store_nil.symm, (List.append_nil _).symm⟩
  write _ := ⟨rfl, rfl, rfl⟩
  file _ := .refl m d.handle s.files
  commandline _ := rfl
  zero _ := rfl
  position := by split <;> rfl

/-- Moves at the one place and at the place behind it compose. -/
theorem Moves.trans {position' position'' : Nat} {s' s'' : System σ} {bytes more : List UInt8}
    (h : Moves m d writing address position s position' s' bytes)
    (h' : Moves m d writing (address + bytes.length) position' s' position'' s'' more) (htable : s'.table = s.table) :
    Moves m d writing address position s position'' s'' (bytes ++ more) where
  read hw := by
    obtain ⟨hbyte, hwritten⟩ := h.read hw
    obtain ⟨hbyte', hwritten'⟩ := h'.read hw
    refine ⟨?_, by rw [hwritten', hwritten, List.append_assoc]⟩
    rw [hbyte', Guest.byte_store_congr hbyte]
    exact Guest.byte_store_append bytes more
  write hw := by
    obtain ⟨hbyte, hwritten, hrange⟩ := h.write hw
    obtain ⟨hbyte', hwritten', hrange'⟩ := h'.write hw
    refine ⟨hbyte'.trans hbyte, hwritten'.trans hwritten, ?_⟩
    rw [List.length_append, Guest.range_add, ← hrange, ← Guest.range_congr hbyte, ← hrange']
  file hkind := (h.file hkind).trans (h'.file hkind)
  commandline hkind := by
    have hfirst := h.commandline hkind
    have hmore := h'.commandline hkind
    have hposition := h.position
    rw [if_pos hkind] at hposition
    rw [htable, hposition, ← List.drop_drop] at hmore
    rw [List.length_append, List.take_add, ← hfirst, ← hmore]
  zero hkind := by
    rw [List.length_append, List.replicate_add, ← h.zero hkind, ← h'.zero hkind]
  position := by
    rw [h'.position, h.position, List.length_append]
    split
    next => exact Nat.add_assoc _ _ _
    next => rfl

/-! ## A turn of the loop -/

/-- What a turn did: the bytes that it moved are those that it answers, and an error moved none. -/
structure Turn (m : Progress σ) (h : Host σ) (d : Descriptor) (writing : Bool) (position address : Nat) (s : System σ)
    (f : System.Fragment σ) (bytes : List UInt8) : Prop where
  result : f.result = bytes.length ∨ f.result < 0 ∧ bytes = []
  fits : bytes.length ≤ f.chunk
  moves : Moves m d writing address position s f.position f.system bytes
  table : f.system.table = s.table
  space : f.system.space = s.space
  within : s.guest.Within f.system.guest address f.chunk
  stops : f.result < f.chunk → Stops h d writing position address f.chunk s bytes.length

namespace System

variable {h : Host σ} {chunk : Nat}

/-- A turn that moves nothing. -/
theorem turn_none {f : Fragment σ} (hresult : f.result ≤ 0) (hposition : f.position = position)
    (hguest : f.system.guest = s.guest) (hfiles : d.kind = 5 → m.Advances d.handle s.files f.system.files [])
    (htable : f.system.table = s.table) (hspace : f.system.space = s.space)
    (hstops : Stops h d writing position address f.chunk s 0) : Turn m h d writing position address s f [] where
  result := by
    rcases Int.lt_or_eq_of_le hresult with hneg | hzero
    · exact .inr ⟨hneg, rfl⟩
    · exact .inl hzero
  fits := Nat.zero_le _
  moves :=
    { Moves.refl m d writing address position s with
      read := by
        rw [hguest]
        exact (Moves.refl m d writing address position s).read
      write := by
        rw [hguest]
        exact (Moves.refl m d writing address position s).write
      file := hfiles
      position := by
        rw [hposition]
        exact (Moves.refl m d writing address position s).position }
  table := htable
  space := hspace
  within := by
    rw [hguest]
    exact .refl _ _ _
  stops _ := hstops

/-- A failed turn goes on with what moves nothing either. -/
theorem turn_settled {f f' : Fragment σ} (hturn : Turn m h d writing position address s f []) (hneg : f.result < 0)
    (hresult : f'.result ≤ 0) (hchunk : f'.chunk = f.chunk) (hposition : f'.position = f.position)
    (hguest : f'.system.guest = f.system.guest) (htable : f'.system.table = f.system.table)
    (hspace : f'.system.space = f.system.space) (hfiles : m.Advances d.handle f.system.files f'.system.files []) :
    Turn m h d writing position address s f' [] where
  result := by
    rcases Int.lt_or_eq_of_le hresult with hneg | hzero
    · exact .inr ⟨hneg, rfl⟩
    · exact .inl hzero
  fits := Nat.zero_le _
  moves := {
    read := fun hw => by
      rw [hguest]
      exact hturn.moves.read hw
    write := fun hw => by
      rw [hguest]
      exact hturn.moves.write hw
    file := fun hkind => (hturn.moves.file hkind).trans hfiles
    commandline := hturn.moves.commandline
    zero := hturn.moves.zero
    position := hposition.trans hturn.moves.position }
  table := htable.trans hturn.table
  space := hspace.trans hturn.space
  within := by
    rw [hguest, hchunk]
    exact hturn.within
  stops _ := by
    rw [hchunk]
    exact hturn.stops (Int.lt_of_lt_of_le hneg (Int.natCast_nonneg _))

/-- A turn that copies bytes of the runtime to the guest. -/
theorem turn_copied {f : Fragment σ} {bytes : List UInt8} (hw : writing = false) (hkind : d.kind ≠ 5)
    (hresult : f.result = bytes.length) (hchunk : f.chunk = bytes.length)
    (hguest : f.system.guest = s.guest.store address bytes) (htable : f.system.table = s.table)
    (hspace : f.system.space = s.space)
    (hcommandline : d.kind = 6 → bytes = (s.table.commandline.drop position).take bytes.length)
    (hzero : d.kind = 2 → bytes = List.replicate bytes.length 0)
    (hposition : f.position = position + if d.kind = 6 then bytes.length else 0) :
    Turn m h d writing position address s f bytes where
  result := .inl hresult
  fits := Nat.le_of_eq hchunk.symm
  moves := {
    read := fun _ => by
      rw [hguest]
      exact ⟨rfl, Guest.written_store _ _ _⟩
    write := fun h => absurd (hw.symm.trans h) (by decide)
    file := fun h => absurd h hkind
    commandline := hcommandline
    zero := hzero
    position := hposition }
  table := htable
  space := hspace
  within := by
    rw [hguest, hchunk]
    exact Guest.within_store _ (Nat.le_refl _)
  stops hlt := by
    rw [hresult, hchunk] at hlt
    exact absurd hlt (Int.lt_irrefl _)

/-- A fragment of the command line is moved or refused, as it answers. -/
theorem commandlineFragment_turn (hkind : d.kind = 6) (hw : writing = false)
    (hmore : position < s.table.commandline.length) (hchunk : 0 < chunk) :
    ∃ bytes, Turn m h d writing position address s (s.commandlineFragment position address chunk) bytes := by
  have h5 : d.kind ≠ 5 := by omega
  let n := min chunk (s.table.commandline.length - position)
  let bytes := (s.table.commandline.drop position).take n
  have hn : 0 < n := Nat.lt_min.2 ⟨hchunk, Nat.sub_pos_of_lt hmore⟩
  have hlength : bytes.length = n := by
    rw [List.length_take, List.length_drop]
    exact Nat.min_eq_left (Nat.min_le_right _ _)
  have hne : bytes ≠ [] := List.ne_nil_of_length_pos (hlength ▸ hn)
  rcases s.space.write_cases s.guest address hne with hwrite | ⟨error, herror, hwrite, haccess⟩
  · have hf : s.commandlineFragment position address chunk =
        ⟨n, n, position + n, { s with guest := s.guest.store address bytes }⟩ := by
      unfold commandlineFragment
      exact (if_pos (congrArg Prod.fst hwrite)).trans (by rw [hwrite])
    rw [hf]
    refine ⟨bytes, turn_copied hw h5 ?_ hlength.symm rfl rfl rfl (fun _ => ?_) (fun htwo => ?_) ?_⟩
    · rw [hlength]
    · rw [hlength]
    · exact absurd (hkind.symm.trans htwo) (by decide)
    · rw [if_pos hkind, hlength]
  · have hf : s.commandlineFragment position address chunk = ⟨n, error, position, s⟩ := by
      unfold commandlineFragment
      exact (if_neg (by rw [hwrite]; exact Int.ne_of_lt herror)).trans (by rw [hwrite])
    rw [hf]
    refine ⟨[], turn_none (Int.le_of_lt herror) rfl rfl (fun h => absurd h h5) rfl rfl ?_⟩
    subst hw
    rw [hlength] at haccess
    exact .inaccessible haccess

/-- `deviceFragment` with what it draws. -/
theorem deviceFragment_eq {r : (Int × (Nat → UInt8)) × σ}
    (hr : (if d.kind = 3 then h.random (min chunk 256) s.files else ((0, fun _ => 0), s.files)) = r) :
    s.deviceFragment h d position address chunk =
      if r.1.1 ≠ 0 then ⟨min chunk 256, r.1.1, position, { s with files := r.2 }⟩
      else
        let w := s.space.write s.guest address ((List.range (min chunk 256)).map r.1.2)
        ⟨min chunk 256, if w.1 = 0 then (min chunk 256 : Nat) else w.1, position,
          { s with files := r.2, guest := w.2 }⟩ := by
  subst hr
  rfl

/-- A fragment of a device is moved or refused, as it answers. -/
theorem deviceFragment_turn (hrandom : ∀ n x, (h.random n x).1.1 ≤ 0) (hkind : d.kind = 2 ∨ d.kind = 3)
    (hw : writing = false) (hchunk : 0 < chunk) :
    ∃ bytes, Turn m h d writing position address s (s.deviceFragment h d position address chunk) bytes := by
  have h5 : d.kind ≠ 5 := by omega
  have h6 : d.kind ≠ 6 := by omega
  obtain ⟨r, hr⟩ : ∃ r, (if d.kind = 3 then h.random (min chunk 256) s.files else ((0, fun _ => 0), s.files)) = r :=
    ⟨_, rfl⟩
  rw [deviceFragment_eq hr]
  generalize hn : min chunk 256 = n at hr
  have hpos : 0 < n := hn ▸ Nat.lt_min.2 ⟨hchunk, by decide⟩
  split
  next hfails =>
    -- only the source of randomness can fail
    have hthree : d.kind = 3 := by
      by_contra hnot
      rw [if_neg hnot] at hr
      exact hfails (by rw [← hr])
    rw [if_pos hthree] at hr
    have hneg : (h.random n s.files).1.1 < 0 := lt_of_le_of_ne (hrandom n s.files) (hr ▸ hfails)
    refine ⟨[], turn_none ?_ rfl rfl (fun h => absurd h h5) rfl rfl (.draws hthree hneg)⟩
    show r.1.1 ≤ 0
    rw [← hr]
    exact Int.le_of_lt hneg
  next =>
    let bytes := (List.range n).map r.1.2
    have hlength : bytes.length = n := by rw [List.length_map, List.length_range]
    have hne : bytes ≠ [] := List.ne_nil_of_length_pos (hlength ▸ hpos)
    rcases s.space.write_cases s.guest address hne with hwrite | ⟨error, herror, hwrite, haccess⟩
    · rw [hwrite]
      refine ⟨bytes, turn_copied hw h5 ?_ hlength.symm rfl rfl rfl (fun h => absurd h h6) (fun htwo => ?_) ?_⟩
      · rw [hlength]
        rfl
      · have hzero : r.1.2 = fun _ => 0 := by rw [← hr, if_neg (by omega)]
        rw [hlength]
        show (List.range n).map r.1.2 = _
        rw [hzero, List.map_const', List.length_range]
      · rw [if_neg h6]
        rfl
    · rw [hwrite]
      refine ⟨[], turn_none ?_ rfl rfl (fun h => absurd h h5) rfl rfl ?_⟩
      · show (if error = 0 then (n : Int) else error) ≤ 0
        rw [if_neg (Int.ne_of_lt herror)]
        exact Int.le_of_lt herror
      · subst hw
        rw [hlength] at haccess
        exact .inaccessible haccess

/-- A transfer from or to memory that cannot be accessed moves nothing. -/
theorem transfer_refused {length : Nat} (hlength : 0 < length) (hmax : length ≤ int64Max)
    (haccess : s.space.accessible address length (if writing then 1 else 2) = false) :
    ∃ error : Int, error < 0 ∧ s.transfer h d writing address length = (error, s) := by
  unfold transfer
  rw [if_neg (Nat.not_lt.2 hmax)]
  split
  next => exact ⟨-5, by decide, rfl⟩
  next => exact ⟨-14, by decide, if_pos ⟨Nat.ne_of_gt hlength, haccess⟩⟩

/-- A transfer with memory is the loop, behind the cap. -/
theorem transfer_accessible {length : Nat} (hmax : length ≤ int64Max)
    (haccess : s.space.accessible address length (if writing then 1 else 2) = true) :
    s.transfer h d writing address length =
      let r : Int × System σ :=
        if writing then
          let w := h.files.writeFile d.handle (s.guest.range address length) s.files
          (w.1, { s with files := w.2, guest := (s.guest.load address length).2 })
        else
          let r := h.files.readFile d.handle length s.files
          (r.1.1, { s with files := r.2, guest := s.guest.store address r.1.2 })
      (if (length : Int) < r.1 then -5 else r.1, r.2) := by
  have hopen : ¬ s.space.poisoned = true := by
    intro hpoisoned
    rw [Space.accessible, if_pos hpoisoned] at haccess
    cases haccess
  unfold transfer
  rw [if_neg (Nat.not_lt.2 hmax), if_neg hopen, if_neg fun h => Bool.noConfusion (haccess.symm.trans h.2)]
  rfl

/-- The result of a callback that moved no more than it was asked for. -/
theorem clamped_result {result : Int} {bytes : List UInt8} (hle : result ≤ chunk)
    (hlength : bytes.length = result.toNat) :
    ((if (chunk : Int) < result then -5 else result) = bytes.length ∨
      (if (chunk : Int) < result then -5 else result) < 0 ∧ bytes = []) ∧ bytes.length ≤ chunk := by
  rw [if_neg (Int.not_lt.2 hle), hlength]
  refine ⟨?_, by omega⟩
  rcases Int.lt_or_le result 0 with hneg | hpos
  · refine .inr ⟨hneg, List.eq_nil_of_length_eq_zero ?_⟩
    rw [hlength]
    omega
  · exact .inl (Int.toNat_of_nonneg hpos).symm

/-- A transfer of a fragment with a file of the provider. -/
theorem transfer_turn (hm : h.files.Exact m) (hkind : d.kind = 5) (hchunk : 0 < chunk) (hmax : chunk ≤ int64Max) :
    ∃ bytes, Turn m h d writing position address s
      ⟨chunk, (s.transfer h d writing address chunk).1, position, (s.transfer h d writing address chunk).2⟩ bytes := by
  have h6 : d.kind ≠ 6 := by omega
  have h2 : d.kind ≠ 2 := by omega
  cases haccess : s.space.accessible address chunk (if writing then 1 else 2) with
  | false =>
    obtain ⟨error, herror, hrefused⟩ := transfer_refused (h := h) (d := d) hchunk hmax haccess
    rw [hrefused]
    exact ⟨[], turn_none (Int.le_of_lt herror) rfl rfl (fun _ => .refl _ _ _) rfl rfl (.inaccessible haccess)⟩
  | true =>
    rw [transfer_accessible hmax haccess]
    cases writing with
    | true =>
      let w := h.files.writeFile d.handle (s.guest.range address chunk) s.files
      let bytes := (s.guest.range address chunk).take w.1.toNat
      have hle : w.1 ≤ chunk := Int.le_trans hm.write (by rw [Guest.length_range])
      have hbytes : bytes = s.guest.range address w.1.toNat := s.guest.take_range address (by omega)
      have hlength : bytes.length = w.1.toNat := by rw [hbytes, Guest.length_range]
      obtain ⟨hresult, hfits⟩ := clamped_result hle hlength
      refine ⟨bytes, hresult, hfits, ?_, rfl, rfl, Guest.within_load _ _ _, fun hlt => ?_⟩
      · refine ⟨fun h => Bool.noConfusion h, fun _ => ⟨rfl, Guest.written_load _ _ _, ?_⟩, fun _ => hm.write_advances,
          fun h => absurd h h6, fun h => absurd h h2, ?_⟩
        · rw [hlength]
          exact hbytes
        · rw [if_neg h6]
          rfl
      · rw [hlength]
        exact .writes hkind rfl (lt_of_eq_of_lt (if_neg (Int.not_lt.2 hle)).symm hlt)
    | false =>
      let r := h.files.readFile d.handle chunk s.files
      have hlength : r.1.2.length = r.1.1.toNat := by
        rcases Int.lt_or_le r.1.1 0 with hneg | hpos
        · rw [hm.read_failed hneg, Int.toNat_of_nonpos (Int.le_of_lt hneg)]
          rfl
        · rw [(hm.read hpos).1]
          exact (Int.toNat_natCast _).symm
      have hle : r.1.1 ≤ chunk := by
        rcases Int.lt_or_le r.1.1 0 with hneg | hpos
        · omega
        · rw [(hm.read hpos).1]
          exact Int.ofNat_le.2 (hm.read hpos).2
      obtain ⟨hresult, hfits⟩ := clamped_result hle hlength
      refine ⟨r.1.2, hresult, hfits, ?_, rfl, rfl, Guest.within_store _ hfits, fun hlt => ?_⟩
      · refine ⟨fun _ => ⟨rfl, Guest.written_store _ _ _⟩, fun h => Bool.noConfusion h, fun _ => hm.read_advances,
          fun h => absurd h h6, fun h => absurd h h2, ?_⟩
        rw [if_neg h6]
        rfl
      · rw [hlength]
        exact .reads hkind rfl (lt_of_eq_of_lt (if_neg (Int.not_lt.2 hle)).symm hlt)

/-- A read that is refused moves nothing, and neither does asking whether it is at the end of the file. -/
theorem fileFragment_turn (hm : h.files.Exact m) (hkind : d.kind = 5) (hchunk : 0 < chunk) (hmax : chunk ≤ int64Max) :
    ∃ bytes, Turn m h d writing position address s (s.fileFragment h d writing position address chunk) bytes := by
  obtain ⟨bytes, hturn⟩ : ∃ bytes, Turn m h d writing position address s _ bytes := transfer_turn hm hkind hchunk hmax
  unfold fileFragment
  dsimp only
  split
  next hfault =>
    have hnone : bytes = [] := by
      rcases hturn.result with hok | ⟨_, hnone⟩
      · have hresult : (-14 : Int) = bytes.length := hfault.1.symm.trans hok
        omega
      · exact hnone
    subst hnone
    have hneg : (s.transfer h d writing address chunk).1 < 0 := by
      rw [hfault.1]
      decide
    have hrefused : (-14 : Int) ≤ 0 := by decide
    generalize (s.transfer h d writing address chunk).2 = s₁ at hturn
    have hseek : m.Advances d.handle s₁.files (s₁.seekFile h.files d.handle 0 1).2.files [] := hm.seek_keeps
    have hsame : (s₁.seekFile h.files d.handle 0 1).2.guest = s₁.guest ∧
        (s₁.seekFile h.files d.handle 0 1).2.table = s₁.table ∧
        (s₁.seekFile h.files d.handle 0 1).2.space = s₁.space := ⟨rfl, rfl, rfl⟩
    split
    next =>
      exact ⟨[], turn_settled hturn hneg hrefused rfl rfl hsame.1 hsame.2.1 hsame.2.2 hseek⟩
    next =>
      generalize (s₁.seekFile h.files d.handle 0 1).2 = s₂ at hseek hsame
      have hstat : m.Advances d.handle s₂.files (s₂.statFile h.files d.handle).2.files [] := hm.stat_keeps
      have hboth := hseek.trans hstat
      split
      next s₃ hanswer =>
        have hs₃ : s₃ = (s₂.statFile h.files d.handle).2 := (congrArg Prod.snd hanswer).symm
        subst hs₃
        exact ⟨[], turn_settled hturn hneg hrefused rfl rfl hsame.1 hsame.2.1 hsame.2.2 hboth⟩
      next info s₃ hanswer =>
        have hs₃ : s₃ = (s₂.statFile h.files d.handle).2 := (congrArg Prod.snd hanswer).symm
        subst hs₃
        refine ⟨[], turn_settled hturn hneg ?_ rfl rfl hsame.1 hsame.2.1 hsame.2.2 hboth⟩
        dsimp only
        split
        next => exact Int.le_refl _
        next => decide
  next => exact ⟨bytes, hturn⟩

/-- A fragment of any descriptor is moved or refused, if the provider is exact. -/
theorem fragment_turn (hm : h.files.Exact m) (hrandom : ∀ n x, (h.random n x).1.1 ≤ 0) (hkind : d.Transfers writing)
    (hmore : d.kind = 6 → position < s.table.commandline.length) (hchunk : 0 < chunk) (hmax : chunk ≤ int64Max) :
    ∃ bytes, Turn m h d writing position address s (s.fragment h d writing position address chunk) bytes := by
  unfold fragment
  rcases hkind with h5 | ⟨hw, hkind⟩
  · rw [if_neg (by omega), if_pos h5]
    exact fileFragment_turn hm h5 hchunk hmax
  · split
    next h6 => exact commandlineFragment_turn h6 hw (hmore h6) hchunk
    next =>
      rw [if_neg (by omega)]
      exact deviceFragment_turn hrandom (by omega) hw hchunk

theorem fragment_chunk (h : Host σ) (s : System σ) (d : Descriptor) (writing : Bool) (position address left : Nat) :
    (s.fragment h d writing position address (min (s.space.pageSize - address % s.space.pageSize) left)).chunk =
      s.fragmentLength d position address left := by
  unfold fragment fragmentLength
  dsimp only
  split
  next =>
    unfold commandlineFragment
    dsimp only
    split <;> rfl
  next =>
    split
    next =>
      unfold fileFragment
      dsimp only
      repeat' split
      all_goals rfl
    next =>
      generalize min (s.space.pageSize - address % s.space.pageSize) left = chunk
      obtain ⟨r, hr⟩ : ∃ r, (if d.kind = 3 then h.random (min chunk 256) s.files else ((0, fun _ => 0), s.files)) = r :=
        ⟨_, rfl⟩
      rw [deviceFragment_eq hr]
      split <;> rfl

/-- A turn tries no more than is left. -/
theorem fragmentLength_le (s : System σ) (d : Descriptor) (position address left : Nat) :
    s.fragmentLength d position address left ≤ left := by
  unfold fragmentLength
  dsimp only
  repeat' split
  all_goals omega

/-- A turn tries something, unless the command line is at its end. -/
theorem fragmentLength_pos {left : Nat} (hpage : 0 < s.space.pageSize) (hleft : 0 < left)
    (hmore : d.kind = 6 → position < s.table.commandline.length) : 0 < s.fragmentLength d position address left := by
  have hroom : 0 < s.space.pageSize - address % s.space.pageSize := Nat.sub_pos_of_lt (Nat.mod_lt _ hpage)
  unfold fragmentLength
  dsimp only
  split
  next h6 =>
    have hdata := hmore h6
    omega
  next => split <;> omega

end System

/-! ## The loop -/

/-- What the loop did from one state to another. -/
structure Transferred (m : Progress σ) (h : Host σ) (d : Descriptor) (writing : Bool) (address left position : Nat)
    (s : System σ) (position' : Nat) (s' : System σ) (bytes : List UInt8) : Prop where
  fits : bytes.length ≤ left
  moves : Moves m d writing address position s position' s' bytes
  table : s'.table = s.table
  space : s'.space = s.space
  within : s.guest.Within s'.guest address left
  short : bytes.length < left → CutShort m h d writing address left position s bytes

variable {h : Host σ} {left position' : Nat} {s' s'' : System σ} {bytes more : List UInt8}

/-- Bytes end in the fragment that stops the loop. -/
theorem CutShort.here
    (hstops : Stops h d writing position address (s.fragmentLength d position address left) s bytes.length) :
    CutShort m h d writing address left position s bytes :=
  ⟨[], bytes, position, s, rfl, .refl m d writing address position s, rfl, rfl, hstops⟩

/-- Fragments before it do not matter. -/
theorem CutShort.behind (hmoves : Moves m d writing address position s position' s' bytes) (htable : s'.table = s.table)
    (hspace : s'.space = s.space)
    (hshort : CutShort m h d writing (address + bytes.length) (left - bytes.length) position' s' more) :
    CutShort m h d writing address left position s (bytes ++ more) := by
  obtain ⟨whole, part, last, s₁, rfl, hwhole, htable₁, hspace₁, hstops⟩ := hshort
  refine ⟨bytes ++ whole, part, last, s₁, (List.append_assoc _ _ _).symm, hmoves.trans hwhole htable,
    htable₁.trans htable, hspace₁.trans hspace, ?_⟩
  rw [List.length_append, ← Nat.add_assoc, ← Nat.sub_sub]
  exact hstops

/-- The loop ends where it is. -/
theorem Transferred.refl
    (hstops : 0 < left → Stops h d writing position address (s.fragmentLength d position address left) s 0) :
    Transferred m h d writing address left position s position s [] where
  fits := Nat.zero_le _
  moves := .refl m d writing address position s
  table := rfl
  space := rfl
  within := .refl _ _ _
  short hlt := .here (hstops hlt)

/-- The loop ends with a turn. -/
theorem Transferred.turn {f : System.Fragment σ} (hturn : Turn m h d writing position address s f bytes)
    (hchunk : f.chunk = s.fragmentLength d position address left) (hfits : f.chunk ≤ left) (hlt : f.result < f.chunk) :
    Transferred m h d writing address left position s f.position f.system bytes where
  fits := Nat.le_trans hturn.fits hfits
  moves := hturn.moves
  table := hturn.table
  space := hturn.space
  within := hturn.within.mono (Nat.le_refl _) (Nat.add_le_add_left hfits _)
  short _ := .here (hchunk ▸ hturn.stops hlt)

/-- The loop goes on behind a turn that moved all it tried. -/
theorem Transferred.behind {f : System.Fragment σ} (hturn : Turn m h d writing position address s f bytes)
    (hfits : f.chunk ≤ left)
    (hrest : Transferred m h d writing (address + bytes.length) (left - bytes.length) f.position f.system
      position' s' more) :
    Transferred m h d writing address left position s position' s' (bytes ++ more) where
  fits := by
    have hbytes := hturn.fits
    have hmore := hrest.fits
    rw [List.length_append]
    omega
  moves := hturn.moves.trans hrest.moves hturn.table
  table := hrest.table.trans hturn.table
  space := hrest.space.trans hturn.space
  within := by
    have hbytes := hturn.fits
    refine (hturn.within.mono (Nat.le_refl _) (Nat.add_le_add_left hfits _)).trans ?_
    exact hrest.within.mono (Nat.le_add_right _ _) (by omega)
  short hlt := by
    rw [List.length_append] at hlt
    exact .behind hturn.moves hturn.table hturn.space (hrest.short (by omega))

/-- Every turn but the last moves a byte, so the turns do not run out. -/
theorem System.transferLoop_moves (hm : h.files.Exact m) (hrandom : ∀ n x, (h.random n x).1.1 ≤ 0)
    (hkind : d.Transfers writing) {start count : Nat} (hcount : count ≤ int64Max) (turns done position : Nat)
    (hpage : 0 < s.space.pageSize) (hturns : count < done + turns) (hdone : done ≤ count) :
    ∃ bytes, ((transferLoop h d writing start count turns done position s).1 = (done + bytes.length : Nat) ∨
        done = 0 ∧ (transferLoop h d writing start count turns done position s).1 < 0 ∧ bytes = []) ∧
      Transferred m h d writing (start + done) (count - done) position s
        (transferLoop h d writing start count turns done position s).2.1
        (transferLoop h d writing start count turns done position s).2.2 bytes := by
  -- one turn moves a fragment, and the rest is the loop behind it
  induction turns generalizing done position s with
  | zero => omega
  | succ turns ih =>
    unfold transferLoop
    split
    next hend =>
      refine ⟨[], .inl rfl, .refl fun hleft => ?_⟩
      rcases hend with hall | ⟨h6, hend⟩
      · omega
      · exact .ended h6 hend
    next hgo =>
      obtain ⟨hleft, hmore⟩ : done < count ∧ (d.kind = 6 → position < s.table.commandline.length) := by
        refine ⟨by omega, fun h6 => ?_⟩
        by_contra hend
        exact hgo (.inr ⟨h6, Nat.le_of_not_lt hend⟩)
      split
      next hwraps =>
        have hword : word ≤ start + done := by omega
        refine ⟨[], ?_, .refl fun _ => .wraps hword⟩
        split
        next => exact .inl rfl
        next hzero => exact .inr ⟨not_not.1 hzero, (by decide : (-14 : Int) < 0), rfl⟩
      next =>
        dsimp only
        have hroom : 0 < s.space.pageSize - (start + done) % s.space.pageSize := Nat.sub_pos_of_lt (Nat.mod_lt _ hpage)
        generalize hsize : min (s.space.pageSize - (start + done) % s.space.pageSize) (count - done) = size
        have hpos : 0 < size := by omega
        obtain ⟨bytes, hturn⟩ : ∃ bytes, Turn m h d writing position (start + done) s
            (s.fragment h d writing position (start + done) size) bytes :=
          fragment_turn hm hrandom hkind hmore hpos (by omega)
        have hchunk := fragment_chunk h s d writing position (start + done) (count - done)
        rw [hsize] at hchunk
        generalize s.fragment h d writing position (start + done) size = f at hturn hchunk
        have hfits : f.chunk ≤ count - done := hchunk ▸ s.fragmentLength_le d position (start + done) (count - done)
        have hmoves : 0 < f.chunk := hchunk ▸ fragmentLength_pos hpage (by omega) hmore
        split
        next hneg =>
          have hnone : bytes = [] := by
            rcases hturn.result with hok | ⟨_, hnone⟩
            · omega
            · exact hnone
          subst hnone
          refine ⟨[], ?_, .turn hturn hchunk hfits (by omega)⟩
          split
          next => exact .inl rfl
          next hzero => exact .inr ⟨not_not.1 hzero, hneg, rfl⟩
        next hok =>
          have hlength : f.result = bytes.length := hturn.result.resolve_right fun h => hok h.1
          split
          next hlt =>
            refine ⟨bytes, .inl ?_, .turn hturn hchunk hfits hlt⟩
            rw [hlength]
            rfl
          -- the fragment was moved whole, so the loop goes on
          next hwhole =>
            have hall : bytes.length = f.chunk := by
              have hle := hturn.fits
              omega
            have hresult : f.result.toNat = bytes.length := by omega
            rw [hresult]
            obtain ⟨more, hanswer, hrest⟩ := ih (done + bytes.length) f.position (s := f.system)
              (hturn.space ▸ hpage) (by omega) (by omega)
            refine ⟨bytes ++ more, ?_, .behind hturn hfits ?_⟩
            · rcases hanswer with hanswer | ⟨hzero, _⟩
              · left
                rw [hanswer, List.length_append, Nat.add_assoc]
              · omega
            · rw [Nat.add_assoc, Nat.sub_sub]
              exact hrest

/-! ## Read and write -/

/-- The descriptor that was written is read back. -/
theorem Table.get_set {t : Table} {fd : Int} {d e : Descriptor} (hget : t.get fd = some d) (he : e.kind ≠ 0) :
    ({ t with descriptors := t.descriptors.set (fd - 3).toNat e } : Table).get fd = some e := by
  unfold Table.get at hget ⊢
  split at hget
  next => cases hget
  next hfd =>
    rw [if_neg hfd]
    dsimp only
    split at hget
    next => cases hget
    next _ hslot =>
      have hlt : (fd - 3).toNat < t.descriptors.length := (List.getElem?_eq_some_iff.1 hslot).1
      rw [List.getElem?_set_self hlt]
      exact if_neg he

/-- The descriptors of the loop have no transfer of their own. -/
theorem Descriptor.Transfers.not_special {caller count : Nat} (hkind : d.Transfers writing) :
    s.special h caller d (!writing) writing address count = none := by
  have hkinds : d.kind ≠ 10 ∧ d.kind ≠ 11 ∧ d.kind ≠ 12 := by
    rcases hkind with h5 | ⟨_, hkind⟩ <;> omega
  unfold System.special
  rw [if_neg hkinds.1, if_neg hkinds.2.2, if_neg hkinds.2.1]

/-- A result is the number of bytes that were moved, and an error moved none; where they are less than was
asked for, the cap or a fragment says why. -/
structure Reports (m : Progress σ) (h : Host σ) (d : Descriptor) (writing : Bool) (fd : Int) (address count : Nat)
    (s : System σ) (r : Int × System σ) (position' : Nat) (bytes : List UInt8) : Prop where
  result : 0 ≤ r.1 → r.1 = bytes.length
  failed : r.1 < 0 → bytes = []
  fits : bytes.length ≤ count
  moves : Moves m d writing address d.position s position' r.2 bytes
  descriptor : r.2.table.get fd = some { d with position := position' }
  within : s.guest.Within r.2.guest address count
  short : 0 ≤ r.1 → bytes.length < count →
    bytes.length = s.transferCap ∨ CutShort m h d writing address (min count s.transferCap) d.position s bytes

/-- A call that is refused before the loop. -/
theorem Reports.refused {fd error : Int} {count : Nat} (hd : s.table.get fd = some d) (herror : error < 0) :
    Reports m h d writing fd address count s (error, s) d.position [] where
  result hpos := absurd hpos (Int.not_le.2 herror)
  failed _ := rfl
  fits := Nat.zero_le _
  moves := .refl m d writing address d.position s
  descriptor := hd
  within := .refl _ _ _
  short hpos := absurd hpos (Int.not_le.2 herror)

/-- A read or a write reports exactly what it moved. -/
theorem readWrite_reports (hm : h.files.Exact m) (hrandom : ∀ n x, (h.random n x).1.1 ≤ 0)
    (hpage : 0 < s.space.pageSize) {fd : Int} (hd : s.table.get fd = some d) (hkind : d.Transfers writing)
    (caller count : Nat) : ∃ position' bytes,
      Reports m h d writing fd address count s (s.readWrite h caller fd writing address count) position' bytes := by
  have hkinds : d.kind ≠ 0 ∧ d.kind ≠ 9 ∧ d.kind ≠ 1 ∧ ¬ (d.kind ≠ 5 ∧ writing = true) := by
    rcases hkind with h5 | ⟨rfl, hkind⟩
    · omega
    · refine ⟨by omega, by omega, by omega, fun h => Bool.noConfusion h.2⟩
  have hcap : s.transferCap ≤ int64Max := Nat.le_trans (Nat.div_mul_le_self _ _) (by decide)
  unfold System.readWrite
  rw [hd]
  dsimp only
  rw [hkind.not_special]
  dsimp only
  split
  next => exact ⟨d.position, [], .refused hd (by decide)⟩
  next =>
    rw [if_neg hkinds.2.1]
    split
    next => exact ⟨d.position, [], .refused hd (by decide)⟩
    next =>
      rw [if_neg hkinds.2.2.2, if_neg hkinds.2.2.1]
      have hcount : min count s.transferCap ≤ int64Max := Nat.le_trans (Nat.min_le_right _ _) hcap
      obtain ⟨bytes, hanswer, hloop⟩ := System.transferLoop_moves hm hrandom hkind hcount
        (min count s.transferCap + 1) 0 d.position hpage (by omega) (Nat.zero_le _)
      generalize System.transferLoop h d writing address (min count s.transferCap) (min count s.transferCap + 1) 0
        d.position s = r at hanswer hloop
      have hfits := hloop.fits
      refine ⟨r.2.1, bytes, ?_, ?_, by omega, ?_, ?_, ?_, ?_⟩
      · intro hpos
        rcases hanswer with hanswer | ⟨_, hneg, _⟩
        · rw [hanswer, Nat.zero_add]
        · exact absurd hpos (Int.not_le.2 hneg)
      · intro hneg
        rcases hanswer with hanswer | ⟨_, _, hnone⟩
        · have hbad : r.1 < 0 := hneg
          omega
        · exact hnone
      · exact ⟨hloop.moves.read, hloop.moves.write, hloop.moves.file, hloop.moves.commandline, hloop.moves.zero,
          hloop.moves.position⟩
      · have hget : r.2.2.table.get fd = some d := hloop.table ▸ hd
        exact Table.get_set hget hkinds.1
      · exact hloop.within.mono (Nat.le_refl _) (by omega)
      · intro _ hlt
        rcases Nat.lt_or_ge bytes.length (min count s.transferCap) with hshort | hall
        · exact .inr (hloop.short hshort)
        · left
          omega

/-! ## A file in memory -/

/-- One open file. -/
structure Memory where
  content : List UInt8
  offset : Nat := 0
  moved : List UInt8 := []

def Memory.progress : Progress Memory where
  offset _ x := x.offset
  moved _ x := x.moved

def memoryHost : Host Memory where
  files := {
    openFile := fun _ _ _ _ x => (.ok 0, x)
    closeFile := fun _ x => (0, x)
    readFile := fun _ length x =>
      let bytes := (x.content.drop x.offset).take length
      ((bytes.length, bytes), { x with offset := x.offset + bytes.length, moved := x.moved ++ bytes })
    writeFile := fun _ bytes x =>
      (bytes.length, {
        content := Bytes.splice x.content x.offset bytes
        offset := x.offset + bytes.length
        moved := x.moved ++ bytes })
    seekFile := fun _ offset origin x => if offset = 0 ∧ origin = 1 then (x.offset, x) else (-22, x)
    statFile := fun _ x => (.ok { size := BitVec.ofNat 64 x.content.length }, x)
    statAt := fun _ _ x => (.error (-2), x)
    unlinkFile := fun _ _ _ x => (-30, x) }
  random _ x := ((0, fun _ => 7), x)
  deviceOpen x := (.ok 1, x)
  setNonblocking _ _ x := (0, x)
  waitFor _ _ _ _ x := (0, x)

/-- The sample provider answers what it moved. -/
theorem memoryHost_exact : memoryHost.files.Exact Memory.progress where
  read _ := ⟨rfl, List.length_take_le _ _⟩
  read_failed hneg := absurd (Int.natCast_nonneg _) (Int.not_le.2 hneg)
  read_advances := ⟨rfl, rfl⟩
  write := Int.le_refl _
  write_advances {handle bytes x} := by
    have hall : bytes.take (memoryHost.files.writeFile handle bytes x).1.toNat = bytes := List.take_length
    rw [hall]
    exact ⟨rfl, rfl⟩
  seek_keeps {handle x} := .refl _ _ _
  stat_keeps {handle x} := .refl _ _ _

/-- A file of three bytes is open, and the guest has one page. -/
def memorySystem : System Memory where
  table := { descriptors := [{ kind := 5, handle := some ⟨0, []⟩ }] }
  files := { content := [1, 2, 3] }
  space := {
    pageSize := 4096
    limit := 4096
    regionLimit := 1
    regions := [.uniform 4096 4096 1 { mapped := true, protection := 3 }] }
  guest := { byte := fun _ => 0 }

/-- Two bytes fit before the end of the page; the third is still in the file. -/
theorem readWrite_reports_sample :
    (memorySystem.readWrite memoryHost 0 3 false 8190 4).1 = 2 ∧
      (memorySystem.readWrite memoryHost 0 3 false 8190 4).2.files.offset = 2 ∧
      ∃ position' bytes, Reports Memory.progress memoryHost { kind := 5, handle := some ⟨0, []⟩ } false 3 8190 4
        memorySystem (memorySystem.readWrite memoryHost 0 3 false 8190 4) position' bytes :=
  ⟨by decide +kernel, by decide +kernel,
    readWrite_reports memoryHost_exact (fun _ _ => Int.le_refl 0) (by decide) rfl (.inl rfl) 0 4⟩

end Artbox.Files
