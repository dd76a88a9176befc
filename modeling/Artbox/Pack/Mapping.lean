import Artbox.Pack.LoadImage
import Mathlib.Data.BitVec

/-!
# The mapping of a linked wrapper

A guest section of a Mach-O file is told by the load commands alone (`Guest`), and so is what an
address in it is backed by. `verify_macho` records the address of each guest section it meets, and
both of them are there in the end (`Recorded`), so that one load bias takes the virtual addresses
of the ELF file to the bytes of its load image.
-/

namespace Artbox.Pack

open Bytes Require

/-! ## Load commands -/

/-- Where load command `n` starts. -/
def commandAt (data : List UInt8) : Nat → Nat
  | 0 => 32
  | n + 1 => commandAt data n + field data (commandAt data n + 4) 4

/-- Load command `n` as a segment command. -/
def segmentOf (data : List UInt8) (n : Nat) : MachSegment := machSegmentAt data (commandAt data n)

/-- Section `i` of load command `n`. -/
def sectionOf (data : List UInt8) (n i : Nat) : MachSection :=
  machSectionAt data (commandAt data n + 72 + i * 80)

/-- Load command `n` has a guest section at index `i`. -/
structure Guest (data : List UInt8) (n i : Nat) : Prop where
  command : field data (commandAt data n) 4 = 0x19
  section_lt : i < (segmentOf data n).sections
  name : (sectionOf data n i).name = guestName

/-- A section has an address. -/
def MachSection.Covers (c : MachSection) (address : Nat) : Prop :=
  c.target ≤ address ∧ address < c.target + c.length

/-- A protection that allows writing. -/
def writable (protection : BitVec 32) : Bool := protection.getLsbD 1

/-- A protection that allows execution. -/
def executable (protection : BitVec 32) : Bool := protection.getLsbD 2

variable {δ : Type} {digest : List UInt8 → δ} {data : List UInt8} {layout : Layout δ}

/-- What `verify_macho` checks of a guest section. -/
structure Placed (digest : List UInt8 → δ) (data : List UInt8) (layout : Layout δ) (s : MachSegment)
    (c : MachSection) : Prop where
  name : s.name = textName ∨ s.name = dataName
  target_ge : s.address ≤ c.target
  fileoff_le : c.fileoff + c.length ≤ s.offset + s.fileSize
  same : c.target + s.offset = c.fileoff + s.address
  inside : s.offset + s.fileSize ≤ data.length
  space : s.address + s.memory ≤ 2 ^ 64
  file_le : s.fileSize ≤ s.memory
  initial : s.initial = if s.name = textName then 5 else 3
  length : c.length = if s.name = textName then layout.rxBytes else layout.rwBytes
  bytes : digest ((data.drop c.fileoff).take c.length) = if s.name = textName then layout.rx else layout.rw
  exclusive : s.maximum &&& 6 ≠ 6
  allowed : s.initial &&& ~~~s.maximum = 0

/-- What was found is read back, and nothing else has changed. -/
theorem Found.get_put (f : Found) {name other : List UInt8} {target : Nat}
    (h : name = textName ∨ name = dataName) :
    (f.put name target).get other = if other = name then some target else f.get other := by
  have hne : dataName ≠ textName := by decide
  rcases h with rfl | rfl
  · rw [Found.put, if_pos rfl]
    unfold Found.get
    by_cases ho : other = textName
    · rw [if_pos ho, if_pos ho]
    · rw [if_neg ho, if_neg ho, if_neg ho]
  · rw [Found.put, if_neg hne, if_pos rfl]
    unfold Found.get
    by_cases ho : other = dataName
    · rw [if_pos ho, if_neg (ho ▸ hne), if_pos ho]
    · rw [if_neg ho]
      split
      · rfl
      · rfl

/-- The sections before section `i` of load command `n`. -/
def Earlier (n i m j : Nat) : Prop := m < n ∨ (m = n ∧ j < i)

/-- Every guest section so far is placed and recorded, and nothing else is. -/
structure Recorded (digest : List UInt8 → δ) (data : List UInt8) (layout : Layout δ) (n i : Nat) (found : Found) :
    Prop where
  sections : ∀ m j, Earlier n i m j → Guest data m j →
    Placed digest data layout (segmentOf data m) (sectionOf data m j) ∧
      found.get (segmentOf data m).name = some (sectionOf data m j).target
  found : ∀ name target, found.get name = some target → ∃ m j, Earlier n i m j ∧ Guest data m j ∧
    (segmentOf data m).name = name ∧ (sectionOf data m j).target = target

/-- Section `i` of a segment command that is no guest section changes nothing. -/
theorem Recorded.skip {n i : Nat} {found : Found} (h : Recorded digest data layout n i found)
    (hn : ¬ Guest data n i) : Recorded digest data layout n (i + 1) found where
  sections m j hm hg := by
    refine h.sections m j ?_ hg
    rcases hm with hm | ⟨rfl, hj⟩
    · exact .inl hm
    · refine .inr ⟨rfl, Nat.lt_of_le_of_ne (Nat.le_of_lt_succ hj) ?_⟩
      intro heq
      subst heq
      exact hn hg
  found name target hf := by
    obtain ⟨m, j, hm, hg, h1, h2⟩ := h.found name target hf
    exact ⟨m, j, hm.imp_right fun ⟨h3, h4⟩ => ⟨h3, Nat.lt_succ_of_lt h4⟩, hg, h1, h2⟩

/-- A guest section of a name that was not found yet. -/
theorem Recorded.put {n i : Nat} {found : Found} (h : Recorded digest data layout n i found) (hg : Guest data n i)
    (hp : Placed digest data layout (segmentOf data n) (sectionOf data n i))
    (hnew : found.get (segmentOf data n).name = none) :
    Recorded digest data layout n (i + 1) (found.put (segmentOf data n).name (sectionOf data n i).target) where
  sections m j hm hgm := by
    rw [Found.get_put found hp.name]
    by_cases hself : m = n ∧ j = i
    · obtain ⟨rfl, rfl⟩ := hself
      exact ⟨hp, if_pos rfl⟩
    · have hearlier : Earlier n i m j := by
        unfold Earlier at hm ⊢
        omega
      obtain ⟨hpm, hfm⟩ := h.sections m j hearlier hgm
      refine ⟨hpm, ?_⟩
      rw [if_neg]
      · exact hfm
      · intro heq
        rw [heq, hnew] at hfm
        cases hfm
  found name target hf := by
    rw [Found.get_put found hp.name] at hf
    split at hf
    next heq =>
      cases hf
      exact ⟨n, i, .inr ⟨rfl, Nat.lt_succ_self i⟩, hg, heq.symm, rfl⟩
    next =>
      obtain ⟨m, j, hm, hgm, h1, h2⟩ := h.found name target hf
      exact ⟨m, j, hm.imp_right fun ⟨h3, h4⟩ => ⟨h3, Nat.lt_succ_of_lt h4⟩, hgm, h1, h2⟩

/-- Behind the last section of a load command comes the next one. -/
theorem Recorded.next {n i : Nat} {found : Found} (h : Recorded digest data layout n i found)
    (hn : ∀ j, Guest data n j → j < i) : Recorded digest data layout (n + 1) 0 found where
  sections m j hm hg := by
    refine h.sections m j ?_ hg
    rcases hm with hm | ⟨_, hj⟩
    · rcases Nat.lt_succ_iff_lt_or_eq.1 hm with hm | rfl
      · exact .inl hm
      · exact .inr ⟨rfl, hn j hg⟩
    · exact absurd hj (Nat.not_lt_zero j)
  found name target hf := by
    obtain ⟨m, j, hm, hg, h1, h2⟩ := h.found name target hf
    refine ⟨m, j, .inl ?_, hg, h1, h2⟩
    unfold Earlier at hm
    omega

/-! ## Protections -/

/-- Every initial permission is among the maximal ones. -/
theorem bit_of_allowed {initial maximum : BitVec 32} (h : initial &&& ~~~maximum = 0) {i : Nat}
    (hi : initial.getLsbD i = true) : maximum.getLsbD i = true := by
  have hbit := congrArg (fun b => b.getLsbD i) h
  have hlt : i < 32 := BitVec.lt_of_getLsbD hi
  simp only [BitVec.getLsbD_and, BitVec.getLsbD_not, hi, hlt, decide_true, Bool.true_and, BitVec.ofNat_eq_ofNat,
    BitVec.getLsbD_zero] at hbit
  simpa using hbit

/-- A protection never allows both. -/
theorem exclusive_bits {p : BitVec 32} (h : p &&& 6 ≠ 6) : ¬ (writable p = true ∧ executable p = true) := by
  intro hall
  obtain ⟨hwrite, hexecute⟩ := hall
  apply h
  have hsix : ∀ i : Fin 32, (6 : BitVec 32).getLsbD i = (i.1 == 1 || i.1 == 2) := by decide
  apply BitVec.eq_of_getLsbD_eq
  intro i hi
  rw [BitVec.getLsbD_and, hsix ⟨i, hi⟩]
  by_cases hbit : i = 1 ∨ i = 2
  · rcases hbit with rfl | rfl
    · exact (Bool.and_true _).trans hwrite
    · exact (Bool.and_true _).trans hexecute
  · have hfalse : (i == 1 || i == 2) = false := by simpa using hbit
    rw [hfalse, Bool.and_false]

/-- The code is in memory that never becomes writable, the data in memory that never becomes
executable. -/
theorem Placed.protected {s : MachSegment} {c : MachSection} (h : Placed digest data layout s c) :
    (s.name = textName → s.initial = 5 ∧ writable s.maximum = false) ∧
      (s.name = dataName → s.initial = 3 ∧ executable s.maximum = false) := by
  have hinitial := h.initial
  have hexclusive := exclusive_bits h.exclusive
  constructor
  · intro hname
    rw [if_pos hname] at hinitial
    have hexecute : executable s.maximum = true := bit_of_allowed h.allowed (by rw [hinitial]; decide)
    exact ⟨hinitial, Bool.eq_false_iff.2 fun hwrite => hexclusive ⟨hwrite, hexecute⟩⟩
  · intro hname
    rw [if_neg (by rw [hname]; decide)] at hinitial
    have hwrite : writable s.maximum = true := bit_of_allowed h.allowed (by rw [hinitial]; decide)
    exact ⟨hinitial, Bool.eq_false_iff.2 fun hexecute => hexclusive ⟨hwrite, hexecute⟩⟩

/-- The digest tells every part of `data` from `part`. -/
def Distinguishes (digest : List UInt8 → δ) (data part : List UInt8) : Prop :=
  ∀ i n, digest ((data.drop i).take n) = digest part → (data.drop i).take n = part

/-- What is mapped at an address of a segment that the file backs. -/
def MachSegment.mapped (s : MachSegment) (data : List UInt8) (address : Nat) : Option UInt8 :=
  if s.address ≤ address ∧ address < s.address + s.fileSize then data[s.offset + (address - s.address)]? else none

/-- Byte `k` of a guest section is mapped from byte `k` of its part. -/
theorem Placed.mapped {s : MachSegment} {c : MachSection} (h : Placed digest data layout s c)
    {part : List UInt8} (hbytes : (data.drop c.fileoff).take c.length = part) {k : Nat} (hk : k < c.length) :
    s.mapped data (c.target + k) = part[k]? := by
  have hsame := h.same
  have hfileoff := h.fileoff_le
  have htarget := h.target_ge
  rw [MachSegment.mapped, if_pos (by omega), ← hbytes, List.getElem?_take_of_lt hk, List.getElem?_drop]
  congr 1
  omega

/-- The load bias takes each virtual address of the load image to the byte of the image, in code that
stays read-only and in data that never becomes code. -/
structure Preserved (macho : List UInt8) (elf rx rw : List UInt8) (bias : Nat) : Prop where
  /-- Every virtual address is in a guest section. -/
  covered : ∀ v < rx.length + rw.length, ∃ n i, n < field macho 16 4 ∧ Guest macho n i ∧
    (sectionOf macho n i).Covers (bias + v)
  /-- Whatever guest section it is in. -/
  mapped : ∀ v < rx.length + rw.length, ∀ n i, n < field macho 16 4 → Guest macho n i →
    (sectionOf macho n i).Covers (bias + v) →
    (∃ b, (segmentOf macho n).mapped macho (bias + v) = some b ∧ LoadImage elf v b) ∧
    bias + v < 2 ^ 64 ∧
    (v < rx.length → (segmentOf macho n).initial = 5 ∧ writable (segmentOf macho n).maximum = false) ∧
    (rx.length ≤ v → (segmentOf macho n).initial = 3 ∧ executable (segmentOf macho n).maximum = false)

/-! ## The loops -/

variable [DecidableEq δ]

/-- What `verify_macho` checks of a segment command. -/
structure MachSegment.Checked (s : MachSegment) (data : List UInt8) : Prop where
  space : s.address + s.memory ≤ 2 ^ 64
  inside : s.offset + s.fileSize ≤ data.length
  file_le : s.fileSize ≤ s.memory
  exclusive : s.maximum &&& 6 ≠ 6
  allowed : s.initial &&& ~~~s.maximum = 0

/-- A checked section is recorded where it is. -/
theorem checkSection_recorded {n i : Nat} {found found' : Found}
    (hcommand : field data (commandAt data n) 4 = 0x19) (hs : (segmentOf data n).Checked data)
    (hi : i < (segmentOf data n).sections) (h : Recorded digest data layout n i found)
    (hcheck : checkSection digest data layout (segmentOf data n) (commandAt data n) found i = .ok found') :
    Recorded digest data layout n (i + 1) found' := by
  unfold checkSection at hcheck
  rw [readable, require_bind_eq_ok] at hcheck
  obtain ⟨-, hcheck⟩ := hcheck
  dsimp only at hcheck
  split at hcheck
  next hname =>
    cases hcheck
    exact h.skip fun hg => hname hg.name
  next hname =>
    rw [not_not] at hname
    simp only [require_bind_eq_ok] at hcheck
    obtain ⟨⟨-, hnames, hnew⟩, ⟨h1, h2, h3, h4⟩, ⟨h5, -⟩, ⟨h6, h7, h8⟩, heq⟩ := hcheck
    cases heq
    refine h.put ⟨hcommand, hi, hname⟩ ?_ hnew
    unfold sectionOf
    exact ⟨hnames, by omega, by omega, by omega, hs.inside, hs.space, hs.file_le, h6, h7, h8, hs.exclusive,
      hs.allowed⟩

/-- All sections of a checked segment are recorded. -/
theorem checkSegment_recorded {n size : Nat} {found found' : Found}
    (hcommand : field data (commandAt data n) 4 = 0x19) (h : Recorded digest data layout n 0 found)
    (hcheck : checkSegment digest data layout (commandAt data n) size found = .ok found') :
    Recorded digest data layout (n + 1) 0 found' := by
  unfold checkSegment at hcheck
  simp only [readable, require_bind_eq_ok] at hcheck
  obtain ⟨-, ⟨-, h1, h2, h3, h4⟩, ⟨-, h5, h6⟩, hloop⟩ := hcheck
  have hs : (segmentOf data n).Checked data := by
    unfold segmentOf
    exact ⟨h1, by omega, h4, h5, h6⟩
  have hend : Recorded digest data layout n (segmentOf data n).sections found' :=
    range_inv (P := fun i found => Recorded digest data layout n i found)
      (fun i hi found found' hr hpass => checkSection_recorded hcommand hs hi hr hpass) h hloop
  exact hend.next fun j hg => hg.section_lt

/-- A checked command leads to the next one, with its sections recorded. -/
theorem checkCommand_recorded {n k stop : Nat} {s s' : Nat × Found}
    (h : s.1 = commandAt data n ∧ Recorded digest data layout n 0 s.2)
    (hcheck : checkCommand digest data layout stop s k = .ok s') :
    s'.1 = commandAt data (n + 1) ∧ Recorded digest data layout (n + 1) 0 s'.2 := by
  obtain ⟨hpos, hr⟩ := h
  unfold checkCommand at hcheck
  simp only [readable, require_bind_eq_ok] at hcheck
  obtain ⟨-, -, hcheck⟩ := hcheck
  rw [hpos] at hcheck
  split at hcheck
  next hcommand =>
    rw [bind_eq_ok] at hcheck
    obtain ⟨found, hsegment, heq⟩ := hcheck
    cases heq
    exact ⟨rfl, checkSegment_recorded hcommand hr hsegment⟩
  next hcommand =>
    cases hcheck
    exact ⟨rfl, hr.next fun j hg => absurd hg.command hcommand⟩

/-- What `verify_macho` returns is the address of the guest section in `__TEXT`; that in `__DATA` is
where the virtual addresses want it. -/
theorem verifyMacho_recorded {report : Report δ} (h : verifyMacho digest data layout = .ok report) :
    ∃ found, Recorded digest data layout (field data 16 4) 0 found ∧ found.text = some report.loadBias ∧
      found.data = some (report.loadBias + layout.writable.address) := by
  unfold verifyMacho at h
  rw [readable, require_bind_eq_ok, require_bind_eq_ok] at h
  obtain ⟨-, -, h⟩ := h
  dsimp only at h
  rw [require_bind_eq_ok, bind_eq_ok] at h
  obtain ⟨-, ⟨position, found⟩, hloop, h⟩ := h
  have hstart : Recorded digest data layout 0 0 {} := by
    refine ⟨fun m j hm _ => ?_, fun name target hf => ?_⟩
    · unfold Earlier at hm
      omega
    · unfold Found.get at hf
      split_ifs at hf
  have hend := range_inv (P := fun n s => s.1 = commandAt data n ∧ Recorded digest data layout n 0 s.2)
    (fun n _ s s' hs hpass => checkCommand_recorded hs hpass) ⟨rfl, hstart⟩ hloop
  dsimp only at h
  split at h
  next text target htext hdata =>
    rw [require_bind_eq_ok, require_bind_eq_ok] at h
    obtain ⟨-, htarget, heq⟩ := h
    cases heq
    exact ⟨found, hend.2, htext, htarget ▸ hdata⟩
  next => cases h

/-! ## The wrapper -/

/-- A verified wrapper has the packed images at the offsets that are returned. -/
theorem Packed.preserved {elf rx rw : List UInt8} (hp : Packed elf rx rw layout.code layout.writable)
    (hrx : layout.rx = digest rx) (hrw : layout.rw = digest rw) (hrxBytes : layout.rxBytes = rx.length)
    (hrwBytes : layout.rwBytes = rw.length) {report : Report δ} (h : verifyMacho digest data layout = .ok report)
    (hdrx : Distinguishes digest data rx) (hdrw : Distinguishes digest data rw) :
    Preserved data elf rx rw report.loadBias := by
  obtain ⟨found, hr, htext, hdata⟩ := verifyMacho_recorded h
  have hne : dataName ≠ textName := by decide
  have hsplit := hp.length_rx
  have hgetText : found.get textName = some report.loadBias := (if_pos rfl).trans htext
  have hgetData : found.get dataName = some (report.loadBias + rx.length) := by
    rw [hsplit]
    exact ((if_neg hne).trans (if_pos rfl)).trans hdata
  have hearlier : ∀ n i, Earlier (field data 16 4) 0 n i ↔ n < field data 16 4 := by
    intro n i
    unfold Earlier
    omega
  constructor
  · intro v hv
    rcases Nat.lt_or_ge v rx.length with hcode | hbehind
    · obtain ⟨n, i, hn, hg, hname, htarget⟩ := hr.found _ _ hgetText
      have hlength := (hr.sections n i hn hg).1.length
      rw [if_pos hname, hrxBytes] at hlength
      exact ⟨n, i, (hearlier n i).1 hn, hg, by omega, by omega⟩
    · obtain ⟨n, i, hn, hg, hname, htarget⟩ := hr.found _ _ hgetData
      have hlength := (hr.sections n i hn hg).1.length
      rw [if_neg (hname ▸ hne), hrwBytes] at hlength
      exact ⟨n, i, (hearlier n i).1 hn, hg, by omega, by omega⟩
  · intro v hv n i hn hg hcovers
    obtain ⟨b, hb, himage⟩ := hp.loaded hv
    obtain ⟨hplaced, hfound⟩ := hr.sections n i ((hearlier n i).2 hn) hg
    obtain ⟨hcode, hwritable⟩ := hplaced.protected
    have hlength := hplaced.length
    have hbytes := hplaced.bytes
    have hspace : report.loadBias + v < 2 ^ 64 := by
      have h1 := hplaced.space
      have h2 := hplaced.file_le
      have h3 := hplaced.fileoff_le
      have h4 := hplaced.same
      have h5 := hcovers.2
      omega
    rcases hplaced.name with hname | hname
    · -- the section is the code
      rw [if_pos hname] at hlength hbytes
      rw [hname, hgetText] at hfound
      have htarget : (sectionOf data n i).target = report.loadBias := (Option.some.inj hfound).symm
      have hlt : v < rx.length := by
        have := hcovers.2
        omega
      have hmapped := hplaced.mapped (hdrx _ _ (hbytes.trans hrx)) (hlength ▸ hrxBytes ▸ hlt)
      rw [List.getElem?_append_left hlt] at hb
      rw [htarget, hb] at hmapped
      exact ⟨⟨b, hmapped, himage⟩, hspace, fun _ => hcode hname, fun hge => absurd hlt (Nat.not_lt_of_le hge)⟩
    · rw [if_neg (hname ▸ hne)] at hlength hbytes
      rw [hname, hgetData] at hfound
      have htarget : (sectionOf data n i).target = report.loadBias + rx.length := (Option.some.inj hfound).symm
      have hge : rx.length ≤ v := by
        have := hcovers.1
        omega
      have hmapped := hplaced.mapped (k := v - rx.length) (hdrw _ _ (hbytes.trans hrw)) (by omega)
      rw [List.getElem?_append_right hge] at hb
      rw [htarget, hb, Nat.add_assoc, Nat.add_sub_cancel' hge] at hmapped
      exact ⟨⟨b, hmapped, himage⟩, hspace, fun hlt => absurd hlt (Nat.not_lt_of_le hge), fun _ => hwritable hname⟩

/-- The two parts of a file are its load image. -/
structure Imaged (elf rx rw : List UInt8) : Prop where
  /-- The read/write load starts with the second part. -/
  loads : ∃ code writable, (segmentsOf elf 1).Perm [code, writable] ∧ writable.address = rx.length ∧
    writable.memorySize = rw.length
  sane : ∀ s ∈ segmentsOf elf 1, s.Sane elf ∧ s.address + s.memorySize ≤ rx.length + rw.length
  loaded : ∀ v < rx.length + rw.length, ∃ b, (rx ++ rw)[v]? = some b ∧ LoadImage elf v b
  unique : ∀ v b b', LoadImage elf v b → LoadImage elf v b' → b = b'
  /-- The dynamic table and the initializer of TLS are in the second part at their virtual addresses. -/
  tables : ∃ table, segmentsOf elf 2 = [table]
  filed : ∀ s ∈ segmentsOf elf 2 ++ segmentsOf elf 7, rx.length ≤ s.address ∧
    s.address + s.memorySize ≤ rx.length + rw.length ∧
    ∀ k < s.fileSize, rw[s.address - rx.length + k]? = elf[s.offset + k]? ∧ s.offset + k < elf.length

/-- The packed images are those of the ELF file. -/
theorem Packed.imaged {elf rx rw : List UInt8} {code writable : Segment} (h : Packed elf rx rw code writable) :
    Imaged elf rx rw := by
  have hrx := h.length_rx
  have hrw := h.length_rw
  have hsplit := h.split
  have hzero := h.code_address
  obtain ⟨table, htable, hwithin, hsize⟩ := h.tables
  refine ⟨⟨code, writable, h.loads, hrx.symm, hrw.symm⟩, fun s hs => ⟨h.sane 1 s hs, ?_⟩, fun v => h.loaded,
    fun v b b' => h.unique, ⟨table, htable⟩, fun s hs => ?_⟩
  · rcases h.mem_loads.1 hs with rfl | rfl <;> omega
  · have hboth : s.Within writable ∧ s.Sane elf := by
      rcases List.mem_append.1 hs with hs | hs
      · have hsane := h.sane 2 s hs
        rw [htable, List.mem_singleton] at hs
        exact ⟨hs ▸ hwithin, hsane⟩
      · exact ⟨h.templates s hs, h.sane 7 s hs⟩
    have habove := hboth.1.above
    have hbelow := hboth.1.below
    rw [hrx]
    exact ⟨habove, by omega, fun k hk => h.filed hboth.1 hboth.2 hk⟩

/-- What `pack_layout` returns is the load image of the ELF file, and every Mach-O file that passes
`verify_macho` against it maps that image at one load bias. -/
theorem wrapper_preserves {elf rx rw : List UInt8} (h : packLayout digest elf = .ok (rx, rw, layout)) :
    Imaged elf rx rw ∧ ∀ macho report, verifyMacho digest macho layout = .ok report →
      Distinguishes digest macho rx → Distinguishes digest macho rw →
      Preserved macho elf rx rw report.loadBias := by
  obtain ⟨hpacked, hrxBytes, hrwBytes, hrx, hrw⟩ := packLayout_packed h
  exact ⟨hpacked.imaged, fun macho report hverify =>
    hpacked.preserved hrx hrw hrxBytes hrwBytes hverify⟩

/-- A program header. -/
def sampleHeader (type flags offset size alignment : Nat) : List UInt8 :=
  writeLE 4 type ++ writeLE 4 flags ++ writeLE 8 offset ++ writeLE 8 offset ++ writeLE 8 offset ++
    writeLE 8 size ++ writeLE 8 size ++ writeLE 8 alignment

/-- The headers of a shared ELF file with a dynamic table of one entry. -/
def sampleHead : List UInt8 :=
  [0x7f, 0x45, 0x4c, 0x46, 2, 1, 1, 0] ++ List.replicate 8 0 ++ writeLE 2 3 ++ writeLE 2 183 ++ writeLE 4 1 ++
    writeLE 8 0 ++ writeLE 8 64 ++ writeLE 8 0 ++ writeLE 4 0 ++ writeLE 2 64 ++ writeLE 2 56 ++ writeLE 2 3 ++
    List.replicate 6 0 ++ sampleHeader 1 5 0 232 page ++ sampleHeader 1 6 page 16 page ++ sampleHeader 2 6 page 16 8

/-- The read/execute part. -/
def sampleRx : List UInt8 := sampleHead ++ List.replicate (page - 232) 0
/-- The read/write part. -/
def sampleRw : List UInt8 := List.replicate 16 7
/-- The ELF file. -/
def sampleElf : List UInt8 := sampleRx ++ sampleRw

theorem length_sampleHead : sampleHead.length = 232 := by
  simp only [sampleHead, sampleHeader, List.length_append, List.length_replicate, length_writeLE]
  rfl

theorem length_sampleRx : sampleRx.length = page := by
  rw [sampleRx, List.length_append, length_sampleHead, List.length_replicate]
  rfl

theorem length_sampleElf : sampleElf.length = page + 16 := by
  rw [sampleElf, List.length_append, length_sampleRx]
  rfl

def sampleCode : Segment := ⟨0, 0, 0, 232, 232, 5, page⟩
def sampleWritable : Segment := ⟨1, page, page, 16, 16, 6, page⟩
def sampleTable : Segment := ⟨2, page, page, 16, 16, 6, 8⟩

/-- The sample has three program headers. -/
theorem sample_header : elfHeader sampleElf = .ok ⟨0, 64, 3⟩ := by
  unfold elfHeader readable
  rw [length_sampleElf]
  decide

/-- The sample has a code segment, a writable one and a dynamic table. -/
theorem sample_tables : (List.range 3).foldlM (addHeader sampleElf 64) {} =
    .ok ⟨[sampleCode, sampleWritable], [sampleTable], []⟩ := by
  unfold addHeader readable
  rw [length_sampleElf]
  decide

def sampleLayout : Layout (List UInt8) :=
  { input := sampleElf, rxBytes := page, rwBytes := 16, rx := sampleRx, rw := sampleRw,
    code := sampleCode, writable := sampleWritable }

/-- The sample is packed. -/
theorem sample_packs : packLayout id sampleElf = .ok (sampleRx, sampleRw, sampleLayout) := by
  have hsorted : [sampleCode, sampleWritable].mergeSort (fun a b => a.address ≤ b.address) =
      [sampleCode, sampleWritable] := List.mergeSort_of_pairwise (by decide)
  have hrx : sampleElf.take 232 ++ List.replicate (page - 232) 0 = sampleRx := by
    rw [sampleElf, sampleRx, List.append_assoc, List.take_left' length_sampleHead]
  have hrw : (sampleElf.drop page).take 16 ++ List.replicate (16 - 16) 0 = sampleRw := by
    rw [sampleElf, List.drop_left' length_sampleRx]
    rfl
  unfold packLayout
  rw [length_sampleElf, require_bind_eq_ok, bind_eq_ok]
  refine ⟨by decide, _, sample_header, ?_⟩
  rw [bind_eq_ok]
  refine ⟨_, sample_tables, ?_⟩
  dsimp only
  rw [hsorted]
  dsimp only
  rw [bind_eq_ok]
  refine ⟨(), by decide, ?_⟩
  rw [require_bind_eq_ok, bind_eq_ok]
  refine ⟨by decide, (), rfl, ?_⟩
  rw [bind_eq_ok]
  refine ⟨(), by decide, ?_⟩
  show Except.ok (sampleElf.take 232 ++ List.replicate (page - 232) 0,
    (sampleElf.drop page).take 16 ++ List.replicate (16 - 16) 0, _) = _
  dsimp only [sampleCode, sampleWritable]
  rw [hrx, hrw, length_sampleRx]
  rfl

/-- A segment command with a guest section that fills it from `target` on. -/
def sampleSegment (name : List UInt8) (address target length size protection : Nat) : List UInt8 :=
  writeLE 4 0x19 ++ writeLE 4 152 ++ name ++ List.replicate 10 0 ++ writeLE 8 address ++ writeLE 8 size ++
    writeLE 8 address ++ writeLE 8 size ++ writeLE 4 protection ++ writeLE 4 protection ++ writeLE 4 1 ++
    writeLE 4 0 ++ guestName ++ List.replicate 8 0 ++ name ++ List.replicate 10 0 ++ writeLE 8 target ++
    writeLE 8 length ++ writeLE 4 target ++ writeLE 4 14 ++ List.replicate 24 0

/-- The headers of a Mach-O file with the two parts behind them. -/
def sampleMachoHead : List UInt8 :=
  writeLE 4 0xfeedfacf ++ writeLE 4 0x100000c ++ writeLE 4 0 ++ writeLE 4 6 ++ writeLE 4 2 ++ writeLE 4 304 ++
    List.replicate 8 0 ++ sampleSegment textName 0 page page (2 * page) 5 ++
    sampleSegment dataName (2 * page) (2 * page) 16 16 3 ++ List.replicate (page - 336) 0

/-- The Mach-O file. -/
def sampleMacho : List UInt8 := sampleMachoHead ++ sampleElf

theorem length_sampleMachoHead : sampleMachoHead.length = page := by
  rw [sampleMachoHead, List.length_append, List.length_replicate]
  decide +kernel

theorem length_sampleMacho : sampleMacho.length = page + (page + 16) := by
  rw [sampleMacho, List.length_append, length_sampleMachoHead, length_sampleElf]

/-- The text of the wrapper is found. -/
theorem sample_text : checkSection id sampleMacho sampleLayout (machSegmentAt sampleMacho 32) 32 {} 0 =
    .ok { text := some page } := by
  have hpart : (sampleMacho.drop page).take page = sampleRx := by
    rw [sampleMacho, List.drop_left' length_sampleMachoHead, sampleElf, List.take_left' length_sampleRx]
  unfold checkSection readable
  rw [length_sampleMacho, require_bind_eq_ok]
  refine ⟨by decide, ?_⟩
  dsimp only
  rw [if_neg (by decide)]
  simp only [require_bind_eq_ok]
  have h1 : (machSectionAt sampleMacho (32 + 72 + 0 * 80)).fileoff = page := by decide
  have h2 : (machSectionAt sampleMacho (32 + 72 + 0 * 80)).length = page := by decide
  refine ⟨by decide, by decide, by decide, ⟨by decide, by decide, ?_⟩, by decide⟩
  rw [h1, h2, hpart, if_pos (by decide)]
  rfl

/-- The data of the wrapper is found. -/
theorem sample_data : checkSection id sampleMacho sampleLayout (machSegmentAt sampleMacho 184) 184
    { text := some page } 0 = .ok { text := some page, data := some (2 * page) } := by
  have hpart : (sampleMacho.drop (2 * page)).take 16 = sampleRw := by
    have hboth : (sampleMachoHead ++ sampleRx).length = 2 * page := by
      rw [List.length_append, length_sampleMachoHead, length_sampleRx]
      rfl
    rw [sampleMacho, sampleElf, ← List.append_assoc, List.drop_left' hboth]
    rfl
  unfold checkSection readable
  rw [length_sampleMacho, require_bind_eq_ok]
  refine ⟨by decide, ?_⟩
  dsimp only
  rw [if_neg (by decide)]
  simp only [require_bind_eq_ok]
  have h1 : (machSectionAt sampleMacho (184 + 72 + 0 * 80)).fileoff = 2 * page := by decide
  have h2 : (machSectionAt sampleMacho (184 + 72 + 0 * 80)).length = 16 := by decide
  refine ⟨by decide, by decide, by decide, ⟨by decide, by decide, ?_⟩, by decide⟩
  rw [h1, h2, hpart, if_neg (by decide)]
  rfl

/-- A segment command with one section. -/
theorem sample_command {position k : Nat} {found found' : Found}
    (hchecks : field sampleMacho position 4 = 0x19 ∧ field sampleMacho (position + 4) 4 = 152 ∧
      position + 152 ≤ 336)
    (hbounds : 152 = 72 + (machSegmentAt sampleMacho position).sections * 80 ∧
      (machSegmentAt sampleMacho position).address + (machSegmentAt sampleMacho position).memory ≤ 2 ^ 64 ∧
      (machSegmentAt sampleMacho position).offset ≤ page + (page + 16) ∧
      (machSegmentAt sampleMacho position).fileSize ≤
        page + (page + 16) - (machSegmentAt sampleMacho position).offset ∧
      (machSegmentAt sampleMacho position).fileSize ≤ (machSegmentAt sampleMacho position).memory)
    (hprotection : (machSegmentAt sampleMacho position).initial &&& 6 ≠ 6 ∧
      (machSegmentAt sampleMacho position).maximum &&& 6 ≠ 6 ∧
      (machSegmentAt sampleMacho position).initial &&& ~~~(machSegmentAt sampleMacho position).maximum = 0)
    (hsection : checkSection id sampleMacho sampleLayout (machSegmentAt sampleMacho position) position found 0 =
      .ok found') :
    checkCommand id sampleMacho sampleLayout 336 (position, found) k = .ok (position + 152, found') := by
  obtain ⟨hcommand, hsize, hstop⟩ := hchecks
  have hone : (machSegmentAt sampleMacho position).sections = 1 := by omega
  have hlength := length_sampleMacho
  have hpage : page = 16384 := rfl
  unfold checkCommand readable
  dsimp only
  rw [hsize, hcommand, hlength, require_bind_eq_ok, require_bind_eq_ok, if_pos rfl, bind_eq_ok]
  refine ⟨by omega, ⟨by decide, by decide, hstop⟩, found', ?_, rfl⟩
  unfold checkSegment readable
  dsimp only
  rw [hlength, require_bind_eq_ok, require_bind_eq_ok, require_bind_eq_ok, hone]
  refine ⟨by omega, hone ▸ hbounds, hprotection, ?_⟩
  rw [List.range_one, List.foldlM_cons, bind_eq_ok]
  exact ⟨found', hsection, rfl⟩

/-- The wrapper is accepted. -/
theorem sample_verifies : verifyMacho id sampleMacho sampleLayout = .ok ⟨page, page, 2 * page, sampleMacho⟩ := by
  have hcount : field sampleMacho 16 4 = 2 := by decide
  have hsize : field sampleMacho 20 4 = 304 := by decide
  unfold verifyMacho readable
  dsimp only
  rw [length_sampleMacho, hcount, hsize, require_bind_eq_ok, require_bind_eq_ok, require_bind_eq_ok, bind_eq_ok]
  refine ⟨by decide, by decide, by decide, (336, { text := some page, data := some (2 * page) }), ?_, ?_⟩
  · rw [show List.range 2 = [0, 1] from rfl, List.foldlM_cons, bind_eq_ok]
    refine ⟨_, sample_command (by decide) (by decide) (by decide) sample_text, ?_⟩
    rw [List.foldlM_cons, bind_eq_ok]
    exact ⟨_, sample_command (by decide) (by decide) (by decide) sample_data, rfl⟩
  · dsimp only
    rw [require_bind_eq_ok, require_bind_eq_ok]
    exact ⟨rfl, rfl, rfl⟩

theorem wrapper_preserves_sample :
    Imaged sampleElf sampleRx sampleRw ∧ Preserved sampleMacho sampleElf sampleRx sampleRw page := by
  obtain ⟨himaged, hverified⟩ := wrapper_preserves sample_packs
  exact ⟨himaged, hverified sampleMacho _ sample_verifies (fun _ _ h => h) fun _ _ h => h⟩

end Artbox.Pack
