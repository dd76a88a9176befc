import Artbox.Lib.Overflow
import Artbox.Binder.Arena

/-!
# Best fit

The scan of a reservation finds the smallest gap that is large enough, and the first of
them (`bestGap_best`); it fails only if there is none. None of its sums and differences
leaves 64 bits: `reserveChecked` computes with operations that notice, and always agrees
(`reserveChecked_eq`). `arena_representation` puts this together with what every sequence
of operations keeps of an arena.
-/

namespace Artbox.Binder

open Overflow

/-! ## Gaps -/

/-- Offset and size of the gap before each buffer and behind the last one. -/
def gapsFrom (base capacity : Nat) : List BufferSlot → (previousEnd : Nat) → List (Nat × Nat)
  | [], previousEnd => [(previousEnd, capacity - previousEnd)]
  | s :: rest, previousEnd => (previousEnd, s.value.address - base - previousEnd) ::
      gapsFrom base capacity rest (s.value.address - base + s.value.extent)

/-- The gaps of an arena. -/
def Arena.gaps (a : Arena) : List (Nat × Nat) := gapsFrom a.base a.capacity a.buffers 0

/-- The first of the smallest gaps that are large enough. -/
structure Gap.Best (extent : Nat) (gaps : List (Nat × Nat)) (g : Gap) : Prop where
  found : gaps[g.index]? = some (g.offset, g.size)
  fits : extent ≤ g.size
  least : ∀ (j : Nat) gap, gaps[j]? = some gap → extent ≤ gap.2 →
    g.size < gap.2 ∨ (g.size = gap.2 ∧ g.index ≤ j)

/-- What the scan knows after the gaps `done`. -/
def Gap.Scanned (extent : Nat) (done : List (Nat × Nat)) (best : Gap) : Prop :=
  (best.size = uint64Max ∧ ∀ gap ∈ done, ¬ extent ≤ gap.2) ∨
    (best.size < uint64Max ∧ best.Best extent done)

/-- One more gap that is too small or not smaller leaves the best one. -/
theorem Gap.Best.append {extent : Nat} {gaps : List (Nat × Nat)} {g : Gap} (h : g.Best extent gaps)
    {gap : Nat × Nat} (hgap : extent ≤ gap.2 → g.size ≤ gap.2) : g.Best extent (gaps ++ [gap]) := by
  obtain ⟨hlt, _⟩ := List.getElem?_eq_some_iff.1 h.found
  refine ⟨?_, h.fits, fun j x hx hfit => ?_⟩
  · rw [List.getElem?_append_left hlt]
    exact h.found
  · by_cases hj : j < gaps.length
    · rw [List.getElem?_append_left hj] at hx
      exact h.least j x hx hfit
    · rw [List.getElem?_append_right (by omega)] at hx
      have hmem := List.mem_of_getElem? hx
      rw [List.mem_singleton] at hmem
      subst hmem
      have hle := hgap hfit
      omega

/-- One gap more. -/
theorem Gap.Scanned.consider {extent next previousEnd : Nat} {done : List (Nat × Nat)} {best : Gap}
    (h : best.Scanned extent done) (hsmall : next - previousEnd < uint64Max) :
    (best.consider extent next previousEnd done.length).Scanned extent
      (done ++ [(previousEnd, next - previousEnd)]) := by
  unfold Gap.consider
  split
  next htake =>
    refine .inr ⟨hsmall, ?_, htake.1, fun j x hx hfit => ?_⟩
    · show (done ++ _)[done.length]? = _
      exact List.getElem?_concat_length
    · by_cases hj : j < done.length
      · -- an earlier gap that is large enough is at least as large as the best one was
        rw [List.getElem?_append_left hj] at hx
        rcases h with ⟨_, hnone⟩ | ⟨_, hbest⟩
        · exact absurd hfit (hnone x (List.mem_of_getElem? hx))
        · have hleast := hbest.least j x hx hfit
          dsimp only
          omega
      · rw [List.getElem?_append_right (by omega)] at hx
        have hmem := List.mem_of_getElem? hx
        rw [List.mem_singleton] at hmem
        subst hmem
        exact .inr ⟨rfl, by dsimp only; omega⟩
  next hleave =>
    rcases h with ⟨hsize, hnone⟩ | ⟨hsize, hbest⟩
    · refine .inl ⟨hsize, fun gap hgap => ?_⟩
      rcases List.mem_append.1 hgap with hgap | hgap
      · exact hnone gap hgap
      · rw [List.mem_singleton] at hgap
        subst hgap
        dsimp only
        omega
    · refine .inr ⟨hsize, hbest.append ?_⟩
      dsimp only
      omega

/-- The scan ends with the first of the smallest gaps that fit. -/
theorem bestGapFrom_scanned {base capacity extent : Nat} (rest : List BufferSlot)
    (done : List (Nat × Nat)) (previousEnd : Nat) (best : Gap) (h : best.Scanned extent done)
    (hsmall : ∀ gap ∈ gapsFrom base capacity rest previousEnd, gap.2 < uint64Max) :
    (bestGapFrom base capacity extent rest done.length previousEnd best).Scanned extent
      (done ++ gapsFrom base capacity rest previousEnd) := by
  induction rest generalizing done previousEnd best with
  | nil => exact h.consider (hsmall _ List.mem_cons_self)
  | cons s rest ih =>
    have hstep := h.consider (hsmall _ List.mem_cons_self)
    have hlist : done ++ gapsFrom base capacity (s :: rest) previousEnd =
        (done ++ [(previousEnd, s.value.address - base - previousEnd)]) ++
          gapsFrom base capacity rest (s.value.address - base + s.value.extent) := by
      rw [List.append_assoc]
      rfl
    have hrest := ih _ (s.value.address - base + s.value.extent) _ hstep
      fun gap hgap => hsmall gap (List.mem_cons_of_mem _ hgap)
    rw [List.length_append, List.length_singleton] at hrest
    rw [hlist]
    exact hrest

/-- Gaps lie inside the arena. -/
theorem gapsFrom_le {base capacity : Nat} {l : List BufferSlot} {previousEnd : Nat}
    (h : Laid base previousEnd capacity l) :
    ∀ gap ∈ gapsFrom base capacity l previousEnd, previousEnd ≤ gap.1 ∧ gap.1 + gap.2 ≤ capacity := by
  induction l generalizing previousEnd with
  | nil =>
    intro gap hgap
    have hle := h.le
    rw [gapsFrom, List.mem_singleton] at hgap
    subst hgap
    dsimp only
    omega
  | cons s rest ih =>
    intro gap hgap
    obtain ⟨haddr, _, hrest⟩ := h
    have hle := hrest.le
    rw [gapsFrom, List.mem_cons] at hgap
    rcases hgap with rfl | hgap
    · dsimp only
      omega
    · have hin := ih hrest gap hgap
      omega

/-! ## Well-sized arenas -/

/-- What creation checks and every operation keeps: aligned bounds inside 64 bits, at most
`limit` buffers, each aligned and with its three parts inside its extent. -/
structure Arena.Sized (a : Arena) : Prop where
  base : a.base % 8 = 0
  capacity : a.capacity % 8 = 0
  small : a.capacity ≤ ptrdiffMax
  bounded : a.base + a.capacity ≤ uint64Max
  count : a.buffers.length ≤ a.limit
  aligned : ∀ s ∈ a.buffers, s.value.address % 8 = 0 ∧ s.value.extent % 8 = 0
  parts : ∀ s ∈ a.buffers, s.value.address + s.value.dataSize ≤ s.value.offsetsAddress ∧
    s.value.offsetsAddress + s.value.offsetsSize = s.value.extraAddress ∧
    s.value.extraAddress + s.value.extraSize ≤ s.value.address + s.value.extent

namespace Arena

variable {a a' : Arena} {dataSize offsetsSize extraSize : Nat} {clear : Bool} {b : Buffer}

/-- No gap is as large as the initial size of the best. -/
theorem gap_lt (hsmall : a.capacity ≤ ptrdiffMax) : ∀ gap ∈ a.gaps, gap.2 < uint64Max := by
  intro gap hgap
  have hle := gapsFrom_le a.laid gap hgap
  simp only [ptrdiffMax, uint64Max] at hsmall ⊢
  omega

/-- What the whole scan finds. -/
theorem bestGap_best (hsmall : a.capacity ≤ ptrdiffMax) (extent : Nat) :
    (bestGapFrom a.base a.capacity extent a.buffers 0 0 ⟨uint64Max, 0, 0⟩).Scanned extent a.gaps := by
  have hstart : Gap.Scanned extent [] ⟨uint64Max, 0, 0⟩ := .inl ⟨rfl, fun gap hgap => by cases hgap⟩
  exact bestGapFrom_scanned a.buffers [] 0 _ hstart (gap_lt hsmall)

/-- A reservation that succeeds takes the first of the smallest sufficient gaps. -/
theorem reserve_best (hsmall : a.capacity ≤ ptrdiffMax)
    (h : a.reserve dataSize offsetsSize extraSize clear = .ok (b, a')) :
    ∃ g : Gap, g.Best (extentOf dataSize offsetsSize extraSize) a.gaps ∧
      b = a.bufferAt g.offset dataSize offsetsSize extraSize ∧
      a'.buffers = a.buffers.take g.index ++ ⟨b, false, clear⟩ :: a.buffers.drop g.index ∧
      a'.bytes = fillZero a.bytes g.offset b.extent ∧ a'.base = a.base ∧ a'.capacity = a.capacity ∧
      a'.limit = a.limit ∧ a.buffers.length ≠ a.limit ∧ offsetsSize % 8 = 0 := by
  have hbest := bestGap_best hsmall (extentOf dataSize offsetsSize extraSize) (a := a)
  simp only [reserve] at h
  split at h; · cases h
  next hmod =>
    split at h; · cases h
    next hbig =>
      split at h; · cases h
      split at h; · cases h
      split at h; · cases h
      next hsize =>
        obtain ⟨rfl, rfl⟩ := Prod.mk.inj (Except.ok.inj h)
        rcases hbest with ⟨heq, _⟩ | ⟨_, hbest⟩
        · exact absurd heq hsize
        · exact ⟨_, hbest, rfl, rfl, rfl, rfl, rfl, rfl, by omega, by omega⟩

/-- When a reservation succeeds. -/
theorem reserve_succeeds (h : a.Sized) :
    (∃ r, a.reserve dataSize offsetsSize extraSize clear = .ok r) ↔
      offsetsSize % 8 = 0 ∧ align8 dataSize + offsetsSize + align8 extraSize ≤ a.capacity ∧
        a.buffers.length < a.limit ∧
        ∃ gap ∈ a.gaps, extentOf dataSize offsetsSize extraSize ≤ gap.2 := by
  have hbest := bestGap_best h.small (extentOf dataSize offsetsSize extraSize)
  have hcount := h.count
  have hcapacity := h.capacity
  have hd := le_align8 dataSize
  have he := le_align8 extraSize
  simp only [reserve]
  constructor
  · rintro ⟨r, hr⟩
    split at hr; · cases hr
    split at hr; · cases hr
    split at hr; · cases hr
    split at hr; · cases hr
    split at hr; · cases hr
    next hsize =>
      rcases hbest with ⟨heq, _⟩ | ⟨_, hbest⟩
      · exact absurd heq hsize
      · exact ⟨by omega, by omega, by omega, _, List.mem_of_getElem? hbest.found, hbest.fits⟩
  · rintro ⟨hmod, hroom, hslot, gap, hgap, hfit⟩
    rw [if_neg (by omega), if_neg (by omega), if_neg (by omega), if_neg (by omega)]
    rcases hbest with ⟨_, hnone⟩ | ⟨hsize, _⟩
    · exact absurd hfit (hnone gap hgap)
    · rw [dif_neg (Nat.ne_of_lt hsize)]
      exact ⟨_, rfl⟩

/-! ## Arithmetic -/

/-- `(n + 7) & ~7`. -/
def alignChecked (n : Nat) : Option Nat := (add64 n 7).map fun m => m / 8 * 8

/-- The search loop of `artbox_binder_arena_reserve`, noticing overflow. -/
def scanChecked (base capacity extent : Nat) :
    List BufferSlot → (i previousEnd : Nat) → Gap → Option Gap
  | [], i, previousEnd, best => do
    let gap ← sub64 capacity previousEnd
    some (if extent ≤ gap ∧ gap < best.size then ⟨gap, previousEnd, i⟩ else best)
  | s :: rest, i, previousEnd, best => do
    let next ← sub64 s.value.address base
    let gap ← sub64 next previousEnd
    let nextEnd ← add64 next s.value.extent
    scanChecked base capacity extent rest (i + 1) nextEnd
      (if extent ≤ gap ∧ gap < best.size then ⟨gap, previousEnd, i⟩ else best)

/-- The buffer of `artbox_binder_arena_reserve`, noticing overflow. -/
def reserveChecked (a : Arena) (dataSize offsetsSize extraSize : Nat) : Option (Except Int Buffer) :=
  if offsetsSize % 8 ≠ 0 then some (.error (-22))
  else if a.capacity < dataSize ∨ a.capacity < offsetsSize ∨ a.capacity < extraSize ∨
      a.buffers.length = a.limit then some (.error (-12))
  else do
    let alignedData ← alignChecked dataSize
    let alignedExtra ← alignChecked extraSize
    if a.capacity < alignedData then some (.error (-12))
    else
      let room ← sub64 a.capacity alignedData
      if room < offsetsSize then some (.error (-12))
      else
        let extent ← add64 alignedData offsetsSize
        let room ← sub64 a.capacity extent
        if room < alignedExtra then some (.error (-12))
        else
          let extent ← add64 extent alignedExtra
          let extent := if extent = 0 then 8 else extent
          let best ← scanChecked a.base a.capacity extent a.buffers 0 0 ⟨uint64Max, 0, 0⟩
          if best.size = uint64Max then some (.error (-12))
          else
            let address ← add64 a.base best.offset
            let offsetsAddress ← add64 address alignedData
            let extraAddress ← add64 offsetsAddress offsetsSize
            some (.ok ⟨address, extent, dataSize, offsetsAddress, offsetsSize, extraAddress, extraSize⟩)

/-- Below `PTRDIFF_MAX` the checked alignment does not overflow. -/
theorem alignChecked_eq {n : Nat} (h : n ≤ ptrdiffMax) : alignChecked n = some (align8 n) := by
  unfold alignChecked
  rw [add64_eq (by simp only [ptrdiffMax] at h; omega)]
  rfl

/-- Below `PTRDIFF_MAX` the checked scan does not overflow. -/
theorem scanChecked_eq {base capacity extent : Nat} (hsmall : capacity ≤ ptrdiffMax)
    {l : List BufferSlot} {previousEnd : Nat} (h : Laid base previousEnd capacity l) (i : Nat)
    (best : Gap) : scanChecked base capacity extent l i previousEnd best =
      some (bestGapFrom base capacity extent l i previousEnd best) := by
  induction l generalizing previousEnd i best with
  | nil =>
    unfold scanChecked
    rw [sub64_eq h.le]
    rfl
  | cons s rest ih =>
    obtain ⟨haddr, _, hrest⟩ := h
    have hle := hrest.le
    simp only [ptrdiffMax] at hsmall
    unfold scanChecked
    rw [sub64_eq (by omega)]
    show sub64 (s.value.address - base) previousEnd >>= _ = _
    rw [sub64_eq (by omega)]
    show add64 (s.value.address - base) s.value.extent >>= _ = _
    rw [add64_eq (by omega)]
    exact ih hrest _ _

/-- No step of a reservation overflows, whatever sizes it is asked for. -/
theorem reserveChecked_eq (h : a.Sized) (dataSize offsetsSize extraSize : Nat) (clear : Bool) :
    a.reserveChecked dataSize offsetsSize extraSize =
      some ((a.reserve dataSize offsetsSize extraSize clear).map Prod.fst) := by
  have hsmall := h.small
  have hbounded := h.bounded
  have hbest := bestGap_best h.small (extentOf dataSize offsetsSize extraSize)
  unfold reserveChecked reserve
  by_cases hmod : offsetsSize % 8 ≠ 0
  · rw [if_pos hmod, if_pos hmod]
    rfl
  rw [if_neg hmod, if_neg hmod]
  by_cases hbig : a.capacity < dataSize ∨ a.capacity < offsetsSize ∨ a.capacity < extraSize ∨
      a.buffers.length = a.limit
  · rw [if_pos hbig, if_pos hbig]
    rfl
  rw [if_neg hbig, if_neg hbig, alignChecked_eq (by omega), alignChecked_eq (by omega)]
  -- the arena is far below 2 ^ 64, so that no sum of the source overflows
  simp only [ptrdiffMax, uint64Max] at hsmall hbounded
  show (if a.capacity < align8 dataSize then _ else _) = _
  by_cases hdata : a.capacity < align8 dataSize
  · rw [if_pos hdata, if_pos (.inl hdata)]
    rfl
  rw [if_neg hdata, sub64_eq (by omega)]
  show (if a.capacity - align8 dataSize < offsetsSize then _ else _) = _
  by_cases hoffsets : a.capacity - align8 dataSize < offsetsSize
  · rw [if_pos hoffsets, if_pos (.inr hoffsets)]
    rfl
  rw [if_neg hoffsets, if_neg (by omega), add64_eq (by omega)]
  show sub64 a.capacity (align8 dataSize + offsetsSize) >>= _ = _
  rw [sub64_eq (by omega)]
  show (if a.capacity - (align8 dataSize + offsetsSize) < align8 extraSize then _ else _) = _
  by_cases hextra : a.capacity - (align8 dataSize + offsetsSize) < align8 extraSize
  · rw [if_pos hextra, if_pos hextra]
    rfl
  rw [if_neg hextra, if_neg hextra, add64_eq (by omega)]
  show scanChecked a.base a.capacity (extentOf dataSize offsetsSize extraSize) a.buffers 0 0
    ⟨uint64Max, 0, 0⟩ >>= _ = _
  rw [scanChecked_eq h.small a.laid]
  show (if (bestGapFrom a.base a.capacity (extentOf dataSize offsetsSize extraSize) a.buffers 0 0
    ⟨uint64Max, 0, 0⟩).size = uint64Max then _ else _) = _
  by_cases hsize : (bestGapFrom a.base a.capacity (extentOf dataSize offsetsSize extraSize) a.buffers
      0 0 ⟨uint64Max, 0, 0⟩).size = uint64Max
  · rw [if_pos hsize, dif_pos hsize]
    rfl
  · rw [if_neg hsize, dif_neg hsize]
    rcases hbest with ⟨heq, _⟩ | ⟨_, hfound⟩
    · exact absurd heq hsize
    · -- the gap is inside the arena, and the arena inside 64 bits
      have hin := (gapsFrom_le a.laid _ (List.mem_of_getElem? hfound.found)).2
      have hfits := hfound.fits
      dsimp only at hin hfits
      have hextent : align8 dataSize + offsetsSize ≤ extentOf dataSize offsetsSize extraSize := by
        unfold extentOf
        split <;> omega
      rw [add64_eq (by omega)]
      show add64 (a.base + _) (align8 dataSize) >>= _ = _
      rw [add64_eq (by omega)]
      show add64 (a.base + _ + align8 dataSize) offsetsSize >>= _ = _
      rw [add64_eq (by omega)]
      rfl

/-! ## Runs -/

/-- The calls an arena takes between its creation and its end. -/
inductive Op
  | reserve (dataSize offsetsSize extraSize : Nat) (clear : Bool)
  | write (address offset : Nat) (source : List UInt8)
  | publish (address : Nat)
  | cancel (address : Nat)
  | release (address : Nat)
  | discardAll

/-- The arena after a call. -/
def apply (a : Arena) : Op → Arena
  | .reserve dataSize offsetsSize extraSize clear =>
    match a.reserve dataSize offsetsSize extraSize clear with
    | .ok (_, a') => a'
    | .error _ => a
  | .write address offset source => (a.write address offset source).2
  | .publish address => (a.publish address).2
  | .cancel address => (a.cancel address).2
  | .release address => (a.release address).2
  | .discardAll => a.discardAll

/-- A new arena has the given bounds. -/
theorem create_sized {writable guestBase capacity limit : Nat} {bytes : Nat → UInt8}
    (h : Arena.create writable guestBase capacity limit bytes = some a) :
    a.Sized ∧ a.base = guestBase ∧ a.capacity = capacity ∧ a.limit = limit ∧ a.buffers = [] := by
  unfold Arena.create at h
  split at h
  · cases h
  next hcheck =>
    cases h
    refine ⟨⟨by dsimp only; omega, by dsimp only; omega, by dsimp only; omega, ?_, Nat.zero_le _, ?_, ?_⟩,
      rfl, rfl, rfl, rfl⟩
    · simp only [uint64Max] at hcheck ⊢
      omega
    · intro s hs
      cases hs
    · intro s hs
      cases hs

/-- The same bounds, and only buffers that were there. -/
theorem Sized.shrink (h : a.Sized) (hb : a'.base = a.base) (hc : a'.capacity = a.capacity)
    (hl : a'.limit = a.limit) (hlen : a'.buffers.length ≤ a.buffers.length)
    (hmem : ∀ s ∈ a'.buffers, ∃ s₀ ∈ a.buffers, s.value = s₀.value) : a'.Sized := by
  refine ⟨hb ▸ h.base, hc ▸ h.capacity, hc ▸ h.small, by rw [hb, hc]; exact h.bounded,
    by rw [hl]; exact Nat.le_trans hlen h.count, fun s hs => ?_, fun s hs => ?_⟩
  · obtain ⟨s₀, hs₀, heq⟩ := hmem s hs
    rw [heq]
    exact h.aligned s₀ hs₀
  · obtain ⟨s₀, hs₀, heq⟩ := hmem s hs
    rw [heq]
    exact h.parts s₀ hs₀

/-- Gaps between aligned buffers are aligned. -/
theorem gapsFrom_aligned {base capacity : Nat} (hbase : base % 8 = 0) {l : List BufferSlot}
    {previousEnd : Nat} (hprev : previousEnd % 8 = 0) (h : Laid base previousEnd capacity l)
    (haligned : ∀ s ∈ l, s.value.address % 8 = 0 ∧ s.value.extent % 8 = 0) :
    ∀ gap ∈ gapsFrom base capacity l previousEnd, gap.1 % 8 = 0 := by
  induction l generalizing previousEnd with
  | nil =>
    intro gap hgap
    rw [gapsFrom, List.mem_singleton] at hgap
    subst hgap
    exact hprev
  | cons s rest ih =>
    intro gap hgap
    obtain ⟨haddr, _, hrest⟩ := h
    obtain ⟨ha, he⟩ := haligned s List.mem_cons_self
    rw [gapsFrom, List.mem_cons] at hgap
    rcases hgap with rfl | hgap
    · exact hprev
    · exact ih (by omega) hrest (fun s hs => haligned s (List.mem_cons_of_mem _ hs)) gap hgap

/-- A reservation keeps the bounds and the alignment. -/
theorem Sized.reserve (h : a.Sized)
    (hr : a.reserve dataSize offsetsSize extraSize clear = .ok (b, a')) : a'.Sized := by
  obtain ⟨g, hbest, rfl, hbuffers, _, hbase, hcapacity, hlimit, hcount, hmod⟩ := reserve_best h.small hr
  have hmem : ∀ s ∈ a'.buffers, s = ⟨a.bufferAt g.offset dataSize offsetsSize extraSize, false, clear⟩ ∨
      s ∈ a.buffers := by
    intro s hs
    rw [hbuffers, List.mem_append, List.mem_cons] at hs
    rcases hs with hs | hs | hs
    · exact .inr (List.mem_of_mem_take hs)
    · exact .inl hs
    · exact .inr (List.mem_of_mem_drop hs)
  have haligned := gapsFrom_aligned h.base rfl a.laid h.aligned _ (List.mem_of_getElem? hbest.found)
  have hold := h.count
  have hb := h.base
  refine ⟨hbase ▸ h.base, hcapacity ▸ h.capacity, hcapacity ▸ h.small,
    by rw [hbase, hcapacity]; exact h.bounded, ?_, fun s hs => ?_, fun s hs => ?_⟩
  · have hlen : a'.buffers.length = a.buffers.length + 1 := by
      have hsplit := congrArg List.length (List.take_append_drop g.index a.buffers)
      rw [List.length_append] at hsplit
      rw [hbuffers, List.length_append, List.length_cons]
      omega
    omega
  · rcases hmem s hs with rfl | hs
    · have hextent : extentOf dataSize offsetsSize extraSize % 8 = 0 := by
        unfold extentOf align8
        split <;> omega
      refine ⟨?_, hextent⟩
      show (a.base + g.offset) % 8 = 0
      dsimp only at haligned
      omega
    · exact h.aligned s hs
  · rcases hmem s hs with rfl | hs
    · have hd := le_align8 dataSize
      have he := le_align8 extraSize
      refine ⟨?_, rfl, ?_⟩
      · show a.base + g.offset + dataSize ≤ a.base + g.offset + align8 dataSize
        omega
      · show a.base + g.offset + align8 dataSize + offsetsSize + extraSize ≤
          a.base + g.offset + extentOf dataSize offsetsSize extraSize
        unfold extentOf
        split <;> omega
    · exact h.parts s hs

/-- A write and a publication keep the bounds and the buffers' places. -/
theorem write_frame (address offset : Nat) (source : List UInt8) :
    (a.write address offset source).2.base = a.base ∧
      (a.write address offset source).2.capacity = a.capacity ∧
      (a.write address offset source).2.limit = a.limit ∧
      (a.write address offset source).2.buffers = a.buffers ∧
      ((a.write address offset source).1 ≠ 0 → (a.write address offset source).2 = a) := by
  unfold write
  split
  · exact ⟨rfl, rfl, rfl, rfl, fun _ => rfl⟩
  · split
    · exact ⟨rfl, rfl, rfl, rfl, fun _ => rfl⟩
    · split
      · exact ⟨rfl, rfl, rfl, rfl, fun _ => rfl⟩
      · exact ⟨rfl, rfl, rfl, rfl, fun h => absurd rfl h⟩

theorem publish_frame (address : Nat) :
    (a.publish address).2.base = a.base ∧ (a.publish address).2.capacity = a.capacity ∧
      (a.publish address).2.limit = a.limit ∧
      (∃ f : BufferSlot → BufferSlot, (∀ s, (f s).value = s.value) ∧
        (a.publish address).2.buffers = a.buffers.map f) ∧
      ((a.publish address).1 ≠ 0 → (a.publish address).2 = a) := by
  have hid : a.buffers = a.buffers.map id := (List.map_id _).symm
  unfold publish
  split
  · exact ⟨rfl, rfl, rfl, ⟨id, fun _ => rfl, hid⟩, fun _ => rfl⟩
  · split
    · exact ⟨rfl, rfl, rfl, ⟨id, fun _ => rfl, hid⟩, fun _ => rfl⟩
    · refine ⟨rfl, rfl, rfl, ⟨_, fun s => ?_, rfl⟩, fun h => absurd rfl h⟩
      split <;> rfl

theorem removeBuffer_frame (address : Nat) (delivered : Bool) :
    (a.removeBuffer address delivered).2.base = a.base ∧
      (a.removeBuffer address delivered).2.capacity = a.capacity ∧
      (a.removeBuffer address delivered).2.limit = a.limit ∧
      (a.removeBuffer address delivered).2.buffers.Sublist a.buffers ∧
      ((a.removeBuffer address delivered).1 ≠ 0 → (a.removeBuffer address delivered).2 = a) := by
  unfold removeBuffer
  split
  · exact ⟨rfl, rfl, rfl, .refl _, fun _ => rfl⟩
  · split
    · exact ⟨rfl, rfl, rfl, .refl _, fun _ => rfl⟩
    · exact ⟨rfl, rfl, rfl, List.eraseP_sublist, fun h => absurd rfl h⟩

/-- The removal of a buffer keeps the bounds and the alignment. -/
theorem Sized.removeBuffer (h : a.Sized) (address : Nat) (delivered : Bool) :
    (a.removeBuffer address delivered).2.Sized := by
  obtain ⟨hb, hc, hl, hsub, _⟩ := removeBuffer_frame (a := a) address delivered
  exact h.shrink hb hc hl hsub.length_le fun s hs => ⟨s, hsub.subset hs, rfl⟩

/-- Every operation keeps the bounds and the alignment. -/
theorem Sized.apply (h : a.Sized) (op : Op) : (a.apply op).Sized := by
  cases op with
  | reserve dataSize offsetsSize extraSize clear =>
    unfold Arena.apply
    dsimp only
    split
    next hr => exact h.reserve hr
    next => exact h
  | write address offset source =>
    obtain ⟨hb, hc, hl, hbuffers, _⟩ := write_frame (a := a) address offset source
    refine h.shrink hb hc hl (Nat.le_of_eq (congrArg List.length hbuffers)) fun s hs => ?_
    rw [Arena.apply, hbuffers] at hs
    exact ⟨s, hs, rfl⟩
  | publish address =>
    obtain ⟨hb, hc, hl, ⟨f, hf, hbuffers⟩, _⟩ := publish_frame (a := a) address
    refine h.shrink hb hc hl ?_ fun s hs => ?_
    · rw [Arena.apply, hbuffers, List.length_map]
    · rw [Arena.apply, hbuffers] at hs
      obtain ⟨s₀, hs₀, rfl⟩ := List.mem_map.1 hs
      exact ⟨s₀, hs₀, hf s₀⟩
  | cancel address => exact h.removeBuffer address false
  | release address => exact h.removeBuffer address true
  | discardAll => exact h.shrink rfl rfl rfl (Nat.zero_le _) fun s hs => by cases hs

theorem apply_bounds (op : Op) : (a.apply op).base = a.base ∧ (a.apply op).capacity = a.capacity ∧
    (a.apply op).limit = a.limit := by
  cases op with
  | reserve dataSize offsetsSize extraSize clear =>
    unfold Arena.apply
    dsimp only
    split
    next hr =>
      simp only [Arena.reserve] at hr
      repeat' split at hr
      all_goals cases hr
      exact ⟨rfl, rfl, rfl⟩
    next => exact ⟨rfl, rfl, rfl⟩
  | write address offset source =>
    obtain ⟨hb, hc, hl, _⟩ := write_frame (a := a) address offset source
    exact ⟨hb, hc, hl⟩
  | publish address =>
    obtain ⟨hb, hc, hl, _⟩ := publish_frame (a := a) address
    exact ⟨hb, hc, hl⟩
  | cancel address =>
    obtain ⟨hb, hc, hl, _⟩ := removeBuffer_frame (a := a) address false
    exact ⟨hb, hc, hl⟩
  | release address =>
    obtain ⟨hb, hc, hl, _⟩ := removeBuffer_frame (a := a) address true
    exact ⟨hb, hc, hl⟩
  | discardAll => exact ⟨rfl, rfl, rfl⟩

/-- What holds of a created arena after any calls. -/
theorem run_sized {writable guestBase capacity limit : Nat} {bytes : Nat → UInt8} {a₀ : Arena}
    (h : Arena.create writable guestBase capacity limit bytes = some a₀) (ops : List Op) :
    (ops.foldl Arena.apply a₀).Sized ∧ (ops.foldl Arena.apply a₀).base = guestBase ∧
      (ops.foldl Arena.apply a₀).capacity = capacity ∧ (ops.foldl Arena.apply a₀).limit = limit := by
  obtain ⟨hs, hb, hc, hl, hempty⟩ := create_sized h
  clear h hempty
  induction ops generalizing a₀ with
  | nil => exact ⟨hs, hb, hc, hl⟩
  | cons op ops ih =>
    obtain ⟨hb', hc', hl'⟩ := apply_bounds (a := a₀) op
    exact ih (hs.apply op) (hb'.trans hb) (hc'.trans hc) (hl'.trans hl)

/-- Buffers in address order. -/
theorem laid_pairwise {base lo hi : Nat} {l : List BufferSlot} (h : Laid base lo hi l) :
    l.Pairwise fun s t => s.value.address + s.value.extent ≤ t.value.address := by
  induction l generalizing lo with
  | nil => exact .nil
  | cons s rest ih =>
    refine List.pairwise_cons.2 ⟨fun t ht => ?_, ih h.2.2⟩
    have hin := (h.2.2.mem ht).1
    have haddr := h.1
    omega

/-- After any calls on a created arena its buffers are sorted, disjoint, aligned, inside the
arena with all their parts, and at most `limit` many; a reservation of any 64-bit sizes
overflows nowhere, succeeds exactly if its rounded sizes fit, a slot is free and some gap is
large enough, and then takes the first of the smallest such gaps; and calls that fail change
nothing. -/
theorem arena_representation {writable guestBase capacity limit : Nat} {bytes : Nat → UInt8} {a₀ : Arena}
    (h : Arena.create writable guestBase capacity limit bytes = some a₀) (ops : List Op) :
    let a := ops.foldl Arena.apply a₀
    a.base = guestBase ∧ a.capacity = capacity ∧ a.limit = limit ∧ guestBase + capacity ≤ uint64Max ∧
    a.buffers.Pairwise (fun s t => s.value.address + s.value.extent ≤ t.value.address) ∧
    a.buffers.length ≤ limit ∧
    (∀ s ∈ a.buffers, s.value.address % 8 = 0 ∧ guestBase ≤ s.value.address ∧ 0 < s.value.extent ∧
      s.value.address + s.value.extent ≤ guestBase + capacity ∧
      s.value.address + s.value.dataSize ≤ s.value.offsetsAddress ∧
      s.value.offsetsAddress + s.value.offsetsSize = s.value.extraAddress ∧
      s.value.extraAddress + s.value.extraSize ≤ s.value.address + s.value.extent) ∧
    (∀ dataSize offsetsSize extraSize clear,
      a.reserveChecked dataSize offsetsSize extraSize =
        some ((a.reserve dataSize offsetsSize extraSize clear).map Prod.fst)) ∧
    (∀ dataSize offsetsSize extraSize clear,
      (∃ r, a.reserve dataSize offsetsSize extraSize clear = .ok r) ↔
        offsetsSize % 8 = 0 ∧ align8 dataSize + offsetsSize + align8 extraSize ≤ capacity ∧
          a.buffers.length < limit ∧
          ∃ gap ∈ a.gaps, extentOf dataSize offsetsSize extraSize ≤ gap.2) ∧
    (∀ dataSize offsetsSize extraSize clear b a',
      a.reserve dataSize offsetsSize extraSize clear = .ok (b, a') →
        ∃ g : Gap, g.Best (extentOf dataSize offsetsSize extraSize) a.gaps ∧
          b = a.bufferAt g.offset dataSize offsetsSize extraSize ∧
          a'.buffers = a.buffers.take g.index ++ ⟨b, false, clear⟩ :: a.buffers.drop g.index) ∧
    (∀ dataSize offsetsSize extraSize clear e, a.reserve dataSize offsetsSize extraSize clear = .error e →
      a.apply (.reserve dataSize offsetsSize extraSize clear) = a) ∧
    (∀ address offset source, (a.write address offset source).1 ≠ 0 →
      (a.write address offset source).2 = a) ∧
    (∀ address, (a.publish address).1 ≠ 0 → (a.publish address).2 = a) ∧
    (∀ address, (a.cancel address).1 ≠ 0 → (a.cancel address).2 = a) ∧
    ∀ address, (a.release address).1 ≠ 0 → (a.release address).2 = a := by
  intro a
  obtain ⟨hsized, hb, hc, hl⟩ := run_sized h ops
  have hbounded := hsized.bounded
  rw [hb, hc] at hbounded
  refine ⟨hb, hc, hl, hbounded, laid_pairwise a.laid, hl ▸ hsized.count, fun s hs => ?_,
    fun d o e c => reserveChecked_eq hsized d o e c, fun d o e c => ?_, fun d o e c b a' hr => ?_,
    fun d o e c err hr => ?_, fun address offset source => (write_frame address offset source).2.2.2.2,
    fun address => (publish_frame address).2.2.2.2,
    fun address => (removeBuffer_frame address false).2.2.2.2,
    fun address => (removeBuffer_frame address true).2.2.2.2⟩
  · obtain ⟨hlo, hhi, hshape⟩ := mem_bounds hs
    obtain ⟨hdata, hoffsets, hextra⟩ := hsized.parts s hs
    have hbase : a.base = guestBase := hb
    have hcapacity : a.capacity = capacity := hc
    exact ⟨(hsized.aligned s hs).1, by omega, hshape.2.2, by omega, hdata, hoffsets, hextra⟩
  · have hiff := @reserve_succeeds _ d o e c hsized
    have hcapacity : a.capacity = capacity := hc
    have hlimit : a.limit = limit := hl
    rw [hcapacity, hlimit] at hiff
    exact hiff
  · obtain ⟨g, hbest, hbuffer, hbuffers, _⟩ := reserve_best hsized.small hr
    exact ⟨g, hbest, hbuffer, hbuffers⟩
  · unfold Arena.apply
    dsimp only
    rw [hr]

/-- A small arena. -/
def sample : Option Arena := Arena.create 1 64 64 4 fun _ => 0

theorem sample_isSome : sample.isSome = true := by decide

/-- Three buffers of eight, sixteen and eight bytes, of which the first two are taken back. -/
def sampleOps : List Op :=
  [.reserve 8 0 0 false, .reserve 16 0 0 false, .reserve 8 0 0 false, .cancel 64, .cancel 72]

/-- The next reservation of eight bytes takes the first of the two gaps left, not the larger
one behind it. -/
theorem sample_representation : (∃ r, (sampleOps.foldl Arena.apply (sample.get sample_isSome)).reserve
    8 0 0 false = .ok r) ∧
      (sampleOps.foldl Arena.apply (sample.get sample_isSome)).gaps = [(0, 24), (32, 32)] := by
  have h := arena_representation (Option.some_get sample_isSome).symm sampleOps
  obtain ⟨_, _, _, _, _, _, _, _, hiff, _⟩ := h
  exact ⟨(hiff 8 0 0 false).2 (by decide), by decide⟩

end Arena

end Artbox.Binder
