import Mathlib.Data.List.Basic
import Mathlib.Algebra.Group.Nat.Defs

/-!
# The receive arena

`core/src/binder_arena.cpp`: a best-fit allocator for the receive bytes of one
endpoint. Buffers are kept in address order; a buffer is *reserved* until it is
published and *delivered* afterwards, can be written only while reserved, and is
removed by `cancel` or `release` according to its state.

`Laid` says the buffers lie inside the arena, in order and without overlap. It
is a field of `Arena`, so no operation can produce an arena whose buffers share
a byte; `reserve` owes it to the search for the smallest sufficient gap
(`bestGapFrom_spec`). What clients use are the `_spec` lemmas: which buffers exist
afterwards, in which state, and that bytes outside the touched extent stay.
-/

namespace Artbox.Binder

/-- `UINT64_MAX`. -/
abbrev uint64Max : Nat := 2 ^ 64 - 1

/-- `PTRDIFF_MAX`. -/
abbrev ptrdiffMax : Nat := 2 ^ 63 - 1

/-- `artbox_binder_buffer`. -/
structure Buffer where
  address : Nat
  extent : Nat
  dataSize : Nat
  offsetsAddress : Nat
  offsetsSize : Nat
  extraAddress : Nat
  extraSize : Nat
deriving DecidableEq, Repr

structure BufferSlot where
  value : Buffer
  delivered : Bool
  clear : Bool
deriving DecidableEq, Repr

/-- Round up to a multiple of eight, `(n + 7) & ~7`. -/
def align8 (n : Nat) : Nat := (n + 7) / 8 * 8

/-- Aligning never rounds down. -/
theorem le_align8 (n : Nat) : n ≤ align8 n := by
  unfold align8
  omega

/-- The data and the offset table of a buffer lie one behind the other inside
its extent. -/
def Buffer.Shaped (b : Buffer) : Prop :=
  b.offsetsAddress = b.address + align8 b.dataSize ∧
    align8 b.dataSize + b.offsetsSize ≤ b.extent ∧ 0 < b.extent

/-! ## Layout -/

/-- The buffers lie between the offsets `lo` and `hi` behind `base`, in address
order and without overlap. -/
def Laid (base : Nat) : (lo hi : Nat) → List BufferSlot → Prop
  | lo, hi, [] => lo ≤ hi
  | lo, hi, s :: rest =>
    base + lo ≤ s.value.address ∧ s.value.Shaped ∧
      Laid base (s.value.address - base + s.value.extent) hi rest

section Laid

variable {base lo mid hi : Nat} {l l' : List BufferSlot}

/-- What is laid out from `lo` to `hi` needs `lo ≤ hi`. -/
theorem Laid.le (h : Laid base lo hi l) : lo ≤ hi := by
  induction l generalizing lo with
  | nil => exact h
  | cons s rest ih =>
    have := ih h.2.2
    have := h.1
    omega

/-- The layout may begin further down. -/
theorem Laid.mono (h : Laid base lo hi l) {lo' : Nat} (hl : lo' ≤ lo) : Laid base lo' hi l := by
  cases l with
  | nil => exact Nat.le_trans hl h
  | cons s rest => exact ⟨by have := h.1; omega, h.2⟩

/-- Layouts one behind the other are a layout. -/
theorem Laid.append (h : Laid base lo mid l) (h' : Laid base mid hi l') :
    Laid base lo hi (l ++ l') := by
  induction l generalizing lo with
  | nil => exact h'.mono h
  | cons s rest ih => exact ⟨h.1, h.2.1, ih h.2.2⟩

/-- Buffers may be taken out of a layout. -/
theorem Laid.sublist (h : Laid base lo hi l) (hs : l'.Sublist l) : Laid base lo hi l' := by
  induction hs generalizing lo with
  | slnil => exact h
  | cons s _ ih =>
    refine (ih h.2.2).mono ?_
    have := h.1
    omega
  | cons_cons s _ ih => exact ⟨h.1, h.2.1, ih h.2.2⟩

/-- The layout reads nothing but the buffers themselves. -/
theorem Laid.map (h : Laid base lo hi l) {f : BufferSlot → BufferSlot}
    (hf : ∀ s, (f s).value = s.value) : Laid base lo hi (l.map f) := by
  induction l generalizing lo with
  | nil => exact h
  | cons s rest ih =>
    simp only [List.map_cons, Laid, hf]
    exact ⟨h.1, h.2.1, ih h.2.2⟩

/-- Every buffer lies inside its layout and has its shape. -/
theorem Laid.mem (h : Laid base lo hi l) {s : BufferSlot} (hs : s ∈ l) :
    base + lo ≤ s.value.address ∧ s.value.address + s.value.extent ≤ base + hi ∧
      s.value.Shaped := by
  induction l generalizing lo with
  | nil => cases hs
  | cons t rest ih =>
    have hle := h.2.2.le
    have h1 := h.1
    rcases List.mem_cons.1 hs with rfl | hs
    · exact ⟨h.1, by omega, h.2.1⟩
    · obtain ⟨h2, h3, h4⟩ := ih h.2.2 hs
      exact ⟨by omega, h3, h4⟩

/-- Two buffers are the same or share no byte. -/
theorem Laid.disjoint (h : Laid base lo hi l) {s t : BufferSlot} (hs : s ∈ l) (ht : t ∈ l) :
    s = t ∨ s.value.address + s.value.extent ≤ t.value.address ∨
      t.value.address + t.value.extent ≤ s.value.address := by
  induction l generalizing lo with
  | nil => cases hs
  | cons u rest ih =>
    have h1 := h.1
    rcases List.mem_cons.1 hs with rfl | hs' <;> rcases List.mem_cons.1 ht with rfl | ht'
    · exact .inl rfl
    · have := (h.2.2.mem ht').1
      exact .inr (.inl (by omega))
    · have := (h.2.2.mem hs').1
      exact .inr (.inr (by omega))
    · exact ih h.2.2 hs' ht'

/-- An address names at most one buffer. -/
theorem Laid.eq_of_address (h : Laid base lo hi l) {s t : BufferSlot} (hs : s ∈ l) (ht : t ∈ l)
    (ha : s.value.address = t.value.address) : s = t := by
  have h1 := (h.mem hs).2.2.2.2
  have h2 := (h.mem ht).2.2.2.2
  rcases h.disjoint hs ht with rfl | hd | hd
  · rfl
  all_goals omega

end Laid

/-! ## The arena -/

/-- `artbox_binder_arena`. The storage is a byte for every offset behind `base`;
only offsets below `capacity` are ever used. -/
structure Arena where
  base : Nat
  capacity : Nat
  limit : Nat
  bytes : Nat → UInt8
  buffers : List BufferSlot
  base_pos : 0 < base
  laid : Laid base 0 capacity buffers

/-- `artbox_binder_arena_create` over storage whose bytes are `bytes`. -/
def Arena.create (writable guestBase capacity limit : Nat) (bytes : Nat → UInt8) :
    Option Arena :=
  if h : writable = 0 ∨ guestBase = 0 ∨ guestBase % 8 ≠ 0 ∨ capacity = 0 ∨ capacity % 8 ≠ 0 ∨
      ptrdiffMax < capacity ∨ uint64Max - guestBase < capacity ∨ limit = 0 ∨ 65536 < limit then
    none
  else
    some {
      base := guestBase, capacity, limit, bytes, buffers := []
      base_pos := by omega
      laid := Nat.zero_le _ }

/-- `memset(storage + offset, 0, size)`. -/
def fillZero (bytes : Nat → UInt8) (offset size : Nat) : Nat → UInt8 :=
  fun i => if offset ≤ i ∧ i < offset + size then 0 else bytes i

/-- `memcpy(storage + offset, source, size)`. -/
def copyInto (bytes : Nat → UInt8) (offset : Nat) (source : List UInt8) : Nat → UInt8 :=
  fun i => if offset ≤ i ∧ i < offset + source.length then source.getD (i - offset) 0 else bytes i

/-- The best gap found so far, `best_size`, `best_offset` and `best_index`. -/
structure Gap where
  size : Nat
  offset : Nat
  index : Nat

/-- Take the gap before `next` if it is large enough and smaller than the best. -/
def Gap.consider (best : Gap) (extent next previousEnd i : Nat) : Gap :=
  if extent ≤ next - previousEnd ∧ next - previousEnd < best.size then
    ⟨next - previousEnd, previousEnd, i⟩
  else best

/-- The search loop of `artbox_binder_arena_reserve`. -/
def bestGapFrom (base capacity extent : Nat) :
    List BufferSlot → (i previousEnd : Nat) → Gap → Gap
  | [], i, previousEnd, best => best.consider extent capacity previousEnd i
  | s :: rest, i, previousEnd, best =>
    bestGapFrom base capacity extent rest (i + 1) (s.value.address - base + s.value.extent)
      (best.consider extent (s.value.address - base) previousEnd i)

/-- A gap that is real: the buffers split at its index, and a buffer of the wanted
extent fits between the two halves. -/
def Gap.Fits (g : Gap) (base capacity extent : Nat) (buffers : List BufferSlot) : Prop :=
  Laid base 0 g.offset (buffers.take g.index) ∧
    Laid base (g.offset + extent) capacity (buffers.drop g.index)

/-- The scan keeps "unset or real": the invariant splits the buffers into those
already passed, which end at `previousEnd`, and the rest. -/
theorem bestGapFrom_fits {base capacity extent : Nat} (rest done : List BufferSlot)
    (previousEnd : Nat) (best : Gap) (hdone : Laid base 0 previousEnd done)
    (hrest : Laid base previousEnd capacity rest)
    (hbest : best.size = uint64Max ∨ best.Fits base capacity extent (done ++ rest)) :
    let g := bestGapFrom base capacity extent rest done.length previousEnd best
    g.size = uint64Max ∨ g.Fits base capacity extent (done ++ rest) := by
  induction rest generalizing done previousEnd best with
  | nil =>
    simp only [bestGapFrom, Gap.consider]
    split
    next hgap =>
      refine .inr ⟨?_, ?_⟩
      · simpa using hdone
      · have hle : previousEnd ≤ capacity := hrest
        have : previousEnd + extent ≤ capacity := by omega
        simpa [Laid] using this
    next => exact hbest
  | cons s rest ih =>
    obtain ⟨haddr, hshape, htail⟩ := hrest
    have hdone' : Laid base 0 (s.value.address - base + s.value.extent) (done ++ [s]) :=
      hdone.append ⟨haddr, hshape, Nat.le_refl _⟩
    have hlist : done ++ s :: rest = done ++ [s] ++ rest := by simp
    have hlen : done.length + 1 = (done ++ [s]).length := by simp
    rw [hlist] at hbest ⊢
    simp only [bestGapFrom, hlen]
    refine ih (done ++ [s]) _ _ hdone' htail ?_
    unfold Gap.consider
    split
    next hgap =>
      refine .inr ⟨?_, ?_⟩
      · simpa using hdone
      · have hfit : Laid base (previousEnd + extent) capacity (s :: rest) :=
          ⟨by omega, hshape, htail⟩
        simpa using hfit
    next => exact hbest

/-- The gap that is chosen fits, or none is chosen. -/
theorem bestGapFrom_spec {base capacity extent : Nat} {buffers : List BufferSlot}
    (h : Laid base 0 capacity buffers) :
    let g := bestGapFrom base capacity extent buffers 0 0 ⟨uint64Max, 0, 0⟩
    g.size = uint64Max ∨ g.Fits base capacity extent buffers :=
  bestGapFrom_fits buffers [] 0 ⟨uint64Max, 0, 0⟩ (Nat.le_refl 0) h (.inl rfl)

/-- The padded size of a request. -/
def extentOf (dataSize offsetsSize extraSize : Nat) : Nat :=
  if align8 dataSize + offsetsSize + align8 extraSize = 0 then 8
  else align8 dataSize + offsetsSize + align8 extraSize

/-- The buffer a reservation at `offset` returns. -/
def Arena.bufferAt (a : Arena) (offset dataSize offsetsSize extraSize : Nat) : Buffer :=
  { address := a.base + offset
    extent := extentOf dataSize offsetsSize extraSize
    dataSize
    offsetsAddress := a.base + offset + align8 dataSize
    offsetsSize
    extraAddress := a.base + offset + align8 dataSize + offsetsSize
    extraSize }

/-- A new buffer is as large as its parts. -/
theorem Arena.bufferAt_shaped (a : Arena) (offset dataSize offsetsSize extraSize : Nat) :
    (a.bufferAt offset dataSize offsetsSize extraSize).Shaped := by
  refine ⟨rfl, ?_, ?_⟩ <;> (simp only [Arena.bufferAt, extentOf]; split <;> omega)

/-- A reservation put into a fitting gap keeps the buffers laid out. -/
theorem Arena.laid_insert (a : Arena) {g : Gap} {dataSize offsetsSize extraSize : Nat}
    (h : g.Fits a.base a.capacity (extentOf dataSize offsetsSize extraSize) a.buffers)
    (delivered clear : Bool) :
    Laid a.base 0 a.capacity (a.buffers.take g.index ++
      ⟨a.bufferAt g.offset dataSize offsetsSize extraSize, delivered, clear⟩ ::
        a.buffers.drop g.index) := by
  refine h.1.append ⟨Nat.le_refl _, a.bufferAt_shaped .., h.2.mono ?_⟩
  simp only [Arena.bufferAt]
  omega

/-- `artbox_binder_arena_reserve`. -/
def Arena.reserve (a : Arena) (dataSize offsetsSize extraSize : Nat) (clearOnFree : Bool) :
    Except Int (Buffer × Arena) :=
  if offsetsSize % 8 ≠ 0 then .error (-22)
  else if a.capacity < dataSize ∨ a.capacity < offsetsSize ∨ a.capacity < extraSize ∨
      a.buffers.length = a.limit then .error (-12)
  else if a.capacity < align8 dataSize ∨ a.capacity - align8 dataSize < offsetsSize then
    .error (-12)
  else if a.capacity - (align8 dataSize + offsetsSize) < align8 extraSize then .error (-12)
  else
    let best := bestGapFrom a.base a.capacity (extentOf dataSize offsetsSize extraSize)
      a.buffers 0 0 ⟨uint64Max, 0, 0⟩
    if h : best.size = uint64Max then .error (-12)
    else
      let value := a.bufferAt best.offset dataSize offsetsSize extraSize
      .ok (value, { a with
        bytes := fillZero a.bytes best.offset value.extent
        buffers := a.buffers.take best.index ++
          { value, delivered := false, clear := clearOnFree } :: a.buffers.drop best.index
        laid := a.laid_insert ((bestGapFrom_spec a.laid).resolve_left h) .. })

/-- The buffer that starts at `address`. -/
def Arena.slotFor (a : Arena) (address : Nat) : Option BufferSlot :=
  a.buffers.find? fun s => s.value.address == address

/-- `artbox_binder_arena_write`. -/
def Arena.write (a : Arena) (address offset : Nat) (source : List UInt8) : Int × Arena :=
  match a.slotFor address with
  | none => (-22, a)
  | some slot =>
    if slot.delivered then (-1, a)
    else if slot.value.extent < offset ∨ slot.value.extent - offset < source.length then (-22, a)
    else (0, { a with bytes := copyInto a.bytes (address - a.base + offset) source })

/-- `artbox_binder_arena_publish`. -/
def Arena.publish (a : Arena) (address : Nat) : Int × Arena :=
  match a.slotFor address with
  | none => (-22, a)
  | some slot =>
    if slot.delivered then (-1, a)
    else (0, { a with
      buffers := a.buffers.map fun s =>
        if s.value.address = address then { s with delivered := true } else s
      laid := a.laid.map fun s => by split <;> rfl })

/-- `remove_buffer`. -/
def Arena.removeBuffer (a : Arena) (address : Nat) (delivered : Bool) : Int × Arena :=
  match a.slotFor address with
  | none => (-22, a)
  | some slot =>
    if slot.delivered ≠ delivered then (-1, a)
    else (0, { a with
      bytes :=
        if slot.clear then fillZero a.bytes (address - a.base) slot.value.extent else a.bytes
      buffers := a.buffers.eraseP fun s => s.value.address == address
      laid := a.laid.sublist List.eraseP_sublist })

/-- `artbox_binder_arena_cancel`. -/
def Arena.cancel (a : Arena) (address : Nat) : Int × Arena := a.removeBuffer address false

/-- `artbox_binder_arena_release`. -/
def Arena.release (a : Arena) (address : Nat) : Int × Arena := a.removeBuffer address true

/-- `artbox_binder_arena_discard_all`. -/
def Arena.discardAll (a : Arena) : Arena :=
  { a with
    bytes := a.buffers.foldl
      (fun bytes s => fillZero bytes (s.value.address - a.base) s.value.extent) a.bytes
    buffers := []
    laid := Nat.zero_le _ }

/-! ## What the operations do -/

/-- The arena after an operation on the buffer at `address`: every other buffer is
there as before, with its bytes. -/
structure Arena.SameBut (address : Nat) (a a' : Arena) : Prop where
  base : a'.base = a.base
  capacity : a'.capacity = a.capacity
  mem : ∀ s : BufferSlot, s.value.address ≠ address → (s ∈ a'.buffers ↔ s ∈ a.buffers)
  bytes : ∀ s ∈ a.buffers, s.value.address ≠ address → ∀ i, s.value.address ≤ a.base + i →
    a.base + i < s.value.address + s.value.extent → a'.bytes i = a.bytes i

namespace Arena

variable {a a' a'' : Arena} {address : Nat} {s : BufferSlot}

theorem SameBut.refl (address : Nat) (a : Arena) : a.SameBut address a :=
  ⟨rfl, rfl, fun _ _ => Iff.rfl, fun _ _ _ _ _ _ => rfl⟩

theorem SameBut.trans (h : a.SameBut address a') (h' : a'.SameBut address a'') :
    a.SameBut address a'' where
  base := h'.base.trans h.base
  capacity := h'.capacity.trans h.capacity
  mem s hs := (h'.mem s hs).trans (h.mem s hs)
  bytes s hs hne i hlo hhi := by
    rw [h'.bytes s ((h.mem s hne).2 hs) hne i (by rw [h.base]; exact hlo)
      (by rw [h.base]; exact hhi)]
    exact h.bytes s hs hne i hlo hhi

/-- The bytes of the `size` addresses from `address` on. -/
def read (a : Arena) (address size : Nat) : List UInt8 :=
  (List.range size).map fun i => a.bytes (address - a.base + i)

/-- Every buffer lies inside the arena. -/
theorem mem_bounds (h : s ∈ a.buffers) :
    a.base ≤ s.value.address ∧ s.value.address + s.value.extent ≤ a.base + a.capacity ∧
      s.value.Shaped := by
  have := a.laid.mem h
  exact ⟨by omega, this.2⟩

/-- What lies inside another buffer reads the same afterwards. -/
theorem SameBut.read (h : a.SameBut address a') (hs : s ∈ a.buffers)
    (hne : s.value.address ≠ address) {x n : Nat} (hlo : s.value.address ≤ x)
    (hhi : x + n ≤ s.value.address + s.value.extent) : a'.read x n = a.read x n := by
  have hbase := (mem_bounds hs).1
  refine List.map_congr_left fun i hi => ?_
  have hi := List.mem_range.1 hi
  rw [h.base]
  exact h.bytes s hs hne _ (by omega) (by omega)

/-- Every buffer is there as before, with its bytes; there may be more. -/
def Keeps (a a' : Arena) : Prop :=
  ∀ s ∈ a.buffers, s ∈ a'.buffers ∧ ∀ x n, s.value.address ≤ x →
    x + n ≤ s.value.address + s.value.extent → a'.read x n = a.read x n

theorem Keeps.refl (a : Arena) : a.Keeps a := fun _ hs => ⟨hs, fun _ _ _ _ => rfl⟩

/-- An operation on an address that no buffer has keeps every buffer. -/
theorem SameBut.keeps (h : a.SameBut address a')
    (hne : ∀ s ∈ a.buffers, s.value.address ≠ address) : a.Keeps a' := fun s hs =>
  ⟨(h.mem s (hne s hs)).2 hs, fun _ _ hlo hhi => h.read hs (hne s hs) hlo hhi⟩

/-- What was copied in reads back. -/
theorem read_copyInto {x : Nat} {source : List UInt8}
    (hb : a'.bytes = copyInto a.bytes (x - a.base) source) (hbase : a'.base = a.base) :
    a'.read x source.length = source := by
  apply List.ext_getElem
  · simp [read]
  · intro i _ hi
    simp only [read, List.getElem_map, List.getElem_range, hb, hbase, copyInto]
    rw [if_pos (by omega), show x - a.base + i - (x - a.base) = i by omega,
      List.getD_eq_getElem?_getD, List.getElem?_eq_getElem hi]
    rfl

/-- Elsewhere nothing changes. -/
theorem read_copyInto_disjoint {x y n : Nat} {source : List UInt8} (hx : a.base ≤ x)
    (hy : a.base ≤ y) (hb : a'.bytes = copyInto a.bytes (x - a.base) source)
    (hbase : a'.base = a.base) (hd : y + n ≤ x ∨ x + source.length ≤ y) :
    a'.read y n = a.read y n := by
  refine List.map_congr_left fun i hi => ?_
  have hi := List.mem_range.1 hi
  rw [hb, hbase, copyInto, if_neg]
  omega

/-- A slot is found by the address of its buffer. -/
theorem slotFor_eq_some : a.slotFor address = some s ↔ s ∈ a.buffers ∧ s.value.address = address := by
  constructor
  · intro h
    exact ⟨List.mem_of_find?_eq_some h, by simpa using List.find?_some h⟩
  · rintro ⟨hs, rfl⟩
    cases hf : a.slotFor s.value.address with
    | none =>
      have := List.find?_eq_none.1 hf s hs
      simp at this
    | some t =>
      have ht := List.mem_of_find?_eq_some hf
      have hta : t.value.address = s.value.address := by simpa using List.find?_some hf
      rw [a.laid.eq_of_address ht hs hta]

/-- No slot is found where no buffer begins. -/
theorem slotFor_eq_none : a.slotFor address = none ↔ ∀ s ∈ a.buffers, s.value.address ≠ address := by
  rw [slotFor, List.find?_eq_none]
  simp

/-- A reservation adds one undelivered buffer, at an address that was free. -/
theorem reserve_spec {dataSize offsetsSize extraSize : Nat} {clear : Bool} {b : Buffer}
    (h : a.reserve dataSize offsetsSize extraSize clear = .ok (b, a')) :
    (∃ offset, b = a.bufferAt offset dataSize offsetsSize extraSize) ∧
      (∀ s ∈ a.buffers, s.value.address ≠ b.address) ∧
      ⟨b, false, clear⟩ ∈ a'.buffers ∧ a.SameBut b.address a' ∧ 0 < b.address ∧
      (∀ s ∈ a'.buffers, s.value.address = b.address → s = ⟨b, false, clear⟩) := by
  simp only [reserve] at h
  split at h; · cases h
  split at h; · cases h
  split at h; · cases h
  split at h; · cases h
  split at h; · cases h
  next hsize =>
    obtain ⟨rfl, rfl⟩ := Prod.mk.inj (Except.ok.inj h)
    -- the new arena's own layout proof says that nothing overlaps the new buffer
    set best := bestGapFrom a.base a.capacity (extentOf dataSize offsetsSize extraSize)
      a.buffers 0 0 ⟨uint64Max, 0, 0⟩
    have hfit : best.Fits a.base a.capacity _ a.buffers :=
      (bestGapFrom_spec a.laid).resolve_left hsize
    have hlaid := a.laid_insert hfit false clear
    have hmem : ∀ s, s ∈ a.buffers.take best.index ++
        ⟨a.bufferAt best.offset dataSize offsetsSize extraSize, false, clear⟩ ::
          a.buffers.drop best.index ↔
        s = ⟨a.bufferAt best.offset dataSize offsetsSize extraSize, false, clear⟩ ∨
          s ∈ a.buffers := by
      intro s
      conv_rhs => rw [← List.take_append_drop best.index a.buffers]
      simp only [List.mem_append, List.mem_cons]
      tauto
    have hnew := (hmem _).2 (.inl rfl)
    have hdisj : ∀ s ∈ a.buffers,
        s.value.address + s.value.extent ≤ a.base + best.offset ∨
          a.base + best.offset + extentOf dataSize offsetsSize extraSize ≤ s.value.address := by
      intro s hs
      -- split the old buffers at the gap
      rw [← List.take_append_drop best.index a.buffers] at hs
      rcases List.mem_append.1 hs with hs | hs
      · exact .inl (hfit.1.mem hs).2.1
      · have := (hfit.2.mem hs).1
        exact .inr (by omega)
    have hpos : 0 < extentOf dataSize offsetsSize extraSize :=
      (a.bufferAt_shaped best.offset dataSize offsetsSize extraSize).2.2
    have hfresh : ∀ s ∈ a.buffers, s.value.address ≠ a.base + best.offset := by
      intro s hs heq
      have hs0 := (mem_bounds hs).2.2.2.2
      rcases hdisj s hs with hd | hd <;> omega
    refine ⟨⟨best.offset, rfl⟩, hfresh, hnew, ⟨rfl, rfl, ?_, ?_⟩, ?_, ?_⟩
    · intro s hne
      refine (hmem s).trans (or_iff_right fun he => hne ?_)
      rw [he]
    · intro s hs _ i hlo hhi
      refine if_neg fun hi => ?_
      have hi' : best.offset ≤ i ∧ i < best.offset + extentOf dataSize offsetsSize extraSize := hi
      rcases hdisj s hs with hd | hd <;> omega
    · have := a.base_pos
      simp only [Arena.bufferAt]
      omega
    · intro s hs ha
      rcases (hmem s).1 hs with rfl | hs
      · rfl
      · exact absurd ha (hfresh s hs)

/-- A refused reservation has a table of broken entries, or no room. -/
theorem reserve_error_code {dataSize offsetsSize extraSize : Nat} {clear : Bool} {c : Int}
    (h : a.reserve dataSize offsetsSize extraSize clear = .error c) :
    c = -12 ∨ (c = -22 ∧ offsetsSize % 8 ≠ 0) := by
  simp only [reserve] at h
  split at h
  next hmod =>
    cases h
    exact .inr ⟨rfl, hmod⟩
  repeat' split at h
  all_goals cases h
  all_goals exact .inl rfl

/-- A reservation that fails has an errno. -/
theorem reserve_error {dataSize offsetsSize extraSize : Nat} {clear : Bool} {c : Int}
    (h : a.reserve dataSize offsetsSize extraSize clear = .error c) : c ≠ 0 := by
  rcases reserve_error_code h with rfl | ⟨rfl, _⟩ <;> decide

/-- A write reaches a reserved buffer only, and only inside its extent. -/
theorem write_spec {offset : Nat} {source : List UInt8} {r : Int}
    (h : a.write address offset source = (r, a')) :
    a.SameBut address a' ∧ a'.buffers = a.buffers ∧
      (∀ s ∈ a.buffers, s.value.address = address → s.delivered = false →
        offset + source.length ≤ s.value.extent →
          r = 0 ∧ a'.bytes = copyInto a.bytes (address - a.base + offset) source) := by
  simp only [write] at h
  cases hslot : a.slotFor address with
  | none =>
    rw [hslot] at h
    obtain ⟨rfl, rfl⟩ := Prod.mk.inj h
    exact ⟨.refl _ _, rfl, fun s hs ha => absurd ha (slotFor_eq_none.1 hslot s hs)⟩
  | some slot =>
    obtain ⟨hmem, haddr⟩ := slotFor_eq_some.1 hslot
    have hbase := (mem_bounds hmem).1
    rw [hslot] at h
    dsimp only at h
    split at h
    next hdel =>
      obtain ⟨rfl, rfl⟩ := Prod.mk.inj h
      refine ⟨.refl _ _, rfl, fun s hs ha hundel => ?_⟩
      rw [a.laid.eq_of_address hs hmem (ha.trans haddr.symm), hdel] at hundel
      cases hundel
    next =>
      split at h
      next hbig =>
        obtain ⟨rfl, rfl⟩ := Prod.mk.inj h
        refine ⟨.refl _ _, rfl, fun s hs ha _ hfit => ?_⟩
        rw [a.laid.eq_of_address hs hmem (ha.trans haddr.symm)] at hfit
        omega
      next hfit =>
        obtain ⟨rfl, rfl⟩ := Prod.mk.inj h
        refine ⟨⟨rfl, rfl, fun _ _ => Iff.rfl, ?_⟩, rfl, fun _ _ _ _ _ => ⟨rfl, rfl⟩⟩
        intro s hs hne i hlo hhi
        refine if_neg fun hi => ?_
        have hs0 := (mem_bounds hs).1
        rcases a.laid.disjoint hs hmem with rfl | hd | hd
        · exact hne haddr
        all_goals omega

/-- A write changes one buffer. -/
theorem write_sameBut {offset : Nat} {source : List UInt8} :
    a.SameBut address (a.write address offset source).2 :=
  (write_spec rfl).1

/-- Publishing turns the reserved buffer at `address` into a delivered one; it
succeeds exactly if there is one. -/
theorem publish_spec {r : Int} (h : a.publish address = (r, a')) :
    a.SameBut address a' ∧ a'.bytes = a.bytes ∧
      (∀ s ∈ a.buffers, s.value.address = address → s.delivered = false → r = 0) ∧
      (r = 0 → ∃ s ∈ a.buffers, s.value.address = address ∧ s.delivered = false ∧
        { s with delivered := true } ∈ a'.buffers ∧
        ∀ t ∈ a'.buffers, t.value.address = address → t = { s with delivered := true }) := by
  simp only [publish] at h
  cases hslot : a.slotFor address with
  | none =>
    rw [hslot] at h
    obtain ⟨rfl, rfl⟩ := Prod.mk.inj h
    exact ⟨.refl _ _, rfl, fun s hs ha => absurd ha (slotFor_eq_none.1 hslot s hs),
      fun h => absurd h (by decide)⟩
  | some slot =>
    obtain ⟨hmem, haddr⟩ := slotFor_eq_some.1 hslot
    rw [hslot] at h
    dsimp only at h
    split at h
    next hdel =>
      obtain ⟨rfl, rfl⟩ := Prod.mk.inj h
      refine ⟨.refl _ _, rfl, fun s hs ha hundel => ?_, fun h => absurd h (by decide)⟩
      rw [a.laid.eq_of_address hs hmem (ha.trans haddr.symm), hdel] at hundel
      cases hundel
    next hdel =>
      obtain ⟨rfl, rfl⟩ := Prod.mk.inj h
      refine ⟨⟨rfl, rfl, ?_, fun _ _ _ _ _ _ => rfl⟩, rfl, fun _ _ _ _ => rfl, fun _ =>
        ⟨slot, hmem, haddr, by simpa using hdel, ?_, ?_⟩⟩
      · intro s hne
        simp only [List.mem_map]
        constructor
        · rintro ⟨t, ht, rfl⟩
          split at hne
          next h => exact absurd h hne
          next h => rw [if_neg h]; exact ht
        · exact fun hs => ⟨s, hs, if_neg hne⟩
      · exact List.mem_map.2 ⟨slot, hmem, by rw [if_pos haddr]⟩
      · intro t ht hta
        obtain ⟨u, hu, rfl⟩ := List.mem_map.1 ht
        split at hta
        next hua =>
          rw [if_pos hua, a.laid.eq_of_address hu hmem (hua.trans haddr.symm)]
        next hua => exact absurd hta hua

/-- Removal takes the buffer at `address` away if it is in the given state and
otherwise changes nothing. -/
theorem removeBuffer_spec {delivered : Bool} {r : Int}
    (h : a.removeBuffer address delivered = (r, a')) :
    a.SameBut address a' ∧
      (∀ s ∈ a.buffers, s.value.address = address → s.delivered = delivered → r = 0) ∧
      (r = 0 → (∃ s ∈ a.buffers, s.value.address = address ∧ s.delivered = delivered) ∧
        ∀ s ∈ a'.buffers, s.value.address ≠ address) ∧
      (r ≠ 0 → a' = a) := by
  simp only [removeBuffer] at h
  cases hslot : a.slotFor address with
  | none =>
    rw [hslot] at h
    obtain ⟨rfl, rfl⟩ := Prod.mk.inj h
    exact ⟨.refl _ _, fun s hs ha => absurd ha (slotFor_eq_none.1 hslot s hs),
      fun h => absurd h (by decide), fun _ => rfl⟩
  | some slot =>
    obtain ⟨hmem, haddr⟩ := slotFor_eq_some.1 hslot
    rw [hslot] at h
    dsimp only at h
    split at h
    next hdel =>
      obtain ⟨rfl, rfl⟩ := Prod.mk.inj h
      refine ⟨.refl _ _, fun s hs ha hd => ?_, fun h => absurd h (by decide), fun _ => rfl⟩
      rw [a.laid.eq_of_address hs hmem (ha.trans haddr.symm)] at hd
      exact absurd hd hdel
    next hdel =>
      obtain ⟨rfl, rfl⟩ := Prod.mk.inj h
      -- the list around the buffer, which is the only one at the address
      obtain ⟨pre, post, hpre, hlist, herase⟩ :
          ∃ pre post, (∀ t ∈ pre, t.value.address ≠ address) ∧
            a.buffers = pre ++ slot :: post ∧
            (a.buffers.eraseP fun s => s.value.address == address) = pre ++ post := by
        obtain ⟨t, pre, post, hpre, ht, hl, he⟩ :=
          List.exists_of_eraseP (p := fun s : BufferSlot => s.value.address == address) hmem
            (by simpa using haddr)
        have hts : t = slot := by
          refine a.laid.eq_of_address (by simp [hl]) hmem ?_
          rw [haddr]
          simpa using ht
        subst hts
        exact ⟨pre, post, by simpa using hpre, hl, he⟩
      have hpost : ∀ t ∈ post, t.value.address ≠ address := by
        intro t ht ha
        have hsub : (slot :: post).Sublist a.buffers := by
          rw [hlist]
          exact List.sublist_append_right _ _
        have hlaid := a.laid.sublist hsub
        have h1 := (hlaid.2.2.mem ht).1
        have h2 := hlaid.2.1.2.2
        have h3 := (mem_bounds hmem).1
        omega
      refine ⟨⟨rfl, rfl, ?_, ?_⟩, fun _ _ _ _ => rfl, fun _ => ⟨⟨slot, hmem, haddr,
        by simpa using hdel⟩, ?_⟩, fun h => absurd rfl h⟩
      · intro s hne
        show s ∈ a.buffers.eraseP _ ↔ _
        rw [herase, hlist]
        simp only [List.mem_append, List.mem_cons]
        constructor
        · rintro (h | h)
          · exact .inl h
          · exact .inr (.inr h)
        · rintro (h | rfl | h)
          · exact .inl h
          · exact absurd haddr hne
          · exact .inr h
      · intro s hs hne i hlo hhi
        show (if slot.clear then fillZero a.bytes _ _ else a.bytes) i = _
        split
        · refine if_neg fun hi => ?_
          have hs0 := (mem_bounds hs).1
          have hm0 := (mem_bounds hmem).1
          rcases a.laid.disjoint hs hmem with rfl | hd | hd
          · exact hne haddr
          all_goals omega
        · rfl
      · intro s hs
        change s ∈ a.buffers.eraseP _ at hs
        rw [herase] at hs
        rcases List.mem_append.1 hs with hs | hs
        · exact hpre s hs
        · exact hpost s hs

/-- Removing a buffer changes no other. -/
theorem removeBuffer_sameBut {delivered : Bool} :
    a.SameBut address (a.removeBuffer address delivered).2 :=
  (removeBuffer_spec rfl).1

/-- A reserved buffer that holds `data` and `offsets`. -/
structure Stores (a : Arena) (address offsetsAddress : Nat) (data offsets : List UInt8) : Prop where
  slot : ∃ s ∈ a.buffers, s.value.address = address ∧ s.value.offsetsAddress = offsetsAddress ∧
    s.delivered = false ∧ s.value.dataSize = data.length ∧ s.value.offsetsSize = offsets.length
  data : a.read address data.length = data
  offsets : a.read offsetsAddress offsets.length = offsets

/-- What a buffer holds stays as long as the buffer does. -/
theorem Stores.keeps {offsetsAddress : Nat} {data offsets : List UInt8}
    (h : a.Stores address offsetsAddress data offsets) (hk : a.Keeps a') :
    a'.Stores address offsetsAddress data offsets := by
  obtain ⟨s, hs, haddr, hoff, hdel, hdata, hoffs⟩ := h.slot
  obtain ⟨hs', hread⟩ := hk s hs
  obtain ⟨_, _, hshape⟩ := mem_bounds hs
  have hle := le_align8 s.value.dataSize
  refine ⟨⟨s, hs', haddr, hoff, hdel, hdata, hoffs⟩, ?_, ?_⟩
  · rw [hread _ _ (by omega) (by have := hshape.2.1; omega)]
    exact h.data
  · have h1 := hshape.1
    have h2 := hshape.2.1
    rw [hread _ _ (by omega) (by omega)]
    exact h.offsets

/-- An operation on another address keeps what a buffer holds. -/
theorem Stores.sameBut {offsetsAddress x : Nat} {data offsets : List UInt8}
    (h : a.Stores address offsetsAddress data offsets) (hs : a.SameBut x a') (hne : address ≠ x) :
    a'.Stores address offsetsAddress data offsets := by
  obtain ⟨s, hmem, haddr, hoff, hdel, hdata, hoffs⟩ := h.slot
  have hne' : s.value.address ≠ x := haddr ▸ hne
  obtain ⟨_, _, hshape⟩ := mem_bounds hmem
  have hle := le_align8 s.value.dataSize
  have h1 := hshape.1
  have h2 := hshape.2.1
  refine ⟨⟨s, (hs.mem s hne').2 hmem, haddr, hoff, hdel, hdata, hoffs⟩, ?_, ?_⟩
  · rw [hs.read hmem hne' (by omega) (by omega)]
    exact h.data
  · rw [hs.read hmem hne' (by omega) (by omega)]
    exact h.offsets

/-- Reserving a buffer and writing a parcel into it succeeds and stores the parcel. -/
theorem store_spec {dataSize offsetsSize : Nat} {b : Buffer} {data offsets : List UInt8}
    (h : a.reserve dataSize offsetsSize 0 false = .ok (b, a')) (hd : data.length = dataSize)
    (ho : offsets.length = offsetsSize) :
    (a'.write b.address 0 data).1 = 0 ∧
      ((a'.write b.address 0 data).2.write b.address (b.offsetsAddress - b.address) offsets).1 = 0 ∧
      ((a'.write b.address 0 data).2.write b.address (b.offsetsAddress - b.address)
        offsets).2.Stores b.address b.offsetsAddress data offsets := by
  obtain ⟨⟨offset, hb⟩, _, hmem, _, _, _⟩ := reserve_spec h
  have hshape := a.bufferAt_shaped offset dataSize offsetsSize 0
  rw [← hb] at hshape
  have hsize : b.dataSize = dataSize ∧ b.offsetsSize = offsetsSize := by
    rw [hb]
    exact ⟨rfl, rfl⟩
  have hle := le_align8 b.dataSize
  have h1 := hshape.1
  have h2 := hshape.2.1
  obtain ⟨hbase, _, _⟩ := mem_bounds hmem
  have hbase : a'.base ≤ b.address := hbase
  obtain ⟨r1, a1, hwrite1⟩ : ∃ r1 a1, a'.write b.address 0 data = (r1, a1) := ⟨_, _, rfl⟩
  obtain ⟨hs1, hbuf1, hw1⟩ := write_spec hwrite1
  obtain ⟨hr1, hb1⟩ := hw1 _ hmem rfl rfl (by show 0 + data.length ≤ b.extent; omega)
  obtain ⟨r2, a2, hwrite2⟩ : ∃ r2 a2,
    a1.write b.address (b.offsetsAddress - b.address) offsets = (r2, a2) := ⟨_, _, rfl⟩
  obtain ⟨hs2, hbuf2, hw2⟩ := write_spec hwrite2
  obtain ⟨hr2, hb2⟩ := hw2 ⟨b, false, false⟩ (hbuf1 ▸ hmem) rfl rfl
    (by show b.offsetsAddress - b.address + offsets.length ≤ b.extent; omega)
  rw [hwrite1, hwrite2]
  refine ⟨hr1, hr2, ⟨⟨⟨b, false, false⟩, ?_, rfl, rfl, rfl, ?_, ?_⟩, ?_, ?_⟩⟩
  · rw [hbuf2, hbuf1]
    exact hmem
  · exact hsize.1.trans hd.symm
  · exact hsize.2.trans ho.symm
  · -- the offset table lies behind the data
    have hcopy : a2.bytes = copyInto a1.bytes (b.offsetsAddress - a1.base) offsets := by
      rw [hb2, hs1.base]
      congr 1
      omega
    rw [read_copyInto_disjoint (by rw [hs1.base]; omega) (by rw [hs1.base]; omega) hcopy hs2.base
      (by omega)]
    exact read_copyInto (by rw [hb1]; rfl) hs1.base
  · refine read_copyInto (a := a1) ?_ hs2.base
    rw [hb2, hs1.base]
    congr 1
    omega

end Arena

end Artbox.Binder
