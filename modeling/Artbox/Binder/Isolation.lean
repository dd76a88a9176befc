import Artbox.Binder.BestFit

/-!
# Isolation of receive buffers

Whose bytes an arena operation can change. A buffer that is there before and after a call is
the same buffer, and its bytes change only where the call writes to it while it is reserved
(`Arena.apply_slot`); so from its publication to its end a buffer keeps its bytes, and what
was not written since its reservation is zero, whatever happens to others meanwhile.
-/

namespace Artbox.Binder

namespace Arena

variable {a a' : Arena} {s : BufferSlot}

/-- The byte at offset `i` belongs to the buffer. -/
def Inside (a : Arena) (b : Buffer) (i : Nat) : Prop :=
  b.address ≤ a.base + i ∧ a.base + i < b.address + b.extent

/-- The call writes over the byte at offset `i` in the buffer at `address`. -/
def Op.Covers (op : Op) (base address i : Nat) : Prop :=
  ∃ offset source, op = .write address offset source ∧ address + offset ≤ base + i ∧
    base + i < address + offset + source.length

/-- The call is about the buffer at `address`. -/
def Op.Names (address : Nat) : Op → Prop
  | .reserve _ _ _ _ => False
  | .write x _ _ | .publish x | .cancel x | .release x => x = address
  | .discardAll => True

/-- A buffer is there. -/
def Holds (a : Arena) (address : Nat) : Prop := ∃ s ∈ a.buffers, s.value.address = address

/-- The buffer at `address` is there after each of the calls. -/
def Stays (address : Nat) : Arena → List Op → Prop
  | _, [] => True
  | a, op :: ops => (a.apply op).Holds address ∧ Stays address (a.apply op) ops

/-! ## One call -/

/-- Where a write changes bytes. -/
theorem write_changes {address offset i : Nat} {source : List UInt8}
    (h : (a.write address offset source).2.bytes i ≠ a.bytes i) :
    ∃ s ∈ a.buffers, s.value.address = address ∧ s.delivered = false ∧ a.Inside s.value i ∧
      address + offset ≤ a.base + i ∧ a.base + i < address + offset + source.length := by
  unfold write at h
  split at h
  · exact absurd rfl h
  next slot hslot =>
    obtain ⟨hmem, haddr⟩ := slotFor_eq_some.1 hslot
    have hbase := (mem_bounds hmem).1
    split at h
    · exact absurd rfl h
    next hdel =>
      split at h
      · exact absurd rfl h
      next hfit =>
        dsimp only at h
        unfold copyInto at h
        split at h
        next hi =>
          refine ⟨slot, hmem, haddr, by simpa using hdel, ⟨?_, ?_⟩, ?_, ?_⟩ <;> omega
        next => exact absurd rfl h

/-- A call that takes a buffer away touches no other. -/
theorem removeBuffer_slot (hs : s ∈ a.buffers) {address : Nat} {delivered : Bool}
    (hhold : (a.removeBuffer address delivered).2.Holds s.value.address) :
    s ∈ (a.removeBuffer address delivered).2.buffers ∧
      ∀ i, a.Inside s.value i → (a.removeBuffer address delivered).2.bytes i = a.bytes i := by
  obtain ⟨r, a', hrun⟩ : ∃ r a', a.removeBuffer address delivered = (r, a') := ⟨_, _, rfl⟩
  rw [hrun] at hhold ⊢
  obtain ⟨hsame, _, hgone, hkeep⟩ := removeBuffer_spec hrun
  by_cases hr : r = 0
  · have hne : s.value.address ≠ address := by
      rintro rfl
      obtain ⟨s', hs', heq⟩ := hhold
      exact (hgone hr).2 s' hs' heq
    exact ⟨(hsame.mem s hne).2 hs, fun i hi => hsame.bytes s hs hne i hi.1 hi.2⟩
  · rw [hkeep hr]
    exact ⟨hs, fun _ _ => rfl⟩

/-- A buffer that is there before and after a call is the same buffer, and its bytes change
only where the call writes into it while it is reserved. -/
theorem apply_slot (hs : s ∈ a.buffers) (op : Op)
    (hhold : (a.apply op).Holds s.value.address) :
    ∃ s' ∈ (a.apply op).buffers, s'.value = s.value ∧ (s.delivered = true → s' = s) ∧
      ∀ i, a.Inside s.value i → (a.apply op).bytes i = a.bytes i ∨
        (s.delivered = false ∧ op.Covers a.base s.value.address i) := by
  cases op with
  | reserve dataSize offsetsSize extraSize clear =>
    unfold Arena.apply
    dsimp only
    split
    next b a' hr =>
      obtain ⟨_, hfresh, _, hsame, _⟩ := reserve_spec hr
      have hne := hfresh s hs
      exact ⟨s, (hsame.mem s hne).2 hs, rfl, fun _ => rfl,
        fun i hi => .inl (hsame.bytes s hs hne i hi.1 hi.2)⟩
    next => exact ⟨s, hs, rfl, fun _ => rfl, fun _ _ => .inl rfl⟩
  | write address offset source =>
    refine ⟨s, ?_, rfl, fun _ => rfl, fun i hi => ?_⟩
    · rw [Arena.apply, (write_frame address offset source).2.2.2.1]
      exact hs
    · by_cases hchange : (a.write address offset source).2.bytes i = a.bytes i
      · exact .inl hchange
      · -- the byte is inside the buffer that was written, so that is this one
        obtain ⟨s', hs', haddr, hdel, hin, hlo, hhi⟩ := write_changes hchange
        obtain ⟨hlo', hhi'⟩ := hi
        obtain ⟨hlo'', hhi''⟩ := hin
        rcases a.laid.disjoint hs hs' with rfl | hd | hd
        · exact .inr ⟨hdel, offset, source, by rw [haddr], by omega, by omega⟩
        · omega
        · omega
  | publish address =>
    obtain ⟨hsame, hbytes, _⟩ := @publish_spec a _ address _ rfl
    have hb : ∀ i, a.Inside s.value i → (a.apply (.publish address)).bytes i = a.bytes i ∨
        (s.delivered = false ∧ (Op.publish address).Covers a.base s.value.address i) :=
      fun i _ => .inl (congrFun hbytes i)
    by_cases hne : s.value.address = address
    · unfold Arena.apply publish at hb ⊢
      dsimp only at hb ⊢
      split
      next => exact ⟨s, hs, rfl, fun _ => rfl, fun _ _ => .inl rfl⟩
      next slot hslot =>
        obtain ⟨hmem, haddr⟩ := slotFor_eq_some.1 hslot
        have heq := a.laid.eq_of_address hs hmem (hne.trans haddr.symm)
        subst heq
        split
        next => exact ⟨s, hs, rfl, fun _ => rfl, fun _ _ => .inl rfl⟩
        next hdel =>
          refine ⟨{ s with delivered := true }, ?_, rfl, fun h => absurd h hdel, fun _ _ => .inl rfl⟩
          exact List.mem_map.2 ⟨s, hs, by rw [if_pos hne]⟩
    · exact ⟨s, (hsame.mem s hne).2 hs, rfl, fun _ => rfl, hb⟩
  | cancel address =>
    obtain ⟨hmem, hbytes⟩ := removeBuffer_slot hs hhold
    exact ⟨s, hmem, rfl, fun _ => rfl, fun i hi => .inl (hbytes i hi)⟩
  | release address =>
    obtain ⟨hmem, hbytes⟩ := removeBuffer_slot hs hhold
    exact ⟨s, hmem, rfl, fun _ => rfl, fun i hi => .inl (hbytes i hi)⟩
  | discardAll =>
    obtain ⟨s', hs', _⟩ := hhold
    cases hs'

/-- A call about another buffer leaves this one as it is. -/
theorem apply_other (hs : s ∈ a.buffers) {op : Op} (hop : ¬ op.Names s.value.address) :
    s ∈ (a.apply op).buffers ∧ ∀ i, a.Inside s.value i → (a.apply op).bytes i = a.bytes i := by
  have hother : ∀ {x : Nat}, a.SameBut x (a.apply op) → s.value.address ≠ x →
      s ∈ (a.apply op).buffers ∧ ∀ i, a.Inside s.value i → (a.apply op).bytes i = a.bytes i :=
    fun hsame hne => ⟨(hsame.mem s hne).2 hs, fun i hi => hsame.bytes s hs hne i hi.1 hi.2⟩
  cases op with
  | reserve dataSize offsetsSize extraSize clear =>
    unfold Arena.apply at hother ⊢
    dsimp only at hother ⊢
    cases hr : a.reserve dataSize offsetsSize extraSize clear with
    | ok result =>
      rw [hr] at hother
      obtain ⟨_, hfresh, _, hsame, _⟩ := reserve_spec hr
      exact hother hsame (hfresh s hs)
    | error _ => exact ⟨hs, fun _ _ => rfl⟩
  | write address offset source =>
    exact hother write_sameBut fun heq => hop heq.symm
  | publish address =>
    exact hother (@publish_spec a _ address _ rfl).1 fun heq => hop heq.symm
  | cancel address => exact hother removeBuffer_sameBut fun heq => hop heq.symm
  | release address => exact hother removeBuffer_sameBut fun heq => hop heq.symm
  | discardAll => exact absurd trivial hop

/-! ## Runs -/

/-- Over calls during which a buffer is there it is one buffer, and a byte of it that no call
wrote is as it was. -/
theorem run_slot (hs : s ∈ a.buffers) (ops : List Op)
    (hstay : Stays s.value.address a ops) :
    ∃ s' ∈ (ops.foldl Arena.apply a).buffers, s'.value = s.value ∧ (s.delivered = true → s' = s) ∧
      ∀ i, a.Inside s.value i →
        (s.delivered = true ∨ ∀ op ∈ ops, ¬ op.Covers a.base s.value.address i) →
          (ops.foldl Arena.apply a).bytes i = a.bytes i := by
  induction ops generalizing a s with
  | nil => exact ⟨s, hs, rfl, fun _ => rfl, fun _ _ _ => rfl⟩
  | cons op ops ih =>
    obtain ⟨hnow, hlater⟩ := hstay
    obtain ⟨s', hs', hvalue, hdel, hbytes⟩ := apply_slot hs op hnow
    obtain ⟨hbase, _⟩ := apply_bounds (a := a) op
    obtain ⟨s'', hs'', hvalue', hdel', hbytes'⟩ :=
      ih hs' (by rw [hvalue]; exact hlater)
    refine ⟨s'', hs'', hvalue'.trans hvalue, fun hd => ?_, fun i hi hfree => ?_⟩
    · have heq := hdel hd
      rw [← heq] at hd
      exact (hdel' hd).trans heq
    · have hone : (a.apply op).bytes i = a.bytes i := by
        rcases hbytes i hi with heq | ⟨hundel, hcover⟩
        · exact heq
        · rcases hfree with hd | hnone
          · rw [hundel] at hd
            cases hd
          · exact absurd hcover (hnone op List.mem_cons_self)
      refine (hbytes' i ?_ ?_).trans hone
      · unfold Inside at hi ⊢
        rw [hvalue, hbase]
        exact hi
      · rcases hfree with hd | hnone
        · exact .inl (by rw [hdel hd, hd])
        · refine .inr fun op' hop' => ?_
          rw [hvalue, hbase]
          exact hnone op' (List.mem_cons_of_mem _ hop')

/-- A new buffer is zero. -/
theorem reserve_zero (hsmall : a.capacity ≤ ptrdiffMax) {dataSize offsetsSize extraSize : Nat}
    {clear : Bool} {b : Buffer} (h : a.reserve dataSize offsetsSize extraSize clear = .ok (b, a'))
    {i : Nat} (hi : a'.Inside b i) : a'.bytes i = 0 := by
  obtain ⟨g, _, hb, _, hbytes, hbase, _⟩ := reserve_best hsmall h
  obtain ⟨hlo, hhi⟩ := hi
  have haddr : b.address = a.base + g.offset := by rw [hb]; rfl
  rw [hbytes]
  exact if_pos (by omega)

/-- Isolation: after any calls on a created arena, a published buffer keeps its bytes as
long as it is there, a new buffer is zero and stays zero where nobody wrote to it, a write
changes bytes only inside the reserved buffer it names, and no call changes a byte of a
buffer that it does not name. -/
theorem arena_isolation {writable guestBase capacity limit : Nat} {bytes : Nat → UInt8} {a₀ : Arena}
    (h : Arena.create writable guestBase capacity limit bytes = some a₀) (before ops : List Op) :
    let a := before.foldl Arena.apply a₀
    (∀ s ∈ a.buffers, s.delivered = true → Stays s.value.address a ops →
      s ∈ (ops.foldl Arena.apply a).buffers ∧
        ∀ i, a.Inside s.value i → (ops.foldl Arena.apply a).bytes i = a.bytes i) ∧
    (∀ dataSize offsetsSize extraSize clear b a',
      a.reserve dataSize offsetsSize extraSize clear = .ok (b, a') → ∀ i, a'.Inside b i →
        a'.bytes i = 0 ∧ (Stays b.address a' ops → (∀ op ∈ ops, ¬ op.Covers a'.base b.address i) →
          (ops.foldl Arena.apply a').bytes i = 0)) ∧
    (∀ address offset source i, (a.write address offset source).2.bytes i ≠ a.bytes i →
      ∃ s ∈ a.buffers, s.value.address = address ∧ s.delivered = false ∧ a.Inside s.value i) ∧
    ∀ op, ∀ s ∈ a.buffers, ¬ op.Names s.value.address → s ∈ (a.apply op).buffers ∧
      ∀ i, a.Inside s.value i → (a.apply op).bytes i = a.bytes i := by
  intro a
  have hsized : a.Sized := (run_sized h before).1
  refine ⟨fun s hs hdel hstay => ?_, fun d o e c b a' hr i hi => ⟨reserve_zero hsized.small hr hi,
    fun hstay hfree => ?_⟩, fun address offset source i hne => ?_, fun op s hs hop => apply_other hs hop⟩
  · obtain ⟨s', hs', _, heq, hbytes⟩ := run_slot hs ops hstay
    rw [heq hdel] at hs'
    exact ⟨hs', fun i hi => hbytes i hi (.inl hdel)⟩
  · obtain ⟨_, _, hmem, _⟩ := reserve_spec hr
    obtain ⟨_, _, _, _, hbytes⟩ := run_slot hmem ops hstay
    rw [hbytes i hi (.inr hfree)]
    exact reserve_zero hsized.small hr hi
  · obtain ⟨s, hs, haddr, hdel, hin, _⟩ := write_changes hne
    exact ⟨s, hs, haddr, hdel, hin⟩

/-- An arena with one published buffer. -/
def published : Arena :=
  ([.reserve 8 0 0 false, .write 64 0 [7], .publish 64] : List Op).foldl Arena.apply
    (sample.get sample_isSome)

/-- That buffer. -/
def publishedSlot : BufferSlot := ⟨⟨64, 8, 8, 72, 0, 72, 0⟩, true, false⟩

/-- A second buffer is reserved and written behind a published one. -/
theorem sample_isolated :
    (([.reserve 8 0 0 false, .write 72 0 [9], .write 64 0 [5]] : List Op).foldl Arena.apply
      published).bytes 0 = published.bytes 0 := by
  have h := arena_isolation (Option.some_get sample_isSome).symm
    [.reserve 8 0 0 false, .write 64 0 [7], .publish 64]
    [.reserve 8 0 0 false, .write 72 0 [9], .write 64 0 [5]]
  have hfirst : publishedSlot ∈ (published.apply (.reserve 8 0 0 false)).buffers := by decide
  have hsecond : publishedSlot ∈
      ((published.apply (.reserve 8 0 0 false)).apply (.write 72 0 [9])).buffers := by decide
  have hthird : publishedSlot ∈ (((published.apply (.reserve 8 0 0 false)).apply
      (.write 72 0 [9])).apply (.write 64 0 [5])).buffers := by decide
  exact (h.1 publishedSlot (by decide) rfl
    ⟨⟨_, hfirst, rfl⟩, ⟨_, hsecond, rfl⟩, ⟨_, hthird, rfl⟩, trivial⟩).2 0 ⟨by decide, by decide⟩

end Arena

end Artbox.Binder
