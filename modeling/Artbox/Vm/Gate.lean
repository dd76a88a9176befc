import Artbox.Lib.Machine
import Mathlib.Data.List.Basic

/-!
# The gate of the fault snapshot

`FaultMutationGuard` and `FaultReadGuard` of `core/src/vm.cpp`. A writer, which has the mutex of
the VM, announces itself and waits until no reader is counted. A reader counts itself between
two looks at the announcement and takes its count back if the second look finds one. Every
atomic operation is a step of its own, and between any two of them anyone else may step: a
signal handler that reads inside an interrupted writer is one such order of steps.

The number of readers in the gate is a number of threads, so that the counter is a `Nat`. What
the readers read is a parameter: `fault` is the query of `artbox_vm_fault_snapshot`, which has
no answer in a poisoned VM.
-/

namespace Artbox.Vm.Gate

variable {μ ι : Type}

/-- Where the writer with the mutex is. -/
inductive WriterPhase
  /-- Nobody has the mutex. -/
  | idle
  /-- The mutex is taken. -/
  | locked
  /-- In the wait loop. -/
  | announced
  /-- Past the wait loop. -/
  | inside
  /-- The announcement is taken back. -/
  | cleared
deriving DecidableEq, Repr

/-- Where a reader is. -/
inductive ReaderPhase (ι : Type)
  /-- Before the first look. -/
  | start
  /-- The first look found no announcement. -/
  | looked
  /-- Counted, before the second look. -/
  | counted
  /-- The second look found an announcement. -/
  | undoing
  /-- The gate is acquired. -/
  | acquired
  /-- The answer is there, the buffer not yet written. -/
  | answered (result : ι)
  /-- Before its count is taken back. -/
  | leaving (result : Int)
  /-- It returned. -/
  | returned (result : Int)
deriving DecidableEq, Repr

/-- A call of `artbox_vm_fault_snapshot`. -/
structure Reader (ι : Type) where
  phase : ReaderPhase ι := .start
  /-- The caller's buffer. -/
  out : ι
  /-- The buffer at the call. -/
  given : ι
  /-- What the reader has added to the counter. -/
  net : Int := 0
  /-- The reader has had the gate. -/
  acquired : Bool := false
deriving DecidableEq, Repr

/-- The VM as the gate sees it. -/
structure State (μ ι : Type) where
  /-- What the writers change. -/
  metadata : μ
  /-- `fault_mutating`. -/
  mutating : Nat := 0
  /-- `fault_readers`. -/
  counter : Nat := 0
  writer : WriterPhase := .idle
  readers : List (Reader ι) := []
deriving DecidableEq, Repr

/-- The writer's next atomic step; inside it leaves `metadata` behind. -/
def write (metadata : μ) (s : State μ ι) : State μ ι :=
  match s.writer with
  | .idle => { s with writer := .locked }
  | .locked => { s with mutating := 1, writer := .announced }
  | .announced => if s.counter = 0 then { s with writer := .inside } else s
  | .inside => { s with metadata, mutating := 0, writer := .cleared }
  | .cleared => { s with writer := .idle }

/-- The writer changes the metadata and goes on. -/
def mutate (metadata : μ) (s : State μ ι) : State μ ι :=
  match s.writer with
  | .inside => { s with metadata }
  | _ => s

/-- The next atomic step of a reader: what it becomes and the counter after it. -/
def advance (fault : μ → Option ι) (s : State μ ι) (r : Reader ι) : Reader ι × Nat :=
  match r.phase with
  | .start =>
    if s.mutating ≠ 0 then ({ r with phase := .returned (-11) }, s.counter)
    else ({ r with phase := .looked }, s.counter)
  | .looked => ({ r with phase := .counted, net := r.net + 1 }, s.counter + 1)
  | .counted =>
    if s.mutating ≠ 0 then ({ r with phase := .undoing }, s.counter)
    else ({ r with phase := .acquired, acquired := true }, s.counter)
  | .undoing => ({ r with phase := .returned (-11), net := r.net - 1 }, s.counter - 1)
  | .acquired =>
    match fault s.metadata with
    | none => ({ r with phase := .leaving (-5) }, s.counter)
    | some result => ({ r with phase := .answered result }, s.counter)
  | .answered result => ({ r with phase := .leaving 0, out := result }, s.counter)
  | .leaving result => ({ r with phase := .returned result, net := r.net - 1 }, s.counter - 1)
  | .returned _ => (r, s.counter)

/-- A step of someone. -/
inductive Action (μ ι : Type)
  | write (metadata : μ)
  | mutate (metadata : μ)
  /-- Another reader calls, with its buffer. -/
  | call (out : ι)
  /-- The reader with this number steps. -/
  | read (i : Nat)

/-- One step. -/
def perform (fault : μ → Option ι) (s : State μ ι) : Action μ ι → State μ ι
  | .write metadata => write metadata s
  | .mutate metadata => mutate metadata s
  | .call out => { s with readers := s.readers ++ [{ out, given := out }] }
  | .read i =>
    match s.readers[i]? with
    | none => s
    | some r =>
      let next := advance fault s r
      { s with readers := s.readers.set i next.1, counter := next.2 }

/-- The runs of a VM in which no call is in progress at first. -/
def machine (fault : μ → Option ι) : Machine (State μ ι) where
  init s := ∃ metadata, s = { metadata }
  step s s' := ∃ a, s' = perform fault s a

/-! ## The phases -/

/-- The writer has announced itself and not yet taken that back. -/
def WriterPhase.announces : WriterPhase → Bool
  | announced => true
  | inside => true
  | _ => false

/-- The reader is between its increment and its decrement. -/
def ReaderPhase.counts : ReaderPhase ι → Bool
  | start => false
  | looked => false
  | returned _ => false
  | _ => true

/-- The reader has the gate: it may read the metadata. -/
def ReaderPhase.holds : ReaderPhase ι → Bool
  | acquired => true
  | answered _ => true
  | leaving _ => true
  | _ => false

theorem ReaderPhase.counts_of_holds {p : ReaderPhase ι} (h : p.holds = true) : p.counts = true := by
  cases p <;> first | rfl | cases h

/-- What a reader has done to the counter and its buffer so far. -/
structure Reader.Fair (r : Reader ι) : Prop where
  net : r.net = if r.phase.counts then 1 else 0
  holds : r.phase.holds = true → r.acquired = true
  refused : r.acquired = false → r.out = r.given ∧ ∀ result, r.phase = .returned result → result = -11

/-- The step lemma of a reader: it moves the counter by what it now counts more, and it gets the
gate only where it finds no announcement. -/
theorem advance_spec {fault : μ → Option ι} {s : State μ ι} {r : Reader ι} (h : r.Fair)
    (hpos : r.phase.counts = true → 0 < s.counter) :
    (advance fault s r).1.Fair ∧
      (advance fault s r).2 + (if r.phase.counts then 1 else 0) =
        s.counter + (if (advance fault s r).1.phase.counts then 1 else 0) ∧
      ((advance fault s r).1.phase.holds = true → r.phase.holds = true ∨ s.mutating = 0) := by
  obtain ⟨phase, out, given, net, acquired⟩ := r
  obtain ⟨hnet, hholds, hrefused⟩ := h
  unfold advance
  cases phase with
  | start =>
    dsimp only
    split
    · exact ⟨⟨hnet, nofun, fun ha => ⟨(hrefused ha).1, by rintro _ ⟨⟩; rfl⟩⟩, rfl, nofun⟩
    · exact ⟨⟨hnet, nofun, fun ha => ⟨(hrefused ha).1, nofun⟩⟩, rfl, nofun⟩
  | looked =>
    have hone : net + 1 = 1 := by
      rw [show net = 0 from hnet]
      rfl
    exact ⟨⟨hone, nofun, fun ha => ⟨(hrefused ha).1, nofun⟩⟩, rfl, nofun⟩
  | counted =>
    dsimp only
    split
    · exact ⟨⟨hnet, nofun, fun ha => ⟨(hrefused ha).1, nofun⟩⟩, rfl, nofun⟩
    next hm => exact ⟨⟨hnet, fun _ => rfl, nofun⟩, rfl, fun _ => .inr (not_not.1 hm)⟩
  | undoing =>
    have hzero : net - 1 = 0 := by
      rw [show net = 1 from hnet]
      rfl
    have hcount : s.counter - 1 + 1 = s.counter + 0 := by
      have := hpos rfl
      omega
    exact ⟨⟨hzero, nofun, fun ha => ⟨(hrefused ha).1, by rintro _ ⟨⟩; rfl⟩⟩, hcount, nofun⟩
  | acquired =>
    obtain rfl : acquired = true := hholds rfl
    dsimp only
    split
    · exact ⟨⟨hnet, fun _ => rfl, nofun⟩, rfl, fun _ => .inl rfl⟩
    · exact ⟨⟨hnet, fun _ => rfl, nofun⟩, rfl, fun _ => .inl rfl⟩
  | answered result =>
    obtain rfl : acquired = true := hholds rfl
    exact ⟨⟨hnet, fun _ => rfl, nofun⟩, rfl, fun _ => .inl rfl⟩
  | leaving result =>
    obtain rfl : acquired = true := hholds rfl
    have hzero : net - 1 = 0 := by
      rw [show net = 1 from hnet]
      rfl
    have hcount : s.counter - 1 + 1 = s.counter + 0 := by
      have := hpos rfl
      omega
    exact ⟨⟨hzero, nofun, nofun⟩, hcount, nofun⟩
  | returned result => exact ⟨⟨hnet, hholds, hrefused⟩, rfl, nofun⟩

/-! ## The gate -/

/-- The announcement, the counter and the readers agree. -/
structure Guarded (s : State μ ι) : Prop where
  announced : s.mutating = if s.writer.announces then 1 else 0
  counted : s.counter = s.readers.countP (·.phase.counts)
  fair : ∀ r ∈ s.readers, r.Fair
  exclusive : s.writer = .inside → ∀ r ∈ s.readers, r.phase.holds = false

theorem Guarded.write {s : State μ ι} (h : Guarded s) (metadata : μ) :
    Guarded (write metadata s) := by
  obtain ⟨hannounced, hcounted, hfair, hexclusive⟩ := h
  unfold Gate.write
  split
  next hw => exact ⟨by rw [hannounced, hw]; rfl, hcounted, hfair, nofun⟩
  next => exact ⟨rfl, hcounted, hfair, nofun⟩
  next hw =>
    split
    next hzero =>
      -- nobody is counted, so nobody holds the gate
      refine ⟨by rw [hannounced, hw]; rfl, hcounted, hfair, fun _ r hr => ?_⟩
      rw [hcounted, List.countP_eq_zero] at hzero
      cases hholds : r.phase.holds with
      | false => rfl
      | true => exact absurd (ReaderPhase.counts_of_holds hholds) (hzero r hr)
    next => exact ⟨hannounced, hcounted, hfair, hexclusive⟩
  next => exact ⟨rfl, hcounted, hfair, nofun⟩
  next hw => exact ⟨by rw [hannounced, hw]; rfl, hcounted, hfair, nofun⟩

theorem Guarded.mutate {s : State μ ι} (h : Guarded s) (metadata : μ) :
    Guarded (mutate metadata s) := by
  unfold Gate.mutate
  split
  · exact ⟨h.announced, h.counted, h.fair, h.exclusive⟩
  · exact h

theorem Guarded.read {s : State μ ι} (h : Guarded s) (fault : μ → Option ι) {i : Nat} {r : Reader ι}
    (hi : s.readers[i]? = some r) :
    Guarded { s with
      readers := s.readers.set i (advance fault s r).1, counter := (advance fault s r).2 } := by
  obtain ⟨hlt, hget⟩ := List.getElem?_eq_some_iff.1 hi
  have hmem : r ∈ s.readers := List.mem_of_getElem? hi
  have hpos : r.phase.counts = true → 0 < s.counter := fun hc => by
    rw [h.counted]
    exact List.countP_pos_iff.2 ⟨r, hmem, hc⟩
  obtain ⟨hfair, hcount, hgate⟩ := @advance_spec _ _ fault _ _ (h.fair r hmem) hpos
  refine ⟨h.announced, ?_, fun x hx => ?_, fun hw x hx => ?_⟩
  · obtain ⟨l₁, l₂, hsplit, _, hset⟩ := @List.exists_of_set _ i (advance fault s r).1 s.readers hlt
    rw [hget] at hsplit
    have hold := h.counted
    rw [hsplit, List.countP_append, List.countP_cons] at hold
    show (advance fault s r).2 = _
    rw [hset, List.countP_append, List.countP_cons]
    omega
  · rcases List.mem_or_eq_of_mem_set hx with hx | rfl
    · exact h.fair x hx
    · exact hfair
  · rcases List.mem_or_eq_of_mem_set hx with hx | rfl
    · exact h.exclusive hw x hx
    · cases hholds : (advance fault s r).1.phase.holds with
      | false => rfl
      | true =>
        rcases hgate hholds with hr | hm
        · exact absurd (h.exclusive hw r hmem) (by simp [hr])
        · have hone := h.announced
          rw [show s.writer = .inside from hw, hm] at hone
          cases hone

theorem guarded {fault : μ → Option ι} {s : State μ ι} (h : (machine fault).Reachable s) :
    Guarded s := by
  refine h.inv (fun s hs => ?_) fun s s' hs hstep => ?_
  · obtain ⟨metadata, rfl⟩ := hs
    exact ⟨rfl, rfl, nofun, nofun⟩
  · obtain ⟨a, rfl⟩ := hstep
    cases a with
    | write metadata => exact hs.write metadata
    | mutate metadata => exact hs.mutate metadata
    | call out =>
      refine ⟨hs.announced, ?_, fun r hr => ?_, fun hw r hr => ?_⟩
      · show s.counter = List.countP _ (s.readers ++ _)
        rw [List.countP_append, hs.counted]
        rfl
      · rcases List.mem_append.1 hr with hr | hr
        · exact hs.fair r hr
        · obtain rfl := List.mem_singleton.1 hr
          exact ⟨rfl, nofun, fun _ => ⟨rfl, nofun⟩⟩
      · rcases List.mem_append.1 hr with hr | hr
        · exact hs.exclusive hw r hr
        · obtain rfl := List.mem_singleton.1 hr
          rfl
    | read i =>
      unfold perform
      dsimp only
      split
      · exact hs
      next r hi => exact hs.read fault hi

/-- The gate is exclusive: while the writer is past its wait loop and has not taken its
announcement back, no reader may read. The counter is the number of readers between their
increment and their decrement, and a reader that is refused has left it, and its buffer, alone. -/
theorem gate_exclusive {fault : μ → Option ι} {s : State μ ι} (h : (machine fault).Reachable s) :
    (s.writer = .inside → ∀ r ∈ s.readers, r.phase.holds = false) ∧
      s.counter = s.readers.countP (·.phase.counts) ∧
      ((∀ r ∈ s.readers, r.phase.counts = false) → s.counter = 0) ∧
      ∀ r ∈ s.readers, ∀ result, r.phase = .returned result → r.acquired = false →
        result = -11 ∧ r.net = 0 ∧ r.out = r.given := by
  have hg := guarded h
  refine ⟨hg.exclusive, hg.counted, fun hnone => ?_, fun r hr result hp ha => ?_⟩
  · rw [hg.counted, List.countP_eq_zero]
    intro r hr
    simp [hnone r hr]
  · obtain ⟨hout, hresult⟩ := (hg.fair r hr).refused ha
    have hnet := (hg.fair r hr).net
    rw [hp] at hnet
    exact ⟨hresult result hp, hnet, hout⟩

/-- A writer is interrupted before its wait loop by a reader, and then goes on. -/
def interrupted : State Nat Nat :=
  [.write 0, .write 0, .call 5, .read 0, .write 0].foldl (perform some)
    { metadata := 7, readers := [] }

theorem gate_exclusive_interrupted :
    interrupted.writer = .inside ∧ interrupted.readers = [⟨.returned (-11), 5, 5, 0, false⟩] ∧
      interrupted.counter = interrupted.readers.countP (·.phase.counts) := by
  have hinit : (machine some).Reachable { metadata := 7 } := .init ⟨7, rfl⟩
  have hstep : ∀ s a, (machine some).step s (perform (some : Nat → Option Nat) s a) :=
    fun _ a => ⟨a, rfl⟩
  have hreach : (machine some).Reachable interrupted := hinit.foldl hstep _
  exact ⟨by decide, by decide, (gate_exclusive hreach).2.1⟩

end Artbox.Vm.Gate
