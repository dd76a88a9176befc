import Artbox.Lib.Bytes
import Artbox.Lib.Lockstep
import Artbox.Signals.Steps
import Artbox.Vm.Memory

/-!
# rt_sigprocmask with and without a signal queue

`artbox_kernel_call` of `core/src/kernel.c` has its own rt_sigprocmask for a thread without a queue,
on the plain field `blocked_signals`; a thread with one goes to `mask` of `core/src/signals.cpp`,
whose `change_mask` works on the state that is compared and exchanged. While nothing is pending
nobody else changes that state, so that one pass of the loop is enough (`attemptChange_eq`) and no
mask exposes a signal. Step by step the two then do the same to the guest and leave the same mask
(`procmask_agrees`), whatever the guest does with its memory in between.
-/

namespace Artbox.Signals

open Vm (Space Guest Region)

/-- What rt_sigprocmask uses of `artbox_kernel_thread`: the queue, when there is one, is its
configuration and the record of the thread. -/
structure KernelThread where
  blockedSignals : BitVec 64
  signalState : Option (Config × Thread) := none

/-- The address space and the memory of the guest. -/
structure World where
  space : Space
  guest : Guest

/-- `get64`, and the loop of the case in `kernel.c`. -/
def get64 (bytes : List UInt8) : BitVec 64 := BitVec.ofNat 64 (Bytes.readLE bytes)

/-- `put64`. -/
def put64 (value : BitVec 64) : List UInt8 := Bytes.writeLE 8 value.toNat

/-! ## Without a queue -/

namespace KernelThread

/-- The switch over `how` in `kernel.c`. -/
def setBlocked (k : KernelThread) (how : Nat) (requested : BitVec 64) : Option KernelThread :=
  match how with
  | 0 => some { k with blockedSignals := k.blockedSignals ||| requested }
  | 1 => some { k with blockedSignals := k.blockedSignals &&& ~~~requested }
  | 2 => some { k with blockedSignals := requested }
  | _ => none

/-- The end of the case in `kernel.c`: the old mask is copied out after the change. -/
def copyOut (k : KernelThread) (w : World) (previous a2 : BitVec 64) : Int × KernelThread × World :=
  if a2 = 0 then (0, k, w)
  else
    let r := w.space.write w.guest a2.toNat (put64 previous)
    (r.1, k, { w with guest := r.2 })

/-- Case 135 of `artbox_kernel_call`. -/
def sigprocmask (k : KernelThread) (w : World) (a0 a1 a2 a3 : BitVec 64) : Int × KernelThread × World :=
  if a3 ≠ 8 then (-22, k, w)
  else
    let previous := k.blockedSignals
    if a1 ≠ 0 then
      match w.space.read w.guest a1.toNat 8 with
      | (.error error, guest) => (error, k, { w with guest })
      | (.ok bytes, guest) =>
        let w := { w with guest }
        match k.setBlocked (a0.toNat % 2 ^ 32) (get64 bytes &&& ~~~0x40100) with
        | none => (-22, k, w)
        | some k => k.copyOut w previous a2
    else k.copyOut w previous a2

end KernelThread

/-! ## With a queue -/

/-- `change_mask`, where nobody else changes the state of the thread: the mask before, the thread
after, and whether the callback is called. -/
def changeMask (c : Config) (t : Thread) (how : Nat) (input : Option (BitVec 64)) :
    Except Int (BitVec 64 × Thread × Bool) :=
  let old := t.state
  match input with
  | none => .ok (old.mask, t, false)
  | some input =>
    match System.requestedMask how old.mask (input &&& ~~~unmaskable) with
    | none => .error (-22)
    | some mask =>
      let updated : Bits := { old with mask }
      let exposed := pendingSet c updated &&& ~~~updated.mask
      if exposed ≠ 0 ∧ (t.notify = false ∨ exposed &&& ~~~c.interruptBit ≠ 0) then .error (-95)
      else .ok (old.mask, { t with state := updated }, exposed ≠ 0)

/-- `mask`. -/
def mask (k : KernelThread) (c : Config) (t : Thread) (w : World) (how input out size : BitVec 64) :
    Int × KernelThread × World :=
  if size ≠ 8 then (-22, k, w)
  else
    let change (w : World) (requested : Option (BitVec 64)) : Int × KernelThread × World :=
      match changeMask c t (how.toNat % 2 ^ 32) requested with
      | .error error => (error, k, w)
      | .ok (previous, t, _) =>
        let k : KernelThread := ⟨t.state.mask, some (c, t)⟩
        if out = 0 then (0, k, w)
        else
          let r := w.space.write w.guest out.toNat (put64 previous)
          (r.1, k, { w with guest := r.2 })
    if input ≠ 0 then
      match w.space.read w.guest input.toNat 8 with
      | (.error error, guest) => (error, k, { w with guest })
      | (.ok bytes, guest) => change { w with guest } (some (get64 bytes &&& ~~~unmaskable))
    else change w none

/-- `attach`, past its checks. -/
def attach (k : KernelThread) (c : Config) (tid : Int) : KernelThread :=
  let t : Thread := { tid, state := ⟨k.blockedSignals &&& ~~~unmaskable, 0⟩ }
  ⟨t.state.mask, some (c, t)⟩

/-- `artbox_kernel_call` with number 135. -/
def KernelThread.call (k : KernelThread) (w : World) (a0 a1 a2 a3 : BitVec 64) : Int × KernelThread × World :=
  match k.signalState with
  | some (c, t) => mask k c t w a0 a1 a2 a3
  | none => k.sigprocmask w a0 a1 a2 a3

/-! ## One pass of the loop -/

/-- What a pass of the loop of `change_mask` does when the state is still what was loaded. -/
theorem attemptChange_eq {s : System} {i how : Nat} {input : BitVec 64} {t : Thread}
    (hi : s.threads[i]? = some t) :
    match changeMask s.config t how (some input) with
    | .error _ =>
      (s.attemptChange i how (input &&& ~~~unmaskable) t.state t).1.threads = s.threads ∧
        (s.attemptChange i how (input &&& ~~~unmaskable) t.state t).2 = none
    | .ok (_, t', notify) =>
      (s.attemptChange i how (input &&& ~~~unmaskable) t.state t).1.threads = s.threads.set i t' ∧
        (s.attemptChange i how (input &&& ~~~unmaskable) t.state t).2 =
          if notify then some (.changed i) else none := by
  unfold changeMask System.attemptChange
  simp only
  cases System.requestedMask how t.state.mask (input &&& ~~~unmaskable) with
  | none => exact ⟨rfl, rfl⟩
  | some mask =>
    simp only
    generalize hexposed : pendingSet s.config { t.state with mask } &&& ~~~mask = exposed
    by_cases hrefuse : exposed ≠ 0 ∧ (t.notify = false ∨ exposed &&& ~~~s.config.interruptBit ≠ 0)
    · rw [if_pos hrefuse, if_pos hrefuse]
      exact ⟨rfl, rfl⟩
    · rw [if_neg hrefuse, if_neg hrefuse, if_neg (not_not.2 rfl), System.setState_record hi]
      simp only [decide_eq_true_eq]
      split
      · exact ⟨rfl, rfl⟩
      · exact ⟨rfl, rfl⟩

/-- While nothing is pending no mask exposes a signal. -/
theorem changeMask_quiet {c : Config} {t : Thread} {how : Nat} {requested mask : BitVec 64}
    (ht : t.state = ⟨mask, 0⟩) :
    changeMask c t how (some (requested &&& ~~~unmaskable)) =
      match System.requestedMask how mask (requested &&& ~~~unmaskable) with
      | none => .error (-22)
      | some m => .ok (mask, { t with state := ⟨m, 0⟩ }, false) := by
  have hfilter : requested &&& ~~~unmaskable &&& ~~~unmaskable = requested &&& ~~~unmaskable := by
    rw [BitVec.and_assoc, BitVec.and_self]
  unfold changeMask
  simp only [ht, hfilter]
  cases System.requestedMask how mask (requested &&& ~~~unmaskable) with
  | none => rfl
  | some m =>
    have hnone : pendingSet c ⟨m, 0⟩ = 0 := by
      rw [pendingSet, standard_zero, count_zero, if_pos rfl]
      rfl
    have hexposed : pendingSet c ⟨m, 0⟩ &&& ~~~m = 0 := by
      rw [hnone]
      exact BitVec.zero_and
    simp only [hexposed]
    rw [if_neg fun hno => hno.1 rfl]
    rfl

/-- The switch of `kernel.c` and the one of `change_mask`. -/
theorem setBlocked_eq (k : KernelThread) (how : Nat) (requested : BitVec 64) :
    k.setBlocked how requested =
      (System.requestedMask how k.blockedSignals requested).map fun m => { k with blockedSignals := m } := by
  match how with
  | 0 | 1 | 2 | _ + 3 => rfl

/-! ## The two side by side -/

/-- The thread `k` without a queue and the thread `q` with one have the same mask, and nothing is
pending. -/
def Alike (c : Config) (k q : KernelThread) : Prop :=
  k.signalState = none ∧
    ∃ t : Thread, q = ⟨k.blockedSignals, some (c, t)⟩ ∧ t.state = ⟨k.blockedSignals, 0⟩

/-- A call of rt_sigprocmask, or whatever else happens: to the address space, to the memory, and
to the callback of the thread. -/
inductive Input
  | call (a0 a1 a2 a3 : BitVec 64)
  | other (f : World → World) (notify : Bool)

/-- One input. -/
def step (s : KernelThread × World) : Input → Option Int × KernelThread × World
  | .call a0 a1 a2 a3 =>
    let r := s.1.call s.2 a0 a1 a2 a3
    (some r.1, r.2.1, r.2.2)
  | .other f notify =>
    (none, { s.1 with signalState := s.1.signalState.map fun q => (q.1, { q.2 with notify }) }, f s.2)

/-- One call. -/
theorem Alike.call {c : Config} {k q : KernelThread} (h : Alike c k q) (w : World) (a0 a1 a2 a3 : BitVec 64) :
    (k.call w a0 a1 a2 a3).1 = (q.call w a0 a1 a2 a3).1 ∧
      Alike c (k.call w a0 a1 a2 a3).2.1 (q.call w a0 a1 a2 a3).2.1 ∧
      (k.call w a0 a1 a2 a3).2.2 = (q.call w a0 a1 a2 a3).2.2 := by
  obtain ⟨hk, t, rfl, ht⟩ := h
  have hq : Alike c k ⟨k.blockedSignals, some (c, t)⟩ := ⟨hk, t, rfl, ht⟩
  unfold KernelThread.call
  rw [hk]
  simp only
  unfold KernelThread.sigprocmask mask
  by_cases hsize : a3 ≠ 8
  · rw [if_pos hsize, if_pos hsize]
    exact ⟨rfl, hq, rfl⟩
  rw [if_neg hsize, if_neg hsize]
  simp only
  by_cases hin : a1 ≠ 0
  · rw [if_pos hin, if_pos hin]
    generalize w.space.read w.guest a1.toNat 8 = answer
    obtain ⟨result, guest⟩ := answer
    cases result with
    | error e => exact ⟨rfl, hq, rfl⟩
    | ok bytes =>
      simp only
      rw [changeMask_quiet ht, setBlocked_eq, show (0x40100 : BitVec 64) = unmaskable from rfl]
      cases System.requestedMask (a0.toNat % 2 ^ 32) k.blockedSignals (get64 bytes &&& ~~~unmaskable) with
      | none => exact ⟨rfl, hq, rfl⟩
      | some m =>
        have hq' : Alike c { k with blockedSignals := m } ⟨m, some (c, { t with state := ⟨m, 0⟩ })⟩ :=
          ⟨hk, _, rfl, rfl⟩
        simp only [Option.map_some]
        unfold KernelThread.copyOut
        split
        · exact ⟨rfl, hq', rfl⟩
        · exact ⟨rfl, hq', rfl⟩
  · rw [if_neg hin, if_neg hin]
    unfold changeMask KernelThread.copyOut
    simp only [ht]
    split
    · exact ⟨rfl, hq, rfl⟩
    · exact ⟨rfl, hq, rfl⟩

/-- One input. -/
theorem Alike.step {c : Config} {k q : KernelThread} (h : Alike c k q) (w : World) (a : Input) :
    (step (k, w) a).1 = (step (q, w) a).1 ∧ Alike c (step (k, w) a).2.1 (step (q, w) a).2.1 ∧
      (step (k, w) a).2.2 = (step (q, w) a).2.2 := by
  cases a with
  | call a0 a1 a2 a3 =>
    obtain ⟨hanswer, halike, hworld⟩ := h.call w a0 a1 a2 a3
    exact ⟨congrArg some hanswer, halike, hworld⟩
  | other f notify =>
    obtain ⟨hk, t, rfl, ht⟩ := h
    refine ⟨rfl, ⟨?_, { t with notify }, rfl, ht⟩, rfl⟩
    show k.signalState.map _ = none
    rw [hk]
    rfl

/-- Over every sequence of calls, and of whatever the guest does in between, a thread without a
queue and the same thread attached to one give the same results, read and write the same bytes of
the guest and have the same mask. -/
theorem procmask_agrees (k : KernelThread) (hk : k.signalState = none)
    (hmask : k.blockedSignals &&& unmaskable = 0) (c : Config) (tid : Int) (w : World) (l : List Input) :
    let plain := Lockstep.run step (k, w) l
    let queued := Lockstep.run step (attach k c tid, w) l
    plain.1 = queued.1 ∧ plain.2.2 = queued.2.2 ∧
      ∃ t, queued.2.1 = ⟨plain.2.1.blockedSignals, some (c, t)⟩ ∧
        t.state = ⟨plain.2.1.blockedSignals, 0⟩ := by
  have hkeep : k.blockedSignals &&& ~~~unmaskable = k.blockedSignals := by
    apply BitVec.eq_of_getLsbD_eq
    intro n hn
    have hbit : (k.blockedSignals &&& unmaskable).getLsbD n = false := by
      rw [hmask]
      exact BitVec.getLsbD_zero
    rw [BitVec.getLsbD_and] at hbit
    rw [BitVec.getLsbD_and, BitVec.getLsbD_not]
    cases hb : k.blockedSignals.getLsbD n with
    | false => rfl
    | true =>
      rw [hb, Bool.true_and] at hbit
      rw [hbit]
      simp [hn]
  have hstart : Alike c k (attach k c tid) := by
    refine ⟨hk, { tid, state := ⟨k.blockedSignals, 0⟩ }, ?_, rfl⟩
    unfold attach
    rw [hkeep]
  have hstep : ∀ (s t : KernelThread × World) (a : Input), Alike c s.1 t.1 ∧ s.2 = t.2 →
      (step s a).1 = (step t a).1 ∧ Alike c (step s a).2.1 (step t a).2.1 ∧ (step s a).2.2 = (step t a).2.2 := by
    rintro ⟨k, w⟩ ⟨q, _⟩ a ⟨hR, rfl⟩
    exact hR.step w a
  obtain ⟨hanswers, halike, hworld⟩ := Lockstep.run_agrees
    (R := fun s t : KernelThread × World => Alike c s.1 t.1 ∧ s.2 = t.2) hstep
    (s := (k, w)) (t := (attach k c tid, w)) ⟨hstart, rfl⟩ l
  obtain ⟨_, t, ht, hstate⟩ := halike
  exact ⟨hanswers, hworld, t, ht, hstate⟩

/-- A thread that blocks SIGUSR1. -/
def sampleThread : KernelThread := { blockedSignals := 0x200 }

/-- A page with the mask of SIGUSR2 and SIGKILL at its start. -/
def sampleWorld : World where
  space :=
    { pageSize := 4096, limit := 8192, regionLimit := 1
      regions := [Region.uniform 65536 4096 1 { mapped := true, protection := 3 }] }
  guest := { byte := fun n => if n = 65537 then 9 else 0 }

/-- Block what the page says, restore the mask that was copied out, and give a bad pointer. -/
def sampleCalls : List Input := [.call 0 65536 65544 8, .call 2 65544 65552 8, .call 0 0 64 8]

/-- SIGUSR2 is blocked and SIGKILL is not; both old masks are copied out; the bad pointer is refused. -/
theorem procmask_agrees_sample :
    let queued := Lockstep.run step (attach sampleThread ⟨1, 33, 4⟩ 7, sampleWorld) sampleCalls
    queued.1 = [some 0, some 0, some (-14)] ∧
      queued.2.2.guest.range 65544 16 = put64 0x200 ++ put64 0xa00 ∧ queued.2.1.blockedSignals = 0x200 := by
  obtain ⟨hanswers, hworld, t, hqueued, _⟩ :=
    procmask_agrees sampleThread rfl (by decide) ⟨1, 33, 4⟩ 7 sampleWorld sampleCalls
  have hplain : (Lockstep.run step (sampleThread, sampleWorld) sampleCalls).1 = [some 0, some 0, some (-14)] ∧
      (Lockstep.run step (sampleThread, sampleWorld) sampleCalls).2.2.guest.range 65544 16 =
        put64 0x200 ++ put64 0xa00 ∧
      (Lockstep.run step (sampleThread, sampleWorld) sampleCalls).2.1.blockedSignals = 0x200 := by
    decide
  dsimp only
  rw [← hanswers, ← hworld, hqueued]
  exact hplain

end Artbox.Signals
