import Artbox.Lib.A64
import Artbox.Pack.Rewrite
import Mathlib.Data.Fintype.Basic
import Mathlib.Tactic.FinCases
import Mathlib.Tactic.IntervalCases

/-!
# Running a veneer

The two machines of a packed text. `original` runs the image, and a bridge performs its supervisor calls.
`packed` runs the payload, and what lies outside of it is the host: a function, which is called at its
address and returns. Code is fetched from the image or the payload as it is loaded at a base, for its
mapping is never writable; loads and stores go to the memory, which is one for guest and host.

A veneer goes in two parts, before the call (`entered`) and after it (`resumed`). What the host keeps in
between is `Returned`: the saved registers, the stack pointer, and the frame above it.
-/

namespace Artbox.Pack

open Bytes Words A64

/-! ## The machines -/

/-- What the bridge is called with: the guest context, the number of the call, its arguments. -/
@[ext]
structure Call where
  context : Word
  number : Word
  arguments : Fin 6 → Word

/-- The call a supervisor call stands for. -/
def svcCall (s : State) : Call where
  context := s.x 27
  number := s.x 8
  arguments i := s.x (i.castLE (by decide))

/-- The call of a host function, by the C calling convention. -/
def hostCall (s : State) : Call where
  context := s.x 0
  number := s.x 1
  arguments i := s.x ((i.natAdd 2).castLE (by decide))

/-- What a call leaves: its result, the platform register x18, the memory, and the host. -/
structure Outcome (ω : Type) where
  value : Word
  platform : Word
  mem : Mem
  world : ω

/-- The dispatcher behind x28, as a function of the call, x18, the memory and the host. -/
abbrev Bridge (ω : Type) := Call → Word → Mem → ω → Outcome ω

variable {ω : Type}

/-- A supervisor call performed by the bridge. -/
def perform (bridge : Bridge ω) (s : State) (w : ω) : State × ω :=
  let o := bridge (svcCall s) (s.x 18) s.mem w
  ({ (s.put 0 o.value).put 18 o.platform with mem := o.mem }.next, o.world)

/-- A step of the original text. -/
def original (image : List UInt8) (base : Word) (bridge : Bridge ω) : State × ω → Option (State × ω) := fun p =>
  match fetch image base p.1.pc with
  | some .svc => some (perform bridge p.1 p.2)
  | some i => some (exec p.1 i, p.2)
  | none => none

/-- A step of the packed text, or the call of the host function. Supervisor calls are not performed. -/
def packed (payload : List UInt8) (base host : Word) (callee : State × ω → State × ω) :
    State × ω → Option (State × ω) := fun p =>
  match fetch payload base p.1.pc with
  | some .svc => none
  | some i => some (exec p.1 i, p.2)
  | none => if p.1.pc = host then some (callee p) else none

variable {image payload : List UInt8} {base host : Word} {bridge : Bridge ω} {callee : State × ω → State × ω}
  {s : State} {w : ω} {i : Instr}

/-- The original executes every other instruction as it is. -/
theorem original_exec (h : fetch image base s.pc = some i) (hi : i ≠ .svc) :
    original image base bridge (s, w) = some (exec s i, w) := by
  dsimp only [original]
  rw [h]
  cases i <;> first | rfl | exact absurd rfl hi

/-- The original has the bridge perform its supervisor calls. -/
theorem original_svc (h : fetch image base s.pc = some .svc) :
    original image base bridge (s, w) = some (perform bridge s w) := by
  dsimp only [original]
  rw [h]

/-- The packed text executes what is no supervisor call as it is. -/
theorem packed_exec (h : fetch payload base s.pc = some i) (hi : i ≠ .svc) :
    packed payload base host callee (s, w) = some (exec s i, w) := by
  dsimp only [packed]
  rw [h]
  cases i <;> first | rfl | exact absurd rfl hi

/-- At the address of the host the packed text is in the callee. -/
theorem packed_host (h : fetch payload base s.pc = none) (hpc : s.pc = host) :
    packed payload base host callee (s, w) = some (callee (s, w)) := by
  dsimp only [packed]
  rw [h]
  exact if_pos hpc

/-- A supervisor call keeps all registers but two. -/
theorem perform_x {r : Fin 32} (h0 : r ≠ 0) (h18 : r ≠ 18) : (perform bridge s w).1.x r = s.x r :=
  (State.put_x_of_ne h18).trans (State.put_x_of_ne h0)

/-! ## The code of a veneer -/

/-- The registers of the frame, in its order. The flags are behind them. -/
def saved : List (Fin 32) := [1, 2, 3, 4, 5, 6, 7, 8, 9, 10, 11, 12, 13, 14, 15, 16, 17, 30]

/-- Up to the call. -/
def entryCode : List Instr :=
  [.stp .pre 1 2 31 (-160), .stp .offset 3 4 31 16, .stp .offset 5 6 31 32, .stp .offset 7 8 31 48,
   .stp .offset 9 10 31 64, .stp .offset 11 12 31 80, .stp .offset 13 14 31 96, .stp .offset 15 16 31 112,
   .stp .offset 17 30 31 128, .mrs 9, .str 9 31 144, .mov 7 5, .mov 6 4, .mov 5 3, .mov 4 2, .mov 3 1,
   .mov 2 0, .mov 1 8, .mov 0 27]

/-- Behind the call, up to the branch back. -/
def exitCode : List Instr :=
  [.ldr 9 31 144, .msr 9, .ldp .offset 3 4 31 16, .ldp .offset 5 6 31 32, .ldp .offset 7 8 31 48,
   .ldp .offset 9 10 31 64, .ldp .offset 11 12 31 80, .ldp .offset 13 14 31 96, .ldp .offset 15 16 31 112,
   .ldp .offset 17 30 31 128, .ldp .post 1 2 31 160]

/-- The words of a veneer are the entry code, the call and the exit code. -/
theorem decode_veneerWords : veneerWords.map decode = (entryCode ++ .blr 28 :: exitCode).map some := by
  decide +kernel

/-- The entry code has no branch. -/
theorem entryCode_straight : ∀ i ∈ entryCode, i.straight := by
  decide

/-- The exit code has no branch. -/
theorem exitCode_straight : ∀ i ∈ exitCode, i.straight := by
  decide

/-- The registers that a veneer keeps as they are. -/
theorem entryCode_writes : ∀ r : Fin 32, 18 ≤ r → r ≤ 29 → ∀ i ∈ entryCode ++ [.blr 28], r ∉ i.writes := by
  decide

/-- The exit code leaves the registers that a callee keeps. -/
theorem exitCode_writes : ∀ r : Fin 32, 18 ≤ r → r ≤ 29 → ∀ i ∈ exitCode, r ∉ i.writes := by
  decide

/-- A register is the result, the platform register, saved, the stack pointer or kept by a callee. -/
theorem register_cases : ∀ r : Fin 32, r = 0 ∨ r = 18 ∨ r ∈ saved ∨ r = 31 ∨ 19 ≤ r ∧ r ≤ 29 := by
  decide

/-! ## Up to the call -/

/-- The state in which the host is called. -/
def called (s : State) : State := exec (execs s entryCode) (.blr 28)

/-- What the host finds, by the state before the veneer. -/
structure Called (s c : State) : Prop where
  pc : c.pc = s.x 28
  call : hostCall c = svcCall s
  back : c.x 30 = s.pc + 80
  sp : c.sp = s.sp - 160
  kept : ∀ r, 18 ≤ r → r ≤ 29 → c.x r = s.x r
  mem : ∀ a, ¬ Below s.sp 160 a → c.mem a = s.mem a

/-- The first pair moves the stack pointer down. -/
theorem add_down (a : Word) : a + BitVec.ofInt 64 (-160) = a - 160 := by
  have hneg : BitVec.ofInt 64 (-160) = -160 := by decide
  rw [hneg, BitVec.sub_eq_add_neg]

/-- The words of the frame. -/
def frameWords (s : State) : List Word := saved.map s.x ++ [s.flags.toWord]

theorem length_frameWords (s : State) : (frameWords s).length = 19 := rfl

/-- Only the frame below the stack was written when the host is called. -/
theorem called_mem (s : State) : (called s).mem = save s.mem (s.sp - 160) (frameWords s) := by
  rw [← add_down]
  simp [called, frameWords, execs, entryCode, exec, save, saved, State.write, State.rebase, State.reg, State.put, State.next,
    State.sp, Index.address, Index.base, Function.update, BitVec.add_assoc]

/-- The host finds the guest's registers in the frame. -/
theorem entered (s : State) : Called s (called s) where
  pc := rfl
  call := by
    refine Call.ext rfl rfl (funext fun i => ?_)
    fin_cases i <;> rfl
  back := by
    show (execs s entryCode).pc + 4 = s.pc + 80
    have hlength : BitVec.ofNat 64 (4 * entryCode.length) + 4 = 80 := by decide
    rw [execs_pc entryCode_straight, BitVec.add_assoc, hlength]
  sp := add_down s.sp
  kept r h1 h2 := by
    have hcalled : called s = execs s (entryCode ++ [.blr 28]) := by
      rw [execs_append]
      rfl
    rw [hcalled, execs_x (entryCode_writes r h1 h2)]
  mem a ha := by
    rw [called_mem]
    refine save_outside (by rw [length_frameWords]; decide) fun hin => ha ?_
    have hframe : Within (s.sp - 160) 160 a := Nat.lt_of_lt_of_le hin (by rw [length_frameWords]; decide)
    exact hframe.below

/-! ## Behind the call -/

/-- What a callee keeps by the C calling convention, when it returns. -/
structure Returned (c r : State) : Prop where
  pc : r.pc = c.x 30
  kept : ∀ q, 19 ≤ q → q ≤ 29 → r.x q = c.x q
  sp : r.sp = c.sp
  frame : ∀ a, Within c.sp 160 a → r.mem a = c.mem a

/-- What the guest finds behind its supervisor call: `s` is before the veneer, `r` behind the host. -/
structure Resumed (s r e : State) : Prop where
  result : e.x 0 = r.x 0
  kept : ∀ q, q ≠ 0 → q ≠ 18 → e.x q = s.x q
  platform : e.x 18 = r.x 18
  flags : e.flags = s.flags
  mem : e.mem = r.mem

/-- A saved register is loaded from its place. -/
theorem exitCode_x (r : State) {k : Nat} {q : Fin 32} (h : saved[k]? = some q) :
    (execs r exitCode).x q = load r.mem (r.sp + BitVec.ofNat 64 (8 * k)) := by
  have hk : k < 18 := (List.getElem?_eq_some_iff.1 h).1
  interval_cases k <;> cases h <;>
    simp [execs, exitCode, exec, State.rebase, State.reg, State.put, State.next, State.setFlags, State.sp,
      Index.address, Index.base, Function.update, BitVec.add_assoc]

/-- The words of the frame are still there behind the host. -/
theorem Returned.load {r : State} (h : Returned (called s) r) {k : Nat} {v : Word}
    (hk : (frameWords s)[k]? = some v) :
    load r.mem (r.sp + BitVec.ofNat 64 (8 * k)) = v := by
  have hlt : k < 19 := (List.getElem?_eq_some_iff.1 hk).1
  have hkept : Words.load r.mem (r.sp + BitVec.ofNat 64 (8 * k)) =
      Words.load (called s).mem (r.sp + BitVec.ofNat 64 (8 * k)) := by
    refine load_congr fun a ha => h.frame a ?_
    rw [← h.sp]
    unfold Within at ha ⊢
    bv_omega
  rw [hkept, h.sp, (entered s).sp, called_mem]
  exact load_save (by rw [length_frameWords]; decide) hk

/-- The exit code loads the saved registers back. -/
theorem Returned.load_saved {r : State} (h : Returned (called s) r) {k : Nat} {q : Fin 32} (hk : saved[k]? = some q) :
    (execs r exitCode).x q = s.x q := by
  rw [exitCode_x r hk]
  refine h.load ?_
  have hlt : k < saved.length := (List.getElem?_eq_some_iff.1 hk).1
  rw [frameWords, List.getElem?_append_left (by rwa [List.length_map]), List.getElem?_map, hk]
  rfl

/-- Behind the exit code the guest finds its registers and the call's result. -/
theorem resumed {r : State} (h : Returned (called s) r) (offset : Int) :
    Resumed s r (exec (execs r exitCode) (.b offset)) where
  result := rfl
  kept q h0 h18 := by
    show (execs r exitCode).x q = s.x q
    rcases register_cases q with hq | hq | hq | hq | ⟨h19, h29⟩
    · exact absurd hq h0
    · exact absurd hq h18
    · obtain ⟨k, hk⟩ := List.getElem?_of_mem hq
      exact h.load_saved hk
    · have hup : r.sp + BitVec.ofInt 64 160 = s.sp := by
        rw [h.sp, (entered s).sp]
        exact BitVec.sub_add_cancel s.sp 160
      rw [hq]
      exact hup
    · have h18 : 18 ≤ q := Fin.le_trans (by decide) h19
      rw [execs_x (exitCode_writes q h18 h29), h.kept q h19 h29, (entered s).kept q h18 h29]
  platform := rfl
  flags := by
    have hflags : load r.mem (r.sp + BitVec.ofNat 64 (8 * 18)) = s.flags.toWord := h.load rfl
    show Flags.ofWord (load r.mem (r.sp + 144)) = s.flags
    exact (congrArg Flags.ofWord hflags).trans (Flags.ofWord_toWord s.flags)
  mem := rfl

/-! ## In the payload -/

/-- The word `branch` makes is the branch it was asked for. -/
theorem decode_branch {source target word : Nat} (h : branch source target = .ok word) :
    decode word = some (.b ((target : Int) - source)) := by
  obtain ⟨⟨hdvd, hlow, hhigh⟩, rfl⟩ := branch_eq_ok.1 h
  generalize hd : ((target : Int) - source) / 4 = d
  have hdistance : (target : Int) - source = d * 4 := by omega
  have hbits : BitVec.ofNat 26 (d % 0x4000000).toNat = BitVec.ofInt 26 d := by
    apply BitVec.eq_of_toNat_eq
    rw [BitVec.toNat_ofNat, BitVec.toNat_ofInt]
    omega
  have hd26 : (BitVec.ofInt 26 d).toInt = d := by
    rw [BitVec.toInt_ofInt]
    exact Int.bmod_eq_of_le (by omega) (by omega)
  rw [decode_b (by omega), hbits, hd26, hdistance]

section Payload

variable {sites : List Nat} {k site : Nat}

/-- Every veneer lies inside the payload. -/
theorem Rewritten.veneerAt_le_length (h : Rewritten image sites payload) (hk : sites[k]? = some site) :
    veneerAt image k + 128 ≤ payload.length := by
  rw [h.length_eq]
  exact veneerAt_le image (List.getElem?_eq_some_iff.1 hk).1

/-- A word of a veneer. -/
theorem Rewritten.field_veneer (h : Rewritten image sites payload) (hk : sites[k]? = some site) {back j word : Nat}
    (hback : branch (veneerAt image k + 124) (site + 4) = .ok back) (hj : (veneerWords ++ [back])[j]? = some word) :
    field payload (veneerAt image k + 4 * j) 4 = word := by
  have hj32 : j < 32 := by
    have hlt := (List.getElem?_eq_some_iff.1 hj).1
    rwa [List.length_append, length_veneerWords, List.length_singleton] at hlt
  have hcode : (payload.drop (veneerAt image k)).take 128 = (veneerWords ++ [back]).flatMap (writeLE 4) := by
    obtain ⟨back', hback', hcode⟩ := veneer_eq_ok.1 (h.veneer k site hk)
    rw [hback] at hback'
    cases hback'
    exact hcode
  have hword : word < 2 ^ 32 := by
    rcases List.mem_append.1 (List.mem_of_getElem? hj) with hmem | hmem
    · exact veneerWords_lt word hmem
    · rw [List.mem_singleton.1 hmem]
      exact branch_lt hback
  rw [← field_slice payload (show 4 * j + 4 ≤ 128 by omega), hcode, field_flatMap_writeLE hj]
  exact Nat.mod_eq_of_lt hword

/-- The branch back of a veneer is in range. -/
theorem Rewritten.branch_back (h : Rewritten image sites payload) (hk : sites[k]? = some site) :
    ∃ back, branch (veneerAt image k + 124) (site + 4) = .ok back := by
  obtain ⟨back, hback, _⟩ := veneer_eq_ok.1 (h.veneer k site hk)
  exact ⟨back, hback⟩

/-- At a site the packed text branches to its veneer. -/
theorem Rewritten.fetch_site (h : Rewritten image sites payload) (hfit : payload.length ≤ 2 ^ 64)
    (hk : sites[k]? = some site) (hsite : site + 4 ≤ image.length) :
    fetch payload base (base + BitVec.ofNat 64 site) = some (.b ((veneerAt image k : Int) - site)) := by
  have hle := h.veneerAt_le_length hk
  have himage := le_veneerAt image k
  rw [fetch_at (by omega) hfit]
  exact decode_branch (h.site k site hk)

/-- In a veneer it fetches the veneer's instructions. -/
theorem Rewritten.fetch_veneer (h : Rewritten image sites payload) (hfit : payload.length ≤ 2 ^ 64)
    (hk : sites[k]? = some site) {j : Nat} (hj : (entryCode ++ .blr 28 :: exitCode)[j]? = some i) :
    fetch payload base (base + BitVec.ofNat 64 (veneerAt image k + 4 * j)) = some i := by
  obtain ⟨back, hback⟩ := h.branch_back hk
  have hdecode : (veneerWords.map decode)[j]? = some (some i) := by
    rw [decode_veneerWords, List.getElem?_map, hj]
    rfl
  rw [List.getElem?_map] at hdecode
  obtain ⟨word, hword, hi⟩ := Option.map_eq_some_iff.1 hdecode
  have hj31 : j < veneerWords.length := (List.getElem?_eq_some_iff.1 hword).1
  have hword' : (veneerWords ++ [back])[j]? = some word := by
    rw [List.getElem?_append_left hj31]
    exact hword
  have hle := h.veneerAt_le_length hk
  rw [length_veneerWords] at hj31
  rw [fetch_at (by omega) hfit, h.field_veneer hk hback hword']
  exact hi

/-- At the end of a veneer it branches behind the site. -/
theorem Rewritten.fetch_back (h : Rewritten image sites payload) (hfit : payload.length ≤ 2 ^ 64)
    (hk : sites[k]? = some site) :
    fetch payload base (base + BitVec.ofNat 64 (veneerAt image k + 124)) =
      some (.b (((site + 4 : Nat) : Int) - (veneerAt image k + 124 : Nat))) := by
  obtain ⟨back, hback⟩ := h.branch_back hk
  have hle := h.veneerAt_le_length hk
  have hword : (veneerWords ++ [back])[31]? = some back := List.getElem?_concat_length
  rw [fetch_at (by omega) hfit, h.field_veneer (j := 31) hk hback hword]
  exact decode_branch hback

/-- The first twenty steps of a veneer call the host. -/
theorem Rewritten.enter (h : Rewritten image sites payload) (hfit : payload.length ≤ 2 ^ 64)
    (hk : sites[k]? = some site) (hs : s.pc = base + BitVec.ofNat 64 (veneerAt image k)) :
    Pace.run (packed payload base host callee) 20 (s, w) = some (called s, w) := by
  have hentry : Pace.run (packed payload base host callee) 19 (s, w) = some (execs s entryCode, w) := by
    refine run_execs entryCode_straight fun j i hj t ht => packed_exec ?_ ?_
    · have hmem : (entryCode ++ .blr 28 :: exitCode)[j]? = some i := by
        rw [List.getElem?_append_left (List.getElem?_eq_some_iff.1 hj).1]
        exact hj
      rw [ht, hs, BitVec.add_assoc, ← BitVec.ofNat_add]
      exact h.fetch_veneer hfit hk hmem
    · intro heq
      subst heq
      exact absurd (entryCode_straight _ (List.mem_of_getElem? hj)) (by decide)
  have hcall : fetch payload base (execs s entryCode).pc = some (.blr 28) := by
    rw [execs_pc entryCode_straight, hs, BitVec.add_assoc, ← BitVec.ofNat_add]
    exact h.fetch_veneer (j := 19) hfit hk rfl
  exact Pace.run_append hentry (Pace.run_one.trans (packed_exec hcall nofun))

/-- Behind the host twelve more steps lead back behind the site. -/
theorem Rewritten.leave (h : Rewritten image sites payload) (hfit : payload.length ≤ 2 ^ 64)
    (hk : sites[k]? = some site) {r : State} (hr : r.pc = base + BitVec.ofNat 64 (veneerAt image k + 80)) :
    ∃ offset, Pace.run (packed payload base host callee) 12 (r, w) = some (exec (execs r exitCode) (.b offset), w) ∧
      (exec (execs r exitCode) (.b offset)).pc = base + BitVec.ofNat 64 (site + 4) := by
  have hexit : Pace.run (packed payload base host callee) 11 (r, w) = some (execs r exitCode, w) := by
    refine run_execs exitCode_straight fun j i hj t ht => packed_exec ?_ ?_
    · have hmem : (entryCode ++ .blr 28 :: exitCode)[20 + j]? = some i := by
        have hbehind : 20 + j - entryCode.length = j + 1 := by
          show 20 + j - 19 = j + 1
          omega
        rw [List.getElem?_append_right (Nat.le_trans (by decide) (Nat.le_add_right 20 j)), hbehind]
        exact hj
      have hplace : veneerAt image k + 80 + 4 * j = veneerAt image k + 4 * (20 + j) := by omega
      rw [ht, hr, BitVec.add_assoc, ← BitVec.ofNat_add, hplace]
      exact h.fetch_veneer hfit hk hmem
    · intro heq
      subst heq
      exact absurd (exitCode_straight _ (List.mem_of_getElem? hj)) (by decide)
  have hpc : (execs r exitCode).pc = base + BitVec.ofNat 64 (veneerAt image k + 124) := by
    rw [execs_pc exitCode_straight, hr, BitVec.add_assoc, ← BitVec.ofNat_add]
    rfl
  have hback : fetch payload base (execs r exitCode).pc =
      some (.b (((site + 4 : Nat) : Int) - (veneerAt image k + 124 : Nat))) := by
    rw [hpc]
    exact h.fetch_back hfit hk
  refine ⟨_, Pace.run_append hexit (Pace.run_one.trans (packed_exec hback nofun)), ?_⟩
  show (execs r exitCode).pc + BitVec.ofInt 64 _ = _
  rw [hpc]
  exact add_distance base _ _

/-- The host is called, and returns to where its caller says. -/
theorem run_host {c : State} (hhost : payload.length ≤ (host - base).toNat) (hc : c.pc = host) :
    Pace.run (packed payload base host callee) 1 (c, w) = some (callee (c, w)) := by
  refine Pace.run_one.trans (packed_host ?_ hc)
  rw [hc]
  exact fetch_outside hhost

/-- From a site through its veneer and the host, and back behind the site. -/
theorem Rewritten.run_site (h : Rewritten image sites payload) (hfit : payload.length ≤ 2 ^ 64)
    (hk : sites[k]? = some site) (hsite : site + 4 ≤ image.length) (hs : s.pc = base + BitVec.ofNat 64 site) {c : State}
    (hc : c = called (s.jump ((veneerAt image k : Int) - site))) (hhost : payload.length ≤ (host - base).toNat)
    (h28 : s.x 28 = host) (hreturned : Returned c (callee (c, w)).1) :
    ∃ e, Pace.run (packed payload base host callee) 34 (s, w) = some (e, (callee (c, w)).2) ∧
      Resumed (s.jump ((veneerAt image k : Int) - site)) (callee (c, w)).1 e ∧ e.pc = s.pc + 4 := by
  subst hc
  have hfetch : fetch payload base s.pc = some (.b ((veneerAt image k : Int) - site)) := by
    rw [hs]
    exact h.fetch_site hfit hk hsite
  have hpc : (s.jump ((veneerAt image k : Int) - site)).pc = base + BitVec.ofNat 64 (veneerAt image k) := by
    show s.pc + BitVec.ofInt 64 _ = _
    rw [hs, add_distance]
  have hjump : Pace.run (packed payload base host callee) 1 (s, w) =
      some (s.jump ((veneerAt image k : Int) - site), w) := Pace.run_one.trans (packed_exec hfetch nofun)
  have h28' : (s.jump ((veneerAt image k : Int) - site)).x 28 = host := h28
  generalize s.jump ((veneerAt image k : Int) - site) = q at hpc hjump h28' hreturned ⊢
  -- the three parts of the way, and the host between the last two
  have henter : Pace.run (packed payload base host callee) 20 (q, w) = some (called q, w) := h.enter hfit hk hpc
  have hcall : Pace.run (packed payload base host callee) 1 (called q, w) = some (callee (called q, w)) :=
    run_host hhost ((entered q).pc.trans h28')
  have hback : (callee (called q, w)).1.pc = base + BitVec.ofNat 64 (veneerAt image k + 80) := by
    rw [hreturned.pc, (entered q).back, hpc, BitVec.add_assoc]
    congr 1
    bv_omega
  generalize callee (called q, w) = result at hcall hreturned hback ⊢
  obtain ⟨r, w'⟩ := result
  obtain ⟨offset, hleave, hend⟩ : ∃ offset, Pace.run (packed payload base host callee) 12 (r, w') =
      some (exec (execs r exitCode) (.b offset), w') ∧
      (exec (execs r exitCode) (.b offset)).pc = base + BitVec.ofNat 64 (site + 4) := h.leave hfit hk hback
  have hresumed := resumed hreturned offset
  generalize exec (execs r exitCode) (.b offset) = e at hleave hend hresumed
  refine ⟨e, Pace.run_append hjump (Pace.run_append henter (Pace.run_append hcall hleave)), hresumed, ?_⟩
  rw [hend, hs, BitVec.add_assoc]
  congr 1
  bv_omega

end Payload

end Artbox.Pack
