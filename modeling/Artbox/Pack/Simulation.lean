import Artbox.Pack.Veneer

/-!
# The packed text simulates the original

An allowed word is `Tame`: it leaves the reserved registers and the stack pointer alone and does not leave the
text. So both machines go in step (`Matches`) as long as the run keeps to memory outside of a set: its own
text, what is below its stack pointer, or more. A supervisor call is one step of the original and thirty-four
of the packed text, its branch, the veneer and the host (`Matches.svc`); everything else is one step of
either (`Matches.tame`).
-/

namespace Artbox.Pack

open Bytes Words A64

/-! ## Allowed words -/

/-- What the instruction of an allowed word is: it names no reserved register, does not move the stack pointer,
and goes on to the next word or to one of the text. -/
structure Tame (textSize pc : Nat) (i : Instr) : Prop where
  not_svc : i ≠ .svc
  not_paired : i.paired = false
  names : ∀ r ∈ i.names, r ≠ 18 ∧ r ≠ 27 ∧ r ≠ 28
  next : i.straight = true ∨
    ∃ offset, i.offset = some offset ∧ offset % 4 = 0 ∧ 0 ≤ pc + offset ∧ pc + offset < textSize

/-- `signed` is the value of a two's complement field. -/
theorem signed_mod (n bits : Nat) : signed (n % 2 ^ (bits + 1)) (bits + 1) = (BitVec.ofNat (bits + 1) n).toInt := by
  have hlt : n % 2 ^ (bits + 1) < 2 ^ (bits + 1) := Nat.mod_lt _ (Nat.two_pow_pos _)
  rw [BitVec.toInt_eq_toNat_cond, BitVec.toNat_ofNat]
  generalize n % 2 ^ (bits + 1) = v at hlt
  have hpos : 0 < 2 ^ bits := Nat.two_pow_pos bits
  have hmod : (v ^^^ 2 ^ bits) % 2 ^ bits = v % 2 ^ bits := by
    rw [Nat.xor_mod_two_pow, Nat.mod_self, Nat.xor_zero]
  have hdiv : (v ^^^ 2 ^ bits) / 2 ^ bits = v / 2 ^ bits ^^^ 1 := by
    rw [Nat.xor_div_two_pow, Nat.div_self hpos]
  have hsplit := Nat.div_add_mod (v ^^^ 2 ^ bits) (2 ^ bits)
  rw [hmod, hdiv] at hsplit
  rw [signed, Nat.add_sub_cancel, Nat.one_shiftLeft, ← hsplit, Nat.pow_succ]
  rw [Nat.pow_succ] at hlt
  generalize 2 ^ bits = m at hlt hpos
  by_cases hv : v < m
  · have hzero : v / m = 0 := Nat.div_eq_of_lt hv
    rw [hzero, Nat.mod_eq_of_lt hv, if_pos (by omega), Nat.zero_xor]
    omega
  · have hone : v / m = 1 := Nat.div_eq_of_lt_le (by omega) (by omega)
    have hrest : v % m = v - m := by
      have := Nat.div_add_mod v m
      rw [hone] at this
      omega
    rw [hone, hrest, if_neg (by omega), Nat.xor_self]
    omega

theorem signed_field (word i bits : Nat) :
    signed (word >>> i &&& (2 ^ (bits + 1) - 1)) (bits + 1) = signedAt word i (bits + 1) := by
  rw [signedAt, ← signed_mod, ← Nat.and_two_pow_sub_one_eq_mod]

/-- A register of the source is a register of the instruction. -/
theorem regAt_reserved {word i : Nat} (h : word >>> i &&& 31 ≠ 18 ∧ word >>> i &&& 31 ≠ 27 ∧ word >>> i &&& 31 ≠ 28) :
    regAt word i ≠ 18 ∧ regAt word i ≠ 27 ∧ regAt word i ≠ 28 := by
  have hval : (regAt word i).val = word >>> i &&& 31 := (Nat.and_two_pow_sub_one_eq_mod (word >>> i) 5).symm
  rw [← hval] at h
  refine ⟨fun hr => h.1 ?_, fun hr => h.2.1 ?_, fun hr => h.2.2 ?_⟩ <;> rw [hr] <;> rfl

variable {image payload : List UInt8} {textSize pc word : Nat} {sites : List Nat} {o : Operands}

/-- The registers of the source are those of the instruction, at the same bits of the word. -/
theorem Allowed.names {i : Instr} {l : List Nat} (h : Allowed image textSize pc word o)
    (hnames : i.names = l.map (regAt word)) (hregisters : o.registers = l.map fun k => word >>> k &&& 31) :
    ∀ r ∈ i.names, r ≠ 18 ∧ r ≠ 27 ∧ r ≠ 28 := by
  intro r hr
  rw [hnames] at hr
  obtain ⟨k, hk, rfl⟩ := List.mem_map.1 hr
  refine regAt_reserved (h.registers _ ?_)
  rw [hregisters]
  exact List.mem_map.2 ⟨k, hk, rfl⟩

/-- A word without a target. -/
theorem Allowed.tame_straight {p : Pattern} (l : List Nat) (h : Allowed image textSize pc word o) (hp : p ∈ patterns)
    (hword : word &&& p.mask = p.value) (hi : (p.instr word).straight = true) (hpair : (p.instr word).paired = false)
    (hnames : (p.instr word).names = l.map (regAt word)) (hregisters : o.registers = l.map fun k => word >>> k &&& 31) :
    ∃ i, decode word = some i ∧ Tame textSize pc i := by
  refine ⟨p.instr word, decode_of_mem hp hword, ?_, hpair, h.names hnames hregisters, Or.inl hi⟩
  intro hsvc
  rw [hsvc] at hi
  cases hi

/-- A branch. -/
theorem Allowed.tame_branch {p : Pattern} {offset : Int} (l : List Nat) (h : Allowed image textSize pc word o)
    (hp : p ∈ patterns) (hword : word &&& p.mask = p.value) (hi : (p.instr word).offset = some (offset * 4))
    (htarget : o.target = some (pc + offset * 4))
    (hnames : (p.instr word).names = l.map (regAt word)) (hregisters : o.registers = l.map fun k => word >>> k &&& 31) :
    ∃ i, decode word = some i ∧ Tame textSize pc i := by
  refine ⟨p.instr word, decode_of_mem hp hword, ?_, ?_, h.names hnames hregisters, Or.inr ⟨offset * 4, hi, ?_, ?_⟩⟩
  · intro hsvc
    rw [hsvc] at hi
    cases hi
  · generalize p.instr word = i at hi
    cases i <;> first | rfl | cases hi
  · exact Int.mul_emod_left offset 4
  · exact h.target _ htarget

/-- Every allowed word is tame. -/
theorem Allowed.tame (h : Allowed image textSize pc word o) : ∃ i, decode word = some i ∧ Tame textSize pc i := by
  have ho := h.operands
  unfold Artbox.Pack.operands at ho
  split at ho
  next hword =>
    cases ho
    exact h.tame_straight (p := .nop) [] (by simp [patterns]) (by rw [hword]; rfl) rfl rfl rfl rfl
  split at ho
  next hword =>
    cases ho
    rcases hword with hword | hword
    · exact h.tame_straight (p := .movz) [0] (by simp [patterns]) hword rfl rfl rfl rfl
    · exact h.tame_straight (p := .movn) [0] (by simp [patterns]) hword rfl rfl rfl rfl
  split at ho
  next hword =>
    cases ho
    exact h.tame_straight (p := .mov) [0, 16] (by simp [patterns]) hword rfl rfl rfl rfl
  split at ho
  next hword =>
    cases ho
    exact h.tame_straight (p := .cmpImm) [5] (by simp [patterns]) hword rfl rfl rfl rfl
  split at ho
  next hword =>
    cases ho
    exact h.tame_straight (p := .cmp) [5, 16] (by simp [patterns]) hword rfl rfl rfl rfl
  split at ho
  next hword =>
    -- ADR is asked for one thing more
    obtain ⟨_, ho⟩ := Require.require_bind_eq_ok.1 ho
    cases ho
    exact h.tame_straight (p := .adr) [0] (by simp [patterns]) hword rfl rfl rfl rfl
  split at ho
  next hword =>
    cases ho
    have htarget := congrArg (fun d => some ((pc : Int) + d * 4)) (signed_field word 0 25)
    exact h.tame_branch (p := .b) [] (by simp [patterns]) hword rfl htarget rfl rfl
  split at ho
  next hword =>
    cases ho
    have htarget := congrArg (fun d => some ((pc : Int) + d * 4)) (signed_field word 5 18)
    exact h.tame_branch (p := .bcond) [] (by simp [patterns]) hword rfl htarget rfl rfl
  split at ho
  next hword =>
    cases ho
    have htarget := congrArg (fun d => some ((pc : Int) + d * 4)) (signed_field word 5 18)
    exact h.tame_branch (p := .cbz) [0] (by simp [patterns]) hword rfl htarget rfl rfl
  split at ho
  next hword =>
    cases ho
    rcases hword with hword | hword
    · exact h.tame_straight (p := .ldr) [0, 5] (by simp [patterns]) hword rfl rfl rfl rfl
    · exact h.tame_straight (p := .str) [0, 5] (by simp [patterns]) hword rfl rfl rfl rfl
  next => cases ho

theorem Inspected.sites_iff (h : Inspected image textSize sites) (site : Nat) :
    site ∈ sites ↔ site % 4 = 0 ∧ site < textSize ∧ field image site 4 = 0xd4000001 := by
  constructor
  · intro hmem
    exact (h.mem hmem).2
  · intro hall
    obtain ⟨hmod, hlt, hword⟩ := hall
    rw [h.sites_eq, mem_calls]
    exact ⟨site / 4, by omega, by omega, hword⟩

/-- The last word of a text is a branch. -/
theorem Inspected.decode_last {k : Nat} (h : Inspected image textSize sites) (hk : 4 * k + 4 = textSize) :
    ∃ offset, decode (field image (4 * k) 4) = some (.b offset) := by
  have hbranch := h.last
  rw [← hk, Nat.add_sub_cancel] at hbranch
  have hp : Pattern.b ∈ patterns := by simp [patterns]
  exact ⟨_, decode_of_mem hp hbranch⟩

/-! ## Host and run -/

/-- Two outcomes of a call differ in the bytes of a set at most, and the second leaves these as they were. -/
structure Alike {ω : Type} (S : Set Word) (m : Mem) (o o' : Outcome ω) : Prop where
  value : o'.value = o.value
  platform : o'.platform = o.platform
  world : o'.world = o.world
  mem : ∀ a, a ∉ S → o'.mem a = o.mem a
  kept : ∀ a, a ∈ S → o'.mem a = m a

/-- The host function is the bridge: it keeps what the C calling convention asks for, and writes, but for what
the bridge does, only to its own stack of some bytes. -/
structure Serves {ω : Type} (bridge : Bridge ω) (host : Word) (stack : Nat) (callee : State × ω → State × ω) : Prop where
  pc : ∀ c w, c.pc = host → (callee (c, w)).1.pc = c.x 30
  kept : ∀ c w, c.pc = host → ∀ q, 19 ≤ q → q ≤ 29 → (callee (c, w)).1.x q = c.x q
  sp : ∀ c w, c.pc = host → (callee (c, w)).1.sp = c.sp
  value : ∀ c w, c.pc = host → (callee (c, w)).1.x 0 = (bridge (hostCall c) (c.x 18) c.mem w).value
  platform : ∀ c w, c.pc = host → (callee (c, w)).1.x 18 = (bridge (hostCall c) (c.x 18) c.mem w).platform
  world : ∀ c w, c.pc = host → (callee (c, w)).2 = (bridge (hostCall c) (c.x 18) c.mem w).world
  mem : ∀ c w, c.pc = host → ∀ a, ¬ Below c.sp stack a →
    (callee (c, w)).1.mem a = (bridge (hostCall c) (c.x 18) c.mem w).mem a

/-- The next step of the original accesses none of the bytes of a set, nor does the bridge for it. -/
structure Clear {ω : Type} (S : Set Word) (image : List UInt8) (base : Word) (bridge : Bridge ω) (p : State × ω) :
    Prop where
  access : ∀ i, fetch image base p.1.pc = some i → ∀ a, i.Touches p.1 a → a ∉ S
  call : fetch image base p.1.pc = some .svc → ∀ m, (∀ a, a ∉ S → m a = p.1.mem a) →
    Alike S m (bridge (svcCall p.1) (p.1.x 18) p.1.mem p.2) (bridge (svcCall p.1) (p.1.x 18) m p.2)

/-- The counter is at a word of the text. -/
def InText (textSize : Nat) (base a : Word) : Prop := ∃ k, 4 * k < textSize ∧ a = base + BitVec.ofNat 64 (4 * k)

/-- Original and packed text are at the same word, and differ in the bytes of a set at most. -/
structure Matches {ω : Type} (S : Set Word) (textSize : Nat) (base host sp : Word) (p q : State × ω) : Prop where
  world : q.2 = p.2
  agree : Agree S p.1 q.1
  text : InText textSize base p.1.pc
  host : p.1.x 28 = host
  sp : p.1.sp = sp

/-- The steps of the packed text for one of the original. -/
def cost {ω : Type} (image : List UInt8) (base : Word) (p : State × ω) : Nat :=
  if fetch image base p.1.pc = some .svc then 34 else 1

/-- What the runs below are about: an inspected and rewritten text of whole words, and a host function outside of the
payload that is the bridge, with its stack among the bytes the run keeps clear of. -/
structure Setting {ω : Type} (S : Set Word) (image payload : List UInt8) (textSize : Nat) (sites : List Nat)
    (base host sp : Word) (bridge : Bridge ω) (callee : State × ω → State × ω) (stack : Nat) : Prop where
  inspected : Inspected image textSize sites
  rewritten : Rewritten image sites payload
  whole : textSize % 4 = 0
  fits : payload.length ≤ 2 ^ 64
  serves : Serves bridge host stack callee
  outside : payload.length ≤ (host - base).toNat
  below : ∀ a, Below sp (160 + stack) a → a ∈ S
  room : 160 + stack ≤ 2 ^ 64

section Run

variable {ω : Type} {S : Set Word} {base host sp : Word} {bridge : Bridge ω} {callee : State × ω → State × ω}
  {stack : Nat} {p q : State × ω}

/-- A word that is no site is the same in the payload. -/
theorem Rewritten.field_word (hr : Rewritten image sites payload) (hi : Inspected image textSize sites) {k : Nat}
    (hk : 4 * k + 4 ≤ image.length) (hsite : 4 * k ∉ sites) : field payload (4 * k) 4 = field image (4 * k) 4 := by
  refine field_congr fun j h1 h2 => hr.kept j (by omega) fun site hmem => ?_
  have h4 := (hi.mem hmem).2.1
  have hne : site ≠ 4 * k := fun h => hsite (h ▸ hmem)
  omega

/-- The counter stays in the text. -/
theorem Tame.inText {k : Nat} {i : Instr} {s : State} (h : Tame textSize (4 * k) i) (h4 : textSize % 4 = 0)
    (hk : 4 * k < textSize) (hpc : s.pc = base + BitVec.ofNat 64 (4 * k))
    (hlast : 4 * k + 4 = textSize → ∃ offset, i = .b offset) : InText textSize base (exec s i).pc := by
  have hjump : ∀ offset : Int, offset % 4 = 0 → 0 ≤ ((4 * k : Nat) : Int) + offset →
      ((4 * k : Nat) : Int) + offset < textSize → InText textSize base (s.pc + BitVec.ofInt 64 offset) := by
    intro offset hmod hlow hhigh
    obtain ⟨j, hj⟩ : ∃ j : Nat, ((4 * j : Nat) : Int) = ((4 * k : Nat) : Int) + offset :=
      ⟨(((4 * k : Nat) : Int) + offset).toNat / 4, by omega⟩
    refine ⟨j, by omega, ?_⟩
    have hoffset : offset = ((4 * j : Nat) : Int) - (4 * k : Nat) := by omega
    rw [hpc, hoffset, add_distance]
  have hnext : 4 * k + 4 ≠ textSize → InText textSize base (s.pc + 4) := by
    intro hne
    refine ⟨k + 1, by omega, ?_⟩
    rw [hpc, BitVec.add_assoc]
    bv_omega
  rcases h.next with hstraight | ⟨offset, hoffset, hmod, hlow, hhigh⟩
  · rw [exec_pc_of_straight hstraight]
    refine hnext fun heq => ?_
    obtain ⟨offset, rfl⟩ := hlast heq
    cases hstraight
  · by_cases heq : 4 * k + 4 = textSize
    · obtain ⟨offset', rfl⟩ := hlast heq
      cases hoffset
      exact hjump offset hmod hlow hhigh
    · rcases exec_pc_of_offset hoffset with hpc' | hpc'
      · rw [hpc']
        exact hnext heq
      · rw [hpc']
        exact hjump offset hmod hlow hhigh

/-- A step that is no supervisor call. -/
theorem Matches.tame {k : Nat} {i : Instr} (h : Matches S textSize base host sp p q) (h4 : textSize % 4 = 0)
    (hk : 4 * k < textSize) (hpc : p.1.pc = base + BitVec.ofNat 64 (4 * k)) (hi : Tame textSize (4 * k) i)
    (hlast : 4 * k + 4 = textSize → ∃ offset, i = .b offset) (hclear : ∀ a, i.Touches p.1 a → a ∉ S) :
    Matches S textSize base host sp (exec p.1 i, p.2) (exec q.1 i, q.2) where
  world := h.world
  agree := h.agree.exec hclear
  text := hi.inText h4 hk hpc hlast
  host := by
    have h28 : (28 : Fin 32) ∉ i.writes := fun hw => (hi.names 28 (names_of_writes hw)).2.2 rfl
    exact (exec_x h28).trans h.host
  sp := (exec_sp hi.not_paired).trans h.sp

section Call

variable {s c : State} {w : ω}

/-- The bridge does for the host's caller what it does for the original. -/
theorem Called.alike {q' : State} (hc : Called q' c) (hx : q'.x = s.x) (hmem : ∀ a, a ∉ S → q'.mem a = s.mem a)
    (hS : ∀ a, Below q'.sp 160 a → a ∈ S)
    (hclear : ∀ m, (∀ a, a ∉ S → m a = s.mem a) →
      Alike S m (bridge (svcCall s) (s.x 18) s.mem w) (bridge (svcCall s) (s.x 18) m w)) :
    Alike S c.mem (bridge (svcCall s) (s.x 18) s.mem w) (bridge (hostCall c) (c.x 18) c.mem w) := by
  have hcall : hostCall c = svcCall s := by
    rw [hc.call, svcCall, svcCall, hx]
  have h18 : c.x 18 = s.x 18 := (hc.kept 18 (by decide) (by decide)).trans (congrFun hx 18)
  rw [hcall, h18]
  refine hclear c.mem fun a ha => ?_
  have hout : ¬ Below q'.sp 160 a := fun hbelow => ha (hS a hbelow)
  rw [hc.mem a hout, hmem a ha]

/-- The host returns to the veneer, and leaves its frame as it is. -/
theorem Serves.returned {q' : State} {o : Outcome ω} (hserves : Serves bridge host stack callee) (hc : Called q' c)
    (hpc : c.pc = host) (hS : ∀ a, Below q'.sp 160 a → a ∈ S) (hstack : 160 + stack ≤ 2 ^ 64)
    (h : Alike S c.mem o (bridge (hostCall c) (c.x 18) c.mem w)) : Returned c (callee (c, w)).1 where
  pc := hserves.pc c w hpc
  kept := hserves.kept c w hpc
  sp := hserves.sp c w hpc
  frame a ha := by
    have hin : a ∈ S := by
      rw [hc.sp] at ha
      exact hS a ha.below
    rw [hserves.mem c w hpc a (ha.not_below hstack), h.kept a hin]

/-- Behind its veneer the packed text is where the original is behind its supervisor call. -/
theorem Resumed.agree {q' e : State} (h : Resumed q' (callee (c, w)).1 e) (hx : q'.x = s.x)
    (hflags : q'.flags = s.flags) (hserves : Serves bridge host stack callee) (hc : Called q' c)
    (hpc : c.pc = host) (hS : ∀ a, Below q'.sp (160 + stack) a → a ∈ S) (hstack : 160 + stack ≤ 2 ^ 64)
    (hnext : e.pc = s.pc + 4)
    (halike : Alike S c.mem (bridge (svcCall s) (s.x 18) s.mem w) (bridge (hostCall c) (c.x 18) c.mem w)) :
    Agree S (perform bridge s w).1 e where
  x := by
    funext r
    by_cases h0 : r = 0
    · rw [h0, h.result, hserves.value c w hpc, halike.value]
      rfl
    · by_cases h18 : r = 18
      · rw [h18, h.platform, hserves.platform c w hpc, halike.platform]
        rfl
      · rw [h.kept r h0 h18, congrFun hx r]
        exact (perform_x h0 h18).symm
  pc := hnext
  flags := h.flags.trans hflags
  mem a ha := by
    have hout : ¬ Below c.sp stack a := by
      rw [hc.sp]
      exact fun hbelow => ha (hS a (hbelow.of_sub hstack))
    rw [h.mem, hserves.mem c w hpc a hout, halike.mem a ha]
    rfl

end Call

/-- A supervisor call. -/
theorem Matches.svc {k site : Nat} (h : Matches S textSize base host sp p q)
    (hset : Setting S image payload textSize sites base host sp bridge callee stack)
    (hk : sites[k]? = some site) (hsite : site + 4 ≤ image.length) (hpc : p.1.pc = base + BitVec.ofNat 64 site)
    (hnext : InText textSize base (p.1.pc + 4))
    (hclear : ∀ m, (∀ a, a ∉ S → m a = p.1.mem a) →
      Alike S m (bridge (svcCall p.1) (p.1.x 18) p.1.mem p.2) (bridge (svcCall p.1) (p.1.x 18) m p.2)) :
    ∃ q', Pace.run (packed payload base host callee) 34 q = some q' ∧
      Matches S textSize base host sp (perform bridge p.1 p.2) q' := by
  obtain ⟨s, w⟩ := p
  obtain ⟨t, w'⟩ := q
  obtain ⟨hworld, hagree, -, hs28, hsp⟩ := h
  dsimp only at hworld hagree hpc hnext hs28 hsp hclear
  subst hworld
  -- at the veneer only the counter has changed
  obtain ⟨u, hu⟩ : ∃ u, u = t.jump ((veneerAt image k : Int) - site) := ⟨_, rfl⟩
  have hx : u.x = s.x := by
    rw [hu]
    exact hagree.x
  have hflags : u.flags = s.flags := by
    rw [hu]
    exact hagree.flags
  have hmem : ∀ a, a ∉ S → u.mem a = s.mem a := by
    rw [hu]
    exact hagree.mem
  have hbelow : ∀ a, Below u.sp (160 + stack) a → a ∈ S := by
    have husp : u.sp = sp := (congrFun hx 31).trans hsp
    rw [husp]
    exact hset.below
  have hframe : ∀ a, Below u.sp 160 a → a ∈ S := fun a ha => hbelow a (ha.mono (Nat.le_add_right 160 stack))
  -- the host is called as the bridge is, and returns
  have hcalled := entered u
  have hchost : (called u).pc = host := hcalled.pc.trans ((congrFun hx 28).trans hs28)
  have halike := hcalled.alike hx hmem hframe hclear
  have hreturned := hset.serves.returned hcalled hchost hframe hset.room halike
  have ht28 : t.x 28 = host := (congrFun hagree.x 28).trans hs28
  have hcu : called u = called (t.jump ((veneerAt image k : Int) - site)) := by rw [hu]
  obtain ⟨e, hrun, hresumed, hepc⟩ := hset.rewritten.run_site hset.fits hk hsite (hagree.pc.trans hpc) hcu hset.outside
    ht28 hreturned
  rw [← hu] at hresumed
  rw [hagree.pc] at hepc
  refine ⟨(e, (callee (called u, w')).2), hrun, ?_⟩
  constructor
  case world => exact (hset.serves.world _ w' hchost).trans halike.world
  case agree => exact hresumed.agree hx hflags hset.serves hcalled hchost hbelow hset.room hepc halike
  case text => exact hnext
  case host => exact (perform_x (by decide) (by decide)).trans hs28
  case sp => exact (perform_x (by decide) (by decide)).trans hsp

/-- A step of the original, and the steps of the packed text for it. -/
theorem Matches.step (h : Matches S textSize base host sp p q)
    (hset : Setting S image payload textSize sites base host sp bridge callee stack)
    (hclear : Clear S image base bridge p) :
    ∃ p' q', original image base bridge p = some p' ∧
      Pace.run (packed payload base host callee) (cost image base p) q = some q' ∧
        Matches S textSize base host sp p' q' := by
  have hi := hset.inspected
  have h4 := hset.whole
  obtain ⟨k, hk, hpc⟩ := h.text
  obtain ⟨hle, hword⟩ := hi.word k (by omega)
  have himage : image.length ≤ payload.length := by
    rw [hset.rewritten.length_eq]
    exact le_veneerAt image _
  have hfetch : fetch image base p.1.pc = decode (field image (4 * k) 4) := by
    rw [hpc]
    exact fetch_at hle (Nat.le_trans himage hset.fits)
  have hlast : 4 * k + 4 = textSize → ∃ offset, decode (field image (4 * k) 4) = some (.b offset) := hi.decode_last
  by_cases hsvc : field image (4 * k) 4 = 0xd4000001
  · have hdecode : fetch image base p.1.pc = some .svc := by
      rw [hfetch, hsvc]
      rfl
    have hmem : 4 * k ∈ sites := (hi.sites_iff (4 * k)).2 ⟨by omega, hk, hsvc⟩
    obtain ⟨n, hn⟩ := List.getElem?_of_mem hmem
    -- it is not the last word, which is a branch
    have hnext : InText textSize base (p.1.pc + 4) := by
      have hne : 4 * k + 4 ≠ textSize := by
        intro heq
        obtain ⟨offset, hb⟩ := hlast heq
        rw [← hfetch, hdecode] at hb
        cases hb
      refine ⟨k + 1, by omega, ?_⟩
      rw [hpc, BitVec.add_assoc]
      bv_omega
    obtain ⟨q', hrun, hmatches⟩ := h.svc hset hn hle hpc hnext (hclear.call hdecode)
    refine ⟨perform bridge p.1 p.2, q', original_svc hdecode, ?_, hmatches⟩
    rw [cost, if_pos hdecode]
    exact hrun
  · obtain ⟨o, ho⟩ := hword.resolve_left hsvc
    obtain ⟨i, hdecode, htame⟩ := ho.tame
    have hsite : 4 * k ∉ sites := fun hmem => hsvc (hi.mem hmem).2.2.2
    have hfetch' : fetch payload base q.1.pc = some i := by
      rw [h.agree.pc, hpc, fetch_at (Nat.le_trans hle himage) hset.fits, hset.rewritten.field_word hi hle hsite, hdecode]
    rw [hdecode] at hfetch
    have hlast' : 4 * k + 4 = textSize → ∃ offset, i = .b offset := by
      intro heq
      obtain ⟨offset, hb⟩ := hlast heq
      rw [hdecode] at hb
      exact ⟨offset, Option.some.inj hb⟩
    refine ⟨(exec p.1 i, p.2), (exec q.1 i, q.2), original_exec hfetch htame.not_svc, ?_,
      h.tame h4 hk hpc htame hlast' (hclear.access i hfetch)⟩
    have hone : fetch image base p.1.pc ≠ some .svc := by
      rw [hfetch]
      exact fun heq => htame.not_svc (Option.some.inj heq)
    rw [cost, if_neg hone]
    exact Pace.run_one.trans (packed_exec hfetch' htame.not_svc)

theorem cost_pos (p : State × ω) : 0 < cost image base p := by
  rw [cost]
  split <;> decide

end Run

/-! ## The packed text -/

/-- What a payload is to the image and its sites. -/
structure Packs (image : List UInt8) (textSize : Nat) (sites : List Nat) (payload : List UInt8) : Prop where
  /-- The sites are the supervisor calls of the text. -/
  sites_iff : ∀ site, site ∈ sites ↔ site % 4 = 0 ∧ site < textSize ∧ field image site 4 = 0xd4000001
  /-- The image changes there only, and grows at its end. -/
  appended : image.length ≤ payload.length ∧ payload.length = veneerAt image sites.length
  unchanged : ∀ k < image.length, (∀ site ∈ sites, k < site ∨ site + 4 ≤ k) → payload[k]? = image[k]?
  /-- A site is a branch to its own veneer, which is behind the image and apart from the others. -/
  branch : ∀ i site : Nat, sites[i]? = some site →
    decode (field payload site 4) = some (.b ((veneerAt image i : Int) - site))
  outside : ∀ i < sites.length, image.length ≤ veneerAt image i ∧ veneerAt image i + 128 ≤ payload.length
  apart : ∀ i j, i < j → veneerAt image i + 128 ≤ veneerAt image j
  /-- A veneer, run from any state, calls the host, and runs on from any state it returns in. -/
  veneer : payload.length ≤ 2 ^ 64 → ∀ {ω : Type} (base host : Word) (callee : State × ω → State × ω) (i site : Nat),
    sites[i]? = some site → ∀ (s : State) (w : ω), s.pc = base + BitVec.ofNat 64 (veneerAt image i) →
      ∃ c, Pace.run (packed payload base host callee) 20 (s, w) = some (c, w) ∧ Called s c ∧
        ∀ (r : State) (w' : ω), Returned c r →
          ∃ e, Pace.run (packed payload base host callee) 12 (r, w') = some (e, w') ∧ Resumed s r e ∧
            e.pc = base + BitVec.ofNat 64 (site + 4)
  /-- All other words name no reserved register and do not leave the text. -/
  tame : ∀ k, 4 * k < textSize → 4 * k ∉ sites →
    ∃ i, decode (field image (4 * k) 4) = some i ∧ Tame textSize (4 * k) i
  /-- A run of the original that keeps clear of some bytes is a run of the packed text, which differs in these bytes
  at most. They are those below its stack pointer, its text, whose sites differ in the two files, and what else
  the two memories may not have in common. -/
  simulates : textSize % 4 = 0 → payload.length ≤ 2 ^ 64 → ∀ {ω : Type} (base host : Word) (bridge : Bridge ω)
    (callee : State × ω → State × ω) (stack : Nat), Serves bridge host stack callee →
    payload.length ≤ (host - base).toNat → 160 + stack ≤ 2 ^ 64 → ∀ (S : Set Word) (s t : State) (w : ω),
    InText textSize base s.pc → s.x 28 = host → (∀ a, Below s.sp (160 + stack) a → a ∈ S) → Agree S s t →
      ∃ pace : Nat → Nat, StrictMono pace ∧ pace 0 = 0 ∧ ∀ n,
        (∀ i < n, ∀ u, Pace.run (original image base bridge) i (s, w) = some u → Clear S image base bridge u) →
        ∃ u v, Pace.run (original image base bridge) n (s, w) = some u ∧
          Pace.run (packed payload base host callee) (pace n) (t, w) = some v ∧
          v.2 = u.2 ∧ Agree S u.1 v.1 ∧ InText textSize base u.1.pc

theorem Inspected.tame (h : Inspected image textSize sites) {k : Nat} (hk : 4 * k < textSize) (hsite : 4 * k ∉ sites) :
    ∃ i, decode (field image (4 * k) 4) = some i ∧ Tame textSize (4 * k) i := by
  rcases (h.word k (by omega)).2 with hsvc | ⟨o, ho⟩
  · exact absurd ((h.sites_iff (4 * k)).2 ⟨by omega, hk, hsvc⟩) hsite
  · exact ho.tame

/-- A veneer, from any state. -/
theorem Rewritten.run_veneer {ω : Type} {base host : Word} {callee : State × ω → State × ω} {i site : Nat}
    {s : State} {w : ω} (h : Rewritten image sites payload) (hfit : payload.length ≤ 2 ^ 64) (hi : sites[i]? = some site)
    (hs : s.pc = base + BitVec.ofNat 64 (veneerAt image i)) :
    ∃ c, Pace.run (packed payload base host callee) 20 (s, w) = some (c, w) ∧ Called s c ∧
      ∀ (r : State) (w' : ω), Returned c r →
        ∃ e, Pace.run (packed payload base host callee) 12 (r, w') = some (e, w') ∧ Resumed s r e ∧
          e.pc = base + BitVec.ofNat 64 (site + 4) := by
  refine ⟨called s, h.enter hfit hi hs, entered s, fun r w' hr => ?_⟩
  have hback : r.pc = base + BitVec.ofNat 64 (veneerAt image i + 80) := by
    rw [hr.pc, (entered s).back, hs, BitVec.add_assoc]
    congr 1
    bv_omega
  obtain ⟨offset, hleave, hpc⟩ := h.leave hfit hi hback
  exact ⟨_, hleave, resumed hr offset, hpc⟩

theorem Rewritten.packs (h : Rewritten image sites payload) (hi : Inspected image textSize sites) :
    Packs image textSize sites payload where
  sites_iff := hi.sites_iff
  appended := by
    refine ⟨?_, h.length_eq⟩
    rw [h.length_eq]
    exact le_veneerAt image _
  unchanged := h.kept
  branch i site hs := decode_branch (h.site i site hs)
  outside i hlt := by
    rw [h.length_eq]
    exact ⟨le_veneerAt image i, veneerAt_le image hlt⟩
  apart i j hij := veneerAt_le image hij
  veneer hfit _ _ _ _ _ _ hs _ _ hpc := h.run_veneer hfit hs hpc
  tame _ hk hsite := hi.tame hk hsite
  simulates h4 hfit ω base host bridge callee stack hserves hhost hstack S s t w htext h28 hS hagree := by
    have hstart : Matches S textSize base host s.sp (s, w) (t, w) := ⟨rfl, hagree, htext, h28, rfl⟩
    have hset : Setting S image payload textSize sites base host s.sp bridge callee stack :=
      ⟨hi, h, h4, hfit, hserves, hhost, hS, hstack⟩
    refine ⟨Pace.pace (original image base bridge) (cost image base) (s, w), Pace.pace_strictMono cost_pos _,
      Pace.pace_zero _ _, fun n hclear => ?_⟩
    obtain ⟨u, v, hu, hv, hmatches⟩ := Pace.paced
      (fun p q hm hc => hm.step hset hc) hstart n hclear
    exact ⟨u, v, hu, hv, hmatches.world, hmatches.agree, hmatches.text⟩

theorem packed_simulates (h : inspectText image textSize = .ok sites) :
    (veneerAt image sites.length ≤ 2 ^ 27 → ∃ payload, transformed image textSize = .ok (payload, sites)) ∧
    ∀ payload sites', transformed image textSize = .ok (payload, sites') →
      sites' = sites ∧ Packs image textSize sites payload := by
  refine ⟨Inspected.transformed_ok h, fun payload sites' ht => ?_⟩
  obtain ⟨hsites, hr⟩ := Inspected.rewritten h ht
  exact ⟨hsites, hr.packs (Inspected.of_ok h)⟩

/-! ## A text of one call -/

/-- SVC, and a branch to itself. -/
def loopText : List UInt8 := [0xd4000001, 0x14000000].flatMap (writeLE 4)

/-- A bridge that answers with the number of the call. -/
def echo : Bridge Unit := fun call platform mem _ => ⟨call.number, platform, mem, ()⟩

/-- The host function for it. -/
def echoHost (p : State × Unit) : State × Unit :=
  ({ p.1 with x := Function.update p.1.x 0 (p.1.x 1), pc := p.1.x 30 }, ())

theorem echoHost_x {p : State × Unit} {r : Fin 32} (h : r ≠ 0) : (echoHost p).1.x r = p.1.x r :=
  Function.update_of_ne h _ p.1.x

theorem echoHost_serves (host : Word) : Serves echo host 0 echoHost where
  pc _ _ _ := rfl
  kept c w _ q h19 _ := by
    refine echoHost_x ?_
    intro heq
    subst heq
    exact absurd h19 (by decide)
  sp c w _ := echoHost_x (p := (c, w)) (r := 31) (by decide)
  value _ _ _ := rfl
  platform c w _ := echoHost_x (p := (c, w)) (r := 18) (by decide)
  world _ _ _ := rfl
  mem _ _ _ _ _ := rfl

theorem loopText_ok : inspectText loopText 8 = .ok [0] := by
  decide

theorem loopText_fetch {base a : Word} {i : Instr} (h : fetch loopText base a = some i) : i = .svc ∨ i = .b 0 := by
  have hall : ∀ k ≤ 4, ∀ i ∈ decode (field loopText k 4), i = .svc ∨ i = .b 0 := by
    decide
  unfold fetch at h
  dsimp only at h
  split at h
  next hk => exact hall _ (by have : loopText.length = 8 := rfl; omega) i h
  next => cases h

theorem loopText_clear (S : Set Word) (base : Word) (p : State × Unit) : Clear S loopText base echo p where
  access i hi a ha := by
    rcases loopText_fetch hi with rfl | rfl <;> cases ha
  call _ m hm := ⟨rfl, rfl, rfl, hm, fun _ _ => rfl⟩

/-- The packed text answers its call as the original does. -/
theorem packed_simulates_loop : ∃ payload, transformed loopText 8 = .ok (payload, [0]) ∧
    Packs loopText 8 [0] payload ∧
    ∀ s : State, s.pc = 0 → s.x 28 = 4096 → ∃ pace : Nat → Nat, StrictMono pace ∧ ∀ n, ∃ u v,
      Pace.run (original loopText 0 echo) n (s, ()) = some u ∧
      Pace.run (packed payload 0 4096 echoHost) (pace n) (s, ()) = some v ∧ v.1.x = u.1.x := by
  obtain ⟨hok, hpacks⟩ := packed_simulates loopText_ok
  have hlast : veneerAt loopText [0].length = 136 := by
    rw [veneerAt, align_four]
    rfl
  obtain ⟨payload, hpayload⟩ := hok ((Inspected.of_ok loopText_ok).in_reach (by decide))
  obtain ⟨_, h⟩ := hpacks payload [0] hpayload
  have hlength : payload.length = 136 := h.appended.2.trans hlast
  refine ⟨payload, hpayload, h, fun s hpc h28 => ?_⟩
  obtain ⟨pace, hpace, _, hrun⟩ := h.simulates (by decide) (by rw [hlength]; decide) 0 4096 echo echoHost 0
    (echoHost_serves 4096) (by rw [hlength]; decide) (by decide)
    {a | a.toNat < 8 ∨ Below s.sp 160 a} s s () ⟨0, by decide, hpc⟩ h28 (fun a ha => Or.inr ha) (Agree.refl s)
  refine ⟨pace, hpace, fun n => ?_⟩
  obtain ⟨u, v, hu, hv, _, hagree, _⟩ := hrun n fun _ _ _ _ => loopText_clear _ _ _
  exact ⟨u, v, hu, hv, hagree.x⟩

end Artbox.Pack
