import Artbox.Linker.Transaction

/-!
# Initialization of a group

`array_word` and `artbox_load_group_initialize`: the constructors' addresses are collected and
checked before the first of them is invoked. A callback runs guest code, which may write the modules'
memory and call the group again, so a process is a group with the calls of
`artbox_load_group_initialize` that wait for their callbacks to return, the innermost first. Its
events are the calls of the platform and of the guest in any order.
-/

namespace Artbox.Linker

open Elf Checked

/-! ## The constructors -/

/-- `array_word` -/
def Module.arrayWord (m : Module) (address : Nat) : Checked ElfError (Option Nat) :=
  match m.memory.find? fun view => view.start m.image ≤ address ∧ 8 ≤ view.bytes.length ∧
      address - view.start m.image ≤ view.bytes.length - 8 with
  | some view => do
    let word ← fetch view.bytes (address - view.start m.image) 8
    return some word
  | none =>
    match virtualSpan m.image address 8 with
    | .ok offset => do
      let word ← fetch m.image.data.bytes offset 8
      return some word
    | .error _ => .ok none

/-- `calls.push_back`, which fails at the lengths where the vector does not grow. -/
def push (full : Nat → Bool) (calls : List Nat) (address : Nat) : Checked ElfError (List Nat) := do
  reject (full calls.length) .noMemory
  return calls ++ [address]

/-- The loop over a module's array from entry `n` on. -/
def Module.collectArray (m : Module) (full : Nat → Bool) : (left n : Nat) → (calls : List Nat) →
    Checked ElfError (List Nat)
  | 0, _, calls => .ok calls
  | left + 1, n, calls => do
    let word ← m.arrayWord ((m.dynamic.initArray.address + 8 * n) % 2 ^ 64)
    let word ← require word .invalid
    let calls ← (if word ≠ 0 ∧ word ≠ uint64Max then push full calls word else .ok calls)
    collectArray m full left (n + 1) calls

/-- The number of entries that the loop over the array reads. -/
def Module.arraySize (m : Module) : Nat := (m.dynamic.initArray.size + 7) / 8

/-- The body of the loop over the initialization order. -/
def Module.collect (m : Module) (full : Nat → Bool) (calls : List Nat) : Checked ElfError (List Nat) := do
  let calls ← (if m.dynamic.init ≠ 0 then push full calls ((m.loadBias + m.dynamic.init) % 2 ^ 64) else .ok calls)
  reject (65536 < m.dynamic.initArray.size / 8) .unsupported
  m.collectArray full m.arraySize 0 calls

/-- That loop. -/
def LoadGroup.collect (g : LoadGroup) (full : Nat → Bool) : (calls : List Nat) → List Nat →
    Checked ElfError (List Nat)
  | calls, [] => .ok calls
  | calls, index :: rest => do
    let node ← g.node index
    let calls ← node.module.collect full calls
    collect g full calls rest

/-! ## The calls -/

/-- What `artbox_load_group_initialize` does before its first callback. -/
inductive Entry
  | returns (result : Option ElfError)
  | invokes (calls : List Nat)
deriving DecidableEq, Repr

/-- `artbox_load_group_initialize` up to the first callback. -/
def Group.enter (g : Group) (full : Nat → Bool) : Checked Empty (Entry × Group) :=
  match g.state with
  | .ready | .initializing => .ok (.returns none, g)
  | .created | .relocating | .failed => .ok (.returns (some .invalid), g)
  | .relocated =>
    match g.collect full [] g.initialization with
    | .ok calls =>
      if ∃ address ∈ calls, ¬ g.Executable address then .ok (.returns (some .invalid), g)
      else .ok (.invokes calls, { g with state := .initializing })
    | .error (.error .noMemory) => .ok (.returns (some .noMemory), { g with state := .failed })
    | .error (.error e) => .ok (.returns (some e), g)
    | .error .wrong => .error .wrong

/-- A group with the addresses that its pending calls have still to invoke, and what was invoked. -/
structure Process where
  group : Group
  frames : List (List Nat) := []
  invoked : List Nat := []

/-- What happens to a group. -/
inductive Event
  | relocate (host : Option Host) (heap : Heap)
  | resolver (address : Nat)
  /-- `artbox_load_group_initialize` is called. -/
  | enter (full : Nat → Bool)
  /-- The innermost callback returns. -/
  | finish (result : Option ElfError)
  /-- Somebody writes a byte of a module's memory. -/
  | write (module view offset : Nat) (byte : UInt8)

/-- A byte of a node's memory is written. -/
def Node.write (node : Node) (view offset : Nat) (byte : UInt8) : Node :=
  node.withMemory (node.module.memory.modify view fun m => { m with bytes := m.bytes.set offset byte })

namespace Process

/-- The group that `artbox_load_group_create` gives. -/
def start (g : LoadGroup) : Process := { group := .start g }

/-- The loop over the calls goes on. -/
def next (p : Process) : Process :=
  match p.frames with
  | [] => p
  | [] :: outer => { p with frames := outer, group := { p.group with state := .ready } }
  | (address :: rest) :: outer => { p with frames := rest :: outer, invoked := p.invoked ++ [address] }

/-- What an event leads to, if it can happen. -/
def step (p : Process) : Event → Option Process
  | .relocate host heap =>
    match p.group.relocate host heap with
    | .ok (_, group) => some { p with group }
    | .error _ => none
  | .resolver address => some { p with group := (p.group.setResolver address).2 }
  | .enter full =>
    match p.group.enter full with
    | .ok (.returns _, group) => some { p with group }
    | .ok (.invokes calls, group) => some ({ p with group, frames := calls :: p.frames }).next
    | .error _ => none
  | .finish none => if p.frames = [] then none else some p.next
  | .finish (some _) =>
    match p.frames with
    | [] => none
    | _ :: outer => some { p with frames := outer, group := { p.group with state := .failed } }
  | .write module view offset byte =>
    some { p with group := { p.group with
      nodes := p.group.nodes.modify module fun node => node.write view offset byte } }

end Process

/-- The runs from a process on. -/
inductive Runs (p₀ : Process) : List Event → Process → Prop
  | nil : Runs p₀ [] p₀
  | snoc {events : List Event} {p p' : Process} {e : Event} :
    Runs p₀ events p → p.step e = some p' → Runs p₀ (events ++ [e]) p'

/-! ## What is collected -/

/-- The constructors of a module: `DT_INIT` before the entries of the array, without those that are
null or -1. -/
def Module.Constructs (m : Module) (calls : List Nat) : Prop :=
  ∃ words, List.Forall₂
      (fun n word => m.arrayWord ((m.dynamic.initArray.address + 8 * n) % 2 ^ 64) = .ok (some word))
      (List.range m.arraySize) words ∧
    calls = (if m.dynamic.init ≠ 0 then [(m.loadBias + m.dynamic.init) % 2 ^ 64] else []) ++
      words.filter fun word => word ≠ 0 ∧ word ≠ uint64Max

/-- The constructors of a group, in its initialization order. -/
def LoadGroup.Constructs (g : LoadGroup) (calls : List Nat) : Prop :=
  ∃ parts, List.Forall₂ (fun index part => ∃ node, g.nodes[index]? = some node ∧ node.module.Constructs part)
    g.initialization parts ∧ calls = parts.flatten

/-- An accepted function is behind all others. -/
theorem push_ok {full : Nat → Bool} {calls calls' : List Nat} {address : Nat}
    (h : push full calls address = .ok calls') : calls' = calls ++ [address] := by
  obtain ⟨_, _, h⟩ := bind_eq_ok.1 h
  exact (Except.ok.inj h).symm

/-- An array is collected entry by entry, without its null entries. -/
theorem collectArray_ok {m : Module} {full : Nat → Bool} {left n : Nat} {calls calls' : List Nat}
    (h : m.collectArray full left n calls = .ok calls') :
    ∃ words, List.Forall₂
        (fun n word => m.arrayWord ((m.dynamic.initArray.address + 8 * n) % 2 ^ 64) = .ok (some word))
        (List.range' n left) words ∧
      calls' = calls ++ words.filter fun word => word ≠ 0 ∧ word ≠ uint64Max := by
  induction left generalizing n calls with
  | zero =>
    refine ⟨[], .nil, ?_⟩
    rw [List.filter_nil, List.append_nil]
    exact (Except.ok.inj h).symm
  | succ left ih =>
    obtain ⟨found, hfound, h⟩ := bind_eq_ok.1 h
    obtain ⟨word, hword, h⟩ := bind_eq_ok.1 h
    obtain ⟨calls₁, hcalls, h⟩ := bind_eq_ok.1 h
    obtain ⟨words, hwords, rfl⟩ := ih h
    cases found with
    | none => cases hword
    | some w =>
      obtain rfl : w = word := Except.ok.inj hword
      refine ⟨w :: words, .cons hfound hwords, ?_⟩
      by_cases hcall : w ≠ 0 ∧ w ≠ uint64Max
      · rw [if_pos hcall] at hcalls
        rw [push_ok hcalls, List.filter_cons_of_pos (by simpa using hcall), List.append_assoc]
        rfl
      · rw [if_neg hcall] at hcalls
        rw [← Except.ok.inj hcalls, List.filter_cons_of_neg (by simpa using hcall)]

/-- A module's functions are collected in their order. -/
theorem Module.collect_ok {m : Module} {full : Nat → Bool} {calls calls' : List Nat}
    (h : m.collect full calls = .ok calls') : ∃ part, m.Constructs part ∧ calls' = calls ++ part := by
  obtain ⟨calls₁, hinit, h⟩ := bind_eq_ok.1 h
  obtain ⟨_, _, h⟩ := bind_eq_ok.1 h
  obtain ⟨words, hwords, rfl⟩ := collectArray_ok h
  rw [← List.range_eq_range'] at hwords
  refine ⟨_, ⟨words, hwords, rfl⟩, ?_⟩
  rw [← List.append_assoc]
  refine congrArg (· ++ _) ?_
  split
  next hne =>
    rw [if_pos hne] at hinit
    exact push_ok hinit
  next heq =>
    rw [if_neg heq] at hinit
    rw [List.append_nil]
    exact (Except.ok.inj hinit).symm

/-- The modules' functions are collected in the order of initialization. -/
theorem LoadGroup.collect_ok {g : LoadGroup} {full : Nat → Bool} {indices calls calls' : List Nat}
    (h : g.collect full calls indices = .ok calls') :
    ∃ parts, List.Forall₂ (fun index part => ∃ node, g.nodes[index]? = some node ∧ node.module.Constructs part)
      indices parts ∧ calls' = calls ++ parts.flatten := by
  induction indices generalizing calls with
  | nil =>
    refine ⟨[], .nil, ?_⟩
    rw [List.flatten_nil, List.append_nil]
    exact (Except.ok.inj h).symm
  | cons index rest ih =>
    obtain ⟨node, hnode, h⟩ := bind_eq_ok.1 h
    obtain ⟨calls₁, hcalls, h⟩ := bind_eq_ok.1 h
    obtain ⟨part, hpart, rfl⟩ := node.module.collect_ok hcalls
    obtain ⟨parts, hparts, rfl⟩ := ih h
    refine ⟨part :: parts, .cons ⟨node, ?_, hpart⟩ hparts, ?_⟩
    · unfold LoadGroup.node at hnode
      split at hnode
      next node' hget => rw [hget, Except.ok.inj hnode]
      next => cases hnode
    · rw [List.flatten_cons, List.append_assoc]

/-! ## What an event does -/

/-- A relocation leaves the group or moves it on from `created`. -/
theorem relocate_cases {g g' : Group} {host : Option Host} {heap : Heap} {r : Option ElfError}
    (h : g.relocate host heap = .ok (r, g')) :
    g' = g ∨ g.state = .created ∧ ((∃ e, r = some e ∧ g'.state = .created) ∨ r = none ∧ g'.state = .relocated) := by
  unfold Group.relocate at h
  split at h
  · exact .inl (Prod.mk.inj (Except.ok.inj h)).2.symm
  · exact .inl (Prod.mk.inj (Except.ok.inj h)).2.symm
  · exact .inl (Prod.mk.inj (Except.ok.inj h)).2.symm
  · exact .inl (Prod.mk.inj (Except.ok.inj h)).2.symm
  · exact .inl (Prod.mk.inj (Except.ok.inj h)).2.symm
  next hstate =>
    split at h
    · obtain ⟨rfl, rfl⟩ := Prod.mk.inj (Except.ok.inj h)
      exact .inr ⟨hstate, .inr ⟨rfl, rfl⟩⟩
    next e _ =>
      obtain ⟨rfl, rfl⟩ := Prod.mk.inj (Except.ok.inj h)
      exact .inr ⟨hstate, .inl ⟨e, rfl, rfl⟩⟩
    · cases h

/-- A new resolver does not change the state. -/
theorem setResolver_state (g : Group) (address : Nat) : (g.setResolver address).2.state = g.state := by
  unfold Group.setResolver
  split <;> rfl

/-- A call returns before its first callback, or it has collected the constructors of a group that is
relocated. -/
theorem enter_cases {g g' : Group} {full : Nat → Bool} {entry : Entry} (h : g.enter full = .ok (entry, g')) :
    (∃ r, entry = .returns r) ∧ (g' = g ∨ g.state = .relocated ∧ g'.state = .failed) ∨
      g.state = .relocated ∧ g' = { g with state := .initializing } ∧
        ∃ calls, entry = .invokes calls ∧ g.Constructs calls ∧ ∀ address ∈ calls, g.Executable address := by
  unfold Group.enter at h
  split at h
  · obtain ⟨rfl, rfl⟩ := Prod.mk.inj (Except.ok.inj h)
    exact .inl ⟨⟨_, rfl⟩, .inl rfl⟩
  · obtain ⟨rfl, rfl⟩ := Prod.mk.inj (Except.ok.inj h)
    exact .inl ⟨⟨_, rfl⟩, .inl rfl⟩
  · obtain ⟨rfl, rfl⟩ := Prod.mk.inj (Except.ok.inj h)
    exact .inl ⟨⟨_, rfl⟩, .inl rfl⟩
  · obtain ⟨rfl, rfl⟩ := Prod.mk.inj (Except.ok.inj h)
    exact .inl ⟨⟨_, rfl⟩, .inl rfl⟩
  · obtain ⟨rfl, rfl⟩ := Prod.mk.inj (Except.ok.inj h)
    exact .inl ⟨⟨_, rfl⟩, .inl rfl⟩
  next hstate =>
    split at h
    next calls hcollect =>
      split at h
      · obtain ⟨rfl, rfl⟩ := Prod.mk.inj (Except.ok.inj h)
        exact .inl ⟨⟨_, rfl⟩, .inl rfl⟩
      next hexecutable =>
        obtain ⟨rfl, rfl⟩ := Prod.mk.inj (Except.ok.inj h)
        obtain ⟨parts, hparts, heq⟩ := LoadGroup.collect_ok hcollect
        refine .inr ⟨hstate, rfl, calls, rfl, ⟨parts, hparts, heq⟩, fun address hin => ?_⟩
        exact by_contra fun hnot => hexecutable ⟨address, hin, hnot⟩
    · obtain ⟨rfl, rfl⟩ := Prod.mk.inj (Except.ok.inj h)
      exact .inl ⟨⟨_, rfl⟩, .inr ⟨hstate, rfl⟩⟩
    · obtain ⟨rfl, rfl⟩ := Prod.mk.inj (Except.ok.inj h)
      exact .inl ⟨⟨_, rfl⟩, .inl rfl⟩
    · cases h

/-! ## Runs -/

variable {g : LoadGroup} {events : List Event} {p p' : Process} {e : Event}

/-- A relocation changes nothing of a process but its group. -/
theorem step_relocate {host : Option Host} {heap : Heap} (h : p.step (.relocate host heap) = some p') :
    ∃ r group, p.group.relocate host heap = .ok (r, group) ∧ p' = { p with group } := by
  cases hrelocate : p.group.relocate host heap with
  | error _ =>
    simp only [Process.step, hrelocate] at h
    cases h
  | ok r =>
    simp only [Process.step, hrelocate] at h
    exact ⟨r.1, r.2, rfl, (Option.some.inj h).symm⟩

/-- A call returns, and the group has changed at most in its state, or it goes over to the first
callback. -/
theorem step_enter {full : Nat → Bool} (h : p.step (.enter full) = some p') :
    (∃ group, p' = { p with group } ∧ (group = p.group ∨ p.group.state = .relocated ∧ group.state = .failed)) ∨
      ∃ calls, p.group.state = .relocated ∧ p.group.Constructs calls ∧
        (∀ address ∈ calls, p.group.Executable address) ∧
          p' = Process.next ⟨{ p.group with state := .initializing }, calls :: p.frames, p.invoked⟩ := by
  cases henter : p.group.enter full with
  | error _ =>
    simp only [Process.step, henter] at h
    cases h
  | ok r =>
    obtain ⟨entry, group⟩ := r
    rcases enter_cases henter with ⟨⟨_, rfl⟩, hgroup⟩ | ⟨hrelocated, rfl, calls, rfl, hconstructs, hexecutable⟩
    · simp only [Process.step, henter] at h
      exact .inl ⟨group, (Option.some.inj h).symm, hgroup⟩
    · simp only [Process.step, henter] at h
      exact .inr ⟨calls, hrelocated, hconstructs, hexecutable, (Option.some.inj h).symm⟩

/-- A relocation of the run has succeeded. -/
def Linked (g : LoadGroup) (events : List Event) : Prop :=
  ∃ before host heap after p group, events = before ++ .relocate host heap :: after ∧ Runs (.start g) before p ∧
    p.group.state = .created ∧ p.group.relocate host heap = .ok (none, group)

/-- A call of the run, behind such a relocation, has collected these constructors, which are
executable. -/
def Began (g : LoadGroup) (events : List Event) (calls : List Nat) : Prop :=
  ∃ before full after p, events = before ++ .enter full :: after ∧ Runs (.start g) before p ∧ Linked g before ∧
    p.group.state = .relocated ∧ p.group.Constructs calls ∧ ∀ address ∈ calls, p.group.Executable address

/-- What is linked stays linked. -/
theorem Linked.snoc (h : Linked g events) : Linked g (events ++ [e]) := by
  obtain ⟨before, host, heap, after, p, group, rfl, hrest⟩ := h
  exact ⟨before, host, heap, after ++ [e], p, group, by rw [List.append_assoc, List.cons_append], hrest⟩

/-- What has begun stays begun. -/
theorem Began.snoc {calls : List Nat} (h : Began g events calls) : Began g (events ++ [e]) calls := by
  obtain ⟨before, full, after, p, rfl, hrest⟩ := h
  exact ⟨before, full, after ++ [e], p, by rw [List.append_assoc, List.cons_append], hrest⟩

/-- How far a group is, by its state. -/
inductive Progress (g : LoadGroup) (events : List Event) : Process → Prop
  | created {group : Group} : group.state = .created → Progress g events ⟨group, [], []⟩
  | relocated {group : Group} : group.state = .relocated → Linked g events → Progress g events ⟨group, [], []⟩
  | initializing {group : Group} {rest invoked : List Nat} : group.state = .initializing →
    Began g events (invoked ++ rest) → Progress g events ⟨group, [rest], invoked⟩
  | ready {group : Group} {invoked : List Nat} : group.state = .ready → Began g events invoked →
    Progress g events ⟨group, [], invoked⟩
  | failed {group : Group} {invoked : List Nat} : group.state = .failed →
    (invoked = [] ∨ ∃ rest, Began g events (invoked ++ rest)) → Progress g events ⟨group, [], invoked⟩

/-- An event that leaves the state and the calls as they are. -/
theorem Progress.stays (h : Progress g events p) {group : Group} (hstate : group.state = p.group.state) :
    Progress g (events ++ [e]) { p with group } := by
  cases h with
  | created h => exact .created (hstate.trans h)
  | relocated h hlinked => exact .relocated (hstate.trans h) hlinked.snoc
  | initializing h hbegan => exact .initializing (hstate.trans h) hbegan.snoc
  | ready h hbegan => exact .ready (hstate.trans h) hbegan.snoc
  | failed h hbegan =>
    refine .failed (hstate.trans h) (hbegan.imp id ?_)
    rintro ⟨rest, hrest⟩
    exact ⟨rest, hrest.snoc⟩

/-- The loop over the calls goes on: the call that is next is invoked, or the group is ready. -/
theorem next_progress {group : Group} {rest invoked : List Nat} (hstate : group.state = .initializing)
    (h : Began g events (invoked ++ rest)) : Progress g events (Process.next ⟨group, [rest], invoked⟩) := by
  cases rest with
  | nil =>
    rw [List.append_nil] at h
    exact .ready rfl h
  | cons address rest => exact .initializing hstate (by rw [List.append_assoc]; exact h)

/-- One event. -/
theorem Progress.step (h : Progress g events p) (hruns : Runs (.start g) events p) (hstep : p.step e = some p') :
    Progress g (events ++ [e]) p' := by
  cases e with
  | relocate host heap =>
    obtain ⟨r, group, hrelocate, rfl⟩ := step_relocate hstep
    rcases relocate_cases hrelocate with heq | ⟨hcreated, hdone⟩
    · exact h.stays (by rw [heq])
    rcases hdone with ⟨_, _, hstate⟩ | ⟨rfl, hstate⟩
    · exact h.stays (hstate.trans hcreated.symm)
    · -- only a group that is created gets relocated
      cases h with
      | created _ => exact .relocated hstate ⟨events, host, heap, [], _, group, rfl, hruns, hcreated, hrelocate⟩
      | relocated h | initializing h | ready h | failed h => rw [h] at hcreated; cases hcreated
  | resolver address =>
    obtain rfl := Option.some.inj hstep
    exact h.stays (setResolver_state _ _)
  | enter full =>
    rcases step_enter hstep with ⟨group, rfl, heq | ⟨hrelocated, hfailed⟩⟩ |
      ⟨calls, hrelocated, hcalls, hexecutable, rfl⟩
    · exact h.stays (by rw [heq])
    · cases h with
      | relocated _ _ => exact .failed hfailed (.inl rfl)
      | created h | initializing h | ready h | failed h => rw [h] at hrelocated; cases hrelocated
    · cases h with
      | relocated _ hlinked =>
        exact next_progress rfl ⟨events, full, [], _, rfl, hruns, hlinked, hrelocated, hcalls, hexecutable⟩
      | created h | initializing h | ready h | failed h => rw [h] at hrelocated; cases hrelocated
  | finish result =>
    cases h with
    | initializing hstate hbegan =>
      cases result with
      | none =>
        obtain rfl := Option.some.inj hstep
        exact next_progress hstate hbegan.snoc
      | some _ =>
        obtain rfl := Option.some.inj hstep
        exact .failed rfl (.inr ⟨_, hbegan.snoc⟩)
    | created _ | relocated _ _ | ready _ _ | failed _ _ => cases result <;> cases hstep
  | write module view offset byte =>
    obtain rfl := Option.some.inj hstep
    exact h.stays rfl

/-- Every run of a created group is as far as its state says. -/
theorem Runs.progress (h : Runs (.start g) events p) : Progress g events p := by
  induction h with
  | nil => exact .created rfl
  | snoc hruns hstep ih => exact ih.step hruns hstep

/-- Behind the initialization nothing is invoked. -/
theorem ended_step (hframes : p.frames = []) (hstate : p.group.state = .ready ∨ p.group.state = .failed)
    (hstep : p.step e = some p') :
    p'.frames = [] ∧ p'.group.state = p.group.state ∧ p'.invoked = p.invoked := by
  cases e with
  | relocate host heap =>
    obtain ⟨r, group, hrelocate, rfl⟩ := step_relocate hstep
    rcases relocate_cases hrelocate with rfl | ⟨hcreated, _⟩
    · exact ⟨hframes, rfl, rfl⟩
    · rcases hstate with h | h <;> rw [h] at hcreated <;> cases hcreated
  | resolver address =>
    obtain rfl := Option.some.inj hstep
    exact ⟨hframes, setResolver_state _ _, rfl⟩
  | enter full =>
    rcases step_enter hstep with ⟨group, rfl, rfl | ⟨hrelocated, _⟩⟩ | ⟨_, hrelocated, _⟩
    · exact ⟨hframes, rfl, rfl⟩
    · rcases hstate with h | h <;> rw [h] at hrelocated <;> cases hrelocated
    · rcases hstate with h | h <;> rw [h] at hrelocated <;> cases hrelocated
  | finish result =>
    cases result with
    | none =>
      simp only [Process.step, hframes] at hstep
      cases hstep
    | some _ =>
      simp only [Process.step, hframes] at hstep
      cases hstep
  | write module view offset byte =>
    obtain rfl := Option.some.inj hstep
    exact ⟨hframes, rfl, rfl⟩

/-- Behind its end a run calls nothing more. -/
theorem Runs.ended {more : List Event} (h : Runs p more p') (hframes : p.frames = [])
    (hstate : p.group.state = .ready ∨ p.group.state = .failed) :
    p'.frames = [] ∧ p'.group.state = p.group.state ∧ p'.invoked = p.invoked := by
  induction h with
  | nil => exact ⟨hframes, rfl, rfl⟩
  | snoc _ hstep ih =>
    obtain ⟨hframes', hstate', hinvoked⟩ := ih
    obtain ⟨hframes'', hstate'', hinvoked'⟩ := ended_step hframes' (hstate'.symm ▸ hstate) hstep
    exact ⟨hframes'', hstate''.trans hstate', hinvoked'.trans hinvoked⟩

/-- Constructors run at most once and only when it is safe. In every run of a group, with calls from
inside its callbacks: at most one call waits for a callback, and only while the group is
initializing; what was invoked begins the list of constructors that one call, behind a relocation that
succeeded, has collected and found executable, and is all of it once the group is ready; nothing is
invoked by a call that finds no such list, and nothing once the group is ready or has failed. -/
theorem constructors_once (h : Runs (.start g) events p) :
    (p.frames ≠ [] ↔ p.group.state = .initializing) ∧ p.frames.length ≤ 1 ∧
    (p.invoked = [] ∨ ∃ calls, Began g events calls ∧ p.invoked <+: calls) ∧
    (p.group.state = .ready → Began g events p.invoked) ∧
    (∀ full p', p.step (.enter full) = some p' → p'.invoked ≠ p.invoked →
      p.group.state = .relocated ∧ Linked g events ∧
        ∃ calls, p.group.Constructs calls ∧ ∀ address ∈ calls, p.group.Executable address) ∧
    (p.group.state = .ready ∨ p.group.state = .failed → ∀ more p', Runs p more p' →
      p'.invoked = p.invoked ∧ p'.group.state = p.group.state) := by
  have hprogress := h.progress
  have hframes : p.frames ≠ [] ↔ p.group.state = .initializing := by
    cases hprogress with
    | initializing hstate => exact ⟨fun _ => hstate, fun _ => List.cons_ne_nil _ _⟩
    | created hstate | relocated hstate | ready hstate | failed hstate => simp [hstate]
  refine ⟨hframes, ?_, ?_, fun hready => ?_, fun full p' hstep hne => ?_, fun hended more p' hmore => ?_⟩
  · cases hprogress <;> simp
  · cases hprogress with
    | created _ | relocated _ _ => exact .inl rfl
    | initializing _ hbegan => exact .inr ⟨_, hbegan, List.prefix_append _ _⟩
    | ready _ hbegan => exact .inr ⟨_, hbegan, List.prefix_rfl⟩
    | failed _ hbegan =>
      refine hbegan.imp id ?_
      rintro ⟨rest, hrest⟩
      exact ⟨_, hrest, List.prefix_append _ _⟩
  · cases hprogress with
    | ready _ hbegan => exact hbegan
    | created hstate | relocated hstate | initializing hstate | failed hstate => rw [hstate] at hready; cases hready
  · rcases step_enter hstep with ⟨group, rfl, _⟩ | ⟨calls, hrelocated, hcalls, hexecutable, _⟩
    · exact absurd rfl hne
    · refine ⟨hrelocated, ?_, calls, hcalls, hexecutable⟩
      cases hprogress with
      | relocated _ hlinked => exact hlinked
      | created hstate | initializing hstate | ready hstate | failed hstate =>
        rw [hstate] at hrelocated
        cases hrelocated
  · have hnone : p.frames = [] := by
      by_contra hsome
      rw [hframes.1 hsome] at hended
      rcases hended with h | h <;> cases h
    obtain ⟨_, hstate, hinvoked⟩ := hmore.ended hnone hended
    exact ⟨hinvoked, hstate⟩

/-- What some events lead to. -/
def Process.steps (p : Process) : List Event → Option Process
  | [] => some p
  | e :: rest => (p.step e).bind fun p => p.steps rest

/-- Runs compose. -/
theorem Runs.steps {p₀ : Process} {more : List Event} (h : Runs p₀ events p) (hsteps : p.steps more = some p') :
    Runs p₀ (events ++ more) p' := by
  induction more generalizing events p with
  | nil =>
    rw [List.append_nil, ← Option.some.inj hsteps]
    exact h
  | cons e more ih =>
    obtain ⟨q, hq, hsteps⟩ := Option.bind_eq_some_iff.1 hsteps
    have hruns := ih (h.snoc hq) hsteps
    rw [List.append_assoc] at hruns
    exact hruns

/-- A module with code, `DT_INIT` and an array of four entries, the last of which is null; the others
are relocated. -/
def sampleConstructors : List LinkModule :=
  [{ name := some [97]
     dynamic := some (1, { sampleDynamic with
       image := { sampleImage with
         segments := sampleImage.segments.map fun s => if s.flags = 4 then { s with flags := 5 } else s }
       init := 16, initArray := { address := 560, size := 32 } })
     loadBias := 0x1000
     memory := some [⟨1, 0x100000, [0, 4, 8, 0, 0, 0].flatMap fun byte => byte :: List.replicate 7 0⟩] }]

/-- The callback of `DT_INIT` calls the group again and writes to its memory. -/
def sampleEvents : List Event :=
  [.enter fun _ => false, .relocate none sampleHeap, .enter fun _ => false, .enter fun _ => false, .write 0 0 0 9,
    .finish none, .finish none, .finish none, .finish none]

/-- The sample's four constructors are called once, providers before the root. -/
theorem constructors_once_sample : ∃ g p, create sampleConstructors (some [97]) = .ok g ∧
    Runs (.start g) sampleEvents p ∧ p.invoked = [0x1010, 0x1000, 0x1004, 0x1008] ∧ p.group.state = .ready ∧
      Began g sampleEvents p.invoked := by
  have hfacts : ∃ g ∈ (create sampleConstructors (some [97])).toOption, ∃ p ∈ (Process.start g).steps sampleEvents,
      p.invoked = [0x1010, 0x1000, 0x1004, 0x1008] ∧ p.group.state = .ready := by decide +kernel
  obtain ⟨g, hg, p, hp, hinvoked, hready⟩ := hfacts
  have hruns : Runs (.start g) sampleEvents p := Runs.nil.steps hp
  obtain ⟨_, _, _, hbegan, _⟩ := constructors_once hruns
  cases hcreate : create sampleConstructors (some [97]) with
  | ok g' =>
    rw [hcreate] at hg
    obtain rfl : g' = g := Option.some.inj hg
    exact ⟨g', p, rfl, hruns, hinvoked, hready, hbegan hready⟩
  | error _ =>
    rw [hcreate] at hg
    cases hg

end Artbox.Linker
