import Artbox.Linker.Relocation

/-!
# A group is relocated as a whole

Copies have the bytes of what they are copied from, and a relocation asks no more of a view than its
bytes and its segment (`placed_restore`). What the group answers over opened tables does not go wrong
(`resolve_safe`, `bindTls_records`), so that each module of the scope is staged as `relocateWith_safe`
says, or nothing has changed.
-/

namespace Artbox.Linker

open Elf Checked

/-! ## Copies -/

/-- The copies of some views are at other addresses. -/
def Copies : (memory copies : List Memory) → Prop :=
  List.Forall₂ fun view copy => copy.segmentIndex = view.segmentIndex ∧ copy.bytes = view.bytes

section Copies

variable {memory copies views : List Memory} {image : Image}

/-- What is staged is a copy at other addresses. -/
theorem stage_copies (memory : List Memory) (buffer : Nat → Nat) :
    Copies memory (memory.mapIdx fun n view => { view with address := buffer n }) := by
  induction memory generalizing buffer with
  | nil => exact .nil
  | cons view memory ih =>
    rw [List.mapIdx_cons]
    exact .cons ⟨rfl, rfl⟩ (ih fun n => buffer (n + 1))

/-- A copy has the same bytes. -/
theorem Copies.bytes (h : Copies memory copies) (i : Nat) : copies[i]?.map (·.bytes) = memory[i]?.map (·.bytes) := by
  induction h generalizing i with
  | nil => rfl
  | cons hview _ ih =>
    cases i with
    | zero => exact congrArg some hview.2
    | succ i => exact ih i

/-- Bytes are read from a copy as from the original. -/
theorem Copies.byteAt (h : Copies memory copies) : byteAt copies = byteAt memory := by
  funext v o
  have hbytes := h.bytes v
  unfold Elf.byteAt
  cases hm : memory[v]? with
  | none =>
    rw [hm] at hbytes
    rw [Option.map_eq_none_iff.1 hbytes]
  | some m =>
    rw [hm] at hbytes
    obtain ⟨c, hc, heq⟩ := Option.map_eq_some_iff.1 hbytes
    rw [hc]
    show c.bytes[o]? = m.bytes[o]?
    rw [heq]

/-- Words are read from a copy as from the original. -/
theorem Copies.wordAt (h : Copies memory copies) : wordAt copies = wordAt memory := by
  funext v o
  have hbytes := h.bytes v
  unfold Elf.wordAt
  cases hm : memory[v]? with
  | none =>
    rw [hm] at hbytes
    rw [Option.map_eq_none_iff.1 hbytes]
  | some m =>
    rw [hm] at hbytes
    obtain ⟨c, hc, heq⟩ := Option.map_eq_some_iff.1 hbytes
    rw [hc]
    show BitVec.ofNat 64 (Bytes.field c.bytes o 8) = BitVec.ofNat 64 (Bytes.field m.bytes o 8)
    rw [heq]

/-- A relocation has the same target in a copy. -/
theorem Copies.target (h : Copies memory copies) : target image copies = target image memory := by
  funext address width
  have hfrom : ∀ i, targetFrom image address width i copies = targetFrom image address width i memory := by
    induction h with
    | nil => exact fun _ => rfl
    | @cons view copy _ _ hview _ ih =>
      intro i
      have hstart : copy.start image = view.start image := by
        unfold Memory.start
        rw [hview.1]
      unfold targetFrom
      rw [hstart, hview.2, ih]
  unfold Elf.target
  rw [hfrom]

/-- Restoring views takes the copies' bytes back to the original addresses. -/
theorem restore_copies (h : Copies memory copies) (hshape : SameShape copies views) :
    Copies views (restore memory views) ∧ SameShape memory (restore memory views) := by
  induction h generalizing views with
  | nil =>
    obtain rfl := List.map_eq_nil_iff.1 hshape
    exact ⟨.nil, rfl⟩
  | @cons view copy _ _ hview _ ih =>
    obtain ⟨v, rest, rfl, hfirst, hrest⟩ := List.map_eq_cons_iff.1 hshape
    obtain ⟨hcopies, hsame⟩ := ih hrest
    have hsegment : v.segmentIndex = copy.segmentIndex := congrArg (·.1) hfirst
    have hlength : v.bytes.length = copy.bytes.length := congrArg (·.2.2) hfirst
    refine ⟨.cons ⟨?_, rfl⟩ hcopies, ?_⟩
    · show view.segmentIndex = v.segmentIndex
      rw [hsegment, hview.1]
    · show (view.segmentIndex, view.address, v.bytes.length) :: _ = Memory.shape view :: _
      rw [hlength, hview.2]
      exact congrArg _ hsame

/-- A relocation of copies, put in place, is one of the views. -/
theorem placed_restore {d : Elf.Dynamic} {B : (type symbol : Nat) → (addend value argument : BitVec 64) → Prop}
    {es : List Entry} (hcopies : Copies memory copies) (h : Placed d B copies es views) :
    Placed d B memory es (restore memory views) := by
  obtain ⟨hrestored, hshape⟩ := restore_copies hcopies h.shape
  refine ⟨hshape, ?_, ?_⟩
  · rw [hrestored.wordAt, ← hcopies.wordAt, ← hcopies.target]
    exact h.targets
  · rw [hrestored.byteAt, ← hcopies.byteAt, ← hcopies.target]
    exact h.others

end Copies

/-! ## What the group answers -/

/-- An answer that is not out of bounds is safe. -/
theorem answer_safe {x : Checked Empty (Option ElfError × Nat)} (h : x ≠ .error .wrong) :
    Safe (answer x) fun _ => True := by
  match x with
  | .ok (none, _) => exact Safe.ok trivial
  | .ok (some e, _) => exact Safe.fail e
  | .error .wrong => exact absurd rfl h

/-- Trying one after the other is safe if both are. -/
theorem orElse_safe {α : Type} {first second : Checked ElfError α} (hfirst : Safe first fun _ => True)
    (hsecond : Safe second fun _ => True) : Safe (orElse first second) fun _ => True := by
  unfold orElse
  split
  · exact hsecond
  · exact hfirst

namespace LoadGroup

variable {g : LoadGroup} {modules : List Module} {root : Nat}

/-- The tables of all modules were opened. -/
def Opened (g : LoadGroup) : Prop :=
  ∀ node ∈ g.nodes, ∃ image d, dynamicOpen image d = .ok (none, node.module.dynamic)

/-- The tables of a module that was opened are valid. -/
theorem Opened.valid (h : g.Opened) {module : Nat} {node : Node} (hnode : g.nodes[module]? = some node) :
    node.module.dynamic.Valid := by
  obtain ⟨image, d, hopen⟩ := h node (List.mem_of_getElem? hnode)
  exact ((openDynamic_safe image).of_ok (openDynamic_of_ok hopen)).2

/-- A module of the scope is in the table of nodes. -/
theorem node_safe (h : Created modules root g) {module : Nat} (hscope : module ∈ g.scope) :
    Safe (g.node module) fun node => g.nodes[module]? = some node := by
  have hlt := h.inside module hscope
  rw [← h.nodes, List.length_map] at hlt
  unfold node
  rw [List.getElem?_eq_getElem hlt]
  exact Safe.ok rfl

/-- A symbol of a module of the scope is resolved within bounds. -/
theorem resolve_safe (h : Created modules root g) (hopen : g.Opened) (host : Option Host) {module : Nat}
    (hscope : module ∈ g.scope) (index : Nat) : Safe (g.resolve host module index) fun _ => True := by
  unfold resolve
  refine Safe.bind (node_safe h hscope) fun node hnode => ?_
  have hvalid := (hopen.valid hnode).toSound
  refine Safe.bind (dynamicSymbol_safe hvalid.strings hvalid.symbols index) fun symbol _ => ?_
  refine Safe.bind (dynamicVersion_safe hvalid index) fun version _ => ?_
  refine orElse_safe (Safe.ite (fun _ => ?_) fun _ => Safe.fail _) (orElse_safe ?_ ?_)
  · exact answer_safe (probe_not_wrong h hopen hscope)
  · exact answer_safe (Searches.not_wrong h hopen ⟨g.scope, lookup_eq, fun _ hi => hi⟩)
  · cases host with
    | none => exact Safe.fail _
    | some host => exact Safe.lift fun _ _ => trivial

/-- `resolve` where it does not go wrong. -/
def resolver (g : LoadGroup) (host : Option Host) (module : Nat) : Resolver := fun index =>
  match g.resolve host module index with
  | .ok value => .ok value
  | .error (.error e) => .error e
  | .error .wrong => .error .invalid

/-- The resolver is asked what `resolve` answers. -/
theorem asks_resolver (h : Created modules root g) (hopen : g.Opened) (host : Option Host) {module : Nat}
    (hscope : module ∈ g.scope) : asks (g.resolver host module) = g.resolve host module := by
  funext index
  have hsafe := resolve_safe h hopen host hscope index
  unfold asks resolver
  cases hresolve : g.resolve host module index with
  | ok value => rfl
  | error stop =>
    cases stop with
    | error e => rfl
    | wrong => exact absurd hresolve hsafe.not_wrong

/-- Checking a thread-local symbol reads nothing out of bounds. -/
theorem tlsSymbol_safe (node : Node) (s : Symbol) : Safe (tlsSymbol node s) fun _ => True := by
  unfold tlsSymbol
  refine Safe.bind Safe.reject fun _ _ => ?_
  refine Safe.bind Safe.reject fun _ _ => ?_
  exact Safe.pure trivial

/-- Searching the scope for a thread-local symbol is safe. -/
theorem tlsSearch_safe (h : Created modules root g) (hopen : g.Opened) (name : List UInt8)
    (version : Option (List UInt8)) {indices : List Nat} (hindices : ∀ i ∈ indices, i ∈ g.scope) :
    Safe (g.tlsSearch name version indices) fun _ => True := by
  induction indices with
  | nil => exact Safe.ok trivial
  | cons index rest ih =>
    have hrest := ih fun i hi => hindices i (List.mem_cons_of_mem _ hi)
    unfold tlsSearch
    refine Safe.bind (node_safe h (hindices index List.mem_cons_self)) fun node hnode => ?_
    have hlookup := lookupVersion_safe (hopen.valid hnode).toSound name version
    cases hfound : lookupVersion node.module.dynamic name version with
    | ok candidate => exact Safe.bind (tlsSymbol_safe node candidate) fun _ _ => Safe.pure trivial
    | error stop =>
      cases stop with
      | wrong => exact absurd hfound hlookup.not_wrong
      | error e =>
        cases e with
        | notFound => exact hrest
        | invalid | unsupported | noMemory => exact Safe.fail _

/-- Placing what a descriptor names reads nothing out of bounds. -/
theorem tlsPlace_safe (h : Created modules root g) (hopen : g.Opened) {module : Nat} (hscope : module ∈ g.scope)
    (index : Nat) : Safe (g.tlsPlace module index) fun _ => True := by
  unfold tlsPlace
  refine Safe.bind (node_safe h hscope) fun origin horigin => ?_
  have hvalid := (hopen.valid horigin).toSound
  refine Safe.ite (fun _ => Safe.bind Safe.reject fun _ _ => Safe.pure trivial) fun _ => ?_
  refine Safe.bind (dynamicSymbol_safe hvalid.strings hvalid.symbols index) fun s _ => ?_
  refine Safe.bind (dynamicVersion_safe hvalid index) fun version _ => ?_
  refine Safe.ite (fun _ => tlsSymbol_safe origin s) fun _ => ?_
  refine Safe.bind (tlsSearch_safe h hopen s.name (versionName version) fun _ hi => hi) fun found _ => ?_
  cases found with
  | some place => exact Safe.pure trivial
  | none =>
    exact Safe.ite (fun _ => tlsSymbol_safe origin s) fun _ => Safe.bind Safe.reject fun _ _ => Safe.pure trivial

/-- What a descriptor of a module gets: the resolver, and one of the arguments, which has the place
that the descriptor stands for. -/
def Described (g : LoadGroup) (resolver : BitVec 64) (record : Nat → Option (BitVec 64)) (module : Nat)
    (arguments : List Argument) (symbol : Nat) (addend value argument : BitVec 64) : Prop :=
  value = resolver ∧ ∃ n id offset, record n = some argument ∧ g.tlsPlace module symbol = .ok (id, offset) ∧
    arguments[n]? = some { address := argument, id, offset := offset + addend }

/-- Descriptors take arguments one behind the other and never give one back. -/
theorem bindTls_records (h : Created modules root g) (hopen : g.Opened) (resolver : BitVec 64)
    (record : Nat → Option (BitVec 64)) {module : Nat} (hscope : module ∈ g.scope) :
    Records (g.bindTls resolver record module) (· <+: ·) (g.Described resolver record module) where
  answers := by
    intro arguments index addend
    unfold bindTls
    refine Safe.bind Safe.reject fun _ _ => ?_
    refine Safe.bind Safe.reject fun _ _ => ?_
    refine Safe.bind (tlsPlace_safe h hopen hscope index).self fun place hplace => ?_
    refine Safe.bind Safe.reject fun _ _ => ?_
    refine Safe.bind (Safe.require fun _ hrecord => hrecord) fun address hrecord => ?_
    refine Safe.pure ⟨List.prefix_append _ _, rfl, arguments.length, place.1, place.2, hrecord, hplace, ?_⟩
    exact List.getElem?_concat_length
  refl := fun _ => List.prefix_rfl
  trans := fun h h' => h.trans h'
  keep := by
    rintro arguments _ symbol addend value argument ⟨rest, rfl⟩ ⟨hvalue, n, id, offset, hrecord, hplace, hn⟩
    refine ⟨hvalue, n, id, offset, hrecord, hplace, ?_⟩
    rw [List.getElem?_append_left (List.getElem?_eq_some_iff.1 hn).1]
    exact hn

end LoadGroup

/-! ## Staging -/

/-- A module of a group whose memory is relocated: each target has its value, a descriptor's argument
being one of those given. -/
def Relinked (g : Group) (host : Option Host) (heap : Heap) (arguments : List Argument) (module : Nat) (node : Node)
    (memory : List Memory) : Prop :=
  ∃ es, node.module.dynamic.entries = some es ∧
    Placed node.module.dynamic
      (Assigned node.module.dynamic (BitVec.ofNat 64 node.module.loadBias) (some (g.resolver host module))
        (g.Described g.tlsResolver heap.record module arguments))
      node.module.memory es memory

/-- What is staged for a module. -/
def Staging.For (g : Group) (host : Option Host) (heap : Heap) (arguments : List Argument) (module : Nat)
    (s : Staging) : Prop :=
  s.module = module ∧ ∃ node, g.nodes[module]? = some node ∧ s.stats = node.module.dynamic.stats ∧
    Relinked g host heap arguments module node (restore node.module.memory s.views)

section Staging

variable {g : Group} {modules : List Module} {root : Nat} {host : Option Host} {heap : Heap}

/-- More arguments do not matter. -/
theorem Staging.For.mono {arguments arguments' : List Argument} {module : Nat} {s : Staging}
    (hopen : g.Opened) (hcreated : Created modules root g.toLoadGroup) (hscope : module ∈ g.scope)
    (hgrows : arguments <+: arguments') (h : s.For g host heap arguments module) :
    s.For g host heap arguments' module := by
  obtain ⟨hmodule, node, hnode, hstats, es, hes, hplaced⟩ := h
  refine ⟨hmodule, node, hnode, hstats, es, hes, hplaced.shape, fun e he => ?_, hplaced.others⟩
  obtain ⟨view, offset, htarget, hvalue⟩ := hplaced.targets e he
  refine ⟨view, offset, htarget, ?_⟩
  unfold Assigned at hvalue ⊢
  split
  next htype =>
    rw [if_pos htype] at hvalue
    exact (LoadGroup.bindTls_records hcreated hopen g.tlsResolver heap.record hscope).keep hgrows hvalue
  next htype =>
    rw [if_neg htype] at hvalue
    exact hvalue

/-- Staging a module only adds arguments, and what is staged is relocated. -/
theorem stageModule_safe (host : Option Host) (heap : Heap) (hopen : g.Opened)
    (hcreated : Created modules root g.toLoadGroup) {module : Nat} (hscope : module ∈ g.scope)
    (arguments : List Argument) :
    Safe (g.stageModule host heap arguments module) fun r =>
      arguments <+: r.2 ∧ r.1.For g host heap r.2 module := by
  unfold Group.stageModule
  refine Safe.bind (LoadGroup.node_safe hcreated hscope) fun node hnode => ?_
  refine Safe.bind Safe.reject fun _ _ => ?_
  rw [← LoadGroup.asks_resolver hcreated hopen host hscope]
  refine Safe.bind (relocateWith_safe (some (g.resolver host module)) (hopen.valid hnode)
    (LoadGroup.bindTls_records hcreated hopen g.tlsResolver heap.record hscope) (heap.planned module) arguments)
    fun r hr => ?_
  obtain ⟨hstats, hgrows, es, hes, hplaced⟩ := hr
  exact Safe.pure ⟨hgrows, rfl, node, hnode, hstats, es, hes, placed_restore (stage_copies _ _) hplaced⟩

/-- Staging the scope adds arguments module by module, and relocates what is staged. -/
theorem stageScope_safe (host : Option Host) (heap : Heap) (hopen : g.Opened)
    (hcreated : Created modules root g.toLoadGroup) {scope : List Nat} (hscope : ∀ i ∈ scope, i ∈ g.scope)
    (arguments : List Argument) :
    Safe (g.stageScope host heap arguments scope) fun r =>
      arguments <+: r.2 ∧ List.Forall₂ (fun module s => s.For g host heap r.2 module) scope r.1 := by
  induction scope generalizing arguments with
  | nil => exact Safe.ok ⟨List.prefix_rfl, .nil⟩
  | cons module rest ih =>
    have hmodule := hscope module List.mem_cons_self
    unfold Group.stageScope
    refine Safe.bind (stageModule_safe host heap hopen hcreated hmodule arguments) fun r hr => ?_
    refine Safe.bind (ih (fun i hi => hscope i (List.mem_cons_of_mem _ hi)) r.2) fun t ht => ?_
    exact Safe.pure ⟨hr.1.trans ht.1, .cons (hr.2.mono hopen hcreated hmodule ht.1) ht.2⟩

end Staging

/-! ## Putting the copies in place -/

namespace Group

variable {g : Group}

/-- A group but for its memory, its statistics, its arguments and its state. -/
def Same (g g' : Group) : Prop :=
  g'.scope = g.scope ∧ g'.initialization = g.initialization ∧ g'.tlsTemplates = g.tlsTemplates ∧
    g'.tlsResolver = g.tlsResolver

/-- Accepting touches only memory, statistics, arguments and state. -/
theorem accept_same (staging : List Staging) : Same g (staging.foldl accept g) := by
  induction staging generalizing g with
  | nil => exact ⟨rfl, rfl, rfl, rfl⟩
  | cons s staging ih => exact ih (g := g.accept s)

/-- A module that was not staged keeps its memory and its statistics. -/
theorem accept_other {staging : List Staging} {i : Nat} (h : ∀ s ∈ staging, s.module ≠ i) :
    (staging.foldl accept g).nodes[i]? = g.nodes[i]? ∧ (staging.foldl accept g).stats[i]? = g.stats[i]? := by
  induction staging generalizing g with
  | nil => exact ⟨rfl, rfl⟩
  | cons s staging ih =>
    have hs := h s List.mem_cons_self
    obtain ⟨hnodes, hstats⟩ := ih (g := g.accept s) fun t ht => h t (List.mem_cons_of_mem _ ht)
    show ((staging.foldl accept (g.accept s)).nodes[i]? = _) ∧ (staging.foldl accept (g.accept s)).stats[i]? = _
    rw [hnodes, hstats]
    refine ⟨?_, List.getElem?_set_ne hs⟩
    show (g.nodes.modify s.module _)[i]? = _
    rw [List.getElem?_modify_ne _ _ hs]

/-- A module that was staged gets the staged bytes at its own addresses. -/
theorem accept_node {staging : List Staging} (hnodup : (staging.map (·.module)).Nodup) {s : Staging}
    (hs : s ∈ staging) {node : Node} (hnode : g.nodes[s.module]? = some node) (hstats : s.module < g.stats.length) :
    (staging.foldl accept g).nodes[s.module]? = some (node.withMemory (restore node.module.memory s.views)) ∧
      (staging.foldl accept g).stats[s.module]? = some s.stats := by
  induction staging generalizing g with
  | nil => cases hs
  | cons t staging ih =>
    obtain ⟨hfirst, hrest⟩ := List.nodup_cons.1 hnodup
    rcases List.mem_cons.1 hs with rfl | hmem
    · have hother : ∀ t ∈ staging, t.module ≠ s.module := fun t ht heq =>
        hfirst (List.mem_map.2 ⟨t, ht, heq⟩)
      obtain ⟨hn, hst⟩ := accept_other (g := g.accept s) hother
      show ((staging.foldl accept (g.accept s)).nodes[s.module]? = _) ∧
        (staging.foldl accept (g.accept s)).stats[s.module]? = _
      rw [hn, hst]
      refine ⟨?_, List.getElem?_set_self hstats⟩
      show (g.nodes.modify s.module _)[s.module]? = _
      rw [List.getElem?_modify_eq, hnode]
      rfl
    · have hne : t.module ≠ s.module := fun heq => hfirst (List.mem_map.2 ⟨s, hmem, heq.symm⟩)
      refine ih (g := g.accept t) hrest hmem ?_ ?_
      · show (g.nodes.modify t.module _)[s.module]? = _
        rw [List.getElem?_modify_ne _ _ hne]
        exact hnode
      · show s.module < (g.stats.set t.module t.stats).length
        rw [List.length_set]
        exact hstats

end Group

/-! ## The whole -/

/-- A group is relocated as a whole or not at all: in every group that is created over opened tables,
whatever the host answers and the allocations come to, the call does not go wrong; if it fails the
group is what it was; if not, each module of the scope has its own relocation of the memory that it
had, no other module has changed, and a further call changes nothing. -/
theorem relocate_transactional {manifest : List LinkModule} {root : List UInt8} {created : LoadGroup}
    (h : create manifest (some root) = .ok created) (hopen : created.Opened) (resolver : BitVec 64)
    (host : Option Host) (heap : Heap) {g : Group} (hg : g = { Group.start created with tlsResolver := resolver }) :
    (∃ r, g.relocate host heap = .ok r) ∧
    (∀ e g', g.relocate host heap = .ok (some e, g') → g' = g) ∧
    ∀ g', g.relocate host heap = .ok (none, g') → g.Same g' ∧ g'.state = .relocated ∧
      (∀ i, i ∉ g.scope → g'.nodes[i]? = g.nodes[i]? ∧ g'.stats[i]? = g.stats[i]?) ∧
      (∀ i ∈ g.scope, ∃ node memory, g.nodes[i]? = some node ∧ g'.nodes[i]? = some (node.withMemory memory) ∧
        g'.stats[i]? = some node.module.dynamic.stats ∧
          Relinked g host heap g'.tlsArguments i node memory) ∧
      ∀ host' heap', g'.relocate host' heap' = .ok (none, g') := by
  obtain ⟨modules, _, _, hcreated⟩ := (create_safe manifest root).of_ok h
  have hto : g.toLoadGroup = created := by rw [hg]; rfl
  have hstate : g.state = .created := by rw [hg]; rfl
  have harguments : g.tlsArguments = [] := by rw [hg]; rfl
  have hstats : g.stats.length = g.nodes.length := by
    rw [hg]
    exact List.length_map _
  rw [← hto] at hcreated hopen
  have hsafe := stageScope_safe host heap hopen hcreated (fun _ hi => hi) g.tlsArguments
  unfold Group.relocate
  rw [hstate]
  dsimp only
  cases hstage : g.stageScope host heap g.tlsArguments g.scope with
  | error stop =>
    cases stop with
    | wrong => exact absurd hstage hsafe.not_wrong
    | error e =>
      refine ⟨⟨_, rfl⟩, fun e' g' heq => ?_, fun g' heq => ?_⟩
      · have heq := (Prod.mk.inj (Except.ok.inj heq)).2
        rw [← heq, ← harguments, ← hstate]
      · have hnone := (Prod.mk.inj (Except.ok.inj heq)).1
        cases hnone
  | ok r =>
    obtain ⟨staging, arguments⟩ := r
    obtain ⟨_, hfor⟩ := hsafe.of_ok hstage
    dsimp only at hfor ⊢
    refine ⟨⟨_, rfl⟩, fun e g' heq => ?_, fun g' heq => ?_⟩
    · have hnone := (Prod.mk.inj (Except.ok.inj heq)).1
      cases hnone
    obtain rfl := (Prod.mk.inj (Except.ok.inj heq)).2
    -- what was staged is the scope, in its order
    have hmodules : staging.map (·.module) = g.scope := by
      have hsame : List.Forall₂ (fun module s => module = Staging.module s) g.scope staging :=
        hfor.imp fun _ _ hs => hs.1.symm
      have heq := List.forall₂_map_right_iff.2 hsame
      rw [List.forall₂_eq_eq_eq] at heq
      exact heq.symm
    refine ⟨Group.accept_same staging, rfl, fun i hi => ?_, fun i hi => ?_, fun _ _ => rfl⟩
    · refine Group.accept_other fun s hs heq => hi ?_
      rw [← hmodules, ← heq]
      exact List.mem_map_of_mem hs
    · obtain ⟨s, hs, rfl, node, hnode, hcount, hrelinked⟩ := forall₂_left hfor hi
      have hnodup : (staging.map (·.module)).Nodup := by
        rw [hmodules]
        exact hcreated.scope.nodup
      have hlt : s.module < g.stats.length := by
        rw [hstats]
        exact (List.getElem?_eq_some_iff.1 hnode).1
      obtain ⟨hplaced, hcounted⟩ := Group.accept_node hnodup hs hnode hlt
      rw [hcount] at hcounted
      exact ⟨node, _, hnode, hplaced, hcounted, hrelinked⟩

/-- A shared object with a thread-local variable `t`, a descriptor for it and one for its module, and a
relative address behind them. -/
def describedBytes : List UInt8 :=
  [0x7f, 0x45, 0x4c, 0x46, 2, 1, 1, 0, 0, 0, 0, 0, 0, 0, 0, 0] ++
    Bytes.writeLE 2 3 ++ Bytes.writeLE 2 183 ++ Bytes.writeLE 4 1 ++
    [0, 64, 0].flatMap (Bytes.writeLE 8) ++ Bytes.writeLE 4 0 ++
    [64, 56, 4, 64, 0, 0].flatMap (Bytes.writeLE 2) ++
    sampleHeader 1 4 0 0x250 ++ sampleHeader 1 6 0x250 64 ++ sampleHeader 7 4 0x250 16 ++
    sampleHeader 2 4 0x1c0 144 ++
    -- strings, symbols, hash table
    [0, 116, 0, 0, 0, 0, 0, 0] ++ List.replicate 24 0 ++
    Bytes.writeLE 4 1 ++ [0x16, 0, 2, 0] ++ [8, 4].flatMap (Bytes.writeLE 8) ++
    [1, 1, 1, 0].flatMap (Bytes.writeLE 4) ++ List.replicate 8 255 ++ Bytes.writeLE 4 1 ++
    Bytes.writeLE 4 177689 ++
    -- relocations
    [0x260, 2 ^ 32 + 1031, 2, 0x270, 1031, 4, 0x280, 1027, 5].flatMap (Bytes.writeLE 8) ++
    -- dynamic section
    [5, 0x120, 10, 8, 6, 0x128, 11, 24, 0x6ffffef5, 0x158, 7, 0x178, 8, 72, 9, 24, 0, 0].flatMap (Bytes.writeLE 8) ++
    -- data
    List.replicate 64 0

/-- The sample in memory. -/
def describedInput : Input := ⟨4096, describedBytes, by decide +kernel⟩

/-- Its tables. -/
def describedDynamic : Elf.Dynamic := (openedTables describedInput).getD { image := sampleImage }

/-- The sample's tables are opened from its image. -/
theorem describedDynamic_open : ∃ image, openImage describedInput true = .ok image ∧
    dynamicOpen image describedDynamic = .ok (none, describedDynamic) :=
  openedTables_getD (by decide +kernel) _ _

/-- Two modules with tables that were opened; the second is not reached. -/
def sampleModules : List LinkModule :=
  [{ name := some [97], dynamic := some (1, describedDynamic), loadBias := 0x1000
     memory := some [⟨1, 0x100000, List.replicate 64 0⟩] },
    { name := some [98], dynamic := some (2, sampleDynamic), loadBias := 0x1000, memory := some [] }]

/-- Allocations that succeed. -/
def sampleHeap : Heap where
  staged := fun _ => true
  buffer := fun _ _ => 0x200000
  planned := fun _ => true
  record := fun n => some (BitVec.ofNat 64 (0x300000 + 16 * n))

/-- A group with a resolver for its descriptors. -/
def Group.resolving (g : LoadGroup) : Group := { Group.start g with tlsResolver := 0x1100 }

/-- The group of these, relocated. -/
def sampleRelocated : Option (LoadGroup × Group) :=
  match create sampleModules (some [97]) with
  | .ok created =>
    match (Group.resolving created).relocate none sampleHeap with
    | .ok (none, g) => some (created, g)
    | _ => none
  | .error _ => none

/-- The sample runs: the group is created and relocated with its resolver. -/
theorem sampleRelocated_some {created : LoadGroup} {g : Group} (h : sampleRelocated = some (created, g)) :
    create sampleModules (some [97]) = .ok created ∧
      (Group.resolving created).relocate none sampleHeap = .ok (none, g) := by
  unfold sampleRelocated at h
  split at h
  next created' hcreate =>
    split at h
    next g' hrelocate =>
      obtain ⟨rfl, rfl⟩ := Prod.mk.inj (Option.some.inj h)
      exact ⟨hcreate, hrelocate⟩
    next => cases h
  next => cases h

/-- The first module is relocated, its descriptors with an argument each, and the second is left alone. -/
theorem relocate_transactional_sample : ∃ created g, create sampleModules (some [97]) = .ok created ∧
    (Group.resolving created).relocate none sampleHeap = .ok (none, g) ∧ g.nodes[1]? = created.nodes[1]? ∧
      g.tlsArguments = [⟨0x300000, 1, 10⟩, ⟨0x300010, 1, 4⟩] ∧
      (∃ node memory, created.nodes[0]? = some node ∧ g.nodes[0]? = some (node.withMemory memory) ∧
        memory ≠ node.module.memory ∧
        Relinked (Group.resolving created) none sampleHeap g.tlsArguments 0 node memory) ∧
      g.relocate none sampleHeap = .ok (none, g) := by
  have hfacts : ∃ r ∈ sampleRelocated, r.1.scope = [0] ∧
      r.1.nodes.map (·.module.dynamic) = [describedDynamic, sampleDynamic] ∧
      r.2.tlsArguments = [⟨0x300000, 1, 10⟩, ⟨0x300010, 1, 4⟩] ∧
      r.1.nodes[0]?.map (·.module.memory) ≠ r.2.nodes[0]?.map (·.module.memory) := by decide +kernel
  obtain ⟨⟨created, g⟩, hr, hscope, hdynamic, harguments, hmemory⟩ := hfacts
  obtain ⟨hcreate, hrelocate⟩ := sampleRelocated_some hr
  have hopen : created.Opened := by
    intro node hnode
    have hin : node.module.dynamic ∈ created.nodes.map (·.module.dynamic) := List.mem_map_of_mem hnode
    rw [hdynamic] at hin
    rcases List.mem_cons.1 hin with hsame | hin
    · obtain ⟨image, _, himage⟩ := describedDynamic_open
      rw [hsame]
      exact ⟨image, _, himage⟩
    · rw [List.mem_singleton.1 hin]
      exact ⟨_, _, sample_dynamicOpen⟩
  obtain ⟨_, _, hdone⟩ :=
    relocate_transactional hcreate hopen 0x1100 none sampleHeap (g := Group.resolving created) rfl
  obtain ⟨_, _, houtside, hinside, hagain⟩ := hdone g hrelocate
  have hzero : (0 : Nat) ∈ (Group.resolving created).scope := by
    show 0 ∈ created.scope
    rw [hscope]
    exact List.mem_singleton.2 rfl
  have hone : (1 : Nat) ∉ (Group.resolving created).scope := by
    show 1 ∉ created.scope
    rw [hscope]
    decide
  obtain ⟨node, memory, hnode, hnode', _, hrelinked⟩ := hinside 0 hzero
  refine ⟨created, g, hcreate, hrelocate, (houtside 1 hone).1, harguments,
    ⟨node, memory, hnode, hnode', fun heq => hmemory ?_, hrelinked⟩, hagain none sampleHeap⟩
  have hstart : created.nodes[0]? = some node := hnode
  dsimp only
  rw [hnode', hstart, heq]
  rfl

end Artbox.Linker
