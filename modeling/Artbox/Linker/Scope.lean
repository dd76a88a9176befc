import Artbox.Linker.Model

/-!
# Scope and initialization order

Both orders of a group come from the graph of `DT_NEEDED` over the manifest (`needs`): the loop
over the scope grows it breadth first, and the visit of the root goes over the dependencies that
the loop has recorded. A manifest that has the same modules in the root's closure gives the same
group under other indices, unless its check of the memory fails.
-/

namespace Artbox.Linker

open Elf Checked Traversal

/-- What a module lists in `DT_NEEDED`, as indices. -/
def needs (modules : List Module) (index : Nat) : List Nat :=
  (modules[index]?).elim [] fun m => m.dynamic.needed.map (find modules)

/-- A name that is not in the manifest is found at its end. -/
theorem find_le (modules : List Module) (name : List UInt8) : find modules name ≤ modules.length :=
  List.findIdx_le_length

/-! ## One module of the scope -/

/-- All that a module lists is valid and in the manifest. -/
def Resolves (modules : List Module) (names : List (List UInt8)) : Prop :=
  ∀ name ∈ names, NameValid (some name) ∧ find modules name < modules.length

/-- Linking the names of a module goes wrong nowhere and adds their indices. -/
theorem link_safe (modules : List Module) (names : List (List UInt8)) (dependencies : List Nat)
    (found : Found Nat) : Safe (lift (link modules names (dependencies, found))) fun linked =>
      Resolves modules names ∧ linked = (dependencies ++ names.map (find modules),
        found.pushAll (names.map (find modules))) := by
  refine Safe.lift fun linked h => ?_
  induction names generalizing dependencies found with
  | nil =>
    obtain rfl := Except.ok.inj h
    exact ⟨nofun, by simp⟩
  | cons name rest ih =>
    unfold link at h
    split at h
    · cases h
    next hvalid =>
      split at h
      · cases h
      next hfound =>
        obtain ⟨hrest, hlinked⟩ := ih _ _ h
        refine ⟨fun n hn => ?_, ?_⟩
        · rcases List.mem_cons.1 hn with rfl | hn
          · exact ⟨not_not.1 hvalid, Nat.lt_of_le_of_ne (find_le ..) hfound⟩
          · exact hrest n hn
        · rw [hlinked]
          simp

/-- The loop has put together the first modules of the scope. -/
structure Built (modules : List Module) (first cursor : Nat) (b : Building) : Prop where
  nodes : b.nodes.map (·.module) = modules
  growing : Growing (needs modules) first cursor b.found
  inside : ∀ i ∈ b.found.order, i < modules.length
  linked : ∀ i ∈ b.found.order.take cursor, dependencies b.nodes i = needs modules i
  fresh : ∀ i, i ∉ b.found.order.take cursor → dependencies b.nodes i = []

/-- Writing a node changes the dependencies of this node only. -/
theorem dependencies_set {nodes : List Node} {index : Nat} (h : index < nodes.length) (node : Node) (i : Nat) :
    dependencies (nodes.set index node) i = if i = index then node.dependencies else dependencies nodes i := by
  unfold dependencies
  rw [List.getElem?_set]
  by_cases hi : index = i
  · rw [if_pos hi, if_pos hi.symm, if_pos (hi ▸ h)]
    rfl
  · rw [if_neg hi, if_neg (Ne.symm hi)]

/-- The loop leaves the modules as they are. -/
theorem map_set_module {nodes : List Node} {index : Nat} {node : Node} (h : nodes[index]? = some node)
    (node' : Node) (hmodule : node'.module = node.module) :
    (nodes.set index node').map (·.module) = nodes.map (·.module) := by
  refine List.ext_getElem? fun i => ?_
  rw [List.getElem?_map, List.getElem?_map, List.getElem?_set]
  split
  next heq =>
    subst heq
    rw [if_pos (List.getElem?_eq_some_iff.1 h).1, h]
    exact congrArg some hmodule
  next => rfl

/-- A node of the group has its module's entry. -/
theorem needs_eq {modules : List Module} {nodes : List Node} (h : nodes.map (·.module) = modules)
    {index : Nat} {node : Node} (hnode : nodes[index]? = some node) :
    needs modules index = node.module.dynamic.needed.map (find modules) := by
  unfold needs
  rw [← h, List.getElem?_map, hnode]
  rfl

/-- One round of the loop puts the module at the cursor together. -/
theorem admit_safe {modules : List Module} {first cursor index : Nat} {b : Building}
    (h : Built modules first cursor b) (hindex : b.found.order[cursor]? = some index) :
    Safe (admitModule modules b index) (Built modules first (cursor + 1)) := by
  have hlt : index < b.nodes.length := by
    have hin := h.inside index (List.mem_of_getElem? hindex)
    rw [← h.nodes, List.length_map] at hin
    exact hin
  obtain ⟨node, hnode⟩ : ∃ node, b.nodes[index]? = some node := ⟨_, List.getElem?_eq_getElem hlt⟩
  have hneeds := needs_eq h.nodes hnode
  have htake : b.found.order.take (cursor + 1) = b.found.order.take cursor ++ [index] := by
    rw [List.take_add_one, hindex]
    rfl
  -- the order has no module twice, so that this one was not linked before
  have hnew : index ∉ b.found.order.take cursor := by
    have hnodup := (List.take_sublist (cursor + 1) b.found.order).nodup h.growing.nodup
    rw [htake] at hnodup
    exact fun hin => (List.nodup_append.1 hnodup).2.2 index hin index (List.mem_singleton.2 rfl) rfl
  unfold admitModule
  rw [hnode]
  refine Safe.bind (Safe.ok (P := fun n => n = node) rfl) fun n hn => ?_
  rw [hn]
  refine Safe.bind Safe.reject fun _ _ => Safe.bind Safe.reject fun _ _ => ?_
  refine Safe.bind (Safe.lift (P := fun _ => True) fun _ _ => trivial) fun total _ => ?_
  refine Safe.bind (Safe.lift (P := fun _ => True) fun _ _ => trivial) fun added _ => ?_
  refine Safe.bind (link_safe ..) fun linked hlinked => Safe.pure ?_
  obtain ⟨hresolves, rfl⟩ := hlinked
  have hempty : node.dependencies = [] := by
    have hfresh := h.fresh index hnew
    unfold dependencies at hfresh
    rw [hnode] at hfresh
    exact hfresh
  rw [hempty, List.nil_append, ← hneeds]
  have hbehind : (b.found.pushAll (needs modules index)).order.take (cursor + 1) =
      b.found.order.take cursor ++ [index] := by
    obtain ⟨rest, hrest⟩ := b.found.prefix_pushAll (needs modules index)
    have hcursor := (List.getElem?_eq_some_iff.1 hindex).1
    rw [← hrest, List.take_append_of_le_length hcursor, htake]
  refine ⟨(map_set_module hnode _ (by rfl)).trans h.nodes, h.growing.step hindex, fun i hi => ?_, fun i hi => ?_,
    fun i hi => ?_⟩
  · have horder := Found.pushAll_order h.growing.exact h.growing.order (needs modules index)
    rw [horder, List.mem_eraseDups, List.mem_append, ← List.mem_eraseDups, ← h.growing.order] at hi
    rcases hi with hi | hi
    · exact h.inside i hi
    · rw [hneeds] at hi
      obtain ⟨name, hname, rfl⟩ := List.mem_map.1 hi
      exact (hresolves name hname).2
  · rw [dependencies_set hlt]
    split
    next heq =>
      rw [heq]
    next hne =>
      rw [hbehind] at hi
      exact h.linked i ((List.mem_append.1 hi).resolve_right fun hl => hne (List.mem_singleton.1 hl))
  · rw [hbehind, List.mem_append, List.mem_singleton, not_or] at hi
    rw [dependencies_set hlt, if_neg hi.2]
    exact h.fresh i hi.1

/-! ## The loop -/

/-- The scope has no more modules than the manifest. -/
theorem reaches_inside {modules : List Module} {first cursor : Nat} {b : Building}
    (h : Built modules first cursor b) : b.found.order.length ≤ modules.length := by
  have hsub : b.found.order ⊆ List.range modules.length := fun i hi => List.mem_range.2 (h.inside i hi)
  have hle := (h.growing.nodup.subperm hsub).length_le
  rwa [List.length_range] at hle

/-- Enough rounds put the whole scope together. -/
theorem build_safe {modules : List Module} {first rounds cursor : Nat} {b : Building}
    (h : Built modules first cursor b) (hrounds : modules.length ≤ cursor + rounds) :
    Safe (build modules rounds cursor b) fun b =>
      ∃ cursor, b.found.order.length ≤ cursor ∧ Built modules first cursor b := by
  induction rounds generalizing cursor b with
  | zero =>
    have hend : b.found.order.length ≤ cursor := Nat.le_trans (reaches_inside h) hrounds
    unfold build
    rw [if_neg (Nat.not_lt.2 hend)]
    exact Safe.ok ⟨cursor, hend, h⟩
  | succ rounds ih =>
    unfold build
    split
    next hnone => exact Safe.ok ⟨cursor, List.getElem?_eq_none_iff.1 hnone, h⟩
    next index hindex => exact Safe.bind (admit_safe h hindex) fun c hc => ih hc (by omega)

/-- Before the loop only the root is found. -/
theorem built_start {modules : List Module} {first : Nat} (hfirst : first < modules.length) :
    Built modules first 0 { nodes := modules.map ({ module := · }), found := Found.start.push first } := by
  refine ⟨?_, Growing.start _ first, fun i hi => ?_, nofun, fun i _ => ?_⟩
  · rw [List.map_map]
    exact List.map_id modules
  · obtain rfl : i = first := List.mem_singleton.1 hi
    exact hfirst
  · unfold dependencies
    rw [List.getElem?_map]
    cases modules[i]? <;> rfl

/-- The checked manifest has as many modules as the given one. -/
theorem checkModules_length {before modules : List Module} {manifest : List LinkModule}
    (h : checkModules before manifest = .ok modules) : modules.length = before.length + manifest.length := by
  induction manifest generalizing before with
  | nil =>
    obtain rfl := Except.ok.inj h
    rfl
  | cons m rest ih =>
    unfold checkModules at h
    split at h
    · cases h
    · rw [ih h, List.length_append, List.length_cons, List.length_cons, List.length_nil]
      omega

/-- What `artbox_load_group_create` has built when it returns. -/
structure Created (modules : List Module) (first : Nat) (g : LoadGroup) : Prop where
  nodes : g.nodes.map (·.module) = modules
  small : modules.length ≤ maxModules
  inside : ∀ i ∈ g.scope, i < modules.length
  scope : BreadthFirst (needs modules) first g.scope
  linked : ∀ i ∈ g.scope, dependencies g.nodes i = needs modules i
  fresh : ∀ i, i ∉ g.scope → dependencies g.nodes i = []
  initialization : g.initialization = (visit (dependencies g.nodes) maxModules Found.start first).order

/-- `artbox_load_group_create` either fails by one of its checks or has built the group. -/
theorem create_safe (manifest : List LinkModule) (root : List UInt8) :
    Safe (create manifest (some root)) fun g => ∃ modules, checkModules [] manifest = .ok modules ∧
      find modules root < modules.length ∧ Created modules (find modules root) g := by
  unfold create
  refine Safe.bind Safe.reject fun _ hargs => ?_
  refine Safe.bind (Safe.require (P := fun r => r = root) fun r hr => (Option.some.inj hr).symm) fun r hr => ?_
  rw [hr]
  refine Safe.bind (Safe.lift (P := fun modules => checkModules [] manifest = .ok modules) fun _ h => h)
    fun modules hmodules => ?_
  refine Safe.bind Safe.reject fun _ hfound => ?_
  have hlength := checkModules_length hmodules
  have hsmall : modules.length ≤ maxModules := by
    have hle : ¬ maxModules < manifest.length := fun hlt => hargs (.inr (.inl hlt))
    rw [List.length_nil] at hlength
    omega
  have hfirst : find modules root < modules.length := Nat.lt_of_le_of_ne (find_le ..) hfound
  refine Safe.bind (build_safe (built_start hfirst) (by omega)) fun b hb => Safe.pure ?_
  obtain ⟨cursor, hend, hbuilt⟩ := hb
  refine ⟨modules, hmodules, hfirst, hbuilt.nodes, hsmall, hbuilt.inside, hbuilt.growing.breadthFirst hend,
    fun i hi => ?_, fun i hi => ?_, rfl⟩
  · refine hbuilt.linked i ?_
    rw [List.take_of_length_le hend]
    exact hi
  · refine hbuilt.fresh i ?_
    rw [List.take_of_length_le hend]
    exact hi

/-! ## Initialization -/

namespace Created

variable {modules : List Module} {first : Nat} {g : LoadGroup}

/-- The root is in its scope. -/
theorem root_mem (h : Created modules first g) : first ∈ g.scope := (h.scope.mem_iff first).2 .refl

/-- The scope has everything that its modules need. -/
theorem closed (h : Created modules first g) : ∀ i ∈ g.scope, ∀ j ∈ needs modules i, j ∈ g.scope := fun i hi _ hj =>
  (h.scope.mem_iff _).2 (((h.scope.mem_iff i).1 hi).tail hj)

/-- The scope fits its table. -/
theorem scope_length (h : Created modules first g) : g.scope.length ≤ maxModules := by
  have hsub : g.scope ⊆ List.range modules.length := fun i hi => List.mem_range.2 (h.inside i hi)
  have hle := (h.scope.nodup.subperm hsub).length_le
  rw [List.length_range] at hle
  exact Nat.le_trans hle h.small

/-- The visit goes over the recorded dependencies as over the manifest. -/
theorem depthFirst (h : Created modules first g) : DepthFirst (needs modules) first g.initialization := by
  have hrenames : Renames (dependencies g.nodes) (needs modules) id (· ∈ g.scope) := by
    refine ⟨fun i hi j hj => ?_, fun i hi => ?_, fun _ _ _ _ => id⟩
    · rw [h.linked i hi] at hj
      exact h.closed i hi j hj
    · rw [List.map_id, h.linked i hi]
      rfl
  have hlike : Like id (· ∈ g.scope) (visit (dependencies g.nodes) maxModules Found.start first)
      (visit (needs modules) maxModules Found.start first) := (Like.start id _).visit hrenames h.root_mem
  have horder := hlike.order
  rw [List.map_id, ← h.initialization] at horder
  rw [← horder]
  exact visit_depthFirst h.closed h.root_mem h.scope_length

/-- Exactly the modules of the scope are initialized, each once. -/
theorem perm (h : Created modules first g) : g.initialization.Perm g.scope := by
  refine (List.perm_ext_iff_of_nodup h.depthFirst.nodup h.scope.nodup).2 fun i => ?_
  rw [h.depthFirst.mem_iff, h.scope.mem_iff]

end Created

/-! ## Other manifests -/

/-- A node under other indices. -/
def Node.rename (φ : Nat → Nat) (node : Node) : Node := { node with dependencies := node.dependencies.map φ }

/-- A module's name is its own in the manifest. -/
def Distinct (modules : List Module) : Prop := (modules.map (·.name)).Nodup

/-- Accepted manifests have no two modules of one name. -/
theorem checkModules_distinct {before modules : List Module} {manifest : List LinkModule}
    (h : checkModules before manifest = .ok modules) (hbefore : Distinct before) : Distinct modules := by
  induction manifest generalizing before with
  | nil =>
    obtain rfl := Except.ok.inj h
    exact hbefore
  | cons m rest ih =>
    unfold checkModules at h
    split at h
    · cases h
    next checked hchecked =>
      refine ih h ?_
      have hother : ∀ other ∈ before, checked.name ≠ other.name := by
        intro other hin heq
        unfold checkModule at hchecked
        split at hchecked
        · split at hchecked
          · cases hchecked
          · split at hchecked
            · cases hchecked
            next hnew =>
              obtain rfl := Except.ok.inj hchecked
              exact hnew ⟨other, hin, .inl heq⟩
        · cases hchecked
      unfold Distinct
      rw [List.map_append]
      refine List.nodup_append.2 ⟨hbefore, List.nodup_singleton _, fun a ha b hb hab => ?_⟩
      obtain ⟨other, hin, rfl⟩ := List.mem_map.1 ha
      have hb : b = checked.name := List.mem_singleton.1 hb
      exact hother other hin (hb ▸ hab.symm)

/-- What is found has the name. -/
theorem find_name {modules : List Module} {name : List UInt8} (h : find modules name < modules.length) :
    ∃ m, modules[find modules name]? = some m ∧ m.name = name := by
  refine ⟨modules[find modules name], List.getElem?_eq_getElem h, ?_⟩
  exact of_decide_eq_true (List.findIdx_getElem (w := h))

/-- Modules of one name are one module. -/
theorem Distinct.eq_of_name {modules : List Module} (h : Distinct modules) {i j : Nat} {m m' : Module}
    (hi : modules[i]? = some m) (hj : modules[j]? = some m') (hname : m.name = m'.name) : i = j := by
  have hlt : i < (modules.map (·.name)).length := by
    rw [List.length_map]
    exact (List.getElem?_eq_some_iff.1 hi).1
  refine (List.getElem?_inj hlt h).1 ?_
  rw [List.getElem?_map, List.getElem?_map, hi, hj]
  exact congrArg some hname

/-- A module is found by its name. -/
theorem Distinct.find_eq {modules : List Module} (h : Distinct modules) {m : Module} (hm : m ∈ modules) :
    modules[find modules m.name]? = some m := by
  obtain ⟨i, hi⟩ := List.getElem?_of_mem hm
  have hlt : find modules m.name < modules.length := List.findIdx_lt_length_of_exists ⟨m, hm, decide_eq_true rfl⟩
  obtain ⟨m', hm', hname⟩ := find_name hlt
  rw [h.eq_of_name hm' hi hname, hi]

/-- Names that resolve are linked in their order. -/
theorem link_ok {modules : List Module} {names : List (List UInt8)} (h : Resolves modules names)
    (dependencies : List Nat) (found : Found Nat) :
    link modules names (dependencies, found) =
      .ok (dependencies ++ names.map (find modules), found.pushAll (names.map (find modules))) := by
  induction names generalizing dependencies found with
  | nil => simp [link]
  | cons name rest ih =>
    obtain ⟨hvalid, hlt⟩ := h name List.mem_cons_self
    unfold link
    rw [if_neg (not_not.2 hvalid), if_neg (Nat.ne_of_lt hlt), ih fun n hn => h n (List.mem_cons_of_mem _ hn)]
    simp

/-- Memory that is good among one manifest's is good among another's, unless it clashes there. -/
theorem checkMemory_other {modules modules' : List Module} {index index' : Nat} {image : Image} {n total t : Nat}
    {memory : List Memory} (h : checkMemory modules index image n total memory = .ok t) :
    checkMemory modules' index' image n total memory = .ok t ∨
      (checkMemory modules' index' image n total memory = .error .invalid ∧
        ∃ k view, memory[k]? = some view ∧ Clashes modules' index' (n + k) view) := by
  induction memory generalizing n total with
  | nil => exact .inl h
  | cons view rest ih =>
    unfold checkMemory at h ⊢
    split at h
    · cases h
    next hgood =>
      rw [if_neg hgood]
      split at h
      · cases h
      next hfits =>
        rw [if_neg hfits]
        split at h
        · cases h
        · by_cases hclash : Clashes modules' index' n view
          · rw [if_pos hclash]
            exact .inr ⟨rfl, 0, view, rfl, hclash⟩
          · rw [if_neg hclash]
            refine (ih h).imp_right fun ⟨herror, k, other, hk, hother⟩ => ⟨herror, k + 1, other, hk, ?_⟩
            rwa [Nat.add_right_comm] at hother

/-- The loops have come to the same modules. -/
structure Mirrors (φ : Nat → Nat) (P : Nat → Prop) (b b' : Building) : Prop where
  found : Like φ P b.found b'.found
  nodes : ∀ i, P i → b'.nodes[φ i]? = (b.nodes[i]?).map (Node.rename φ)
  total : b'.total = b.total
  templates : b'.templates = b.templates

/-- A closed part of a manifest is in another manifest as well. -/
structure Shared (modules modules' : List Module) (φ : Nat → Nat) (P : Nat → Prop) : Prop where
  closed : ∀ i, P i → ∀ j ∈ needs modules i, P j
  same : ∀ i, P i → ∃ m, modules[i]? = some m ∧ modules'[φ i]? = some m
  names : ∀ i m, P i → modules[i]? = some m → find modules' m.name = φ i
  inj : ∀ i j, P i → P j → φ i = φ j → i = j

/-- Memory of a part of a manifest clashes with what is in another. -/
def Conflict (modules modules' : List Module) (φ : Nat → Nat) (P : Nat → Prop) : Prop :=
  ∃ i, P i ∧ ∃ m ∈ modules[i]?, ∃ n, ∃ memory ∈ m.memory[n]?, Clashes modules' (φ i) n memory

section Mirror

variable {modules modules' : List Module} {φ : Nat → Nat} {P : Nat → Prop} {b b' c : Building}

/-- What a shared module lists is found under its other index. -/
theorem Shared.find_eq (h : Shared modules modules' φ P) {i : Nat} (hi : P i) {m : Module}
    (hm : modules[i]? = some m) {name : List UInt8} (hname : name ∈ m.dynamic.needed) :
    find modules' name = φ (find modules name) ∧ find modules' name < modules'.length := by
  have hneed : find modules name ∈ needs modules i := by
    unfold needs
    rw [hm]
    exact List.mem_map.2 ⟨name, hname, rfl⟩
  have hP := h.closed i hi _ hneed
  obtain ⟨d, hd, hd'⟩ := h.same _ hP
  obtain ⟨d', hfound, hdname⟩ := find_name (List.getElem?_eq_some_iff.1 hd).1
  obtain rfl : d = d' := Option.some.inj (hd.symm.trans hfound)
  have heq := h.names _ d hP hd
  rw [hdname] at heq
  rw [heq]
  exact ⟨rfl, (List.getElem?_eq_some_iff.1 hd').1⟩

/-- The shared modules need the same modules under the other indices. -/
theorem Shared.map_find (h : Shared modules modules' φ P) {i : Nat} (hi : P i) {m : Module}
    (hm : modules[i]? = some m) :
    m.dynamic.needed.map (find modules') = (m.dynamic.needed.map (find modules)).map φ := by
  rw [List.map_map]
  exact List.map_congr_left fun name hname => (h.find_eq hi hm hname).1

/-- What `admitModule` does with a node that it does not refuse at once. -/
theorem admit_eq {modules : List Module} {b : Building} {index : Nat} {node : Node}
    (hnode : b.nodes[index]? = some node) (hpreinit : ¬ node.module.dynamic.preinitArray.size ≠ 0)
    (hwraps : ¬ node.module.Wraps) :
    admitModule modules b index = (do
      let total ← lift (checkMemory modules index node.module.image 0 b.total node.module.memory)
      let added ← lift (node.module.addTemplate b.templates)
      let linked ← lift (link modules node.module.dynamic.needed (node.dependencies, b.found))
      return {
        nodes := b.nodes.set index { node with dependencies := linked.1, tlsId := added.2 }
        found := linked.2, total, templates := added.1 }) := by
  unfold admitModule
  rw [hnode]
  change (reject (node.module.dynamic.preinitArray.size ≠ 0) ElfError.unsupported >>= fun _ => _) = _
  rw [reject_neg hpreinit]
  change (reject node.module.Wraps ElfError.invalid >>= fun _ => _) = _
  rw [reject_neg hwraps]
  rfl

/-- A module is admitted when all its checks pass. -/
theorem admit_run {modules : List Module} {b : Building} {index : Nat} {node : Node} {total tlsId : Nat}
    {templates : List Template} (hnode : b.nodes[index]? = some node)
    (hpreinit : ¬ node.module.dynamic.preinitArray.size ≠ 0) (hwraps : ¬ node.module.Wraps)
    (htotal : checkMemory modules index node.module.image 0 b.total node.module.memory = .ok total)
    (htemplates : node.module.addTemplate b.templates = .ok (templates, tlsId))
    (hresolves : Resolves modules node.module.dynamic.needed) :
    admitModule modules b index = .ok {
      nodes := b.nodes.set index { node with
        dependencies := node.dependencies ++ node.module.dynamic.needed.map (find modules), tlsId }
      found := b.found.pushAll (node.module.dynamic.needed.map (find modules)), total, templates } := by
  rw [admit_eq hnode hpreinit hwraps, htotal, htemplates, link_ok hresolves]
  rfl

/-- A node that is admitted. -/
theorem admit_ok {modules : List Module} {b c : Building} {index : Nat} (h : admitModule modules b index = .ok c) :
    ∃ node total templates tlsId, b.nodes[index]? = some node ∧
      (¬ node.module.dynamic.preinitArray.size ≠ 0) ∧ (¬ node.module.Wraps) ∧
        checkMemory modules index node.module.image 0 b.total node.module.memory = .ok total ∧
          node.module.addTemplate b.templates = .ok (templates, tlsId) ∧
            Resolves modules node.module.dynamic.needed ∧
              c = {
                nodes := b.nodes.set index { node with
                  dependencies := node.dependencies ++ node.module.dynamic.needed.map (find modules), tlsId }
                found := b.found.pushAll (node.module.dynamic.needed.map (find modules)), total, templates } := by
  unfold admitModule at h
  obtain ⟨node, hnode, h⟩ := bind_eq_ok.1 h
  have hget : b.nodes[index]? = some node := by
    split at hnode
    next n hn => rw [hn, Except.ok.inj hnode]
    · cases hnode
  obtain ⟨_, hpreinit, h⟩ := bind_eq_ok.1 h
  obtain ⟨_, hwraps, h⟩ := bind_eq_ok.1 h
  obtain ⟨total, htotal, h⟩ := bind_eq_ok.1 h
  obtain ⟨⟨templates, tlsId⟩, htemplates, h⟩ := bind_eq_ok.1 h
  obtain ⟨linked, hlinked, h⟩ := bind_eq_ok.1 h
  obtain ⟨hresolves, rfl⟩ := (link_safe ..).of_ok hlinked
  obtain rfl := Except.ok.inj h
  exact ⟨node, total, templates, tlsId, hget, reject_eq_ok.1 hpreinit, reject_eq_ok.1 hwraps,
    lift_eq_ok.1 htotal, lift_eq_ok.1 htemplates, hresolves, rfl⟩

/-- A round over a shared module goes the same way in both manifests, or its memory clashes. -/
theorem admit_mirrors (hshared : Shared modules modules' φ P) (hb : Mirrors φ P b b')
    (hmodules : b.nodes.map (·.module) = modules) {index : Nat} (hindex : P index)
    (h : admitModule modules b index = .ok c) :
    (∃ c', admitModule modules' b' (φ index) = .ok c' ∧ Mirrors φ P c c') ∨
      (admitModule modules' b' (φ index) = fail .invalid ∧ Conflict modules modules' φ P) := by
  obtain ⟨node, total, templates, tlsId, hget, hpreinit, hwraps, htotal, htemplates, hresolves, rfl⟩ := admit_ok h
  have hmodule : modules[index]? = some node.module := by
    rw [← hmodules, List.getElem?_map, hget]
    rfl
  have hneeds := needs_eq hmodules hget
  have hget' : b'.nodes[φ index]? = some (node.rename φ) := by
    rw [hb.nodes index hindex, hget]
    rfl
  have hresolves' : Resolves modules' node.module.dynamic.needed := fun name hname =>
    ⟨(hresolves name hname).1, (hshared.find_eq hindex hmodule hname).2⟩
  rcases checkMemory_other htotal with hok | ⟨herror, n, view, hn, hclash⟩
  · left
    rw [← hb.total] at hok
    rw [← hb.templates] at htemplates
    refine ⟨_, admit_run hget' hpreinit hwraps hok htemplates hresolves', ?_, fun i hi => ?_, rfl, rfl⟩
    · show Like φ P (b.found.pushAll _) (b'.found.pushAll (node.module.dynamic.needed.map (find modules')))
      rw [hshared.map_find hindex hmodule, ← hneeds]
      exact hb.found.pushAll hshared.inj (hshared.closed index hindex)
    · show (b'.nodes.set (φ index) _)[φ i]? = ((b.nodes.set index _)[i]?).map _
      rw [List.getElem?_set, List.getElem?_set, if_pos (List.getElem?_eq_some_iff.1 hget).1,
        if_pos (List.getElem?_eq_some_iff.1 hget').1]
      by_cases heq : index = i
      · rw [if_pos heq, if_pos (congrArg φ heq)]
        refine congrArg some (congrArg (fun l => ({ node with dependencies := l, tlsId } : Node)) ?_)
        show node.dependencies.map φ ++ node.module.dynamic.needed.map (find modules') = _
        rw [hshared.map_find hindex hmodule, ← List.map_append]
      · rw [if_neg heq, if_neg fun h => heq (hshared.inj index i hindex hi h)]
        exact hb.nodes i hi
  · right
    refine ⟨?_, index, hindex, node.module, hmodule, n, view, hn, by rwa [Nat.zero_add] at hclash⟩
    rw [admit_eq hget' hpreinit hwraps, hb.total]
    show lift (checkMemory modules' (φ index) node.module.image 0 b.total node.module.memory) >>= _ = _
    rw [herror]
    rfl

/-- The whole loop goes the same way in both manifests, or memory clashes. -/
theorem build_mirrors (hshared : Shared modules modules' φ P) {first rounds cursor : Nat}
    (hbuilt : Built modules first cursor b) (hb : Mirrors φ P b b') (h : build modules rounds cursor b = .ok c) :
    (∃ c', build modules' rounds cursor b' = .ok c' ∧ Mirrors φ P c c') ∨
      (build modules' rounds cursor b' = fail .invalid ∧ Conflict modules modules' φ P) := by
  induction rounds generalizing cursor b b' with
  | zero =>
    unfold build at h ⊢
    rw [hb.found.order, List.length_map]
    split at h
    · cases h
    next hend =>
      rw [if_neg hend]
      obtain rfl := Except.ok.inj h
      exact .inl ⟨b', rfl, hb⟩
  | succ rounds ih =>
    unfold build at h ⊢
    rw [hb.found.order, List.getElem?_map]
    split at h
    next hnone =>
      rw [hnone]
      obtain rfl := Except.ok.inj h
      exact .inl ⟨b', rfl, hb⟩
    next index hindex =>
      rw [hindex]
      obtain ⟨d, hadmit, h⟩ := bind_eq_ok.1 h
      have hP := hb.found.inside index (List.mem_of_getElem? hindex)
      show (∃ c', (admitModule modules' b' (φ index) >>= _) = _ ∧ _) ∨
        ((admitModule modules' b' (φ index) >>= _) = _ ∧ _)
      rcases admit_mirrors hshared hb hbuilt.nodes hP hadmit with ⟨d', hadmit', hd⟩ | ⟨herror, hconflict⟩
      · rw [hadmit']
        exact ih ((admit_safe hbuilt hindex).of_ok hadmit) hd h
      · rw [herror]
        exact .inr ⟨rfl, hconflict⟩

end Mirror

/-- The other group has the same modules in the same orders under other indices. -/
structure Renamed (φ : Nat → Nat) (g g' : LoadGroup) : Prop where
  scope : g'.scope = g.scope.map φ
  initialization : g'.initialization = g.initialization.map φ
  tlsTemplates : g'.tlsTemplates = g.tlsTemplates
  nodes : ∀ i ∈ g.scope, g'.nodes[φ i]? = (g.nodes[i]?).map (Node.rename φ)

/-- Where another manifest has a module. -/
def place (modules modules' : List Module) (index : Nat) : Nat :=
  (modules[index]?).elim 0 fun m => find modules' m.name

/-- A module's place in another manifest is found by its name. -/
theorem place_eq {modules : List Module} {index : Nat} {m : Module} (h : modules[index]? = some m)
    (modules' : List Module) : place modules modules' index = find modules' m.name := by
  unfold place
  rw [h]
  rfl

/-- A group's modules are shared with a manifest that has them too. -/
theorem Created.shared {modules modules' : List Module} {first : Nat} {g : LoadGroup}
    (h : Created modules first g) (hdistinct : Distinct modules) (hdistinct' : Distinct modules')
    (hin : ∀ i ∈ g.scope, ∀ m ∈ modules[i]?, m ∈ modules') :
    Shared modules modules' (place modules modules') (· ∈ g.scope) := by
  have hget : ∀ i ∈ g.scope, ∃ m, modules[i]? = some m ∧ modules'[place modules modules' i]? = some m := by
    intro i hi
    have hm := List.getElem?_eq_getElem (h.inside i hi)
    refine ⟨_, hm, ?_⟩
    rw [place_eq hm]
    exact hdistinct'.find_eq (hin i hi _ hm)
  refine ⟨h.closed, hget, fun i m _ hm => (place_eq hm modules').symm, fun i j hi hj heq => ?_⟩
  obtain ⟨m, hm, hm'⟩ := hget i hi
  obtain ⟨d, hd, hd'⟩ := hget j hj
  rw [heq, hd'] at hm'
  exact hdistinct.eq_of_name hm hd (congrArg Module.name (Option.some.inj hm').symm)

/-- A group is only created for a valid name and a manifest that fits. -/
theorem create_args {manifest : List LinkModule} {root : List UInt8} {g : LoadGroup}
    (h : create manifest (some root) = .ok g) : NameValid (some root) ∧ manifest.length ≤ maxModules := by
  unfold create at h
  obtain ⟨_, hargs, _⟩ := bind_eq_ok.1 h
  have hargs := reject_eq_ok.1 hargs
  rw [not_or, not_or, not_not] at hargs
  exact ⟨hargs.2.2, Nat.not_lt.1 hargs.2.1⟩

/-- Behind its argument checks `create` is the loop and the initialization order. -/
theorem create_run {manifest : List LinkModule} {root : List UInt8} {modules : List Module}
    (hsmall : manifest.length ≤ maxModules) (hroot : NameValid (some root))
    (hmodules : checkModules [] manifest = .ok modules) (hfound : find modules root < modules.length) :
    create manifest (some root) = (do
      let b ← build modules maxModules 0
        { nodes := modules.map ({ module := · }), found := Found.start.push (find modules root) }
      return {
        nodes := b.nodes, scope := b.found.order, tlsTemplates := b.templates
        initialization := (visit (dependencies b.nodes) maxModules Found.start (find modules root)).order }) := by
  have hlength := checkModules_length hmodules
  have hnonempty : manifest ≠ [] := by
    intro hnil
    rw [hnil, List.length_nil] at hlength
    rw [hlength] at hfound
    exact absurd hfound (Nat.not_lt_zero _)
  unfold create
  rw [reject_neg (by
    rw [not_or, not_or, not_not]
    exact ⟨hnonempty, Nat.not_lt.2 hsmall, hroot⟩), hmodules]
  show (reject (find modules root = modules.length) ElfError.notFound >>= fun _ => _) = _
  rw [reject_neg (Nat.ne_of_lt hfound)]
  rfl

/-- A manifest that has a group's modules gives the same group, unless the check of the memory
fails in it. -/
theorem create_other {manifest manifest' : List LinkModule} {root : List UInt8} {modules modules' : List Module}
    {g : LoadGroup} (h : create manifest (some root) = .ok g) (hmodules : checkModules [] manifest = .ok modules)
    (hsmall' : manifest'.length ≤ maxModules) (hmodules' : checkModules [] manifest' = .ok modules')
    (hin : ∀ i ∈ g.scope, ∀ m ∈ modules[i]?, m ∈ modules') :
    (∃ g', create manifest' (some root) = .ok g' ∧ Renamed (place modules modules') g g') ∨
      (create manifest' (some root) = fail .invalid ∧
        Conflict modules modules' (place modules modules') (· ∈ g.scope)) := by
  obtain ⟨checked, hchecked, hfirst, hcreated⟩ := (create_safe manifest root).of_ok h
  obtain rfl : modules = checked := Except.ok.inj (hmodules.symm.trans hchecked)
  have hshared := hcreated.shared (checkModules_distinct hmodules List.nodup_nil)
    (checkModules_distinct hmodules' List.nodup_nil) hin
  obtain ⟨hroot, hsmall⟩ := create_args h
  rw [create_run hsmall hroot hmodules hfirst] at h
  obtain ⟨b, hbuild, h⟩ := bind_eq_ok.1 h
  obtain rfl := Except.ok.inj h
  -- the root is found under its other index
  obtain ⟨m, hm, hm'⟩ := hshared.same _ hcreated.root_mem
  obtain ⟨d, hd, hname⟩ := find_name hfirst
  obtain rfl : m = d := Option.some.inj (hm.symm.trans hd)
  have hroot' : find modules' root = place modules modules' (find modules root) := by
    rw [place_eq hm, hname]
  have hfirst' : find modules' root < modules'.length := by
    rw [hroot']
    exact (List.getElem?_eq_some_iff.1 hm').1
  have hstart : Mirrors (place modules modules') (· ∈ b.found.order)
      { nodes := modules.map ({ module := · }), found := Found.start.push (find modules root) }
      { nodes := modules'.map ({ module := · }), found := Found.start.push (find modules' root) } := by
    refine ⟨?_, fun i hi => ?_, rfl, rfl⟩
    · show Like _ _ (Found.start.push _) (Found.start.push _)
      rw [hroot']
      exact (Like.start _ _).push hshared.inj hcreated.root_mem
    · obtain ⟨d, hd, hd'⟩ := hshared.same i hi
      show (modules'.map _)[_]? = ((modules.map _)[i]?).map _
      rw [List.getElem?_map, List.getElem?_map, hd, hd']
      rfl
  rw [create_run hsmall' hroot hmodules' hfirst']
  rcases build_mirrors hshared (built_start hfirst) hstart hbuild with ⟨b', hbuild', hb⟩ | ⟨herror, hconflict⟩
  · left
    rw [hbuild']
    refine ⟨_, rfl, hb.found.order, ?_, hb.templates, hb.nodes⟩
    have hrenames : Renames (dependencies b.nodes) (dependencies b'.nodes) (place modules modules')
        (· ∈ b.found.order) := by
      refine ⟨fun i hi j hj => ?_, fun i hi => ?_, hshared.inj⟩
      · rw [hcreated.linked i hi] at hj
        exact hcreated.closed i hi j hj
      · unfold dependencies
        rw [hb.nodes i hi]
        cases b.nodes[i]? <;> rfl
    have hlike : Like (place modules modules') (· ∈ b.found.order) _ (visit _ maxModules Found.start _) :=
      (Like.start _ _).visit hrenames hcreated.root_mem
    rw [← hroot'] at hlike
    exact hlike.order
  · right
    rw [herror]
    exact ⟨rfl, hconflict⟩

/-! ## The orders of a group -/

/-- Scope and initialization of every group that is created: the scope is breadth first from the
root, the initialization has the same modules with the root at the end, and a module is behind
what it lists if that does not lead back to it. What is recorded is what the manifest lists, so
another manifest with these modules differs only in the checks that go over all of it. -/
theorem create_orders {manifest : List LinkModule} {root : List UInt8} {g : LoadGroup}
    (h : create manifest (some root) = .ok g) :
    ∃ modules, checkModules [] manifest = .ok modules ∧ g.nodes.map (·.module) = modules ∧
      BreadthFirst (needs modules) (find modules root) g.scope ∧
      (∀ n x y, [x, y].Sublist g.scope → Within (needs modules) (find modules root) n y →
        Within (needs modules) (find modules root) n x) ∧
      g.scope.Nodup ∧ g.scope.head? = some (find modules root) ∧
      g.initialization.Perm g.scope ∧ g.initialization.getLast? = some (find modules root) ∧
      (∀ u ∈ g.scope, ∀ v ∈ needs modules u, ¬ Reaches (needs modules) v u →
        g.initialization.idxOf v < g.initialization.idxOf u) ∧
      ((∀ u ∈ g.scope, ¬ Depends (needs modules) u u) → ∀ u ∈ g.scope, ∀ v, Depends (needs modules) u v →
        g.initialization.idxOf v < g.initialization.idxOf u) ∧
      (∀ u ∈ g.scope, dependencies g.nodes u = needs modules u ∧ ∀ v ∈ dependencies g.nodes u, v ∈ g.scope) ∧
      ∀ manifest' modules', manifest'.length ≤ maxModules → checkModules [] manifest' = .ok modules' →
        (∀ i ∈ g.scope, ∀ m ∈ modules[i]?, m ∈ modules') →
          (∃ g', create manifest' (some root) = .ok g' ∧ Renamed (place modules modules') g g') ∨
            (create manifest' (some root) = fail .invalid ∧
              Conflict modules modules' (place modules modules') (· ∈ g.scope)) := by
  obtain ⟨modules, hmodules, _, hcreated⟩ := (create_safe manifest root).of_ok h
  have hdepth := hcreated.depthFirst
  have hin : ∀ u ∈ g.scope, u ∈ g.initialization := fun u hu => hcreated.perm.mem_iff.2 hu
  refine ⟨modules, hmodules, hcreated.nodes, hcreated.scope, fun n x y hxy hy => hcreated.scope.within hxy hy,
    hcreated.scope.nodup, hcreated.scope.head, hcreated.perm, ?_,
    fun u hu v hv hback => hdepth.before (hin u hu) hv hback, fun hacyclic u hu v hv => ?_, fun u hu => ?_,
    fun manifest' modules' hsmall hchecked hshared => create_other h hmodules hsmall hchecked hshared⟩
  · obtain ⟨front, hfront⟩ := hdepth.last
    rw [hfront, List.getLast?_concat]
  · refine hdepth.before_all (fun x hx => hacyclic x ?_) (hin u hu) hv
    exact hcreated.perm.mem_iff.1 hx
  · rw [hcreated.linked u hu]
    exact ⟨rfl, hcreated.closed u hu⟩

/-- An entry that needs others. -/
def sampleEntry (name : UInt8) (needed : List UInt8) : LinkModule where
  name := some [name]
  dynamic := some (name.toNat, {
    image := { data := ⟨4096, [], by decide⟩, entry := 0, type := 3, programHeaderCount := 0, programHeaderOffset := 0 }
    needed := needed.map ([·]) })
  loadBias := 0
  memory := some []

/-- Two providers of a root that share a third, which needs the root, and an entry that is not
reached. -/
def sampleManifest : List LinkModule :=
  [sampleEntry 114 [102], sampleEntry 102 [111], sampleEntry 120 [], sampleEntry 111 [108, 114], sampleEntry 108 [102]]

/-- The scope is breadth-first, providers are initialized before the modules that need them. -/
theorem sample_created : ∃ g, create sampleManifest (some [111]) = .ok g ∧ g.scope = [3, 4, 0, 1] ∧
    g.initialization = [1, 4, 0, 3] := by
  have horders : (create sampleManifest (some [111])).map (fun g => (g.scope, g.initialization)) =
      .ok ([3, 4, 0, 1], [1, 4, 0, 3]) := by decide +kernel
  cases hcreate : create sampleManifest (some [111]) with
  | ok g =>
    rw [hcreate] at horders
    have hpair := Prod.mk.inj (Except.ok.inj horders)
    exact ⟨g, rfl, hpair.1, hpair.2⟩
  | error e =>
    rw [hcreate] at horders
    cases horders

/-- In the sample with its cycle every module of the scope is initialized once. -/
theorem create_orders_sample : ∃ g, create sampleManifest (some [111]) = .ok g ∧ g.scope = [3, 4, 0, 1] ∧
    g.initialization = [1, 4, 0, 3] ∧ g.initialization.Perm g.scope := by
  obtain ⟨g, hg, hscope, hinitialization⟩ := sample_created
  obtain ⟨_, _, _, _, _, _, _, hperm, _⟩ := create_orders hg
  exact ⟨g, hg, hscope, hinitialization, hperm⟩

end Artbox.Linker
