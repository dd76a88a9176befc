import Artbox.Linker.Handles

/-!
# Symbols through handles

A context reads its group's modules when it is made, and a lookup through a handle goes by the name that
was read then. Relocation and the guest change the modules' memory only, so at any later time the lookup is
one in the modules that the root's closure was made of, from the module that the name given to `dlopen`
stood for.
-/

namespace Artbox.Linker

open Elf Checked Traversal

/-! ## Groups with other memory -/

namespace LoadGroup

variable {g g' : LoadGroup}

/-- The nodes without their memory. -/
def tables (g : LoadGroup) : List Node := g.nodes.map (·.withMemory [])

/-- The groups differ at most in the memory of their modules. -/
structure Alike (g g' : LoadGroup) : Prop where
  tables : g'.tables = g.tables
  scope : g'.scope = g.scope
  initialization : g'.initialization = g.initialization

theorem Alike.refl (g : LoadGroup) : Alike g g := ⟨rfl, rfl, rfl⟩

theorem Alike.trans {g'' : LoadGroup} (h : Alike g g') (h' : Alike g' g'') : Alike g g'' :=
  ⟨h'.tables.trans h.tables, h'.scope.trans h.scope, h'.initialization.trans h.initialization⟩

/-- Groups that are alike have the same number of modules. -/
theorem Alike.length (h : Alike g g') : g'.nodes.length = g.nodes.length := by
  have heq := congrArg List.length h.tables
  unfold LoadGroup.tables at heq
  rwa [List.length_map, List.length_map] at heq

/-- Groups that are alike agree in every module apart from its memory. -/
theorem Alike.node (h : Alike g g') (i : Nat) :
    (g'.nodes[i]?).map (·.withMemory []) = (g.nodes[i]?).map (·.withMemory []) := by
  rw [← List.getElem?_map, ← List.getElem?_map]
  exact congrArg (·[i]?) h.tables

/-- What does not look at the memory is the same of both nodes. -/
theorem Alike.read (h : Alike g g') {α : Type} {f : Node → α} (hf : ∀ node, f (node.withMemory []) = f node)
    (i : Nat) :
    (g'.nodes[i]?).map f = (g.nodes[i]?).map f := by
  have heq := congrArg (Option.map f) (h.node i)
  rw [Option.map_map, Option.map_map] at heq
  rwa [show f ∘ (·.withMemory []) = f from funext hf] at heq

/-- Groups that are alike agree in what every module depends on. -/
theorem Alike.dependencies (h : Alike g g') (i : Nat) :
    Linker.dependencies g'.nodes i = Linker.dependencies g.nodes i := by
  have heq := h.read (f := (·.dependencies)) (fun _ => rfl) i
  unfold Linker.dependencies
  cases hnode : g.nodes[i]? <;> cases hnode' : g'.nodes[i]? <;> rw [hnode, hnode'] at heq
  · cases heq
  · cases heq
  · exact Option.some.inj heq

/-- A lookup in one table does not look at memory. -/
theorem Alike.probe (h : Alike g g') (name : List UInt8) (version : Option (List UInt8)) (out i : Nat) :
    g'.probe name version out i = g.probe name version out i := by
  have heq := h.read (f := (·.module.lookup name version out)) (fun _ => rfl) i
  unfold LoadGroup.probe
  cases hnode : g.nodes[i]? <;> cases hnode' : g'.nodes[i]? <;> rw [hnode, hnode'] at heq
  · cases heq
  · cases heq
  · exact Option.some.inj heq

/-- The search for a module by its name looks at tables only. -/
theorem find_tables (g : LoadGroup) : g.find = Linker.find (g.tables.map (·.module)) := by
  funext name
  unfold LoadGroup.find Linker.find LoadGroup.tables
  rw [List.findIdx_map, List.findIdx_map, List.findIdx_map]
  rfl

/-- Groups that are alike find the same module for a name. -/
theorem Alike.find (h : Alike g g') : g'.find = g.find := by
  rw [find_tables, find_tables, h.tables]

/-- Groups that are alike agree in what every module needs. -/
theorem Alike.needs (h : Alike g g') (i : Nat) :
    Linker.needs (g'.nodes.map (·.module)) i = Linker.needs (g.nodes.map (·.module)) i := by
  have hfind : Linker.find (g'.nodes.map (·.module)) = Linker.find (g.nodes.map (·.module)) := h.find
  have heq := h.read (f := (·.module.dynamic.needed)) (fun _ => rfl) i
  unfold Linker.needs
  rw [hfind, List.getElem?_map, List.getElem?_map]
  cases hnode : g.nodes[i]? <;> cases hnode' : g'.nodes[i]? <;> rw [hnode, hnode'] at heq
  · cases heq
  · cases heq
  · exact congrArg (List.map (Linker.find (g.nodes.map (·.module)))) (Option.some.inj heq)

/-- A group with other memory could have been created. -/
theorem Alike.created {modules : List Module} {first : Nat} (h : Alike g g') (hcreated : Created modules first g) :
    Created (g'.nodes.map (·.module)) first g' := by
  have hlength : (g'.nodes.map (·.module)).length = modules.length := by
    rw [← hcreated.nodes, List.length_map, List.length_map, h.length]
  have hneeds : Linker.needs (g'.nodes.map (·.module)) = Linker.needs modules := by
    rw [← hcreated.nodes]
    exact funext h.needs
  have hdependencies : Linker.dependencies g'.nodes = Linker.dependencies g.nodes := funext h.dependencies
  refine ⟨rfl, ?_, ?_, ?_, ?_, ?_, ?_⟩
  · rw [hlength]
    exact hcreated.small
  · rw [h.scope, hlength]
    exact hcreated.inside
  · rw [h.scope, hneeds]
    exact hcreated.scope
  · rw [h.scope, hneeds, hdependencies]
    exact hcreated.linked
  · rw [h.scope, hdependencies]
    exact hcreated.fresh
  · rw [h.initialization, hdependencies]
    exact hcreated.initialization

end LoadGroup

/-! ## A group's life -/

namespace LoadGroup

/-- One module gets other memory. -/
theorem alike_modify (g : LoadGroup) (i : Nat) {f : Node → Node}
    (hf : ∀ node, (f node).withMemory [] = node.withMemory []) :
    Alike g { g with nodes := g.nodes.modify i f } := by
  refine ⟨List.ext_getElem? fun j => ?_, rfl, rfl⟩
  unfold LoadGroup.tables
  rw [List.getElem?_map, List.getElem?_map, List.getElem?_modify]
  cases g.nodes[j]? with
  | none => rfl
  | some node =>
    show some ((if i = j then f node else node).withMemory []) = some (node.withMemory [])
    split
    · rw [hf]
    · rfl

end LoadGroup

open LoadGroup in
/-- Accepting what was staged changes memory alone. -/
theorem foldl_accept_alike (staging : List Staging) (g : Group) :
    Alike g.toLoadGroup (staging.foldl Group.accept g).toLoadGroup := by
  induction staging generalizing g with
  | nil => exact .refl _
  | cons s staging ih =>
    have hfirst : Alike g.toLoadGroup (g.accept s).toLoadGroup := alike_modify g.toLoadGroup s.module fun _ => rfl
    exact hfirst.trans (ih (g.accept s))

open LoadGroup in
/-- A relocation changes memory alone. -/
theorem relocate_alike {g g' : Group} {host : Option Host} {heap : Heap} {r : Option ElfError}
    (h : g.relocate host heap = .ok (r, g')) : Alike g.toLoadGroup g'.toLoadGroup := by
  unfold Group.relocate at h
  split at h
  · exact (Prod.mk.inj (Except.ok.inj h)).2 ▸ .refl _
  · exact (Prod.mk.inj (Except.ok.inj h)).2 ▸ .refl _
  · exact (Prod.mk.inj (Except.ok.inj h)).2 ▸ .refl _
  · exact (Prod.mk.inj (Except.ok.inj h)).2 ▸ .refl _
  · exact (Prod.mk.inj (Except.ok.inj h)).2 ▸ .refl _
  · split at h
    next staging arguments _ =>
      obtain rfl := (Prod.mk.inj (Except.ok.inj h)).2
      exact foldl_accept_alike staging g
    · obtain rfl := (Prod.mk.inj (Except.ok.inj h)).2
      exact .refl _
    · cases h

open LoadGroup in
/-- Entering a lifecycle function changes no table. -/
theorem enter_alike {g g' : Group} {full : Nat → Bool} {entry : Entry} (h : g.enter full = .ok (entry, g')) :
    Alike g.toLoadGroup g'.toLoadGroup := by
  have hsame : g' = g ∨ ∃ state, g' = { g with state } := by
    unfold Group.enter at h
    split at h
    · exact .inl (Prod.mk.inj (Except.ok.inj h)).2.symm
    · exact .inl (Prod.mk.inj (Except.ok.inj h)).2.symm
    · exact .inl (Prod.mk.inj (Except.ok.inj h)).2.symm
    · exact .inl (Prod.mk.inj (Except.ok.inj h)).2.symm
    · exact .inl (Prod.mk.inj (Except.ok.inj h)).2.symm
    split at h
    · split at h
      · exact .inl (Prod.mk.inj (Except.ok.inj h)).2.symm
      · exact .inr ⟨_, (Prod.mk.inj (Except.ok.inj h)).2.symm⟩
    · exact .inr ⟨_, (Prod.mk.inj (Except.ok.inj h)).2.symm⟩
    · exact .inl (Prod.mk.inj (Except.ok.inj h)).2.symm
    · cases h
  rcases hsame with rfl | ⟨_, rfl⟩
  · exact .refl _
  · exact .refl _

open LoadGroup in
/-- The next entry changes no table. -/
theorem next_alike (p : Process) : Alike p.group.toLoadGroup p.next.group.toLoadGroup := by
  unfold Process.next
  split
  · exact .refl _
  · exact .refl _
  · exact .refl _

open LoadGroup in
/-- No step of a process changes a table. -/
theorem step_alike {p p' : Process} {e : Event} (h : p.step e = some p') :
    Alike p.group.toLoadGroup p'.group.toLoadGroup := by
  cases e with
  | relocate host heap =>
    obtain ⟨r, group, hrelocate, rfl⟩ := step_relocate h
    exact relocate_alike hrelocate
  | resolver address =>
    obtain rfl := Option.some.inj h
    show Alike p.group.toLoadGroup (p.group.setResolver address).2.toLoadGroup
    unfold Group.setResolver
    split
    · exact .refl _
    · exact .refl _
  | enter full =>
    cases henter : p.group.enter full with
    | error _ =>
      simp only [Process.step, henter] at h
      cases h
    | ok r =>
      obtain ⟨entry, group⟩ := r
      cases entry with
      | returns _ =>
        simp only [Process.step, henter] at h
        exact Option.some.inj h ▸ enter_alike henter
      | invokes calls =>
        simp only [Process.step, henter] at h
        exact Option.some.inj h ▸ (enter_alike henter).trans (next_alike ⟨group, calls :: p.frames, p.invoked⟩)
  | finish result =>
    cases result with
    | none =>
      simp only [Process.step] at h
      split at h
      · cases h
      · exact Option.some.inj h ▸ next_alike p
    | some _ =>
      simp only [Process.step] at h
      split at h
      · cases h
      · exact Option.some.inj h ▸ .refl _
  | write module view offset byte =>
    obtain rfl := Option.some.inj h
    exact alike_modify p.group.toLoadGroup module fun _ => rfl

/-- Whatever happens to a group, its tables stay. -/
theorem Runs.alike {g : LoadGroup} {events : List Event} {p : Process} (h : Runs (.start g) events p) :
    LoadGroup.Alike g p.group.toLoadGroup := by
  induction h with
  | nil => exact .refl _
  | snoc _ hstep ih => exact ih.trans (step_alike hstep)

/-! ## A context's life -/

namespace Dlfcn

variable {d d' d'' : Dlfcn}

/-- What a context keeps from when it is made. -/
structure Fixed (d d' : Dlfcn) : Prop where
  group : d'.group = d.group
  identity : d'.identity = d.identity
  images : d'.images = d.images
  aliases : d'.aliases = d.aliases

/-- A context keeps its handle. -/
theorem Fixed.handle (h : d.Fixed d') : d'.handle = d.handle := by
  funext i
  unfold Dlfcn.handle
  rw [h.identity]

theorem Fixed.trans (h : d.Fixed d') (h' : d'.Fixed d'') : d.Fixed d'' :=
  ⟨h'.group.trans h.group, h'.identity.trans h.identity, h'.images.trans h.images, h'.aliases.trans h.aliases⟩

end Dlfcn

namespace Loaders

variable {w w' : Loaders} {k : Nat} {d : Dlfcn}

/-- The context is what it was made to be, unless it is destroyed. -/
def Remains (d : Dlfcn) (k : Nat) (w : Loaders) : Prop :=
  k < w.contexts.length ∧ ∀ d', w.context k = some d' → d'.Sound ∧ d.Fixed d'

/-- A loader with the same contexts keeps the context. -/
theorem Remains.same (h : w.Remains d k) (hcontexts : w'.contexts = w.contexts) : w'.Remains d k := by
  unfold Loaders.Remains Loaders.context
  rw [hcontexts]
  exact h

/-- Writing to another slot, or the context itself with what is fixed, keeps it. -/
theorem Remains.set (h : w.Remains d k) {k' : Nat} {x : Option Dlfcn}
    (hx : ∀ d' ∈ x, k' = k → d'.Sound ∧ d.Fixed d')
    (hlt : k' < w.contexts.length) (hcontexts : w'.contexts = w.contexts.set k' x) : w'.Remains d k := by
  refine ⟨?_, fun d' hd' => ?_⟩
  · rw [hcontexts, List.length_set]
    exact h.1
  · rw [context_set hlt hcontexts] at hd'
    split at hd'
    next heq => exact hx d' hd' heq
    · exact h.2 d' hd'

/-- Every call keeps the context, or destroys it. -/
theorem Remains.perform (h : w.Remains d k) {call : DlCall} (hp : w.perform call = some w') : w'.Remains d k := by
  cases call with
  | create g aliases namespaceName =>
    unfold Loaders.perform at hp
    dsimp only at hp
    split at hp
    next d₁ _ _ =>
      obtain rfl := Option.some.inj hp
      refine ⟨?_, fun d' hd' => h.2 d' ?_⟩
      · show k < (w.contexts ++ [some d₁]).length
        rw [List.length_append]
        exact Nat.lt_add_right 1 h.1
      · unfold Loaders.context at hd' ⊢
        rwa [List.getElem?_append_left h.1] at hd'
    · obtain rfl := Option.some.inj hp
      exact h.same rfl
    · cases hp
  | destroy k' =>
    obtain ⟨d', hd', rfl⟩ := Option.map_eq_some_iff.1 hp
    exact h.set (x := none) (fun _ hmem _ => nomatch hmem) (context_lt hd') rfl
  | dlopen thread k' locks name flags extension namespaceHandle =>
    obtain ⟨d₁, hd, rfl⟩ := Option.map_eq_some_iff.1 hp
    split
    next handle d₂ hopen =>
      refine h.set (x := some d₂) (fun d' hd' heq => ?_) (context_lt hd) rfl
      obtain rfl := Option.some.inj hd'
      obtain ⟨hsound, hfixed⟩ := h.2 d₁ (heq ▸ hd)
      rcases Dlfcn.dlopen_cases hopen with ⟨_, hf⟩ | ⟨i, _, hi, hmax, rfl⟩
      · cases hf
      · exact ⟨hsound.opened hmax (hsound.select_lt hi), hfixed.trans ⟨rfl, rfl, rfl, rfl⟩⟩
    · exact h.same rfl
  | dlclose thread k' locks handle =>
    obtain ⟨d₁, hd, rfl⟩ := Option.map_eq_some_iff.1 hp
    split
    next d₂ hclose =>
      refine h.set (x := some d₂) (fun d' hd' heq => ?_) (context_lt hd) rfl
      obtain rfl := Option.some.inj hd'
      obtain ⟨hsound, hfixed⟩ := h.2 d₁ (heq ▸ hd)
      rcases Dlfcn.dlclose_cases hclose with ⟨_, hf⟩ | ⟨i, _, hi, rfl⟩
      · cases hf
      · exact ⟨hsound.closed (hsound.opened_iff.1 hi).2.1, hfixed.trans ⟨rfl, rfl, rfl, rfl⟩⟩
    · exact h.same rfl
  | dlsym thread k' locks handle name version caller =>
    obtain ⟨_, _, hp⟩ := Option.bind_eq_some_iff.1 hp
    split at hp
    · exact Option.some.inj hp ▸ h
    · exact Option.some.inj hp ▸ h.same rfl
    · cases hp
  | dlerror thread =>
    obtain rfl := Option.some.inj hp
    exact h.same rfl

/-- Every run keeps the context, or destroys it. -/
theorem Remains.steps (h : w.Remains d k) (hs : machine.Steps w w') : w'.Remains d k := by
  refine hs.keeps (I := fun w => w.Remains d k) (fun w w' hi hstep => ?_) h
  obtain ⟨_, hp⟩ := hstep
  exact hi.perform hp

end Loaders

/-! ## What a name stands for -/

/-- The name of the module at an index. -/
def LoadGroup.nameOf (g : LoadGroup) (index : Nat) : Option (List UInt8) := (g.nodes[index]?).map (·.module.name)

/-- The module that `dlopen` means: the root by the null pointer, a module of the scope by its name, and if
there is none of that name, the module of the alias. -/
def Stands (g : LoadGroup) (aliases : List DlAlias) (name : Option (List UInt8)) (index : Nat) : Prop :=
  index ∈ g.scope ∧
    match name with
    | none => g.scope.head? = some index
    | some name => g.nameOf index = some name ∨ (∀ i ∈ g.scope, g.nameOf i ≠ some name) ∧
        ∃ module, ⟨some name, some module⟩ ∈ aliases ∧ g.nameOf index = some module

namespace Dlfcn

/-- The images are the modules of the scope. -/
theorem readImages_ok {g : LoadGroup} {left index : Nat} {images : List LinkInfo}
    (h : readImages g left index = .ok images)
    {i : Nat} {image : LinkInfo} (hi : images[i]? = some image) :
    ∃ j node, g.scope[index + i]? = some j ∧ g.nodes[j]? = some node ∧ image = node.info := by
  induction left generalizing index images i with
  | zero =>
    obtain rfl := Except.ok.inj h
    cases hi
  | succ left ih =>
    obtain ⟨first, hfirst, h⟩ := bind_eq_ok.1 h
    obtain ⟨rest, hrest, h⟩ := bind_eq_ok.1 h
    obtain rfl := Except.ok.inj h
    cases i with
    | zero =>
      obtain rfl := Option.some.inj hi
      unfold LoadGroup.info at hfirst
      split at hfirst
      · cases hfirst
      next j hj =>
      split at hfirst
      · cases hfirst
      next node hnode => exact ⟨j, node, hj, hnode, (Except.ok.inj hfirst).symm⟩
    | succ i =>
      obtain ⟨j, node, hj, hnode, heq⟩ := ih hrest hi
      rw [Nat.add_assoc, Nat.add_comm 1] at hj
      exact ⟨j, node, hj, hnode, heq⟩

/-- What a context has of the group that it is made for. -/
structure Made (created : LoadGroup) (aliases : List DlAlias) (d : Dlfcn) : Prop where
  alike : LoadGroup.Alike created d.group
  length : d.images.length = created.scope.length
  images : ∀ (i : Nat) (image : LinkInfo), d.images[i]? = some image →
    ∃ index ∈ created.scope[i]?, created.nameOf index = some image.name
  aliases : ∀ a ∈ d.aliases, ∃ module, ⟨some a.path, some module⟩ ∈ aliases ∧ d.find module = some a.index

variable {created : LoadGroup} {aliases : List DlAlias} {d d' : Dlfcn} {i : Nat}

/-- A context that is created is made for its group. -/
theorem made_create {g : Group} {namespaceName : Option (List UInt8)} {next next' : Nat}
    (halike : LoadGroup.Alike created g.toLoadGroup) (h : create g aliases namespaceName next = (.ok d, next')) :
    d.Made created aliases := by
  obtain ⟨_, _, _, _, hgroup, himages, haliases⟩ := create_ok h
  refine ⟨hgroup ▸ halike, ?_, fun i image hi => ?_, haliases⟩
  · rw [readImages_length himages, halike.scope]
  · obtain ⟨j, node, hj, hnode, rfl⟩ := readImages_ok himages hi
    rw [Nat.zero_add, halike.scope] at hj
    refine ⟨j, hj, ?_⟩
    have hname := halike.read (f := (·.module.name)) (fun _ => rfl) j
    unfold LoadGroup.nameOf
    rw [← hname, hnode]
    rfl

/-- A context stays made for its group while what is fixed stays. -/
theorem Made.fixed (h : d.Made created aliases) (hfixed : d.Fixed d') : d'.Made created aliases := by
  refine ⟨hfixed.group ▸ h.alike, hfixed.images ▸ h.length, hfixed.images ▸ h.images, ?_⟩
  have hfind : d'.find = d.find := by
    unfold Dlfcn.find
    rw [hfixed.images]
  rw [hfixed.aliases, hfind]
  exact h.aliases

/-- The index of a name in the images is that of a module of the scope with the name. -/
theorem Made.find (h : d.Made created aliases) {name : List UInt8} (hi : d.find name = some i) :
    ∃ index ∈ created.scope[i]?, created.nameOf index = some name := by
  obtain ⟨hlt, hname, _⟩ := List.findIdx?_eq_some_iff_getElem.1 hi
  obtain ⟨index, hindex, hsame⟩ := h.images i d.images[i] (List.getElem?_eq_getElem hlt)
  exact ⟨index, hindex, hsame.trans (congrArg some (of_decide_eq_true hname))⟩

/-- A name that is not found names no module of the scope. -/
theorem Made.find_none (h : d.Made created aliases) {name : List UInt8} (hnone : d.find name = none) {index : Nat}
    (hindex : index ∈ created.scope) : created.nameOf index ≠ some name := by
  intro hname
  obtain ⟨i, hi⟩ := List.getElem?_of_mem hindex
  have hlt : i < d.images.length := by
    rw [h.length]
    exact (List.getElem?_eq_some_iff.1 hi).1
  obtain ⟨index', hindex', hname'⟩ := h.images i d.images[i] (List.getElem?_eq_getElem hlt)
  obtain rfl : index = index' := Option.some.inj (hi.symm.trans hindex')
  have hne := List.findIdx?_eq_none_iff.1 hnone d.images[i] (List.getElem_mem hlt)
  exact of_decide_eq_false hne (Option.some.inj (hname'.symm.trans hname))

/-- What is selected for a name stands for it in the scope. -/
theorem Made.select (h : d.Made created aliases) {name : Option (List UInt8)} (hi : d.select name = some i)
    (hlt : i < d.images.length) : ∃ index ∈ created.scope[i]?, Stands created aliases name index := by
  cases name with
  | none =>
    obtain rfl := Option.some.inj hi
    obtain ⟨index, hindex, _⟩ := h.images 0 d.images[0] (List.getElem?_eq_getElem hlt)
    refine ⟨index, hindex, List.mem_of_getElem? hindex, ?_⟩
    show created.scope.head? = some index
    rw [List.head?_eq_getElem?]
    exact hindex
  | some name =>
    unfold Dlfcn.select at hi
    dsimp only at hi
    cases hfind : d.find name with
    | some j =>
      rw [hfind] at hi
      obtain rfl : j = i := Option.some.inj hi
      obtain ⟨index, hindex, hname⟩ := h.find hfind
      exact ⟨index, hindex, List.mem_of_getElem? hindex, .inl hname⟩
    | none =>
      rw [hfind] at hi
      obtain ⟨a, ha, rfl⟩ := Option.map_eq_some_iff.1 hi
      have hpath : a.path = name := by simpa using List.find?_some ha
      obtain ⟨module, hmem, hmodule⟩ := h.aliases a (List.mem_of_find?_eq_some ha)
      obtain ⟨index, hindex, hname⟩ := h.find hmodule
      rw [hpath] at hmem
      exact ⟨index, hindex, List.mem_of_getElem? hindex,
        .inr ⟨fun _ hin => h.find_none hfind hin, module, hmem, hname⟩⟩

/-! ## Lookups -/

section Created

variable {modules : List Module} {root : Nat}

/-- A module is found by its name, which is its own. -/
theorem find_nameOf (hcreated : Created modules root created) (hdistinct : Distinct modules) {index : Nat}
    {name : List UInt8}
    (hname : created.nameOf index = some name) : created.find name = index := by
  obtain ⟨node, hnode, rfl⟩ := Option.map_eq_some_iff.1 hname
  have hmodule : modules[index]? = some node.module := by
    rw [← hcreated.nodes, List.getElem?_map, hnode]
    rfl
  have hfound := hdistinct.find_eq (List.mem_of_getElem? hmodule)
  unfold LoadGroup.find
  rw [hcreated.nodes]
  exact hdistinct.eq_of_name hfound hmodule rfl

/-- A handle that is opened is neither of the special values. -/
theorem Sound.special (h : d.Sound) {handle : Nat} (hi : d.opened handle = some i) :
    handle ≠ 0 ∧ handle ≠ uint64Max := by
  obtain ⟨rfl, hlt, _⟩ := h.opened_iff.1 hi
  have hle := h.images.2
  obtain ⟨n, hn, hpos, hbelow⟩ := h.identity
  rw [h.handle_eq (by omega), hn]
  unfold maxModules at hle
  unfold uint64Max
  omega

/-- On an open handle `dlsym` is the group's lookup from the opened module. -/
theorem dlsym_opened {handle : Nat} (hspecial : handle ≠ 0 ∧ handle ≠ uint64Max) (hi : d.opened handle = some i)
    {image : LinkInfo} (himage : d.images[i]? = some image) (name : List UInt8) (version : Option (List UInt8))
    (caller : Nat) :
    d.dlsym true handle (some name) version caller = reply (d.group.lookupFrom name version image.name 0) := by
  show (if handle = 0 then _ else if handle = uint64Max then _ else _) = _
  rw [if_neg hspecial.1, if_neg hspecial.2, hi]
  dsimp only [require, bind, Except.bind]
  rw [himage]
  rfl

/-- A lookup through a handle that is opened goes over the closure of its module. -/
theorem Made.dlsym (h : d.Made created aliases) (hcreated : Created modules root created) (hdistinct : Distinct modules)
    (hsound : d.Sound) {handle index : Nat} (hi : d.opened handle = some i) (hindex : created.scope[i]? = some index) :
    ∃ closure, BreadthFirst (needs modules) index closure ∧ ∀ name version caller,
      d.dlsym true handle (some name) version caller =
        reply (firstFound 0 (closure.map (created.probe name version 0))) := by
  obtain ⟨_, hlt, _⟩ := hsound.opened_iff.1 hi
  obtain ⟨index', hindex', hname⟩ := h.images i d.images[i] (List.getElem?_eq_getElem hlt)
  obtain rfl : index = index' := Option.some.inj (hindex.symm.trans hindex')
  have hfind : d.group.find d.images[i].name = index := by
    rw [h.alike.find]
    exact find_nameOf hcreated hdistinct hname
  have hmem : d.group.find d.images[i].name ∈ d.group.scope := by
    rw [hfind, h.alike.scope]
    exact List.mem_of_getElem? hindex
  have hneeds : needs (d.group.nodes.map (·.module)) = needs modules := by
    rw [← hcreated.nodes]
    exact funext h.alike.needs
  have hmain : ∀ name version, ∃ closure, BreadthFirst (needs modules) index closure ∧
      d.group.lookupFrom name version d.images[i].name 0 =
        firstFound 0 (closure.map (created.probe name version 0)) := by
    intro name version
    obtain ⟨closure, hclosure, heq⟩ :=
      @LoadGroup.lookupFrom_eq d.group name version 0 _ _ (h.alike.created hcreated) _ hmem
    rw [hfind, hneeds] at hclosure
    refine ⟨closure, hclosure, heq.trans (congrArg (firstFound 0) (List.map_congr_left fun j _ => ?_))⟩
    exact h.alike.probe name version 0 j
  obtain ⟨closure, hclosure, _⟩ := hmain [] none
  refine ⟨closure, hclosure, fun name version caller => ?_⟩
  obtain ⟨closure', hclosure', heq⟩ := hmain name version
  rw [dlsym_opened (hsound.special hi) hi (List.getElem?_eq_getElem hlt), hclosure.unique hclosure', heq]

/-- The lookup by default goes over the scope. -/
theorem Made.dlsym_default (h : d.Made created aliases) (locks : Bool) (name : List UInt8)
    (version : Option (List UInt8)) (caller : Nat) :
    d.dlsym locks 0 (some name) version caller = reply (created.lookup name version 0) := by
  have hlookup : d.group.lookup name version 0 = created.lookup name version 0 := by
    rw [LoadGroup.lookup_eq, LoadGroup.lookup_eq, h.alike.scope]
    exact congrArg (firstFound 0) (List.map_congr_left fun j _ => h.alike.probe name version 0 j)
  rw [← hlookup]
  rfl

end Created

end Dlfcn

namespace Loaders

variable {w w' : Loaders} {created : LoadGroup} {aliases : List DlAlias} {d : Dlfcn}

/-- A context that a call has made. -/
theorem made_context {g : Group} {namespaceName : Option (List UInt8)} (halike : LoadGroup.Alike created g.toLoadGroup)
    (hnew : w.perform (.create g aliases namespaceName) = some w') (hd : w'.context w.contexts.length = some d) :
    d.Made created aliases ∧ w'.Remains d w.contexts.length := by
  unfold Loaders.perform at hnew
  dsimp only at hnew
  split at hnew
  next d' next hcreate =>
    obtain rfl := Option.some.inj hnew
    unfold Loaders.context at hd
    rw [List.getElem?_append_right (Nat.le_refl _), Nat.sub_self] at hd
    obtain rfl : d' = d := Option.some.inj hd
    refine ⟨Dlfcn.made_create halike hcreate, ?_, fun d₁ hd₁ => ?_⟩
    · show w.contexts.length < (w.contexts ++ [some d']).length
      rw [List.length_append]
      exact Nat.lt_succ_self _
    · unfold Loaders.context at hd₁
      rw [List.getElem?_append_right (Nat.le_refl _), Nat.sub_self] at hd₁
      obtain rfl : d' = d₁ := Option.some.inj hd₁
      exact ⟨(Dlfcn.create_ok hcreate).1, rfl, rfl, rfl, rfl⟩
  · obtain rfl := Option.some.inj hnew
    exact absurd (context_lt hd) (Nat.lt_irrefl _)
  · cases hnew

/-- A reply is wrong only if the lookup is. -/
theorem reply_ne_wrong {r : Checked Empty (Option ElfError × Nat)} (h : r ≠ .error .wrong) :
    Dlfcn.reply r ≠ .error .wrong := by
  unfold Dlfcn.reply
  split
  · exact nofun
  · exact nofun
  next stop =>
    cases stop with
    | error e => exact e.elim
    | wrong => exact absurd rfl h

/-- A symbol is what the name meant. In every run: where a context was made of a group that
`artbox_load_group_create` had given, at any point of the group's life, a name was opened in it, and the
handle is accepted later, a lookup through the handle gives the first definition, breadth first from
the module that the name stands for, in the group as it was created. Through the handle of the null pointer this
is the default lookup. Over tables that were opened no lookup reads outside an image. -/
theorem dlsym_resolves {manifest : List LinkModule} {root : List UInt8} {events : List Event} {p : Process}
    {w₁ w₂ w₃ : Loaders} {namespaceName name : Option (List UInt8)} {d₁ d₂ d₃ d' : Dlfcn} {locks : Bool}
    {flags : BitVec 32} {extension : BitVec 64} {namespaceHandle handle : Nat}
    (hcreate : create manifest (some root) = .ok created) (hruns : Runs (.start created) events p)
    (hnew : w.perform (.create p.group aliases namespaceName) = some w₁)
    (hd₁ : w₁.context w.contexts.length = some d₁) (hsteps : machine.Steps w₁ w₂)
    (hd₂ : w₂.context w.contexts.length = some d₂)
    (hopen : d₂.dlopen locks name flags extension namespaceHandle = (.ok handle, d'))
    (hsteps' : machine.Steps w₂ w₃) (hd₃ : w₃.context w.contexts.length = some d₃)
    (haccepts : (d₃.opened handle).isSome = true) :
    ∃ index closure, Stands created aliases name index ∧
      BreadthFirst (needs (created.nodes.map (·.module))) index closure ∧
      (∀ symbol version caller, d₃.dlsym true handle (some symbol) version caller =
        Dlfcn.reply (firstFound 0 (closure.map (created.probe symbol version 0)))) ∧
      (name = none → ∀ symbol version caller, d₃.dlsym true handle (some symbol) version caller =
        d₃.dlsym true 0 (some symbol) version caller) ∧
      (created.Opened →
        ∀ symbol version caller, d₃.dlsym true handle (some symbol) version caller ≠ .error .wrong) := by
  obtain ⟨modules, hmodules, _, hcreated⟩ := (create_safe manifest root).of_ok hcreate
  have hdistinct := checkModules_distinct hmodules List.nodup_nil
  obtain ⟨hmade, hremains⟩ := made_context hruns.alike hnew hd₁
  have hremains₂ := hremains.steps hsteps
  obtain ⟨hsound₂, hfixed₂⟩ := hremains₂.2 d₂ hd₂
  obtain ⟨hsound₃, hfixed₃⟩ := (hremains₂.steps hsteps').2 d₃ hd₃
  have hmade₃ := hmade.fixed hfixed₃
  rcases Dlfcn.dlopen_cases hopen with ⟨_, hf⟩ | ⟨i, hi, hselect, _⟩
  · cases hf
  have hlt := hsound₂.select_lt hselect
  obtain ⟨index, hindex, hstands⟩ := (hmade.fixed hfixed₂).select hselect hlt
  -- the handle is that of the same module later
  obtain ⟨j, hj⟩ := Option.isSome_iff_exists.1 haccepts
  obtain ⟨hhandle, hlt', _⟩ := hsound₃.opened_iff.1 hj
  obtain rfl : i = j := by
    rw [Except.ok.inj hi, hfixed₂.handle, ← hfixed₃.handle] at hhandle
    refine hsound₃.handle_inj ?_ hlt' hhandle
    rw [hfixed₃.images, ← hfixed₂.images]
    exact hlt
  obtain ⟨closure, hclosure, hdlsym⟩ := hmade₃.dlsym hcreated hdistinct hsound₃ hj hindex
  refine ⟨index, closure, hstands, hcreated.nodes ▸ hclosure, hdlsym, fun hname symbol version caller => ?_,
    fun hopened symbol version caller => ?_⟩
  · subst hname
    have hroot : created.scope.head? = some index := hstands.2
    obtain rfl := Option.some.inj (hcreated.scope.head.symm.trans hroot)
    rw [hdlsym, hmade₃.dlsym_default, hclosure.unique hcreated.scope, LoadGroup.lookup_eq]
  · rw [hdlsym]
    refine reply_ne_wrong (LoadGroup.firstFound_not_wrong fun j hj => ?_)
    refine LoadGroup.probe_not_wrong hcreated hopened ?_
    exact Reaches.mem (P := (· ∈ created.scope)) hcreated.closed hstands.1 ((hclosure.mem_iff j).1 hj)

/-- Tables with a symbol `f` at 256 and a SysV hash table of one bucket. -/
def sampleDefiner : Elf.Dynamic where
  image := {
    data := ⟨4096, [0, 102, 0, 0] ++ List.replicate 24 0 ++
      [1, 0, 0, 0, 0x12, 0, 1, 0, 0, 1, 0, 0, 0, 0, 0, 0, 4, 0, 0, 0, 0, 0, 0, 0] ++
      [1, 0, 0, 0] ++ List.replicate 8 0, by decide⟩
    entry := 0, type := 3, programHeaderCount := 0, programHeaderOffset := 0
    segments := [⟨0, 0x1000, 0, 64, 1, 4⟩] }
  stringsSize := 4
  symbols := 4
  symbolCount := 2
  sysvBuckets := 52
  sysvChains := 56
  sysvBucketCount := 1

/-- A root that needs a module which defines the same symbol. -/
def sampleProviders : List LinkModule :=
  [{ name := some [97], dynamic := some (1, { sampleDefiner with needed := [[98]] }), loadBias := 0x1000
     memory := some [] },
    { name := some [98], dynamic := some (2, sampleDefiner), loadBias := 0x2000, memory := some [] }]

/-- A context of the group once it is relocated, with a path for the second provider. -/
def sampleContext : Option (LoadGroup × Process × Loaders) := do
  let created ← (create sampleProviders (some [97])).toOption
  let p ← (Process.start created).steps [.relocate none sampleHeap]
  let w ← perform {} (.create p.group [⟨some [47, 98], some [98]⟩] none)
  return (created, p, w)

/-- The sample runs: a group, its relocation and a context with a path. -/
theorem sampleContext_some {created : LoadGroup} {p : Process} {w : Loaders}
    (h : sampleContext = some (created, p, w)) :
    create sampleProviders (some [97]) = .ok created ∧ Runs (.start created) [.relocate none sampleHeap] p ∧
      perform {} (.create p.group [⟨some [47, 98], some [98]⟩] none) = some w := by
  unfold sampleContext at h
  obtain ⟨created', hcreate, h⟩ := Option.bind_eq_some_iff.1 h
  obtain ⟨p', hp, h⟩ := Option.bind_eq_some_iff.1 h
  obtain ⟨w', hw, h⟩ := Option.bind_eq_some_iff.1 h
  cases h
  refine ⟨?_, Runs.nil.steps hp, hw⟩
  cases hcase : create sampleProviders (some [97]) with
  | ok g =>
    rw [hcase] at hcreate
    exact congrArg Except.ok (Option.some.inj hcreate)
  | error _ =>
    rw [hcase] at hcreate
    cases hcreate

/-- The handle of the path gives the needed module's definition, the default lookup the root's. -/
theorem dlsym_resolves_sample : ∃ created p w d d', create sampleProviders (some [97]) = .ok created ∧
    perform {} (.create p [⟨some [47, 98], some [98]⟩] none) = some w ∧ w.context 0 = some d ∧
    d.dlopen true (some [47, 98]) 0 0 0 = (.ok 259, d') ∧ d'.dlsym true 259 (some [102]) none 0 = .ok 0x2100 ∧
    d'.dlsym true 0 (some [102]) none 0 = .ok 0x1100 ∧ ∃ index closure,
      Stands created [⟨some [47, 98], some [98]⟩] (some [47, 98]) index ∧
      BreadthFirst (needs (created.nodes.map (·.module))) index closure ∧
        Dlfcn.reply (firstFound 0 (closure.map (created.probe [102] none 0))) = .ok 0x2100 := by
  have hfacts : ∃ r ∈ sampleContext, ∃ d ∈ r.2.2.context 0,
      let o := d.dlopen true (some [47, 98]) 0 0 0
      o.1 = .ok 259 ∧ (r.2.2.becomes 0 o.2 (.opened 0 259)).context 0 = some o.2 ∧ (o.2.opened 259).isSome = true ∧
        o.2.dlsym true 259 (some [102]) none 0 = .ok 0x2100 ∧ o.2.dlsym true 0 (some [102]) none 0 = .ok 0x1100 := by
    decide +kernel
  obtain ⟨⟨created, p, w⟩, hr, d, hd, hhandle, hlater, haccepts, hsymbol, hdefault⟩ := hfacts
  obtain ⟨hcreate, hruns, hw⟩ := sampleContext_some hr
  obtain ⟨d', hopen⟩ : ∃ d', d.dlopen true (some [47, 98]) 0 0 0 = (.ok 259, d') := ⟨_, Prod.ext hhandle rfl⟩
  rw [hopen] at hlater haccepts hsymbol hdefault
  have hstep : w.perform (.dlopen none 0 true (some [47, 98]) 0 0 0) = some (w.becomes 0 d' (.opened 0 259)) := by
    unfold Loaders.perform
    dsimp only
    rw [hd, Option.map_some, hopen]
  obtain ⟨index, closure, hstands, hclosure, hdlsym, _⟩ :=
    dlsym_resolves hcreate hruns hw hd .refl hd hopen (.single ⟨_, hstep⟩) hlater haccepts
  exact ⟨created, p.group, w, d, d', hcreate, hw, hd, hopen, hsymbol, hdefault, index, closure, hstands, hclosure,
    (hdlsym [102] none 0).symm.trans hsymbol⟩

end Loaders

end Artbox.Linker
