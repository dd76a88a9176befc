import Artbox.Linker.Scope
import Artbox.Elf.Bounds

/-!
# Lookup in a group

Three loops look a symbol up: over the stored scope, over a queue of its own and over the rest
of the scope. Each gives the first result other than `notFound` over a list of modules
(`firstFound`); the queue's list is the breadth-first closure of its module, of which there is
one.
-/

namespace Artbox.Linker

open Elf Checked Traversal

/-- The first of the modules' results that is not `notFound`. -/
def firstFound (out : Nat) (results : List (Checked Empty (Option ElfError × Nat))) :
    Checked Empty (Option ElfError × Nat) :=
  (results.find? fun r => r ≠ .ok (some .notFound, out)).getD (.ok (some .notFound, out))

/-- Every result but success leaves the output as it is. -/
def Keeps (out : Nat) (r : Checked Empty (Option ElfError × Nat)) : Prop :=
  ∀ e out', r = .ok (some e, out') → out' = out

/-- A symbol that is refused leaves the output. -/
theorem symbolAddress_keeps (m : Module) (symbol : Symbol) (out : Nat) :
    Keeps out (.ok (symbolAddress m symbol out)) := by
  intro e out' h
  have h := Except.ok.inj h
  unfold symbolAddress at h
  split at h
  · exact (Prod.mk.inj h).2.symm
  split at h
  · cases h
  split at h
  · exact (Prod.mk.inj h).2.symm
  split at h
  · cases h
  · exact (Prod.mk.inj h).2.symm

/-- A lookup in one module writes the output only where it succeeds. -/
theorem Module.lookup_keeps (m : Module) (name : List UInt8) (version : Option (List UInt8)) (out : Nat) :
    Keeps out (m.lookup name version out) := by
  unfold Module.lookup
  split
  · exact symbolAddress_keeps m _ out
  · intro e out' h
    exact (Prod.mk.inj (Except.ok.inj h)).2.symm
  · intro e out' h
    cases h

namespace LoadGroup

variable {g : LoadGroup} {name : List UInt8} {version : Option (List UInt8)} {out : Nat}

/-- A lookup in a module of the group writes the output only where it succeeds. -/
theorem probe_keeps (index : Nat) : Keeps out (g.probe name version out index) := by
  unfold probe
  split
  next node _ => exact node.module.lookup_keeps name version out
  · intro e out' h
    cases h

/-- A loop that stops at the first result other than `notFound`. -/
theorem firstFound_cons (index : Nat) (rest : List (Checked Empty (Option ElfError × Nat)))
    {f : Nat → Checked Empty (Option ElfError × Nat)} (hnext : f out = firstFound out rest) :
    (g.probe name version out index >>= fun r => if r.1 ≠ some .notFound then pure r else f r.2) =
      firstFound out (g.probe name version out index :: rest) := by
  have hkeeps : Keeps out (g.probe name version out index) := probe_keeps index
  unfold firstFound
  cases hprobe : g.probe name version out index with
  | error s =>
    rw [List.find?_cons_of_pos (by simp)]
    rfl
  | ok r =>
    obtain ⟨result, out'⟩ := r
    by_cases hr : result = some .notFound
    · subst hr
      obtain rfl := hkeeps _ _ hprobe
      rw [List.find?_cons_of_neg (by simp)]
      exact hnext
    · rw [List.find?_cons_of_pos (by simp [hr])]
      show (if result ≠ some .notFound then pure (result, out') else f out') = _
      rw [if_pos hr]
      rfl

/-- The loop over indices returns the first result that is found. -/
theorem lookupIn_eq (indices : List Nat) :
    g.lookupIn name version out indices = firstFound out (indices.map (g.probe name version out)) := by
  induction indices with
  | nil => rfl
  | cons index rest ih => exact firstFound_cons (f := fun out => g.lookupIn name version out rest) index _ ih

/-- `artbox_load_group_lookup` is the first result along the scope. -/
theorem lookup_eq : g.lookup name version out = firstFound out (g.scope.map (g.probe name version out)) :=
  lookupIn_eq g.scope

/-! ## The queue -/

/-- The array has room for what is put into the queue. -/
theorem enqueue_eq {l : List Nat} {queue : Found Nat} (h : (queue.pushAll l).order.length ≤ maxModules) :
    enqueue l queue = .ok (queue.pushAll l) := by
  induction l generalizing queue with
  | nil => rfl
  | cons index rest ih =>
    have hrest : enqueue rest (queue.push index) = .ok ((queue.push index).pushAll rest) := ih h
    rw [Found.pushAll_cons] at h ⊢
    unfold enqueue
    by_cases hmarked : queue.marked index = true
    · have hpush : queue.push index = queue := if_pos hmarked
      rw [hpush] at hrest ⊢
      rw [if_pos hmarked]
      exact hrest
    · have hpush : queue.push index = (queue.mark index).put index := if_neg hmarked
      rw [if_neg hmarked, hpush]
      rw [hpush] at hrest h
      have hroom : queue.order.length < maxModules := by
        have hle := (Found.prefix_pushAll ((queue.mark index).put index) rest).length_le
        rw [Found.put_order, Found.mark_order, List.length_append] at hle
        exact Nat.lt_of_lt_of_le (Nat.lt_succ_self _) (Nat.le_trans hle h)
      show (within (queue.order.length < maxModules) >>= fun _ => _) = _
      unfold within
      rw [if_pos hroom]
      exact hrest

/-- The loop over a queue that grows is the first result in breadth-first order. -/
theorem lookupQueue_eq {first rounds cursor : Nat} {queue : Found Nat} {all : List Nat}
    (hall : ∀ i, Reaches (dependencies g.nodes) first i → i ∈ all) (hsmall : all.length ≤ maxModules)
    (h : Growing (dependencies g.nodes) first cursor queue) (hrounds : all.length ≤ cursor + rounds) :
    g.lookupQueue name version rounds cursor queue out = firstFound out
      (((grow (dependencies g.nodes) rounds cursor queue).order.drop cursor).map (g.probe name version out)) := by
  induction rounds generalizing cursor queue with
  | zero =>
    have hend : queue.order.length ≤ cursor := Nat.le_trans (h.length_le hall) hrounds
    unfold lookupQueue grow
    rw [if_neg (Nat.not_lt.2 hend), List.drop_of_length_le hend]
    rfl
  | succ rounds ih =>
    unfold lookupQueue
    split
    next hnone =>
      unfold grow
      rw [hnone, List.drop_of_length_le (List.getElem?_eq_none_iff.1 hnone)]
      rfl
    next index hindex =>
      have hstep := h.step hindex
      rw [drop_grow hindex, List.map_cons, enqueue_eq (Nat.le_trans (hstep.length_le hall) hsmall)]
      exact firstFound_cons (f := fun out => g.lookupQueue name version rounds (cursor + 1) _ out) index _
        (ih hstep (by omega))

/-- The lookup from a module of the scope goes over the module's closure. -/
theorem lookupFrom_eq {modules : List Module} {root : Nat} (h : Created modules root g) {module : List UInt8}
    (hmem : g.find module ∈ g.scope) :
    ∃ closure, BreadthFirst (needs modules) (g.find module) closure ∧
      g.lookupFrom name version module out = firstFound out (closure.map (g.probe name version out)) := by
  have hall : ∀ i, Reaches (dependencies g.nodes) (g.find module) i → i ∈ g.scope := fun i hi => by
    refine Reaches.mem (P := (· ∈ g.scope)) (fun j hj k hk => ?_) hmem hi
    rw [h.linked j hj] at hk
    exact h.closed j hj k hk
  have hsmall : g.scope.length ≤ maxModules := h.scope_length
  have hstart := Growing.start (dependencies g.nodes) (g.find module)
  have hbreadth : BreadthFirst (dependencies g.nodes) (g.find module)
      (grow (dependencies g.nodes) maxModules 0 (Found.start.push (g.find module))).order :=
    grow_breadthFirst hall hstart (by omega)
  refine ⟨_, hbreadth.congr fun i hi => ?_, ?_⟩
  · exact (h.linked i (hall i ((hbreadth.mem_iff i).1 hi))).symm
  · unfold lookupFrom
    rw [if_neg (not_not.2 hmem), lookupQueue_eq hall hsmall hstart (by omega)]
    rfl

/-! ## The rest of the scope -/

/-- Behind its origin the search is the plain one. -/
theorem lookupAfter_true (origin : Nat) (indices : List Nat) :
    g.lookupAfter name version origin true indices out =
      firstFound out (indices.map (g.probe name version out)) := by
  induction indices with
  | nil => rfl
  | cons index rest ih =>
    exact firstFound_cons (f := fun out => g.lookupAfter name version origin true rest out) index _ ih

/-- Before its origin the search passes over every module. -/
theorem lookupAfter_before {origin : Nat} {before : List Nat} (h : origin ∉ before) (rest : List Nat) :
    g.lookupAfter name version origin false (before ++ rest) out =
      g.lookupAfter name version origin false rest out := by
  induction before with
  | nil => rfl
  | cons index before ih =>
    have hne : index ≠ origin := fun heq => h (heq ▸ List.mem_cons_self)
    show g.lookupAfter name version origin (false || decide (index = origin)) (before ++ rest) out = _
    rw [decide_eq_false hne]
    exact ih fun hin => h (List.mem_cons_of_mem _ hin)

/-- The search takes the first result behind the first place of its origin. -/
theorem lookupAfter_behind {origin : Nat} {before behind : List Nat} (h : origin ∉ before) :
    g.lookupAfter name version origin false (before ++ origin :: behind) out =
      firstFound out (behind.map (g.probe name version out)) := by
  rw [lookupAfter_before h]
  show g.lookupAfter name version origin (false || decide (origin = origin)) behind out = _
  rw [decide_eq_true rfl]
  exact lookupAfter_true origin behind

/-- The module at an index of the group has an address. -/
def Has (g : LoadGroup) (index address : Nat) : Prop := ∃ node ∈ g.nodes[index]?, node.module.Contains address

/-- Whether a module contains an address, read off the table of nodes. -/
theorem has_iff (index address : Nat) :
    ((g.nodes[index]?).any (·.module.Contains address)) = true ↔ g.Has index address := by
  unfold Has
  cases g.nodes[index]? with
  | none => simp
  | some node => simp

/-- The first module of the scope with an address contains it. -/
theorem containing_behind {before behind : List Nat} {index address : Nat}
    (hscope : g.scope = before ++ index :: behind) (hindex : g.Has index address)
    (hbefore : ∀ i ∈ before, ¬ g.Has i address) : g.containing address = index := by
  unfold containing
  have hhas := (has_iff index address).2 hindex
  rw [hscope, List.find?_append, List.find?_eq_none.2 fun i hi hany => hbefore i hi ((has_iff i address).1 hany),
    Option.none_or, List.find?_cons, hhas]
  rfl

/-- An address outside of the scope is in no module. -/
theorem containing_none {address : Nat} (h : ∀ i ∈ g.scope, ¬ g.Has i address) :
    g.containing address = g.nodes.length := by
  unfold containing
  rw [List.find?_eq_none.2 fun i hi hany => h i hi ((has_iff i address).1 hany)]
  rfl

/-! ## Outputs -/

/-- Without a result that is found the output stays. -/
theorem firstFound_keeps (indices : List Nat) :
    Keeps out (firstFound out (indices.map (g.probe name version out))) := by
  unfold firstFound
  cases hfind : (indices.map (g.probe name version out)).find? fun r => r ≠ .ok (some .notFound, out) with
  | none =>
    intro e out' h
    exact (Prod.mk.inj (Except.ok.inj h)).2.symm
  | some r =>
    obtain ⟨index, _, rfl⟩ := List.mem_map.1 (List.mem_of_find?_eq_some hfind)
    exact probe_keeps index

/-- A lookup reads outside an image only if the lookup in one of the modules does. -/
theorem firstFound_not_wrong {indices : List Nat} (h : ∀ i ∈ indices, g.probe name version out i ≠ .error .wrong) :
    firstFound out (indices.map (g.probe name version out)) ≠ .error .wrong := by
  unfold firstFound
  cases hfind : (indices.map (g.probe name version out)).find? fun r => r ≠ .ok (some .notFound, out) with
  | none => exact nofun
  | some r =>
    obtain ⟨index, hindex, rfl⟩ := List.mem_map.1 (List.mem_of_find?_eq_some hfind)
    exact h index hindex

/-! ## What each lookup searches -/

/-- The lookup is a search of modules of the scope. -/
def Searches (g : LoadGroup) (name : List UInt8) (version : Option (List UInt8)) (out : Nat)
    (r : Checked Empty (Option ElfError × Nat)) : Prop :=
  ∃ indices : List Nat, r = firstFound out (indices.map (g.probe name version out)) ∧ ∀ i ∈ indices, i ∈ g.scope

/-- A search writes the output only where it succeeds. -/
theorem Searches.keeps {r : Checked Empty (Option ElfError × Nat)} (h : g.Searches name version out r) :
    Keeps out r := by
  obtain ⟨indices, rfl, _⟩ := h
  exact firstFound_keeps indices

section Group

variable {modules : List Module} {root : Nat}

/-- The tables of a module that was opened are read within bounds. -/
theorem probe_not_wrong (h : Created modules root g)
    (hopen : ∀ node ∈ g.nodes, ∃ image d, dynamicOpen image d = .ok (none, node.module.dynamic)) {i : Nat}
    (hi : i ∈ g.scope) : g.probe name version out i ≠ .error .wrong := by
  have hlt := h.inside i hi
  rw [← h.nodes, List.length_map] at hlt
  obtain ⟨image, d, hdynamic⟩ := hopen g.nodes[i] (List.getElem_mem hlt)
  have hvalid := ((openDynamic_safe image).of_ok (openDynamic_of_ok hdynamic)).2
  unfold probe
  rw [List.getElem?_eq_getElem hlt]
  show Module.lookup _ _ _ _ ≠ _
  unfold Module.lookup
  split
  · exact nofun
  · exact nofun
  next hwrong => exact absurd hwrong (lookupVersion_safe hvalid.toSound name version).not_wrong

/-- A search reads within bounds where all tables were opened. -/
theorem Searches.not_wrong (h : Created modules root g)
    (hopen : ∀ node ∈ g.nodes, ∃ image d, dynamicOpen image d = .ok (none, node.module.dynamic))
    {r : Checked Empty (Option ElfError × Nat)} (hr : g.Searches name version out r) : r ≠ .error .wrong := by
  obtain ⟨indices, rfl, hscope⟩ := hr
  exact firstFound_not_wrong fun i hi => probe_not_wrong h hopen (hscope i hi)

/-- A module outside of the scope is not searched. -/
theorem lookupFrom_outside {module : List UInt8} (hmem : g.find module ∉ g.scope) :
    g.lookupFrom name version module out = .ok (some .notFound, out) := if_pos hmem

/-- The search from a module is over its own closure. -/
theorem lookupFrom_searches (h : Created modules root g) (module : List UInt8) :
    g.Searches name version out (g.lookupFrom name version module out) := by
  by_cases hmem : g.find module ∈ g.scope
  · obtain ⟨closure, hclosure, heq⟩ := lookupFrom_eq h hmem
    refine ⟨closure, heq, fun i hi => ?_⟩
    exact Reaches.mem (P := (· ∈ g.scope)) h.closed hmem ((hclosure.mem_iff i).1 hi)
  · exact ⟨[], lookupFrom_outside hmem, nofun⟩

/-- `RTLD_NEXT` searches what is behind the caller's module in the scope. -/
theorem lookupNext_behind {before behind : List Nat} {index caller : Nat}
    (hscope : g.scope = before ++ index :: behind) (hindex : g.Has index caller)
    (hbefore : ∀ i ∈ before, ¬ g.Has i caller) :
    g.lookupNext name version caller out = firstFound out (behind.map (g.probe name version out)) := by
  unfold lookupNext
  rw [containing_behind hscope hindex hbefore, hscope]
  exact lookupAfter_behind fun hin => hbefore index hin hindex

/-- A caller outside of the group finds nothing. -/
theorem lookupNext_outside (h : Created modules root g) {caller : Nat} (hcaller : ∀ i ∈ g.scope, ¬ g.Has i caller) :
    g.lookupNext name version caller out = .ok (some .notFound, out) := by
  have hnot : g.nodes.length ∉ g.scope := by
    intro hin
    have hlt := h.inside _ hin
    rw [← h.nodes, List.length_map] at hlt
    exact absurd hlt (Nat.lt_irrefl _)
  unfold lookupNext
  rw [containing_none hcaller, ← List.append_nil g.scope, lookupAfter_before hnot]
  rfl

/-- `RTLD_NEXT` is a search of modules of the scope. -/
theorem lookupNext_searches (h : Created modules root g) (caller : Nat) :
    g.Searches name version out (g.lookupNext name version caller out) := by
  cases hfind : g.scope.find? fun i => (g.nodes[i]?).any (·.module.Contains caller) with
  | none =>
    have hall := List.find?_eq_none.1 hfind
    exact ⟨[], lookupNext_outside h fun i hi hhas => hall i hi ((has_iff i caller).2 hhas), nofun⟩
  | some index =>
    obtain ⟨hany, before, behind, hscope, hbefore⟩ := List.find?_eq_some_iff_append.1 hfind
    refine ⟨behind, lookupNext_behind hscope ((has_iff index caller).1 hany) fun i hi hhas => ?_, fun i hi => ?_⟩
    · have hnot := hbefore i hi
      rw [(has_iff i caller).2 hhas] at hnot
      cases hnot
    · rw [hscope]
      exact List.mem_append_right _ (List.mem_cons_of_mem _ hi)

end Group

end LoadGroup

/-! ## The lookups agree -/

/-- The three lookups in every group that is created: each is the first result other than
`notFound` over its modules, and from the root they are the modules of the scope. Only success
sets the output, and over tables that were opened no lookup reads outside an image. -/
theorem lookups_agree {manifest : List LinkModule} {root : List UInt8} {g : LoadGroup}
    (h : create manifest (some root) = .ok g) (name : List UInt8) (version : Option (List UInt8)) (out : Nat) :
    g.lookup name version out = firstFound out (g.scope.map (g.probe name version out)) ∧
      g.lookupFrom name version root out = g.lookup name version out ∧
      (∀ module, g.find module ∉ g.scope → g.lookupFrom name version module out = .ok (some .notFound, out)) ∧
      (∀ module, g.find module ∈ g.scope → ∃ closure,
        BreadthFirst (needs (g.nodes.map (·.module))) (g.find module) closure ∧
          g.lookupFrom name version module out = firstFound out (closure.map (g.probe name version out))) ∧
      (∀ caller before index behind, g.scope = before ++ index :: behind → g.Has index caller →
        (∀ i ∈ before, ¬ g.Has i caller) →
          g.lookupNext name version caller out = firstFound out (behind.map (g.probe name version out))) ∧
      (∀ caller, (∀ i ∈ g.scope, ¬ g.Has i caller) →
        g.lookupNext name version caller out = .ok (some .notFound, out)) ∧
      (Keeps out (g.lookup name version out) ∧ (∀ module, Keeps out (g.lookupFrom name version module out)) ∧
        ∀ caller, Keeps out (g.lookupNext name version caller out)) ∧
      ((∀ node ∈ g.nodes, ∃ image d, dynamicOpen image d = .ok (none, node.module.dynamic)) →
        g.lookup name version out ≠ .error .wrong ∧
          (∀ module, g.lookupFrom name version module out ≠ .error .wrong) ∧
            ∀ caller, g.lookupNext name version caller out ≠ .error .wrong) := by
  obtain ⟨modules, _, hfirst, hcreated⟩ := (create_safe manifest root).of_ok h
  have hroot : g.find root = find modules root := congrArg (find · root) hcreated.nodes
  have hlookup : g.Searches name version out (g.lookup name version out) :=
    ⟨g.scope, LoadGroup.lookup_eq, fun _ hi => hi⟩
  have hfrom : ∀ module, g.Searches name version out (g.lookupFrom name version module out) :=
    LoadGroup.lookupFrom_searches hcreated
  have hnext : ∀ caller, g.Searches name version out (g.lookupNext name version caller out) :=
    LoadGroup.lookupNext_searches hcreated
  refine ⟨LoadGroup.lookup_eq, ?_, fun module hmem => LoadGroup.lookupFrom_outside hmem, fun module hmem => ?_,
    fun caller before index behind hscope hindex hbefore => LoadGroup.lookupNext_behind hscope hindex hbefore,
    fun caller hcaller => LoadGroup.lookupNext_outside hcreated hcaller,
    ⟨hlookup.keeps, fun module => (hfrom module).keeps, fun caller => (hnext caller).keeps⟩,
    fun hopen => ⟨hlookup.not_wrong hcreated hopen, fun module => (hfrom module).not_wrong hcreated hopen,
      fun caller => (hnext caller).not_wrong hcreated hopen⟩⟩
  · -- the queue of the root has the order of the scope
    have hmem : g.find root ∈ g.scope := by
      rw [hroot]
      exact hcreated.root_mem
    obtain ⟨closure, hclosure, heq⟩ := LoadGroup.lookupFrom_eq hcreated hmem
    rw [hroot] at hclosure
    rw [heq, hclosure.unique hcreated.scope, LoadGroup.lookup_eq]
  · rw [hcreated.nodes]
    exact LoadGroup.lookupFrom_eq hcreated hmem

/-- From the sample's root the lookup is the group's own. -/
theorem lookups_agree_sample : ∃ g, create sampleManifest (some [111]) = .ok g ∧
    g.lookupFrom [102] none [111] 7 = g.lookup [102] none 7 := by
  obtain ⟨g, hg, _⟩ := sample_created
  exact ⟨g, hg, (lookups_agree hg [102] none 7).2.1⟩

end Artbox.Linker
