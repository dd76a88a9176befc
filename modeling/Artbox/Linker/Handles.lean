import Artbox.Linker.Dlfcn
import Artbox.Lib.Trace

/-!
# Handles of the loader calls

A context's reference counts are the openings of its handles that were not closed again, and no two
contexts of a process share a handle, so a handle is worth exactly what `dlopen` gave for it
(`Loaders.Inv`). What a thread is told of its errors is its last failure (`Loaders.Tells`).

An identity is taken from a counter of 64 bits, so all this is said of the runs in which fewer
than `2 ^ 64 - 1` things have happened.
-/

namespace Artbox.Linker

open Elf Checked Trace

/-! ## Handles -/

/-- An identity is a multiple of 256 that leaves room for the low byte. -/
def Identity (n : Nat) : Prop := ∃ i, n = i * 2 ^ 8 ∧ 0 < i ∧ i < 2 ^ 56 - 1

/-- The low byte goes beside the identity. -/
theorem Identity.or_eq {n low : Nat} (h : Identity n) (hlow : low < 256) : n ||| low = n + low := by
  obtain ⟨i, rfl, _⟩ := h
  rw [Nat.mul_comm, ← Nat.two_pow_add_eq_or_of_lt hlow]

/-- The low byte of a handle is what was added to its identity. -/
theorem Identity.mod {n low : Nat} (h : Identity n) (hlow : low < 256) : (n + low) % 256 = low := by
  obtain ⟨i, rfl, _⟩ := h
  omega

namespace Dlfcn

variable {d : Dlfcn}

/-- What a context always has. -/
structure Sound (d : Dlfcn) : Prop where
  identity : Identity d.identity
  images : 0 < d.images.length ∧ d.images.length ≤ maxModules
  references : d.references.length = d.images.length
  small : ∀ n ∈ d.references, n ≤ uint64Max
  aliases : ∀ a ∈ d.aliases, a.index < d.images.length

/-- The handle of an image is its context's identity and an odd low byte. -/
theorem Sound.handle_eq (h : d.Sound) {i : Nat} (hi : i < maxModules) : d.handle i = d.identity + (i * 2 + 1) := by
  unfold maxModules at hi
  exact h.identity.or_eq (by omega)

/-- A handle is opened if it is that of a module that has references. -/
theorem Sound.opened_iff (h : d.Sound) {handle i : Nat} :
    d.opened handle = some i ↔ handle = d.handle i ∧ i < d.images.length ∧ d.references.getD i 0 ≠ 0 := by
  have hle := h.images.2
  unfold Dlfcn.opened
  dsimp only
  constructor
  · intro hsome
    split at hsome
    next hall =>
      obtain ⟨hid, hodd, hlt, hne⟩ := hall
      obtain rfl := Option.some.inj hsome
      refine ⟨?_, hlt, hne⟩
      rw [h.handle_eq (by omega)]
      omega
    · cases hsome
  · rintro ⟨rfl, hlt, hne⟩
    rw [h.handle_eq (by omega)]
    unfold maxModules at hle
    have hlow := h.identity.mod (show i * 2 + 1 < 256 by omega)
    have hhalf : (i * 2 + 1) / 2 = i := by omega
    rw [hlow, hhalf, if_pos ⟨by omega, by omega, hlt, hne⟩]

/-- The handle determines the module. -/
theorem Sound.handle_inj (h : d.Sound) {i j : Nat} (hi : i < d.images.length) (hj : j < d.images.length)
    (heq : d.handle i = d.handle j) : i = j := by
  have hle := h.images.2
  rw [h.handle_eq (by omega), h.handle_eq (by omega)] at heq
  omega

/-! ## What a call does to a context -/

/-- A modified list has another value at that index alone. -/
theorem getD_modify {l : List Nat} {i j : Nat} {f : Nat → Nat} (hi : i < l.length) :
    (l.modify i f).getD j 0 = if i = j then f (l.getD j 0) else l.getD j 0 := by
  rw [List.getD_eq_getElem?_getD, List.getD_eq_getElem?_getD, List.getElem?_modify]
  split
  next heq =>
    subst heq
    rw [List.getElem?_eq_getElem hi]
    rfl
  · rw [id_map']

/-- An image that is found by its name is one of the images. -/
theorem find_lt {name : List UInt8} {i : Nat} (h : d.find name = some i) : i < d.images.length :=
  (List.findIdx?_eq_some_iff_getElem.1 h).1

/-- An image that a name stands for is one of the images. -/
theorem Sound.select_lt (h : d.Sound) {name : Option (List UInt8)} {i : Nat} (hi : d.select name = some i) :
    i < d.images.length := by
  cases name with
  | none => exact Option.some.inj hi ▸ h.images.1
  | some name =>
    unfold Dlfcn.select at hi
    dsimp only at hi
    cases hfind : d.find name with
    | some j =>
      rw [hfind] at hi
      exact Option.some.inj hi ▸ find_lt hfind
    | none =>
      rw [hfind] at hi
      obtain ⟨a, ha, rfl⟩ := Option.map_eq_some_iff.1 hi
      exact h.aliases a (List.mem_of_find?_eq_some ha)

/-- dlopen fails and changes nothing, or takes one reference and gives the handle. -/
theorem dlopen_cases {locks : Bool} {name : Option (List UInt8)} {flags : BitVec 32} {extension : BitVec 64}
    {namespaceHandle : Nat} {r : Except Failure Nat} {d' : Dlfcn}
    (h : d.dlopen locks name flags extension namespaceHandle = (r, d')) :
    (∃ f, r = .error f) ∨ ∃ i, r = .ok (d.handle i) ∧ d.select name = some i ∧
      d.references.getD i 0 ≠ uint64Max ∧ d' = { d with references := d.references.modify i (· + 1) } := by
  unfold Dlfcn.dlopen at h
  split at h
  · exact .inl ⟨_, (Prod.mk.inj h).1.symm⟩
  split at h
  · exact .inl ⟨_, (Prod.mk.inj h).1.symm⟩
  split at h
  · exact .inl ⟨_, (Prod.mk.inj h).1.symm⟩
  split at h
  · exact .inl ⟨_, (Prod.mk.inj h).1.symm⟩
  next i hi =>
  split at h
  · exact .inl ⟨_, (Prod.mk.inj h).1.symm⟩
  split at h
  · exact .inl ⟨_, (Prod.mk.inj h).1.symm⟩
  next hmax => exact .inr ⟨i, (Prod.mk.inj h).1.symm, hi, hmax, (Prod.mk.inj h).2.symm⟩

/-- dlclose fails and changes nothing, or gives one reference back. -/
theorem dlclose_cases {locks : Bool} {handle : Nat} {r : Except Failure Unit} {d' : Dlfcn}
    (h : d.dlclose locks handle = (r, d')) :
    (∃ f, r = .error f) ∨ ∃ i, r = .ok () ∧ d.opened handle = some i ∧
      d' = { d with references := d.references.modify i (· - 1) } := by
  unfold Dlfcn.dlclose at h
  split at h
  · exact .inl ⟨_, (Prod.mk.inj h).1.symm⟩
  split at h
  · exact .inl ⟨_, (Prod.mk.inj h).1.symm⟩
  next i hi => exact .inr ⟨i, (Prod.mk.inj h).1.symm, hi, (Prod.mk.inj h).2.symm⟩

/-- References that stay in range leave a context sound. -/
theorem Sound.modified (h : d.Sound) {i : Nat} {f : Nat → Nat} (hi : i < d.images.length)
    (hf : f (d.references.getD i 0) ≤ uint64Max) :
    Sound { d with references := d.references.modify i f } := by
  refine ⟨h.identity, h.images, ?_, fun n hn => ?_, h.aliases⟩
  · rw [List.length_modify]
    exact h.references
  · obtain ⟨j, hj⟩ := List.getElem?_of_mem hn
    have hget : (d.references.modify i f).getD j 0 = n := by
      rw [List.getD_eq_getElem?_getD, hj]
      rfl
    rw [getD_modify (h.references ▸ hi)] at hget
    split at hget
    next heq => rw [← hget, ← heq]; exact hf
    next hne =>
      rw [List.getElem?_modify] at hj
      simp only [if_neg hne, id_map'] at hj
      exact h.small n (List.mem_of_getElem? hj)

/-- A sound context counts its references in 64 bits. -/
theorem Sound.references_le (h : d.Sound) {i : Nat} (hi : i < d.images.length) :
    d.references.getD i 0 ≤ uint64Max := by
  rw [List.getD_eq_getElem?_getD, List.getElem?_eq_getElem (h.references ▸ hi)]
  exact h.small _ (List.getElem_mem _)

/-- One more reference is in range unless the counter is full. -/
theorem Sound.opened (h : d.Sound) {i : Nat} (hmax : d.references.getD i 0 ≠ uint64Max) (hi : i < d.images.length) :
    Sound { d with references := d.references.modify i (· + 1) } :=
  h.modified hi (Nat.lt_of_le_of_ne (h.references_le hi) hmax)

/-- One reference less is in range. -/
theorem Sound.closed (h : d.Sound) {i : Nat} (hi : i < d.images.length) :
    Sound { d with references := d.references.modify i (· - 1) } :=
  h.modified hi (Nat.le_trans (Nat.sub_le _ _) (h.references_le hi))

/-! ## A new context -/

/-- There is an image for each index that is left. -/
theorem readImages_length {g : LoadGroup} {left index : Nat} {images : List LinkInfo}
    (h : readImages g left index = .ok images) : images.length = left := by
  induction left generalizing index images with
  | zero => exact Except.ok.inj h ▸ rfl
  | succ left ih =>
    obtain ⟨image, _, h⟩ := bind_eq_ok.1 h
    obtain ⟨rest, hrest, h⟩ := bind_eq_ok.1 h
    rw [← Except.ok.inj h, List.length_cons, ih hrest]

/-- One alias adds a name, of a module that is there. -/
theorem addAlias_ok {d d' : Dlfcn} {named named' : List Bool} {a : DlAlias}
    (h : d.addAlias named a = .ok (d', named')) :
    d'.group = d.group ∧ d'.identity = d.identity ∧ d'.images = d.images ∧ d'.references = d.references ∧
      ∃ path module i, a = ⟨some path, some module⟩ ∧ d.find module = some i ∧
        d'.aliases = d.aliases ++ [⟨path, i⟩] := by
  obtain ⟨path, module⟩ := a
  cases path with
  | none => cases h
  | some path =>
    cases module with
    | none => cases h
    | some module =>
      unfold Dlfcn.addAlias at h
      dsimp only at h
      split at h
      · cases h
      split at h
      · cases h
      next i hi =>
      split at h
      · cases h
      split at h
      · cases h
        exact ⟨rfl, rfl, rfl, rfl, path, module, i, rfl, hi, rfl⟩
      · cases h
        exact ⟨rfl, rfl, rfl, rfl, path, module, i, rfl, hi, rfl⟩

/-- Aliases only add names. -/
theorem addAliases_ok {d d' : Dlfcn} {named : List Bool} {aliases : List DlAlias}
    (h : addAliases d named aliases = .ok d') :
    d'.group = d.group ∧ d'.identity = d.identity ∧ d'.images = d.images ∧ d'.references = d.references ∧
      ∀ a ∈ d'.aliases, a ∈ d.aliases ∨
        ∃ module, ⟨some a.path, some module⟩ ∈ aliases ∧ d.find module = some a.index := by
  induction aliases generalizing d named with
  | nil =>
    obtain rfl := Except.ok.inj h
    exact ⟨rfl, rfl, rfl, rfl, fun _ => .inl⟩
  | cons first rest ih =>
    unfold addAliases at h
    split at h
    · cases h
    next d₁ named₁ hadd =>
    obtain ⟨hgroup, hid, himages, hrefs, path, module, i, rfl, hi, haliases⟩ := addAlias_ok hadd
    obtain ⟨hgroup', hid', himages', hrefs', haliases'⟩ := ih h
    have hfind : d₁.find = d.find := by
      unfold Dlfcn.find
      rw [himages]
    refine ⟨hgroup'.trans hgroup, hid'.trans hid, himages'.trans himages, hrefs'.trans hrefs, fun a ha => ?_⟩
    rcases haliases' a ha with ha | ⟨module', hmem, hfound⟩
    · rw [haliases] at ha
      rcases List.mem_append.1 ha with ha | ha
      · exact .inl ha
      · obtain rfl := List.mem_singleton.1 ha
        exact .inr ⟨module, List.mem_cons_self, hi⟩
    · exact .inr ⟨module', List.mem_cons_of_mem _ hmem, hfind ▸ hfound⟩

/-- A new context has the next identity, the group's modules and no references. -/
theorem create_ok {g : Group} {aliases : List DlAlias} {namespaceName : Option (List UInt8)} {next next' : Nat}
    (h : create g aliases namespaceName next = (.ok d, next')) :
    d.Sound ∧ d.identity = next * 2 ^ 8 ∧ next' = (next + 1) % 2 ^ 64 ∧ (∀ i, d.references.getD i 0 = 0) ∧
      d.group = g.toLoadGroup ∧ readImages g.toLoadGroup g.scope.length 0 = .ok d.images ∧
      ∀ a ∈ d.aliases, ∃ module, ⟨some a.path, some module⟩ ∈ aliases ∧ d.find module = some a.index := by
  unfold Dlfcn.create at h
  split at h
  · cases h
  next d₁ hprepare =>
  obtain ⟨hd, hnext'⟩ := Prod.mk.inj h
  split at hd
  · cases hd
  next hnext =>
  rw [not_or] at hnext
  obtain rfl := Except.ok.inj hd
  unfold Dlfcn.prepare at hprepare
  obtain ⟨_, hargs, hprepare⟩ := bind_eq_ok.1 hprepare
  obtain ⟨_, _, hprepare⟩ := bind_eq_ok.1 hprepare
  obtain ⟨images, himages, hprepare⟩ := bind_eq_ok.1 hprepare
  obtain ⟨_, _, hprepare⟩ := bind_eq_ok.1 hprepare
  obtain ⟨hgroup, _, himages', hrefs, haliases⟩ := addAliases_ok (lift_eq_ok.1 hprepare)
  have hlength := readImages_length himages
  have hargs := reject_eq_ok.1 hargs
  rw [not_or, not_or] at hargs
  have hnamed : ∀ a ∈ d₁.aliases, ∃ module, ⟨some a.path, some module⟩ ∈ aliases ∧
      d₁.find module = some a.index := by
    intro a ha
    obtain ⟨module, hmem, hfound⟩ := (haliases a ha).resolve_left nofun
    refine ⟨module, hmem, ?_⟩
    unfold Dlfcn.find at hfound ⊢
    rw [himages']
    exact hfound
  refine ⟨⟨⟨next, rfl, Nat.pos_of_ne_zero hnext.1, ?_⟩, ?_, ?_, fun n hn => ?_, fun a ha => ?_⟩, rfl, hnext'.symm,
    fun i => ?_, hgroup, ?_, hnamed⟩
  · have hlt := hnext.2
    unfold uint64Max at hlt
    omega
  · show 0 < d₁.images.length ∧ d₁.images.length ≤ maxModules
    rw [himages', hlength]
    exact ⟨Nat.pos_of_ne_zero hargs.1, Nat.not_lt.1 hargs.2.1⟩
  · show d₁.references.length = d₁.images.length
    rw [hrefs, himages', hlength]
    exact List.length_replicate
  · change n ∈ d₁.references at hn
    rw [hrefs] at hn
    rw [(List.mem_replicate.1 hn).2]
    exact Nat.zero_le _
  · obtain ⟨_, _, hfound⟩ := hnamed a ha
    exact find_lt hfound
  · show d₁.references.getD i 0 = 0
    rw [hrefs, List.getD_eq_getElem?_getD, List.getElem?_replicate]
    split <;> rfl
  · show _ = Except.ok d₁.images
    rw [himages', himages]

end Dlfcn

/-! ## Runs -/

namespace DlEvent

/-- The event opens a handle of a context. -/
def opens (k handle : Nat) : DlEvent → Bool
  | .opened k' handle' => k' == k && handle' == handle
  | _ => false

/-- The event closes it. -/
def closes (k handle : Nat) : DlEvent → Bool
  | .closed k' handle' => k' == k && handle' == handle
  | _ => false

end DlEvent

namespace Loaders

variable {w w' : Loaders} {k : Nat} {d : Dlfcn}

/-- How often a handle was returned by `dlopen`, and how often it was closed. -/
def opens (w : Loaders) (k handle : Nat) : Nat := w.history.countP (·.opens k handle)

def closes (w : Loaders) (k handle : Nat) : Nat := w.history.countP (·.closes k handle)

/-- A context that is there counts what was opened and not closed. -/
structure Counts (w : Loaders) (k : Nat) (d : Dlfcn) : Prop where
  created : .created k d.identity ∈ w.history
  sound : d.Sound
  balance : ∀ i < d.images.length, w.opens k (d.handle i) = w.closes k (d.handle i) + d.references.getD i 0
  issued : ∀ handle, .opened k handle ∈ w.history → ∃ i < d.images.length, handle = d.handle i

/-- What is true in every run that is not too long. -/
structure Inv (w : Loaders) : Prop where
  next : 0 < w.next ∧ w.next ≤ w.history.length + 1
  numbered : ∀ k n, .created k n ∈ w.history → k < w.contexts.length ∧ Identity n ∧ n < w.next * 2 ^ 8
  distinct : ∀ k k' n, .created k n ∈ w.history → .created k' n ∈ w.history → k = k'
  counts : ∀ k d, w.context k = some d → w.Counts k d
  issued : ∀ k handle, .opened k handle ∈ w.history → ∃ n i, .created k n ∈ w.history ∧ i < maxModules ∧
    handle = n ||| (i * 2 + 1)
  closed : ∀ k handle, .closed k handle ∈ w.history → k < w.contexts.length

/-- A world without contexts is in order. -/
theorem inv_init : Inv {} := by
  refine ⟨⟨Nat.one_pos, Nat.le_refl _⟩, nofun, nofun, fun k d hd => ?_, nofun, nofun⟩
  cases hd

/-- A context that is set is the only one that changes. -/
theorem context_set {x : Option Dlfcn} {k k' : Nat} (hk : k < w.contexts.length)
    (hw : w'.contexts = w.contexts.set k x) :
    w'.context k' = if k = k' then x else w.context k' := by
  unfold Loaders.context
  rw [hw, List.getElem?_set]
  split
  next heq =>
    subst heq
    rfl
  · rfl

/-- A context that is there was created. -/
theorem context_lt (h : w.context k = some d) : k < w.contexts.length :=
  (List.getElem?_eq_some_iff.1 (Option.join_eq_some_iff.1 h)).1

/-- An event is counted as an open of one handle or of none. -/
theorem opens_cons {e : DlEvent} (hhist : w'.history = e :: w.history) (k handle : Nat) :
    w'.opens k handle = w.opens k handle + if e.opens k handle then 1 else 0 := by
  unfold Loaders.opens
  rw [hhist, List.countP_cons]

/-- An event is counted as a close of one handle or of none. -/
theorem closes_cons {e : DlEvent} (hhist : w'.history = e :: w.history) (k handle : Nat) :
    w'.closes k handle = w.closes k handle + if e.closes k handle then 1 else 0 := by
  unfold Loaders.closes
  rw [hhist, List.countP_cons]

/-- What happens elsewhere does not count. -/
theorem Counts.other (h : w.Counts k d) {e : DlEvent} (hhist : w'.history = e :: w.history)
    (hopened : ∀ handle, e ≠ .opened k handle) (hclosed : ∀ handle, e ≠ .closed k handle) : w'.Counts k d := by
  have hopens : ∀ handle, e.opens k handle = false := by
    intro handle
    cases e with
    | opened k' handle' =>
      simp only [DlEvent.opens, Bool.and_eq_false_iff, beq_eq_false_iff_ne]
      exact .inl fun heq => hopened handle' (heq ▸ rfl)
    | _ => rfl
  have hcloses : ∀ handle, e.closes k handle = false := by
    intro handle
    cases e with
    | closed k' handle' =>
      simp only [DlEvent.closes, Bool.and_eq_false_iff, beq_eq_false_iff_ne]
      exact .inl fun heq => hclosed handle' (heq ▸ rfl)
    | _ => rfl
  refine ⟨hhist ▸ List.mem_cons_of_mem e h.created, h.sound, fun i hi => ?_, fun handle hmem => ?_⟩
  · rw [opens_cons hhist, closes_cons hhist, hopens, hcloses]
    exact h.balance i hi
  · rw [hhist] at hmem
    exact h.issued handle ((List.mem_cons.1 hmem).resolve_left (hopened handle).symm)

/-- The rest of the invariant only looks at what was made and opened. -/
theorem Inv.extend (h : w.Inv) {e : DlEvent} (hlength : w'.contexts.length = w.contexts.length)
    (hnext : 0 < w'.next ∧ w.next ≤ w'.next ∧ w'.next ≤ w'.history.length + 1) (hhist : w'.history = e :: w.history)
    (hcreated : ∀ k n, e ≠ .created k n) (hcounts : ∀ k d, w'.context k = some d → w'.Counts k d)
    (hissued : ∀ k handle, e = .opened k handle → ∃ n i, .created k n ∈ w.history ∧ i < maxModules ∧
      handle = n ||| (i * 2 + 1)) (hclosed : ∀ k handle, e = .closed k handle → k < w.contexts.length) : w'.Inv := by
  have hmade : ∀ k n, .created k n ∈ w'.history → .created k n ∈ w.history := by
    intro k n hmem
    rw [hhist] at hmem
    exact (List.mem_cons.1 hmem).resolve_left (hcreated k n).symm
  refine ⟨⟨hnext.1, hnext.2.2⟩, fun k n hmem => ?_, fun k k' n hmem hmem' => ?_, hcounts, fun k handle hmem => ?_,
    fun k handle hmem => ?_⟩
  · obtain ⟨hlt, hid, hn⟩ := h.numbered k n (hmade k n hmem)
    exact ⟨hlength ▸ hlt, hid, Nat.lt_of_lt_of_le hn (Nat.mul_le_mul_right _ hnext.2.1)⟩
  · exact h.distinct k k' n (hmade k n hmem) (hmade k' n hmem')
  · rw [hhist] at hmem
    have hgiven : ∃ n i, .created k n ∈ w.history ∧ i < maxModules ∧ handle = n ||| (i * 2 + 1) := by
      rcases List.mem_cons.1 hmem with heq | hmem
      · exact hissued k handle heq.symm
      · exact h.issued k handle hmem
    obtain ⟨n, i, hn, hi, heq⟩ := hgiven
    exact ⟨n, i, hhist ▸ List.mem_cons_of_mem e hn, hi, heq⟩
  · rw [hhist] at hmem
    rw [hlength]
    rcases List.mem_cons.1 hmem with heq | hmem
    · exact hclosed k handle heq.symm
    · exact h.closed k handle hmem

/-- The calls that change no context. -/
theorem Inv.quiet (h : w.Inv) {e : DlEvent} (hcontexts : w'.contexts = w.contexts)
    (hnext : 0 < w'.next ∧ w.next ≤ w'.next ∧ w'.next ≤ w'.history.length + 1) (hhist : w'.history = e :: w.history)
    (hcreated : ∀ k n, e ≠ .created k n) (hopened : ∀ k handle, e ≠ .opened k handle)
    (hclosed : ∀ k handle, e ≠ .closed k handle) : w'.Inv := by
  refine h.extend (hcontexts ▸ rfl) hnext hhist hcreated (fun k d hd => ?_)
    (fun k handle heq => absurd heq (hopened k handle)) fun k handle heq => absurd heq (hclosed k handle)
  unfold Loaders.context at hd
  rw [hcontexts] at hd
  exact (h.counts k d hd).other hhist (hopened k) (hclosed k)

/-- A step that creates no context keeps the counter within the history. -/
theorem Inv.same_next (h : w.Inv) {e : DlEvent} (hnext : w'.next = w.next) (hhist : w'.history = e :: w.history) :
    0 < w'.next ∧ w.next ≤ w'.next ∧ w'.next ≤ w'.history.length + 1 := by
  have hlt := h.next
  rw [hnext, hhist, List.length_cons]
  omega

/-- A failure keeps the contexts in order. -/
theorem Inv.fails (h : w.Inv) (thread : Option Nat) (f : Failure) : (w.fails thread f).Inv :=
  h.quiet rfl (h.same_next rfl rfl) rfl nofun nofun nofun

/-- A handle is opened once more. -/
theorem Inv.open_handle (h : w.Inv) (hd : w.context k = some d) {i : Nat} (hi : i < d.images.length)
    (hmax : d.references.getD i 0 ≠ uint64Max) :
    (w.becomes k { d with references := d.references.modify i (· + 1) } (.opened k (d.handle i))).Inv := by
  have hc := h.counts k d hd
  refine h.extend List.length_set (h.same_next rfl rfl) rfl nofun (fun k' d' hd' => ?_) (fun k' handle heq => ?_) nofun
  · rw [context_set (context_lt hd) rfl] at hd'
    split at hd'
    next heq =>
      subst heq
      obtain rfl := Option.some.inj hd'
      refine ⟨List.mem_cons_of_mem _ hc.created, hc.sound.opened hmax hi, fun j hj => ?_, fun handle hmem => ?_⟩
      · show Loaders.opens _ k (d.handle j) =
          Loaders.closes _ k (d.handle j) + (d.references.modify i (· + 1)).getD j 0
        rw [opens_cons (e := .opened k (d.handle i)) rfl, closes_cons (e := .opened k (d.handle i)) rfl,
          Dlfcn.getD_modify (hc.sound.references ▸ hi), hc.balance j hj]
        by_cases hij : i = j
        · subst hij
          simp [DlEvent.opens, DlEvent.closes, Nat.add_assoc]
        · have hne : d.handle i ≠ d.handle j := fun heq => hij (hc.sound.handle_inj hi hj heq)
          simp [DlEvent.opens, DlEvent.closes, hij, hne]
      · rcases List.mem_cons.1 hmem with heq | hmem
        · cases heq
          exact ⟨i, hi, rfl⟩
        · exact hc.issued handle hmem
    next hne =>
      refine (h.counts k' d' hd').other (e := .opened k (d.handle i)) rfl (fun handle heq => ?_) nofun
      cases heq
      exact hne rfl
  · cases heq
    exact ⟨d.identity, i, hc.created, Nat.lt_of_lt_of_le hi hc.sound.images.2, rfl⟩

/-- A handle is closed that was open. -/
theorem Inv.close_handle (h : w.Inv) (hd : w.context k = some d) {handle i : Nat} (hopen : d.opened handle = some i) :
    (w.becomes k { d with references := d.references.modify i (· - 1) } (.closed k handle)).Inv := by
  have hc := h.counts k d hd
  obtain ⟨rfl, hi, hne⟩ := hc.sound.opened_iff.1 hopen
  refine h.extend List.length_set (h.same_next rfl rfl) rfl nofun (fun k' d' hd' => ?_) nofun fun k' handle heq => ?_
  swap
  · cases heq
    exact context_lt hd
  rw [context_set (context_lt hd) rfl] at hd'
  split at hd'
  next heq =>
    subst heq
    obtain rfl := Option.some.inj hd'
    refine ⟨List.mem_cons_of_mem _ hc.created, hc.sound.closed hi, fun j hj => ?_, fun handle hmem => ?_⟩
    · show Loaders.opens _ k (d.handle j) = Loaders.closes _ k (d.handle j) + (d.references.modify i (· - 1)).getD j 0
      rw [opens_cons (e := .closed k (d.handle i)) rfl, closes_cons (e := .closed k (d.handle i)) rfl,
        Dlfcn.getD_modify (hc.sound.references ▸ hi), hc.balance j hj]
      by_cases hij : i = j
      · subst hij
        simp only [DlEvent.opens, DlEvent.closes, beq_self_eq_true, Bool.and_self, if_true, Bool.false_eq_true,
          if_false]
        omega
      · have hne : d.handle i ≠ d.handle j := fun heq => hij (hc.sound.handle_inj hi hj heq)
        simp [DlEvent.opens, DlEvent.closes, hij, hne]
    · exact hc.issued handle ((List.mem_cons.1 hmem).resolve_left nofun)
  next hne =>
    refine (h.counts k' d' hd').other (e := .closed k (d.handle i)) rfl nofun fun handle heq => ?_
    cases heq
    exact hne rfl

/-- The destruction of a context keeps the others in order. -/
theorem Inv.destroy (h : w.Inv) (hd : w.context k = some d) :
    Inv { w with contexts := w.contexts.set k none, history := .destroyed k :: w.history } := by
  refine h.extend List.length_set (h.same_next rfl rfl) rfl nofun (fun k' d' hd' => ?_) nofun nofun
  rw [context_set (context_lt hd) rfl] at hd'
  split at hd'
  · cases hd'
  · exact (h.counts k' d' hd').other (e := .destroyed k) rfl nofun nofun

/-- A new context, of a process whose counter has not come round. -/
theorem Inv.create (h : w.Inv) (hshort : w.history.length + 1 < 2 ^ 64 - 1) {g : Group} {aliases : List DlAlias}
    {namespaceName : Option (List UInt8)} {next : Nat}
    (hcreate : Dlfcn.create g aliases namespaceName w.next = (.ok d, next)) :
    Inv { w with
      next, contexts := w.contexts ++ [some d], history := .created w.contexts.length d.identity :: w.history } := by
  obtain ⟨hsound, hid, rfl, hzero, _⟩ := Dlfcn.create_ok hcreate
  have hnext := h.next
  rw [Nat.mod_eq_of_lt (by omega)]
  have hnew : ∀ n, .created w.contexts.length n ∉ w.history := fun n hmem =>
    Nat.lt_irrefl _ (h.numbered _ n hmem).1
  -- the identity is above all that were given before
  have hold : ∀ k n, .created k n ∈ w.history → n ≠ d.identity := by
    intro k n hmem heq
    have hlt := (h.numbered k n hmem).2.2
    rw [heq, hid] at hlt
    exact Nat.lt_irrefl _ hlt
  have hgrows : w.next * 2 ^ 8 < (w.next + 1) * 2 ^ 8 := by
    rw [Nat.add_mul, Nat.one_mul]
    exact Nat.lt_add_of_pos_right (Nat.two_pow_pos 8)
  refine ⟨⟨Nat.succ_pos _, Nat.succ_le_succ hnext.2⟩, fun k n hmem => ?_, fun k k' n hmem hmem' => ?_,
    fun k d' hd' => ?_, fun k handle hmem => ?_, fun k handle hmem => ?_⟩
  · rw [List.length_append, List.length_singleton]
    rcases List.mem_cons.1 hmem with heq | hmem
    · cases heq
      refine ⟨Nat.lt_succ_self _, hsound.identity, ?_⟩
      rw [hid]
      exact hgrows
    · obtain ⟨hlt, hn, hbelow⟩ := h.numbered k n hmem
      exact ⟨Nat.lt_succ_of_lt hlt, hn, Nat.lt_trans hbelow hgrows⟩
  · rcases List.mem_cons.1 hmem with heq | hmem <;> rcases List.mem_cons.1 hmem' with heq' | hmem'
    · cases heq
      cases heq'
      rfl
    · cases heq
      exact absurd rfl (hold k' _ hmem')
    · cases heq'
      exact absurd rfl (hold k _ hmem)
    · exact h.distinct k k' n hmem hmem'
  · unfold Loaders.context at hd'
    rw [List.getElem?_append] at hd'
    split at hd'
    next hlt =>
      refine (h.counts k d' hd').other (e := .created w.contexts.length d.identity) rfl nofun nofun
    next hge =>
      -- the only slot behind the old ones is the new context
      have hk : k = w.contexts.length := by
        by_contra hne
        rw [List.getElem?_eq_none (by rw [List.length_singleton]; omega)] at hd'
        cases hd'
      subst hk
      rw [Nat.sub_self] at hd'
      obtain rfl : d = d' := Option.some.inj hd'
      have hopened : ∀ handle, .opened w.contexts.length handle ∉ w.history := by
        intro handle hmem
        obtain ⟨n, _, hn, _⟩ := h.issued _ handle hmem
        exact hnew n hn
      have hclosed : ∀ handle, .closed w.contexts.length handle ∉ w.history := fun handle hmem =>
        Nat.lt_irrefl _ (h.closed _ handle hmem)
      have hzero' : ∀ handle, w.opens w.contexts.length handle = 0 ∧ w.closes w.contexts.length handle = 0 := by
        intro handle
        refine ⟨List.countP_eq_zero.2 fun e he hopens => ?_, List.countP_eq_zero.2 fun e he hcloses => ?_⟩
        · cases e with
          | opened k' handle' =>
            simp only [DlEvent.opens, Bool.and_eq_true, beq_iff_eq] at hopens
            exact hopened handle' (hopens.1 ▸ he)
          | _ => cases hopens
        · cases e with
          | closed k' handle' =>
            simp only [DlEvent.closes, Bool.and_eq_true, beq_iff_eq] at hcloses
            exact hclosed handle' (hcloses.1 ▸ he)
          | _ => cases hcloses
      refine ⟨List.mem_cons_self, hsound, fun i hi => ?_, fun handle hmem => ?_⟩
      · rw [opens_cons (w := w) (e := .created w.contexts.length d.identity) rfl,
          closes_cons (w := w) (e := .created w.contexts.length d.identity) rfl, (hzero' _).1, (hzero' _).2, hzero]
        rfl
      · exact absurd ((List.mem_cons.1 hmem).resolve_left nofun) (hopened handle)
  · obtain ⟨n, i, hn, hi, heq⟩ := h.issued k handle ((List.mem_cons.1 hmem).resolve_left nofun)
    exact ⟨n, i, List.mem_cons_of_mem _ hn, hi, heq⟩
  · rw [List.length_append, List.length_singleton]
    exact Nat.lt_succ_of_lt (h.closed k handle ((List.mem_cons.1 hmem).resolve_left nofun))

/-- A creation takes one identity at most. -/
theorem create_next {g : Group} {aliases : List DlAlias} {namespaceName : Option (List UInt8)} {next next' : Nat}
    {r : Checked ElfError Dlfcn} (h : Dlfcn.create g aliases namespaceName next = (r, next')) :
    next' = next ∨ next' = (next + 1) % 2 ^ 64 := by
  unfold Dlfcn.create at h
  split at h
  · exact .inl (Prod.mk.inj h).2.symm
  · exact .inr (Prod.mk.inj h).2.symm

/-- Every call below the counter's bound keeps the contexts in order. -/
theorem Inv.perform (h : w.Inv) (hshort : w.history.length + 1 < 2 ^ 64 - 1) {call : DlCall}
    (hp : w.perform call = some w') : w'.Inv := by
  cases call with
  | create g aliases namespaceName =>
    unfold Loaders.perform at hp
    dsimp only at hp
    split at hp
    next hcreate =>
      obtain rfl := Option.some.inj hp
      exact h.create hshort hcreate
    next e next hcreate =>
      obtain rfl := Option.some.inj hp
      refine h.quiet (e := .refused e) rfl ?_ rfl nofun nofun nofun
      have hnext := h.next
      show 0 < next ∧ w.next ≤ next ∧ next ≤ w.history.length + 1 + 1
      rcases create_next hcreate with rfl | rfl
      · omega
      · rw [Nat.mod_eq_of_lt (by omega)]
        omega
    · cases hp
  | destroy k =>
    obtain ⟨d, hd, rfl⟩ := Option.map_eq_some_iff.1 hp
    exact h.destroy hd
  | dlopen thread k locks name flags extension namespaceHandle =>
    obtain ⟨d, hd, rfl⟩ := Option.map_eq_some_iff.1 hp
    split
    next handle d' hopen =>
      rcases Dlfcn.dlopen_cases hopen with ⟨f, hf⟩ | ⟨i, hi, hselect, hmax, rfl⟩
      · cases hf
      · obtain rfl := Except.ok.inj hi
        exact h.open_handle hd ((h.counts k d hd).sound.select_lt hselect) hmax
    · exact h.fails thread _
  | dlclose thread k locks handle =>
    obtain ⟨d, hd, rfl⟩ := Option.map_eq_some_iff.1 hp
    split
    next d' hclose =>
      rcases Dlfcn.dlclose_cases hclose with ⟨f, hf⟩ | ⟨i, _, hopen, rfl⟩
      · cases hf
      · exact h.close_handle hd hopen
    · exact h.fails thread _
  | dlsym thread k locks handle name version caller =>
    obtain ⟨d, hd, hp⟩ := Option.bind_eq_some_iff.1 hp
    split at hp
    · exact Option.some.inj hp ▸ h
    · exact Option.some.inj hp ▸ h.fails thread _
    · cases hp
  | dlerror thread =>
    obtain rfl := Option.some.inj hp
    exact h.quiet (e := .reported thread) rfl (h.same_next rfl rfl) rfl nofun nofun nofun

/-- A call that changes anything adds an event to the history. -/
theorem perform_history {call : DlCall} (hp : w.perform call = some w') :
    w' = w ∨ ∃ e, w'.history = e :: w.history := by
  cases call with
  | create g aliases namespaceName =>
    unfold Loaders.perform at hp
    dsimp only at hp
    split at hp
    · obtain rfl := Option.some.inj hp
      exact .inr ⟨_, rfl⟩
    · obtain rfl := Option.some.inj hp
      exact .inr ⟨_, rfl⟩
    · cases hp
  | destroy k =>
    obtain ⟨_, _, rfl⟩ := Option.map_eq_some_iff.1 hp
    exact .inr ⟨_, rfl⟩
  | dlopen thread k locks name flags extension namespaceHandle =>
    obtain ⟨_, _, rfl⟩ := Option.map_eq_some_iff.1 hp
    split
    · exact .inr ⟨_, rfl⟩
    · exact .inr ⟨_, rfl⟩
  | dlclose thread k locks handle =>
    obtain ⟨_, _, rfl⟩ := Option.map_eq_some_iff.1 hp
    split
    · exact .inr ⟨_, rfl⟩
    · exact .inr ⟨_, rfl⟩
  | dlsym thread k locks handle name version caller =>
    obtain ⟨_, _, hp⟩ := Option.bind_eq_some_iff.1 hp
    split at hp
    · exact .inl (Option.some.inj hp).symm
    · obtain rfl := Option.some.inj hp
      exact .inr ⟨_, rfl⟩
    · cases hp
  | dlerror thread =>
    obtain rfl := Option.some.inj hp
    exact .inr ⟨_, rfl⟩

/-- The contexts are in order in every reachable world below the counter's bound. -/
theorem reachable_inv (h : machine.Reachable w) (hshort : w.history.length < 2 ^ 64 - 1) : w.Inv := by
  induction h with
  | init hi =>
    rw [show _ = _ from hi]
    exact inv_init
  | @step w w' _ hstep ih =>
    obtain ⟨call, hp⟩ := hstep
    rcases perform_history hp with rfl | ⟨e, heq⟩
    · exact ih hshort
    · rw [heq, List.length_cons] at hshort
      exact (ih (by omega)).perform hshort hp

/-- A handle is worth what was opened: in every run of fewer than `2 ^ 64 - 1` events, by any threads
and on any number of contexts, a context accepts a handle exactly if it was returned for it more
often than it was closed, its reference counts are the difference, and no handle that was
returned is accepted by another context, even one made after its own is destroyed. Handles are
neither of the special values, nor a namespace's token. -/
theorem handles_lawful (h : machine.Reachable w) (hshort : w.history.length < 2 ^ 64 - 1) :
    (∀ k d, w.context k = some d →
      (∀ handle, (d.opened handle).isSome = true ↔ w.closes k handle < w.opens k handle) ∧
      (∀ i < d.images.length, w.opens k (d.handle i) = w.closes k (d.handle i) + d.references.getD i 0) ∧
      (∀ k' handle, .opened k' handle ∈ w.history → (d.opened handle).isSome = true → k' = k) ∧
      ∀ k' handle, .opened k' handle ∈ w.history → handle ≠ d.token) ∧
    ∀ k handle, .opened k handle ∈ w.history → handle ≠ 0 ∧ handle ≠ uint64Max := by
  have hinv := reachable_inv h hshort
  have hodd : ∀ k handle, .opened k handle ∈ w.history → ∃ n i, .created k n ∈ w.history ∧ Identity n ∧
      i < maxModules ∧ handle = n + (i * 2 + 1) := by
    intro k handle hmem
    obtain ⟨n, i, hn, hi, rfl⟩ := hinv.issued k handle hmem
    have hid := (hinv.numbered k n hn).2.1
    unfold maxModules at hi
    exact ⟨n, i, hn, hid, hi, hid.or_eq (by omega)⟩
  refine ⟨fun k d hd => ?_, fun k handle hmem => ?_⟩
  · have hc := hinv.counts k d hd
    refine ⟨fun handle => ?_, hc.balance, fun k' handle hmem hopen => ?_, fun k' handle hmem heq => ?_⟩
    · constructor
      · intro hsome
        obtain ⟨i, hi⟩ := Option.isSome_iff_exists.1 hsome
        obtain ⟨rfl, hlt, hne⟩ := hc.sound.opened_iff.1 hi
        have hbalance := hc.balance i hlt
        omega
      · intro hlt
        obtain ⟨e, he, hopens⟩ := List.countP_pos_iff.1 (Nat.lt_of_le_of_lt (Nat.zero_le _) hlt)
        have hmem : .opened k handle ∈ w.history := by
          cases e with
          | opened k' handle' =>
            simp only [DlEvent.opens, Bool.and_eq_true, beq_iff_eq] at hopens
            obtain ⟨rfl, rfl⟩ := hopens
            exact he
          | _ => cases hopens
        obtain ⟨i, hi, rfl⟩ := hc.issued handle hmem
        have hbalance := hc.balance i hi
        rw [hc.sound.opened_iff.2 ⟨rfl, hi, by omega⟩]
        rfl
    · obtain ⟨i, hi⟩ := Option.isSome_iff_exists.1 hopen
      obtain ⟨heq, hlt, _⟩ := hc.sound.opened_iff.1 hi
      obtain ⟨n, j, hn, ⟨a, ha, _⟩, hj, heq'⟩ := hodd k' handle hmem
      have hle := hc.sound.images.2
      rw [hc.sound.handle_eq (by omega)] at heq
      obtain ⟨b, hb, _⟩ := hc.sound.identity
      -- the low bytes leave the identities apart
      have hsame : n = d.identity := by
        unfold maxModules at hj hle
        omega
      exact hinv.distinct k' k d.identity (hsame ▸ hn) hc.created
    · obtain ⟨n, j, _, ⟨a, ha, _⟩, hj, heq'⟩ := hodd k' handle hmem
      obtain ⟨b, hb, _⟩ := hc.sound.identity
      unfold Dlfcn.token at heq
      rw [hc.sound.identity.or_eq (by decide)] at heq
      omega
  · obtain ⟨n, i, _, ⟨a, ha, hpos, hlt⟩, hi, rfl⟩ := hodd k handle hmem
    unfold maxModules at hi
    unfold uint64Max
    omega

/-- A relocated group of one module without symbols. -/
def sampleGroup : Group where
  nodes := [{ module := {
    name := [97], address := 1, loadBias := 0, memory := []
    dynamic := { image := {
      data := ⟨4096, [], Nat.two_pow_pos 64⟩, entry := 0, type := 3, programHeaderCount := 0
      programHeaderOffset := 0 } } } }]
  scope := [0]
  initialization := [0]
  tlsTemplates := []
  stats := [{}]
  state := .relocated

/-- Two contexts of one group; the first is opened by the null pointer and by name and closed once, the
second is destroyed. -/
def sampleCalls (g : Group) : List DlCall :=
  [.create g [] none, .create g [⟨some [47, 97], some [97]⟩] none, .dlopen none 0 true none 0 0 0,
    .dlopen none 0 true (some [97]) 0 0 0, .dlopen none 1 true (some [47, 97]) 0 0 0, .dlclose none 0 true 257,
    .dlclose none 0 true 513, .destroy 1]

/-- In the sample a handle that was opened twice and closed once is still open. -/
theorem handles_lawful_sample : ∃ w d, machine.Reachable w ∧ w.context 0 = some d ∧ w.context 1 = none ∧
    w.opens 0 257 = 2 ∧ w.closes 0 257 = 1 ∧ w.opens 1 513 = 1 ∧ (d.opened 257).isSome = true ∧
    ¬ (d.opened 513).isSome = true := by
  have hfacts : ∃ w ∈ (sampleCalls sampleGroup).foldlM perform {}, w.history.length = 8 ∧
      w.context 1 = none ∧ (w.context 0).isSome = true ∧ w.opens 0 257 = 2 ∧ w.closes 0 257 = 1 ∧
      w.opens 1 513 = 1 ∧ .opened 1 513 ∈ w.history := by decide
  obtain ⟨w, hw, hlength, hnone, hsome, hopens, hcloses, hother, hmem⟩ := hfacts
  obtain ⟨d, hd⟩ := Option.isSome_iff_exists.1 hsome
  have hreach : machine.Reachable w := (Machine.Reachable.init rfl).foldlM (fun _ a _ h => ⟨a, h⟩) hw
  obtain ⟨haccepts, _, hown, _⟩ := (handles_lawful hreach (by omega)).1 0 d hd
  exact ⟨w, d, hreach, hd, hnone, hopens, hcloses, hother, (haccepts 257).2 (by omega), fun hopen =>
    absurd (hown 1 513 hmem hopen) (by decide)⟩

/-! ## Errors -/

/-- A text of few characters is short. -/
theorem ofList_short {l : List Char} (h : l.length ≤ 255) : (String.ofList l).toList.length ≤ 255 := by
  rw [String.toList_ofList]
  exact h

/-- No message is cut. -/
theorem fail_text (f : Failure) : DlError.fail f.text = ⟨f.text, true⟩ := by
  have hshort : f.text.toList.length ≤ 255 := by
    -- a literal is the list of its characters
    cases f with
    | lookup e => cases e <;> exact ofList_short (by decide)
    | _ => exact ofList_short (by decide)
  unfold DlError.fail
  rw [List.take_of_length_le hshort, String.ofList_toList]

/-- The event ends what a thread's last failure is told for. -/
def Ends (thread : Nat) (e : DlEvent) : Prop := e = .reported thread ∨ ∃ f, e = .failed (some thread) f

/-- The failure is the thread's last and was not reported. -/
def Fails (w : Loaders) (thread : Nat) (f : Failure) : Prop :=
  Since (Ends thread) (· = .failed (some thread) f) w.history

/-- A thread's error state is its last failure that was not reported. -/
def Told (w : Loaders) (thread : Nat) : Prop :=
  if (w.errors thread).pending then ∃ f, w.Fails thread f ∧ (w.errors thread).message = f.text
  else ∀ f, ¬ w.Fails thread f

variable {thread : Nat}

/-- What does not end a thread's failure leaves its state. -/
theorem Told.other (h : w.Told thread) {e : DlEvent} (herror : w'.errors thread = w.errors thread)
    (hhist : w'.history = e :: w.history) (he : ¬ Ends thread e) : w'.Told thread := by
  have hfails : ∀ f, w'.Fails thread f ↔ w.Fails thread f := by
    intro f
    unfold Loaders.Fails
    rw [hhist]
    show _ ∨ _ ↔ _
    rw [or_iff_right fun heq => he (.inr ⟨f, heq⟩), and_iff_right he]
  unfold Told
  rw [herror]
  simp only [hfails]
  exact h

/-- An event that is not about the thread's errors leaves what it is told. -/
theorem Told.quiet (h : w.Told thread) {e : DlEvent} (herrors : w'.errors = w.errors)
    (hhist : w'.history = e :: w.history) (hreported : e ≠ .reported thread)
    (hfailed : ∀ f, e ≠ .failed (some thread) f) :
    w'.Told thread :=
  h.other (congrFun herrors thread) hhist fun hends => hends.elim hreported fun ⟨f, hf⟩ => hfailed f hf

/-- A failure is what its thread is told next. -/
theorem Told.fails (h : w.Told thread) (failing : Option Nat) (f : Failure) : (w.fails failing f).Told thread := by
  by_cases heq : failing = some thread
  · subst heq
    have herror : (w.fails (some thread) f).errors thread = ⟨f.text, true⟩ := (if_pos rfl).trans (fail_text f)
    unfold Told
    rw [herror, if_pos rfl]
    exact ⟨f, .inl rfl, rfl⟩
  · refine h.other (e := .failed failing f) (if_neg heq) rfl ?_
    rintro (hends | ⟨_, hends⟩)
    · cases hends
    · exact heq (DlEvent.failed.inj hends).1

/-- dlerror tells the last failure once. -/
theorem Told.report (h : w.Told thread) (asking : Nat) : Told { w with
    errors := fun t => if asking = t then (w.errors t).report.2 else w.errors t
    history := .reported asking :: w.history } thread := by
  by_cases heq : asking = thread
  · subst heq
    have hquiet :
        ((if asking = asking then (w.errors asking).report.2 else w.errors asking) : DlError).pending ≠ true := by
      rw [if_pos rfl]
      unfold DlError.report
      split
      · exact Bool.false_ne_true
      next hnot => exact hnot
    unfold Told
    dsimp only
    rw [if_neg hquiet]
    rintro f (hf | ⟨hends, _⟩)
    · cases hf
    · exact hends (.inl rfl)
  · refine h.other (e := .reported asking) (if_neg heq) rfl ?_
    rintro (hends | ⟨_, hends⟩)
    · exact heq (DlEvent.reported.inj hends)
    · cases hends

/-- Every call keeps what a thread is told next. -/
theorem Told.perform (h : w.Told thread) {call : DlCall} (hp : w.perform call = some w') : w'.Told thread := by
  cases call with
  | create g aliases namespaceName =>
    unfold Loaders.perform at hp
    dsimp only at hp
    split at hp
    next d _ _ =>
      obtain rfl := Option.some.inj hp
      exact h.quiet (e := .created w.contexts.length d.identity) rfl rfl nofun nofun
    next e _ _ =>
      obtain rfl := Option.some.inj hp
      exact h.quiet (e := .refused e) rfl rfl nofun nofun
    · cases hp
  | destroy k =>
    obtain ⟨_, _, rfl⟩ := Option.map_eq_some_iff.1 hp
    exact h.quiet (e := .destroyed k) rfl rfl nofun nofun
  | dlopen failing k locks name flags extension namespaceHandle =>
    obtain ⟨d, _, rfl⟩ := Option.map_eq_some_iff.1 hp
    split
    next handle _ _ => exact h.quiet (e := .opened k handle) rfl rfl nofun nofun
    · exact h.fails failing _
  | dlclose failing k locks handle =>
    obtain ⟨d, _, rfl⟩ := Option.map_eq_some_iff.1 hp
    split
    · exact h.quiet (e := .closed k handle) rfl rfl nofun nofun
    · exact h.fails failing _
  | dlsym failing k locks handle name version caller =>
    obtain ⟨_, _, hp⟩ := Option.bind_eq_some_iff.1 hp
    split at hp
    · exact Option.some.inj hp ▸ h
    · exact Option.some.inj hp ▸ h.fails failing _
    · cases hp
  | dlerror asking =>
    obtain rfl := Option.some.inj hp
    exact h.report asking

/-- In every reachable world each thread is told its last failure. -/
theorem reachable_told (h : machine.Reachable w) (thread : Nat) : w.Told thread := by
  refine h.inv (I := fun w => w.Told thread) (fun w hw => ?_) fun w w' hi hstep => ?_
  · rw [show w = {} from hw]
    exact fun _ => id
  · obtain ⟨_, hp⟩ := hstep
    exact hi.perform hp

/-- `dlerror` tells a thread of its last failure, once. In every run of the calls by any threads, what
`artbox_dlerror` would return to a thread is the whole message of the failure that was the thread's
last, and null if it has had none since it last asked; calls that succeed and calls of other
threads do not matter. -/
theorem errors_told (h : machine.Reachable w) (thread : Nat) (message : String) :
    (w.errors thread).report.1 = some message ↔ ∃ f, f.text = message ∧
      Since (fun e => e = .reported thread ∨ ∃ f', e = .failed (some thread) f') (· = .failed (some thread) f)
        w.history := by
  have htold := reachable_told h thread
  unfold Told at htold
  unfold DlError.report
  split
  next hpending =>
    rw [if_pos hpending] at htold
    obtain ⟨f, hf, hmessage⟩ := htold
    constructor
    · intro heq
      exact ⟨f, hmessage.symm.trans (Option.some.inj heq), hf⟩
    · rintro ⟨f', rfl, hf'⟩
      -- there is one last failure
      obtain ⟨e, _, rfl, heq⟩ := Since.common hf hf' (fun e he => .inr ⟨f, he⟩) fun e he => .inr ⟨f', he⟩
      cases heq
      exact congrArg some hmessage
  next hquiet =>
    rw [if_neg hquiet] at htold
    refine ⟨nofun, ?_⟩
    rintro ⟨f, _, hf⟩
    exact absurd hf (htold f)

/-- One thread fails twice and another once; the first has then asked. -/
def sampleFailures (g : Group) : List DlCall :=
  [.create g [] none, .dlopen (some 1) 0 true (some [98]) 0 0 0, .dlclose (some 1) 0 true 257,
    .dlopen (some 2) 0 true none 8 0 0, .dlopen (some 2) 0 true none 0 0 0, .dlerror 1]

/-- In the sample one thread is told its failure and the other has none. -/
theorem errors_told_sample : ∃ w, machine.Reachable w ∧ (w.errors 1).report.1 = none ∧
    (w.errors 2).report.1 = some "dlopen: invalid loader or flags" := by
  have hfacts : ∃ w ∈ (sampleFailures sampleGroup).foldlM perform {},
      (w.errors 1).report.1 = none ∧ w.history = [.reported 1, .opened 0 257, .failed (some 2) .openFlags,
        .failed (some 1) .closedHandle, .failed (some 1) .absent, .created 0 256] := by decide
  obtain ⟨w, hw, hnone, hhist⟩ := hfacts
  have hreach : machine.Reachable w := (Machine.Reachable.init rfl).foldlM (fun _ a _ h => ⟨a, h⟩) hw
  refine ⟨w, hreach, hnone, (errors_told hreach 2 _).2 ⟨.openFlags, rfl, ?_⟩⟩
  rw [hhist]
  refine .inr ⟨?_, .inr ⟨?_, .inl rfl⟩⟩
  · simp
  · simp

end Loaders

end Artbox.Linker
