import Artbox.Binder.Settled

/-!
# The callbacks of an exported object

An endpoint is told four things about an object of its own: that somebody refers to it
(`BR_INCREFS`) or holds it (`BR_ACQUIRE`), and that nobody does any more (`BR_DECREFS`,
`BR_RELEASE`). The device keeps no queue of these callbacks. Which one is due is worked out
anew, at each read, from the flags of the node and from who uses it (`nodeCommand`), so that
one endpoint's threads may take them in turn and acknowledge them late or early.

The exporter frees the object when the callbacks say so, hence what it may rely on is proved
of whole runs: the callbacks of a node come in the order `INCREFS (ACQUIRE RELEASE)* DECREFS`,
a callback is taken back only when it was acknowledged and nobody is left who needs it, and
an endpoint that was released is told nothing more. The stage in that order is read off the
history (`exportStage`) and agrees with the flags of the node (`Node.Announced`).
-/

namespace Artbox.Binder

open Slots Objects Trace

/-! ## The order of callbacks -/

/-- How far the callbacks of an object have come. -/
inductive ExportStage
  | unannounced | weak | strong | withdrawn
deriving DecidableEq, Repr

/-- The callbacks that may follow. -/
def ExportStage.next : ExportStage → BR → Option ExportStage
  | .unannounced, .increfs => some .weak
  | .weak, .acquire => some .strong
  | .strong, .release => some .weak
  | .weak, .decrefs => some .withdrawn
  | _, _ => none

/-- The callback of the object that an event is. -/
def Event.callback (id : Nat) : Event → Option BR
  | nodeCommand _ _ n c => if n = id then some c else none
  | _ => none

/-- The callbacks of an object, in the order they were delivered. -/
def callbacks (id : Nat) (h : List Event) : List BR := h.reverse.filterMap (Event.callback id)

/-- The stage after a history, nothing if the order was broken. -/
def exportStage (id : Nat) : List Event → Option ExportStage
  | [] => some .unannounced
  | e :: h =>
    match e.callback id with
    | none => exportStage id h
    | some c => (exportStage id h).bind (·.next c)

/-- The callbacks that lead to a stage, by way of `rounds` times `ACQUIRE` and `RELEASE`. -/
def ExportStage.word (rounds : Nat) : ExportStage → List BR
  | .unannounced => []
  | .weak => .increfs :: (List.replicate rounds [.acquire, .release]).flatten
  | .strong => .increfs :: (List.replicate rounds [.acquire, .release]).flatten ++ [.acquire]
  | .withdrawn => .increfs :: (List.replicate rounds [.acquire, .release]).flatten ++ [.decrefs]

theorem ExportStage.word_next {s s' : ExportStage} {c : BR} (h : s.next c = some s') (rounds : Nat) :
    ∃ rounds', s'.word rounds' = s.word rounds ++ [c] := by
  cases s <;> cases c <;> cases h
  · exact ⟨0, rfl⟩
  · exact ⟨rounds, rfl⟩
  · exact ⟨rounds, rfl⟩
  · -- one more round
    refine ⟨rounds + 1, ?_⟩
    show _ :: (List.replicate (rounds + 1) _).flatten = _
    rw [List.replicate_succ', List.flatten_append]
    simp [word]

/-- The stage tells what was delivered. -/
theorem callbacks_of_stage {id : Nat} {h : List Event} {s : ExportStage}
    (hs : exportStage id h = some s) : ∃ rounds, callbacks id h = s.word rounds := by
  induction h generalizing s with
  | nil =>
    cases hs
    exact ⟨0, rfl⟩
  | cons e h ih =>
    have hsplit : callbacks id (e :: h) = callbacks id h ++ (e.callback id).toList := by
      unfold callbacks
      rw [List.reverse_cons, List.filterMap_append]
      cases hc : e.callback id <;> simp [hc]
    unfold exportStage at hs
    cases hc : e.callback id with
    | none =>
      rw [hc] at hs hsplit
      rw [hsplit, Option.toList_none, List.append_nil]
      exact ih hs
    | some c =>
      rw [hc] at hs hsplit
      obtain ⟨s₀, hs₀, hnext⟩ := Option.bind_eq_some_iff.1 hs
      obtain ⟨rounds, hrounds⟩ := ih hs₀
      obtain ⟨rounds', hword⟩ := s₀.word_next hnext rounds
      exact ⟨rounds', by rw [hsplit, hrounds, hword, Option.toList_some]⟩

/-- Up to any stage the callbacks are the beginning of the whole order. -/
theorem ExportStage.word_prefix (s : ExportStage) (rounds : Nat) : ∃ n, s.word rounds <+:
    .increfs :: (List.replicate n [.acquire, .release]).flatten ++ [.decrefs] := by
  cases s with
  | unannounced => exact ⟨rounds, List.nil_prefix⟩
  | weak => exact ⟨rounds, [.decrefs], rfl⟩
  | strong =>
    refine ⟨rounds + 1, [.release, .decrefs], ?_⟩
    rw [List.replicate_succ', List.flatten_append]
    simp [word]
  | withdrawn => exact ⟨rounds, List.prefix_refl _⟩

section Silent

variable {id : Nat} {h l : List Event}

/-- No callback of any object. -/
def Event.Silent (e : Event) : Prop := ∀ k i id c, e ≠ .nodeCommand k i id c

theorem Event.Silent.callback {e : Event} (he : e.Silent) (id : Nat) : e.callback id = none := by
  cases e with
  | nodeCommand k i n c => exact absurd rfl (he k i n c)
  | _ => rfl

theorem exportStage_silent (hl : ∀ e ∈ l, e.Silent) : exportStage id (l ++ h) = exportStage id h := by
  induction l with
  | nil => rfl
  | cons e l ih =>
    rw [List.cons_append, exportStage, (hl e List.mem_cons_self).callback]
    exact ih fun e he => hl e (List.mem_cons_of_mem _ he)

theorem exportStage_command (k : Nat) (i : Int) (id n : Nat) (c : BR) (h : List Event) :
    exportStage id (.nodeCommand k i n c :: h) =
      if n = id then (exportStage id h).bind (·.next c) else exportStage id h := by
  rw [exportStage, Event.callback]
  by_cases hn : n = id
  · rw [if_pos hn, if_pos hn]
  · rw [if_neg hn, if_neg hn]

/-- An object nobody was told about. -/
theorem exportStage_unannounced (hl : ∀ k i c, .nodeCommand k i id c ∉ h) :
    exportStage id h = some .unannounced := by
  induction h with
  | nil => rfl
  | cons e h ih =>
    have hrest := ih fun k i c hmem => hl k i c (List.mem_cons_of_mem _ hmem)
    cases e with
    | nodeCommand k i n c =>
      rw [exportStage_command, if_neg]
      · exact hrest
      · rintro rfl
        exact hl k i c List.mem_cons_self
    | _ => exact hrest

end Silent

/-! ## What an exporter may rely on -/

/-- A callback of the object. -/
def Event.Calls (id : Nat) (c : BR) (e : Event) : Prop := ∃ k i, e = .nodeCommand k i id c

/-- The acknowledgement of one. -/
def Event.Answers (id : Nat) (c : BC) (e : Event) : Prop := ∃ k, e = .nodeDone k id c

/-- `BR_ACQUIRE` was acknowledged since it was last delivered. -/
abbrev Acquired (id : Nat) : List Event → Prop := Since (Event.Calls id .acquire) (Event.Answers id .acquireDone)

/-- `BR_INCREFS` was. -/
abbrev Increfed (id : Nat) : List Event → Prop := Since (Event.Calls id .increfs) (Event.Answers id .increfsDone)

/-- Callbacks are taken back after they were acknowledged, and all go to one endpoint. -/
def CallbackLaw (e : Event) (older : List Event) : Prop :=
  ∀ k i id c, e = .nodeCommand k i id c →
    (c = .release → Acquired id older) ∧ (c = .decrefs → Increfed id older) ∧
      ∀ k' i' c', .nodeCommand k' i' id c' ∈ older → k' = k

/-- The flags of a live node agree with its callbacks in the history. -/
structure Node.Announced (n : Node) (id : Nat) (h : List Event) : Prop where
  stage : exportStage id h =
    some (if n.hasStrong then .strong else if n.hasWeak then .weak else .unannounced)
  weak : n.hasStrong = true → n.hasWeak = true
  pendingStrong : n.pendingStrong = true → n.hasStrong = true
  pendingWeak : n.pendingWeak = true → n.hasWeak = true
  acquired : n.hasStrong = true → n.pendingStrong = false → Acquired id h
  increfed : n.hasWeak = true → n.pendingWeak = false → Increfed id h

/-- Flags and history agree for all objects. -/
structure Exports (d : Device) : Prop where
  stage : ∀ id, (exportStage id d.history).isSome = true
  fresh : ∀ id, ¬ Issued d.objects.nextNode id → ∀ k i c, .nodeCommand k i id c ∉ d.history
  live : ∀ id n, d.objects.nodeFor id = some n → n.dead = false → n.manager = false →
    n.Announced id d.history
  owner : ∀ k i id c, .nodeCommand k i id c ∈ d.history → ∀ n, d.objects.nodeFor id = some n →
    n.owner = k
  weak : ∀ id n, d.objects.nodeFor id = some n → n.hasStrong = true → n.hasWeak = true
  law : Always CallbackLaw d.history

/-- The same flags; an acknowledgement that is no longer awaited has come. -/
structure Node.Carried (h : List Event) (n n' : Node) : Prop where
  hasStrong : n'.hasStrong = n.hasStrong
  hasWeak : n'.hasWeak = n.hasWeak
  pendingStrong : n'.pendingStrong = n.pendingStrong ∨ n'.pendingStrong = false ∧ Acquired n.id h
  pendingWeak : n'.pendingWeak = n.pendingWeak ∨ n'.pendingWeak = false ∧ Increfed n.id h

/-! ## Steps -/

section Carry

variable {d d' : Device} {g : Node → Node} {l : List Event}

/-- A silent step that edits nodes by `g` at most. -/
theorem Exports.carry (h : Exports d) (hk : KeptBy g d.objects d'.objects)
    (hh : d'.history = l ++ d.history) (hl : ∀ e ∈ l, e.Silent)
    (hframe : ∀ n, (g n).owner = n.owner ∧ (g n).manager = n.manager ∧
      ((g n).hasStrong = true → n.hasStrong = true ∧ (g n).hasWeak = n.hasWeak))
    (hflags : ∀ n, (g n).dead = false → n.dead = false ∧ n.Carried d'.history (g n)) : Exports d' := by
  -- silent events are no callbacks, so the callbacks are the old ones
  have hnot : ∀ k i id c, .nodeCommand k i id c ∈ d'.history → .nodeCommand k i id c ∈ d.history := by
    intro k i id c hmem
    rw [hh] at hmem
    rcases List.mem_append.1 hmem with hmem | hmem
    · exact absurd rfl (hl _ hmem k i id c)
    · exact hmem
  have hcalls : ∀ id c, ∀ e ∈ l, ¬ e.Calls id c := by
    rintro id c e he ⟨k, i, rfl⟩
    exact hl _ he k i id c rfl
  refine ⟨fun id => ?_, fun id hid k i c hmem => ?_, fun id n' hn' hdead hman => ?_,
    fun k i id c hmem n' hn' => ?_, fun id n' hn' hstrong => ?_, ?_⟩
  · rw [hh, exportStage_silent hl]
    exact h.stage id
  · exact h.fresh id (fun hi => hid (hk.next id hi)) k i c (hnot k i id c hmem)
  · rcases hk.nodes id n' hn' with ⟨n, hn, hs⟩ | ⟨hnew, hfresh, _⟩
    · obtain ⟨hlive, hcarried⟩ := hflags n (hs.dead ▸ hdead)
      have ha := h.live id n hn hlive ((hframe n).2.1.symm.trans (hs.manager.symm.trans hman))
      have hid := (nodeFor_spec hn).2.1
      have hS : n'.hasStrong = n.hasStrong := hs.hasStrong.trans hcarried.hasStrong
      have hW : n'.hasWeak = n.hasWeak := hs.hasWeak.trans hcarried.hasWeak
      have hpS := hcarried.pendingStrong
      have hpW := hcarried.pendingWeak
      rw [← hs.pendingStrong, hid] at hpS
      rw [← hs.pendingWeak, hid] at hpW
      refine ⟨?_, ?_, fun hp => ?_, fun hp => ?_, fun hst hp => ?_, fun hwk hp => ?_⟩
      · rw [hh, exportStage_silent hl, hS, hW]
        exact ha.stage
      · rw [hS, hW]
        exact ha.weak
      · rw [hS]
        rcases hpS with heq | ⟨hfalse, _⟩
        · exact ha.pendingStrong (heq ▸ hp)
        · rw [hfalse] at hp
          cases hp
      · rw [hW]
        rcases hpW with heq | ⟨hfalse, _⟩
        · exact ha.pendingWeak (heq ▸ hp)
        · rw [hfalse] at hp
          cases hp
      · rcases hpS with heq | ⟨_, hsince⟩
        · rw [hh]
          exact (ha.acquired (hS ▸ hst) (heq ▸ hp)).append (hcalls id _)
        · exact hsince
      · rcases hpW with heq | ⟨_, hsince⟩
        · rw [hh]
          exact (ha.increfed (hW ▸ hwk) (heq ▸ hp)).append (hcalls id _)
        · exact hsince
    · -- a new node has no flags and no callbacks
      have hS : n'.hasStrong = false := hfresh.hasStrong.trans hman
      have hW : n'.hasWeak = false := hfresh.hasWeak.trans hman
      refine ⟨?_, ?_, ?_, ?_, ?_, ?_⟩
      · rw [hS, hW]
        exact exportStage_unannounced fun k i c hmem => h.fresh id hnew k i c (hnot k i id c hmem)
      · simp [hS]
      · simp [hfresh.pendingStrong]
      · simp [hfresh.pendingWeak]
      · simp [hS]
      · simp [hW]
  · rcases hk.nodes id n' hn' with ⟨n, hn, hs⟩ | ⟨hnew, _⟩
    · exact (hs.owner.trans (hframe n).1).trans (h.owner k i id c (hnot k i id c hmem) n hn)
    · exact absurd (hnot k i id c hmem) (h.fresh id hnew k i c)
  · rcases hk.nodes id n' hn' with ⟨n, hn, hs⟩ | ⟨_, hfresh, hman⟩
    · obtain ⟨hst, hwk⟩ := (hframe n).2.2 (hs.hasStrong ▸ hstrong)
      exact (hs.hasWeak.trans hwk).trans (h.weak id n hn hst)
    · rw [hfresh.hasWeak, ← hfresh.hasStrong]
      exact hstrong
  · rw [hh]
    exact h.law.append fun e he older k i id c heq => absurd heq (hl e he k i id c)

theorem Node.Carried.of_like {h : List Event} {n n' : Node} (hs : n.Like n') : n.Carried h n' :=
  ⟨hs.hasStrong, hs.hasWeak, .inl hs.pendingStrong, .inl hs.pendingWeak⟩

/-- An edit that no flag notices. -/
theorem Exports.like (h : Exports d) (hk : KeptBy g d.objects d'.objects) (hg : ∀ n : Node, n.Like (g n))
    (hh : d'.history = l ++ d.history) (hl : ∀ e ∈ l, e.Silent) : Exports d' :=
  h.carry hk hh hl
    (fun n => ⟨(hg n).owner, (hg n).manager, fun hs => ⟨(hg n).hasStrong ▸ hs, (hg n).hasWeak⟩⟩)
    fun n hd => ⟨(hg n).dead ▸ hd, .of_like (hg n)⟩

end Carry

/-- An acknowledgement changes nothing that was announced. -/
theorem acked_flags (id : Nat) (increfs : Bool) (n : Node) :
    (acked id increfs n).hasStrong = n.hasStrong ∧ (acked id increfs n).hasWeak = n.hasWeak := by
  unfold acked
  split
  · split <;> exact ⟨rfl, rfl⟩
  · exact ⟨rfl, rfl⟩

/-- A step that delivers no callback. -/
theorem Exports.handled {d d' : Device} (h : Exports d) (hd : Handling d d')
    (hsilent : ∀ l, d'.history = l ++ d.history → ∀ e ∈ l, e.Silent) : Exports d' := by
  cases hd with
  | quiet _ hq _ _ _ hh => exact h.like hq.kept .refl hh (hsilent _ hh)
  | @accept e target th node input r p c _ _ _ _ _ _ hm _ _ _ _ _ _ hh =>
    exact h.like (l := [_, _]) hm.kept (gate_like _) hh (hsilent _ hh)
  | deliver _ _ _ _ _ ho _ _ _ hh =>
    refine h.like (g := id) (l := [_]) ?_ .refl hh (hsilent _ hh)
    rw [ho]
    exact Objects.Kept.of_nodes rfl rfl
  | free _ _ _ hm _ _ _ hh => exact h.like (l := [_]) hm.kept (advance_like _ _ _ _) hh (hsilent _ hh)
  | @drop token tid ws l _ _ _ _ hq _ _ _ hh =>
    rw [← List.append_assoc] at hh
    exact h.like hq.kept .refl hh (hsilent _ hh)
  | @register e n _ _ _ _ _ hman hf hnew h0 hnext _ _ _ _ hfor _ _ hh =>
    -- the new node is a manager, the others are the old ones
    have hold : ∀ id n', d'.objects.nodeFor id = some n' → n'.manager = false →
        d.objects.nodeFor id = some n' := by
      intro id n' hn' hno
      rw [hfor] at hn'
      split at hn'
      next =>
        cases hn'
        rw [hman] at hno
        cases hno
      next => exact hn'
    refine ⟨?_, ?_, ?_, ?_, ?_, ?_⟩
    · rw [hh]
      exact h.stage
    · rw [hh]
      exact fun id hid => h.fresh id fun hi => hid (hnext id hi)
    · rw [hh]
      exact fun id n' hn' hdead hno => h.live id n' (hold id n' hn' hno) hdead hno
    · intro k i id c hmem n' hn'
      rw [hh] at hmem
      rw [hfor] at hn'
      split at hn'
      next heq => exact absurd hmem (h.fresh id (heq ▸ hnew) k i c)
      next => exact h.owner k i id c hmem n' hn'
    · intro id n' hn' hst
      rw [hfor] at hn'
      split at hn'
      next =>
        cases hn'
        rw [hf.hasWeak, hman]
      next => exact h.weak id n' hn' hst
    · rw [hh]
      exact h.law
  | @done e n increfs _ _ hn _ _ hm _ _ _ hh =>
    refine h.carry (l := [_]) hm.kept hh (hsilent _ hh) (fun x => ?_) fun x hx => ?_
    · obtain ⟨how, hman, _⟩ := acked_frame n.id increfs x
      obtain ⟨hstrong, hweak⟩ := acked_flags n.id increfs x
      exact ⟨how, hman, fun hst => ⟨hstrong ▸ hst, hweak⟩⟩
    · refine ⟨(acked_frame n.id increfs x).2.2 ▸ hx, ?_⟩
      rw [hh, acked]
      by_cases heq : x.id = n.id
      · rw [if_pos heq, ← heq]
        cases increfs with
        | true => exact ⟨rfl, rfl, .inl rfl, .inr ⟨rfl, .inl ⟨_, rfl⟩⟩⟩
        | false => exact ⟨rfl, rfl, .inr ⟨rfl, .inl ⟨_, rfl⟩⟩, .inl rfl⟩
      · rw [if_neg heq]
        exact .of_like (.refl x)
  | command _ _ _ _ _ _ _ _ _ _ _ hh =>
    exact absurd rfl (hsilent [_] hh _ List.mem_cons_self _ _ _ _)
  | @retire token o _ hr ho _ _ _ _ _ hh =>
    have hk : KeptBy (orphan token) d.objects d'.objects := by
      have hkept := hr.moves.kept
      rw [ho]
      split
      · exact ⟨hkept.next, hkept.nodes, hkept.stays⟩
      · exact hkept
    refine h.carry (l := [_]) hk hh (hsilent _ hh) (fun x => ?_) fun x hx => ?_
    · unfold orphan
      split
      · exact ⟨rfl, rfl, fun hst => (Bool.false_ne_true hst).elim⟩
      · exact ⟨rfl, rfl, fun hst => ⟨hst, rfl⟩⟩
    · unfold orphan at hx ⊢
      split at hx
      next => cases hx
      next hother =>
        rw [if_neg hother]
        exact ⟨hx, .of_like (.refl x)⟩

/-! ## Callbacks -/

/-- What is due tells who uses the node, and which flags it has. -/
theorem Objects.nodeCommand_cases {o : Objects} {n : Node} {c : BR} (h : o.nodeCommand n = some c) :
    (c = .increfs ∧ n.hasWeak = false) ∨
    (c = .acquire ∧ n.hasWeak = true ∧ n.hasStrong = false) ∨
    (c = .release ∧ n.hasStrong = true ∧ o.strongUse n = false) ∨
    (c = .decrefs ∧ n.hasWeak = true ∧ n.hasStrong = false ∧ o.weakUse n = false ∧
      o.strongUse n = false) := by
  have hweak : o.weakUse n = false → o.strongUse n = false := by
    intro hw
    unfold Objects.weakUse at hw
    rw [Bool.or_eq_false_iff] at hw
    exact hw.2
  have huse : o.strongUse n = true → o.weakUse n = true := by
    intro hs
    unfold Objects.weakUse
    rw [hs, Bool.or_true]
  unfold Objects.nodeCommand at h
  split at h
  next hcond =>
    rw [Bool.and_eq_true, Bool.not_eq_true'] at hcond
    cases h
    exact .inl ⟨rfl, hcond.2⟩
  next hcond =>
    rw [Bool.and_eq_true, Bool.not_eq_true', not_and, Bool.not_eq_false] at hcond
    split at h
    next hstrong =>
      rw [Bool.and_eq_true, Bool.not_eq_true'] at hstrong
      cases h
      exact .inr (.inl ⟨rfl, hcond (huse hstrong.1), hstrong.2⟩)
    next hstrong =>
      split at h
      next hrelease =>
        rw [Bool.and_eq_true, Bool.not_eq_true'] at hrelease
        cases h
        exact .inr (.inr (.inl ⟨rfl, hrelease.2, hrelease.1⟩))
      next hrelease =>
        split at h
        next hdecrefs =>
          rw [Bool.and_eq_true, Bool.not_eq_true'] at hdecrefs
          have hs := hweak hdecrefs.1
          rw [Bool.and_eq_true, Bool.not_eq_true', not_and, Bool.not_eq_true] at hrelease
          cases h
          exact .inr (.inr (.inr ⟨rfl, hdecrefs.2, hrelease hs, hdecrefs.1, hs⟩))
        next => cases h

/-- Nobody uses a node strongly who would have to acknowledge. -/
theorem Objects.pendingStrong_of_strongUse {o : Objects} {n : Node} (h : o.strongUse n = false) :
    n.pendingStrong = false := by
  unfold Objects.strongUse at h
  simp only [Bool.or_eq_false_iff] at h
  exact h.1.1.2

theorem Objects.pendingWeak_of_weakUse {o : Objects} {n : Node} (h : o.weakUse n = false) :
    n.pendingWeak = false := by
  unfold Objects.weakUse at h
  simp only [Bool.or_eq_false_iff] at h
  exact h.1.1

/-- A node that was withdrawn is free. -/
theorem Objects.not_inUse_decrefs {o : Objects} {n : Node} (hs : n.hasStrong = false)
    (hw : o.weakUse n = false) (hu : o.strongUse n = false) : o.inUse (n.commanded .decrefs) = false := by
  have hweak : o.weakUse (n.commanded .decrefs) = false := hw
  have hstrong : o.strongUse (n.commanded .decrefs) = false := hu
  have hflag : (n.commanded .decrefs).hasStrong = false := hs
  unfold Objects.inUse
  rw [hweak, hstrong, hflag]
  rfl

/-- An acknowledgement stays when another callback is delivered. -/
theorem since_command {id : Nat} {a c : BR} {b : BC} {h : List Event}
    (hs : Since (Event.Calls id c) (Event.Answers id b) h) (hne : a ≠ c) (k : Nat) (i : Int) :
    Since (Event.Calls id c) (Event.Answers id b) (.nodeCommand k i id a :: h) := by
  refine .inr ⟨?_, hs⟩
  rintro ⟨_, _, heq⟩
  cases heq
  exact hne rfl

/-- The flags of the node and its history after a callback. -/
theorem Node.Announced.commanded {o : Objects} {n : Node} {h : List Event} {c : BR}
    (ha : n.Announced n.id h) (hc : o.nodeCommand n = some c) (k : Nat) (i : Int) :
    (exportStage n.id (.nodeCommand k i n.id c :: h)).isSome = true ∧
      ((c = .release → Acquired n.id h) ∧ (c = .decrefs → Increfed n.id h)) ∧
        (o.inUse (n.commanded c) = true →
          (n.commanded c).Announced n.id (.nodeCommand k i n.id c :: h)) := by
  have hstage := ha.stage
  rw [exportStage_command, if_pos rfl]
  rcases Objects.nodeCommand_cases hc with ⟨rfl, hW⟩ | ⟨rfl, hW, hS⟩ | ⟨rfl, hS, hu⟩ |
    ⟨rfl, hW, hS, hw, hu⟩
  · -- the first callback
    have hS : n.hasStrong = false := by
      by_contra hne
      rw [ha.weak (by simpa using hne)] at hW
      cases hW
    have hpS : n.pendingStrong ≠ true := fun hp => by
      rw [ha.pendingStrong hp] at hS
      cases hS
    simp only [hS, hW, Bool.false_eq_true, if_false] at hstage
    rw [hstage]
    refine ⟨rfl, ⟨nofun, nofun⟩, fun _ => ⟨?_, fun _ => rfl, fun hp => absurd hp hpS, fun _ => rfl,
      fun hst _ => ?_, fun _ hp => nomatch hp⟩⟩
    · rw [exportStage_command, if_pos rfl, hstage]
      simp [Node.commanded, hS, ExportStage.next]
    · have hst' : n.hasStrong = true := hst
      rw [hS] at hst'
      cases hst'
  · simp only [hS, hW, Bool.false_eq_true, if_false, if_true] at hstage
    rw [hstage]
    refine ⟨rfl, ⟨nofun, nofun⟩, fun _ => ⟨?_, fun _ => hW, fun _ => rfl, ha.pendingWeak,
      (fun _ hp => nomatch hp),
      fun hwk hp => since_command (a := .acquire) (ha.increfed hwk hp) nofun k i⟩⟩
    rw [exportStage_command, if_pos rfl, hstage]
    rfl
  · -- nobody uses the node, so nothing is awaited either
    have hpS := Objects.pendingStrong_of_strongUse hu
    have hW := ha.weak hS
    have hacquired := ha.acquired hS hpS
    simp only [hS, if_true] at hstage
    rw [hstage]
    refine ⟨rfl, ⟨fun _ => hacquired, nofun⟩, fun _ => ⟨?_, (fun hst => nomatch hst), fun hp => ?_,
      ha.pendingWeak, (fun hst => nomatch hst),
      fun hwk hp => since_command (a := .release) (ha.increfed hwk hp) nofun k i⟩⟩
    · rw [exportStage_command, if_pos rfl, hstage]
      simp [Node.commanded, hW, ExportStage.next]
    · have hp' : n.pendingStrong = true := hp
      rw [hpS] at hp'
      cases hp'
  · have hincrefed := ha.increfed hW (Objects.pendingWeak_of_weakUse hw)
    simp only [hS, hW, Bool.false_eq_true, if_false, if_true] at hstage
    rw [hstage]
    refine ⟨rfl, ⟨nofun, fun _ => hincrefed⟩, fun huse => ?_⟩
    rw [Objects.not_inUse_decrefs hS hw hu] at huse
    cases huse

/-- The step that delivers a callback. -/
theorem Exports.told {d : Device} {e : Endpoint} {th : Thread} {n : Node} {c : BR} (h : Exports d)
    (ha : Accounts d) (hn : d.nodeEventFor e.token th = some (n, c)) :
    Exports (d.deliver e th (.node n c)).2 := by
  obtain ⟨hmem, h0, how, hdead, hman, hc⟩ := Device.nodeEventFor_spec hn
  have hnode := ha.objects.nodes.nodeFor hmem h0
  obtain ⟨_, hfor⟩ := ha.objects.commanded hnode c
  obtain ⟨hsome, hlaw, hflags⟩ := (h.live n.id n hnode hdead hman).commanded hc e.token th.tid
  have hh : (d.deliver e th (.node n c)).2.history = .nodeCommand e.token th.tid n.id c :: d.history := rfl
  have hid : n.id = (n.commanded c).id ∧ n.owner = (n.commanded c).owner := by
    cases c <;> exact ⟨rfl, rfl⟩
  -- a node afterwards is the one that was told, or was there before
  have hafter : ∀ id n', (d.deliver e th (.node n c)).2.objects.nodeFor id = some n' →
      (id = n.id ∧ n' = n.commanded c ∧ d.objects.inUse (n.commanded c) = true) ∨
        (id ≠ n.id ∧ d.objects.nodeFor id = some n') := by
    intro id n' hn'
    have hn' : ((d.objects.setNode (n.commanded c)).collectNodes).nodeFor id = some n' := hn'
    rw [hfor, Option.filter_eq_some_iff] at hn'
    obtain ⟨hn', huse⟩ := hn'
    split at hn'
    next heq =>
      cases hn'
      exact .inl ⟨heq, rfl, huse⟩
    next hne => exact .inr ⟨hne, hn'⟩
  refine ⟨fun id => ?_, fun id hi k i c' hmem' => ?_, fun id n' hn' hdead' hman' => ?_,
    fun k i id c' hmem' n' hn' => ?_, fun id n' hn' hst => ?_, ?_, h.law⟩
  · rw [hh]
    by_cases heq : n.id = id
    · exact heq ▸ hsome
    · rw [exportStage_command, if_neg heq]
      exact h.stage id
  · rw [hh] at hmem'
    rcases List.mem_cons.1 hmem' with heq | hmem'
    · cases heq
      exact hi (ha.objects.nodes.issued n hmem h0)
    · exact h.fresh id hi k i c' hmem'
  · rw [hh]
    rcases hafter id n' hn' with ⟨rfl, rfl, huse⟩ | ⟨hne, hold⟩
    · exact hflags huse
    · have hann := h.live id n' hold hdead' hman'
      have hcalls : ∀ c₀, ∀ x ∈ [Event.nodeCommand e.token th.tid n.id c], ¬ x.Calls id c₀ := by
        rintro c₀ x hx ⟨_, _, rfl⟩
        cases List.mem_singleton.1 hx
        exact hne rfl
      refine ⟨?_, hann.weak, hann.pendingStrong, hann.pendingWeak,
        fun hst hp => (hann.acquired hst hp).append (l := [_]) (hcalls _),
        fun hwk hp => (hann.increfed hwk hp).append (l := [_]) (hcalls _)⟩
      rw [exportStage_command, if_neg fun heq => hne heq.symm]
      exact hann.stage
  · rw [hh] at hmem'
    rcases hafter id n' hn' with ⟨rfl, rfl, _⟩ | ⟨hne, hold⟩
    · rw [← hid.2]
      rcases List.mem_cons.1 hmem' with heq | hmem'
      · cases heq
        exact how
      · exact h.owner k i _ c' hmem' n hnode
    · rcases List.mem_cons.1 hmem' with heq | hmem'
      · cases heq
        exact absurd rfl hne
      · exact h.owner k i id c' hmem' n' hold
  · rcases hafter id n' hn' with ⟨rfl, rfl, huse⟩ | ⟨_, hold⟩
    · exact (hflags huse).weak hst
    · exact h.weak id n' hold hst
  · intro k i id c' heq
    cases heq
    refine ⟨hlaw.1, hlaw.2, fun k' i' c'' hmem' => ?_⟩
    rw [← how, h.owner k' i' _ c'' hmem' n hnode]

/-! ## Every step -/

/-- A step that neither delivers a callback nor takes an endpoint away. -/
def Device.Discreet (d d' : Device) : Prop :=
  ∃ l, d'.history = l ++ d.history ∧ ∀ e ∈ l, e.Silent ∧ ∀ k, e ≠ .released k

theorem Device.Discreet.same {d d' : Device} (h : d'.history = d.history) : d.Discreet d' :=
  ⟨[], h, List.forall_mem_nil _⟩

theorem Device.Discreet.cons {d d' : Device} {e : Event} (h : d'.history = e :: d.history)
    (he : e.Silent ∧ ∀ k, e ≠ .released k) : d.Discreet d' :=
  ⟨[e], h, fun x hx => by cases List.mem_singleton.1 hx; exact he⟩

theorem Device.Discreet.slot {d d' : Device} {o : Objects} {slot : Option Nat} {event : Nat → Event}
    (h : d' = { d with objects := o }.recordSlot slot event)
    (he : ∀ i, (event i).Silent ∧ ∀ k, event i ≠ .released k) : d.Discreet d' := by
  subst h
  cases slot with
  | none => exact .same rfl
  | some slot => exact .cons rfl (he slot)

open Device in
/-- A step delivers a callback that is due, or takes an endpoint away, or does neither. -/
theorem Step.callback {d d' : Device} (hs : Step d d') :
    (∃ e th n c, d.endpointFor e.token = some e ∧ d.nodeEventFor e.token th = some (n, c) ∧
      d' = (d.deliver e th (.node n c)).2) ∨
    (∃ token, InTeardown token 0 d.history ∧ d' = d.retire token) ∨ d.Discreet d' := by
  cases hs with
  | openEndpoint ho => exact .inr (.inr (.same (openEndpoint_frame ho).2.2.2.1))
  | admission _ _ hadm => exact .inr (.inr (.same (admitThread_frame hadm).2.2.2.1))
  | setContextMgr flags pointer cookie =>
    exact .inr (.inr (.same (setContextMgr_frame d _ flags pointer cookie).2.2.2.2))
  | nodeDone => exact .inr (.inr (.cons rfl ⟨nofun, nofun⟩))
  | requestDeath => exact .inr (.inr (.slot rfl fun _ => ⟨nofun, nofun⟩))
  | clearDeath => exact .inr (.inr (.slot rfl fun _ => ⟨nofun, nofun⟩))
  | doneDeath => exact .inr (.inr (.slot rfl fun _ => ⟨nofun, nofun⟩))
  | free buffer =>
    obtain ⟨_, _, _, ⟨new, hh, hnew⟩, _⟩ := freePacket_frame d _ buffer
    refine .inr (.inr ⟨new, hh, fun e he => ?_⟩)
    rw [hnew e he]
    exact ⟨nofun, nofun⟩
  | refuse | bounce | reply | oneway | call =>
    refine .inr (.inr ⟨[_, _], rfl, fun e he => ?_⟩)
    rcases List.mem_pair.1 he with rfl | rfl
    · exact ⟨nofun, nofun⟩
    · exact ⟨nofun, nofun⟩
  | @deliver e th record he _ hr =>
    rcases nextRecord_cases hr with ⟨word, _, rfl⟩ | ⟨_, n, c, hn, rfl⟩ | ⟨_, _, rfl⟩ |
      ⟨_, _, index, w, _, _, rfl⟩ | ⟨_, slot, death, _, _, rfl⟩
    · exact .inr (.inr (.cons rfl ⟨nofun, nofun⟩))
    · exact .inl ⟨e, th, n, c, he, hn, rfl⟩
    · exact .inr (.inr (.cons rfl ⟨nofun, nofun⟩))
    · refine .inr (.inr ?_)
      show d.Discreet (d.deliverWork e th index w).2
      rcases deliverWork_cases d e th index w with ⟨_, heq | heq⟩ | ⟨_, _, heq⟩ <;> rw [heq]
      · exact .same rfl
      · exact .same rfl
      · exact .cons (e := .delivered e.token th.tid d.work w) (by simp) ⟨nofun, nofun⟩
    · exact .inr (.inr (.cons rfl ⟨nofun, nofun⟩))
  | teardown => exact .inr (.inr (.cons rfl ⟨nofun, nofun⟩))
  | @cancel token tid t =>
    obtain ⟨_, _, _, _, _, new, hh, hnew⟩ := cancelTransaction_frame d token tid t
    refine .inr (.inr ⟨_, hh.trans (List.append_assoc ..).symm, fun e he => ?_⟩)
    rcases List.mem_append.1 he with he | he
    · obtain ⟨w, _, rfl⟩ := List.mem_map.1 (List.mem_reverse.1 he)
      exact ⟨nofun, nofun⟩
    · obtain ⟨_, rfl⟩ := hnew e he
      exact ⟨nofun, nofun⟩
  | drop => exact .inr (.inr (.cons rfl ⟨nofun, nofun⟩))
  | erase => exact .inr (.inr (.cons rfl ⟨nofun, nofun⟩))
  | retire ht => exact .inr (.inl ⟨_, ht, rfl⟩)
  | _ => exact .inr (.inr (.same rfl))

/-- Flags and history agree in every reachable state. -/
theorem Device.Reachable.exports {d : Device} (h : d.Reachable) : Exports d := by
  refine h.inv_of (J := fun d => d.Reachable) (fun _ h => h) (fun d hi => ?_) fun d d' hr hx hs => ?_
  · obtain ⟨_, _, _, ho, hh, _⟩ := machine_init hi
    have hnone : ∀ id n, d.objects.nodeFor id ≠ some n := by
      intro id n hn
      rw [ho] at hn
      cases hn
    refine ⟨fun id => ?_, fun id _ k i c hmem => ?_, fun id n hn => absurd hn (hnone id n),
      fun k i id c hmem => ?_, fun id n hn => absurd hn (hnone id n), ?_⟩
    · rw [hh]
      rfl
    · rw [hh] at hmem
      cases hmem
    · rw [hh] at hmem
      cases hmem
    · rw [hh]
      trivial
  · -- a history determines what was added to it
    have hunique : ∀ l l' : List Event, d'.history = l ++ d.history → d'.history = l' ++ d.history →
        l = l' := fun l l' h₁ h₂ => List.append_cancel_right (h₁.symm.trans h₂)
    rcases hs.callback with ⟨e, th, n, c, _, hn, rfl⟩ | ⟨token, _, rfl⟩ | ⟨l, hh, hl⟩
    · exact hx.told hr.accounts hn
    · refine hx.handled (hr.handling hs) fun l hh e he => ?_
      obtain ⟨_, _, hret, _⟩ : _ ∧ _ ∧ (d.retire token).history = _ ∧ _ := Device.retire_frame
      have hl : l = [.released token] := hunique l _ hh hret
      rw [hl] at he
      cases List.mem_singleton.1 he
      exact nofun
    · refine hx.handled (hr.handling hs) fun l' hh' e he => ?_
      rw [hunique l' l hh' hh] at he
      exact (hl e he).1

/-! ## Endpoints that are gone -/

/-- A callback goes to an endpoint that was not released. -/
def CallbackBefore (e : Event) (older : List Event) : Prop :=
  ∀ k i id c, e = .nodeCommand k i id c → .released k ∉ older

/-- A device between two calls: released endpoints are gone, and were told nothing since. -/
structure Device.Ended (d : Device) : Prop where
  settled : d.Settled
  gone : ∀ k, .released k ∈ d.history → Issued d.nextToken k ∧ d.endpointFor k = none
  silent : Always CallbackBefore d.history

namespace Device.Ended

variable {d d' : Device}

/-- A part of the history that delivers no callback. -/
theorem grow (h : d.Ended) (hs : d'.Settled) {l : List Event} (hh : d'.history = l ++ d.history)
    (hl : ∀ e ∈ l, e.Silent)
    (hgone : ∀ k, .released k ∈ l ∨ (Issued d.nextToken k ∧ d.endpointFor k = none) →
      Issued d'.nextToken k ∧ d'.endpointFor k = none) : d'.Ended := by
  refine ⟨hs, fun k hk => ?_, ?_⟩
  · rw [hh] at hk
    rcases List.mem_append.1 hk with hk | hk
    · exact hgone k (.inl hk)
    · exact hgone k (.inr (h.gone k hk))
  · rw [hh]
    exact h.silent.append fun e he older k i id c heq => absurd heq (hl e he k i id c)

theorem step (h : d.Ended) (hs : Step d d') (hc : d.Calm d') : d'.Ended := by
  have hr := h.settled.reachable
  have hsettled := h.settled.step hs hc
  have hgone : ∀ k, Issued d.nextToken k ∧ d.endpointFor k = none →
      Issued d'.nextToken k ∧ d'.endpointFor k = none := fun k hk => h.settled.gone_step hs k hk.1 hk.2
  rcases hs.callback with ⟨e, th, n, c, he, _, rfl⟩ | ⟨token, ht, _⟩ | ⟨l, hh, hl⟩
  · refine ⟨hsettled, fun k hk => ?_, fun k i id c' heq hrel => ?_, h.silent⟩
    · rcases List.mem_cons.1 hk with hk | hk
      · cases hk
      · exact hgone k (h.gone k hk)
    · -- the endpoint that reads is there
      cases heq
      have hnone := (h.gone e.token hrel).2
      rw [he] at hnone
      cases hnone
  · exact absurd ht (h.settled.resting _ _)
  · refine h.grow hsettled hh (fun e he => (hl e he).1) fun k hk => ?_
    rcases hk with hk | hk
    · exact absurd rfl ((hl _ hk).2 k)
    · exact hgone k hk

/-- What a teardown adds to the history. -/
theorem silent_of_tears {token : Nat} {tid : Int} {e : Event} (he : e.Tears token tid) :
    e.Silent ∧ ∀ k, e ≠ .released k := by
  rcases he with ⟨_, rfl⟩ | ⟨_, _, _, _, rfl⟩
  · exact ⟨nofun, nofun⟩
  · exact ⟨nofun, nofun⟩

theorem exitThread (h : d.Ended) (token : Nat) {tid : Int} (hpos : 0 < tid) :
    (d.exitThread token tid).Ended := by
  obtain ⟨l, hl, htears⟩ := torn_cancelTransactions (d.record (.teardown token tid)) token tid
  have hsame : SameIds (d.record (.teardown token tid))
      ((d.record (.teardown token tid)).cancelTransactions token tid) := .cancelTransactions
  have hh : (d.exitThread token tid).history =
      (.exited token tid :: (l ++ [.teardown token tid])) ++ d.history := by
    show _ :: (Device.cancelTransactions _ token tid).history = _
    rw [hl]
    simp
  have hnew : ∀ e ∈ (.exited token tid :: (l ++ [.teardown token tid]) : List Event),
      e.Silent ∧ ∀ k, e ≠ .released k := by
    intro e he
    rcases List.mem_cons.1 he with rfl | he
    · exact ⟨nofun, nofun⟩
    · rcases List.mem_append.1 he with he | he
      · exact silent_of_tears (htears e he)
      · cases List.mem_singleton.1 he
        exact ⟨nofun, nofun⟩
  refine h.grow (h.settled.exitThread token hpos) hh (fun e he => (hnew e he).1) fun k hk => ?_
  rcases hk with hk | ⟨hi, hnone⟩
  · exact absurd rfl ((hnew _ hk).2 k)
  · have hnext : (d.exitThread token tid).nextToken = d.nextToken := hsame.1
    refine ⟨hnext ▸ hi, ?_⟩
    have hpres := hsame.present k
    rw [endpointFor_record, hnone, Option.isSome_none, Option.isSome_eq_false_iff,
      Option.isNone_iff_eq_none] at hpres
    have hthreads : ∀ e : Endpoint,
        { e with threads := e.threads.filter fun t => t.tid != tid }.token = e.token := fun _ => rfl
    rw [Device.exitThread, eraseThread, endpointFor_record, endpointFor_updateEndpoint hthreads]
    exact Option.map_eq_none_iff.2 hpres

theorem releaseEndpoint (h : d.Ended) {token : Nat} (h0 : token ≠ 0) (hi : Issued d.nextToken token) :
    (d.releaseEndpoint token).Ended := by
  obtain ⟨l, hl, htears⟩ := torn_cancelTransactions (d.record (.teardown token 0)) token 0
  have hh : (d.releaseEndpoint token).history =
      (.released token :: (l ++ [.teardown token 0])) ++ d.history := by
    rw [Device.releaseEndpoint, retire_frame.2.2.1, hl]
    simp
  have hgone : ∀ k, k = token ∨ d.endpointFor k = none → (d.releaseEndpoint token).endpointFor k = none := by
    intro k hk
    rw [← Option.not_isSome_iff_eq_none, isSome_endpointFor_releaseEndpoint]
    rintro ⟨hsome, hne⟩
    rw [hk.resolve_left hne] at hsome
    cases hsome
  have hnext := releaseEndpoint_nextToken d token
  refine h.grow (h.settled.releaseEndpoint h0 hi) hh (fun e he => ?_) fun k hk => ?_
  · rcases List.mem_cons.1 he with rfl | he
    · intro _ _ _ _ hcommand
      cases hcommand
    · rcases List.mem_append.1 he with he | he
      · exact (silent_of_tears (htears e he)).1
      · cases List.mem_singleton.1 he
        intro _ _ _ _ hcommand
        cases hcommand
  · rcases hk with hk | ⟨hk, hnone⟩
    · have hk : k = token := by
        rcases List.mem_cons.1 hk with hk | hk
        · cases hk
          rfl
        · rcases List.mem_append.1 hk with hk | hk
          · exact absurd rfl ((silent_of_tears (htears _ hk)).2 k)
          · cases List.mem_singleton.1 hk
      rw [hk]
      exact ⟨hnext ▸ hi, hgone token (.inl rfl)⟩
    · exact ⟨hnext ▸ hk, hgone k (.inr hnone)⟩

end Device.Ended

theorem closed_ended : Closed Device.Ended where
  reachable h := h.settled.reachable
  step h hs hc := h.step hs hc
  exit token _ h hpos := h.exitThread token hpos
  release h h0 hi := h.releaseEndpoint h0 hi

/-- The devices of a system's runs. -/
theorem system_ended {ω : Type} {host : Host ω} {s : System ω} (h : (System.machine host).Reachable s) :
    s.device.Ended := by
  refine system_kept closed_ended (fun d hi => ?_) h
  obtain ⟨_, _, _, _, hh, _⟩ := machine_init hi
  have hsettled : d.Settled := by
    refine ⟨.init hi, ?_, ?_, ?_⟩ <;> rw [hh]
    · exact fun _ _ ht => ht
    · simp
    · trivial
  refine ⟨hsettled, ?_, ?_⟩ <;> rw [hh]
  · exact fun k hk => nomatch hk
  · trivial

/-! ## The protocol -/

/-- The callback protocol, in every run of calls on any host. The callbacks of an object come
in the order `INCREFS (ACQUIRE RELEASE)* DECREFS` and all go to one endpoint; `RELEASE` and
`DECREFS` come only after what they take back was acknowledged; an endpoint that was released
is told nothing more; and an object that was announced strongly was announced. -/
theorem callbacks_lawful {ω : Type} {host : Host ω} {s : System ω}
    (h : (System.machine host).Reachable s) :
    (∀ id, ∃ n, callbacks id s.device.history <+:
      .increfs :: (List.replicate n [.acquire, .release]).flatten ++ [.decrefs]) ∧
    Always CallbackLaw s.device.history ∧ Always CallbackBefore s.device.history ∧
    ∀ id n, s.device.objects.nodeFor id = some n → n.hasStrong = true → n.hasWeak = true := by
  have hx := (system_reachable h).exports
  refine ⟨fun id => ?_, hx.law, (system_ended h).silent, hx.weak⟩
  obtain ⟨stage, hstage⟩ := Option.isSome_iff_exists.1 (hx.stage id)
  obtain ⟨rounds, hrounds⟩ := callbacks_of_stage hstage
  rw [hrounds]
  exact stage.word_prefix rounds

/-- An object is exported and called back, acknowledged in part, and given up by its only
user. -/
def withdrawScript : Script :=
  exportScript ++ [(2, 320, Header.bytes ⟨0, 0, 0, 256, 0, 8192⟩),
    (2, 368, Header.bytes ⟨20, 0, 700, 0, 0, 0⟩),
    (2, 700, Bytes.writeLE 4 BC.acquireDone.word ++ Bytes.writeLE 8 77 ++ Bytes.writeLE 8 78),
    (1, 320, Header.bytes ⟨12, 0, 700, 0, 0, 0⟩),
    (1, 700, Bytes.writeLE 4 BC.freeBuffer.word ++ Bytes.writeLE 8 65536)]

def withdrawCalls : List Call :=
  exportCalls ++ [.writeRead 2 2 320, .writeRead 2 2 368, .writeRead 1 1 320]

/-- Two callbacks were delivered. -/
theorem callbacks_withdraw : callbacks 2 (replay withdrawScript withdrawCalls).history = [.increfs, .acquire] ∧
    ∃ n, callbacks 2 (replay withdrawScript withdrawCalls).history <+:
      .increfs :: (List.replicate n [.acquire, .release]).flatten ++ [.decrefs] := by
  obtain ⟨s, hs, heq⟩ := replay_system withdrawScript withdrawCalls
  refine ⟨by decide, ?_⟩
  rw [← heq]
  exact (callbacks_lawful hs).1 2

/-- Nobody refers to the node, or nobody holds it. -/
def Objects.Unheld (o : Objects) (id : Nat) : Prop :=
  (∀ r ∈ o.references, r.endpoint ≠ 0 → r.node = id → r.strong = 0 ∧ r.temporaryStrong = 0) ∧
    ∀ c ∈ o.claims, c.endpoint ≠ 0 → c.node = id → c.remote = true

def Objects.Unreferred (o : Objects) (id : Nat) : Prop :=
  (∀ r ∈ o.references, r.endpoint ≠ 0 → r.node ≠ id) ∧ ∀ c ∈ o.claims, c.endpoint ≠ 0 → c.node ≠ id

theorem Objects.unheld_of_strongUse {o : Objects} {n : Node} (h : o.strongUse n = false) :
    o.Unheld n.id := by
  unfold Objects.strongUse at h
  simp only [Bool.or_eq_false_iff, List.any_eq_false, Bool.and_eq_true, Bool.or_eq_true, bne_iff_ne,
    beq_iff_eq, Bool.not_eq_true'] at h
  refine ⟨fun r hr h0 hn => ?_, fun c hc h0 hn => ?_⟩
  · have := h.1.2 r hr
    constructor <;> by_contra hne <;> exact this ⟨⟨h0, hn⟩, by simp [hne]⟩
  · by_contra hlocal
    exact h.2 c hc ⟨⟨h0, hn⟩, by simpa using hlocal⟩

theorem Objects.unreferred_of_weakUse {o : Objects} {n : Node} (ht : o.Tables o.claims)
    (h : o.weakUse n = false) : o.Unreferred n.id := by
  unfold Objects.weakUse at h
  simp only [Bool.or_eq_false_iff, List.any_eq_false, Bool.and_eq_true, bne_iff_ne, beq_iff_eq] at h
  have hrefs : ∀ r ∈ o.references, r.endpoint ≠ 0 → r.node ≠ n.id := fun r hr h0 hn => h.1.2 r hr ⟨h0, hn⟩
  refine ⟨hrefs, fun c hc h0 hn => ?_⟩
  -- a claim is local or stands beside a reference
  cases hremote : c.remote with
  | true =>
    obtain ⟨r, hr, hre, hrn, _⟩ := ht.covered c hc h0 hremote
    exact hrefs r hr (hre ▸ h0) (hrn.trans hn)
  | false =>
    have := (Objects.unheld_of_strongUse h.2).2 c hc h0 hn
    rw [hremote] at this
    cases this

/-- A callback is delivered for a live object of an endpoint that is there, `RELEASE` while
nobody holds the object and `DECREFS` while nobody refers to it; then its node is free. -/
theorem callback_withdraws_unused {d d' : Device} (h : d.Reachable) (hs : Step d d') {k id : Nat} {i : Int}
    {c : BR} (hh : d'.history = .nodeCommand k i id c :: d.history) :
    (d.endpointFor k).isSome = true ∧
    (∃ n, d.objects.nodeFor id = some n ∧ n.owner = k ∧ n.dead = false ∧ n.manager = false) ∧
    (c = .release → d.objects.Unheld id) ∧
    (c = .decrefs → d.objects.Unreferred id ∧ d'.objects.nodeFor id = none) := by
  rcases hs.callback with ⟨e, th, n, c', he, hn, rfl⟩ | ⟨token, _, rfl⟩ | ⟨l, hl, hsilent⟩
  · cases hh
    obtain ⟨hmem, h0, how, hdead, hman, hc⟩ := Device.nodeEventFor_spec hn
    have hinv := h.accounts.objects
    have hnode := hinv.nodes.nodeFor hmem h0
    refine ⟨by rw [he]; rfl, ⟨n, hnode, how, hdead, hman⟩, fun hrel => ?_, fun hdec => ?_⟩
    · subst hrel
      rcases Objects.nodeCommand_cases hc with ⟨heq, _⟩ | ⟨heq, _⟩ | ⟨_, _, hu⟩ | ⟨heq, _⟩
      · cases heq
      · cases heq
      · exact Objects.unheld_of_strongUse hu
      · cases heq
    · subst hdec
      rcases Objects.nodeCommand_cases hc with ⟨heq, _⟩ | ⟨heq, _⟩ | ⟨heq, _⟩ | ⟨_, _, hS, hw, hu⟩
      · cases heq
      · cases heq
      · cases heq
      · refine ⟨Objects.unreferred_of_weakUse hinv.tables hw, ?_⟩
        show ((d.objects.setNode (n.commanded .decrefs)).collectNodes).nodeFor n.id = none
        rw [(hinv.commanded hnode .decrefs).2, if_pos rfl, Option.filter_some, if_neg]
        rw [Objects.not_inUse_decrefs hS hw hu]
        exact Bool.false_ne_true
  · obtain ⟨_, _, hret, _⟩ : _ ∧ _ ∧ (d.retire token).history = _ ∧ _ := Device.retire_frame
    rw [hh] at hret
    cases hret
  · rw [hh] at hl
    have hl : [.nodeCommand k i id c] = l := List.append_cancel_right hl
    exact absurd rfl ((hsilent _ (hl ▸ List.mem_singleton_self _)).1 k i id c)

/-- What the exporter's thread is told next, of a node that nobody holds any more. -/
def withdrawNext (d : Device) : Option (Endpoint × Thread × Node) :=
  (d.endpointFor 2).bind fun e => (e.threadFor 2).bind fun th =>
    match d.nextRecord e.token th with
    | some (.node n .release) => some (e, th, n)
    | _ => none

theorem withdrawNext_spec {d : Device} {e : Endpoint} {th : Thread} {n : Node}
    (h : withdrawNext d = some (e, th, n)) :
    Found d e th ∧ d.nextRecord e.token th = some (.node n .release) := by
  obtain ⟨e', he, hbind⟩ := Option.bind_eq_some_iff.1 h
  obtain ⟨th', hth, hmatch⟩ := Option.bind_eq_some_iff.1 hbind
  split at hmatch
  next n' hrecord =>
    cases hmatch
    exact ⟨.of_threadFor he (by rw [Device.threadFor_of he, hth]), hrecord⟩
  next => cases hmatch

theorem withdrawNext_isSome : (withdrawNext (replay withdrawScript withdrawCalls)).isSome = true := by
  decide

/-- The exporter's thread is told to release the object, which nobody holds. -/
theorem callback_withdraws_release : ∃ d e th n, d.Reachable ∧ Found d e th ∧
    d.nextRecord e.token th = some (.node n .release) ∧ d.objects.Unheld n.id := by
  have hsome := withdrawNext_isSome
  have hd := replay_reachable withdrawScript withdrawCalls
  generalize replay withdrawScript withdrawCalls = d at hsome hd
  obtain ⟨⟨e, th, n⟩, hnext⟩ := Option.isSome_iff_exists.1 hsome
  obtain ⟨hf, hrecord⟩ := withdrawNext_spec hnext
  have hs : Step d (d.deliver e th (.node n .release)).2 := .deliver hf.endpoint hf.thread hrecord
  have hh : (d.deliver e th (.node n .release)).2.history =
      .nodeCommand e.token th.tid n.id .release :: d.history := rfl
  exact ⟨d, e, th, n, hd, hf, hrecord, (callback_withdraws_unused hd hs hh).2.2.1 rfl⟩

end Artbox.Binder
