import Artbox.Signals.Actions

/-!
# The signal-action table is linearizable

A call takes effect where it loads or exchanges the pointer; a set of an action that is there
already does where it loads the pointer that it then compares. What a pointer points to is not
written any more once it was published (`Published`), so what is compared and copied word by
word later is what was there at that point.
-/

namespace Artbox.Signals.Actions

open Linearization

namespace Action

/-- Actions with the same words are the same. -/
theorem word_ext {a b : Action} (h : ∀ k < words, a.word k = b.word k) : a = b := by
  obtain ⟨_, _, _, _⟩ := a
  obtain ⟨_, _, _, _⟩ := b
  have h0 := h 0 (by decide)
  have h1 := h 1 (by decide)
  have h2 := h 2 (by decide)
  have h3 := h 3 (by decide)
  simp only [word] at h0 h1 h2 h3
  rw [h0, h1, h2, h3]

/-- The word that was written is read back. -/
theorem word_setWord_self (a : Action) (k : Nat) (w : BitVec 64) : (a.setWord k w).word k = w := by
  match k with
  | 0 | 1 | 2 | _ + 3 => rfl

/-- Writing a word leaves those before it. -/
theorem word_setWord_of_lt (a : Action) {j k : Nat} (hj : j < k) (hk : k < words) (w : BitVec 64) :
    (a.setWord k w).word j = a.word j := by
  have hk : k < 4 := hk
  match k, j with
  | 1, 0 | 2, 0 | 2, 1 | 3, 0 | 3, 1 | 3, 2 => rfl

end Action

/-! ## The object -/

/-- What a call changes in a table of actions. -/
def Op.change (op : Op) (actions : Nat → Action) : Nat → Action :=
  match op with
  | .snapshot _ | .query _ _ => actions
  | .reset number _ => Function.update actions number .empty
  | .set number input _ => Function.update actions number input.requested

/-- One action for each signal number; a call returns the action that was there. -/
def object : Object Op (Option Action) (Nat → Action) where
  init _ := .empty
  apply actions op := (if op.out then some (actions op.number) else none, op.change actions)

/-! ## The invariant -/

namespace Table

/-- A record that no call writes. -/
def Published (s : Table) (pointer : Option Nat) : Prop :=
  ∀ record, pointer = some record → record < s.used ∧
    ∀ id call k, s.calls id = some call → call.phase ≠ .writing record k

end Table

/-- The call has locked the mutex. -/
def Phase.holds : Phase → Prop
  | .reading | .comparing _ _ | .taking | .writing _ _ | .full => True
  | _ => False

/-- The call has taken effect. -/
def Committed (order : List (Entry Op (Option Action))) (id : Nat) (op : Op) (value : Option Action) : Prop :=
  ⟨id, op, value⟩ ∈ order

/-- What a call returns if that was the action. -/
def Op.shown (op : Op) (action : Action) : Option Action := if op.out then some action else none

/-- What is known of a call at each place. -/
def Fits (s : Table) (order : List (Entry Op (Option Action))) (id : Nat) (op : Op) : Phase → Prop
  | .loading => id ∉ ids order ∧ ∀ t, op.change t = t
  | .resetting => id ∉ ids order ∧ ∀ t, op.change t = Function.update t op.number .empty
  | .locking | .reading | .taking =>
    id ∉ ids order ∧ ∀ t, op.change t = Function.update t op.number op.requested
  | .comparing old k =>
    (∀ t, op.change t = Function.update t op.number op.requested) ∧ s.Published old ∧
      (∀ j < k, j < Action.words → (s.load old).word j = op.requested.word j) ∧
        (s.load old = op.requested → Committed order id op (op.shown (s.load old))) ∧
          (s.load old ≠ op.requested → id ∉ ids order)
  | .writing record k =>
    id ∉ ids order ∧ (∀ t, op.change t = Function.update t op.number op.requested) ∧ record < s.used ∧
      ∀ j < k, j < Action.words → (s.load (some record)).word j = op.requested.word j
  | .copying pointer k output =>
    op.out = true ∧ s.Published pointer ∧ (∀ j < k, j < Action.words → output.word j = (s.load pointer).word j) ∧
      Committed order id op (some (s.load pointer))
  | .unlocking => Committed order id op none
  | .full | .refusing => id ∉ ids order
  | .returning value => Committed order id op value

/-- The calls that have taken effect are in `order`. -/
structure Ordered (s : Table) (order : List (Entry Op (Option Action))) : Prop where
  linearizes : Linearizes object s.history order
  contents : s.action = object.state order
  length : s.records.length = s.capacity
  used : s.used ≤ s.capacity
  current : ∀ number, s.Published (s.current number)
  fresh : ∀ id, s.nextId ≤ id → s.calls id = none ∧ id ∉ ids order ∧ ∀ answer, .returned id answer ∉ s.history
  pending : ∀ id call, s.calls id = some call →
    .invoked id call.op ∈ s.history ∧ ∀ answer, .returned id answer ∉ s.history
  mutex : ∀ id call, s.calls id = some call → call.phase.holds → s.writer = some id
  fits : ∀ id call, s.calls id = some call → Fits s order id call.op call.phase

/-! ## What a step keeps -/

/-- What a step of call `id` leaves to the other calls. -/
structure Leaves (s s' : Table) (id : Nat) : Prop where
  calls : ∀ other, other ≠ id → s'.calls other = s.calls other
  writer : s'.writer = s.writer ∨ s.writer = none ∨ s.writer = some id
  published : ∀ pointer, s.Published pointer → s'.Published pointer ∧ s'.load pointer = s.load pointer
  records : (s'.used = s.used ∧ s'.records = s.records) ∨ s.writer = some id

/-- The order with what the step has made effective. -/
structure Extends (order order' : List (Entry Op (Option Action))) (id : Nat) : Prop where
  mem : ∀ e ∈ order, e ∈ order'
  ids : ∀ other, other ≠ id → other ∈ ids order' → other ∈ ids order

theorem Extends.refl (order : List (Entry Op (Option Action))) (id : Nat) : Extends order order id :=
  ⟨fun _ h => h, fun _ _ h => h⟩

/-- One more call takes effect. -/
theorem Extends.concat (order : List (Entry Op (Option Action))) (e : Entry Op (Option Action)) :
    Extends order (order ++ [e]) e.id := by
  refine ⟨fun _ h => List.mem_append_left _ h, fun other hne hother => ?_⟩
  unfold Linearization.ids at hother ⊢
  rw [List.map_append] at hother
  exact (List.mem_append.1 hother).resolve_right fun h => hne (List.mem_singleton.1 h)

/-- What is known of a call stays so when another call makes a step. -/
theorem Fits.other {s s' : Table} {order order' : List (Entry Op (Option Action))} {id other : Nat} {op : Op}
    {phase : Phase} (h : Fits s order other op phase) (hne : other ≠ id) (hleaves : Leaves s s' id)
    (hextends : Extends order order' id) (hmutex : phase.holds → s.writer = some other) :
    Fits s' order' other op phase := by
  have hnot : other ∉ ids order → other ∉ ids order' := fun h h' => h (hextends.ids other hne h')
  cases phase with
  | loading => exact ⟨hnot h.1, h.2⟩
  | resetting => exact ⟨hnot h.1, h.2⟩
  | locking => exact ⟨hnot h.1, h.2⟩
  | reading => exact ⟨hnot h.1, h.2⟩
  | taking => exact ⟨hnot h.1, h.2⟩
  | comparing old k =>
    obtain ⟨hset, hold, hwords, hsame, hother⟩ := h
    obtain ⟨hpublished, hload⟩ := hleaves.published old hold
    show _ ∧ _ ∧ _ ∧ _ ∧ _
    rw [hload]
    exact ⟨hset, hpublished, hwords, fun heq => hextends.mem _ (hsame heq), fun hdiff => hnot (hother hdiff)⟩
  | writing record k =>
    obtain ⟨hid, hset, hused, hwords⟩ := h
    have hwriter : ¬ s.writer = some id := by
      rw [hmutex trivial]
      exact fun heq => hne (Option.some.inj heq)
    obtain ⟨hu, hr⟩ := hleaves.records.resolve_right hwriter
    have hload : s'.load (some record) = s.load (some record) := by
      show (s'.records[record]?).getD _ = (s.records[record]?).getD _
      rw [hr]
    show _ ∧ _ ∧ record < s'.used ∧ ∀ j < k, j < Action.words → (s'.load (some record)).word j = _
    rw [hu, hload]
    exact ⟨hnot hid, hset, hused, hwords⟩
  | copying pointer k output =>
    obtain ⟨hout, hpointer, hwords, hcommitted⟩ := h
    obtain ⟨hpublished, hload⟩ := hleaves.published pointer hpointer
    show _ ∧ _ ∧ _ ∧ _
    rw [hload]
    exact ⟨hout, hpublished, hwords, hextends.mem _ hcommitted⟩
  | unlocking => exact hextends.mem _ h
  | full => exact hnot h
  | refusing => exact hnot h
  | returning value => exact hextends.mem _ h

section Steps

variable {s s' : Table} {order order' : List (Entry Op (Option Action))} {id : Nat} {call : Call} {phase : Phase}

/-- The rule for a step of a call that goes on. -/
theorem Ordered.move (h : Ordered s order) (hcall : s.calls id = some call)
    (hid : s'.calls id = some { call with phase }) (hhistory : s'.history = s.history)
    (hnext : s'.nextId = s.nextId) (hlength : s'.records.length = s'.capacity) (hused : s'.used ≤ s'.capacity)
    (hleaves : Leaves s s' id) (hextends : Extends order order' id)
    (hlinearizes : Linearizes object s.history order') (hcontents : s'.action = object.state order')
    (hcurrent : ∀ number, s'.Published (s'.current number)) (hmutex : phase.holds → s'.writer = some id)
    (hfits : Fits s' order' id call.op phase) : Ordered s' order' := by
  refine ⟨hhistory ▸ hlinearizes, hcontents, hlength, hused, hcurrent, fun other hother => ?_,
    fun other c hc => ?_, fun other c hc hholds => ?_, fun other c hc => ?_⟩
  · rw [hnext] at hother
    obtain ⟨hnone, hnot, hanswer⟩ := h.fresh other hother
    have hne : other ≠ id := by
      rintro rfl
      rw [hnone] at hcall
      cases hcall
    rw [hhistory, hleaves.calls other hne]
    exact ⟨hnone, fun hin => hnot (hextends.ids other hne hin), hanswer⟩
  · rw [hhistory]
    by_cases hne : other = id
    · subst hne
      obtain rfl := Option.some.inj (hid.symm.trans hc)
      exact h.pending other call hcall
    · rw [hleaves.calls other hne] at hc
      exact h.pending other c hc
  · by_cases hne : other = id
    · subst hne
      obtain rfl := Option.some.inj (hid.symm.trans hc)
      exact hmutex hholds
    · rw [hleaves.calls other hne] at hc
      have hwriter := h.mutex other c hc hholds
      rcases hleaves.writer with hsame | hnone | hself
      · rw [hsame, hwriter]
      · rw [hwriter] at hnone
        cases hnone
      · rw [hwriter] at hself
        exact absurd (Option.some.inj hself) hne
  · by_cases hne : other = id
    · subst hne
      obtain rfl := Option.some.inj (hid.symm.trans hc)
      exact hfits
    · rw [hleaves.calls other hne] at hc
      exact (h.fits other c hc).other hne hleaves hextends (h.mutex other c hc)

/-- The rule for a step of a call that ends. -/
theorem Ordered.leave (h : Ordered s order) (hcall : s.calls id = some call) {answer : Except Int (Option Action)}
    (hlinearizes : Linearizes object (.returned id answer :: s.history) order) :
    Ordered (s.answer id answer) order := by
  have hother : ∀ other, other ≠ id → (s.answer id answer).calls other = s.calls other :=
    fun other hne => s.calls_answer_of_ne hne answer
  have hcalls : ∀ other c, (s.answer id answer).calls other = some c → other ≠ id ∧ s.calls other = some c := by
    intro other c hc
    by_cases hne : other = id
    · subst hne
      rw [Table.calls_answer] at hc
      cases hc
    · exact ⟨hne, (hother other hne).symm.trans hc⟩
  have hpublished : ∀ pointer, s.Published pointer → (s.answer id answer).Published pointer :=
    fun pointer hp record hr => ⟨(hp record hr).1, fun other c k hc => (hp record hr).2 other c k (hcalls other c hc).2⟩
  have hleaves : Leaves s (s.answer id answer) id :=
    ⟨hother, .inl rfl, fun pointer hp => ⟨hpublished pointer hp, rfl⟩, .inl ⟨rfl, rfl⟩⟩
  refine ⟨hlinearizes, h.contents, h.length, h.used, fun number => hpublished _ (h.current number),
    fun other hother => ?_, fun other c hc => ?_, fun other c hc hholds => ?_, fun other c hc => ?_⟩
  · obtain ⟨hnone, hnot, hanswer⟩ := h.fresh other hother
    have hne : other ≠ id := by
      rintro rfl
      rw [hnone] at hcall
      cases hcall
    rw [hleaves.calls other hne]
    refine ⟨hnone, hnot, fun a ha => ?_⟩
    rcases List.mem_cons.1 ha with heq | ha
    · cases heq
      exact hne rfl
    · exact hanswer a ha
  · obtain ⟨hne, hc⟩ := hcalls other c hc
    obtain ⟨hinvoked, hanswer⟩ := h.pending other c hc
    refine ⟨List.mem_cons_of_mem _ hinvoked, fun a ha => ?_⟩
    rcases List.mem_cons.1 ha with heq | ha
    · cases heq
      exact hne rfl
    · exact hanswer a ha
  · exact h.mutex other c (hcalls other c hc).2 hholds
  · obtain ⟨hne, hc⟩ := hcalls other c hc
    exact (h.fits other c hc).other hne hleaves (Extends.refl order id) (h.mutex other c hc)

/-- A call takes effect. -/
theorem Ordered.commit (h : Ordered s order) (hcall : s.calls id = some call) (hid : id ∉ ids order) :
    Linearizes object s.history (order ++ [⟨id, call.op, call.op.shown (s.action call.op.number)⟩]) := by
  obtain ⟨hinvoked, hanswer⟩ := h.pending id call hcall
  refine h.linearizes.commit ?_ hid hinvoked hanswer
  show call.op.shown (s.action call.op.number) = _
  rw [h.contents]
  rfl

/-- Behind one more call the table is as the call changes it. -/
theorem state_commit (h : Ordered s order) (e : Entry Op (Option Action)) :
    object.state (order ++ [e]) = e.op.change s.action := by
  rw [Object.state_concat, h.contents]
  rfl

/-- What is left by a step that changes nothing but where the call is. -/
theorem leaves_setPhase (hcall : s.calls id = some call)
    (hwriting : ∀ record k, phase = .writing record k → ∃ k', call.phase = .writing record k') :
    Leaves s (s.setPhase id call phase) id := by
  refine ⟨fun other hne => s.calls_setPhase_of_ne hne call phase, .inl rfl,
    fun pointer hp => ⟨fun record hr => ?_, rfl⟩, .inl ⟨rfl, rfl⟩⟩
  refine ⟨(hp record hr).1, fun other c k hc heq => ?_⟩
  by_cases hne : other = id
  · subst hne
    obtain rfl := Option.some.inj ((s.calls_setPhase other call phase).symm.trans hc)
    obtain ⟨k', hk'⟩ := hwriting record k heq
    exact (hp record hr).2 other call k' hcall hk'
  · exact (hp record hr).2 other c k ((s.calls_setPhase_of_ne hne call phase).symm.trans hc) heq

/-- The rule for a step that changes nothing but where the call is. -/
theorem Ordered.setPhase (h : Ordered s order) (hcall : s.calls id = some call) (hextends : Extends order order' id)
    (hlinearizes : Linearizes object s.history order') (hstate : object.state order' = s.action)
    (hwriting : ∀ record k, phase = .writing record k → ∃ k', call.phase = .writing record k')
    (hmutex : phase.holds → s.writer = some id)
    (hfits : Leaves s (s.setPhase id call phase) id → Fits (s.setPhase id call phase) order' id call.op phase) :
    Ordered (s.setPhase id call phase) order' := by
  have hleaves := leaves_setPhase hcall hwriting
  refine h.move hcall (Table.calls_setPhase ..) rfl rfl h.length h.used hleaves hextends hlinearizes hstate.symm
    (fun number => (hleaves.published _ (h.current number)).1) hmutex (hfits hleaves)

/-- What a call does with the pointer it got. -/
theorem fits_output {pointer : Option Nat} (hpublished : s.Published pointer)
    (hcommitted : Committed order id call.op (call.op.shown (s.load pointer))) :
    Fits s order id call.op (Table.Call.output call pointer) := by
  unfold Table.Call.output
  unfold Op.shown at hcommitted
  split
  next hout =>
    rw [if_pos hout] at hcommitted
    exact ⟨hout, hpublished, nofun, hcommitted⟩
  next hout =>
    rw [if_neg hout] at hcommitted
    exact hcommitted

/-- A call that copies out writes no record. -/
theorem output_writing {pointer : Option Nat} {record k : Nat} (call : Call) :
    Table.Call.output call pointer ≠ .writing record k := by
  unfold Table.Call.output
  split <;> exact nofun

/-- A call that copies out holds no lock. -/
theorem output_holds {pointer : Option Nat} (call : Call) : ¬ (Table.Call.output call pointer).holds := by
  unfold Table.Call.output
  split <;> exact id

/-! ## Each step -/

/-- A call that gets the pointer takes effect if that is all it does. -/
theorem Ordered.load (h : Ordered s order) (hcall : s.calls id = some call) (hid : id ∉ ids order)
    (hchange : call.op.change s.action = s.action) :
    Ordered (s.setPhase id call (Table.Call.output call (s.current call.op.number)))
      (order ++ [⟨id, call.op, call.op.shown (s.action call.op.number)⟩]) := by
  refine h.setPhase hcall (Extends.concat order ⟨id, call.op, _⟩) (h.commit hcall hid) ?_
    (fun record k heq => absurd heq (output_writing call)) (fun hholds => absurd hholds (output_holds call))
    fun hleaves => ?_
  · rw [state_commit h]
    exact hchange
  · refine fits_output (hleaves.published _ (h.current _)).1 ?_
    exact List.mem_append_right _ (List.mem_singleton.2 rfl)

/-- A call takes effect with the exchange of the pointer. -/
theorem Ordered.exchange (h : Ordered s order) (hcall : s.calls id = some call) (hid : id ∉ ids order)
    {pointer : Option Nat} (hpointer : ∀ record, pointer = some record → record < s.used ∧
      ∀ other c k, s.calls other = some c → other ≠ id → c.phase ≠ .writing record k)
    (hchange : ∀ t, call.op.change t = Function.update t call.op.number (s.load pointer)) :
    Ordered ({ s with current := Function.update s.current call.op.number pointer }.setPhase id call
        (Table.Call.output call (s.current call.op.number)))
      (order ++ [⟨id, call.op, call.op.shown (s.action call.op.number)⟩]) := by
  have hphase : Leaves s (s.setPhase id call (Table.Call.output call (s.current call.op.number))) id :=
    leaves_setPhase hcall fun record k heq => absurd heq (output_writing call)
  have hleaves : Leaves s ({ s with current := Function.update s.current call.op.number pointer }.setPhase id call
      (Table.Call.output call (s.current call.op.number))) id :=
    ⟨hphase.calls, hphase.writer, hphase.published, hphase.records⟩
  have hold : s.Published (s.current call.op.number) := h.current _
  refine h.move hcall (Table.calls_setPhase ..) rfl rfl h.length h.used hleaves
    (Extends.concat order ⟨id, call.op, _⟩) (h.commit hcall hid) ?_ (fun number => ?_)
    (fun hholds => absurd hholds (output_holds call)) ?_
  · rw [state_commit h]
    show _ = call.op.change s.action
    rw [hchange]
    funext number
    show s.load (Function.update s.current call.op.number pointer number) = _
    by_cases heq : number = call.op.number
    · rw [heq, Function.update_self, Function.update_self]
    · rw [Function.update_of_ne heq, Function.update_of_ne heq]
      rfl
  · show Table.Published _ (Function.update s.current call.op.number pointer number)
    by_cases heq : number = call.op.number
    · rw [heq, Function.update_self]
      intro record hrecord
      obtain ⟨hlt, hnone⟩ := hpointer record hrecord
      refine ⟨hlt, fun other c k hc hwriting => ?_⟩
      by_cases hne : other = id
      · subst hne
        obtain rfl := Option.some.inj ((s.calls_setPhase other call _).symm.trans hc)
        exact output_writing call hwriting
      · exact hnone other c k ((hphase.calls other hne).symm.trans hc) hne hwriting
    · rw [Function.update_of_ne heq]
      exact (hleaves.published _ (h.current number)).1
  · refine fits_output (hleaves.published _ hold).1 ?_
    exact List.mem_append_right _ (List.mem_singleton.2 rfl)

/-- A set that finds its action already there takes effect when it reads. -/
theorem Ordered.reading (h : Ordered s order) (hcall : s.calls id = some call) (hid : id ∉ ids order)
    (hset : ∀ t, call.op.change t = Function.update t call.op.number call.op.requested)
    (hwriter : s.writer = some id) :
    ∃ order', Ordered (s.setPhase id call (.comparing (s.current call.op.number) 0)) order' := by
  by_cases hsame : s.load (s.current call.op.number) = call.op.requested
  · -- the action is there already, so the set takes effect now
    refine ⟨order ++ [⟨id, call.op, call.op.shown (s.action call.op.number)⟩],
      h.setPhase hcall (Extends.concat order ⟨id, call.op, _⟩) (h.commit hcall hid) ?_ nofun (fun _ => hwriter)
        fun hleaves => ⟨hset, (hleaves.published _ (h.current _)).1, nofun, fun _ => ?_, fun hne => absurd hsame hne⟩⟩
    · rw [state_commit h]
      show call.op.change s.action = s.action
      rw [hset, ← hsame]
      exact Function.update_eq_self ..
    · exact List.mem_append_right _ (List.mem_singleton.2 rfl)
  · exact ⟨order, h.setPhase hcall (Extends.refl order id) h.linearizes h.contents.symm nofun (fun _ => hwriter)
      fun hleaves => ⟨hset, (hleaves.published _ (h.current _)).1, nofun, fun heq => absurd heq hsame, fun _ => hid⟩⟩

/-- Comparing the next word of a record keeps the order. -/
theorem Ordered.comparing (h : Ordered s order) (hcall : s.calls id = some call) {old : Option Nat} {k : Nat}
    (hfits : Fits s order id call.op (.comparing old k)) (hwriter : s.writer = some id) :
    Ordered (s.setPhase id call (if k < Action.words then
      (if (s.load old).word k = call.op.requested.word k then .comparing old (k + 1) else .taking)
        else Table.Call.output call old)) order := by
  obtain ⟨hset, hold, hwords, hsame, hother⟩ := hfits
  have hrule : ∀ phase, (∀ record k, phase ≠ .writing record k) →
      (Leaves s (s.setPhase id call phase) id → Fits (s.setPhase id call phase) order id call.op phase) →
        Ordered (s.setPhase id call phase) order := fun phase hwriting hnew =>
    h.setPhase hcall (Extends.refl order id) h.linearizes h.contents.symm
      (fun record k heq => absurd heq (hwriting record k)) (fun _ => hwriter) hnew
  split
  next hk =>
    split
    next heq =>
      refine hrule _ nofun fun hleaves => ⟨hset, (hleaves.published _ hold).1, fun j hj hlt => ?_, hsame, hother⟩
      rcases Nat.lt_succ_iff_lt_or_eq.1 hj with hj | rfl
      · exact hwords j hj hlt
      · exact heq
    next hne =>
      refine hrule _ nofun fun _ => ⟨hother fun heq => hne ?_, hset⟩
      rw [heq]
  next hk =>
    have heq : s.load old = call.op.requested :=
      Action.word_ext fun j hj => hwords j (Nat.lt_of_lt_of_le hj (Nat.not_lt.1 hk)) hj
    exact hrule _ (fun record k => output_writing call) fun hleaves =>
      fits_output (hleaves.published _ hold).1 (hsame heq)

/-- No other call writes while the mutex is locked. -/
theorem Ordered.no_writer (h : Ordered s order) (hwriter : s.writer = some id) {other : Nat} {c : Call}
    {record k : Nat} (hc : s.calls other = some c) (hne : other ≠ id) : c.phase ≠ .writing record k := by
  intro hwriting
  have hholds := h.mutex other c hc (by rw [hwriting]; trivial)
  rw [hwriter] at hholds
  exact hne (Option.some.inj hholds).symm

/-- A set that takes a fresh record keeps the order. -/
theorem Ordered.taking (h : Ordered s order) (hcall : s.calls id = some call)
    (hid : id ∉ ids order) (hset : ∀ t, call.op.change t = Function.update t call.op.number call.op.requested)
    (hwriter : s.writer = some id) (hroom : s.used ≠ s.capacity) :
    Ordered ({ s with used := s.used + 1 }.setPhase id call (.writing s.used 0)) order := by
  have hpublished : ∀ pointer, s.Published pointer →
      ({ s with used := s.used + 1 }.setPhase id call (.writing s.used 0)).Published pointer := by
    intro pointer hp record hr
    obtain ⟨hlt, hnone⟩ := hp record hr
    refine ⟨Nat.lt_succ_of_lt hlt, fun other c k hc hwriting => ?_⟩
    by_cases hne : other = id
    · subst hne
      obtain rfl := Option.some.inj ((Table.calls_setPhase ..).symm.trans hc)
      cases hwriting
      exact absurd hlt (Nat.lt_irrefl _)
    · exact hnone other c k ((Table.calls_setPhase_of_ne _ hne ..).symm.trans hc) hwriting
  have hlt : s.used < s.capacity := Nat.lt_of_le_of_ne h.used hroom
  refine h.move hcall (Table.calls_setPhase ..) rfl rfl h.length hlt
    ⟨fun other hne => Table.calls_setPhase_of_ne _ hne .., .inl rfl, fun pointer hp => ⟨hpublished pointer hp, rfl⟩,
      .inr hwriter⟩
    (Extends.refl order id) h.linearizes h.contents (fun number => hpublished _ (h.current number)) (fun _ => hwriter)
    ⟨hid, hset, Nat.lt_succ_self _, nofun⟩

/-- Writing the next word of a record that is not published keeps the order. -/
theorem Ordered.writing (h : Ordered s order) (hcall : s.calls id = some call) {record k : Nat}
    (hphase : call.phase = .writing record k) (hfits : Fits s order id call.op (.writing record k))
    (hwriter : s.writer = some id) (hk : k < Action.words) :
    Ordered ({ s with records := s.records.modify record fun a => a.setWord k (call.op.requested.word k) }.setPhase id
      call (.writing record (k + 1))) order := by
  obtain ⟨hid, hset, hused, hwords⟩ := hfits
  have hsame : Leaves s (s.setPhase id call (.writing record (k + 1))) id := by
    refine leaves_setPhase hcall fun r j heq => ?_
    cases heq
    exact ⟨k, hphase⟩
  have hload : ∀ pointer, s.Published pointer → ({ s with
      records := s.records.modify record fun a => a.setWord k (call.op.requested.word k) }.setPhase id
        call (.writing record (k + 1))).load pointer = s.load pointer := by
    intro pointer hp
    cases pointer with
    | none => rfl
    | some other =>
      have hne : record ≠ other := fun heq => (hp other rfl).2 id call k hcall (heq ▸ hphase)
      show ((s.records.modify record _)[other]?).getD _ = _
      rw [List.getElem?_modify_ne _ _ hne]
      rfl
  have hleaves : Leaves s ({ s with
      records := s.records.modify record fun a => a.setWord k (call.op.requested.word k) }.setPhase id
        call (.writing record (k + 1))) id :=
    ⟨hsame.calls, hsame.writer, fun pointer hp => ⟨(hsame.published pointer hp).1, hload pointer hp⟩, .inr hwriter⟩
  refine h.move hcall (Table.calls_setPhase ..) rfl rfl ?_ h.used hleaves (Extends.refl order id) h.linearizes ?_
    (fun number => (hleaves.published _ (h.current number)).1) (fun _ => hwriter) ⟨hid, hset, hused, fun j hj hlt => ?_⟩
  · show (s.records.modify record _).length = _
    rw [List.length_modify]
    exact h.length
  · rw [← h.contents]
    funext number
    exact hload _ (h.current number)
  · have hget : s.records[record]? = some (s.load (some record)) := by
      have hlen : record < s.records.length := by
        rw [h.length]
        exact Nat.lt_of_lt_of_le hused h.used
      show _ = some ((s.records[record]?).getD _)
      rw [List.getElem?_eq_getElem hlen]
      rfl
    show (((s.records.modify record _)[record]?).getD _).word j = _
    rw [List.getElem?_modify_eq, hget]
    show ((s.load (some record)).setWord k (call.op.requested.word k)).word j = _
    rcases Nat.lt_succ_iff_lt_or_eq.1 hj with hj | rfl
    · rw [Action.word_setWord_of_lt _ hj hk]
      exact hwords j hj hlt
    · exact Action.word_setWord_self ..

/-- A call leaves the mutex, if it has it, and goes on to its answer. -/
theorem Ordered.unlock (h : Ordered s order) (hcall : s.calls id = some call)
    (hwriting : ∀ record k, phase ≠ .writing record k) (hholds : ¬ phase.holds)
    (hfits : Fits ((s.unlock id).setPhase id call phase) order id call.op phase) :
    Ordered ((s.unlock id).setPhase id call phase) order := by
  have hsame : Leaves s (s.setPhase id call phase) id :=
    leaves_setPhase hcall fun record k heq => absurd heq (hwriting record k)
  have hwriter : ((s.unlock id).setPhase id call phase).writer = s.writer ∨ s.writer = none ∨ s.writer = some id := by
    show (if s.writer = some id then none else s.writer) = _ ∨ _
    split
    next heq => exact .inr (.inr heq)
    next => exact .inl rfl
  have hleaves : Leaves s ((s.unlock id).setPhase id call phase) id :=
    ⟨hsame.calls, hwriter, hsame.published, hsame.records⟩
  exact h.move hcall (Table.calls_setPhase ..) rfl rfl h.length h.used hleaves (Extends.refl order id) h.linearizes
    h.contents (fun number => (hleaves.published _ (h.current number)).1) (fun hh => absurd hh hholds) hfits

/-- A step of any call. -/
theorem Ordered.advance (h : Ordered s order) (hcall : s.calls id = some call) :
    ∃ order', Ordered (s.advance id call) order' := by
  have hfits := h.fits id call hcall
  have hmutex := h.mutex id call hcall
  unfold Table.advance
  cases hphase : call.phase with
  | loading =>
    rw [hphase] at hfits
    exact ⟨_, h.load hcall hfits.1 (hfits.2 _)⟩
  | resetting =>
    rw [hphase] at hfits
    exact ⟨_, h.exchange hcall hfits.1 nofun hfits.2⟩
  | locking =>
    rw [hphase] at hfits
    dsimp only
    split
    next hfree =>
      have hsame : Leaves s (s.setPhase id call .reading) id := leaves_setPhase hcall nofun
      have hleaves : Leaves s ({ s with writer := some id }.setPhase id call .reading) id :=
        ⟨hsame.calls, .inr (.inl hfree), hsame.published, hsame.records⟩
      exact ⟨order, h.move hcall (Table.calls_setPhase ..) rfl rfl h.length h.used hleaves (Extends.refl order id)
        h.linearizes h.contents (fun number => (hleaves.published _ (h.current number)).1) (fun _ => rfl) hfits⟩
    · exact ⟨order, h⟩
  | reading =>
    rw [hphase] at hfits hmutex
    exact h.reading hcall hfits.1 hfits.2 (hmutex trivial)
  | comparing old k =>
    rw [hphase] at hfits hmutex
    have hcomparing := h.comparing hcall hfits (hmutex trivial)
    dsimp only
    split
    next hk =>
      rw [if_pos hk] at hcomparing
      exact ⟨order, hcomparing⟩
    next hk =>
      rw [if_neg hk] at hcomparing
      exact ⟨order, hcomparing⟩
  | taking =>
    rw [hphase] at hfits hmutex
    dsimp only
    split
    · exact ⟨order, h.setPhase hcall (Extends.refl order id) h.linearizes h.contents.symm nofun
        (fun _ => hmutex trivial) fun _ => hfits.1⟩
    next hroom => exact ⟨order, h.taking hcall hfits.1 hfits.2 (hmutex trivial) hroom⟩
  | writing record k =>
    rw [hphase] at hfits hmutex
    dsimp only
    split
    next hk => exact ⟨order, h.writing hcall hphase hfits (hmutex trivial) hk⟩
    next hk =>
      -- the record is complete
      obtain ⟨hid, hset, hused, hwords⟩ := hfits
      have hload : s.load (some record) = call.op.requested :=
        Action.word_ext fun j hj => hwords j (Nat.lt_of_lt_of_le hj (Nat.not_lt.1 hk)) hj
      refine ⟨_, h.exchange hcall hid (fun r hr => ?_) fun t => ?_⟩
      · obtain rfl := Option.some.inj hr
        exact ⟨hused, fun other c j hc hne => h.no_writer (hmutex trivial) hc hne⟩
      · rw [hload]
        exact hset t
  | copying pointer k output =>
    rw [hphase] at hfits
    obtain ⟨hout, hpublished, hwords, hcommitted⟩ := hfits
    dsimp only
    split
    next hk =>
      refine ⟨order, h.setPhase hcall (Extends.refl order id) h.linearizes h.contents.symm nofun (fun hh => hh.elim)
        fun hleaves => ⟨hout, (hleaves.published _ hpublished).1, fun j hj hlt => ?_, hcommitted⟩⟩
      rcases Nat.lt_succ_iff_lt_or_eq.1 hj with hj | rfl
      · rw [Action.word_setWord_of_lt _ hj hk]
        exact hwords j hj hlt
      · exact Action.word_setWord_self ..
    next hk =>
      refine ⟨order, h.unlock hcall nofun (fun hh => hh.elim) ?_⟩
      have heq : output = s.load pointer :=
        Action.word_ext fun j hj => hwords j (Nat.lt_of_lt_of_le hj (Nat.not_lt.1 hk)) hj
      rw [heq]
      exact hcommitted
  | unlocking =>
    rw [hphase] at hfits
    exact ⟨order, h.unlock hcall nofun (fun hh => hh.elim) hfits⟩
  | full =>
    rw [hphase] at hfits
    exact ⟨order, h.unlock hcall nofun (fun hh => hh.elim) hfits⟩
  | refusing =>
    rw [hphase] at hfits
    exact ⟨order, h.leave hcall (h.linearizes.refuse hfits _)⟩
  | returning value =>
    rw [hphase] at hfits
    exact ⟨order, h.leave hcall (h.linearizes.respond hfits)⟩

/-- The rule for a call that begins. -/
theorem Ordered.begin (h : Ordered s order) {op : Op} {calls : Nat → Option Call}
    {history : List (Event Op Int (Option Action))}
    (hcalls : ∀ other, other ≠ s.nextId → calls other = s.calls other)
    (hself : ∀ c, calls s.nextId = some c → c.op = op ∧ ¬ c.phase.holds ∧ (∀ record k, c.phase ≠ .writing record k) ∧
      Fits { s with nextId := s.nextId + 1, calls, history } order s.nextId op c.phase ∧
        ∀ answer, .returned s.nextId answer ∉ history)
    (hlinearizes : Linearizes object history order) (hinvoked : .invoked s.nextId op ∈ history)
    (holder : ∀ e ∈ s.history, e ∈ history)
    (hanswers : ∀ other answer, other ≠ s.nextId → .returned other answer ∈ history →
      .returned other answer ∈ s.history) :
    Ordered { s with nextId := s.nextId + 1, calls, history } order := by
  have hnone : s.calls s.nextId = none := (h.fresh s.nextId (Nat.le_refl _)).1
  have hpublished : ∀ pointer, s.Published pointer →
      Table.Published { s with nextId := s.nextId + 1, calls, history } pointer := by
    intro pointer hp record hr
    refine ⟨(hp record hr).1, fun other c k hc => ?_⟩
    by_cases hne : other = s.nextId
    · subst hne
      exact (hself c hc).2.2.1 record k
    · exact (hp record hr).2 other c k ((hcalls other hne).symm.trans hc)
  have hleaves : Leaves s { s with nextId := s.nextId + 1, calls, history } s.nextId :=
    ⟨hcalls, .inl rfl, fun pointer hp => ⟨hpublished pointer hp, rfl⟩, .inl ⟨rfl, rfl⟩⟩
  refine ⟨hlinearizes, h.contents, h.length, h.used, fun number => hpublished _ (h.current number),
    fun other hother => ?_, fun other c hc => ?_, fun other c hc hholds => ?_, fun other c hc => ?_⟩
  · have hle : s.nextId + 1 ≤ other := hother
    obtain ⟨hfree, hnot, hanswer⟩ := h.fresh other (by omega)
    have hne : other ≠ s.nextId := by omega
    exact ⟨(hcalls other hne).trans hfree, hnot, fun a ha => hanswer a (hanswers other a hne ha)⟩
  · by_cases hne : other = s.nextId
    · subst hne
      obtain ⟨hop, _, _, _, hanswer⟩ := hself c hc
      rw [hop]
      exact ⟨hinvoked, hanswer⟩
    · obtain ⟨hin, hanswer⟩ := h.pending other c ((hcalls other hne).symm.trans hc)
      exact ⟨holder _ hin, fun a ha => hanswer a (hanswers other a hne ha)⟩
  · by_cases hne : other = s.nextId
    · subst hne
      exact absurd hholds (hself c hc).2.1
    · exact h.mutex other c ((hcalls other hne).symm.trans hc) hholds
  · by_cases hne : other = s.nextId
    · subst hne
      obtain ⟨hop, _, _, hfits, _⟩ := hself c hc
      rw [hop]
      exact hfits
    · have hc : s.calls other = some c := (hcalls other hne).symm.trans hc
      exact (h.fits other c hc).other hne hleaves (Extends.refl order _) (h.mutex other c hc)

/-- A call begins. -/
theorem Ordered.invoke (h : Ordered s order) (op : Op) : Ordered (s.invoke op) order := by
  obtain ⟨hnone, hnot, hanswer⟩ := h.fresh s.nextId (Nat.le_refl _)
  have hinvoke := h.linearizes.invoke op hnot
  unfold Table.invoke
  dsimp only
  split
  next haccepted =>
    refine h.begin (fun other hne => Function.update_of_ne hne ..) (fun c hc => ?_) hinvoke
      List.mem_cons_self (fun e he => List.mem_cons_of_mem _ he) fun other answer _ hin => ?_
    · rw [Function.update_self] at hc
      obtain rfl := Option.some.inj hc
      have hreturned : ∀ answer, .returned s.nextId answer ∉ Event.invoked s.nextId op :: s.history := by
        intro answer hin
        rcases List.mem_cons.1 hin with heq | hin
        · cases heq
        · exact hanswer answer hin
      cases op with
      | snapshot number => exact ⟨rfl, id, nofun, ⟨hnot, fun _ => rfl⟩, hreturned⟩
      | query number out => exact ⟨rfl, id, nofun, ⟨hnot, fun _ => rfl⟩, hreturned⟩
      | reset number out => exact ⟨rfl, id, nofun, ⟨hnot, fun _ => rfl⟩, hreturned⟩
      | set number input out =>
        dsimp only
        split
        next hempty =>
          refine ⟨rfl, id, nofun, ⟨hnot, fun t => ?_⟩, hreturned⟩
          show Function.update t number input.requested = _
          rw [hempty]
          rfl
        next => exact ⟨rfl, id, nofun, ⟨hnot, fun _ => rfl⟩, hreturned⟩
    · rcases List.mem_cons.1 hin with heq | hin
      · cases heq
      · exact hin
  next hrejected =>
    refine h.begin (fun _ _ => rfl) (fun c hc => ?_) (hinvoke.refuse hnot _)
      (List.mem_cons_of_mem _ List.mem_cons_self)
      (fun e he => List.mem_cons_of_mem _ (List.mem_cons_of_mem _ he)) fun other answer hne hin => ?_
    · rw [hnone] at hc
      cases hc
    · rcases List.mem_cons.1 hin with heq | hin
      · cases heq
        exact absurd rfl hne
      · rcases List.mem_cons.1 hin with heq | hin
        · cases heq
        · exact hin

end Steps

/-! ## Runs -/

/-- A table starts with no call in its order. -/
theorem ordered_init (records : List Action) : Ordered { capacity := records.length, records } [] := by
  refine ⟨Linearizes.nil object, rfl, rfl, Nat.zero_le _, fun _ => nofun,
    fun id _ => ⟨rfl, ?_, fun _ => List.not_mem_nil⟩, nofun,
    nofun, nofun⟩
  exact List.not_mem_nil

/-- Every reachable table has an order of the calls that took effect. -/
theorem reachable_ordered {s : Table} (h : Table.machine.Reachable s) : ∃ order, Ordered s order := by
  refine h.inv (I := fun s => ∃ order, Ordered s order) (fun s hinit => ?_) fun s s' hs hstep => ?_
  · obtain ⟨records, rfl, _⟩ := hinit
    exact ⟨[], ordered_init records⟩
  · obtain ⟨order, horder⟩ := hs
    cases hstep with
    | invoke op => exact ⟨order, horder.invoke op⟩
    | advance hcall => exact horder.advance hcall

/-- An action that was in the table was empty or what some set had published. -/
theorem state_published (order : List (Entry Op (Option Action))) (number : Nat) :
    object.state order number = .empty ∨ ∃ e ∈ order, ∃ input out, e.op = .set number input out ∧
      object.state order number = input.requested := by
  induction order using List.reverseRecOn with
  | nil => exact .inl rfl
  | append_singleton order e ih =>
    have hkeep : object.state (order ++ [e]) number = object.state order number →
        object.state (order ++ [e]) number = .empty ∨ ∃ e' ∈ order ++ [e], ∃ input out,
          e'.op = .set number input out ∧ object.state (order ++ [e]) number = input.requested := by
      intro hsame
      rw [hsame]
      exact ih.imp_right fun ⟨e', he', rest⟩ => ⟨e', List.mem_append_left _ he', rest⟩
    have hlast : object.state (order ++ [e]) number = e.op.change (object.state order) number := by
      rw [Object.state_concat]
      rfl
    cases hop : e.op with
    | snapshot n =>
      rw [hop] at hlast
      exact hkeep hlast
    | query n out =>
      rw [hop] at hlast
      exact hkeep hlast
    | reset n out =>
      rw [hop] at hlast
      change _ = Function.update (object.state order) n Action.empty number at hlast
      by_cases hne : number = n
      · rw [hne, Function.update_self, ← hne] at hlast
        exact .inl hlast
      · rw [Function.update_of_ne hne] at hlast
        exact hkeep hlast
    | set n input out =>
      rw [hop] at hlast
      change _ = Function.update (object.state order) n input.requested number at hlast
      by_cases hne : number = n
      · rw [hne, Function.update_self, ← hne] at hlast
        exact .inr ⟨e, List.mem_append_right _ (List.mem_singleton.2 rfl), input, out, hne ▸ hop, hlast⟩
      · rw [Function.update_of_ne hne] at hlast
        exact hkeep hlast

/-- Neither SIGKILL nor SIGSTOP is in a requested mask. -/
theorem requested_mask (input : Action) : input.requested.mask &&& 0x40100 = 0 := by
  show input.mask &&& ~~~0x40100 &&& 0x40100 = 0
  rw [BitVec.and_assoc]
  have hnone : (~~~0x40100 &&& 0x40100 : BitVec 64) = 0 := by decide
  rw [hnone]
  exact BitVec.and_zero

/-- The table in every state of every run. The calls that succeeded, with some of those in
progress, are in one order: each returns the action that the last change before it left, an
operation that was answered before another began is before it, and refused calls are not in it.
What is returned was put there as a whole by a set before. -/
theorem signal_actions_linearizable {s : Table} (h : Table.machine.Reachable s) :
    ∃ order, Linearizes object s.history order ∧ s.action = object.state order ∧ s.used ≤ s.capacity ∧
      ∀ id action, .returned id (.ok (some action)) ∈ s.history → action.mask &&& 0x40100 = 0 ∧
        ∃ front e behind, order = front ++ e :: behind ∧ e.id = id ∧ action = object.state front e.op.number ∧
          (action = .empty ∨
            ∃ e' ∈ front, ∃ input out, e'.op = .set e.op.number input out ∧ action = input.requested) := by
  obtain ⟨order, horder⟩ := reachable_ordered h
  refine ⟨order, horder.linearizes, horder.contents, horder.used, fun id action hreturned => ?_⟩
  obtain ⟨e, he, hid, hvalue⟩ := horder.linearizes.complete id _ hreturned
  obtain ⟨front, behind, hsplit⟩ := List.append_of_mem he
  have hlegal := horder.linearizes.legal front e behind hsplit
  rw [hvalue] at hlegal
  have haction : action = object.state front e.op.number := by
    change some action = if e.op.out = true then some (object.state front e.op.number) else none at hlegal
    split at hlegal
    · exact Option.some.inj hlegal
    · cases hlegal
  have hpublished := state_published front e.op.number
  rw [← haction] at hpublished
  refine ⟨?_, front, e, behind, hsplit, hid, haction, hpublished⟩
  rcases hpublished with rfl | ⟨_, _, input, _, _, rfl⟩
  · rfl
  · exact requested_mask input

/-- Steps of one call. -/
def Table.proceed (s : Table) (id : Nat) : Nat → Table
  | 0 => s
  | n + 1 =>
    match s.calls id with
    | none => s
    | some call => (s.advance id call).proceed id n

/-- Letting one call proceed leads to reachable tables. -/
theorem proceed_reachable {s : Table} (h : Table.machine.Reachable s) (id n : Nat) :
    Table.machine.Reachable (s.proceed id n) := by
  induction n generalizing s with
  | zero => exact h
  | succ n ih =>
    unfold Table.proceed
    split
    · exact h
    next call hcall => exact ih (h.step (.advance hcall))

/-- A table of one record, after a set in which a reset begins and ends before the set publishes. -/
def sampleTable : Table :=
  let s : Table := { capacity := 1, records := [{ handler := 9 }] }
  let s := ((s.invoke (.set 10 { handler := 5, mask := 0x40101 } true)).proceed 0 5).invoke (.reset 10 true)
  (s.proceed 1 8).proceed 0 15

/-- A set between whose start and publication a reset takes effect. -/
theorem signal_actions_linearizable_sample : ∃ order, Linearizes object sampleTable.history order ∧
    object.state order 10 = { handler := 5, mask := 1 } := by
  have hinit : Table.machine.Reachable { capacity := 1, records := [{ handler := 9 }] } :=
    .init ⟨[{ handler := 9 }], rfl, by decide, by decide⟩
  have hset := proceed_reachable (hinit.step (.invoke (.set 10 { handler := 5, mask := 0x40101 } true))) 0 5
  have hreset := proceed_reachable (hset.step (.invoke (.reset 10 true))) 1 8
  obtain ⟨order, hlinearizes, hstate, _⟩ := signal_actions_linearizable (proceed_reachable hreset 0 15)
  have haction : sampleTable.action 10 = { handler := 5, mask := 1 } := by decide
  exact ⟨order, hlinearizes, (congrFun hstate 10).symm.trans haction⟩

end Artbox.Signals.Actions
