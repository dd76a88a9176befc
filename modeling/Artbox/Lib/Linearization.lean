import Mathlib.Data.List.Basic
import Mathlib.Data.List.Nodup
import Mathlib.Data.List.Induction
import Mathlib.Tactic.Common

/-!
# Linearizability

An object is what operations do to a state one at a time. A history has the operations on a
concurrent one as they are invoked and answered, the latest event first. The history is
linearizable if the operations that succeed can be put in one order (`Linearizes`) that the
object answers in the same way and that has an operation behind all that had been answered
before it was invoked. The order grows where an operation takes effect (`commit`), which is at
some point between its invocation and its answer.
-/

namespace Linearization

variable {ι ε ρ σ : Type*}

/-- What operations return and do to a state. -/
structure Object (ι ρ σ : Type*) where
  init : σ
  apply : σ → ι → ρ × σ

/-- An operation that succeeds is answered with what it returns, one that is refused with an error. -/
inductive Event (ι ε ρ : Type*)
  | invoked (id : Nat) (op : ι)
  | returned (id : Nat) (answer : Except ε ρ)

/-- An operation that took effect. -/
structure Entry (ι ρ : Type*) where
  id : Nat
  op : ι
  value : ρ

namespace Object

variable (O : Object ι ρ σ)

/-- The state behind operations. -/
def state (order : List (Entry ι ρ)) : σ := order.foldl (fun t e => (O.apply t e.op).2) O.init

/-- Each operation returns what the object returns behind those before it. -/
def Legal (order : List (Entry ι ρ)) : Prop :=
  ∀ front e behind, order = front ++ e :: behind → e.value = (O.apply (O.state front) e.op).1

@[simp] theorem state_concat (order : List (Entry ι ρ)) (e : Entry ι ρ) :
    O.state (order ++ [e]) = (O.apply (O.state order) e.op).2 := by
  unfold state
  rw [List.foldl_append]
  rfl

theorem legal_nil : O.Legal [] := by
  intro front e behind h
  exact absurd h.symm (List.append_ne_nil_of_right_ne_nil _ (List.cons_ne_nil _ _))

variable {O}

theorem Legal.concat {order : List (Entry ι ρ)} (h : O.Legal order) {e : Entry ι ρ}
    (he : e.value = (O.apply (O.state order) e.op).1) : O.Legal (order ++ [e]) := by
  intro front e' behind hsplit
  rcases List.eq_nil_or_concat behind with rfl | ⟨behind, last, rfl⟩
  · obtain ⟨rfl, heq⟩ := List.append_inj' hsplit rfl
    obtain rfl : e = e' := (List.cons.inj heq).1
    exact he
  · rw [List.concat_eq_append, ← List.cons_append, ← List.append_assoc] at hsplit
    exact h front e' behind (List.append_inj' hsplit rfl).1

end Object

/-- One operation was answered before the other was invoked. -/
def Before (history : List (Event ι ε ρ)) (a b : Nat) : Prop :=
  ∃ newer op older answer, history = newer ++ .invoked b op :: older ∧ .returned a answer ∈ older

/-- The identities of operations. -/
def ids (order : List (Entry ι ρ)) : List Nat := order.map Entry.id

/-- The operations of a history that succeed, in an order that the object can have them in. -/
structure Linearizes (O : Object ι ρ σ) (history : List (Event ι ε ρ)) (order : List (Entry ι ρ)) : Prop where
  nodup : (ids order).Nodup
  legal : O.Legal order
  invoked : ∀ e ∈ order, .invoked e.id e.op ∈ history
  complete : ∀ id value, .returned id (.ok value) ∈ history → ∃ e ∈ order, e.id = id ∧ e.value = value
  refused : ∀ id error, .returned id (.error error) ∈ history → id ∉ ids order
  realTime : ∀ a b, Before history a b → a ∈ ids order → b ∈ ids order →
    (ids order).idxOf a < (ids order).idxOf b

section Rules

variable {O : Object ι ρ σ} {history : List (Event ι ε ρ)} {order : List (Entry ι ρ)}

theorem Before.of_returned {id : Nat} {answer : Except ε ρ} {a b : Nat}
    (h : Before (.returned id answer :: history) a b) : Before history a b := by
  obtain ⟨newer, op, older, answer', hsplit, hreturned⟩ := h
  cases newer with
  | nil => cases hsplit
  | cons x newer => exact ⟨newer, op, older, answer', (List.cons.inj hsplit).2, hreturned⟩

theorem Before.of_invoked {id : Nat} {op : ι} {a b : Nat} (h : Before (.invoked id op :: history) a b)
    (hne : b ≠ id) : Before history a b := by
  obtain ⟨newer, op', older, answer, hsplit, hreturned⟩ := h
  cases newer with
  | nil =>
    cases hsplit
    exact absurd rfl hne
  | cons x newer => exact ⟨newer, op', older, answer, (List.cons.inj hsplit).2, hreturned⟩

theorem Before.returned {a b : Nat} (h : Before history a b) : ∃ answer, .returned a answer ∈ history := by
  obtain ⟨newer, op, older, answer, rfl, hreturned⟩ := h
  exact ⟨answer, List.mem_append_right _ (List.mem_cons_of_mem _ hreturned)⟩

theorem Linearizes.nil (O : Object ι ρ σ) : Linearizes O ([] : List (Event ι ε ρ)) [] := by
  refine ⟨List.nodup_nil, O.legal_nil, nofun, nofun, nofun, fun a b _ ha => ?_⟩
  cases ha

/-- An operation that is invoked has not taken effect. -/
theorem Linearizes.invoke (h : Linearizes O history order) {id : Nat} (op : ι) (hnew : id ∉ ids order) :
    Linearizes O (.invoked id op :: history) order := by
  refine ⟨h.nodup, h.legal, fun e he => List.mem_cons_of_mem _ (h.invoked e he), fun a value hmem => ?_,
    fun a error hmem => ?_, fun a b hbefore ha hb => ?_⟩
  · rcases List.mem_cons.1 hmem with heq | hmem
    · cases heq
    · exact h.complete a value hmem
  · rcases List.mem_cons.1 hmem with heq | hmem
    · cases heq
    · exact h.refused a error hmem
  · exact h.realTime a b (hbefore.of_invoked fun heq => hnew (heq ▸ hb)) ha hb

/-- An operation that took effect is answered. -/
theorem Linearizes.respond (h : Linearizes O history order) {e : Entry ι ρ} (he : e ∈ order) :
    Linearizes O (.returned e.id (.ok e.value) :: history) order := by
  refine ⟨h.nodup, h.legal, fun x hx => List.mem_cons_of_mem _ (h.invoked x hx), fun a value hmem => ?_,
    fun a error hmem => ?_, fun a b hbefore ha hb => h.realTime a b hbefore.of_returned ha hb⟩
  · rcases List.mem_cons.1 hmem with heq | hmem
    · cases heq
      exact ⟨e, he, rfl, rfl⟩
    · exact h.complete a value hmem
  · rcases List.mem_cons.1 hmem with heq | hmem
    · cases heq
    · exact h.refused a error hmem

/-- An operation that did not take effect is refused. -/
theorem Linearizes.refuse (h : Linearizes O history order) {id : Nat} (hid : id ∉ ids order) (error : ε) :
    Linearizes O (.returned id (.error error) :: history) order := by
  refine ⟨h.nodup, h.legal, fun x hx => List.mem_cons_of_mem _ (h.invoked x hx), fun a value hmem => ?_,
    fun a error' hmem => ?_, fun a b hbefore ha hb => h.realTime a b hbefore.of_returned ha hb⟩
  · rcases List.mem_cons.1 hmem with heq | hmem
    · cases heq
    · exact h.complete a value hmem
  · rcases List.mem_cons.1 hmem with heq | hmem
    · cases heq
      exact hid
    · exact h.refused a error' hmem

/-- An operation takes effect behind all others. -/
theorem Linearizes.commit (h : Linearizes O history order) {e : Entry ι ρ}
    (hvalue : e.value = (O.apply (O.state order) e.op).1) (hnew : e.id ∉ ids order)
    (hinvoked : .invoked e.id e.op ∈ history) (hpending : ∀ answer, .returned e.id answer ∉ history) :
    Linearizes O history (order ++ [e]) := by
  have hids : ids (order ++ [e]) = ids order ++ [e.id] := List.map_append
  refine ⟨?_, h.legal.concat hvalue, fun x hx => ?_, fun a value hmem => ?_, fun a error hmem => ?_,
    fun a b hbefore ha hb => ?_⟩
  · rw [hids]
    refine List.nodup_append.2 ⟨h.nodup, List.nodup_singleton _, fun a ha b hb hab => ?_⟩
    rw [List.mem_singleton.1 hb] at hab
    exact hnew (hab ▸ ha)
  · rcases List.mem_append.1 hx with hx | hx
    · exact h.invoked x hx
    · rw [List.mem_singleton.1 hx]
      exact hinvoked
  · obtain ⟨x, hx, hid, hval⟩ := h.complete a value hmem
    exact ⟨x, List.mem_append_left _ hx, hid, hval⟩
  · rw [hids, List.mem_append, List.mem_singleton, not_or]
    refine ⟨h.refused a error hmem, ?_⟩
    rintro rfl
    exact hpending _ hmem
  · rw [hids] at ha hb ⊢
    obtain ⟨answer, hreturned⟩ := hbefore.returned
    have ha : a ∈ ids order := by
      refine (List.mem_append.1 ha).resolve_right fun heq => ?_
      rw [List.mem_singleton.1 heq] at hreturned
      exact hpending answer hreturned
    rw [List.idxOf_append_of_mem ha]
    by_cases hbo : b ∈ ids order
    · rw [List.idxOf_append_of_mem hbo]
      exact h.realTime a b hbefore ha hbo
    · rw [List.idxOf_append_of_notMem hbo]
      exact Nat.lt_of_lt_of_le (List.idxOf_lt_length_of_mem ha) (Nat.le_add_right ..)

end Rules

end Linearization
