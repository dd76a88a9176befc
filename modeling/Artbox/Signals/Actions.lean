import Artbox.Lib.Machine
import Artbox.Lib.Linearization

/-!
# The signal-action table

`core/src/signal_actions.cpp`. A step of the machine is an atomic step of one call: an atomic
load or exchange, a lock or unlock of the writers' mutex, or the reading or writing of one word
of a record. Records and outputs are not atomic, so a copy takes a step for each word. Pointers
into `records` are indices, and none points to `empty`. `history` is a history variable.
-/

namespace Artbox.Signals.Actions

open Linearization

/-- `artbox_signal_action` -/
structure Action where
  handler : BitVec 64 := 0
  flags : BitVec 64 := 0
  restorer : BitVec 64 := 0
  mask : BitVec 64 := 0
deriving DecidableEq, Repr

namespace Action

/-- `actions->empty` -/
def empty : Action := {}

/-- A word of a record. -/
def word (a : Action) : Nat → BitVec 64
  | 0 => a.handler
  | 1 => a.flags
  | 2 => a.restorer
  | _ => a.mask

/-- Write a word of a record. -/
def setWord (a : Action) (k : Nat) (w : BitVec 64) : Action :=
  match k with
  | 0 => { a with handler := w }
  | 1 => { a with flags := w }
  | 2 => { a with restorer := w }
  | _ => { a with mask := w }

/-- The words of a record. -/
def words : Nat := 4

/-- What a set publishes: SIGKILL and SIGSTOP cannot be masked. -/
def requested (input : Action) : Action := { input with mask := input.mask &&& ~~~0x40100 }

end Action

/-- `valid` -/
def Valid (number : Nat) : Prop := 1 ≤ number ∧ number ≤ 64

instance (number : Nat) : Decidable (Valid number) := inferInstanceAs (Decidable (_ ∧ _))

/-- `changeable` -/
def Changeable (number : Nat) : Prop := Valid number ∧ number ≠ 9 ∧ number ≠ 19

instance (number : Nat) : Decidable (Changeable number) := inferInstanceAs (Decidable (_ ∧ _))

/-- A call; `out` says that it is given a place for the previous action. A query is
`artbox_signal_actions_set` without an input. -/
inductive Op
  | snapshot (number : Nat)
  | query (number : Nat) (out : Bool)
  | reset (number : Nat) (out : Bool)
  | set (number : Nat) (input : Action) (out : Bool)
deriving DecidableEq, Repr

def Op.number : Op → Nat
  | snapshot number | query number _ | reset number _ | set number _ _ => number

/-- The call is given a place for an action. -/
def Op.out : Op → Bool
  | snapshot _ => true
  | query _ out | reset _ out | set _ _ out => out

/-- The arguments are accepted. -/
def Op.Accepted : Op → Prop
  | snapshot number | query number _ => Valid number
  | reset number _ | set number _ _ => Changeable number

instance (op : Op) : Decidable op.Accepted := by
  cases op <;> exact inferInstanceAs (Decidable (_ ∧ _))

/-- What a set publishes. -/
def Op.requested : Op → Action
  | set _ input _ => input.requested
  | _ => .empty

/-- Where a call is. -/
inductive Phase
  /-- About to load the pointer, for a snapshot or a query. -/
  | loading
  /-- About to store the pointer to `empty`. -/
  | resetting
  /-- About to lock the mutex. -/
  | locking
  /-- About to load the pointer, with the mutex. -/
  | reading
  /-- In `memcmp` of the old record with what is requested. -/
  | comparing (old : Option Nat) (k : Nat)
  /-- About to take a record. -/
  | taking
  /-- Writing the record, which is published when it is complete. -/
  | writing (record k : Nat)
  /-- Copying a record out. -/
  | copying (record : Option Nat) (k : Nat) (output : Action)
  /-- Done but for the mutex, without an output. -/
  | unlocking
  /-- Refused, still with the mutex. -/
  | full
  | refusing
  | returning (value : Option Action)
deriving DecidableEq, Repr

/-- A call in progress. -/
structure Call where
  op : Op
  phase : Phase
deriving DecidableEq, Repr

/-- `artbox_signal_actions` with the calls in progress. -/
structure Table where
  capacity : Nat
  records : List Action
  used : Nat := 0
  current : Nat → Option Nat := fun _ => none
  /-- The call that has locked the mutex. -/
  writer : Option Nat := none
  calls : Nat → Option Call := fun _ => none
  nextId : Nat := 0
  history : List (Event Op Int (Option Action)) := []

namespace Table

/-- What a pointer points to. -/
def load (s : Table) (pointer : Option Nat) : Action :=
  match pointer with
  | none => .empty
  | some record => (s.records[record]?).getD .empty

/-- The action of a signal number. -/
def action (s : Table) (number : Nat) : Action := s.load (s.current number)

def setPhase (s : Table) (id : Nat) (call : Call) (phase : Phase) : Table :=
  { s with calls := Function.update s.calls id (some { call with phase }) }

theorem calls_setPhase (s : Table) (id : Nat) (call : Call) (phase : Phase) :
    (s.setPhase id call phase).calls id = some { call with phase } := Function.update_self ..

theorem calls_setPhase_of_ne (s : Table) {id other : Nat} (hne : other ≠ id) (call : Call) (phase : Phase) :
    (s.setPhase id call phase).calls other = s.calls other := Function.update_of_ne hne ..

/-- The mutex is unlocked if the call has locked it. -/
def unlock (s : Table) (id : Nat) : Table := { s with writer := if s.writer = some id then none else s.writer }

/-- The call returns. -/
def answer (s : Table) (id : Nat) (answer : Except Int (Option Action)) : Table :=
  { s with calls := Function.update s.calls id none, history := .returned id answer :: s.history }

theorem calls_answer (s : Table) (id : Nat) (a : Except Int (Option Action)) : (s.answer id a).calls id = none :=
  Function.update_self ..

theorem calls_answer_of_ne (s : Table) {id other : Nat} (hne : other ≠ id) (a : Except Int (Option Action)) :
    (s.answer id a).calls other = s.calls other := Function.update_of_ne hne ..

/-- What a call does with the pointer it got: `if(previous) *previous=*old`. -/
def Call.output (call : Call) (pointer : Option Nat) : Phase :=
  if call.op.out then .copying pointer 0 {} else .unlocking

/-- A call begins. -/
def invoke (s : Table) (op : Op) : Table :=
  let id := s.nextId
  let s := { s with nextId := id + 1, history := .invoked id op :: s.history }
  if op.Accepted then
    let phase := match op with
      | .snapshot _ | .query _ _ => .loading
      | .reset _ _ => .resetting
      | .set _ input _ => if input.requested = .empty then .resetting else .locking
    { s with calls := Function.update s.calls id (some { op, phase }) }
  else { s with history := .returned id (.error (-22)) :: s.history }

/-- The next step of a call. -/
def advance (s : Table) (id : Nat) (call : Call) : Table :=
  let number := call.op.number
  match call.phase with
  | .loading => s.setPhase id call (Call.output call (s.current number))
  | .resetting =>
    { s with current := Function.update s.current number none }.setPhase id call
      (Call.output call (s.current number))
  | .locking =>
    if s.writer = none then { s with writer := some id }.setPhase id call .reading else s
  | .reading => s.setPhase id call (.comparing (s.current number) 0)
  | .comparing old k =>
    if k < Action.words then
      s.setPhase id call (if (s.load old).word k = call.op.requested.word k then .comparing old (k + 1) else .taking)
    else s.setPhase id call (Call.output call old)
  | .taking =>
    if s.used = s.capacity then s.setPhase id call .full
    else { s with used := s.used + 1 }.setPhase id call (.writing s.used 0)
  | .writing record k =>
    if k < Action.words then
      let write (a : Action) := a.setWord k (call.op.requested.word k)
      { s with records := s.records.modify record write }.setPhase id call (.writing record (k + 1))
    else
      { s with current := Function.update s.current number (some record) }.setPhase id call
        (Call.output call (s.current number))
  | .copying pointer k output =>
    if k < Action.words then
      s.setPhase id call (.copying pointer (k + 1) (output.setWord k ((s.load pointer).word k)))
    else (s.unlock id).setPhase id call (.returning (some output))
  | .unlocking => (s.unlock id).setPhase id call (.returning none)
  | .full => (s.unlock id).setPhase id call .refusing
  | .refusing => s.answer id (.error (-12))
  | .returning value => s.answer id (.ok value)

/-- A step: someone calls, or a call goes on. -/
inductive Step (s : Table) : Table → Prop
  | invoke (op : Op) : Step s (s.invoke op)
  | advance {id : Nat} {call : Call} (h : s.calls id = some call) : Step s (s.advance id call)

/-- The runs of a table that `artbox_signal_actions_create` makes. -/
def machine : Machine Table where
  init s := ∃ records, s = { capacity := records.length, records } ∧ 0 < records.length ∧ records.length ≤ 65536
  step := Step

end Table

end Artbox.Signals.Actions
