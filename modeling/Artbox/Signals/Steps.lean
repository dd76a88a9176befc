import Artbox.Signals.Bits
import Artbox.Lib.Slots

/-!
# What a step of a call can do

`Advance` says once what the next step of each call does to its thread, what it leaves in the
history and what becomes of the call. Every invariant below is read off it.
-/

namespace Artbox.Signals

/-- What the next step of a call on thread `t` makes of the thread, the events it leaves and what
becomes of the call. -/
inductive Advance (c : Config) (t : Thread) : Call → Thread → List Event → Option Call → Prop
  /-- A signal that may not be queued. -/
  | sendRefused {i n : Nat} {old : Bits} : Advance c t (.sending i n old) t [] none
  /-- The thread has changed since the call looked. -/
  | sendRetry {i n : Nat} {old : Bits} : t.state ≠ old →
      Advance c t (.sending i n old) t [] (some (.sending i n t.state))
  /-- A standard signal that is blocked or waited for. -/
  | sendStandard {i n : Nat} : n ≠ c.interruptNumber →
      (t.state.mask ||| t.waitMask) &&& bitOf n ≠ 0 →
      Advance c t (.sending i n t.state)
        { t with state := { t.state with pending := t.state.pending ||| bitOf n } }
        (System.stirs c i t.state { t.state with pending := t.state.pending ||| bitOf n } ++
          [.accepted i n]) none
  /-- An interruption below the capacity. -/
  | sendInterrupt {i : Nat} {next : Option Call} : t.state.count < c.interruptCapacity →
      (next = some (.sent i) ∨ next = none ∧
        ¬ (t.state.mask &&& bitOf c.interruptNumber = 0 ∧ t.waitMask &&& bitOf c.interruptNumber = 0 ∧
          t.notify = true)) →
      Advance c t (.sending i c.interruptNumber t.state)
        { t with state := { t.state with pending := t.state.pending + interruptUnit } }
        (System.stirs c i t.state { t.state with pending := t.state.pending + interruptUnit } ++
          [.accepted i c.interruptNumber]) next
  | sent {i : Nat} : Advance c t (.sent i) t [.notified i] none
  /-- An operation that does not exist. -/
  | changeUnknown {i how : Nat} {requested : BitVec 64} {old : Bits} :
      Advance c t (.changing i how requested old) t [] none
  /-- A mask that would expose a signal nobody can deliver. -/
  | changeRefused {i how : Nat} {requested mask : BitVec 64} {old : Bits} :
      System.requestedMask how old.mask requested = some mask →
      Advance c t (.changing i how requested old) t
        [.refused i (pendingSet c { old with mask } &&& ~~~mask) old.mask] none
  | changeRetry {i how : Nat} {requested : BitVec 64} {old : Bits} : t.state ≠ old →
      Advance c t (.changing i how requested old) t [] (some (.changing i how requested t.state))
  /-- A mask that exposes at most the interruption, and that only with a callback. -/
  | change {i how : Nat} {requested mask : BitVec 64} {next : Option Call} :
      System.requestedMask how t.state.mask requested = some mask →
      (pendingSet c { t.state with mask } &&& ~~~mask = 0 ∧ next = none ∨
        t.notify = true ∧ pendingSet c { t.state with mask } &&& ~~~mask &&& ~~~c.interruptBit = 0 ∧
          next = some (.changed i)) →
      Advance c t (.changing i how requested t.state) { t with state := { t.state with mask } }
        (System.stirs c i t.state { t.state with mask } ++ [.masked i t.state.mask mask]) next
  | changed {i : Nat} : Advance c t (.changed i) t [.notified i] none
  /-- No interruption is there to take. -/
  | takeNothing {i : Nat} {action : BitVec 64} {old : Bits} :
      Advance c t (.taking i action old) t [] none
  | takeRetry {i : Nat} {action : BitVec 64} {old : Bits} : t.state ≠ old →
      Advance c t (.taking i action old) t [] (some (.taking i action t.state))
  | take {i : Nat} {action : BitVec 64} : t.state.count ≠ 0 → t.state.mask &&& c.interruptBit = 0 →
      Advance c t (.taking i action t.state)
        { t with state := ⟨t.state.mask ||| ((action ||| c.interruptBit) &&& ~~~unmaskable),
            t.state.pending - interruptUnit⟩ }
        [.took i t.state.mask] (some (.taken i))
  | taken {i : Nat} :
      Advance c t (.taken i) { t with interruptEpoch := t.interruptEpoch + 1 } [] none
  /-- Another holds the mutex. -/
  | enterBlocked {i : Nat} {selected : BitVec 64} {blocks expires : Bool} {epoch : Nat} :
      Advance c t (.entering i selected blocks expires epoch) t []
        (some (.entering i selected blocks expires epoch))
  /-- Another sigtimedwait of the thread is on its condition variable. -/
  | enterBusy {i : Nat} {selected : BitVec 64} {blocks expires : Bool} {epoch : Nat} :
      t.waiting = true → Advance c t (.entering i selected blocks expires epoch) t [] none
  | enterWait {i : Nat} {selected : BitVec 64} {blocks expires : Bool} {epoch : Nat} :
      Advance c t (.entering i selected blocks expires epoch)
        { t with waiting := true, waitMask := selected } []
        (some (.waiting i selected expires epoch))
  | enterConsume {i : Nat} {selected : BitVec 64} {blocks expires : Bool} {epoch : Nat} :
      Advance c t (.entering i selected blocks expires epoch) t []
        (some (.consuming i selected epoch t.state))
  | waitOn {i : Nat} {selected : BitVec 64} {expires : Bool} {epoch : Nat} :
      Advance c t (.waiting i selected expires epoch) t [] (some (.waiting i selected expires epoch))
  | wake {i : Nat} {selected : BitVec 64} {expires : Bool} {epoch : Nat} :
      Advance c t (.waiting i selected expires epoch) { t with waiting := false, waitMask := 0 } []
        (some (.consuming i selected epoch t.state))
  /-- Nothing that was selected is there. -/
  | consumeNothing {i : Nat} {selected : BitVec 64} {epoch : Nat} {old : Bits} :
      pendingSet c old &&& selected = 0 →
      Advance c t (.consuming i selected epoch old) t [.ended i] none
  | consumeRetry {i : Nat} {selected : BitVec 64} {epoch : Nat} {old : Bits} :
      pendingSet c old &&& selected ≠ 0 → t.state ≠ old →
      Advance c t (.consuming i selected epoch old) t [] (some (.consuming i selected epoch t.state))
  | consume {i : Nat} {selected : BitVec 64} {epoch : Nat} :
      pendingSet c t.state &&& selected ≠ 0 →
      Advance c t (.consuming i selected epoch t.state)
        { t with state := { t.state with
            pending := if System.lowest (pendingSet c t.state &&& selected) = c.interruptNumber then
                t.state.pending - interruptUnit
              else t.state.pending &&& ~~~bitOf (System.lowest (pendingSet c t.state &&& selected)) } }
        [.ended i, .consumed i (System.lowest (pendingSet c t.state &&& selected))] none
  | bound {i : Nat} : t.state.count ≠ 0 → t.state.mask &&& c.interruptBit = 0 →
      Advance c t (.binding i) t [.notified i] none
  | boundQuiet {i : Nat} : ¬ (t.state.count ≠ 0 ∧ t.state.mask &&& c.interruptBit = 0) →
      Advance c t (.binding i) t [] none

namespace System

variable {s : System} {t : Thread} {i : Nat}

/-- The system after a step on thread `i`. -/
def put (s : System) (i : Nat) (t : Thread) (l : List Event) : System :=
  { s with threads := s.threads.set i t, history := l ++ s.history }

theorem put_self (h : s.threads[i]? = some t) : s.put i t [] = s := by
  obtain ⟨hlt, rfl⟩ := List.getElem?_eq_some_iff.1 h
  rw [put, List.set_getElem_self]
  rfl

theorem update_eq (h : s.threads[i]? = some t) (f : Thread → Thread) :
    s.update i f = s.put i (f t) [] := by
  obtain ⟨hlt, rfl⟩ := List.getElem?_eq_some_iff.1 h
  rw [update, put, List.modify_eq_set_getElem? , h]
  rfl

theorem record_eq (h : s.threads[i]? = some t) (l : List Event) : s.record l = s.put i t l := by
  have hself := congrArg (fun s => s.record l) (put_self h)
  exact hself.symm

theorem setState_record (h : s.threads[i]? = some t) (b : Bits) (l : List Event) :
    (s.setState i b).record l = s.put i { t with state := b } l := by
  rw [setState, update_eq h]
  rfl

/-- The inversion of `attemptSend`. -/
theorem attemptSend_spec (h : s.threads[i]? = some t) (n : Nat) (old : Bits) :
    ∃ t' l next, attemptSend s i n old t = (s.put i t' l, next) ∧
      Advance s.config t (.sending i n old) t' l next := by
  unfold attemptSend
  dsimp only
  split
  · exact ⟨t, [], none, by rw [put_self h], .sendRefused⟩
  next hadmit =>
    split
    · exact ⟨t, [], none, by rw [put_self h], .sendRefused⟩
    next hroom =>
      split
      · exact ⟨t, [], _, by rw [put_self h], .sendRetry (by assumption)⟩
      next hstate =>
        obtain rfl : old = t.state := (not_not.1 hstate).symm
        rw [setState_record h]
        by_cases hint : n = s.config.interruptNumber
        · subst hint
          have hcap : t.state.count < s.config.interruptCapacity := by
            simpa using hroom
          rw [if_pos rfl]
          split
          next hnotify =>
            obtain ⟨_, hmask, hwait, hbound⟩ := hnotify
            exact ⟨_, _, _, rfl, .sendInterrupt hcap (.inl rfl)⟩
          next hquiet =>
            refine ⟨_, _, _, rfl, .sendInterrupt hcap (.inr ⟨rfl, fun hn => hquiet ?_⟩)⟩
            exact ⟨rfl, hn⟩
        · rw [if_neg hint, if_neg (fun hn => hint hn.1)]
          refine ⟨_, _, _, rfl, .sendStandard hint fun hzero => hadmit ⟨hzero, fun hn => hint hn.1⟩⟩

/-- The inversion of `attemptChange`. -/
theorem attemptChange_spec (h : s.threads[i]? = some t) (how : Nat) (requested : BitVec 64)
    (old : Bits) : ∃ t' l next, attemptChange s i how requested old t = (s.put i t' l, next) ∧
      Advance s.config t (.changing i how requested old) t' l next := by
  unfold attemptChange
  dsimp only
  split
  · exact ⟨t, [], none, by rw [put_self h], .changeUnknown⟩
  next mask hmask =>
    split
    next hexposed => exact ⟨t, _, none, by rw [record_eq h], .changeRefused hmask⟩
    next hallowed =>
      split
      · exact ⟨t, [], _, by rw [put_self h], .changeRetry (by assumption)⟩
      next hstate =>
        obtain rfl : old = t.state := (not_not.1 hstate).symm
        rw [setState_record h]
        split
        next hne =>
          have hboth : t.notify = true ∧
              pendingSet s.config { t.state with mask } &&& ~~~mask &&& ~~~s.config.interruptBit = 0 := by
            rw [not_and, not_or, Bool.not_eq_false, not_not] at hallowed
            exact hallowed hne
          exact ⟨_, _, _, rfl, .change hmask (.inr ⟨hboth.1, hboth.2, rfl⟩)⟩
        next hzero => exact ⟨_, _, _, rfl, .change hmask (.inl ⟨not_not.1 hzero, rfl⟩)⟩

/-- The inversion of `attemptTake`. -/
theorem attemptTake_spec (h : s.threads[i]? = some t) (action : BitVec 64) (old : Bits) :
    ∃ t' l next, attemptTake s i action old t = (s.put i t' l, next) ∧
      Advance s.config t (.taking i action old) t' l next := by
  unfold attemptTake
  dsimp only
  split
  · exact ⟨t, [], none, by rw [put_self h], .takeNothing⟩
  next hthere =>
    split
    · exact ⟨t, [], _, by rw [put_self h], .takeRetry (by assumption)⟩
    next hstate =>
      obtain rfl : old = t.state := (not_not.1 hstate).symm
      rw [setState_record h]
      rw [not_or, not_not] at hthere
      exact ⟨_, _, _, rfl, .take hthere.1 hthere.2⟩

/-- The inversion of `attemptConsume`. -/
theorem attemptConsume_spec (h : s.threads[i]? = some t) (selected : BitVec 64) (epoch : Nat)
    (old : Bits) : ∃ t' l next, attemptConsume s i selected epoch old t = (s.put i t' l, next) ∧
      Advance s.config t (.consuming i selected epoch old) t' l next := by
  unfold attemptConsume
  dsimp only
  split
  next hzero => exact ⟨t, _, none, by rw [record_eq h], .consumeNothing hzero⟩
  next hne =>
    split
    next hstale => exact ⟨t, [], _, by rw [put_self h], .consumeRetry hne hstale⟩
    next hstate =>
      obtain rfl : old = t.state := (not_not.1 hstate).symm
      rw [setState_record h]
      exact ⟨_, _, _, rfl, .consume hne⟩

/-- The step of a call, read off once. -/
theorem advance_spec {call : Call} (h : s.threads[call.thread]? = some t) (timeout : Bool) :
    ∃ t' l next, advance s call t timeout = (s.put call.thread t' l, next) ∧
      Advance s.config t call t' l next := by
  cases call with
  | sending i n old => exact attemptSend_spec h n old
  | sent i => exact ⟨t, _, none, congrArg (·, none) (record_eq h _), .sent⟩
  | changing i how requested old => exact attemptChange_spec h how requested old
  | changed i => exact ⟨t, _, none, congrArg (·, none) (record_eq h _), .changed⟩
  | taking i action old => exact attemptTake_spec h action old
  | taken i => exact ⟨_, [], none, congrArg (·, none) (update_eq h _), .taken⟩
  | entering i selected blocks expires epoch =>
    unfold advance
    dsimp only
    split
    · unfold enterWait
      split
      next hbusy => exact ⟨t, [], none, by rw [put_self h], .enterBusy hbusy⟩
      · split
        · exact ⟨_, [], _, congrArg (·, _) (update_eq h _), .enterWait⟩
        · exact ⟨t, [], _, by rw [put_self h], .enterConsume⟩
    · exact ⟨t, [], _, by rw [put_self h], .enterBlocked⟩
  | waiting i selected expires epoch =>
    unfold advance
    dsimp only
    split
    · unfold wakeWait
      split
      · exact ⟨_, [], _, congrArg (·, _) (update_eq h _), .wake⟩
      · exact ⟨t, [], _, by rw [put_self h], .waitOn⟩
    · exact ⟨t, [], _, by rw [put_self h], .waitOn⟩
  | consuming i selected epoch old => exact attemptConsume_spec h selected epoch old
  | binding i =>
    unfold advance finishBind
    dsimp only
    split
    next hfound => exact ⟨t, _, none, congrArg (·, none) (record_eq h _), .bound hfound.1 hfound.2⟩
    next hquiet => exact ⟨t, [], none, by rw [put_self h], .boundQuiet hquiet⟩

/-! ## Steps of the system -/

/-- A signal `send` may queue. -/
def Sendable (c : Config) (n : Nat) : Prop :=
  (0 < n ∧ n ≤ 31) ∨ (n = c.interruptNumber ∧ n ≠ 0)

/-- What a call that begins carries. -/
def Begins (c : Config) : Call → Prop
  | .sending _ n _ => Sendable c n
  | .changing _ _ requested _ => requested &&& unmaskable = 0
  | .taking _ _ _ => True
  | .entering _ _ _ _ _ => True
  | _ => False

/-- What an action that is no step of a call can do. -/
inductive Start (s : System) : System → Prop
  | idle : Start s s
  | attach {tid : Int} {mask : BitVec 64} :
      Start s { s with threads := s.threads ++ [{ tid, state := ⟨mask &&& ~~~unmaskable, 0⟩ }] }
  | detach {i : Nat} {t : Thread} : s.threads[i]? = some t → t.notify = false →
      (∀ c ∈ s.calls, c.thread ≠ i) → Start s (s.put i { t with attached := false } [])
  | begin {c : Call} : Begins s.config c → Start s (s.add c)
  | bind {i : Nat} {t : Thread} : s.threads[i]? = some t → s.config.interruptNumber ≠ 0 →
      Start s ((s.put i { t with notify := true } [.bound i]).add (.binding i))
  | unbind {i : Nat} {t : Thread} : s.threads[i]? = some t →
      Start s (s.put i { t with notify := false } [])

/-- What a step can do. -/
inductive Step (s : System) : System → Prop
  | start {s' : System} : Start s s' → Step s s'
  | advance {k : Nat} {call : Call} {t t' : Thread} {l : List Event} {next : Option Call} :
      s.calls[k]? = some call → s.threads[call.thread]? = some t →
      Advance s.config t call t' l next →
      Step s { s.put call.thread t' l with calls := next.toList ++ s.calls.eraseIdx k }

theorem and_not_unmaskable (m : BitVec 64) : m &&& ~~~unmaskable &&& unmaskable = 0 := by
  refine BitVec.eq_of_getLsbD_eq fun i _ => ?_
  rw [BitVec.getLsbD_and, BitVec.getLsbD_and, BitVec.getLsbD_not]
  show _ = (0#64).getLsbD i
  rw [BitVec.getLsbD_zero]
  cases unmaskable.getLsbD i <;> simp

theorem beginSend_begins {pid id signal : Int} {call : Call}
    (h : s.beginSend pid id signal = .ok call) : Begins s.config call := by
  unfold beginSend at h
  split at h
  · cases h
  · split at h
    · cases h
    · split at h
      · cases h
      next hrange =>
        split at h
        · cases h
        next hzero =>
          split at h
          · cases h
          next hlegal =>
            split at h
            · cases h
            · cases h
              show Sendable _ _
              rw [Sendable]
              omega

/-- The next step of a call in progress. -/
theorem perform_advance {k : Nat} {call : Call} (hcall : s.calls[k]? = some call)
    (ht : s.threads[call.thread]? = some t) (timeout : Bool) :
    ∃ t' l next, Advance s.config t call t' l next ∧ perform s (.advance k timeout) =
      { s.put call.thread t' l with calls := next.toList ++ s.calls.eraseIdx k } := by
  have hleft : ({ s with calls := s.calls.eraseIdx k } : System).threads[call.thread]? = some t := ht
  obtain ⟨t', l, next, heq, hadvance⟩ := advance_spec hleft timeout
  refine ⟨t', l, next, hadvance, ?_⟩
  unfold perform
  simp only [hcall, ht, heq]
  cases next with
  | none => rfl
  | some next => rfl

/-- An action that is no step of a call. -/
theorem perform_start {a : Action} (ha : ∀ k timeout, a ≠ .advance k timeout) :
    Start s (perform s a) := by
  cases a with
  | attach tid mask =>
    unfold perform
    dsimp only
    split
    · exact .idle
    · exact .attach
  | detach i =>
    unfold perform
    dsimp only
    split
    · exact .idle
    next t ht =>
      split
      · exact .idle
      next hfree =>
        -- nothing of the thread is in progress
        simp only [not_or, List.any_eq_true, beq_iff_eq, not_exists, not_and] at hfree
        rw [update_eq ht]
        exact .detach ht (by simpa using hfree.2.2.1) hfree.2.2.2
  | send pid id signal =>
    unfold perform
    dsimp only
    split
    · split
      · exact .idle
      next call hcall => exact .begin (beginSend_begins hcall)
    · exact .idle
  | mask i how input =>
    unfold perform
    dsimp only
    split
    · exact .idle
    · split
      · exact .begin (and_not_unmaskable input)
      · exact .idle
  | take i action =>
    unfold perform
    dsimp only
    split
    · exact .idle
    · split
      · exact .begin trivial
      · exact .idle
  | wait i set blocks expires =>
    unfold perform
    dsimp only
    split
    · exact .idle
    · split
      · exact .begin trivial
      · exact .idle
  | bind i notify =>
    unfold perform
    dsimp only
    split
    · exact .idle
    next t ht =>
      split
      · unfold beginBind
        by_cases hnumber : s.config.interruptNumber = 0
        · rw [if_pos hnumber]
          exact .idle
        · rw [if_neg hnumber]
          by_cases hbusy : notify = true ∧ t.notify = true
          · rw [if_pos hbusy]
            exact .idle
          · rw [if_neg hbusy, update_eq ht]
            cases notify with
            | true => exact .bind ht hnumber
            | false => exact .unbind ht
      · exact .idle
  | advance k timeout => exact absurd rfl (ha k timeout)

/-- A step of a call changes nothing or is the next step of a call in progress. -/
theorem perform_call (s : System) (k : Nat) (timeout : Bool) : perform s (.advance k timeout) = s ∨
    ∃ call t t' l next, s.calls[k]? = some call ∧ s.threads[call.thread]? = some t ∧
      Advance s.config t call t' l next ∧ perform s (.advance k timeout) =
        { s.put call.thread t' l with calls := next.toList ++ s.calls.eraseIdx k } := by
  cases hcall : s.calls[k]? with
  | none =>
    unfold perform
    simp only [hcall]
    exact .inl trivial
  | some call =>
    cases ht : s.threads[call.thread]? with
    | none =>
      unfold perform
      simp only [hcall, ht]
      exact .inl trivial
    | some t =>
      obtain ⟨t', l, next, hadvance, heq⟩ := perform_advance hcall ht timeout
      exact .inr ⟨call, t, t', l, next, rfl, ht, hadvance, heq⟩

/-- The step lemma: what a step can do, said once. -/
theorem perform_step (s : System) (a : Action) : Step s (perform s a) := by
  by_cases ha : ∃ k timeout, a = .advance k timeout
  · obtain ⟨k, timeout, rfl⟩ := ha
    rcases perform_call s k timeout with heq | ⟨call, t, t', l, next, hcall, ht, hadvance, heq⟩
    · rw [heq]
      exact .start .idle
    · rw [heq]
      exact .advance hcall ht hadvance
  · simp only [not_exists] at ha
    exact .start (perform_start ha)

end System

end Artbox.Signals
