import Artbox.Signals.Counting
import Mathlib.Data.List.Induction

/-!
# Signals stranded by a wait

A standard signal is queued if its thread blocks it or waits for it. A sigtimedwait takes one
signal and leaves the others it selected where they are: if it ends with another of them pending
that the thread does not block, nobody will take that one, and the mask of the thread cannot be
changed any more without blocking it. A run strands a signal exactly if a sigtimedwait of it
ends so.
-/

namespace Artbox.Signals

namespace Bits

/-- Standard signal `n` is pending and not blocked. -/
def Strands (b : Bits) (n : Nat) : Prop :=
  0 < n ∧ n ≤ 31 ∧ b.standard.getLsbD (n - 1) = true ∧ b.mask.getLsbD (n - 1) = false

/-- A stranded signal stays so under a mask that blocks no more. -/
theorem Strands.congr {b b' : Bits} {n : Nat} (h : b'.Strands n) (hs : b'.standard = b.standard)
    (hm : b.mask.getLsbD (n - 1) = true → b'.mask.getLsbD (n - 1) = true) : b.Strands n := by
  obtain ⟨hpos, hle, hbit, hmask⟩ := h
  refine ⟨hpos, hle, hs ▸ hbit, ?_⟩
  cases hold : b.mask.getLsbD (n - 1) with
  | false => rfl
  | true => exact absurd (hm hold) (by simp [hmask])

end Bits

section Thread

attribute [local irreducible] Bits.count Bits.standard

/-- An interruption that was sent strands nothing. -/
theorem strands_add {b : Bits} {n : Nat}
    (h : (⟨b.mask, b.pending + interruptUnit⟩ : Bits).Strands n) : b.Strands n := by
  obtain ⟨hpos, hle, hbit, hmask⟩ := h
  rw [standard_add] at hbit
  exact ⟨hpos, hle, hbit, hmask⟩

/-- What is stranded after a signal was consumed. -/
theorem strands_consume {c : Config} (hc : c.Valid) {b : Bits} {m n : Nat} (hm : 0 < m) (hle : m ≤ 64) :
    ({ b with pending := if m = c.interruptNumber then b.pending - interruptUnit
        else b.pending &&& ~~~bitOf m } : Bits).Strands n ↔ b.Strands n ∧ n ≠ m := by
  split
  next hnumber =>
    have hstd := standard_sub (b := b) (m := b.mask)
    have h32 : 32 ≤ m := by
      obtain h0 | ⟨h1, _⟩ := hc <;> omega
    refine ⟨fun h => ⟨h.congr hstd id, ?_⟩, fun h => h.1.congr hstd.symm id⟩
    have := h.2.1
    omega
  next =>
    have hbit := fun i => getLsbD_standard_clear (b := b) (m := b.mask) (i := i) hm hle
    constructor
    · rintro ⟨hpos, hn, hset, hmask⟩
      rw [hbit, Bool.and_eq_true] at hset
      refine ⟨⟨hpos, hn, hset.1, hmask⟩, fun heq => ?_⟩
      have hone : n - 1 + 1 = m := by omega
      simp [hone] at hset
    · rintro ⟨⟨hpos, hn, hset, hmask⟩, hne⟩
      refine ⟨hpos, hn, ?_, hmask⟩
      have hone : ¬ n - 1 + 1 = m := by omega
      rw [hbit, hset, decide_eq_false hone]
      rfl

/-- A standard signal that a mask exposes. -/
theorem exposed_of_strands {c : Config} (hc : c.Valid) {b : Bits} {n : Nat} (h : b.Strands n) :
    (pendingSet c b &&& ~~~b.mask).getLsbD (n - 1) = true ∧
      (pendingSet c b &&& ~~~b.mask &&& ~~~c.interruptBit).getLsbD (n - 1) = true := by
  obtain ⟨hpos, hle, hbit, hmask⟩ := h
  have hlt : n - 1 < 64 := by omega
  have hset : (pendingSet c b &&& ~~~b.mask).getLsbD (n - 1) = true := by
    rw [BitVec.getLsbD_and, BitVec.getLsbD_not, getLsbD_pendingSet hc, hbit, hmask]
    simp [hlt]
  refine ⟨hset, ?_⟩
  have hne : ¬ n - 1 + 1 = c.interruptNumber := by
    obtain h0 | ⟨h1, _⟩ := hc <;> omega
  rw [BitVec.getLsbD_and, hset, BitVec.getLsbD_not, getLsbD_interruptBit hc, decide_eq_false hne]
  simp [hlt]

/-- A step strands a signal only while something is waited for. -/
theorem Advance.strands {c : Config} {t t' : Thread} {call : Call} {l : List Event}
    {next : Option Call} (h : Advance c t call t' l next) (hc : c.Valid) (hl : Lawful c call) {n : Nat}
    (hn : t'.state.Strands n) : t.state.Strands n ∨ t.waitMask ≠ 0 := by
  cases h with
  | @sendStandard i m hm hadmit =>
    obtain ⟨hpos, hle⟩ | ⟨heq, _⟩ := hl
    · by_cases hwait : t.waitMask = 0
      · obtain ⟨hn0, hn31, hbit, hmask⟩ := hn
        dsimp only at hbit hmask
        rw [getLsbD_standard_or hpos (by omega)] at hbit
        refine .inl ⟨hn0, hn31, ?_, hmask⟩
        cases hold : t.state.standard.getLsbD (n - 1) with
        | true => rfl
        | false =>
          -- the new one is blocked, as nothing is waited for
          have hone : n - 1 + 1 = m := by simpa [hold] using hbit
          refine absurd ?_ hadmit
          rw [hwait, show t.state.mask ||| 0 = t.state.mask from BitVec.or_zero]
          refine BitVec.eq_of_getLsbD_eq fun j _ => ?_
          rw [BitVec.getLsbD_and, getLsbD_bitOf hpos (by omega)]
          by_cases hj : j + 1 = m
          · have hjn : j = n - 1 := by omega
            rw [hjn, hmask]
            simp
          · simp [hj]
      · exact .inr hwait
    · exact absurd heq hm
  | sendInterrupt => exact .inl (strands_add hn)
  | @change i how requested mask _ hmask hexposed =>
    have hboth := exposed_of_strands hc hn
    dsimp only at hboth
    obtain ⟨hzero, _⟩ | ⟨_, hzero, _⟩ := hexposed
    · rw [hzero] at hboth
      exact absurd hboth.1 (by simp)
    · rw [hzero] at hboth
      exact absurd hboth.2 (by simp)
  | @take i action _ _ =>
    have hstd := standard_sub (b := t.state)
      (m := t.state.mask ||| ((action ||| c.interruptBit) &&& ~~~unmaskable))
    refine .inl (hn.congr hstd fun h => ?_)
    rw [BitVec.getLsbD_or, h, Bool.true_or]
  | consume hne =>
    obtain ⟨hpos, hle, _⟩ := lowest_spec hne
    exact .inl ((strands_consume hc hpos hle).1 hn).1
  | _ => exact .inl hn

/-- The last step of a sigtimedwait strands what it leaves pending and unblocked. -/
theorem Advance.strands_end {c : Config} {t t' : Thread} {i : Nat} {selected : BitVec 64} {epoch : Nat}
    {old : Bits} {l : List Event} (h : Advance c t (.consuming i selected epoch old) t' l none)
    (hc : c.Valid) (n : Nat) : t'.state.Strands n ↔ t.state.Strands n ∧
      ¬ (pendingSet c old &&& selected ≠ 0 ∧ n = System.lowest (pendingSet c old &&& selected)) := by
  cases h with
  | consumeNothing hzero => simp [hzero]
  | consume hne =>
    obtain ⟨hpos, hle, _⟩ := lowest_spec hne
    refine (strands_consume hc hpos hle).trans ?_
    exact ⟨fun h => ⟨h.1, fun hx => h.2 hx.2⟩, fun h => ⟨h.1, fun hx => h.2 ⟨hne, hx⟩⟩⟩

end Thread

/-- A turn of a call attaches nobody and detaches nobody. -/
theorem Advance.attached {c : Config} {t t' : Thread} {call : Call} {l : List Event}
    {next : Option Call} (h : Advance c t call t' l next) : t'.attached = t.attached := by
  cases h <;> rfl

/-- A sigtimedwait is over after a step of it or stays one of its thread. -/
theorem Advance.waits {c : Config} {t t' : Thread} {call : Call} {l : List Event}
    {next : Option Call} (h : Advance c t call t' l next) (hw : call.waits = true) :
    (∃ x, next = some x ∧ x.waits = true ∧ x.thread = call.thread) ∨ next = none := by
  cases h with
  | enterBlocked | enterWait | enterConsume | waitOn | wake | consumeRetry =>
    exact .inl ⟨_, rfl, rfl, rfl⟩
  | enterBusy | consumeNothing | consume => exact .inr rfl
  | _ => cases hw

namespace System

variable {s s' : System} {i j : Nat} {t : Thread}

/-- A sigtimedwait of thread `i` is in progress. -/
def Waits (s : System) (i : Nat) : Prop := ∃ c ∈ s.calls, c.waits = true ∧ c.thread = i

/-- No standard signal of a thread without a sigtimedwait in progress is pending and unblocked, and
no mask of it would be refused for a standard signal that is unblocked already. -/
def Unstranded (s : System) : Prop :=
  ∀ (i : Nat) (t : Thread), s.threads[i]? = some t → t.attached = true → ¬ s.Waits i →
    (∀ n, ¬ t.state.Strands n) ∧
      ∀ how requested mask n, requestedMask how t.state.mask requested = some mask → 0 < n → n ≤ 31 →
        (pendingSet s.config { t.state with mask } &&& ~~~mask).getLsbD (n - 1) = true →
          t.state.mask.getLsbD (n - 1) = true

/-- If the action is the last step of a sigtimedwait, and no other of its thread is in progress, then
each standard signal that is pending and unblocked is the one it consumes. -/
def EndsBlocked (s : System) (a : Action) : Prop :=
  ∀ (k : Nat) (timeout : Bool) (i : Nat) (selected : BitVec 64) (epoch : Nat) (old : Bits) (t : Thread),
    a = .advance k timeout → s.calls[k]? = some (.consuming i selected epoch old) →
      s.threads[i]? = some t → t.attached = true →
        (∀ c ∈ s.calls.eraseIdx k, c.waits = true → c.thread ≠ i) →
          (pendingSet s.config old &&& selected = 0 ∨ t.state = old) →
            ∀ n, t.state.Strands n → pendingSet s.config old &&& selected ≠ 0 ∧
              n = lowest (pendingSet s.config old &&& selected)

/-! ## The invariant -/

/-- A wait set is there only while a sigtimedwait is on its condition variable. -/
def Attended (s : System) : Prop :=
  ∀ i t, s.threads[i]? = some t → t.waiting = true ∨ t.waitMask ≠ 0 →
    ∃ selected expires epoch, .waiting i selected expires epoch ∈ s.calls

/-- A signal is pending and unblocked only while a sigtimedwait is in progress. -/
def Sheltered (s : System) : Prop :=
  ∀ i t n, s.threads[i]? = some t → t.attached = true → t.state.Strands n → s.Waits i

theorem mem_rest {k : Nat} {call c : Call} (hcall : s.calls[k]? = some call) (hc : c ∈ s.calls)
    (hne : c ≠ call) : c ∈ s.calls.eraseIdx k := by
  obtain ⟨j, hj⟩ := List.getElem?_of_mem hc
  refine List.mem_eraseIdx_iff_getElem?.2 ⟨j, fun hjk => hne ?_, hj⟩
  rw [hjk, hcall] at hj
  exact (Option.some.inj hj).symm

/-- A wait set is there only while a sigtimedwait is on its condition variable. -/
theorem advance_waiting {c : Config} {t' : Thread} {k : Nat} {call : Call} {l : List Event}
    {next : Option Call} (h : Advance c t call t' l next) (hcall : s.calls[k]? = some call)
    (hold : t.waiting = true ∨ t.waitMask ≠ 0 →
      ∃ selected expires epoch, .waiting call.thread selected expires epoch ∈ s.calls)
    (hw : t'.waiting = true ∨ t'.waitMask ≠ 0) : ∃ selected expires epoch,
      .waiting call.thread selected expires epoch ∈ next.toList ++ s.calls.eraseIdx k := by
  have hkeep : (∀ selected expires epoch, call ≠ .waiting call.thread selected expires epoch) →
      t.waiting = true ∨ t.waitMask ≠ 0 → ∃ selected expires epoch,
        .waiting call.thread selected expires epoch ∈ next.toList ++ s.calls.eraseIdx k := by
    intro hne hw
    obtain ⟨selected, expires, epoch, hmem⟩ := hold hw
    exact ⟨selected, expires, epoch, List.mem_append_right _ (mem_rest hcall hmem (hne _ _ _).symm)⟩
  cases h with
  | waitOn => exact ⟨_, _, _, List.mem_append_left _ (List.mem_singleton.2 rfl)⟩
  | enterWait => exact ⟨_, _, _, List.mem_append_left _ (List.mem_singleton.2 rfl)⟩
  | wake => simp at hw
  | _ => exact hkeep nofun hw

/-- A call that is no sigtimedwait leaves those in progress in progress. -/
theorem waits_rest {k : Nat} {call : Call} {next : Option Call} (hcall : s.calls[k]? = some call)
    (h : s.Waits i) (hne : call.waits = false ∨ call.thread ≠ i) :
    ∃ c ∈ next.toList ++ s.calls.eraseIdx k, c.waits = true ∧ c.thread = i := by
  obtain ⟨c, hc, hw, hi⟩ := h
  refine ⟨c, List.mem_append_right _ (mem_rest hcall hc fun heq => ?_), hw, hi⟩
  subst heq
  rcases hne with hne | hne
  · rw [hw] at hne
    cases hne
  · exact hne hi

/-- An action that is no step of a call leaves the words and the wait sets of the threads there are
as they are, and all calls in progress. -/
theorem Start.thread (hs : Start s s') {x : Thread} (hx : s'.threads[j]? = some x) :
    (x.state.pending = 0 ∧ x.waiting = false ∧ x.waitMask = 0 ∧ x.notify = false) ∨
      ∃ t, s.threads[j]? = some t ∧ x.state = t.state ∧ x.waiting = t.waiting ∧
        x.waitMask = t.waitMask ∧ (x.attached = true → t.attached = true) := by
  cases hs with
  | idle => exact .inr ⟨x, hx, rfl, rfl, rfl, id⟩
  | attach =>
    rcases Slots.of_getElem?_concat hx with ⟨_, rfl⟩ | hx
    · exact .inl ⟨rfl, rfl, rfl, rfl⟩
    · exact .inr ⟨x, hx, rfl, rfl, rfl, id⟩
  | @detach i t ht _ _ =>
    rcases Slots.of_getElem?_set hx with ⟨rfl, rfl⟩ | ⟨_, hx⟩
    · exact .inr ⟨t, ht, rfl, rfl, rfl, nofun⟩
    · exact .inr ⟨x, hx, rfl, rfl, rfl, id⟩
  | begin _ => exact .inr ⟨x, hx, rfl, rfl, rfl, id⟩
  | @bind i t ht _ =>
    rcases Slots.of_getElem?_set hx with ⟨rfl, rfl⟩ | ⟨_, hx⟩
    · exact .inr ⟨t, ht, rfl, rfl, rfl, id⟩
    · exact .inr ⟨x, hx, rfl, rfl, rfl, id⟩
  | @unbind i t ht =>
    rcases Slots.of_getElem?_set hx with ⟨rfl, rfl⟩ | ⟨_, hx⟩
    · exact .inr ⟨t, ht, rfl, rfl, rfl, id⟩
    · exact .inr ⟨x, hx, rfl, rfl, rfl, id⟩

theorem Start.calls (hs : Start s s') {c : Call} (hc : c ∈ s.calls) : c ∈ s'.calls := by
  cases hs with
  | begin _ | bind _ _ => exact List.mem_cons_of_mem _ hc
  | _ => exact hc

/-- The start of a call leaves no wait unattended. -/
theorem Attended.start (h : s.Attended) (hs : Start s s') : s'.Attended := by
  intro j x hx hw
  rcases hs.thread hx with ⟨_, hwaiting, hmask, _⟩ | ⟨t, ht, _, hwaiting, hmask, _⟩
  · simp [hwaiting, hmask] at hw
  · rw [hwaiting, hmask] at hw
    obtain ⟨selected, expires, epoch, hmem⟩ := h j t ht hw
    exact ⟨selected, expires, epoch, hs.calls hmem⟩

/-- A turn of a call leaves no wait unattended. -/
theorem Attended.advance (h : s.Attended) {k : Nat} {call : Call} {t' : Thread} {l : List Event}
    {next : Option Call} (hcall : s.calls[k]? = some call) (ht : s.threads[call.thread]? = some t)
    (ha : Advance s.config t call t' l next) :
    ({ s.put call.thread t' l with calls := next.toList ++ s.calls.eraseIdx k } : System).Attended := by
  intro j x hx hw
  rcases Slots.of_getElem?_set hx with ⟨rfl, rfl⟩ | ⟨hne, hx⟩
  · exact advance_waiting ha hcall (h _ t ht) hw
  · obtain ⟨selected, expires, epoch, hmem⟩ := h j x hx hw
    refine ⟨selected, expires, epoch, List.mem_append_right _ (mem_rest hcall hmem fun heq => ?_)⟩
    exact hne (congrArg Call.thread heq)

/-- Every step leaves no wait unattended. -/
theorem Attended.step (h : s.Attended) (hs : Step s s') : s'.Attended := by
  cases hs with
  | start hs => exact h.start hs
  | advance hcall ht ha => exact h.advance hcall ht ha

/-- In every reachable system a thread that waits has its call. -/
theorem attended (h : machine.Reachable s) : s.Attended := by
  refine h.inv (fun s hs => ?_) fun s s' hs hstep => ?_
  · obtain ⟨config, _, rfl⟩ := hs
    intro i t ht
    cases List.getElem?_nil.symm.trans ht
  · obtain ⟨a, rfl⟩ := hstep
    exact hs.step (perform_step s a)

/-- A wait set that is there for another call stays there for it. -/
theorem Attended.waits (h : s.Attended) {k : Nat} {call : Call} {next : Option Call}
    (hcall : s.calls[k]? = some call) (ht : s.threads[call.thread]? = some t)
    (hw : t.waiting = true ∨ t.waitMask ≠ 0)
    (hne : ∀ selected expires epoch, call ≠ .waiting call.thread selected expires epoch) :
    ∃ c ∈ next.toList ++ s.calls.eraseIdx k, c.waits = true ∧ c.thread = call.thread := by
  obtain ⟨selected, expires, epoch, hmem⟩ := h _ t ht hw
  exact ⟨_, List.mem_append_right _ (mem_rest hcall hmem (hne _ _ _).symm), rfl, rfl⟩

/-- The start of a call keeps everybody sheltered. -/
theorem Sheltered.start (h : s.Sheltered) (hs : Start s s') : s'.Sheltered := by
  intro j x n hx hatt hn
  rcases hs.thread hx with ⟨hpending, _⟩ | ⟨t, ht, hstate, _, _, hattached⟩
  · obtain ⟨_, _, hbit, _⟩ := hn
    rw [Bits.standard, hpending] at hbit
    simp at hbit
  · rw [hstate] at hn
    obtain ⟨c, hc, hw⟩ := h j t n ht (hattached hatt) hn
    exact ⟨c, hs.calls hc, hw⟩

/-- A step of a call keeps the invariant if it strands nothing when a sigtimedwait ends. -/
theorem Sheltered.advance (h : s.Sheltered) (hT : s.Tallied) (hA : s.Attended) {k : Nat} {timeout : Bool}
    (hends : s.EndsBlocked (.advance k timeout)) {call : Call} {t' : Thread} {l : List Event}
    {next : Option Call} (hcall : s.calls[k]? = some call) (ht : s.threads[call.thread]? = some t)
    (ha : Advance s.config t call t' l next) :
    ({ s.put call.thread t' l with calls := next.toList ++ s.calls.eraseIdx k } : System).Sheltered := by
  have hlawful := hT.lawful call (List.mem_of_getElem? hcall)
  have hother : ∀ {j}, s.Waits j → call.waits = false ∨ call.thread ≠ j →
      ({ s.put call.thread t' l with calls := next.toList ++ s.calls.eraseIdx k } : System).Waits j :=
    fun hw hne => waits_rest hcall hw hne
  intro j x n hx hatt hn
  rcases Slots.of_getElem?_set hx with ⟨rfl, rfl⟩ | ⟨hne, hx⟩
  · rw [ha.attached] at hatt
    cases hw : call.waits with
    | false =>
      rcases ha.strands hT.valid hlawful hn with hold | hmask
      · exact hother (h _ t n ht hatt hold) (.inl hw)
      · refine hA.waits hcall ht (.inr hmask) fun _ _ _ heq => ?_
        rw [heq] at hw
        cases hw
    | true =>
      rcases ha.waits hw with ⟨y, rfl, hy, hthread⟩ | rfl
      · exact ⟨y, List.mem_append_left _ (List.mem_singleton.2 rfl), hy, hthread⟩
      · by_contra hnone
        have hrest : ∀ c ∈ s.calls.eraseIdx k, c.waits = true → c.thread ≠ call.thread :=
          fun c hc hcw hct => hnone ⟨c, hc, hcw, hct⟩
        cases ha with
        | enterBusy hbusy => exact hnone (hA.waits hcall ht (.inl hbusy) nofun)
        | consumeNothing hzero =>
          have hall := hends k timeout _ _ _ _ t rfl hcall ht hatt hrest (.inl hzero) n hn
          exact hall.1 hzero
        | @consume i selected epoch hne =>
          have hend := @Advance.consume _ t i selected epoch hne
          have hstep := (hend.strands_end hT.valid n).1 hn
          exact hstep.2 (hends k timeout _ _ _ _ t rfl hcall ht hatt hrest (.inr rfl) n hstep.1)
        | _ => cases hw
  · exact hother (h j x n hx hatt hn) (.inr (Ne.symm hne))

/-- Who is sheltered has no stranded signal. -/
theorem Sheltered.unstranded (h : s.Sheltered) (hc : s.config.Valid) : s.Unstranded := by
  intro i t ht hatt hwaits
  have hnone : ∀ n, ¬ t.state.Strands n := fun n hn => hwaits (h i t n ht hatt hn)
  refine ⟨hnone, fun how requested mask n _ hpos hle hexposed => ?_⟩
  have hne : ¬ n - 1 + 1 = s.config.interruptNumber := by
    obtain h0 | ⟨h1, _⟩ := hc <;> omega
  rw [BitVec.getLsbD_and, getLsbD_pendingSet hc, decide_eq_false hne, Bool.and_false, Bool.or_false,
    Bool.and_eq_true] at hexposed
  cases hbit : t.state.mask.getLsbD (n - 1) with
  | true => rfl
  | false => exact absurd ⟨hpos, hle, hexposed.1, hbit⟩ (hnone n)

/-! ## Runs -/

/-- The queues after a list of actions. -/
def run (c : Config) (l : List Action) : System := l.foldl perform { config := c }

theorem run_concat (c : Config) (l : List Action) (a : Action) :
    run c (l ++ [a]) = perform (run c l) a := by
  rw [run, List.foldl_append]
  rfl

theorem reachable_run {c : Config} (hc : c.Valid) (l : List Action) : machine.Reachable (run c l) := by
  have hinit : machine.Reachable { config := c } := .init ⟨c, hc, rfl⟩
  have hstep : ∀ s a, machine.step s (System.perform s a) := fun _ a => ⟨a, rfl⟩
  exact hinit.foldl hstep l

/-- An action that ends no wait with a signal unblocked keeps everybody sheltered. -/
theorem Sheltered.perform (h : s.Sheltered) (hr : machine.Reachable s) {a : Action} (hends : s.EndsBlocked a) :
    (perform s a).Sheltered := by
  by_cases ha : ∃ k timeout, a = .advance k timeout
  · obtain ⟨k, timeout, rfl⟩ := ha
    rcases perform_call s k timeout with heq | ⟨call, t, t', l, next, hcall, ht, hadvance, heq⟩
    · rw [heq]
      exact h
    · rw [heq]
      exact h.advance (tallied hr) (attended hr) hends hcall ht hadvance
  · simp only [not_exists] at ha
    exact h.start (perform_start ha)

/-- A run that ends no wait with a signal unblocked keeps everybody sheltered. -/
theorem sheltered_run {c : Config} (hc : c.Valid) {l : List Action}
    (hends : ∀ p a, p ++ [a] <+: l → (run c p).EndsBlocked a) : (run c l).Sheltered := by
  induction l using List.reverseRecOn with
  | nil =>
    intro i t n ht
    cases List.getElem?_nil.symm.trans ht
  | append_singleton l a ih =>
    rw [run_concat]
    refine (ih fun p b hp => hends p b (hp.trans (List.prefix_append l [a]))).perform
      (reachable_run hc l) (hends l a (List.prefix_refl _))

/-- A sigtimedwait that ends with a signal pending and unblocked strands it. -/
theorem not_unstranded {a : Action} (hT : s.Tallied) (h : ¬ s.EndsBlocked a) :
    ¬ (perform s a).Unstranded := by
  unfold EndsBlocked at h
  push Not at h
  obtain ⟨k, timeout, i, selected, epoch, old, t, rfl, hcall, ht, hatt, hrest, hdone, n, hn, hne⟩ := h
  obtain ⟨t', l, next, ha, heq⟩ := perform_advance hcall ht timeout
  obtain rfl : next = none := by
    cases ha with
    | consumeNothing _ => rfl
    | consumeRetry hset hstale =>
      rcases hdone with hzero | hstate
      · exact absurd hzero hset
      · exact absurd hstate hstale
    | consume _ => rfl
  have hn' := (ha.strands_end hT.valid n).2 ⟨hn, fun hx => hne hx.1 hx.2⟩
  rw [heq]
  intro hun
  have hself : (s.threads.set i t')[i]? = some t' :=
    List.getElem?_set_self (List.getElem?_eq_some_iff.1 ht).1
  refine (hun i t' hself (ha.attached.trans hatt) ?_).1 n hn'
  rintro ⟨c, hc, hw, hci⟩
  exact hrest c hc hw hci

/-- In a run no standard signal of a thread without a sigtimedwait in progress is ever pending and
unblocked, nor a mask change refused for one, if and only if no sigtimedwait of it ends with one
pending and unblocked that it did not consume. -/
theorem standard_unstranded_iff {c : Config} (hc : c.Valid) (l : List Action) :
    (∀ p, p <+: l → (run c p).Unstranded) ↔
      ∀ p a, p ++ [a] <+: l → (run c p).EndsBlocked a := by
  constructor
  · intro h p a hp
    by_contra hends
    have hun := h (p ++ [a]) hp
    rw [run_concat] at hun
    exact not_unstranded (tallied (reachable_run hc p)) hends hun
  · intro h p hp
    refine (sheltered_run hc fun q a hq => h q a (hq.trans hp)).unstranded ?_
    exact (tallied (reachable_run hc p)).valid

/-- A thread waits for signals 10 and 12, which it does not block, and both are sent. The wait takes
the first. -/
def bothSent : List Action :=
  [.attach 100 0, .wait 0 0xa00 true false, .advance 0 false, .send 100 100 10, .advance 0 false,
    .send 100 100 12, .advance 0 false, .advance 0 false, .advance 0 false]

/-- The second is pending and unblocked, and blocking nothing is refused for it. -/
theorem bothSent_stranded : ¬ (∀ s, machine.Reachable s → s.Unstranded) ∧
    .refused 0 0x800 0 ∈ (run ⟨100, 34, 2⟩ (bothSent ++ [.mask 0 0 0, .advance 0 false])).history := by
  have hvalid : Config.Valid ⟨100, 34, 2⟩ := .inr ⟨by decide, by decide, by decide, by decide⟩
  refine ⟨fun h => ?_, by decide⟩
  have hcalls : (run ⟨100, 34, 2⟩ bothSent).calls = [] := by decide
  have hthread : (run ⟨100, 34, 2⟩ bothSent).threads[0]? =
      some { tid := 100, state := ⟨0, 0x800⟩ } := by decide
  refine (h _ (reachable_run hvalid bothSent) 0 _ hthread rfl ?_).1 12 (by unfold Bits.Strands; decide)
  rintro ⟨c, hc, _⟩
  rw [hcalls] at hc
  cases hc

/-- The wait ends while the second signal is pending and unblocked. -/
theorem standard_unstranded_iff_bothSent :
    ¬ ∀ p a, p ++ [a] <+: bothSent → (run ⟨100, 34, 2⟩ p).EndsBlocked a := by
  have hvalid : Config.Valid ⟨100, 34, 2⟩ := .inr ⟨by decide, by decide, by decide, by decide⟩
  intro h
  have hall := (standard_unstranded_iff hvalid bothSent).2 h bothSent (List.prefix_refl _)
  have hcalls : (run ⟨100, 34, 2⟩ bothSent).calls = [] := by decide
  have hthread : (run ⟨100, 34, 2⟩ bothSent).threads[0]? =
      some { tid := 100, state := ⟨0, 0x800⟩ } := by decide
  refine (hall 0 _ hthread rfl ?_).1 12 (by unfold Bits.Strands; decide)
  rintro ⟨c, hc, _⟩
  rw [hcalls] at hc
  cases hc

end System

end Artbox.Signals
