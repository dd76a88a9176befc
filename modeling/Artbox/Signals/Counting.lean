import Artbox.Signals.Steps

/-!
# Interruptions are conserved

Every accepted interruption is pending until it is taken or consumed, whatever the order of the
loads and exchanges of the calls: each exchange is made on the value it was computed from, and
what it computes moves the count by the one interruption it reports.
-/

namespace Artbox.Signals

/-! ## Reading the history -/

namespace Event

/-- The thread an event is about. -/
def thread : Event → Nat
  | accepted i _ | took i _ | consumed i _ | masked i _ _ | refused i _ _ | raised i | unblocked i
  | bound i | ended i | notified i => i

/-- The event queues signal `n` for thread `i`. -/
def accepts (i n : Nat) : Event → Bool
  | accepted j m => j == i && m == n
  | _ => false

/-- The event takes or consumes an interruption `n` of thread `i`. -/
def removes (i n : Nat) : Event → Bool
  | took j _ => j == i
  | consumed j m => j == i && m == n
  | _ => false

/-- A thread accepts only in its own events. -/
theorem accepts_of_ne {e : Event} {i n : Nat} (h : e.thread ≠ i) : e.accepts i n = false := by
  cases e <;> first | rfl | simp_all [thread, accepts]

/-- A thread removes only in its own events. -/
theorem removes_of_ne {e : Event} {i n : Nat} (h : e.thread ≠ i) : e.removes i n = false := by
  cases e <;> first | rfl | simp_all [thread, removes]

end Event

/-- How often signal `n` was queued for thread `i`. -/
def accepted (i n : Nat) (h : List Event) : Nat := h.countP (Event.accepts i n)

/-- How often `artbox_signals_take_interrupt` took an interruption of thread `i`. -/
def taken (i : Nat) (h : List Event) : Nat :=
  h.countP fun e => match e with | .took j _ => j == i | _ => false

/-- How often a sigtimedwait of thread `i` consumed signal `n`. -/
def consumed (i n : Nat) (h : List Event) : Nat :=
  h.countP fun e => match e with | .consumed j m => j == i && m == n | _ => false

/-- What was removed was taken or consumed. -/
theorem taken_add_consumed (i n : Nat) (h : List Event) :
    taken i h + consumed i n h = h.countP (Event.removes i n) := by
  induction h with
  | nil => rfl
  | cons e h ih =>
    rw [taken, consumed, List.countP_cons, List.countP_cons, List.countP_cons, ← ih, taken, consumed]
    cases e <;> simp only [Event.removes] <;> grind

/-! ## One step of one thread -/

section Thread

-- the lemmas of the packed word stand for the two halves
attribute [local irreducible] Bits.count Bits.standard

namespace Thread

/-- What holds of every thread's packed word. -/
structure Sane (c : Config) (t : Thread) : Prop where
  mask : t.state.mask &&& unmaskable = 0
  standard : ∀ j, 31 ≤ j → t.state.standard.getLsbD j = false
  capacity : t.state.count ≤ c.interruptCapacity
  off : c.interruptNumber = 0 → t.state.count = 0

end Thread

/-- What a call in progress carries. -/
def Lawful (c : Config) : Call → Prop
  | .sending _ n _ => System.Sendable c n
  | .changing _ _ requested _ => requested &&& unmaskable = 0
  | _ => True

/-- Every call that begins is lawful. -/
theorem System.Begins.lawful {c : Config} {call : Call} (h : System.Begins c call) :
    Lawful c call := by
  cases call <;> first | exact h | trivial

/-- A change of the words is told as a raise or as an unblocking. -/
theorem stirs_quiet {c : Config} {i : Nat} {old b : Bits} {e : Event}
    (h : e ∈ System.stirs c i old b) : e = .raised i ∨ e = .unblocked i := by
  rw [System.stirs, List.mem_append] at h
  rcases h with h | h <;> split at h <;> simp_all

theorem countP_stirs {c : Config} {i : Nat} {old b : Bits} {p : Event → Bool}
    (hr : p (.raised i) = false) (hu : p (.unblocked i) = false) :
    (System.stirs c i old b).countP p = 0 := by
  rw [List.countP_eq_zero]
  intro e he
  rcases stirs_quiet he with rfl | rfl
  · simp [hr]
  · simp [hu]

/-- No requested mask blocks SIGKILL or SIGSTOP. -/
theorem requestedMask_unmaskable {how : Nat} {m requested mask : BitVec 64}
    (h : System.requestedMask how m requested = some mask) (hm : m &&& unmaskable = 0)
    (hr : requested &&& unmaskable = 0) : mask &&& unmaskable = 0 := by
  have hbit : ∀ {x : BitVec 64}, x &&& unmaskable = 0 → ∀ i,
      (x.getLsbD i && unmaskable.getLsbD i) = false := by
    intro x hx i
    have h := congrArg (·.getLsbD i) hx
    simpa [BitVec.getLsbD_and] using h
  refine BitVec.eq_of_getLsbD_eq fun i hi => ?_
  have h1 := hbit hm i
  have h2 := hbit hr i
  rw [BitVec.getLsbD_and]
  unfold System.requestedMask at h
  split at h <;> cases h
  · rw [BitVec.getLsbD_or]
    cases hu : unmaskable.getLsbD i <;> simp_all
  · rw [BitVec.getLsbD_and]
    cases hu : unmaskable.getLsbD i <;> simp_all
  · simp [h2]

/-- What a step of a call keeps of its thread, and how it counts. -/
structure Counts (c : Config) (i : Nat) (t t' : Thread) (l : List Event) : Prop where
  sane : t'.Sane c
  thread : ∀ e ∈ l, e.thread = i
  conserved : l.countP (Event.accepts i c.interruptNumber) + t.state.count =
    l.countP (Event.removes i c.interruptNumber) + t'.state.count
  /-- Standard signals and interruptions do not touch each other. -/
  apart : t'.state.standard = t.state.standard ∨ t'.state.count = t.state.count

/-- The thread with another word. -/
theorem Thread.Sane.put {c : Config} {t : Thread} {b : Bits} (hm : b.mask &&& unmaskable = 0)
    (hs : ∀ j, 31 ≤ j → b.standard.getLsbD j = false) (hc : b.count ≤ c.interruptCapacity)
    (ho : c.interruptNumber = 0 → b.count = 0) : Sane c { t with state := b } := ⟨hm, hs, hc, ho⟩

theorem Counts.same {c : Config} {i : Nat} {t t' : Thread} {l : List Event} (h : t.Sane c)
    (hs : t'.state = t.state) (ht : ∀ e ∈ l, e.thread = i)
    (ha : l.countP (Event.accepts i c.interruptNumber) = 0)
    (hr : l.countP (Event.removes i c.interruptNumber) = 0) : Counts c i t t' l where
  sane := ⟨hs ▸ h.mask, hs ▸ h.standard, hs ▸ h.capacity, hs ▸ h.off⟩
  thread := ht
  conserved := by rw [ha, hr, hs]
  apart := .inl (by rw [hs])

/-- What a change of the words is told as, and the event behind it, are of the thread. -/
theorem thread_stirs {c : Config} {i : Nat} {old b : Bits} {e : Event} (he : e.thread = i) :
    ∀ x ∈ System.stirs c i old b ++ [e], x.thread = i := by
  intro x hx
  rcases List.mem_append.1 hx with hx | hx
  · rcases stirs_quiet hx with rfl | rfl <;> rfl
  · rw [List.mem_singleton.1 hx]
    exact he

/-- A standard signal becomes pending without touching the count. -/
theorem Counts.standard {c : Config} {t : Thread} {i n : Nat} (ht : t.Sane c) (hpos : 0 < n) (hle : n ≤ 31)
    (hn : n ≠ c.interruptNumber) :
    Counts c i t { t with state := { t.state with pending := t.state.pending ||| bitOf n } }
      (System.stirs c i t.state { t.state with pending := t.state.pending ||| bitOf n } ++ [.accepted i n]) := by
  have hcount := count_or (b := t.state) (m := t.state.mask) hpos (by omega : n ≤ 32)
  refine ⟨.put ht.mask (fun j hj => ?_) (Nat.le_trans (Nat.le_of_eq hcount) ht.capacity)
    (fun h0 => hcount.trans (ht.off h0)), ?_, ?_, .inr hcount⟩
  · rw [getLsbD_standard_or hpos (by omega)]
    have hne : ¬ j + 1 = n := by omega
    rw [decide_eq_false hne, Bool.or_false]
    exact ht.standard j hj
  · exact thread_stirs rfl
  · rw [List.countP_append, List.countP_append, countP_stirs rfl rfl, countP_stirs rfl rfl]
    have hacc : Event.accepts i c.interruptNumber (.accepted i n) = false := by
      simp [Event.accepts, hn]
    simp only [List.countP_cons, List.countP_nil, hacc, Event.removes,
      Bool.false_eq_true, if_false]
    rw [hcount]

/-- An interruption below the capacity is counted. -/
theorem Counts.interrupt {c : Config} {t : Thread} {i : Nat} (hc : c.Valid) (ht : t.Sane c)
    (hcap : t.state.count < c.interruptCapacity) (hne : c.interruptNumber ≠ 0) :
    Counts c i t { t with state := { t.state with pending := t.state.pending + interruptUnit } }
      (System.stirs c i t.state { t.state with pending := t.state.pending + interruptUnit } ++
        [.accepted i c.interruptNumber]) := by
  have hlt : t.state.count < 2 ^ 32 - 1 := by
    obtain h0 | ⟨_, _, _, hle⟩ := hc
    · have := ht.off h0
      omega
    · omega
  have hcount := count_add (m := t.state.mask) hlt
  have hstd := standard_add (b := t.state) (m := t.state.mask)
  refine ⟨.put ht.mask (fun j hj => ?_) (Nat.le_trans (Nat.le_of_eq hcount) hcap) (fun h0 => ?_), ?_, ?_, .inl hstd⟩
  · rw [hstd]
    exact ht.standard j hj
  · exact absurd h0 hne
  · exact thread_stirs rfl
  · rw [List.countP_append, List.countP_append, countP_stirs rfl rfl, countP_stirs rfl rfl]
    have hacc : Event.accepts i c.interruptNumber (.accepted i c.interruptNumber) = true := by
      simp [Event.accepts]
    simp only [List.countP_cons, List.countP_nil, hacc, Event.removes, if_true,
      Bool.false_eq_true, if_false]
    rw [hcount]
    omega

/-- A pending signal is consumed: one interruption, or a standard signal. -/
theorem Counts.consumed {c : Config} {t : Thread} {i n : Nat} (hc : c.Valid) (ht : t.Sane c) (hpos : 0 < n)
    (hle : n ≤ 64) (hbit : (pendingSet c t.state).getLsbD (n - 1) = true) :
    Counts c i t { t with state := { t.state with
        pending := if n = c.interruptNumber then t.state.pending - interruptUnit else t.state.pending &&& ~~~bitOf n } }
      [.ended i, .consumed i n] := by
  rw [getLsbD_pendingSet hc] at hbit
  have hthread : ∀ e ∈ ([.ended i, .consumed i n] : List Event), e.thread = i := by
    simp [Event.thread]
  have hacc : ([.ended i, .consumed i n] : List Event).countP
      (Event.accepts i c.interruptNumber) = 0 := rfl
  by_cases hn : n = c.interruptNumber
  · -- the interruption: its bit is no standard one
    have hcount : t.state.count ≠ 0 := by
      have h31 : 31 ≤ n - 1 := by
        obtain h0 | ⟨h1, _⟩ := hc <;> omega
      rw [ht.standard _ h31] at hbit
      simp at hbit
      exact hbit.1
    have hsub := count_sub (m := t.state.mask) hcount
    have hstd := standard_sub (b := t.state) (m := t.state.mask)
    rw [if_pos hn]
    refine ⟨.put ht.mask (fun j hj => ?_)
      (Nat.le_trans (Nat.le_of_succ_le (Nat.le_of_eq hsub)) ht.capacity)
      (fun h0 => absurd (ht.off h0) hcount), hthread, ?_, .inl hstd⟩
    · rw [hstd]
      exact ht.standard j hj
    · have hrem : ([.ended i, .consumed i n] : List Event).countP
          (Event.removes i c.interruptNumber) = 1 := by
        simp [Event.removes, hn]
      rw [hacc, hrem]
      dsimp only
      omega
  · -- a standard signal
    have hle' : n ≤ 31 := by
      by_contra hgt
      rw [ht.standard (n - 1) (by omega)] at hbit
      have hone : n - 1 + 1 = n := by omega
      simp [hone, hn] at hbit
    have hcount := count_clear (b := t.state) (m := t.state.mask) hpos (by omega : n ≤ 32)
    rw [if_neg hn]
    refine ⟨.put ht.mask (fun j hj => ?_) (Nat.le_trans (Nat.le_of_eq hcount) ht.capacity)
      (fun h0 => hcount.trans (ht.off h0)), hthread, ?_, .inr hcount⟩
    · rw [getLsbD_standard_clear hpos hle]
      rw [ht.standard j hj, Bool.false_and]
    · have hrem : ([.ended i, .consumed i n] : List Event).countP
          (Event.removes i c.interruptNumber) = 0 := by
        simp [Event.removes, hn]
      rw [hacc, hrem, hcount]

/-- A turn of a call accepts and removes what it changes in the count. -/
theorem Advance.counts {c : Config} {t t' : Thread} {call : Call} {l : List Event}
    {next : Option Call} (h : Advance c t call t' l next) (hc : c.Valid) (hl : Lawful c call)
    (ht : t.Sane c) : Counts c call.thread t t' l := by
  -- a step that leaves the signals as they are
  have hquiet : ∀ {i : Nat} {t' : Thread}, t'.state = t.state → Counts c i t t' [] :=
    fun hs => .same ht hs nofun rfl rfl
  cases h with
  | sendRefused | sendRetry | changeUnknown | changeRetry | takeNothing | takeRetry | taken
  | enterBlocked | enterBusy | enterWait | enterConsume | waitOn | wake | consumeRetry
  | boundQuiet => exact hquiet rfl
  | sent | changed | changeRefused | consumeNothing | bound =>
    exact .same ht rfl (by simp [Event.thread, Call.thread]) rfl rfl
  | sendStandard hn =>
    obtain ⟨hpos, hle⟩ | ⟨heq, _⟩ := hl
    · exact .standard ht hpos hle hn
    · exact absurd heq hn
  | sendInterrupt hcap =>
    obtain ⟨hpos, hlt⟩ | ⟨_, hne⟩ := hl
    · exact .interrupt hc ht hcap fun h0 => absurd (h0 ▸ hpos) (Nat.lt_irrefl 0)
    · exact .interrupt hc ht hcap hne
  | @change i how requested mask _ hmask _ =>
    have hcount := count_mask (b := t.state) (m := mask)
    have hstd := standard_mask (b := t.state) (m := mask)
    refine ⟨.put (requestedMask_unmaskable hmask ht.mask hl) (fun j hj => ?_)
      (Nat.le_trans (Nat.le_of_eq hcount) ht.capacity) (fun h0 => hcount.trans (ht.off h0)), ?_, ?_, .inl hstd⟩
    · rw [hstd]
      exact ht.standard j hj
    · exact thread_stirs rfl
    · rw [List.countP_append, List.countP_append, countP_stirs rfl rfl, countP_stirs rfl rfl]
      simp only [List.countP_cons, List.countP_nil, Event.accepts, Event.removes,
        Bool.false_eq_true, if_false]
      rw [hcount]
  | @take i action hcount _ =>
    have hsub := count_sub (m := t.state.mask ||| ((action ||| c.interruptBit) &&& ~~~unmaskable)) hcount
    have hstd := standard_sub (b := t.state)
      (m := t.state.mask ||| ((action ||| c.interruptBit) &&& ~~~unmaskable))
    have hmask := @requestedMask_unmaskable 0 _ _ _ rfl ht.mask
      (System.and_not_unmaskable (action ||| c.interruptBit))
    refine ⟨.put hmask (fun j hj => ?_)
      (Nat.le_trans (Nat.le_of_succ_le (Nat.le_of_eq hsub)) ht.capacity)
      (fun h0 => absurd (ht.off h0) hcount), by simp [Event.thread, Call.thread], ?_, .inl hstd⟩
    · rw [hstd]
      exact ht.standard j hj
    · have hacc : ([.took i t.state.mask] : List Event).countP (Event.accepts i c.interruptNumber) = 0 :=
        rfl
      have hrem : ([.took i t.state.mask] : List Event).countP (Event.removes i c.interruptNumber) = 1 := by
        simp [Event.removes]
      rw [Call.thread, hacc, hrem]
      dsimp only
      omega
  | consume hne =>
    obtain ⟨hpos, hle, hbit, _⟩ := lowest_spec hne
    rw [BitVec.getLsbD_and, Bool.and_eq_true] at hbit
    exact .consumed hc ht hpos hle hbit.1

end Thread

/-- A lawful call goes on as a lawful call. -/
theorem Advance.lawful {c : Config} {t t' : Thread} {call : Call} {l : List Event}
    {next : Option Call} (h : Advance c t call t' l next) (hl : Lawful c call) :
    ∀ x ∈ next.toList, Lawful c x := by
  have hone : ∀ {x : Call}, Lawful c x → ∀ y ∈ (some x).toList, Lawful c y := by
    intro x hx y hy
    rw [Option.toList_some, List.mem_singleton] at hy
    exact hy ▸ hx
  cases h with
  | sendRetry | changeRetry => exact hone hl
  | sendInterrupt _ hn =>
    obtain rfl | ⟨rfl, _⟩ := hn
    · exact hone trivial
    · exact nofun
  | change _ hn =>
    obtain ⟨_, rfl⟩ | ⟨_, _, rfl⟩ := hn
    · exact nofun
    · exact hone trivial
  | takeRetry | take | enterBlocked | enterWait | enterConsume | waitOn | wake | consumeRetry =>
    exact hone trivial
  | _ => exact nofun

/-! ## The whole system -/

namespace System

variable {s s' : System} {i : Nat} {t t' : Thread} {l : List Event}

/-- The invariant: every word is sane, and the accepted interruptions are those that were removed
and those that are pending. -/
structure Tallied (s : System) : Prop where
  valid : s.config.Valid
  lawful : ∀ call ∈ s.calls, Lawful s.config call
  sane : ∀ t ∈ s.threads, t.Sane s.config
  known : ∀ e ∈ s.history, e.thread < s.threads.length
  conserved : ∀ i, s.history.countP (Event.accepts i s.config.interruptNumber) =
    s.history.countP (Event.removes i s.config.interruptNumber) +
      (s.threads[i]?.map (·.state.count)).getD 0

/-- Writing one thread keeps the tally if its own count agrees. -/
theorem Tallied.put (h : s.Tallied) (ht : s.threads[i]? = some t) (hc : Counts s.config i t t' l)
    {calls : List Call} (hcalls : ∀ call ∈ calls, Lawful s.config call) :
    ({ s.put i t' l with calls } : System).Tallied := by
  obtain ⟨hlt, -⟩ := List.getElem?_eq_some_iff.1 ht
  refine ⟨h.valid, hcalls, fun x hx => ?_, fun e he => ?_, fun j => ?_⟩
  · rcases List.mem_or_eq_of_mem_set hx with hx | rfl
    · exact h.sane x hx
    · exact hc.sane
  · show e.thread < (s.threads.set i t').length
    rw [List.length_set]
    rcases List.mem_append.1 he with he | he
    · rw [hc.thread e he]
      exact hlt
    · exact h.known e he
  · have hj := h.conserved j
    show (l ++ s.history).countP (Event.accepts j s.config.interruptNumber) =
      (l ++ s.history).countP (Event.removes j s.config.interruptNumber) +
        (((s.threads.set i t')[j]?).map (·.state.count)).getD 0
    rw [List.countP_append, List.countP_append, hj]
    by_cases hij : i = j
    · subst hij
      have hstep := hc.conserved
      rw [ht, List.getElem?_set_self hlt]
      simp only [Option.map_some, Option.getD_some]
      omega
    · -- the step is about another thread
      have hne : ∀ e ∈ l, e.thread ≠ j := fun e he heq => hij ((hc.thread e he).symm.trans heq)
      have ha : l.countP (Event.accepts j s.config.interruptNumber) = 0 :=
        List.countP_eq_zero.2 fun e he => by simp [Event.accepts_of_ne (hne e he)]
      have hr : l.countP (Event.removes j s.config.interruptNumber) = 0 :=
        List.countP_eq_zero.2 fun e he => by simp [Event.removes_of_ne (hne e he)]
      rw [ha, hr, List.getElem?_set_ne hij]
      omega

/-- The start of a call keeps the tally. -/
theorem Tallied.start (h : s.Tallied) (hs : Start s s') : s'.Tallied := by
  have hsane : ∀ {i : Nat} {t : Thread}, s.threads[i]? = some t → t.Sane s.config := fun ht =>
    h.sane _ (List.mem_of_getElem? ht)
  cases hs with
  | idle => exact h
  | @attach tid mask =>
    have hfresh : Thread.Sane s.config { tid, state := ⟨mask &&& ~~~unmaskable, 0⟩ } :=
      .put (t := { tid, state := ⟨mask &&& ~~~unmaskable, 0⟩ }) (and_not_unmaskable mask)
        (fun j _ => by rw [standard_zero]; exact BitVec.getLsbD_zero) (by rw [count_zero]; exact Nat.zero_le _)
        (fun _ => count_zero)
    refine ⟨h.valid, h.lawful, fun x hx => ?_, fun e he => ?_, fun i => ?_⟩
    · rcases List.mem_append.1 hx with hx | hx
      · exact h.sane x hx
      · rw [List.mem_singleton.1 hx]
        exact hfresh
    · show e.thread < (s.threads ++ _).length
      rw [List.length_append]
      exact Nat.lt_add_right _ (h.known e he)
    · have hi := h.conserved i
      show _ = _ + (((s.threads ++ _)[i]?).map _).getD 0
      rcases Nat.lt_trichotomy i s.threads.length with hlt | rfl | hgt
      · rw [List.getElem?_append_left hlt]
        exact hi
      · rw [List.getElem?_eq_none (Nat.le_refl _)] at hi
        rw [List.getElem?_concat_length, hi]
        simp only [Option.map_none, Option.map_some, Option.getD_none, Option.getD_some, count_zero]
      · rw [List.getElem?_eq_none (by omega)] at hi
        rw [List.getElem?_eq_none (by simp; omega)]
        exact hi
  | @detach i t ht _ _ =>
    have hc : Counts s.config i t { t with attached := false } [] :=
      .same (hsane ht) rfl (fun _ he => absurd he List.not_mem_nil) rfl rfl
    exact h.put ht hc h.lawful
  | begin hb =>
    refine ⟨h.valid, fun call hcall => ?_, h.sane, h.known, h.conserved⟩
    rcases List.mem_cons.1 hcall with rfl | hcall
    · exact hb.lawful
    · exact h.lawful call hcall
  | @bind i t ht _ =>
    have hc : Counts s.config i t { t with notify := true } [.bound i] :=
      .same (hsane ht) rfl (by simp [Event.thread]) rfl rfl
    refine h.put ht hc fun call hcall => ?_
    rcases List.mem_cons.1 hcall with rfl | hcall
    · trivial
    · exact h.lawful call hcall
  | @unbind i t ht =>
    have hc : Counts s.config i t { t with notify := false } [] :=
      .same (hsane ht) rfl (fun _ he => absurd he List.not_mem_nil) rfl rfl
    exact h.put ht hc h.lawful

/-- Every step keeps the tally. -/
theorem Tallied.step (h : s.Tallied) (hs : Step s s') : s'.Tallied := by
  cases hs with
  | start hs => exact h.start hs
  | @advance k call t t' l next hcall ht ha =>
    have hl := h.lawful call (List.mem_of_getElem? hcall)
    refine h.put ht (ha.counts h.valid hl (h.sane t (List.mem_of_getElem? ht))) fun c hc => ?_
    rcases List.mem_append.1 hc with hc | hc
    · exact ha.lawful hl c hc
    · exact h.lawful c (List.mem_of_mem_eraseIdx hc)

/-- The tally holds in every reachable system. -/
theorem tallied (h : machine.Reachable s) : s.Tallied := by
  refine h.inv (fun s hs => ?_) fun s s' hs hstep => ?_
  · obtain ⟨config, hvalid, rfl⟩ := hs
    exact ⟨hvalid, nofun, nofun, nofun, fun _ => rfl⟩
  · obtain ⟨a, rfl⟩ := hstep
    exact hs.step (perform_step s a)

/-! ## Conservation -/

/-- A step changes the standard signals of a thread or its count, never both. -/
theorem Tallied.apart (h : s.Tallied) (hs : Step s s') (ht : s.threads[i]? = some t)
    (ht' : s'.threads[i]? = some t') :
    t'.state.standard = t.state.standard ∨ t'.state.count = t.state.count := by
  have hput : ∀ {j : Nat} {x x' : Thread}, s.threads[j]? = some x →
      (x'.state.standard = x.state.standard ∨ x'.state.count = x.state.count) →
      (s.threads.set j x')[i]? = some t' →
      t'.state.standard = t.state.standard ∨ t'.state.count = t.state.count := by
    intro j x x' hx hdone hset
    by_cases hij : j = i
    · subst hij
      obtain rfl := Option.some.inj (hx.symm.trans ht)
      rw [List.getElem?_set_self (List.getElem?_eq_some_iff.1 ht).1] at hset
      exact Option.some.inj hset ▸ hdone
    · rw [List.getElem?_set_ne hij, ht] at hset
      exact .inl (Option.some.inj hset ▸ rfl)
  cases hs with
  | start hs =>
    cases hs with
    | idle =>
      obtain rfl := Option.some.inj (ht.symm.trans ht')
      exact .inl rfl
    | attach =>
      rw [List.getElem?_append_left (List.getElem?_eq_some_iff.1 ht).1, ht] at ht'
      exact .inl (Option.some.inj ht' ▸ rfl)
    | begin _ =>
      obtain rfl := Option.some.inj (ht.symm.trans ht')
      exact .inl rfl
    | @detach j x hx _ _ => exact @hput j x { x with attached := false } hx (.inl rfl) ht'
    | @bind j x hx _ => exact @hput j x { x with notify := true } hx (.inl rfl) ht'
    | @unbind j x hx => exact @hput j x { x with notify := false } hx (.inl rfl) ht'
  | @advance k call x x' l next hcall hx ha =>
    have hl := h.lawful call (List.mem_of_getElem? hcall)
    exact hput hx (ha.counts h.valid hl (h.sane _ (List.mem_of_getElem? hx))).apart ht'

/-- Taking an interruption blocks it, as it is maskable. -/
theorem and_taken {c : Config} (hc : c.Valid) (m action : BitVec 64) :
    (m ||| ((action ||| c.interruptBit) &&& ~~~unmaskable)) &&& c.interruptBit = c.interruptBit := by
  refine BitVec.eq_of_getLsbD_eq fun j _ => ?_
  rw [BitVec.getLsbD_and, BitVec.getLsbD_or, BitVec.getLsbD_and, BitVec.getLsbD_or, BitVec.getLsbD_not,
    getLsbD_interruptBit hc]
  by_cases hj : j + 1 = c.interruptNumber
  · have hu : unmaskable.getLsbD j = false := by
      obtain h0 | ⟨h32, h64, _⟩ := hc
      · omega
      · have hall : ∀ j < 64, 31 ≤ j → unmaskable.getLsbD j = false := by decide
        exact hall j (by omega) (by omega)
    have hlt : j < 64 := by
      obtain h0 | ⟨_, h64, _⟩ := hc <;> omega
    rw [decide_eq_true hj, hu]
    simp [hlt]
  · simp [hj]

/-- What a step of a call that takes an interruption does. -/
theorem take_step (hc : s.config.Valid) {k : Nat} {action : BitVec 64} {old : Bits}
    (hcall : s.calls[k]? = some (.taking i action old)) (ht : s.threads[i]? = some t)
    (timeout : Bool) :
    ((perform s (.advance k timeout)).threads = s.threads ∧
        (perform s (.advance k timeout)).history = s.history) ∨
      (t.state.count ≠ 0 ∧ t.state.mask &&& s.config.interruptBit = 0 ∧
        (perform s (.advance k timeout)).history = .took i t.state.mask :: s.history ∧
          (perform s (.advance k timeout)).threads = s.threads.set i { t with state :=
            ⟨t.state.mask ||| ((action ||| s.config.interruptBit) &&& ~~~unmaskable),
              t.state.pending - interruptUnit⟩ } ∧
            (t.state.mask ||| ((action ||| s.config.interruptBit) &&& ~~~unmaskable)) &&&
              s.config.interruptBit = s.config.interruptBit) := by
  obtain ⟨t', l, next, ha, heq⟩ := perform_advance hcall ht timeout
  rw [heq]
  obtain ⟨hlt, hget⟩ := List.getElem?_eq_some_iff.1 ht
  have hself : s.threads.set i t = s.threads := by
    rw [← hget]
    exact List.set_getElem_self hlt
  cases ha with
  | takeNothing => exact .inl ⟨hself, rfl⟩
  | takeRetry _ => exact .inl ⟨hself, rfl⟩
  | take hcount hmask =>
    exact .inr ⟨hcount, hmask, rfl, rfl, and_taken hc t.state.mask action⟩

/-- In every run the accepted interruptions of a thread are those that were taken, those that a
sigtimedwait consumed and those that are pending; the count stays within its capacity and apart
from the standard signals; no mask blocks SIGKILL or SIGSTOP; and what is taken was not blocked
and is blocked afterwards, with the mask of the action. -/
theorem interruptions_conserved (h : machine.Reachable s) :
    (∀ (i : Nat) (t : Thread), s.threads[i]? = some t →
      accepted i s.config.interruptNumber s.history =
          taken i s.history + consumed i s.config.interruptNumber s.history + t.state.count ∧
        t.state.count ≤ s.config.interruptCapacity ∧ t.state.mask &&& unmaskable = 0) ∧
    (∀ (a : Action) (i : Nat) (t t' : Thread), s.threads[i]? = some t → (perform s a).threads[i]? = some t' →
      t'.state.standard = t.state.standard ∨ t'.state.count = t.state.count) ∧
    (∀ (k i n : Nat) (old : Bits) (t t' : Thread) (timeout : Bool),
      s.calls[k]? = some (.sending i n old) → s.threads[i]? = some t →
      (perform s (.advance k timeout)).threads[i]? = some t' →
        (n = s.config.interruptNumber → t'.state.standard = t.state.standard) ∧
          (n ≠ s.config.interruptNumber → t'.state.count = t.state.count)) ∧
    (∀ (k i : Nat) (action : BitVec 64) (old : Bits) (t : Thread) (timeout : Bool),
      s.calls[k]? = some (.taking i action old) → s.threads[i]? = some t →
      ((perform s (.advance k timeout)).threads = s.threads ∧
          (perform s (.advance k timeout)).history = s.history) ∨
        (t.state.count ≠ 0 ∧ t.state.mask &&& s.config.interruptBit = 0 ∧
          (perform s (.advance k timeout)).history = .took i t.state.mask :: s.history ∧
            (perform s (.advance k timeout)).threads = s.threads.set i { t with state :=
              ⟨t.state.mask ||| ((action ||| s.config.interruptBit) &&& ~~~unmaskable),
                t.state.pending - interruptUnit⟩ } ∧
              (t.state.mask ||| ((action ||| s.config.interruptBit) &&& ~~~unmaskable)) &&&
                s.config.interruptBit = s.config.interruptBit)) := by
  have hi := tallied h
  refine ⟨fun i t ht => ?_, fun a i t t' ht ht' => hi.apart (perform_step s a) ht ht',
    fun k i n old t t' timeout hcall ht ht' => ?_,
    fun k i action old t timeout hcall ht => take_step hi.valid hcall ht timeout⟩
  · have hsane := hi.sane t (List.mem_of_getElem? ht)
    have hcons := hi.conserved i
    rw [ht] at hcons
    rw [accepted, taken_add_consumed]
    exact ⟨hcons, hsane.capacity, hsane.mask⟩
  · obtain ⟨x, l, next, ha, heq⟩ := perform_advance hcall ht timeout
    have hx : t' = x := by
      rw [heq] at ht'
      have hset : (s.threads.set i x)[i]? = some t' := ht'
      rw [List.getElem?_set_self (List.getElem?_eq_some_iff.1 ht).1] at hset
      exact (Option.some.inj hset).symm
    subst hx
    have hl := hi.lawful _ (List.mem_of_getElem? hcall)
    cases ha with
    | sendRefused => exact ⟨fun _ => rfl, fun _ => rfl⟩
    | sendRetry _ => exact ⟨fun _ => rfl, fun _ => rfl⟩
    | sendStandard hn _ =>
      refine ⟨fun h => absurd h hn, fun _ => ?_⟩
      obtain ⟨hpos, hle⟩ | ⟨heq, _⟩ := hl
      · exact count_or hpos (by omega)
      · exact absurd heq hn
    | sendInterrupt _ _ => exact ⟨fun _ => standard_add, fun h => absurd rfl h⟩

/-- A thread with a callback, two interruptions sent to it and one of them taken. -/
def takenOnce : System :=
  [.attach 100 0, .bind 0 true, .advance 0 false, .send 100 100 34, .advance 0 false, .advance 0 false,
    .send 100 100 34, .advance 0 false, .advance 0 false, .take 0 0, .advance 0 false].foldl perform
    { config := ⟨100, 34, 2⟩ }

/-- Two interruptions are accepted, one is taken and one is left. -/
theorem interruptions_conserved_takenOnce :
    taken 0 takenOnce.history = 1 ∧ consumed 0 34 takenOnce.history = 0 ∧
      accepted 0 34 takenOnce.history = 1 + 0 + 1 := by
  have hstep : ∀ s a, machine.step s (perform s a) := fun _ a => ⟨a, rfl⟩
  have hinit : machine.Reachable { config := ⟨100, 34, 2⟩ } :=
    .init ⟨_, .inr ⟨by decide, by decide, by decide, by decide⟩, rfl⟩
  have hreach : machine.Reachable takenOnce := hinit.foldl hstep _
  have htaken : taken 0 takenOnce.history = 1 := by decide
  have hconsumed : consumed 0 34 takenOnce.history = 0 := by decide
  have hthread : takenOnce.threads[0]?.map (fun t => t.state.count) = some 1 := by decide
  obtain ⟨t, ht, hcount⟩ := Option.map_eq_some_iff.1 hthread
  have hall := ((interruptions_conserved hreach).1 0 t ht).1
  have hnumber : takenOnce.config.interruptNumber = 34 := by decide
  rw [hnumber, htaken, hconsumed, hcount] at hall
  exact ⟨htaken, hconsumed, hall⟩

end System

end Artbox.Signals
