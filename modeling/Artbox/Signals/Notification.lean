import Artbox.Signals.Stranding

/-!
# Notifications of interruptions

The callback of a thread is called by `send`, `change_mask` and `artbox_signals_bind_interrupt`
where they find an interruption that the thread does not block. `send` leaves it out while a
sigtimedwait selects the interruption, and sigtimedwait itself never calls it. A run loses a
notification exactly if a sigtimedwait of it ends with an interruption pending and not blocked.
-/

namespace Artbox.Signals

/-- After such an event an interruption that is there must be notified again. -/
def Event.disturbs (i : Nat) : Event → Bool
  | .raised j | .unblocked j | .bound j | .ended j => j == i
  | _ => false

/-- The callback of thread `i` was called after the last event that disturbs. -/
def Notified (i : Nat) (h : List Event) : Prop :=
  .notified i ∈ h.takeWhile fun e => !e.disturbs i

/-- An interruption is there and not blocked. -/
def Bits.Exposes (c : Config) (b : Bits) : Prop := b.count ≠ 0 ∧ b.mask &&& c.interruptBit = 0

/-- The thread has a callback, and an interruption that it does not block. -/
def Thread.Due (c : Config) (t : Thread) : Prop := t.notify = true ∧ t.state.Exposes c

/-- A notification lasts until the thread is disturbed. -/
theorem Notified.append {i : Nat} {l h : List Event} (hn : Notified i h)
    (hl : ∀ e ∈ l, e.disturbs i = false) : Notified i (l ++ h) := by
  unfold Notified at hn ⊢
  rw [List.takeWhile_append_of_pos fun e he => by simp [hl e he]]
  exact List.mem_append_right _ hn

theorem notified_cons (i : Nat) (h : List Event) : Notified i (.notified i :: h) := by
  unfold Notified
  rw [List.takeWhile_cons_of_pos (by rfl)]
  exact List.mem_cons_self

theorem not_notified_ended (i : Nat) (h : List Event) : ¬ Notified i (.ended i :: h) := by
  unfold Notified
  rw [List.takeWhile_cons_of_neg (by simp [Event.disturbs])]
  exact List.not_mem_nil

theorem disturbs_of_ne {e : Event} {i : Nat} (h : e.thread ≠ i) : e.disturbs i = false := by
  cases e <;> simp_all [Event.disturbs, Event.thread]

theorem Call.notifies_of_waits {c : Call} (h : c.waits = true) : c.notifies = false := by
  cases c <;> first | rfl | cases h

section Thread

attribute [local irreducible] Bits.count Bits.standard

/-- What the last step of a sigtimedwait leaves of the thread. -/
theorem Advance.ends {c : Config} {t t' : Thread} {i : Nat} {selected : BitVec 64} {epoch : Nat}
    {old : Bits} {l : List Event} (h : Advance c t (.consuming i selected epoch old) t' l none)
    (hc : c.Valid) (hl : Lawful c (.consuming i selected epoch old)) (ht : t.Sane c) :
    t'.notify = t.notify ∧ t'.state.mask = t.state.mask ∧ (∃ rest, l = .ended i :: rest) ∧
      t.state.count = t'.state.count + if pendingSet c old &&& selected ≠ 0 ∧
        System.lowest (pendingSet c old &&& selected) = c.interruptNumber then 1 else 0 := by
  have hcounts := (h.counts hc hl ht).conserved
  cases h with
  | consumeNothing hzero =>
    refine ⟨rfl, rfl, ⟨[], rfl⟩, ?_⟩
    rw [if_neg fun hx => hx.1 hzero]
    rfl
  | @consume _ _ _ hne =>
    refine ⟨rfl, rfl, ⟨_, rfl⟩, ?_⟩
    rw [Call.thread] at hcounts
    have hacc : ([.ended i, .consumed i (System.lowest (pendingSet c t.state &&& selected))] :
        List Event).countP (Event.accepts i c.interruptNumber) = 0 := rfl
    rw [hacc, Nat.zero_add, Nat.add_comm] at hcounts
    refine hcounts.trans (congrArg (_ + ·) ?_)
    by_cases hn : System.lowest (pendingSet c t.state &&& selected) = c.interruptNumber
    · rw [if_pos ⟨hne, hn⟩]
      simp [Event.removes, hn]
    · rw [if_neg fun hx => hn hx.2]
      simp [Event.removes, hn]

/-- A standard signal exposes nothing that was not exposed. -/
theorem exposes_or {c : Config} {b : Bits} {n : Nat} (hn : 0 < n) (hle : n ≤ 32)
    (h : Bits.Exposes c ⟨b.mask, b.pending ||| bitOf n⟩) : b.Exposes c :=
  ⟨fun h0 => h.1 ((count_or hn hle).trans h0), h.2⟩

/-- An interruption is exposed only where it is not blocked. -/
theorem exposes_add {c : Config} {b : Bits} (h : Bits.Exposes c ⟨b.mask, b.pending + interruptUnit⟩) :
    b.mask &&& c.interruptBit = 0 := h.2

/-- A new mask exposes an interruption only where one is pending. -/
theorem exposes_mask {c : Config} {b : Bits} {m : BitVec 64} (h : Bits.Exposes c ⟨m, b.pending⟩) :
    b.count ≠ 0 := fun h0 => h.1 (count_mask.trans h0)

/-- A standard signal notifies nobody of an interruption. -/
theorem stirs_or {c : Config} {i : Nat} {b : Bits} {n : Nat} (hn : 0 < n) (hle : n ≤ 32) :
    System.stirs c i b ⟨b.mask, b.pending ||| bitOf n⟩ = [] := by
  unfold System.stirs
  rw [count_or hn hle, if_neg fun h => h.2 h.1, if_neg fun h => h.1 h.2]
  rfl

/-- A mask that does not block an interruption exposes it. -/
theorem pendingSet_of_exposes {c : Config} (hc : c.Valid) {b : Bits} {m : BitVec 64}
    (hne : c.interruptNumber ≠ 0) (h : Bits.Exposes c ⟨m, b.pending⟩) :
    pendingSet c ⟨m, b.pending⟩ &&& ~~~m ≠ 0 := by
  obtain ⟨hsome, hmask⟩ := h
  have hlt : c.interruptNumber - 1 < 64 := by
    obtain h0 | ⟨_, h64, _⟩ := hc <;> omega
  have hone : c.interruptNumber - 1 + 1 = c.interruptNumber := by omega
  have hclear : m.getLsbD (c.interruptNumber - 1) = false :=
    ((and_interruptBit hc).1 hmask).resolve_left hne
  have hset : (pendingSet c ⟨m, b.pending⟩ &&& ~~~m).getLsbD (c.interruptNumber - 1) = true := by
    rw [BitVec.getLsbD_and, BitVec.getLsbD_not, getLsbD_pendingSet hc, hclear, hone,
      decide_eq_true hsome]
    simp [hlt]
  intro hzero
  rw [hzero] at hset
  simp at hset

/-- The mask of a handler that was entered blocks the interrupt. -/
theorem not_exposes_taken {c : Config} (hc : c.Valid) {b : Bits} {action : BitVec 64}
    (hne : c.interruptNumber ≠ 0) : ¬ Bits.Exposes c
      ⟨b.mask ||| ((action ||| c.interruptBit) &&& ~~~unmaskable), b.pending - interruptUnit⟩ := by
  rintro ⟨_, hmask⟩
  rw [System.and_taken hc] at hmask
  exact interruptBit_ne_zero hc hne hmask

/-- A step leaves the thread notified if it is due, unless it ends a sigtimedwait or there is one. -/
theorem Advance.tells {c : Config} {t t' : Thread} {call : Call} {l h : List Event}
    {next : Option Call} (ha : Advance c t call t' l next) (hc : c.Valid) (hl : Lawful c call)
    (ht : t.Sane c) (hwait : call.waits = true → next ≠ none)
    (hold : t.Due c → Notified call.thread h ∨ call.notifies = true) (hdue : t'.Due c) :
    Notified call.thread (l ++ h) ∨ (∃ x, next = some x ∧ x.notifies = true ∧ x.thread = call.thread) ∨
      t.waitMask ≠ 0 := by
  -- the thread was due before, and the step does not disturb
  have hkeep : t.Due c → call.notifies = false → (∀ e ∈ l, e.disturbs call.thread = false) →
      Notified call.thread (l ++ h) := by
    intro hd hcall hquiet
    rcases hold hd with hn | hn
    · exact hn.append hquiet
    · rw [hcall] at hn
      cases hn
  have hnumber : t.state.count ≠ 0 → c.interruptNumber ≠ 0 := fun hcount h0 => hcount (ht.off h0)
  cases ha with
  | sendRefused | sendRetry | changeUnknown | changeRetry | takeNothing | takeRetry
  | enterBlocked | enterConsume | waitOn | consumeRetry => exact .inl (hkeep hdue rfl nofun)
  | changeRefused _ => exact .inl (hkeep hdue rfl (by simp [Event.disturbs]))
  | taken | enterWait | wake => exact .inl (hkeep hdue rfl nofun)
  | sent | changed | bound => exact .inl (notified_cons _ _)
  | boundQuiet hquiet => exact absurd hdue.2 hquiet
  | enterBusy | consumeNothing | consume => exact absurd rfl (hwait rfl)
  | @sendStandard i n hn _ =>
    obtain ⟨hpos, hle⟩ | ⟨heq, _⟩ := hl
    · have hd : t.Due c := ⟨hdue.1, exposes_or hpos (by omega) hdue.2⟩
      refine .inl (hkeep hd rfl ?_)
      rw [stirs_or hpos (by omega)]
      simp [Event.disturbs]
    · exact absurd heq hn
  | @sendInterrupt i _ _ hnext =>
    obtain rfl | ⟨rfl, hquiet⟩ := hnext
    · exact .inr (.inl ⟨_, rfl, rfl, rfl⟩)
    · have h0 : c.interruptNumber ≠ 0 := by
        obtain ⟨hpos, _⟩ | ⟨_, hne⟩ := hl
        · omega
        · exact hne
      have hmask := exposes_add hdue.2
      rw [Config.interruptBit, if_neg h0] at hmask
      -- a sigtimedwait waits for it
      refine .inr (.inr fun hzero => hquiet ⟨hmask, ?_, hdue.1⟩)
      rw [hzero]
      exact BitVec.zero_and
  | @change i how requested mask _ _ hexposed =>
    obtain ⟨hzero, rfl⟩ | ⟨_, _, rfl⟩ := hexposed
    · have hsome := exposes_mask hdue.2
      exact absurd hzero (pendingSet_of_exposes hc (hnumber hsome) hdue.2)
    · exact .inr (.inl ⟨_, rfl, rfl, rfl⟩)
  | @take i action hcount _ => exact absurd hdue.2 (not_exposes_taken hc (hnumber hcount))

end Thread

namespace System

variable {s s' : System} {i j : Nat} {t : Thread}

/-- A call of thread `i` will look whether the callback must be called, or call it. -/
def Notifies (s : System) (i : Nat) : Prop := ∃ c ∈ s.calls, c.notifies = true ∧ c.thread = i

/-- The callback of a thread that is due and has no sigtimedwait in progress was called after the last
event that disturbs, or is about to be. -/
def Told (s : System) : Prop :=
  ∀ (i : Nat) (t : Thread), s.threads[i]? = some t → t.Due s.config → ¬ s.Waits i →
    Notified i s.history ∨ s.Notifies i

/-- If the action is the last step of a sigtimedwait of a thread with a callback, and no other of the
thread is in progress, then it leaves no interruption that is not blocked, or a call that will notify
is in progress. -/
def EndsTold (s : System) (a : Action) : Prop :=
  ∀ (k : Nat) (timeout : Bool) (i : Nat) (selected : BitVec 64) (epoch : Nat) (old : Bits) (t : Thread),
    a = .advance k timeout → s.calls[k]? = some (.consuming i selected epoch old) →
      s.threads[i]? = some t → t.notify = true →
        (∀ c ∈ s.calls.eraseIdx k, c.waits = true → c.thread ≠ i) →
          (pendingSet s.config old &&& selected = 0 ∨ t.state = old) →
            t.state.mask &&& s.config.interruptBit = 0 → ¬ s.Notifies i →
              t.state.count = if pendingSet s.config old &&& selected ≠ 0 ∧
                lowest (pendingSet s.config old &&& selected) = s.config.interruptNumber then 1 else 0

/-- The start of a call keeps everybody told. -/
theorem Told.start (h : s.Told) (hs : Start s s') : s'.Told := by
  intro i x hx hdue hwaits
  have hold : ∀ {t : Thread}, s.threads[i]? = some t → t.Due s.config →
      Notified i s.history ∨ ∃ c ∈ s'.calls, c.notifies = true ∧ c.thread = i := by
    intro t ht hd
    have hnone : ¬ s.Waits i := fun ⟨c, hc, hw⟩ => hwaits ⟨c, hs.calls hc, hw⟩
    refine (h i t ht hd hnone).imp_right ?_
    rintro ⟨c, hc, hn⟩
    exact ⟨c, hs.calls hc, hn⟩
  cases hs with
  | idle => exact hold hx hdue
  | attach =>
    rcases Slots.of_getElem?_concat hx with ⟨_, rfl⟩ | hx
    · cases hdue.1
    · exact hold hx hdue
  | @detach j t ht hquiet _ =>
    rcases Slots.of_getElem?_set hx with ⟨rfl, rfl⟩ | ⟨_, hx⟩
    · have hn : t.notify = true := hdue.1
      rw [hquiet] at hn
      cases hn
    · exact hold hx hdue
  | begin _ => exact hold hx hdue
  | @bind j t ht _ =>
    rcases Slots.of_getElem?_set hx with ⟨rfl, rfl⟩ | ⟨hne, hx⟩
    · exact .inr ⟨.binding i, List.mem_cons_self, rfl, rfl⟩
    · refine (hold hx hdue).imp_left fun hn => ?_
      have hquiet : ∀ e ∈ ([.bound j] : List Event), e.disturbs i = false := by
        intro e he
        rw [List.mem_singleton.1 he]
        exact disturbs_of_ne (Ne.symm hne)
      exact hn.append hquiet
  | @unbind j t ht =>
    rcases Slots.of_getElem?_set hx with ⟨rfl, rfl⟩ | ⟨_, hx⟩
    · cases hdue.1
    · exact hold hx hdue

/-- The last step of a sigtimedwait of its thread. -/
theorem EndsTold.quiet {k : Nat} {timeout : Bool} (hends : s.EndsTold (.advance k timeout))
    (hT : s.Tallied) {call : Call} {t' : Thread} {l : List Event} (hcall : s.calls[k]? = some call)
    (ht : s.threads[call.thread]? = some t) (ha : Advance s.config t call t' l none)
    (hw : call.waits = true) (hbusy : t.waiting = false)
    (hrest : ∀ c ∈ s.calls.eraseIdx k, c.waits = true → c.thread ≠ call.thread)
    (hnotifies : ¬ s.Notifies call.thread) : ¬ t'.Due s.config := by
  rintro ⟨hnotify, hsome, hmask⟩
  have hlawful := hT.lawful call (List.mem_of_getElem? hcall)
  have hsane := hT.sane t (List.mem_of_getElem? ht)
  have hdone : ∀ {i selected epoch old}, call = .consuming i selected epoch old →
      (pendingSet s.config old &&& selected = 0 ∨ t.state = old) → False := by
    rintro i selected epoch old rfl hstate
    obtain ⟨hnotify', hmask', _, hcount⟩ := ha.ends hT.valid hlawful hsane
    rw [hnotify'] at hnotify
    rw [hmask'] at hmask
    have hzero := hends k timeout i selected epoch old t rfl hcall ht hnotify hrest hstate hmask hnotifies
    omega
  cases ha with
  | enterBusy hwaiting =>
    rw [hbusy] at hwaiting
    cases hwaiting
  | consumeNothing hzero => exact hdone rfl (.inl hzero)
  | consume _ => exact hdone rfl (.inr rfl)
  | _ => cases hw

/-- A turn of a call keeps everybody told, unless a wait ends with an interruption exposed. -/
theorem Told.advance (h : s.Told) (hT : s.Tallied) (hA : s.Attended) {k : Nat} {timeout : Bool}
    (hends : s.EndsTold (.advance k timeout)) {call : Call} {t' : Thread} {l : List Event}
    {next : Option Call} (hcall : s.calls[k]? = some call) (ht : s.threads[call.thread]? = some t)
    (ha : Advance s.config t call t' l next) :
    ({ s.put call.thread t' l with calls := next.toList ++ s.calls.eraseIdx k } : System).Told := by
  have hlawful := hT.lawful call (List.mem_of_getElem? hcall)
  have hsane := hT.sane t (List.mem_of_getElem? ht)
  intro j x hx hdue hwaits
  have hkeep : ∀ c ∈ s.calls, c.notifies = true ∧ c.thread = j → c ≠ call →
      ∃ c ∈ next.toList ++ s.calls.eraseIdx k, c.notifies = true ∧ c.thread = j := fun c hc hn hne =>
    ⟨c, List.mem_append_right _ (mem_rest hcall hc hne), hn⟩
  rcases Slots.of_getElem?_set hx with ⟨rfl, rfl⟩ | ⟨hne, hx⟩
  · by_cases hrest : ∃ c ∈ s.calls, (c.notifies = true ∧ c.thread = call.thread) ∧ c ≠ call
    · obtain ⟨c, hc, hn, hne⟩ := hrest
      exact .inr (hkeep c hc hn hne)
    · cases hw : call.waits with
      | true =>
        -- the sigtimedwait is over
        have hnone : next = none := (ha.waits hw).resolve_left fun ⟨y, hy, hyw⟩ =>
          hwaits ⟨y, List.mem_append_left _ (by rw [hy]; exact List.mem_singleton.2 rfl), hyw⟩
        subst hnone
        have hothers : ∀ c ∈ s.calls.eraseIdx k, c.waits = true → c.thread ≠ call.thread :=
          fun c hc hcw hct => hwaits ⟨c, hc, hcw, hct⟩
        have hbusy : t.waiting = false := by
          cases hwaiting : t.waiting with
          | false => rfl
          | true =>
            refine absurd (@Attended.waits _ _ hA _ _ none hcall ht (.inl hwaiting) ?_) hwaits
            rintro selected expires epoch heq
            rw [heq] at ha
            cases ha
        refine absurd hdue (hends.quiet hT hcall ht ha hw hbusy hothers ?_)
        rintro ⟨c, hc, hn⟩
        refine hrest ⟨c, hc, hn, fun heq => ?_⟩
        rw [heq, Call.notifies_of_waits hw] at hn
        cases hn.1
      | false =>
        have hold : t.Due s.config → Notified call.thread s.history ∨ call.notifies = true := by
          intro hd
          have hnone : ¬ s.Waits call.thread := fun hsw =>
            hwaits (waits_rest hcall hsw (.inl hw))
          refine (h _ t ht hd hnone).imp_right ?_
          rintro ⟨c, hc, hn⟩
          by_contra hcall'
          refine hrest ⟨c, hc, hn, fun heq => hcall' ?_⟩
          rw [← heq]
          exact hn.1
        have hnext : call.waits = true → next ≠ none := fun h => by rw [hw] at h; cases h
        rcases ha.tells hT.valid hlawful hsane hnext hold hdue with hn | ⟨y, rfl, hn⟩ | hmask
        · exact .inl hn
        · exact .inr ⟨y, List.mem_append_left _ (List.mem_singleton.2 rfl), hn⟩
        · refine absurd (hA.waits hcall ht (.inr hmask) ?_) hwaits
          rintro selected expires epoch heq
          rw [heq] at hw
          cases hw
  · have hnone : ¬ s.Waits j := fun hsw => hwaits (waits_rest hcall hsw (.inr (Ne.symm hne)))
    have hquiet : ∀ e ∈ l, e.disturbs j = false := fun e he =>
      disturbs_of_ne (by rw [(ha.counts hT.valid hlawful hsane).thread e he]; exact Ne.symm hne)
    rcases h j x hx hdue hnone with hn | ⟨c, hc, hn⟩
    · exact .inl (hn.append hquiet)
    · exact .inr (hkeep c hc hn fun heq => hne (by rw [← hn.2, heq]))

/-- An action that ends no such wait keeps everybody told. -/
theorem Told.perform (h : s.Told) (hr : machine.Reachable s) {a : Action} (hends : s.EndsTold a) :
    (perform s a).Told := by
  by_cases ha : ∃ k timeout, a = .advance k timeout
  · obtain ⟨k, timeout, rfl⟩ := ha
    rcases perform_call s k timeout with heq | ⟨call, t, t', l, next, hcall, ht, hadvance, heq⟩
    · rw [heq]
      exact h
    · rw [heq]
      exact h.advance (tallied hr) (attended hr) hends hcall ht hadvance
  · simp only [not_exists] at ha
    exact h.start (perform_start ha)

/-- A run of such actions leaves everybody told. -/
theorem told_run {c : Config} (hc : c.Valid) {l : List Action}
    (hends : ∀ p a, p ++ [a] <+: l → (run c p).EndsTold a) : (run c l).Told := by
  induction l using List.reverseRecOn with
  | nil =>
    intro i t ht
    cases List.getElem?_nil.symm.trans ht
  | append_singleton l a ih =>
    rw [run_concat]
    refine (ih fun p b hp => hends p b (hp.trans (List.prefix_append l [a]))).perform
      (reachable_run hc l) (hends l a (List.prefix_refl _))

/-- A sigtimedwait that ends with an interruption pending and not blocked does not notify. -/
theorem not_told {a : Action} (hT : s.Tallied) (h : ¬ s.EndsTold a) : ¬ (perform s a).Told := by
  unfold EndsTold at h
  push Not at h
  obtain ⟨k, timeout, i, selected, epoch, old, t, rfl, hcall, ht, hnotify, hrest, hdone, hmask,
    hnotifies, hcount⟩ := h
  obtain ⟨t', l, next, ha, heq⟩ := perform_advance hcall ht timeout
  have hlawful := hT.lawful _ (List.mem_of_getElem? hcall)
  have hsane := hT.sane t (List.mem_of_getElem? ht)
  obtain rfl : next = none := by
    cases ha with
    | consumeNothing _ => rfl
    | consumeRetry hset hstale =>
      rcases hdone with hzero | hstate
      · exact absurd hzero hset
      · exact absurd hstate hstale
    | consume _ => rfl
  obtain ⟨hnotify', hmask', ⟨rest, rfl⟩, hcount'⟩ := ha.ends hT.valid hlawful hsane
  rw [heq]
  intro htold
  have hself : (s.threads.set i t')[i]? = some t' :=
    List.getElem?_set_self (List.getElem?_eq_some_iff.1 ht).1
  have hdue : t'.Due s.config := by
    refine ⟨hnotify'.trans hnotify, fun h0 => hcount ?_, ?_⟩
    · rw [hcount', h0, Nat.zero_add]
    · rw [hmask']
      exact hmask
  have hwaits : ¬ ∃ c ∈ s.calls.eraseIdx k, c.waits = true ∧ c.thread = i := by
    rintro ⟨c, hc, hw, hci⟩
    exact hrest c hc hw hci
  rcases htold i t' hself hdue hwaits with hn | ⟨c, hc, hn⟩
  · exact not_notified_ended i _ hn
  · exact hnotifies ⟨c, List.mem_of_mem_eraseIdx hc, hn⟩

/-- In a run no notification of an interruption is lost if and only if no sigtimedwait of it ends with
an interruption pending and not blocked on a thread with a callback. -/
theorem notified_iff {c : Config} (hc : c.Valid) (l : List Action) :
    (∀ p, p <+: l → (run c p).Told) ↔ ∀ p a, p ++ [a] <+: l → (run c p).EndsTold a := by
  constructor
  · intro h p a hp
    by_contra hends
    have htold := h (p ++ [a]) hp
    rw [run_concat] at htold
    exact not_told (tallied (reachable_run hc p)) hends htold
  · intro h p hp
    exact told_run hc fun q a hq => h q a (hq.trans hp)

/-- A thread with a callback waits for signals 10 and 34, and both are sent. The wait takes the
first. -/
def interrupted : List Action :=
  [.attach 100 0, .bind 0 true, .advance 0 false, .wait 0 0x200000200 true false, .advance 0 false,
    .send 100 100 34, .advance 0 false, .send 100 100 10, .advance 0 false, .advance 0 false,
    .advance 0 false]

/-- The interruption is left, and was never notified. -/
theorem interrupted_untold : ¬ (∀ s, machine.Reachable s → s.Told) ∧
    .notified 0 ∉ (run ⟨100, 34, 2⟩ interrupted).history := by
  have hvalid : Config.Valid ⟨100, 34, 2⟩ := .inr ⟨by decide, by decide, by decide, by decide⟩
  refine ⟨fun h => ?_, by decide⟩
  have hcalls : (run ⟨100, 34, 2⟩ interrupted).calls = [] := by decide
  have hthread : (run ⟨100, 34, 2⟩ interrupted).threads[0]? =
      some { tid := 100, state := ⟨0, 0x100000000⟩, notify := true } := by decide
  have hnone : ∀ c, c ∉ (run ⟨100, 34, 2⟩ interrupted).calls := by
    intro c hc
    rw [hcalls] at hc
    cases hc
  have htold := h _ (reachable_run hvalid interrupted) 0 _ hthread ⟨rfl, by decide, by decide⟩
    fun ⟨c, hc, _⟩ => hnone c hc
  rcases htold with hn | ⟨c, hc, _⟩
  · unfold Notified at hn
    revert hn
    decide
  · exact hnone c hc

/-- The interrupted wait ends with an interruption exposed. -/
theorem notified_iff_interrupted :
    ¬ ∀ p a, p ++ [a] <+: interrupted → (run ⟨100, 34, 2⟩ p).EndsTold a := by
  have hvalid : Config.Valid ⟨100, 34, 2⟩ := .inr ⟨by decide, by decide, by decide, by decide⟩
  intro h
  have hall := (notified_iff hvalid interrupted).2 h interrupted (List.prefix_refl _)
  have hcalls : (run ⟨100, 34, 2⟩ interrupted).calls = [] := by decide
  have hthread : (run ⟨100, 34, 2⟩ interrupted).threads[0]? =
      some { tid := 100, state := ⟨0, 0x100000000⟩, notify := true } := by decide
  have hnone : ∀ c, c ∉ (run ⟨100, 34, 2⟩ interrupted).calls := by
    intro c hc
    rw [hcalls] at hc
    cases hc
  rcases hall 0 _ hthread ⟨rfl, by decide, by decide⟩ fun ⟨c, hc, _⟩ => hnone c hc with hn | ⟨c, hc, _⟩
  · unfold Notified at hn
    revert hn
    decide
  · exact hnone c hc

end System

end Artbox.Signals
