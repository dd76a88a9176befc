import Artbox.Vfs.Steps
import Mathlib.Data.List.Nodup

/-!
# No wakeup is lost

A call that blocks puts its waiter into the hub, makes a wake object, publishes it, looks again and
only then sleeps. `Vigilant` says what this order is for: whatever has been notified since its last
look began has signalled it, and if nothing has been, what it looked at is as it was.
-/

namespace Artbox.Vfs

open Artbox.Vfs.System (attempt Attempt)

/-- What happened since the last look of a call began. -/
def since (id : Nat) (h : List Event) : List Event := h.takeWhile fun e => e != .checking id

/-- Events without a new look are all since the last one. -/
theorem since_append {id : Nat} {l h : List Event} (hl : .checking id ∉ l) :
    since id (l ++ h) = l ++ since id h := by
  unfold since
  refine List.takeWhile_append_of_pos fun e he => ?_
  rw [bne_iff_ne]
  rintro rfl
  exact hl he

/-- A new look starts afresh. -/
theorem since_checking (id : Nat) (h : List Event) : since id (.checking id :: h) = [] := by
  unfold since
  rw [List.takeWhile_cons_of_neg (by simp)]

/-- The call has looked and not gone on to publish a waiter. -/
def Phase.looked : Phase → Bool
  | .scanning _ _ _ | .checked | .waiting => true
  | _ => false

/-- The call found nothing. -/
def Phase.blocked : Phase → Bool
  | .checked | .waiting => true
  | _ => false

/-- The call has a waiter nobody can signal. -/
def Phase.attaching : Phase → Bool
  | .registered | .created => true
  | _ => false

/-- Nobody who looks at the events of `l` sees a difference for the call. -/
def Harmless (id : Nat) (l : List Event) : Prop :=
  .checking id ∉ l ∧ .changed ∉ l ∧ .published id ∉ l

/-- Harmless to every call. -/
def Event.calm : Event → Bool
  | .checking _ | .changed | .published _ => false
  | _ => true

/-- The invariant of a call. -/
structure Vigilant (es : List Eventfd) (ws : List Waiter) (h : List Event) (c : Call) : Prop where
  owned : c.phase.attaching = false → ∀ w ∈ ws, w.call = c.id → w.owner = true ∧ .published c.id ∈ h
  began : c.phase.looked = true → .checking c.id ∈ h ∧ .published c.id ∉ since c.id h ∧
    ∀ w ∈ ws, w.call = c.id → .changed ∈ since c.id h →
      .signalled c.id ∈ since c.id h ∧ w.latch = true
  found : c.phase.blocked = true → .checked c.id ∈ since c.id h
  attached : c.phase = .waiting → ∃ w ∈ ws, w.call = c.id
  idle : c.phase.blocked = true → .changed ∉ since c.id h → ∀ e writing value,
    c.op = .transfer e writing value → ∃ event, es[e]? = some event ∧ attempt event writing value = .block

section Vigilant

variable {es es' : List Eventfd} {ws : List Waiter} {h : List Event} {c : Call}

/-- A vigilant call stays so when harmless events are noted. -/
theorem Vigilant.record (hv : Vigilant es ws h c) {l : List Event} (hl : Harmless c.id l) :
    Vigilant es ws (l ++ h) c := by
  obtain ⟨hchecking, hchanged, hpublished⟩ := hl
  have hsince := since_append (h := h) hchecking
  refine ⟨fun hp w hw hid => ?_, fun hp => ?_, fun hp => ?_, hv.attached, fun hp hno => ?_⟩
  · obtain ⟨howner, hmem⟩ := hv.owned hp w hw hid
    exact ⟨howner, List.mem_append_right l hmem⟩
  · obtain ⟨hmem, hnot, hall⟩ := hv.began hp
    rw [hsince]
    refine ⟨List.mem_append_right l hmem, fun hx => ?_, fun w hw hid hx => ?_⟩
    · rcases List.mem_append.1 hx with hx | hx
      · exact hpublished hx
      · exact hnot hx
    · obtain ⟨hsig, hlatch⟩ := hall w hw hid ((List.mem_append.1 hx).resolve_left hchanged)
      exact ⟨List.mem_append_right l hsig, hlatch⟩
  · rw [hsince]
    exact List.mem_append_right l (hv.found hp)
  · rw [hsince] at hno
    exact hv.idle hp fun hx => hno (List.mem_append_right l hx)

/-- A notification signals every waiter that is published, whatever changed. -/
theorem Vigilant.notify (hv : Vigilant es ws h c) (signal : Nat → Int) : Vigilant es'
    (ws.map (System.Waiter.notify signal))
    (((ws.filter (·.owner)).map fun w => Event.signalled w.call) ++ .changed :: h) c := by
  have hquiet : ∀ e, e ∈ ((ws.filter (·.owner)).map fun w => Event.signalled w.call) →
      ∃ w ∈ ws, w.owner = true ∧ e = .signalled w.call := by
    intro e he
    obtain ⟨w, hw, rfl⟩ := List.mem_map.1 he
    exact ⟨w, (List.mem_filter.1 hw).1, (List.mem_filter.1 hw).2, rfl⟩
  generalize hl : ((ws.filter (·.owner)).map fun w => Event.signalled w.call) = l at hquiet
  have hcall : ∀ w ∈ ws.map (System.Waiter.notify signal), ∃ w' ∈ ws, w'.call = w.call ∧
      w.owner = w'.owner ∧ (w'.owner = true → w.latch = true) := by
    intro w hw
    obtain ⟨w', hw', rfl⟩ := List.mem_map.1 hw
    refine ⟨w', hw', ?_⟩
    unfold System.Waiter.notify
    split
    next howner => exact ⟨rfl, rfl, fun _ => rfl⟩
    next howner => exact ⟨rfl, rfl, fun ht => absurd ht howner⟩
  -- nobody looks while it is told, so that all of this comes after the call's last look
  have hchecking : Event.checking c.id ∉ l ++ [.changed] := by
    intro hx
    rcases List.mem_append.1 hx with hx | hx
    · obtain ⟨w, _, _, heq⟩ := hquiet _ hx
      cases heq
    · cases List.mem_singleton.1 hx
  have hsince : since c.id (l ++ .changed :: h) = l ++ .changed :: since c.id h := by
    have := since_append (h := h) hchecking
    rwa [List.append_assoc, List.append_assoc] at this
  have hmem : ∀ {e : Event}, e ∈ h → e ∈ l ++ .changed :: h := fun he =>
    List.mem_append_right _ (List.mem_cons_of_mem _ he)
  refine ⟨fun hp w hw hid => ?_, fun hp => ?_, fun hp => ?_, fun hp => ?_, fun hp hno => ?_⟩
  · obtain ⟨w', hw', hcall', howner, _⟩ := hcall w hw
    obtain ⟨ht, hpub⟩ := hv.owned hp w' hw' (hcall'.trans hid)
    exact ⟨howner.trans ht, hmem hpub⟩
  · obtain ⟨hin, hnot, _⟩ := hv.began hp
    rw [hsince]
    refine ⟨hmem hin, fun hx => ?_, fun w hw hid _ => ?_⟩
    · rcases List.mem_append.1 hx with hx | hx
      · obtain ⟨w, _, _, heq⟩ := hquiet _ hx
        cases heq
      · rcases List.mem_cons.1 hx with hx | hx
        · cases hx
        · exact hnot hx
    · -- its waiter is published
      obtain ⟨w', hw', hcall', _, hlatch⟩ := hcall w hw
      have hpublic : c.phase.attaching = false := by
        cases hphase : c.phase <;> rw [hphase] at hp <;> first | rfl | cases hp
      obtain ⟨ht, _⟩ := hv.owned hpublic w' hw' (hcall'.trans hid)
      refine ⟨List.mem_append_left _ ?_, hlatch ht⟩
      rw [← hl]
      refine List.mem_map.2 ⟨w', List.mem_filter.2 ⟨hw', ht⟩, ?_⟩
      rw [hcall', hid]
  · rw [hsince]
    exact List.mem_append_right _ (List.mem_cons_of_mem _ (hv.found hp))
  · obtain ⟨w, hw, hid⟩ := hv.attached hp
    refine ⟨_, List.mem_map_of_mem hw, ?_⟩
    unfold System.Waiter.notify
    split <;> exact hid
  · rw [hsince] at hno
    exact absurd (List.mem_append_right _ List.mem_cons_self) hno

/-- Another waiter comes, goes or changes. -/
theorem Vigilant.waiters (hv : Vigilant es ws h c) {ws' : List Waiter}
    (hws : ∀ w, w.call = c.id → (w ∈ ws' ↔ w ∈ ws)) : Vigilant es ws' h c := by
  refine ⟨fun hp w hw hid => hv.owned hp w ((hws w hid).1 hw) hid, fun hp => ?_, hv.found, fun hp => ?_,
    hv.idle⟩
  · obtain ⟨hin, hnot, hall⟩ := hv.began hp
    exact ⟨hin, hnot, fun w hw hid => hall w ((hws w hid).1 hw) hid⟩
  · obtain ⟨w, hw, hid⟩ := hv.attached hp
    exact ⟨w, (hws w hid).2 hw, hid⟩

/-- Another eventfd is opened. -/
theorem Vigilant.opened (hv : Vigilant es ws h c) (event : Eventfd) :
    Vigilant (es ++ [event]) ws h c := by
  refine ⟨hv.owned, hv.began, hv.found, hv.attached, fun hp hno e writing value hop => ?_⟩
  obtain ⟨x, hx, hattempt⟩ := hv.idle hp hno e writing value hop
  refine ⟨x, ?_, hattempt⟩
  rw [List.getElem?_append_left (List.getElem?_eq_some_iff.1 hx).1, hx]

/-! ## The call that acts -/

/-- Every waiter of a call is published. -/
def Owned (ws : List Waiter) (h : List Event) (id : Nat) : Prop :=
  ∀ w ∈ ws, w.call = id → w.owner = true ∧ .published id ∈ h

/-- Waiters stay with their owner when events are noted. -/
theorem Owned.append {id : Nat} (ho : Owned ws h id) (l : List Event) : Owned ws (l ++ h) id :=
  fun w hw hid => ⟨(ho w hw hid).1, List.mem_append_right l (ho w hw hid).2⟩

/-- Waiters stay with their owner when they keep their calls. -/
theorem Owned.map {id : Nat} (ho : Owned ws h id) {f : Waiter → Waiter}
    (hf : ∀ w, (f w).call = w.call ∧ (f w).owner = w.owner) : Owned (ws.map f) h id := by
  intro w hw hid
  obtain ⟨w', hw', rfl⟩ := List.mem_map.1 hw
  rw [(hf w').1] at hid
  rw [(hf w').2]
  exact ho w' hw' hid

/-- A notification changes no waiter's call or owner. -/
theorem notify_keeps (signal : Nat → Int) (w : Waiter) :
    (System.Waiter.notify signal w).call = w.call ∧ (System.Waiter.notify signal w).owner = w.owner := by
  unfold System.Waiter.notify
  split <;> exact ⟨rfl, rfl⟩

/-- A notification leaves the waiters with their owner. -/
theorem Owned.notify {id : Nat} (ho : Owned ws h id) (signal : Nat → Int) :
    Owned (ws.map (System.Waiter.notify signal))
      (((ws.filter (·.owner)).map fun w => Event.signalled w.call) ++ .changed :: h) id := by
  have hmore := ho.append (((ws.filter (·.owner)).map fun w => Event.signalled w.call) ++ [.changed])
  rw [List.append_assoc] at hmore
  exact hmore.map (notify_keeps signal)

/-- A call that does not look. -/
theorem Owned.vigilant (ho : Owned ws h c.id) (hlooked : c.phase.looked = false) :
    Vigilant es ws h c := by
  have hblocked : ¬ c.phase.blocked = true := by
    cases hp : c.phase <;> simp_all [Phase.looked, Phase.blocked]
  have hwaiting : c.phase ≠ .waiting := by
    intro hp
    rw [hp] at hlooked
    cases hlooked
  refine ⟨fun _ => ho, fun hp => ?_, fun hp => absurd hp hblocked, fun hp => absurd hp hwaiting,
    fun hp => absurd hp hblocked⟩
  rw [hlooked] at hp
  cases hp

/-- A call that attaches a waiter. -/
theorem vigilant_attaching {c : Call} (hc : c.phase.attaching = true) : Vigilant es ws h c := by
  cases hp : c.phase <;> rw [hp] at hc <;> try cases hc
  all_goals
    refine ⟨fun h => ?_, fun h => ?_, fun h => ?_, fun h => ?_, fun h => ?_⟩ <;> rw [hp] at h <;> cases h

/-- A call begins to look at its interests. -/
theorem Owned.scanning (ho : Owned ws h c.id) {index remaining copied : Nat}
    (hphase : c.phase = .scanning index remaining copied) :
    Vigilant es ws (.checking c.id :: h) c := by
  refine ⟨fun _ => ho.append [.checking c.id], fun _ => ?_, fun hp => ?_, fun hp => ?_, fun hp => ?_⟩
  · rw [since_checking]
    exact ⟨List.mem_cons_self, nofun, nofun⟩
  all_goals
    rw [hphase] at hp
    cases hp

/-- A call has looked at once and found nothing. -/
theorem Owned.checked (ho : Owned ws h c.id) (hphase : c.phase = .checked)
    (hidle : ∀ e writing value, c.op = .transfer e writing value →
      ∃ event, es[e]? = some event ∧ attempt event writing value = .block) :
    Vigilant es ws (.checked c.id :: .checking c.id :: h) c := by
  have hsince : since c.id (.checked c.id :: .checking c.id :: h) = [.checked c.id] := by
    have := @since_append c.id [.checked c.id] (.checking c.id :: h) (by simp)
    rw [since_checking] at this
    exact this
  refine ⟨fun _ => ho.append [.checked c.id, .checking c.id], fun _ => ?_, fun _ => ?_, fun hp => ?_,
    fun _ _ => hidle⟩
  · rw [hsince]
    exact ⟨by simp, by simp, by simp⟩
  · rw [hsince]
    exact List.mem_singleton.2 rfl
  · rw [hphase] at hp
    cases hp

/-- A call that looks goes on. -/
theorem Vigilant.goes (hv : Vigilant es ws h c) (hlooked : c.phase.looked = true) {phase : Phase}
    (hfound : phase.blocked = true → .checked c.id ∈ since c.id h)
    (hattached : phase = .waiting → ∃ w ∈ ws, w.call = c.id)
    (hidle : phase.blocked = true → c.phase.blocked = true ∨ ∀ e writing value, c.op ≠ .transfer e writing value) :
    Vigilant es ws h { c with phase } := by
  have hpublic : c.phase.attaching = false := by
    cases hp : c.phase <;> rw [hp] at hlooked <;> first | rfl | cases hlooked
  refine ⟨fun _ => hv.owned hpublic, fun _ => hv.began hlooked, hfound, hattached,
    fun hp hno e writing value hop => ?_⟩
  rcases hidle hp with hb | hne
  · exact hv.idle hb hno e writing value hop
  · exact absurd hop (hne e writing value)

end Vigilant

/-- The call has been given a number and asks for at least one event. -/
structure Call.Started (next : Nat) (c : Call) : Prop where
  id : c.id < next
  asks : ∀ ep maximum timeout deadline, c.op = .pwait ep maximum timeout deadline → 0 < maximum

/-- A call that was started stays so when another is. -/
theorem Call.Started.succ {next : Nat} {c : Call} (h : c.Started next) : c.Started (next + 1) :=
  ⟨Nat.lt_succ_of_lt h.id, h.asks⟩

namespace System

variable {s s' : System} {id : Option Nat} {env : Env}

/-! ## The whole table -/

/-- The invariant, but for the call that acts. -/
structure Watch (id : Option Nat) (s : System) : Prop where
  distinct : (s.calls.map Call.id).Nodup
  calls : ∀ c ∈ s.calls, c.Started s.nextId
  waiters : ∀ w ∈ s.waiters, w.call < s.nextId
  vigilant : ∀ c ∈ s.calls, id ≠ some c.id → Vigilant s.eventfds s.waiters s.history c

/-- What holds of all calls holds of all but one. -/
theorem Watch.weaken (h : Watch none s) (id : Option Nat) : Watch id s :=
  ⟨h.distinct, h.calls, h.waiters, fun c hc _ => h.vigilant c hc nofun⟩

/-- Calm events are harmless to every call. -/
theorem harmless_of_calm {l : List Event} (hl : ∀ e ∈ l, e.calm = true) (id : Nat) : Harmless id l := by
  refine ⟨fun h => ?_, fun h => ?_, fun h => ?_⟩ <;> cases hl _ h

/-- Calm events leave the calls vigilant. -/
theorem Watch.record (h : Watch id s) {l : List Event} (hl : ∀ e ∈ l, e.calm = true) :
    Watch id (s.record l) :=
  ⟨h.distinct, h.calls, h.waiters, fun c hc hne => (h.vigilant c hc hne).record (harmless_of_calm hl c.id)⟩

/-- A call begins to look. -/
theorem Watch.checking {k : Nat} (h : Watch none s) : Watch (some k) (s.record [.checking k]) := by
  refine ⟨h.distinct, h.calls, h.waiters, fun c hc hne => (h.vigilant c hc nofun).record ?_⟩
  refine ⟨fun hx => ?_, by simp, by simp⟩
  cases List.mem_singleton.1 hx
  exact hne rfl

/-- A notification leaves the calls vigilant: the waiters that it tells see it. -/
theorem Watch.notify (h : Watch id s) : Watch id (s.pollNotify env) := by
  refine ⟨h.distinct, h.calls, fun w hw => ?_, fun c hc hne => (h.vigilant c hc hne).notify env.signal⟩
  obtain ⟨w', hw', rfl⟩ := List.mem_map.1 hw
  rw [(notify_keeps env.signal w').1]
  exact h.waiters w' hw'

/-- An eventfd changes, and a notification follows. -/
theorem Watch.store (h : Watch id s) (eventfds : List Eventfd) {l : List Event}
    (hl : ∀ e ∈ l, e.calm = true) :
    Watch id (({ s with eventfds }.record l).pollNotify env) := by
  have hr : Watch id ((s.record l).pollNotify env) := (h.record hl).notify
  refine ⟨hr.distinct, hr.calls, hr.waiters, fun c hc hne => ?_⟩
  exact ((h.vigilant c hc hne).record (harmless_of_calm hl c.id)).notify env.signal

/-- The close of a Binder endpoint leaves the calls vigilant. -/
theorem Watch.dropBinder (h : Watch id s) (b : Option Nat) : Watch id (s.dropBinder b env) := by
  have hends : ∀ {s : System} endpoints, Watch id s → Watch id { s with endpoints } :=
    fun _ h => ⟨h.distinct, h.calls, h.waiters, h.vigilant⟩
  unfold System.dropBinder
  split
  · exact h
  · split
    · exact h
    · split
      · exact h
      · dsimp only
        split
        · exact (hends _ h).notify
        · exact (hends _ (hends _ h).notify).notify

/-- A call that returns is not watched any more. -/
theorem Watch.finish {call : Call} (h : Watch (some call.id) s) (result : Int) :
    Watch none (s.finish call result env) := by
  have hend : Watch none { s with
      calls := s.calls.filter fun c => c.id != call.id
      waiters := s.waiters.filter fun w => w.call != call.id
      history := .returned call.id result :: s.history } := by
    refine ⟨h.distinct.sublist ((List.filter_sublist).map _),
      fun c hc => h.calls c (List.mem_filter.1 hc).1,
      fun w hw => h.waiters w (List.mem_filter.1 hw).1, fun c hc _ => ?_⟩
    obtain ⟨hc, hne⟩ := List.mem_filter.1 hc
    rw [bne_iff_ne] at hne
    have hv := h.vigilant c hc fun heq => hne (Option.some.inj heq).symm
    have hr := hv.record (l := [.returned call.id result]) (harmless_of_calm (by simp [Event.calm]) c.id)
    refine hr.waiters fun w hid => ?_
    rw [List.mem_filter, bne_iff_ne, hid]
    exact ⟨And.left, fun hw => ⟨hw, hne⟩⟩
  exact hend.dropBinder _

/-- A call that returns at once is never watched. -/
theorem Watch.reply (h : Watch none s) (result : Int) : Watch none (s.reply result) := by
  have hr := h.record (l := [.returned s.nextId result]) (by simp [Event.calm])
  exact ⟨hr.distinct, fun c hc => (h.calls c hc).succ,
    fun w hw => Nat.lt_succ_of_lt (h.waiters w hw), hr.vigilant⟩

/-- A call that has not looked yet is vigilant. -/
theorem Watch.start (h : Watch none s) (caller : Caller) {op : Op} {phase : Phase}
    (hp : phase.looked = false)
    (hop : ∀ ep maximum timeout deadline, op = .pwait ep maximum timeout deadline → 0 < maximum) :
    Watch none (s.start caller op phase) := by
  refine ⟨?_, fun c hc => ?_, fun w hw => Nat.lt_succ_of_lt (h.waiters w hw), fun c hc _ => ?_⟩
  · show ((s.calls ++ [_]).map Call.id).Nodup
    rw [List.map_append]
    refine List.nodup_append.2 ⟨h.distinct, List.nodup_singleton _, fun a ha b hb => ?_⟩
    obtain ⟨c, hc, rfl⟩ := List.mem_map.1 ha
    rw [List.mem_singleton.1 hb]
    exact Nat.ne_of_lt (h.calls c hc).id
  · rcases List.mem_append.1 hc with hc | hc
    · exact (h.calls c hc).succ
    · rw [List.mem_singleton.1 hc]
      exact ⟨Nat.lt_succ_self _, hop⟩
  · rcases List.mem_append.1 hc with hc | hc
    · exact h.vigilant c hc nofun
    · rw [List.mem_singleton.1 hc]
      -- nobody has a waiter of the new call
      refine Owned.vigilant (fun w hw hid => ?_) hp
      exact absurd (h.waiters w hw) (by rw [hid]; exact Nat.lt_irrefl _)

/-- A call that moves on is vigilant if it is so in its new phase. -/
theorem Watch.setPhase {k : Nat} (h : Watch (some k) s) {phase : Phase}
    (hc : ∀ c ∈ s.calls, c.id = k → Vigilant s.eventfds s.waiters s.history { c with phase }) :
    Watch none (s.setPhase k phase) := by
  have hid : ∀ c : Call, (if c.id = k then { c with phase } else c).id = c.id := by
    intro c
    split <;> rfl
  refine ⟨?_, fun c hc => ?_, h.waiters, fun c hmem _ => ?_⟩
  · have hmap : (s.calls.map fun c => if c.id = k then { c with phase } else c).map Call.id =
        s.calls.map Call.id := by
      rw [List.map_map]
      exact List.map_congr_left fun c _ => hid c
    show ((s.calls.map _).map Call.id).Nodup
    rw [hmap]
    exact h.distinct
  · obtain ⟨c', hc', rfl⟩ := List.mem_map.1 hc
    refine ⟨?_, fun ep maximum timeout deadline hop => ?_⟩
    · rw [hid]
      exact (h.calls c' hc').id
    · refine (h.calls c' hc').asks ep maximum timeout deadline ?_
      rw [← hop]
      split <;> rfl
  · obtain ⟨c', hc', rfl⟩ := List.mem_map.1 hmem
    split
    next heq => exact hc c' hc' heq
    next hne => exact h.vigilant c' hc' fun heq => hne (Option.some.inj heq).symm

/-! ## Steps of calls -/

/-- A call is known by its ID. -/
theorem Watch.unique (h : Watch none s) {call c : Call} (hcall : call ∈ s.calls) (hc : c ∈ s.calls)
    (hid : c.id = call.id) : c = call :=
  List.inj_on_of_nodup_map h.distinct hc hcall hid

/-- A call that is not attaching owns its waiters. -/
theorem Watch.owned (h : Watch none s) {call : Call} (hcall : call ∈ s.calls)
    (hp : call.phase.attaching = false) : Owned s.waiters s.history call.id :=
  (h.vigilant call hcall nofun).owned hp

/-- The call goes to a phase in which it does not look. -/
theorem Watch.rest {k : Nat} (h : Watch (some k) s) (ho : Owned s.waiters s.history k) {phase : Phase}
    (hp : phase.looked = false) : Watch none (s.setPhase k phase) := by
  refine h.setPhase fun c _ hid => Owned.vigilant ?_ hp
  rw [← hid] at ho
  exact ho

/-- A timer that is brought up to date leaves the calls vigilant. -/
theorem Watch.setTimerfd (h : Watch id s) (t : Nat) (timer : Timerfd) : Watch id (s.setTimerfd t timer) :=
  ⟨h.distinct, h.calls, h.waiters, h.vigilant⟩

/-- The interests of an epoll instance do not matter to the calls. -/
theorem Watch.setEpoll (h : Watch id s) (ep : Nat) (epoll : Epoll) : Watch id (s.setEpoll ep epoll) :=
  ⟨h.distinct, h.calls, h.waiters, h.vigilant⟩

/-- What is asked about an interest is the table with a timer brought up to date. -/
theorem interestEvents_table (s : System) (target : Target) (caller : Caller) (env : Env) :
    (s.interestEvents target caller env).2 = s ∨
      ∃ t timer, (s.interestEvents target caller env).2 = s.setTimerfd t timer := by
  unfold interestEvents
  repeat' split
  all_goals first
    | exact .inl rfl
    | exact .inr ⟨_, _, rfl⟩

/-- A look at an interest leaves the calls vigilant. -/
theorem Watch.interestEvents (h : Watch id s) (target : Target) (caller : Caller) :
    Watch id (s.interestEvents target caller env).2 := by
  rcases interestEvents_table s target caller env with heq | ⟨t, timer, heq⟩
  · rw [heq]
    exact h
  · rw [heq]
    exact h.setTimerfd t timer

/-- A look at an interest leaves the calls. -/
theorem calls_interestEvents (s : System) (target : Target) (caller : Caller) (env : Env) :
    (s.interestEvents target caller env).2.calls = s.calls := by
  rcases interestEvents_table s target caller env with heq | ⟨t, timer, heq⟩
  · rw [heq]
  · rw [heq]
    rfl

/-- Nothing is there for the call, at once. -/
theorem Watch.block (h : Watch none s) {call : Call} (hcall : call ∈ s.calls)
    (hp : call.phase = .checking) (hidle : ∀ e writing value, call.op = .transfer e writing value →
      ∃ event, s.eventfds[e]? = some event ∧ attempt event writing value = .block) :
    Watch none (((s.record [.checking call.id]).record [.checked call.id]).setPhase call.id .checked) := by
  have ho := h.owned hcall (by rw [hp]; rfl)
  refine (h.checking.record (by simp [Event.calm])).setPhase fun c hc hid => ?_
  obtain rfl := h.unique hcall hc hid
  exact Owned.checked (c := { c with phase := .checked }) ho rfl hidle

/-- An eventfd call that looks stays vigilant: it sleeps only if its attempt blocks. -/
theorem watch_checkTransfer (h : Watch none s) {call : Call} (hcall : call ∈ s.calls)
    (hp : call.phase = .checking) {e : Nat} {writing : Bool} {value : BitVec 64}
    (hop : call.op = .transfer e writing value) :
    Watch none (s.checkTransfer call e writing value env) := by
  have ho := h.owned hcall (by rw [hp]; rfl)
  unfold checkTransfer
  split
  · exact h
  next event hevent =>
    dsimp only
    split
    · exact h.checking.finish _
    next hattempt =>
      refine h.block hcall hp fun e' writing' value' hop' => ?_
      rw [hop] at hop'
      cases hop'
      exact ⟨event, hevent, hattempt⟩
    next event' value' _ =>
      cases writing with
      | true => exact (h.checking.store _ (by simp [Event.calm])).finish _
      | false =>
        refine (h.checking.store _ (by simp [Event.calm])).rest ?_ rfl
        exact ((ho.append [.checking call.id]).append [.consumed e value']).notify env.signal

/-- A timer read that looks stays vigilant. -/
theorem watch_checkRead (h : Watch none s) {call : Call} (hcall : call ∈ s.calls)
    (hp : call.phase = .checking) {t address : Nat} (hop : call.op = .read t address) :
    Watch none (s.checkRead call t env) := by
  have ho := h.owned hcall (by rw [hp]; rfl)
  unfold checkRead
  split
  · exact h
  next timer _ =>
    dsimp only
    split
    · exact (h.checking.setTimerfd _ _).finish _
    · split
      · exact ((h.checking.setTimerfd _ _).setTimerfd _ _).rest (ho.append [.checking call.id]) rfl
      · split
        · exact (h.checking.setTimerfd _ _).finish _
        · refine ((h.checking.setTimerfd _ _).record (by simp [Event.calm])).setPhase fun c hc hid => ?_
          obtain rfl := h.unique hcall hc hid
          refine Owned.checked (c := { c with phase := .checked }) ho rfl fun e writing value hop' => ?_
          rw [show ({ c with phase := .checked } : Call).op = c.op from rfl, hop] at hop'
          cases hop'

/-- A look stays vigilant, whatever is looked at. -/
theorem watch_check (h : Watch none s) {call : Call} (hcall : call ∈ s.calls)
    (hp : call.phase = .checking) : Watch none (s.check call env) := by
  unfold check
  split
  next hop => exact watch_checkTransfer h hcall hp hop
  next hop => exact watch_checkRead h hcall hp hop
  · split
    · exact h
    next epoll _ =>
      have ho := h.owned hcall (by rw [hp]; rfl)
      refine h.checking.setPhase fun c hc hid => ?_
      obtain rfl := h.unique hcall hc hid
      exact Owned.scanning (c := { c with phase := .scanning epoll.cursor epoll.interests.length 0 })
        ho rfl
  · exact h

/-- A scan ends, and the call returns or has found nothing. -/
theorem watch_endScan (h : Watch none s) {call : Call} (hcall : call ∈ s.calls)
    (hp : call.phase.looked = true) (hop : ∀ e writing value, call.op ≠ .transfer e writing value)
    (timeout result : Int) : Watch none (s.endScan call timeout result env) := by
  unfold endScan
  split
  · exact (h.weaken _).finish _
  · have hr := h.record (l := [.checked call.id]) (by simp [Event.calm])
    refine (hr.weaken _).setPhase fun c hc hid => ?_
    obtain rfl := h.unique hcall hc hid
    refine (hr.vigilant c hc nofun).goes hp (fun _ => ?_) nofun fun _ => .inr hop
    show .checked c.id ∈ since c.id ([.checked c.id] ++ s.history)
    rw [since_append (by simp)]
    exact List.mem_append_left _ (List.mem_singleton.2 rfl)

/-- A call that looks at its interests goes on to the next. -/
theorem Watch.scanning (h : Watch none s) {call : Call} (hcall : call ∈ s.calls)
    (hp : call.phase.looked = true) (index remaining copied : Nat) :
    Watch none (s.setPhase call.id (.scanning index remaining copied)) := by
  refine (h.weaken _).setPhase fun c hc hid => ?_
  obtain rfl := h.unique hcall hc hid
  exact (h.vigilant c hc nofun).goes hp nofun nofun nofun

/-- A scan of the interests stays vigilant from one interest to the next. -/
theorem watch_scan (h : Watch none s) {call : Call} (hcall : call ∈ s.calls)
    (hp : call.phase.looked = true) {ep maximum : Nat} {timeout deadline : Int}
    (hop : call.op = .pwait ep maximum timeout deadline) (index remaining copied : Nat) :
    Watch none (s.scan call ep maximum timeout index remaining copied env) := by
  have hne : ∀ e writing value, call.op ≠ .transfer e writing value := by
    intro e writing value heq
    rw [hop] at heq
    cases heq
  unfold scan
  split
  · exact h
  next epoll _ =>
    split
    · exact watch_endScan (h.setEpoll _ _) hcall hp hne _ _
    · dsimp only
      split
      · exact h
      next interest _ =>
        have hi : Watch none (s.interestEvents interest.target call.caller env).2 :=
          h.interestEvents interest.target call.caller
        have hin : call ∈ (s.interestEvents interest.target call.caller env).2.calls := by
          rw [calls_interestEvents]
          exact hcall
        split
        · exact (hi.setEpoll _ _).scanning hin hp _ _ _
        · split
          · exact watch_endScan hi hin hp hne _ _
          · split
            · split
              · exact watch_endScan hi hin hp hne _ _
              · exact (hi.record (by simp [Event.calm])).scanning hin hp _ _ _
            · exact hi.scanning hin hp _ _ _

/-- A change of the interests leaves the calls vigilant. -/
theorem watch_applyControl (h : Watch none s) (caller : Caller) (ep : Nat) (epoll : Epoll)
    (operation : Int) (interest : Interest) :
    Watch none (s.applyControl caller ep epoll operation interest env).2 := by
  unfold applyControl
  split
  · split
    · exact h
    · split
      · exact (h.setEpoll _ _).notify
      · exact ((h.setEpoll _ _).record (by simp [Event.calm])).notify
  · split
    · exact h
    · split
      · exact h
      · dsimp only
        split
        · exact h.interestEvents _ _
        · exact (((h.interestEvents _ _).setEpoll _ _).record (by simp [Event.calm])).notify

/-- The reaping before a change of the interests leaves the calls vigilant. -/
theorem watch_reap (h : Watch none s) {call : Call} (hcall : call ∈ s.calls) {index : Nat}
    (hp : call.phase = .reaping index) (ep : Nat) (operation : Int) (interest : Interest) :
    Watch none (s.reap call ep operation interest index env) := by
  have ho := h.owned hcall (by rw [hp]; rfl)
  unfold reap
  split
  · exact h
  next epoll _ =>
    split
    · exact ((watch_applyControl h _ _ _ _ _).weaken _).finish _
    next other _ =>
      have hi : Watch none (s.interestEvents other.target call.caller env).2 :=
        h.interestEvents other.target call.caller
      have hio : Owned (s.interestEvents other.target call.caller env).2.waiters
          (s.interestEvents other.target call.caller env).2.history call.id := by
        rcases interestEvents_table s other.target call.caller env with heq | ⟨t, timer, heq⟩
        · rw [heq]
          exact ho
        · rw [heq]
          exact ho
      dsimp only
      split
      · exact ((hi.setEpoll _ _).weaken _).rest hio rfl
      · exact (hi.weaken _).rest hio rfl

/-- A registered call is vigilant before its waiter is there. -/
theorem watch_register (h : Watch none s) {call : Call} (hcall : call ∈ s.calls)
    (hp : call.phase = .checked) : Watch none (s.register call env) := by
  unfold register
  split
  next hnone =>
    split
    · exact (h.weaken _).finish _
    · dsimp only
      have hadd : Watch (some call.id) { s with waiters := s.waiters ++ [({ call := call.id } : Waiter)] } := by
        refine ⟨h.distinct, h.calls, fun w hw => ?_, fun c hc hne => ?_⟩
        · rcases List.mem_append.1 hw with hw | hw
          · exact h.waiters w hw
          · rw [List.mem_singleton.1 hw]
            exact (h.calls call hcall).id
        · refine (h.vigilant c hc nofun).waiters fun w hid => ?_
          rw [List.mem_append, List.mem_singleton]
          refine ⟨fun hw => hw.resolve_right ?_, .inl⟩
          rintro rfl
          exact hne (congrArg some hid)
      exact hadd.setPhase fun c _ _ => vigilant_attaching rfl
  next w hw =>
    split
    · exact (h.weaken _).finish _
    · refine (h.weaken _).setPhase fun c hc hid => ?_
      obtain rfl := h.unique hcall hc hid
      have hv := h.vigilant c hc nofun
      refine hv.goes (by rw [hp]; rfl) (fun _ => hv.found (by rw [hp]; rfl)) (fun _ => ?_)
        fun _ => .inl (by rw [hp]; rfl)
      have hid := List.find?_some hw
      exact ⟨w, List.mem_of_find?_eq_some hw, beq_iff_eq.1 hid⟩

/-- A call that prepares to wait stays vigilant. -/
theorem watch_prepare (h : Watch none s) {call : Call} (hcall : call ∈ s.calls)
    (hp : call.phase = .checked) : Watch none (s.prepare call env) := by
  unfold prepare
  split
  · exact (h.weaken _).finish _
  · split
    · split
      · split
        · exact (h.weaken _).finish _
        · split
          · exact (h.weaken _).finish _
          · exact watch_register h hcall hp
      · exact watch_register h hcall hp
    · exact watch_register h hcall hp

/-- The creation of a wake object leaves the calls vigilant. -/
theorem watch_create (h : Watch none s) (call : Call) : Watch none (s.create call env) := by
  unfold create
  split
  · exact (h.weaken _).finish _
  · split
    · exact (h.weaken _).finish _
    · exact (h.weaken _).setPhase fun c _ _ => vigilant_attaching rfl

/-- The waiters of one call change. -/
theorem Watch.rewrite (h : Watch none s) {k : Nat} {f : Waiter → Waiter} (hf : ∀ w, (f w).call = w.call) :
    Watch (some k) { s with waiters := s.waiters.map fun w => if w.call = k then f w else w } := by
  have hcall : ∀ w : Waiter, (if w.call = k then f w else w).call = w.call := by
    intro w
    split
    · exact hf w
    · rfl
  refine ⟨h.distinct, h.calls, fun w hw => ?_, fun c hc hne => ?_⟩
  · obtain ⟨w', hw', rfl⟩ := List.mem_map.1 hw
    rw [hcall]
    exact h.waiters w' hw'
  · refine (h.vigilant c hc nofun).waiters fun w hid => ?_
    have hck : c.id ≠ k := fun heq => hne (congrArg some heq.symm)
    constructor
    · intro hw
      obtain ⟨w', hw', rfl⟩ := List.mem_map.1 hw
      rw [hcall] at hid
      rw [if_neg (by rw [hid]; exact hck)]
      exact hw'
    · intro hw
      refine List.mem_map.2 ⟨w, hw, ?_⟩
      rw [if_neg (by rw [hid]; exact hck)]

/-- The publication of a wake object leaves the calls vigilant: its call looks again. -/
theorem watch_publish (h : Watch none s) (call : Call) : Watch none (s.publish call) := by
  unfold publish
  have hw := h.rewrite (k := call.id) (f := fun w => { w with owner := true }) fun _ => rfl
  have hr : Watch (some call.id) ({ s with waiters := s.waiters.map fun w : Waiter =>
      if w.call = call.id then { w with owner := true } else w }.record [.published call.id]) := by
    refine ⟨hw.distinct, hw.calls, hw.waiters, fun c hc hne => (hw.vigilant c hc hne).record ?_⟩
    refine ⟨by simp, by simp, fun hx => ?_⟩
    have hid := Event.published.inj (List.mem_singleton.1 hx)
    exact hne (congrArg some hid.symm)
  refine hr.rest (fun w hmem hid => ?_) rfl
  obtain ⟨w', _, rfl⟩ := List.mem_map.1 hmem
  refine ⟨?_, List.mem_cons_self⟩
  split at hid
  next heq => rw [if_pos heq]
  next hne => exact absurd hid hne

/-- A wake leaves the calls vigilant: the one that wakes returns or looks again. -/
theorem watch_wake (h : Watch none s) {call : Call} (hcall : call ∈ s.calls)
    (hp : call.phase = .waiting) : Watch none (s.wake call env) := by
  have ho := h.owned hcall (by rw [hp]; rfl)
  unfold wake
  split
  · exact (h.weaken _).finish _
  · split
    · exact (h.weaken _).finish _
    · split
      · dsimp only
        split
        · have hw := h.rewrite (k := call.id) (f := fun w => { w with latch := false }) fun _ => rfl
          refine @Watch.rest _ _ hw (ho.map fun w => ?_) .checking rfl
          split <;> exact ⟨rfl, rfl⟩
        · exact h
      · exact (h.weaken _).rest ho rfl

/-- A step of any call leaves the calls vigilant. -/
theorem watch_advance (h : Watch none s) {call : Call} (hcall : call ∈ s.calls) (env : Env) :
    Watch none (s.advance call env) := by
  unfold advance
  split
  next hp =>
    split
    · exact watch_check h hcall hp
    · exact h
  next hp =>
    split
    next hop => exact watch_scan h hcall (by rw [hp]; rfl) hop _ _ _
    · exact h
  next hp =>
    split
    · exact watch_reap h hcall hp _ _ _
    · exact h
  next hp => exact watch_prepare h hcall hp
  · exact watch_create h call
  · exact watch_publish h call
  next hp => exact watch_wake h hcall hp
  · exact (h.weaken _).finish _

/-! ## Steps that begin a call -/

/-- What a call looks at does not depend on descriptors, timers, epoll objects and endpoints. -/
theorem Watch.install (h : Watch none s) (d : Descriptor) : Watch none (s.install d) := by
  unfold System.install
  split
  · exact h.reply _
  · refine Watch.reply ?_ _
    exact ⟨h.distinct, h.calls, h.waiters, h.vigilant⟩

/-- A new eventfd leaves the calls vigilant. -/
theorem watch_eventfd2 (h : Watch none s) (caller : Caller) (initial flags : BitVec 32) :
    Watch none (s.eventfd2 caller initial flags) := by
  unfold eventfd2
  split
  · exact h.reply _
  · split
    · exact h.reply _
    · refine Watch.install (Watch.record ?_ (by simp [Event.calm])) _
      exact ⟨h.distinct, h.calls, h.waiters, fun c hc hne => (h.vigilant c hc hne).opened _⟩

/-- A new timer leaves the calls vigilant. -/
theorem watch_timerfdCreate (h : Watch none s) (caller : Caller) (clock flags : BitVec 32) :
    Watch none (s.timerfdCreate caller clock flags) := by
  unfold timerfdCreate
  split
  · exact h.reply _
  · split
    · exact h.reply _
    · split
      · exact h.reply _
      · refine Watch.install ?_ _
        exact ⟨h.distinct, h.calls, h.waiters, h.vigilant⟩

/-- A new epoll instance leaves the calls vigilant. -/
theorem watch_epollCreate (h : Watch none s) (caller : Caller) (flags : BitVec 32) :
    Watch none (s.epollCreate caller flags) := by
  unfold epollCreate
  split
  · exact h.reply _
  · split
    · exact h.reply _
    · split
      · exact h.reply _
      · refine Watch.install ?_ _
        exact ⟨h.distinct, h.calls, h.waiters, h.vigilant⟩

/-- A new Binder endpoint leaves the calls vigilant. -/
theorem watch_openBinder (h : Watch none s) (caller : Caller) (env : Env) :
    Watch none (s.openBinder caller env) := by
  unfold openBinder
  split
  · exact h.reply _
  · split
    · exact h.reply _
    · split
      · exact h.reply _
      · refine Watch.install ?_ _
        exact ⟨h.distinct, h.calls, h.waiters, h.vigilant⟩

/-- The close of a descriptor leaves the calls vigilant. -/
theorem watch_close (h : Watch none s) (fd : Int) (env : Env) : Watch none (s.close fd env) := by
  unfold close
  split
  · exact h.reply _
  · refine Watch.reply ?_ _
    have hd : Watch none { s with descriptors := s.descriptors.set (fd - 3).toNat {} } :=
      ⟨h.distinct, h.calls, h.waiters, h.vigilant⟩
    split
    · exact (hd.dropBinder _).notify
    · exact hd.dropBinder _

/-- A query of a timer leaves the calls vigilant. -/
theorem watch_timerfdGettime (h : Watch none s) (caller : Caller) (fd : Int) (env : Env) :
    Watch none (s.timerfdGettime caller fd env) := by
  unfold timerfdGettime
  split
  · exact h.reply _
  · exact (h.setTimerfd _ _).start caller rfl nofun

/-- A timer that is set leaves the calls vigilant. -/
theorem watch_timerfdSettime (h : Watch none s) (caller : Caller) (fd : Int) (flags : BitVec 32)
    (out : Bool) (env : Env) : Watch none (s.timerfdSettime caller fd flags out env) := by
  unfold timerfdSettime
  split
  · exact h.reply _
  · split
    · exact h.reply _
    · dsimp only
      split
      · exact (h.setTimerfd _ _).notify.start caller rfl nofun
      · exact (h.setTimerfd _ _).notify.reply _

/-- A read or write that begins is vigilant. -/
theorem watch_transfer (h : Watch none s) (caller : Caller) (fd : Int) (address count : Nat)
    (writing : Bool) (env : Env) : Watch none (s.transfer caller fd address count writing env) := by
  have hreply : ∀ result, Watch none (s.reply result) := h.reply
  have hstart : ∀ {op}, (∀ ep maximum timeout deadline, op ≠ .pwait ep maximum timeout deadline) →
      Watch none (s.start caller op .checking) := fun hop =>
    h.start caller rfl fun _ _ _ _ heq => absurd heq (hop _ _ _ _)
  unfold transfer timerfdRead eventfdTransfer
  repeat' split
  all_goals first
    | exact hreply _
    | exact hstart nofun
    | dsimp only
      split
      · exact hreply _
      · exact hstart nofun

/-- An ioctl that begins is vigilant, as it does not wait here. -/
theorem watch_ioctl (h : Watch none s) (caller : Caller) (fd : Int) : Watch none (s.ioctl caller fd) := by
  unfold ioctl
  split
  · exact h.reply _
  · split
    · exact h.reply _
    · split
      · exact h.reply _
      · exact h.start caller rfl nofun

/-- A change of interests that begins is vigilant. -/
theorem watch_epollCtl (h : Watch none s) (caller : Caller) (epfd operation fd : Int) (env : Env) :
    Watch none (s.epollCtl caller epfd operation fd env) := by
  unfold epollCtl
  split
  · exact h.reply _
  · split
    · exact h.reply _
    · split
      · exact h.reply _
      · split
        · exact h.reply _
        · split
          · exact h.reply _
          · split
            · exact h.reply _
            · split
              · exact h.reply _
              · split
                · exact h.reply _
                · generalize (if operation = 2 then [] else env.read.2) = bytes
                  dsimp only
                  split
                  · exact h.reply _
                  · exact h.start caller rfl nofun

/-- A wait for events that begins is vigilant. -/
theorem watch_epollPwait (h : Watch none s) (caller : Caller) (epfd : Int) (address : Nat)
    (maximum timeout : Int) (mask : Bool) (size : Nat) (env : Env) :
    Watch none (s.epollPwait caller epfd address maximum timeout mask size env) := by
  unfold epollPwait
  split
  · exact h.reply _
  · split
    · exact h.reply _
    · split
      · exact h.reply _
      next hrange =>
        have hpos : 0 < maximum.toNat := by omega
        repeat' split
        all_goals first
          | exact h.reply _
          | refine h.start caller rfl fun _ _ _ _ heq => ?_
            cases heq
            exact hpos

/-- An action that waits for the mutex of the table. -/
theorem Watch.locked (h : Watch none s) (h' : Watch none s') :
    Watch none (if s.unlocked then s' else s) := by
  split
  · exact h'
  · exact h

/-- Every step leaves the calls vigilant. -/
theorem watch_perform (h : Watch none s) (a : Action) (env : Env) : Watch none (perform s a env) := by
  cases a with
  | advance id =>
    unfold perform
    dsimp only
    split
    · exact h
    next call hcall => exact watch_advance h (List.mem_of_find?_eq_some hcall) env
  | binderChanged => exact h.notify
  | reapClosed token =>
    unfold perform
    dsimp only
    split
    · exact Watch.notify ⟨h.distinct, h.calls, h.waiters, h.vigilant⟩
    · exact h
  | eventfd2 caller initial flags => exact h.locked (watch_eventfd2 h caller initial flags)
  | timerfdCreate caller clock flags => exact h.locked (watch_timerfdCreate h caller clock flags)
  | epollCreate caller flags => exact h.locked (watch_epollCreate h caller flags)
  | openBinder caller => exact h.locked (watch_openBinder h caller env)
  | openOther kind =>
    refine h.locked ?_
    split
    · exact h
    · exact h.install _
  | close fd => exact h.locked (watch_close h fd env)
  | timerfdSettime caller fd flags out => exact h.locked (watch_timerfdSettime h caller fd flags out env)
  | timerfdGettime caller fd => exact h.locked (watch_timerfdGettime h caller fd env)
  | transfer caller fd address count writing =>
    exact h.locked (watch_transfer h caller fd address count writing env)
  | epollCtl caller epfd operation fd => exact h.locked (watch_epollCtl h caller epfd operation fd env)
  | epollPwait caller epfd address maximum timeout mask size =>
    exact h.locked (watch_epollPwait h caller epfd address maximum timeout mask size env)
  | ioctl caller fd => exact h.locked (watch_ioctl h caller fd)

/-- In every reachable state the calls are vigilant. -/
theorem watch (h : machine.Reachable s) : Watch none s := by
  refine h.inv (fun s hs => ?_) fun s s' hw hstep => ?_
  · obtain ⟨attached, interests, limit, size, rfl⟩ := hs
    exact ⟨List.nodup_nil, List.forall_mem_nil _, List.forall_mem_nil _, List.forall_mem_nil _⟩
  · obtain ⟨a, env, rfl⟩ := hstep
    exact watch_perform hw a env

/-! ## What a call saw -/

/-- A call that moves on is in its new phase. -/
theorem phase_setPhase {k : Nat} {phase : Phase} {c : Call} (hc : c ∈ (s.setPhase k phase).calls)
    (hid : c.id = k) : c.phase = phase := by
  obtain ⟨c', _, rfl⟩ := List.mem_map.1 hc
  by_cases heq : c'.id = k
  · rw [if_pos heq]
  · rw [if_neg heq] at hid
    exact absurd hid heq

/-- The close of a Binder endpoint leaves the calls. -/
theorem calls_dropBinder (s : System) (b : Option Nat) (env : Env) : (s.dropBinder b env).calls = s.calls := by
  unfold dropBinder
  split
  · rfl
  · split
    · rfl
    · split
      · rfl
      · dsimp only
        split <;> rfl

/-- A call that returned is gone. -/
theorem id_ne_of_finish {call c : Call} {result : Int} (hc : c ∈ (s.finish call result env).calls) :
    c.id ≠ call.id := by
  unfold finish at hc
  rw [calls_dropBinder] at hc
  exact bne_iff_ne.1 (List.mem_filter.1 hc).2

/-- What a look that finds nothing has seen: the counter does not admit the transfer, the timer has
no ticks, or no interest of a whole scan had an event. -/
def FoundNothing (s : System) (call : Call) (env : Env) : Prop :=
  match call.op with
  | .transfer e writing value =>
    ∃ event, s.eventfds[e]? = some event ∧ attempt event writing value = .block
  | .read t _ =>
    ∃ timer, s.timerfds[t]? = some timer ∧ (timerfdEvents timer call.caller env).1 = 0
  | .pwait ep _ _ _ =>
    ∃ epoll index remaining, s.epolls[ep]? = some epoll ∧
      call.phase = .scanning index remaining 0 ∧ (remaining = 0 ∨ epoll.interests = [])
  | _ => False

/-- A scan that does not return copied nothing out, and its call waits next. -/
theorem endScan_checked {call c : Call} {timeout result : Int}
    (hc : c ∈ (s.endScan call timeout result env).calls) (hid : c.id = call.id) :
    result = 0 ∧ c.phase = .checked := by
  unfold endScan at hc
  split at hc
  · exact absurd hid (id_ne_of_finish hc)
  next hzero => exact ⟨not_not.1 fun hne => hzero (.inl hne), phase_setPhase hc hid⟩

/-- A look that ends with a wait found nothing. -/
theorem check_checked {call c : Call} (hc : c ∈ (s.check call env).calls) (hid : c.id = call.id)
    (hstuck : c ∈ s.calls → c.phase ≠ .checked) (hphase : c.phase = .checked) :
    s.FoundNothing call env := by
  unfold check at hc
  split at hc
  next e writing value hop =>
    unfold FoundNothing
    rw [hop]
    unfold checkTransfer at hc
    split at hc
    · exact absurd hphase (hstuck hc)
    next event hevent =>
      dsimp only at hc
      split at hc
      · exact absurd hid (id_ne_of_finish hc)
      next hblock => exact ⟨event, hevent, hblock⟩
      · split at hc
        · exact absurd hid (id_ne_of_finish hc)
        · rw [phase_setPhase hc hid] at hphase
          cases hphase
  next t address hop =>
    unfold FoundNothing
    rw [hop]
    unfold checkRead at hc
    split at hc
    · exact absurd hphase (hstuck hc)
    next timer htimer =>
      dsimp only at hc
      split at hc
      · exact absurd hid (id_ne_of_finish hc)
      · split at hc
        · rw [phase_setPhase hc hid] at hphase
          cases hphase
        next hzero => exact ⟨timer, htimer, not_not.1 hzero⟩
  · split at hc
    · exact absurd hphase (hstuck hc)
    · rw [phase_setPhase hc hid] at hphase
      cases hphase
  · exact absurd hphase (hstuck hc)

/-- A scan that ends with a wait found nothing at any interest. -/
theorem scan_checked {call c : Call} {ep maximum index remaining copied : Nat} {timeout deadline : Int}
    (hop : call.op = .pwait ep maximum timeout deadline) (hmax : 0 < maximum)
    (hp : call.phase = .scanning index remaining copied)
    (hc : c ∈ (s.scan call ep maximum timeout index remaining copied env).calls) (hid : c.id = call.id)
    (hstuck : c ∈ s.calls → c.phase ≠ .checked) (hphase : c.phase = .checked) :
    s.FoundNothing call env := by
  unfold scan at hc
  split at hc
  · exact absurd hphase (hstuck hc)
  next epoll hepoll =>
    split at hc
    next hend =>
      -- the scan is over, and a count of zero means that nothing was copied
      obtain ⟨hzero, _⟩ := endScan_checked hc hid
      have hcopied : copied = 0 := Int.ofNat_eq_zero.1 hzero
      unfold FoundNothing
      rw [hop]
      refine ⟨epoll, index, remaining, hepoll, by rw [hp, hcopied], ?_⟩
      rcases hend with hend | hend | hend
      · exact .inl hend
      · exact .inr hend
      · omega
    · dsimp only at hc
      split at hc
      · exact absurd hphase (hstuck hc)
      · split at hc
        · rw [phase_setPhase hc hid] at hphase
          cases hphase
        · split at hc
          · obtain ⟨hzero, _⟩ := endScan_checked hc hid
            split at hzero <;> omega
          · split at hc
            · split at hc
              · obtain ⟨hzero, _⟩ := endScan_checked hc hid
                split at hzero <;> omega
              · rw [phase_setPhase hc hid] at hphase
                cases hphase
            · rw [phase_setPhase hc hid] at hphase
              cases hphase

/-- A call comes to sleep by looks that found nothing only. -/
theorem advance_checked (h : Watch none s) {call c : Call} (hcall : call ∈ s.calls)
    (hbefore : call.phase ≠ .checked) (hc : c ∈ (s.advance call env).calls) (hid : c.id = call.id)
    (hphase : c.phase = .checked) : s.FoundNothing call env := by
  have hstuck : c ∈ s.calls → c.phase ≠ .checked := by
    intro hin
    rw [h.unique hcall hin hid]
    exact hbefore
  unfold advance at hc
  split at hc
  · split at hc
    · exact check_checked hc hid hstuck hphase
    · exact absurd hphase (hstuck hc)
  next hp =>
    split at hc
    next hop => exact scan_checked hop ((h.calls call hcall).asks _ _ _ _ hop) hp hc hid hstuck hphase
    · exact absurd hphase (hstuck hc)
  · split at hc
    · unfold reap at hc
      split at hc
      · exact absurd hphase (hstuck hc)
      · split at hc
        · exact absurd hid (id_ne_of_finish hc)
        · dsimp only at hc
          split at hc <;>
          · rw [phase_setPhase hc hid] at hphase
            cases hphase
    · exact absurd hphase (hstuck hc)
  next hp => exact absurd hp hbefore
  · unfold create at hc
    split at hc
    · exact absurd hid (id_ne_of_finish hc)
    · split at hc
      · exact absurd hid (id_ne_of_finish hc)
      · rw [phase_setPhase hc hid] at hphase
        cases hphase
  · unfold publish at hc
    rw [phase_setPhase hc hid] at hphase
    cases hphase
  · unfold wake at hc
    split at hc
    · exact absurd hid (id_ne_of_finish hc)
    · split at hc
      · exact absurd hid (id_ne_of_finish hc)
      · split at hc
        · dsimp only at hc
          split at hc
          · rw [phase_setPhase hc hid] at hphase
            cases hphase
          · exact absurd hphase (hstuck hc)
        · rw [phase_setPhase hc hid] at hphase
          cases hphase
  · exact absurd hid (id_ne_of_finish hc)

/-- A pass of a scan that has copied nothing asked about an interest which is gone or has no event. -/
theorem scan_pass {call c : Call} {ep maximum index remaining copied i r : Nat} {timeout : Int}
    {epoll : Epoll} (hepoll : s.epolls[ep]? = some epoll)
    (hc : c ∈ (s.scan call ep maximum timeout index remaining copied env).calls) (hid : c.id = call.id)
    (hphase : c.phase = .scanning i r 0) : copied = 0 ∧ r + 1 = remaining ∧ ∃ interest,
      epoll.interests[index % epoll.interests.length]? = some interest ∧
      ((s.interestEvents interest.target call.caller env).1 = -9 ∨
        0 ≤ (s.interestEvents interest.target call.caller env).1 ∧
          BitVec.ofInt 32 (s.interestEvents interest.target call.caller env).1 &&&
            (interest.events ||| 0x18) = 0) := by
  unfold scan at hc
  rw [hepoll] at hc
  dsimp only at hc
  split at hc
  · rw [(endScan_checked hc hid).2] at hphase
    cases hphase
  next hmore =>
    have hremaining : remaining ≠ 0 := fun heq => hmore (.inl heq)
    have hne : epoll.interests ≠ [] := fun heq => hmore (.inr (.inl heq))
    split at hc
    next hnone =>
      have hlt := Nat.mod_lt index (List.length_pos_iff.2 hne)
      rw [List.getElem?_eq_getElem hlt] at hnone
      cases hnone
    next interest hinterest =>
      split at hc
      next hgone =>
        rw [phase_setPhase hc hid] at hphase
        cases hphase
        exact ⟨rfl, Nat.succ_pred hremaining, interest, hinterest, .inl hgone⟩
      · split at hc
        · rw [(endScan_checked hc hid).2] at hphase
          cases hphase
        next hnonneg =>
          split at hc
          · split at hc
            · rw [(endScan_checked hc hid).2] at hphase
              cases hphase
            · rw [phase_setPhase hc hid] at hphase
              cases hphase
          next hquiet =>
            rw [phase_setPhase hc hid] at hphase
            cases hphase
            refine ⟨rfl, Nat.succ_pred hremaining, interest, hinterest, .inr ⟨?_, not_not.1 hquiet⟩⟩
            omega

/-! ## Who notifies -/

/-- The step is a change that somebody may wait for: a transfer that goes through, a timer that is set, an
interest that is added, modified or deleted, the close of an eventfd or a timer, or a change of the Binder
device. -/
inductive Changes (s : System) (env : Env) : Action → Prop
  | transfer {call : Call} {e : Nat} {writing : Bool} {value value' : BitVec 64} {event event' : Eventfd} :
      s.unlocked = true → (s.calls.find? fun c => c.id == call.id) = some call → call.phase = .checking →
      call.op = .transfer e writing value → s.eventfds[e]? = some event →
      attempt event writing value = .done event' value' → Changes s env (.advance call.id)
  | settime {caller : Caller} {fd : Int} {flags : BitVec 32} {out : Bool} {asked : Int × Int}
      {found : Nat × Timerfd × Int} : s.unlocked = true → timerfdNew flags env = .ok asked →
      s.timerfdNow caller fd env = .ok found → Changes s env (.timerfdSettime caller fd flags out)
  | control {call : Call} {ep index : Nat} {operation : Int} {interest : Interest} {epoll : Epoll} :
      (s.calls.find? fun c => c.id == call.id) = some call → call.phase = .reaping index →
      call.op = .control ep operation interest → s.epolls[ep]? = some epoll → epoll.interests[index]? = none →
      (s.applyControl call.caller ep epoll operation interest env).1 = 0 → Changes s env (.advance call.id)
  | close {fd : Int} {d : Descriptor} : s.unlocked = true → s.get fd = some d →
      d.eventfd.isSome ∨ d.timerfd.isSome → Changes s env (.close fd)
  | binder : Changes s env .binderChanged
  | reaped {token : Nat} : (s.endpoints.any fun e => e.token == token && !e.opened) = true →
      Changes s env (.reapClosed token)

/-- Those who wait have been told of a change. -/
def Told (s s' : System) : Prop := ∃ l, s'.history = l ++ s.history ∧ .changed ∈ l

/-- A notification tells those who wait. -/
theorem told_pollNotify (s : System) (env : Env) : Told s (s.pollNotify env) := by
  refine ⟨((s.waiters.filter (·.owner)).map fun w => Event.signalled w.call) ++ [.changed], ?_,
    List.mem_append_right _ List.mem_cons_self⟩
  rw [List.append_assoc]
  rfl

/-- What follows a notification does not take it back. -/
theorem Told.then_quiet {s'' : System} (h : Told s s') (hq : Quiet s' s'') : Told s s'' := by
  obtain ⟨l, hl, hmem⟩ := h
  obtain ⟨l', hl', _⟩ := hq.history
  exact ⟨l' ++ l, by rw [hl', hl, List.append_assoc], List.mem_append_right _ hmem⟩

/-- A notification counts also after other events. -/
theorem Told.of_grown {s'' : System} {l : List Event} (hl : s'.history = l ++ s.history) (h : Told s' s'') :
    Told s s'' := by
  obtain ⟨l', hl', hmem⟩ := h
  exact ⟨l' ++ l, by rw [hl', hl, List.append_assoc], List.mem_append_left _ hmem⟩

/-- What epoll_ctl changes, it tells. -/
theorem told_applyControl {caller : Caller} {ep : Nat} {epoll : Epoll} {operation : Int} {interest : Interest}
    (h : (s.applyControl caller ep epoll operation interest env).1 = 0) :
    Told s (s.applyControl caller ep epoll operation interest env).2 := by
  unfold applyControl at h ⊢
  split
  next index hfind =>
    rw [hfind] at h
    dsimp only at h
    by_cases hadd : operation = 1
    · rw [if_pos hadd] at h
      cases h
    · rw [if_neg hadd]
      split
      · exact Told.of_grown (l := []) rfl (told_pollNotify _ env)
      · exact Told.of_grown (l := [.set ep interest]) rfl (told_pollNotify _ env)
  next hfind =>
    rw [hfind] at h
    dsimp only at h
    by_cases hadd : operation = 1
    · rw [if_neg (not_not.2 hadd)] at h ⊢
      by_cases hfull : epoll.interests.length = s.interests
      · rw [if_pos hfull] at h
        cases h
      · rw [if_neg hfull] at h ⊢
        by_cases hneg : (s.interestEvents interest.target caller env).1 < 0
        · rw [if_pos hneg] at h
          omega
        · rw [if_neg hneg]
          obtain ⟨l, hl, _⟩ := (quiet_interestEvents s interest.target caller env).history
          refine Told.of_grown (l := .set ep interest :: l) ?_ (told_pollNotify _ env)
          exact congrArg _ hl
    · rw [if_pos hadd] at h
      cases h

/-- A step of a call that exists advances it. -/
theorem perform_advance_of {call : Call} (hfind : (s.calls.find? fun c => c.id == call.id) = some call) :
    s.perform (.advance call.id) env = s.advance call env := by
  unfold perform
  dsimp only
  rw [hfind]

/-- Every such change notifies. -/
theorem told_perform {a : Action} (h : s.Changes env a) : Told s (s.perform a env) := by
  cases h with
  | @transfer call e writing value value' event event' hfree hfind hphase hop hevent hattempt =>
    rw [perform_advance_of hfind]
    unfold advance
    rw [hphase]
    dsimp only
    rw [if_pos hfree]
    unfold check
    rw [hop]
    dsimp only
    unfold checkTransfer
    rw [hevent]
    dsimp only
    rw [hattempt]
    dsimp only
    cases writing with
    | true =>
      refine Told.then_quiet ?_ (quiet_finish _ _ _ _)
      exact Told.of_grown (l := [.wrote e value', .checking call.id]) rfl (told_pollNotify _ env)
    | false =>
      refine Told.then_quiet ?_ (quiet_setPhase _ _ _)
      exact Told.of_grown (l := [.consumed e value', .checking call.id]) rfl (told_pollNotify _ env)
  | @settime caller fd flags out asked found hfree hnew hnow =>
    unfold perform timerfdSettime
    dsimp only
    rw [if_pos hfree, hnew, hnow]
    dsimp only
    have htold : ∀ timer, Told s ((s.setTimerfd found.1 timer).pollNotify env) := fun timer =>
      Told.of_grown (l := []) rfl (told_pollNotify _ env)
    split
    · exact (htold _).then_quiet (quiet_start _ _ _ nofun)
    · exact (htold _).then_quiet (quiet_reply _ _)
  | @control call ep index operation interest epoll hfind hphase hop hepoll hlast hdone =>
    rw [perform_advance_of hfind]
    unfold advance
    rw [hphase, hop]
    dsimp only
    unfold reap
    rw [hepoll]
    dsimp only
    rw [hlast]
    exact (told_applyControl hdone).then_quiet (quiet_finish _ _ _ _)
  | @close fd d hfree hget hkind =>
    unfold perform close
    dsimp only
    rw [if_pos hfree, hget]
    dsimp only
    rw [if_pos hkind]
    refine Told.then_quiet ?_ (quiet_reply _ _)
    obtain ⟨l, hl, _⟩ :=
      (quiet_dropBinder { s with descriptors := s.descriptors.set (fd - 3).toNat {} } d.binder env).history
    exact Told.of_grown hl (told_pollNotify _ env)
  | binder => exact told_pollNotify s env
  | reaped hany =>
    unfold perform
    dsimp only
    rw [if_pos hany]
    exact Told.of_grown (l := []) rfl (told_pollNotify _ env)

/-- No wakeup is lost. A call that sleeps has a published wake object; it looked after the wake
object was published and found nothing, and if anything changed since it began to look, the wake
object has been signalled and nobody has seen the signal. If nothing changed, what an eventfd read
or write waits for is still absent. A call comes to sleep by looks that found nothing only. Whatever
changes what somebody may wait for is told. -/
theorem no_lost_wakeup (h : machine.Reachable s) {call : Call} (hcall : call ∈ s.calls) :
    (call.phase = .waiting →
      (.checking call.id ∈ s.history ∧ .checked call.id ∈ since call.id s.history) ∧
      (.published call.id ∈ s.history ∧ .published call.id ∉ since call.id s.history) ∧
      ((∃ w ∈ s.waiters, w.call = call.id) ∧ ∀ w ∈ s.waiters, w.call = call.id → w.owner = true ∧
        (.changed ∈ since call.id s.history →
          .signalled call.id ∈ since call.id s.history ∧ w.latch = true)) ∧
      (.changed ∉ since call.id s.history → ∀ e writing value, call.op = .transfer e writing value →
        ∃ event, s.eventfds[e]? = some event ∧ attempt event writing value = .block)) ∧
    (∀ env, ∀ c ∈ (s.advance call env).calls, c.id = call.id →
      (c.phase = .checked → call.phase ≠ .checked → s.FoundNothing call env) ∧
      ∀ ep maximum timeout deadline index remaining copied epoll,
        call.op = .pwait ep maximum timeout deadline → s.epolls[ep]? = some epoll →
        call.phase = .scanning index remaining copied → ∀ i r, c.phase = .scanning i r 0 →
          copied = 0 ∧ r + 1 = remaining ∧ ∃ interest,
            epoll.interests[index % epoll.interests.length]? = some interest ∧
            ((s.interestEvents interest.target call.caller env).1 = -9 ∨
              0 ≤ (s.interestEvents interest.target call.caller env).1 ∧
                BitVec.ofInt 32 (s.interestEvents interest.target call.caller env).1 &&&
                  (interest.events ||| 0x18) = 0)) ∧
    ∀ a env, s.Changes env a → ∃ l, (s.perform a env).history = l ++ s.history ∧ .changed ∈ l := by
  have hw := watch h
  have hv := hw.vigilant call hcall nofun
  refine ⟨fun hp => ?_, fun env c hc hid => ⟨fun hphase hbefore => ?_,
    fun ep maximum timeout deadline index remaining copied epoll hop hepoll hp i r hphase => ?_⟩,
    fun a env hchanges => told_perform hchanges⟩
  · obtain ⟨hbegan, hpublished, hsignal⟩ := hv.began (by rw [hp]; rfl)
    have howned := hv.owned (by rw [hp]; rfl)
    obtain ⟨w, hmem, hid⟩ := hv.attached hp
    refine ⟨⟨hbegan, hv.found (by rw [hp]; rfl)⟩, ⟨(howned w hmem hid).2, hpublished⟩,
      ⟨⟨w, hmem, hid⟩, fun w hmem hid => ⟨(howned w hmem hid).1, hsignal w hmem hid⟩⟩,
      hv.idle (by rw [hp]; rfl)⟩
  · exact advance_checked hw hcall hbefore hc hid hphase
  · unfold advance at hc
    rw [hp, hop] at hc
    exact scan_pass hepoll hc hid hphase

/-- A read of an empty eventfd sleeps, and another thread writes to it. -/
def roused : System :=
  let caller : Caller := ⟨0, 1⟩
  let five : Env := { read := (0, [5, 0, 0, 0, 0, 0, 0, 0]) }
  [(.eventfd2 caller 0 0, {}), (.transfer caller 3 0 8 false, {}), (.advance 1, {}), (.advance 1, {}),
    (.advance 1, {}), (.advance 1, {}), (.advance 1, {}), (.advance 1, {}),
    (.transfer ⟨0, 2⟩ 3 0 8 true, five), (.advance 2, {})].foldl
    (fun s (a : Action × Env) => perform s a.1 a.2)
    { attached := false, interests := 4, limit := 4, descriptors := List.replicate 2 {} }

/-- In the sample the sleeping read has been signalled, and a close would signal again. -/
theorem no_lost_wakeup_roused : ∃ call ∈ roused.calls, call.phase = .waiting ∧
    .changed ∈ since call.id roused.history ∧ .signalled call.id ∈ since call.id roused.history ∧
      (∀ w ∈ roused.waiters, w.call = call.id → w.latch = true) ∧
      ∃ l, (roused.perform (.close 3) {}).history = l ++ roused.history ∧ .changed ∈ l := by
  have hstep : ∀ s (a : Action × Env), machine.step s (perform s a.1 a.2) := fun _ a => ⟨a.1, a.2, rfl⟩
  have hinit : machine.Reachable
      { attached := false, interests := 4, limit := 4, descriptors := List.replicate 2 {} } :=
    .init ⟨_, _, _, _, rfl⟩
  have hreach : machine.Reachable roused := hinit.foldl hstep _
  have hcall : (⟨1, ⟨0, 1⟩, .transfer 0 false 0, .waiting⟩ : Call) ∈ roused.calls := by decide
  have hchanged : .changed ∈ since 1 roused.history := by decide
  obtain ⟨hwaiting, _, htold⟩ := no_lost_wakeup hreach hcall
  obtain ⟨⟨w, hw, hid⟩, hall⟩ := (hwaiting rfl).2.2.1
  have hclose : roused.Changes {} (.close 3) :=
    .close (d := { kind := 11, eventfd := some 0 }) (by decide) (by decide) (.inl rfl)
  exact ⟨_, hcall, rfl, hchanged, ((hall w hw hid).2 hchanged).1, fun w hw hid =>
    ((hall w hw hid).2 hchanged).2, htold _ _ hclose⟩

end System

end Artbox.Vfs
