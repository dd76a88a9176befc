import Artbox.Vfs.Steps
import Mathlib.Data.List.Nodup

/-!
# The identity of an interest

An interest is identified by its descriptor number and its target. An epoll object has no two of one
identity and no more than its cap, and each carries what was last set for it. epoll_ctl is about the
interest in the target the descriptor number names when it is called, and leaves every other as it
is; what is reported is an interest of a target that is alive.
-/

namespace Artbox.Vfs

/-- What identifies an interest. -/
def Interest.key (i : Interest) : Int × Target := (i.fd, i.target)

/-- What was last set for an interest of epoll object `ep`. -/
def lastSet (ep : Nat) (key : Int × Target) : List Event → Option Interest
  | [] => none
  | .set ep' i :: h => if ep' = ep ∧ i.key = key then some i else lastSet ep key h
  | _ :: h => lastSet ep key h

/-- Quiet events set no interest. -/
theorem lastSet_quiet {ep : Nat} {key : Int × Target} {l h : List Event} (hl : ∀ e ∈ l, e.quiet = true) :
    lastSet ep key (l ++ h) = lastSet ep key h := by
  induction l with
  | nil => rfl
  | cons e l ih =>
    have hq := hl e List.mem_cons_self
    have hrest := ih fun x hx => hl x (List.mem_cons_of_mem _ hx)
    cases e <;> first | exact hrest | cases hq

/-- Neither the memory provider nor the clock answers EBADF. -/
def Env.Sane (env : Env) : Prop :=
  env.reap ≠ 9 ∧ ∀ seconds nanoseconds, env.clock ≠ some (-9, seconds, nanoseconds)

/-- The mask an event that is reported stays within. -/
def Event.Current (h : List Event) : Event → Prop
  | .reported ep i events => lastSet ep i.key h = some i ∧ events &&& ~~~(i.events ||| 0x18) = 0
  | _ => True

/-- Whenever an event was reported it carried what was last set. -/
def Reported (h : List Event) : Prop := ∀ pre e rest, h = pre ++ e :: rest → e.Current rest

/-- An event within what was last set may be reported. -/
theorem Reported.cons {h : List Event} {e : Event} (hr : Reported h) (he : e.Current h) :
    Reported (e :: h) := by
  intro pre e' rest heq
  cases pre with
  | nil =>
    cases heq
    exact he
  | cons x pre =>
    cases heq
    exact hr pre e' rest rfl

/-- Quiet events report nothing. -/
theorem Reported.quiet {l h : List Event} (hr : Reported h) (hl : ∀ e ∈ l, e.quiet = true) :
    Reported (l ++ h) := by
  induction l with
  | nil => exact hr
  | cons e l ih =>
    refine (ih fun x hx => hl x (List.mem_cons_of_mem _ hx)).cons ?_
    have hq := hl e List.mem_cons_self
    cases e <;> trivial

namespace System

variable {s s' : System}

/-! ## The invariant -/

/-- The interests are distinct, within the cap and as they were last set. -/
structure Identified (s : System) : Prop where
  distinct : ∀ epoll ∈ s.epolls, (epoll.interests.map Interest.key).Nodup
  bounded : ∀ epoll ∈ s.epolls, epoll.interests.length ≤ s.interests
  latest : ∀ ep epoll, s.epolls[ep]? = some epoll → ∀ i ∈ epoll.interests,
    lastSet ep i.key s.history = some i
  reports : Reported s.history

/-- A step that records only quiet events keeps the invariant. -/
theorem Identified.quiet (h : s.Identified) (hq : Quiet s s') : s'.Identified := by
  obtain ⟨l, hl, hquiet⟩ := hq.history
  refine ⟨fun epoll he => ?_, fun epoll he => ?_, fun ep epoll he i hi => ?_, ?_⟩
  · rw [hq.epolls] at he
    exact h.distinct epoll he
  · rw [hq.epolls] at he
    rw [hq.cap]
    exact h.bounded epoll he
  · rw [hq.epolls] at he
    rw [hl, lastSet_quiet hquiet]
    exact h.latest ep epoll he i hi
  · rw [hl]
    exact h.reports.quiet hquiet

/-- One epoll object gets other interests, and what is recorded says what they are. -/
theorem Identified.put (h : s.Identified) {ep : Nat} {epoll epoll' : Epoll} {l : List Event}
    (hepoll : s.epolls[ep]? = some epoll) (hd : (epoll'.interests.map Interest.key).Nodup)
    (hb : epoll'.interests.length ≤ s.interests)
    (hl : ∀ i ∈ epoll'.interests, lastSet ep i.key (l ++ s.history) = some i)
    (hother : ∀ ep' key, ep' ≠ ep → lastSet ep' key (l ++ s.history) = lastSet ep' key s.history)
    (hr : Reported (l ++ s.history)) : ((s.setEpoll ep epoll').record l).Identified := by
  refine ⟨fun x hx => ?_, fun x hx => ?_, fun ep' x hx i hi => ?_, hr⟩
  · rcases List.mem_or_eq_of_mem_set hx with hx | rfl
    · exact h.distinct x hx
    · exact hd
  · rcases List.mem_or_eq_of_mem_set hx with hx | rfl
    · exact h.bounded x hx
    · exact hb
  · rcases Slots.of_getElem?_set hx with ⟨rfl, rfl⟩ | ⟨hne, hx⟩
    · exact hl i hi
    · show lastSet ep' i.key (l ++ s.history) = some i
      rw [hother ep' i.key hne]
      exact h.latest ep' x hx i hi

/-- Setting one interest sets no other. -/
theorem lastSet_set_ne {ep ep' : Nat} {key : Int × Target} {i : Interest} {h : List Event}
    (hne : ep' ≠ ep ∨ i.key ≠ key) : lastSet ep key ([.set ep' i] ++ h) = lastSet ep key h := by
  show (if ep' = ep ∧ i.key = key then some i else lastSet ep key h) = _
  rw [if_neg]
  rintro ⟨h1, h2⟩
  rcases hne with hne | hne
  · exact hne h1
  · exact hne h2

/-- What is set is what was last set. -/
theorem lastSet_set_self {ep : Nat} {i : Interest} {h : List Event} :
    lastSet ep i.key ([.set ep i] ++ h) = some i := by
  show (if ep = ep ∧ i.key = i.key then some i else lastSet ep i.key h) = _
  rw [if_pos ⟨rfl, rfl⟩]

/-- What remains when an interest is overwritten. -/
theorem mem_set_key {l : List Interest} (hd : (l.map Interest.key).Nodup) {index : Nat}
    {old new i : Interest} (hold : l[index]? = some old) (hkey : old.key = new.key)
    (hi : i ∈ l.set index new) : i = new ∨ (i ∈ l ∧ i.key ≠ new.key) := by
  obtain ⟨j, hj⟩ := List.getElem?_of_mem hi
  rcases Slots.of_getElem?_set hj with ⟨_, rfl⟩ | ⟨hne, hj⟩
  · exact .inl rfl
  · refine .inr ⟨List.mem_of_getElem? hj, fun heq => hne ?_⟩
    obtain ⟨hjlt, rfl⟩ := List.getElem?_eq_some_iff.1 hj
    obtain ⟨hilt, rfl⟩ := List.getElem?_eq_some_iff.1 hold
    refine (@List.Nodup.getElem_inj_iff _ _ hd _ (by simpa using hjlt) _ (by simpa using hilt)).1 ?_
    rw [List.getElem_map, List.getElem_map, heq, hkey]

/-- A modified interest keeps its key in its place. -/
theorem map_key_set {l : List Interest} {index : Nat} {old new : Interest}
    (hold : l[index]? = some old) (hkey : old.key = new.key) :
    (l.set index new).map Interest.key = l.map Interest.key := by
  obtain ⟨hlt, rfl⟩ := List.getElem?_eq_some_iff.1 hold
  rw [List.map_set, ← hkey, ← List.getElem_map Interest.key (h := by simpa using hlt),
    List.set_getElem_self]

/-- Every edit of the tables keeps the invariant. -/
theorem Identified.edit {living : Target → Bool} (h : s.Identified) (he : Edit living s s') :
    s'.Identified := by
  -- an event that sets no interest and reports within the masks
  have hskip : ∀ {x : Event}, (∀ ep key (h : List Event), lastSet ep key (x :: h) = lastSet ep key h) →
      x.Current s.history → (s.record [x]).Identified := by
    intro x hx hcurrent
    refine ⟨h.distinct, h.bounded, fun ep epoll hepoll i hi => ?_, h.reports.cons hcurrent⟩
    show lastSet ep i.key (x :: s.history) = some i
    rw [hx]
    exact h.latest ep epoll hepoll i hi
  cases he with
  | opened vm initial flags =>
    have hall := hskip (x := .opened s.eventfds.length initial) (fun _ _ _ => rfl) trivial
    exact ⟨hall.1, hall.2, hall.3, hall.4⟩
  | @wrote e _ _ _ value' _ _ =>
    have hall := hskip (x := .wrote e value') (fun _ _ _ => rfl) trivial
    exact ⟨hall.1, hall.2, hall.3, hall.4⟩
  | @consumed e _ _ _ value' _ _ =>
    have hall := hskip (x := .consumed e value') (fun _ _ _ => rfl) trivial
    exact ⟨hall.1, hall.2, hall.3, hall.4⟩
  | reported hepoll hinterest _ hmask =>
    exact hskip (fun _ _ _ => rfl)
      ⟨h.latest _ _ hepoll _ (List.mem_of_getElem? hinterest), hmask⟩
  | created vm =>
    refine ⟨fun x hx => ?_, fun x hx => ?_, fun ep x hx i hi => ?_, h.reports⟩
    · rcases List.mem_append.1 hx with hx | hx
      · exact h.distinct x hx
      · rw [List.mem_singleton.1 hx]
        exact List.nodup_nil
    · rcases List.mem_append.1 hx with hx | hx
      · exact h.bounded x hx
      · rw [List.mem_singleton.1 hx]
        exact Nat.zero_le _
    · rcases Slots.of_getElem?_concat hx with ⟨_, rfl⟩ | hx
      · cases hi
      · exact h.latest ep x hx i hi
  | @cursor ep epoll _ hepoll =>
    have hmem := List.mem_of_getElem? hepoll
    exact h.put (l := []) hepoll (h.distinct epoll hmem) (h.bounded epoll hmem)
      (h.latest ep epoll hepoll) (fun _ _ _ => rfl) h.reports
  | erased index hepoll =>
    have hmem := List.mem_of_getElem? hepoll
    refine h.put (l := []) hepoll ?_ ?_ (fun i hi => ?_) (fun _ _ _ => rfl) h.reports
    · exact (h.distinct _ hmem).sublist ((List.eraseIdx_sublist _ index).map _)
    · exact Nat.le_trans (List.length_eraseIdx_le _ index) (h.bounded _ hmem)
    · exact h.latest _ _ hepoll i (List.mem_of_mem_eraseIdx hi)
  | @modified ep index epoll old interest hepoll hold hfd htarget =>
    have hmem := List.mem_of_getElem? hepoll
    have hkey : old.key = interest.key := by
      unfold Interest.key
      rw [hfd, htarget]
    refine h.put hepoll ?_ ?_ (fun i hi => ?_) (fun ep' key hne => lastSet_set_ne (.inl (Ne.symm hne)))
      (h.reports.cons trivial)
    · rw [map_key_set hold hkey]
      exact h.distinct _ hmem
    · rw [List.length_set]
      exact h.bounded _ hmem
    · rcases mem_set_key (h.distinct _ hmem) hold hkey hi with rfl | ⟨hi, hne⟩
      · exact lastSet_set_self
      · rw [lastSet_set_ne (.inr (Ne.symm hne))]
        exact h.latest ep epoll hepoll i hi
  | @added ep epoll interest hepoll _ hnew hcap =>
    have hmem := List.mem_of_getElem? hepoll
    -- the key is new, so the list stays without duplicates
    have hkeys : ∀ i ∈ epoll.interests, i.key ≠ interest.key := fun i hi heq =>
      hnew i hi (congrArg Prod.fst heq) (congrArg Prod.snd heq)
    refine h.put hepoll ?_ ?_ (fun i hi => ?_) (fun ep' key hne => lastSet_set_ne (.inl (Ne.symm hne)))
      (h.reports.cons trivial)
    · rw [List.map_append, List.map_singleton]
      refine List.nodup_append.2 ⟨h.distinct _ hmem, List.nodup_singleton _, fun a ha b hb => ?_⟩
      obtain ⟨i, hi, rfl⟩ := List.mem_map.1 ha
      rw [List.mem_singleton.1 hb]
      exact hkeys i hi
    · rw [List.length_append, List.length_singleton]
      have := h.bounded _ hmem
      omega
    · rcases List.mem_append.1 hi with hi | hi
      · rw [lastSet_set_ne (.inr (Ne.symm (hkeys i hi)))]
        exact h.latest ep epoll hepoll i hi
      · rw [List.mem_singleton.1 hi]
        exact lastSet_set_self

/-- Events are reported only of targets that are alive. -/
theorem Edit.history {living : Target → Bool} (h : Edit living s s') :
    ∃ l, s'.history = l ++ s.history ∧ ∀ ep i events, .reported ep i events ∈ l → living i.target = true := by
  cases h with
  | opened _ initial _ => exact ⟨[.opened s.eventfds.length initial], rfl, by simp⟩
  | @wrote e _ _ _ value' => exact ⟨[.wrote e value'], rfl, by simp⟩
  | @consumed e _ _ _ value' => exact ⟨[.consumed e value'], rfl, by simp⟩
  | created | cursor | erased => exact ⟨[], rfl, fun _ _ _ hmem => absurd hmem List.not_mem_nil⟩
  | @modified ep _ _ _ interest => exact ⟨[.set ep interest], rfl, by simp⟩
  | @added ep _ interest => exact ⟨[.set ep interest], rfl, by simp⟩
  | @reported ep _ _ interest events _ _ halive =>
    refine ⟨[.reported ep interest events], rfl, fun ep' i events' hmem => ?_⟩
    cases List.mem_singleton.1 hmem
    exact halive

/-- An event is reported for a target that is alive. -/
theorem Change.reported (h : Change s s') {l : List Event} (hl : s'.history = l ++ s.history) {ep : Nat}
    {i : Interest} {events : BitVec 32} (hmem : .reported ep i events ∈ l) : s.alive i.target = true := by
  have hno : ∀ {l : List Event}, (∀ e ∈ l, e.quiet = true) → .reported ep i events ∉ l := by
    intro l hq hmem
    cases hq _ hmem
  cases h with
  | quiet hq =>
    obtain ⟨l', hl', hquiet⟩ := hq.history
    rw [hl', List.append_cancel_right_eq] at hl
    exact absurd (hl ▸ hmem) (hno hquiet)
  | edit h₁ h₂ h₃ =>
    obtain ⟨l₁, hl₁, hq₁⟩ := h₁.history
    obtain ⟨l₂, hl₂, hedit⟩ := h₂.history
    obtain ⟨l₃, hl₃, hq₃⟩ := h₃.history
    rw [hl₃, hl₂, hl₁, ← List.append_assoc, ← List.append_assoc, List.append_cancel_right_eq] at hl
    rw [← hl, List.mem_append, List.mem_append] at hmem
    rcases hmem with (hmem | hmem) | hmem
    · exact absurd hmem (hno hq₃)
    · exact hedit ep i events hmem
    · exact absurd hmem (hno hq₁)

/-! ## epoll_ctl -/

/-- In a sane environment a timer's events do not fail with `-9`. -/
theorem timerfdEvents_ne {timer : Timerfd} {caller : Caller} {env : Env} (he : env.Sane) :
    (timerfdEvents timer caller env).1 ≠ -9 := by
  unfold timerfdEvents monotonicNs
  split
  · simp
  · split
    next error herror =>
      intro h
      change error = -9 at h
      subst h
      split at herror
      · cases herror
      next clock seconds nanoseconds hclock =>
        split at herror
        · cases herror
          exact he.2 _ _ hclock
        · split at herror <;> cases herror
    · dsimp only
      split <;> simp

/-- Only what is gone is called so. -/
theorem gone {target : Target} {caller : Caller} {env : Env} (he : env.Sane)
    (h : (s.interestEvents target caller env).1 = -9) : s.alive target = false := by
  unfold interestEvents at h
  unfold alive
  by_cases htoken : target.token = 0
  · rw [if_neg (not_not.2 htoken)] at h
    rw [if_neg (not_not.2 htoken)]
    cases hlock : s.lockEventfd target.eventfd with
    | some e =>
      rw [hlock] at h
      dsimp only at h ⊢
      cases hget : s.eventfds[e]? with
      | none => rfl
      | some event =>
        rw [hget] at h
        dsimp only at h
        -- an eventfd that is there answers
        split at h
        · have := Int.natCast_nonneg (eventfdEvents event)
          omega
        · simp at h
    | none =>
      rw [hlock] at h
      dsimp only at h ⊢
      cases htimer : s.lockTimerfd target.timerfd with
      | none => rfl
      | some t =>
        rw [htimer] at h
        dsimp only at h ⊢
        cases hget : s.timerfds[t]? with
        | none => rfl
        | some timer =>
          rw [hget] at h
          exact absurd h (timerfdEvents_ne he)
  · rw [if_pos htoken] at h
    rw [if_pos htoken]
    split at h
    · have := he.1
      simp at h
      omega
    · split at h
      · cases hready : env.ready target.token <;> rw [hready] at h <;> simp [Readiness.value] at h
      next hany => exact Bool.eq_false_iff.2 hany

end System

end Artbox.Vfs
