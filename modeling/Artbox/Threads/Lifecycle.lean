import Artbox.Threads.Model
import Artbox.Lib.Trace
import Mathlib.Data.List.Nodup
import Mathlib.Tactic.Common

/-!
# The life of a guest thread

A TID belongs to one worker, which has one place at a time: with its creator, among the active
workers, or with the reaper. What may have happened to it follows from its place, and `Sound` says
so for all of them.
-/

namespace Artbox.Threads

open Trace

namespace Event

/-- The TID an event is about. -/
def tid : Event → Option Nat
  | assigned t | wrote t | started t | ran t | returned t _ | joined t _ | detached t _
  | cleared t _ | unmapped t _ | failed t | reaped t => some t
  | refused _ => none

/-- The memory of the worker is given back: its TID is cleared or its stack unmapped. -/
def attempts (t : Nat) : Event → Bool
  | cleared t' _ | unmapped t' _ => t' == t
  | _ => false

/-- The reaper has done something with the worker. -/
def late (t : Nat) : Event → Bool
  | joined t' _ | detached t' _ | cleared t' _ | unmapped t' _ | failed t' | reaped t' => t' == t
  | _ => false

/-- The TID given to a start. -/
def assignment : Event → Option Nat
  | assigned t => some t
  | _ => none

/-- Memory is given back by the reaper only. -/
theorem late_of_attempts {t : Nat} {e : Event} (h : e.attempts t = true) : e.late t = true := by
  cases e <;> first | exact h | cases h

/-- What the reaper does, it does to one worker. -/
theorem tid_of_late {t : Nat} {e : Event} (h : e.late t = true) : e.tid = some t := by
  cases e <;> first | exact congrArg some (beq_iff_eq.1 h) | cases h

end Event

/-- The reaper has not come to the worker. -/
def Unreaped (h : List Event) (t : Nat) : Prop := ∀ e ∈ h, e.late t = false

/-- What an event requires of the history before it. -/
def Rule (e : Event) (older : List Event) : Prop :=
  (∀ t, e.attempts t = true → .joined t 0 ∈ older ∧ (∀ e' ∈ older, e'.attempts t = false) ∧
    (∀ error, .returned t error ∈ older → error = 0) ∧
    ∀ error, .detached t error ∈ older → error = 0) ∧
  (∀ t, e = .ran t → .wrote t ∈ older) ∧
  ∀ t, e = .started t → .wrote t ∈ older ∧ ∀ t', .failed t' ∉ older

/-- What has happened to a worker the reaper is at. -/
def Stage.Facts (w : Worker) (h : List Event) : Stage → Prop
  | joining => Unreaped h w.tid
  | joined => .joined w.tid 0 ∈ h ∧ ∀ e ∈ h, e.late w.tid = true → e = .joined w.tid 0
  | detached error => (.joined w.tid 0 ∈ h ∧ ∀ e ∈ h, e.late w.tid = true →
      e = .joined w.tid 0 ∨ ∃ result, e = .detached w.tid result) ∧
    (error = 0 → w.attached = false ∧ w.finish.error = 0 ∧
      ∀ result, .detached w.tid result ∈ h → result = 0)
  | acted _ => ∀ error, .joined w.tid error ∈ h → error = 0
  | failed _ => ∃ error, error ≠ 0 ∧ .joined w.tid error ∈ h ∧
      ∀ e ∈ h, e.late w.tid = true → e = .joined w.tid error
  | lost => ∃ error, error ≠ 0 ∧ .joined w.tid error ∈ h ∧
      ∀ e ∈ h, e.late w.tid = true → e = .joined w.tid error ∨ e = .failed w.tid

/-- The join of the worker failed. -/
def Stage.unjoined : Stage → Bool
  | failed _ | lost => true
  | _ => false

/-- What is true of every worker with a record. -/
structure Worker.Fit (attached : List Nat) (h : List Event) (w : Worker) : Prop where
  attached : w.attached = true ↔ w.tid ∈ attached
  wrote : .wrote w.tid ∈ h
  returned : ∀ error, .returned w.tid error ∈ h →
    (w.phase = .returned ∨ w.phase = .done) ∧ error = w.finish.error

/-- What is true of a worker that is being created. -/
structure Worker.New (attached : List Nat) (h : List Event) (w : Worker) : Prop where
  attached : w.attached = true ↔ w.tid ∈ attached
  idle : w.busy = false ∧ w.phase = .blocked
  unreaped : Unreaped h w.tid
  unreturned : ∀ error, .returned w.tid error ∉ h

namespace System

/-- Where every worker is, and what has happened to it. -/
structure Sound (s : System) : Prop where
  base : s.pid < s.nextTid
  past : ∀ e ∈ s.history, ∀ t, e.tid = some t → t < s.nextTid
  assigned : (s.history.filterMap Event.assignment).Nodup ∧
    ∀ t ∈ s.history.filterMap Event.assignment, s.pid < t
  attached : ∀ t ∈ s.attached, t < s.nextTid
  distinct : (s.active.map Worker.tid).Nodup
  active : ∀ w ∈ s.active, w.tid < s.nextTid ∧ w.Fit s.attached s.history
  creator : ∀ w stage, s.creator = some (w, stage) → w.tid < s.nextTid ∧
    (∀ w' ∈ s.active, w'.tid ≠ w.tid) ∧ w.New s.attached s.history ∧
    (stage = .stored → .wrote w.tid ∈ s.history)
  unreaped : ∀ w ∈ s.active, (∀ stage, s.reaper ≠ .at w.tid stage) → Unreaped s.history w.tid
  reaper : ∀ t stage, s.reaper = .at t stage → ∃ w ∈ s.active, w.tid = t ∧ w.phase = .done ∧
    stage.Facts w s.history
  lost : ∀ t error, .joined t error ∈ s.history → error ≠ 0 →
    ∃ stage, s.reaper = .at t stage ∧ stage.unjoined = true
  errors : (∃ t, .failed t ∈ s.history) → s.error ≠ 0 ∧ s.creator = none
  rules : Always Rule s.history

variable {s : System} {env : Env}

/-! ## One more event -/

section Events

variable {h : List Event} {e : Event} {t : Nat} {w : Worker} {attached : List Nat}

/-- Events that are not the reaper's leave a worker unreaped. -/
theorem Unreaped.cons (hu : Unreaped h t) (he : e.late t = false) : Unreaped (e :: h) t := by
  intro x hx
  rcases List.mem_cons.1 hx with rfl | hx
  · exact he
  · exact hu x hx

/-- A TID that was never given out belongs to no reaped worker. -/
theorem unreaped_of_past {next : Nat} (hp : ∀ e ∈ h, ∀ t, e.tid = some t → t < next) :
    Unreaped h next := by
  intro e he
  by_contra hlate
  exact Nat.lt_irrefl _ (hp e he next (Event.tid_of_late (Bool.not_eq_false _ ▸ hlate)))

/-- A worker stays fit across an event that is not its own return. -/
theorem Fit.cons (hf : w.Fit attached h) (he : ∀ error, e = .returned w.tid error →
    (w.phase = .returned ∨ w.phase = .done) ∧ error = w.finish.error) : w.Fit attached (e :: h) := by
  refine ⟨hf.attached, List.mem_cons_of_mem _ hf.wrote, fun error hmem => ?_⟩
  rcases List.mem_cons.1 hmem with heq | hmem
  · exact he error heq.symm
  · exact hf.returned error hmem

/-- A worker being created stays new until its return or the reaper. -/
theorem New.cons (hn : w.New attached h) (hlate : e.late w.tid = false)
    (he : ∀ error, e ≠ .returned w.tid error) : w.New attached (e :: h) := by
  refine ⟨hn.attached, hn.idle, Unreaped.cons hn.unreaped hlate, fun error hmem => ?_⟩
  rcases List.mem_cons.1 hmem with heq | hmem
  · exact he error heq.symm
  · exact hn.unreturned error hmem

/-- What happened to a worker does not depend on what is not about it. -/
theorem facts_cons {stage : Stage} (hf : stage.Facts w h) (he : e.late w.tid = false) :
    stage.Facts w (e :: h) := by
  have hmem : ∀ {x : Event}, x.late w.tid = true → x ∈ e :: h → x ∈ h := by
    intro x hx hin
    rcases List.mem_cons.1 hin with rfl | hin
    · rw [he] at hx
      cases hx
    · exact hin
  have hself : ∀ n : Nat, (n == n) = true := fun n => beq_self_eq_true n
  cases stage with
  | joining => exact Unreaped.cons hf he
  | joined => exact ⟨List.mem_cons_of_mem _ hf.1, fun x hx hl => hf.2 x (hmem hl hx) hl⟩
  | detached error =>
    obtain ⟨⟨hj, hall⟩, hzero⟩ := hf
    refine ⟨⟨List.mem_cons_of_mem _ hj, fun x hx hl => hall x (hmem hl hx) hl⟩, fun h0 => ?_⟩
    obtain ⟨ha, hfin, hd⟩ := hzero h0
    exact ⟨ha, hfin, fun result hx => hd result (hmem (hself _) hx)⟩
  | acted error => exact fun error hx => hf error (hmem (hself _) hx)
  | failed error =>
    obtain ⟨r, hr, hj, hall⟩ := hf
    exact ⟨r, hr, List.mem_cons_of_mem _ hj, fun x hx hl => hall x (hmem hl hx) hl⟩
  | lost =>
    obtain ⟨r, hr, hj, hall⟩ := hf
    exact ⟨r, hr, List.mem_cons_of_mem _ hj, fun x hx hl => hall x (hmem hl hx) hl⟩

end Events

/-- An event that is not the reaper's. -/
theorem Sound.record (hs : s.Sound) {e : Event} (htid : ∀ t, e.tid = some t → t < s.nextTid)
    (hassign : e.assignment = none) (hearly : ∀ t, e.late t = false)
    (hreturned : ∀ t error, e = .returned t error →
      (∀ w ∈ s.active, w.tid = t → (w.phase = .returned ∨ w.phase = .done) ∧ error = w.finish.error) ∧
      ∀ w stage, s.creator = some (w, stage) → w.tid ≠ t)
    (hrule : Rule e s.history) : (s.record [e]).Sound := by
  have hnotlate : ∀ {x : Event} {t : Nat}, x.late t = true → x ∈ e :: s.history → x ∈ s.history := by
    intro x t hx hin
    rcases List.mem_cons.1 hin with rfl | hin
    · rw [hearly t] at hx
      cases hx
    · exact hin
  refine ⟨hs.base, fun x hx t ht => ?_, ?_, hs.attached, hs.distinct, fun w hw => ?_,
    fun w stage hc => ?_, fun w hw hne => ?_, fun t stage hr => ?_, fun t error hj hne => ?_,
    fun hf => ?_, ⟨hrule, hs.rules⟩⟩
  · rcases List.mem_cons.1 hx with rfl | hx
    · exact htid t ht
    · exact hs.past x hx t ht
  · show ((e :: s.history).filterMap _).Nodup ∧ ∀ t ∈ (e :: s.history).filterMap _, _
    rw [List.filterMap_cons_none hassign]
    exact hs.assigned
  · refine ⟨(hs.active w hw).1, Fit.cons (hs.active w hw).2 fun error heq => ?_⟩
    exact (hreturned _ _ heq).1 w hw rfl
  · obtain ⟨hlt, hne, hnew, hwrote⟩ := hs.creator w stage hc
    refine ⟨hlt, hne, New.cons hnew (hearly _) fun error heq => ?_, fun hst =>
      List.mem_cons_of_mem _ (hwrote hst)⟩
    exact (hreturned _ _ heq).2 w stage hc rfl
  · exact Unreaped.cons (hs.unreaped w hw hne) (hearly _)
  · obtain ⟨w, hw, hid, hdone, hfacts⟩ := hs.reaper t stage hr
    exact ⟨w, hw, hid, hdone, facts_cons hfacts (hearly _)⟩
  · exact hs.lost t error (hnotlate (beq_self_eq_true t) hj) hne
  · obtain ⟨t, hf⟩ := hf
    exact hs.errors ⟨t, hnotlate (beq_self_eq_true t) hf⟩

/-- A refused start leaves everything sound. -/
theorem Sound.refuse (hs : s.Sound) (error : Int) : (s.refuse error).Sound := by
  refine Sound.record hs nofun rfl (fun _ => rfl) nofun ⟨fun t ht => ?_, nofun, nofun⟩
  cases ht

/-! ## The creator -/

/-- A start takes the next TID. -/
theorem Sound.assign (hs : s.Sound) :
    ({ s with nextTid := s.nextTid + 1 }.record [.assigned s.nextTid]).Sound := by
  refine ⟨Nat.lt_succ_of_lt hs.base, fun x hx t ht => ?_, ?_, fun t ht => Nat.lt_succ_of_lt (hs.attached t ht),
    hs.distinct, fun w hw => ?_, fun w stage hc => ?_, fun w hw hne => ?_, fun t stage hr => ?_,
    fun t error hj hne => ?_, fun hf => ?_, ⟨⟨nofun, nofun, nofun⟩, hs.rules⟩⟩
  · rcases List.mem_cons.1 hx with rfl | hx
    · cases ht
      exact Nat.lt_succ_self _
    · exact Nat.lt_succ_of_lt (hs.past x hx t ht)
  · show (s.nextTid :: s.history.filterMap Event.assignment).Nodup ∧
      ∀ t ∈ s.nextTid :: s.history.filterMap Event.assignment, s.pid < t
    refine ⟨List.nodup_cons.2 ⟨fun hmem => ?_, hs.assigned.1⟩, fun t ht => ?_⟩
    · obtain ⟨x, hx, ha⟩ := List.mem_filterMap.1 hmem
      refine Nat.lt_irrefl _ (hs.past x hx s.nextTid ?_)
      cases x <;> first | exact ha | cases ha
    · rcases List.mem_cons.1 ht with rfl | ht
      · exact hs.base
      · exact hs.assigned.2 t ht
  · obtain ⟨hlt, hfit⟩ := hs.active w hw
    exact ⟨Nat.lt_succ_of_lt hlt, Fit.cons hfit nofun⟩
  · obtain ⟨hlt, hne, hnew, hwrote⟩ := hs.creator w stage hc
    exact ⟨Nat.lt_succ_of_lt hlt, hne, New.cons hnew rfl nofun, fun hst =>
      List.mem_cons_of_mem _ (hwrote hst)⟩
  · exact Unreaped.cons (hs.unreaped w hw hne) rfl
  · obtain ⟨w, hw, hid, hdone, hfacts⟩ := hs.reaper t stage hr
    exact ⟨w, hw, hid, hdone, facts_cons hfacts rfl⟩
  · refine hs.lost t error ((List.mem_cons.1 hj).resolve_left nofun) hne
  · obtain ⟨t, hf⟩ := hf
    exact hs.errors ⟨t, (List.mem_cons.1 hf).resolve_left nofun⟩

/-- Of the attached threads only the worker's own TID matters to it. -/
theorem Fit.attached_congr {w : Worker} {attached attached' : List Nat} {h : List Event}
    (hf : w.Fit attached h) (ha : w.tid ∈ attached' ↔ w.tid ∈ attached) : w.Fit attached' h :=
  ⟨hf.attached.trans ha.symm, hf.wrote, hf.returned⟩

/-- The record of a new worker is made, and its signal thread attached if there is to be one. -/
theorem Sound.prepare (hs : s.Sound) (herror : s.error = 0) {w : Worker}
    (hlt : w.tid < s.nextTid) (hfresh : ∀ w' ∈ s.active, w'.tid ≠ w.tid)
    (hidle : w.busy = false ∧ w.phase = .blocked) (hu : Unreaped s.history w.tid)
    (hr : ∀ error, .returned w.tid error ∉ s.history) {attached : List Nat}
    (hw : w.attached = true ↔ w.tid ∈ attached)
    (hattached : ∀ t, t ≠ w.tid → (t ∈ attached ↔ t ∈ s.attached)) :
    ({ s with attached, creator := some (w, .prepared) } : System).Sound := by
  refine ⟨hs.base, hs.past, hs.assigned, fun t ht => ?_, hs.distinct, fun w' hw' => ?_,
    fun w' stage hc => ?_, hs.unreaped, hs.reaper, hs.lost, fun hf => ?_, hs.rules⟩
  · by_cases heq : t = w.tid
    · rw [heq]
      exact hlt
    · exact hs.attached t ((hattached t heq).1 ht)
  · obtain ⟨hlt', hfit⟩ := hs.active w' hw'
    exact ⟨hlt', Fit.attached_congr hfit (hattached _ (hfresh w' hw'))⟩
  · cases hc
    exact ⟨hlt, hfresh, ⟨hw, hidle, hu, hr⟩, nofun⟩
  · exact absurd herror (hs.errors hf).1

/-- The call of a start keeps the invariant. -/
theorem sound_begin (hs : s.Sound) (start : Start) :
    (s.begin start env).Sound := by
  unfold begin
  split
  · exact hs.refuse _
  next hok =>
    split
    · exact hs.refuse _
    · split
      · exact hs.refuse _
      · dsimp only
        have ha := hs.assign
        split
        · exact ha.refuse _
        · -- nothing has happened to the new TID
          have hpast : ∀ e ∈ s.history, e.tid ≠ some s.nextTid := fun e he ht =>
            Nat.lt_irrefl _ (hs.past e he _ ht)
          have hnot : s.nextTid ∉ s.attached := fun hmem => Nat.lt_irrefl _ (hs.attached _ hmem)
          have hu : Unreaped ([.assigned s.nextTid] ++ s.history) s.nextTid :=
            Unreaped.cons (unreaped_of_past hs.past) rfl
          have hr : ∀ error, .returned s.nextTid error ∉ [.assigned s.nextTid] ++ s.history := by
            intro error hmem
            rcases List.mem_cons.1 hmem with hmem | hmem
            · cases hmem
            · exact hpast _ hmem rfl
          have hfresh : ∀ w ∈ s.active, w.tid ≠ s.nextTid := fun w hw =>
            Nat.ne_of_lt (hs.active w hw).1
          have herror : s.error = 0 := not_not.1 fun hne => hok (.inr hne)
          unfold inherit
          split
          · refine Sound.prepare (w := { tid := s.nextTid, start, clearTid := start.childTid }) ha herror
              (Nat.lt_succ_self _) hfresh ⟨rfl, rfl⟩ hu hr ?_ fun t _ => Iff.rfl
            exact ⟨nofun, fun hmem => absurd hmem hnot⟩
          · split
            next hmem => exact absurd hmem hnot
            · split
              · exact ha.refuse _
              · refine Sound.prepare
                  (w := { tid := s.nextTid, start, clearTid := start.childTid, attached := true }) ha herror
                  (Nat.lt_succ_self _) hfresh ⟨rfl, rfl⟩ hu hr ?_ fun t hne => ?_
                · exact ⟨fun _ => List.mem_cons_self, fun _ => rfl⟩
                · exact ⟨fun hmem => (List.mem_cons.1 hmem).resolve_left hne, List.mem_cons_of_mem _⟩

/-- The creator gives up; it takes the signal thread with it. -/
theorem sound_abandon (hs : s.Sound) {w : Worker} {stage : Creation} (hc : s.creator = some (w, stage))
    (error : Int) : (s.abandon w error).Sound := by
  obtain ⟨_, hne, hnew, _⟩ := hs.creator w stage hc
  have hdrop : ∀ attached, (∀ t ∈ attached, t ∈ s.attached) →
      (∀ t, t ≠ w.tid → (t ∈ attached ↔ t ∈ s.attached)) →
      ({ s with attached, creator := none } : System).Sound := by
    intro attached hsub hiff
    refine ⟨hs.base, hs.past, hs.assigned, fun t ht => hs.attached t (hsub t ht), hs.distinct,
      fun w' hw' => ?_, nofun, hs.unreaped, hs.reaper, hs.lost, fun hf => ⟨(hs.errors hf).1, rfl⟩,
      hs.rules⟩
    obtain ⟨hlt', hfit⟩ := hs.active w' hw'
    exact ⟨hlt', Fit.attached_congr hfit (hiff _ (hne w' hw'))⟩
  have hdetach : s.detach w = (0, { w with attached := false },
      { s with attached := s.attached.filter fun t => t != w.tid }) := by
    unfold detach
    rw [hnew.idle.1]
    rfl
  unfold abandon
  rw [hdetach]
  refine Sound.refuse ?_ _
  split
  · refine hdrop _ (fun t ht => (List.mem_filter.1 ht).1) fun t hne => ?_
    rw [List.mem_filter, bne_iff_ne]
    exact ⟨And.left, fun ht => ⟨ht, hne⟩⟩
  · exact hdrop _ (fun t ht => ht) fun t _ => Iff.rfl

/-- A store of the guest keeps the invariant. -/
theorem Sound.storeWord (hs : s.Sound) (address value : Nat) : (s.storeWord address value).Sound :=
  ⟨hs.base, hs.past, hs.assigned, hs.attached, hs.distinct, hs.active, hs.creator, hs.unreaped,
    hs.reaper, hs.lost, hs.errors, hs.rules⟩

/-- Every stage of the creation, with all its failures, keeps the invariant. -/
theorem sound_create (hs : s.Sound) : (s.create env).Sound := by
  unfold create
  split
  · exact hs
  next w hc =>
    split
    · exact sound_abandon hs hc _
    · split
      · exact sound_abandon hs hc _
      · refine ⟨hs.base, hs.past, hs.assigned, hs.attached, hs.distinct, hs.active, fun w' stage hc' => ?_,
          hs.unreaped, hs.reaper, hs.lost, fun hf => ?_, hs.rules⟩
        · cases hc'
          obtain ⟨hlt, hne, hnew, _⟩ := hs.creator w _ hc
          exact ⟨hlt, hne, hnew, nofun⟩
        · rw [(hs.errors hf).2] at hc
          cases hc
  next w hc =>
    obtain ⟨hlt, hne, hnew, _⟩ := hs.creator w _ hc
    have hwrote : (s.record [.wrote w.tid]).Sound := by
      refine Sound.record hs (fun t ht => ?_) rfl (fun _ => rfl) nofun ⟨nofun, nofun, nofun⟩
      cases ht
      exact hlt
    refine ⟨hwrote.base, hwrote.past, hwrote.assigned, hwrote.attached, hwrote.distinct, hwrote.active,
      fun w' stage hc' => ?_, hwrote.unreaped, hwrote.reaper, hwrote.lost, fun hf => ?_, hwrote.rules⟩
    · cases hc'
      exact ⟨hlt, hne, New.cons hnew rfl nofun, fun _ => List.mem_cons_self⟩
    · rw [show s.creator = none from (hwrote.errors hf).2] at hc
      cases hc
  next w hc =>
    obtain ⟨hlt, hne, hnew, hwrote⟩ := hs.creator w _ hc
    have hcommit : ({ s with creator := none, active := s.active ++ [w] } : System).Sound := by
      refine ⟨hs.base, hs.past, hs.assigned, hs.attached, ?_, fun w' hw' => ?_, nofun,
        fun w' hw' hr => ?_, fun t stage hr => ?_, hs.lost, fun hf => ⟨(hs.errors hf).1, rfl⟩, hs.rules⟩
      · rw [List.map_append]
        refine List.nodup_append.2 ⟨hs.distinct, List.nodup_singleton _, fun a ha b hb => ?_⟩
        obtain ⟨w', hw', rfl⟩ := List.mem_map.1 ha
        rw [List.mem_singleton.1 hb]
        exact hne w' hw'
      · rcases List.mem_append.1 hw' with hw' | hw'
        · exact hs.active w' hw'
        · rw [List.mem_singleton.1 hw']
          exact ⟨hlt, hnew.attached, hwrote rfl, fun error hmem => absurd hmem (hnew.unreturned error)⟩
      · rcases List.mem_append.1 hw' with hw' | hw'
        · exact hs.unreaped w' hw' hr
        · rw [List.mem_singleton.1 hw']
          exact hnew.unreaped
      · obtain ⟨w', hw', hid, hdone, hfacts⟩ := hs.reaper t stage hr
        exact ⟨w', List.mem_append_left _ hw', hid, hdone, hfacts⟩
    refine Sound.record hcommit (fun t ht => ?_) rfl (fun _ => rfl) nofun ⟨nofun, nofun, fun t ht => ?_⟩
    · cases ht
      exact hlt
    · cases ht
      refine ⟨hwrote rfl, fun t' hf => ?_⟩
      rw [(hs.errors ⟨t', hf⟩).2] at hc
      cases hc

/-! ## The worker -/

/-- A worker changes. -/
theorem Sound.setWorker (hs : s.Sound) {w : Worker} (hw : w ∈ s.active) {f : Worker → Worker}
    (hf : (f w).tid = w.tid) {attached : List Nat} (hlt : ∀ t ∈ attached, t < s.nextTid)
    (hattached : ∀ t, t ≠ w.tid → (t ∈ attached ↔ t ∈ s.attached))
    (hfit : (f w).Fit attached s.history)
    (hreaper : ∀ stage, s.reaper = .at w.tid stage → w.phase = .done → stage.Facts w s.history →
      (f w).phase = .done ∧ stage.Facts (f w) s.history) :
    ({ s with attached }.setWorker w.tid f).Sound := by
  -- no two workers share an identifier
  have hself : ∀ x ∈ s.active, x.tid = w.tid → x = w := fun x hx hxw =>
    List.inj_on_of_nodup_map hs.distinct hx hw hxw
  have hid : ∀ x ∈ s.active, (if x.tid = w.tid then f x else x).tid = x.tid := by
    intro x hx
    split
    next heq =>
      rw [hself x hx heq]
      exact hf
    · rfl
  refine ⟨hs.base, hs.past, hs.assigned, hlt, ?_, fun x hx => ?_, fun x stage hc => ?_,
    fun x hx hne => ?_, fun t stage hr => ?_, hs.lost, hs.errors, hs.rules⟩
  · have hmap : (s.active.map fun x => if x.tid = w.tid then f x else x).map Worker.tid =
        s.active.map Worker.tid := by
      rw [List.map_map]
      exact List.map_congr_left hid
    show ((s.active.map _).map Worker.tid).Nodup
    rw [hmap]
    exact hs.distinct
  · obtain ⟨x', hx', rfl⟩ := List.mem_map.1 hx
    rw [hid x' hx']
    refine ⟨(hs.active x' hx').1, ?_⟩
    split
    next heq =>
      rw [hself x' hx' heq]
      exact hfit
    next hne => exact Fit.attached_congr (hs.active x' hx').2 (hattached _ hne)
  · obtain ⟨hltx, hne, hnew, hwrote⟩ := hs.creator x stage hc
    refine ⟨hltx, fun y hy => ?_, ⟨hnew.attached.trans ?_, hnew.idle, hnew.unreaped, hnew.unreturned⟩,
      hwrote⟩
    · obtain ⟨y', hy', rfl⟩ := List.mem_map.1 hy
      rw [hid y' hy']
      exact hne y' hy'
    · exact (hattached _ fun heq => hne w hw heq.symm).symm
  · obtain ⟨x', hx', rfl⟩ := List.mem_map.1 hx
    rw [hid x' hx'] at hne ⊢
    exact hs.unreaped x' hx' hne
  · obtain ⟨x, hx, hxt, hdone, hfacts⟩ := hs.reaper t stage hr
    refine ⟨_, List.mem_map.2 ⟨x, hx, rfl⟩, (hid x hx).trans hxt, ?_⟩
    split
    next heq =>
      obtain rfl := hself x hx heq
      subst hxt
      exact hreaper stage hr hdone hfacts
    · exact ⟨hdone, hfacts⟩

/-- The worker that is found for a TID has a record and this TID. -/
theorem of_find {t : Nat} {w : Worker} (h : (s.active.find? fun w => w.tid == t) = some w) :
    w ∈ s.active ∧ w.tid = t := by
  have hid := List.find?_some h
  exact ⟨List.mem_of_find?_eq_some h, beq_iff_eq.1 hid⟩

/-- Entering the guest keeps the invariant. -/
theorem sound_enter (hs : s.Sound) (tid : Nat) : (s.enter tid).Sound := by
  unfold enter
  split
  · exact hs
  next hfree =>
    split
    next w hfind =>
      obtain ⟨hw, rfl⟩ := of_find hfind
      split
      next hphase =>
        obtain ⟨hlt, hfit⟩ := hs.active w hw
        have hnot : ∀ error, .returned w.tid error ∉ s.history := by
          intro error hmem
          rcases (hfit.returned error hmem).1 with h | h <;>
          · rw [hphase] at h
            cases h
        have hset := hs.setWorker hw (f := fun w => { w with phase := .running }) rfl
          hs.attached (fun _ _ => Iff.rfl)
          ⟨hfit.attached, hfit.wrote, fun error hmem => absurd hmem (hnot error)⟩
          fun _ _ hdone => absurd hdone (by rw [hphase]; nofun)
        refine Sound.record hset (fun t ht => ?_) rfl (fun _ => rfl) nofun ⟨nofun, fun t ht => ?_, nofun⟩
        · cases ht
          exact hlt
        · cases ht
          exact hfit.wrote
      · exact hs
    · exact hs

/-- Leaving the guest keeps the invariant. -/
theorem sound_leave (hs : s.Sound) (tid : Nat) (o : Outcome) : (s.leave tid o).Sound := by
  unfold leave
  split
  next w hfind =>
    obtain ⟨hw, rfl⟩ := of_find hfind
    split
    next hphase =>
      obtain ⟨hlt, hfit⟩ := hs.active w hw
      have hnot : ∀ error, .returned w.tid error ∉ s.history := by
        intro error hmem
        rcases (hfit.returned error hmem).1 with h | h <;>
        · rw [hphase] at h
          cases h
      dsimp only
      generalize hattached : (if o.attached = true then w.tid :: s.attached
        else s.attached.filter fun t => t != w.tid) = attached
      have hmem : ∀ t, t ≠ w.tid → (t ∈ attached ↔ t ∈ s.attached) := by
        intro t hne
        rw [← hattached]
        split
        · exact ⟨fun h => (List.mem_cons.1 h).resolve_left hne, List.mem_cons_of_mem _⟩
        · rw [List.mem_filter, bne_iff_ne]
          exact ⟨And.left, fun h => ⟨h, hne⟩⟩
      have hself : o.attached = true ↔ w.tid ∈ attached := by
        rw [← hattached]
        split
        next h => exact ⟨fun _ => List.mem_cons_self, fun _ => h⟩
        next h =>
          rw [List.mem_filter, bne_iff_ne]
          exact ⟨fun h' => absurd h' h, fun h' => absurd rfl h'.2⟩
      have hset := hs.setWorker hw (f := fun w =>
          { w with finish := o.finish, clearTid := o.clearTid, attached := o.attached, busy := o.busy,
                   phase := .returned }) rfl
        (fun t ht => by
          by_cases heq : t = w.tid
          · rw [heq]
            exact hlt
          · exact hs.attached t ((hmem t heq).1 ht))
        hmem ⟨hself, hfit.wrote, fun error hmem => absurd hmem (hnot error)⟩
        fun _ _ hdone => absurd hdone (by rw [hphase]; nofun)
      refine Sound.record hset (fun t ht => ?_) rfl (fun _ => rfl) (fun t error heq => ⟨fun x hx hid => ?_,
        fun x stage hc => ?_⟩) ⟨nofun, nofun, nofun⟩
      · cases ht
        exact hlt
      · cases heq
        obtain ⟨x', hx', rfl⟩ := List.mem_map.1 hx
        by_cases h : x'.tid = w.tid
        · rw [if_pos h]
          exact ⟨.inl rfl, rfl⟩
        · rw [if_neg h] at hid
          exact absurd hid h
      · cases heq
        exact fun heq => (hs.creator x stage hc).2.1 w hw heq.symm
    · exact hs
  · exact hs

/-- The return of the native thread keeps the invariant. -/
theorem sound_complete (hs : s.Sound) (tid : Nat) : (s.complete tid).Sound := by
  unfold complete
  split
  · exact hs
  · split
    next w hfind =>
      obtain ⟨hw, rfl⟩ := of_find hfind
      split
      next hphase =>
        obtain ⟨_, hfit⟩ := hs.active w hw
        refine hs.setWorker hw (f := fun w => { w with phase := .done }) rfl hs.attached
          (fun _ _ => Iff.rfl) ⟨hfit.attached, hfit.wrote, fun error hmem => ⟨.inr rfl, ?_⟩⟩
          fun _ _ hdone => absurd hdone (by rw [hphase]; nofun)
        exact (hfit.returned error hmem).2
      · exact hs
    · exact hs

/-! ## The reaper -/

/-- The reaper goes on with a worker. -/
theorem Sound.advance (hs : s.Sound) {t : Nat} {stage stage' : Stage} (hr : s.reaper = .at t stage)
    (hkeep : stage.unjoined = true → stage'.unjoined = true)
    (hfacts : ∀ w ∈ s.active, w.tid = t → stage.Facts w s.history → stage'.Facts w s.history) :
    ({ s with reaper := .at t stage' } : System).Sound := by
  refine ⟨hs.base, hs.past, hs.assigned, hs.attached, hs.distinct, hs.active, hs.creator,
    fun w hw hne => hs.unreaped w hw fun st heq => ?_, fun t' st heq => ?_, fun t' error hj hne => ?_,
    hs.errors, hs.rules⟩
  · rw [hr] at heq
    cases heq
    exact hne stage' rfl
  · cases heq
    obtain ⟨w, hw, hid, hdone, hf⟩ := hs.reaper t stage hr
    exact ⟨w, hw, hid, hdone, hfacts w hw hid hf⟩
  · obtain ⟨st, heq, hun⟩ := hs.lost t' error hj hne
    rw [hr] at heq
    cases heq
    exact ⟨stage', rfl, hkeep hun⟩

/-- The reaper does something with a worker. -/
theorem Sound.act (hs : s.Sound) {t : Nat} {stage stage' : Stage} (hr : s.reaper = .at t stage)
    (hkeep : stage.unjoined = true → stage'.unjoined = true) {e : Event}
    (hassign : e.assignment = none) (hreturned : ∀ t error, e ≠ .returned t error)
    (hlate : ∀ t', e.late t' = true → t' = t) (htid : ∀ t', e.tid = some t' → t' = t)
    (hjoined : ∀ t error, e = .joined t error → error ≠ 0 → stage'.unjoined = true)
    (hfailed : (∃ t, e = .failed t) → s.error ≠ 0 ∧ s.creator = none)
    (hrule : ∀ w ∈ s.active, w.tid = t → stage.Facts w s.history → Rule e s.history)
    (hfacts : ∀ w ∈ s.active, w.tid = t → stage.Facts w s.history → stage'.Facts w (e :: s.history)) :
    ({ s with reaper := .at t stage' }.record [e]).Sound := by
  obtain ⟨w, hw, hid, hdone, hf⟩ := hs.reaper t stage hr
  have hother : ∀ t', t' ≠ t → e.late t' = false := fun t' hne =>
    Bool.eq_false_iff.2 fun hl => hne (hlate t' hl)
  refine ⟨hs.base, fun x hx t' ht => ?_, ?_, hs.attached, hs.distinct, fun x hx => ?_,
    fun x st hc => ?_, fun x hx hne => ?_, fun t' st heq => ?_, fun t' error hj hne => ?_,
    fun hfail => ?_, ⟨hrule w hw hid hf, hs.rules⟩⟩
  · rcases List.mem_cons.1 hx with rfl | hx
    · rw [htid t' ht, ← hid]
      exact (hs.active w hw).1
    · exact hs.past x hx t' ht
  · show ((e :: s.history).filterMap _).Nodup ∧ ∀ t ∈ (e :: s.history).filterMap _, _
    rw [List.filterMap_cons_none hassign]
    exact hs.assigned
  · exact ⟨(hs.active x hx).1, Fit.cons (hs.active x hx).2 fun error heq => absurd heq (hreturned _ _)⟩
  · obtain ⟨hlt, hne, hnew, hwrote⟩ := hs.creator x st hc
    refine ⟨hlt, hne, New.cons hnew (hother _ ?_) fun error => hreturned _ _, fun hst =>
      List.mem_cons_of_mem _ (hwrote hst)⟩
    rw [← hid]
    exact fun heq => hne w hw heq.symm
  · have hxt : x.tid ≠ t := by
      rintro rfl
      exact hne stage' rfl
    refine Unreaped.cons (hs.unreaped x hx fun st heq => ?_) (hother _ hxt)
    rw [hr] at heq
    cases heq
    exact hxt rfl
  · cases heq
    exact ⟨w, hw, hid, hdone, hfacts w hw hid hf⟩
  · rcases List.mem_cons.1 hj with heq | hj
    · refine ⟨stage', ?_, hjoined t' error heq.symm hne⟩
      show Reaper.at t stage' = .at t' stage'
      rw [hlate t' (by rw [← heq]; exact beq_self_eq_true t')]
    · obtain ⟨st, heq, hun⟩ := hs.lost t' error hj hne
      rw [hr] at heq
      cases heq
      exact ⟨stage', rfl, hkeep hun⟩
  · obtain ⟨t', hmem⟩ := hfail
    rcases List.mem_cons.1 hmem with heq | hmem
    · exact hfailed ⟨t', heq.symm⟩
    · exact hs.errors ⟨t', hmem⟩

/-- The reaper picks only workers that are done. -/
theorem sound_pick (hs : s.Sound) (hidle : s.reaper = .idle) : s.pick.Sound := by
  have hany : ∀ t stage, s.reaper ≠ .at t stage := fun t stage heq => by
    rw [hidle] at heq
    cases heq
  have hlost : ∀ t error, .joined t error ∈ s.history → error = 0 := by
    intro t error hj
    by_contra hne
    obtain ⟨stage, heq, _⟩ := hs.lost t error hj hne
    exact hany t stage heq
  unfold pick
  split
  next w hfind =>
    have hw := List.mem_of_find?_eq_some hfind
    have hphase := List.find?_some hfind
    refine ⟨hs.base, hs.past, hs.assigned, hs.attached, hs.distinct, hs.active, hs.creator,
      fun x hx _ => hs.unreaped x hx (hany x.tid), fun t stage heq => ?_,
      fun t error hj hne => absurd (hlost t error hj) hne, hs.errors, hs.rules⟩
    cases heq
    exact ⟨w, hw, rfl, beq_iff_eq.1 hphase, hs.unreaped w hw (hany w.tid)⟩
  · split
    · exact ⟨hs.base, hs.past, hs.assigned, hs.attached, hs.distinct, hs.active, hs.creator,
        fun x hx _ => hs.unreaped x hx (hany x.tid), nofun,
        fun t error hj hne => absurd (hlost t error hj) hne, hs.errors, hs.rules⟩
    · exact hs

/-- Events that give nothing back, start nothing and run nothing have no precondition. -/
theorem rule_of_not_attempt {e : Event} {h : List Event} (ha : ∀ t, e.attempts t = false)
    (hran : ∀ t, e ≠ .ran t) (hstarted : ∀ t, e ≠ .started t) : Rule e h :=
  ⟨fun t ht => absurd ht (by rw [ha t]; nofun), fun t heq => absurd heq (hran t),
    fun t heq => absurd heq (hstarted t)⟩

/-- A join, failed or not, keeps the invariant. -/
theorem sound_join (hs : s.Sound) {t : Nat} (hr : s.reaper = .at t .joining) (error : Int) :
    (s.join t error).Sound := by
  unfold join
  dsimp only
  refine Sound.act hs hr nofun rfl nofun (fun t' hl => (beq_iff_eq.1 hl).symm)
    (fun t' ht => (Option.some.inj ht).symm) (fun t' e heq hne => ?_) nofun
    (fun _ _ _ _ => rule_of_not_attempt (fun _ => rfl) nofun nofun) fun w hw hid hf => ?_
  · cases heq
    rw [if_pos hne]
    rfl
  · subst hid
    -- the join is the first thing that happens to the worker
    have honly : ∀ e ∈ Event.joined w.tid error :: s.history, e.late w.tid = true →
        e = .joined w.tid error := by
      intro e he hl
      rcases List.mem_cons.1 he with rfl | he
      · rfl
      · rw [hf e he] at hl
        cases hl
    by_cases h0 : error = 0
    · rw [if_neg (not_not.2 h0)]
      subst h0
      exact ⟨List.mem_cons_self, honly⟩
    · rw [if_pos h0]
      exact ⟨error, h0, List.mem_cons_self, honly⟩

/-- The result so far is zero only if the worker is out of the signal queue. -/
theorem facts_detached {w : Worker} {h : List Event} {result : Int} (hf : Stage.joined.Facts w h)
    (ha : result = 0 → w.attached = false) :
    Stage.Facts w (.detached w.tid result :: h)
      (.detached (if w.finish.error = 0 then result else w.finish.error)) := by
  refine ⟨⟨List.mem_cons_of_mem _ hf.1, fun e he hl => ?_⟩, fun h0 => ?_⟩
  · rcases List.mem_cons.1 he with rfl | he
    · exact .inr ⟨result, rfl⟩
    · exact .inl (hf.2 e he hl)
  · have hfinish : w.finish.error = 0 := by
      by_contra hne
      rw [if_neg hne] at h0
      exact hne h0
    rw [if_pos hfinish] at h0
    refine ⟨ha h0, hfinish, fun r hr => ?_⟩
    rcases List.mem_cons.1 hr with heq | hr
    · cases heq
      exact h0
    · cases hf.2 _ hr (beq_self_eq_true w.tid)

/-- A joined worker that was never attached needs no detach. -/
theorem facts_undetached {w : Worker} {h : List Event} (hf : Stage.joined.Facts w h)
    (ha : w.attached = false) : Stage.Facts w h (.detached w.finish.error) := by
  refine ⟨⟨hf.1, fun e he hl => .inl (hf.2 e he hl)⟩, fun h0 => ⟨ha, h0, fun r hr => ?_⟩⟩
  cases hf.2 _ hr (beq_self_eq_true w.tid)

/-- The reaper detaches a worker only behind its join. -/
theorem sound_reapDetach (hs : s.Sound) {w : Worker} (hw : w ∈ s.active)
    (hr : s.reaper = .at w.tid .joined) : (s.reapDetach w).Sound := by
  have hown : ∀ x ∈ s.active, x.tid = w.tid → x = w := fun x hx hxw =>
    List.inj_on_of_nodup_map hs.distinct hx hw hxw
  unfold reapDetach
  split
  · -- the worker leaves the signal queue if it can
    have hset : ({ (s.detach w).2.2 with }.setWorker w.tid fun _ => (s.detach w).2.1).Sound := by
      obtain ⟨hlt, hfit⟩ := hs.active w hw
      unfold detach
      split
      · exact hs.setWorker hw rfl hs.attached (fun _ _ => Iff.rfl) hfit fun _ _ hdone hf => ⟨hdone, hf⟩
      · refine hs.setWorker hw rfl (fun t ht => hs.attached t (List.mem_filter.1 ht).1) (fun t hne => ?_)
          ⟨⟨nofun, fun hmem => ?_⟩, hfit.wrote, hfit.returned⟩ fun stage hr' hdone hf => ?_
        · rw [List.mem_filter, bne_iff_ne]
          exact ⟨And.left, fun ht => ⟨ht, hne⟩⟩
        · exact absurd rfl (bne_iff_ne.1 (List.mem_filter.1 hmem).2)
        · rw [hr] at hr'
          cases hr'
          exact ⟨hdone, hf⟩
    have hnew : ∀ x ∈ ({ (s.detach w).2.2 with }.setWorker w.tid fun _ => (s.detach w).2.1).active,
        x.tid = w.tid → x = (s.detach w).2.1 := by
      intro x hx hxw
      obtain ⟨x', hx', rfl⟩ := List.mem_map.1 hx
      by_cases heq : x'.tid = w.tid
      · rw [if_pos heq]
      · rw [if_neg heq] at hxw
        exact absurd hxw heq
    -- the place of the thread that reaps is its own, and leaving the queue does not move it
    have hreaper : (s.detach w).2.2.reaper = s.reaper := by
      unfold detach
      split <;> rfl
    refine Sound.act hset (hreaper.trans hr) nofun rfl nofun (fun t' hl => (beq_iff_eq.1 hl).symm)
      (fun t' ht => (Option.some.inj ht).symm) nofun nofun
      (fun _ _ _ _ => rule_of_not_attempt (fun _ => rfl) nofun nofun) fun x hx hid hf => ?_
    obtain rfl := hnew x hx hid
    have hkeep : (s.detach w).2.1.tid = w.tid ∧ (s.detach w).2.1.finish = w.finish := by
      unfold detach
      split <;> exact ⟨rfl, rfl⟩
    have hout : (s.detach w).1 = 0 → (s.detach w).2.1.attached = false := by
      unfold detach
      split
      · intro h
        cases h
      · exact fun _ => rfl
    have hfacts := facts_detached hf hout
    rw [hkeep.1, hkeep.2] at hfacts
    exact hfacts
  next hnot =>
    refine hs.advance hr nofun fun x hx hid hf => ?_
    obtain rfl := hown x hx hid
    exact facts_undetached hf (Bool.eq_false_iff.2 hnot)

/-- Behind its detach every join of a worker is known to have succeeded. -/
theorem acted_of_detached {w : Worker} {h : List Event} {error error' : Int}
    (hf : Stage.Facts w h (.detached error)) : Stage.Facts w h (.acted error') := by
  intro e he
  rcases hf.1.2 _ he (beq_self_eq_true w.tid) with heq | ⟨r, heq⟩
  · exact (Event.joined.inj heq).2
  · cases heq

/-- The memory of a worker is given back only after all that must come before. -/
theorem rule_of_detached {w : Worker} {h : List Event} {e : Event}
    (hfit : ∀ error, .returned w.tid error ∈ h → error = w.finish.error)
    (hf : Stage.Facts w h (.detached 0)) (he : ∀ t, e.attempts t = true → t = w.tid)
    (hran : ∀ t, e ≠ .ran t) (hstarted : ∀ t, e ≠ .started t) : Rule e h := by
  refine ⟨fun t ht => ?_, fun t heq => absurd heq (hran t), fun t heq => absurd heq (hstarted t)⟩
  obtain rfl := he t ht
  obtain ⟨⟨hj, hall⟩, hzero⟩ := hf
  obtain ⟨_, hfinish, hd⟩ := hzero rfl
  refine ⟨hj, fun e' he' => Bool.eq_false_iff.2 fun ha => ?_, fun error hr => ?_, hd⟩
  · rcases hall e' he' (Event.late_of_attempts ha) with rfl | ⟨r, rfl⟩ <;> cases ha
  · rw [hfit error hr, hfinish]

/-- The TID is cleared and the stack unmapped behind join and detach. -/
theorem sound_act (hs : s.Sound) {w : Worker} (hw : w ∈ s.active) {error : Int}
    (hr : s.reaper = .at w.tid (.detached error)) : (s.act w error env).Sound := by
  have hown : ∀ x ∈ s.active, x.tid = w.tid → x = w := fun x hx hxw =>
    List.inj_on_of_nodup_map hs.distinct hx hw hxw
  have hgo : ∀ error', ({ s with reaper := .at w.tid (.acted error') } : System).Sound := fun error' =>
    hs.advance hr nofun fun x _ _ hf => acted_of_detached hf
  have htry : error = 0 → ∀ error' e, e = .unmapped w.tid error' ∨ e = .cleared w.tid error' →
      ∀ error'', ({ s with reaper := .at w.tid (.acted error'') }.record [e]).Sound := by
    rintro rfl error' e he error''
    have hlate : ∀ t, e.late t = true → t = w.tid := by
      intro t hl
      rcases he with rfl | rfl <;> exact (beq_iff_eq.1 hl).symm
    refine Sound.act hs hr nofun ?_ ?_ hlate ?_ ?_ ?_ (fun x hx hid hf => ?_) fun x hx hid hf => ?_
    · rcases he with rfl | rfl <;> rfl
    · rcases he with rfl | rfl <;> nofun
    · rcases he with rfl | rfl <;> exact fun t ht => (Option.some.inj ht).symm
    · rcases he with rfl | rfl <;> nofun
    · rcases he with rfl | rfl <;> exact fun ⟨t, heq⟩ => nomatch heq
    · obtain rfl := hown x hx hid
      refine rule_of_detached (fun error h => ((hs.active x hx).2.returned error h).2) hf
        (fun t ha => hlate t (Event.late_of_attempts ha)) ?_ ?_
      · rcases he with rfl | rfl <;> nofun
      · rcases he with rfl | rfl <;> nofun
    · intro r hmem
      rcases List.mem_cons.1 hmem with heq | hmem
      · rcases he with rfl | rfl <;> cases heq
      · exact @acted_of_detached x s.history 0 0 hf r hmem
  unfold System.act
  split
  · exact hgo _
  next hzero =>
    have h0 := not_not.1 hzero
    split
    · split
      · exact hgo _
      · exact htry h0 _ _ (.inl rfl) _
    · split
      · exact hgo _
      · split
        · exact htry h0 _ _ (.inr rfl) _
        · exact (htry h0 0 _ (.inr rfl) 0).storeWord _ _

/-- The record is erased behind everything else. -/
theorem sound_erase (hs : s.Sound) {t : Nat} {error : Int} (hr : s.reaper = .at t (.acted error)) :
    (s.erase t error).Sound := by
  unfold erase
  have hstay : ∀ {x : Worker}, x ∈ s.active.filter (fun w => w.tid != t) → x ∈ s.active ∧ x.tid ≠ t :=
    fun hx => ⟨(List.mem_filter.1 hx).1, bne_iff_ne.1 (List.mem_filter.1 hx).2⟩
  obtain ⟨w, hw, hid, _, _⟩ := hs.reaper t _ hr
  have hother : ∀ t', t' ≠ t → (Event.reaped t).late t' = false := fun t' hne =>
    Bool.eq_false_iff.2 fun hl => hne (beq_iff_eq.1 hl).symm
  refine ⟨hs.base, fun x hx t' ht => ?_, hs.assigned, hs.attached,
    hs.distinct.sublist ((List.filter_sublist).map _), fun x hx => ?_, fun x st hc => ?_,
    fun x hx _ => ?_, nofun, fun t' e hj hne => ?_, fun hf => ?_,
    ⟨rule_of_not_attempt (fun _ => rfl) nofun nofun, hs.rules⟩⟩
  · rcases List.mem_cons.1 hx with rfl | hx
    · rw [← Option.some.inj ht, ← hid]
      exact (hs.active w hw).1
    · exact hs.past x hx t' ht
  · obtain ⟨hlt, hfit⟩ := hs.active x (hstay hx).1
    exact ⟨hlt, Fit.cons hfit nofun⟩
  · obtain ⟨hlt, hne, hnew, hwrote⟩ := hs.creator x st hc
    refine ⟨hlt, fun y hy => hne y (hstay hy).1, New.cons hnew (hother _ ?_) nofun, fun hst =>
      List.mem_cons_of_mem _ (hwrote hst)⟩
    rw [← hid]
    exact fun heq => hne w hw heq.symm
  · obtain ⟨hx, hne⟩ := hstay hx
    refine Unreaped.cons (hs.unreaped x hx fun st heq => ?_) (hother _ hne)
    rw [hr] at heq
    cases heq
    exact hne rfl
  · obtain ⟨st, heq, hun⟩ := hs.lost t' e ((List.mem_cons.1 hj).resolve_left nofun) hne
    rw [hr] at heq
    cases heq
    cases hun
  · obtain ⟨t', hmem⟩ := hf
    obtain ⟨herr, hc⟩ := hs.errors ⟨t', (List.mem_cons.1 hmem).resolve_left nofun⟩
    refine ⟨?_, hc⟩
    show (if error ≠ 0 ∧ s.error = 0 then _ else s.error) ≠ 0
    rw [if_neg fun h => herr h.2]
    exact herr

/-- A failing callback is reported as an error. -/
theorem callbackError_ne (error : Int) : callbackError error ≠ 0 := by
  unfold callbackError
  split <;> omega

/-- Recording a failed join keeps the invariant. -/
theorem sound_fail (hs : s.Sound) {t : Nat} {error : Int} (hr : s.reaper = .at t (.failed error))
    (hfree : s.creator = none) : (s.fail t error).Sound := by
  have herr : ({ s with error := callbackError error } : System).Sound :=
    ⟨hs.base, hs.past, hs.assigned, hs.attached, hs.distinct, hs.active, hs.creator, hs.unreaped,
      hs.reaper, hs.lost, fun hf => ⟨callbackError_ne error, (hs.errors hf).2⟩, hs.rules⟩
  refine Sound.act herr hr (fun _ => rfl) rfl nofun (fun t' hl => (beq_iff_eq.1 hl).symm)
    (fun t' ht => (Option.some.inj ht).symm) nofun (fun _ => ⟨callbackError_ne error, hfree⟩)
    (fun _ _ _ _ => rule_of_not_attempt (fun _ => rfl) nofun nofun) fun w hw hid hf => ?_
  obtain ⟨r, hne, hj, hall⟩ := hf
  subst hid
  refine ⟨r, hne, List.mem_cons_of_mem _ hj, fun e he hl => ?_⟩
  rcases List.mem_cons.1 he with rfl | he
  · exact .inr rfl
  · exact .inl (hall e he hl)

/-- Every stage of the reaper keeps the invariant. -/
theorem sound_reap (hs : s.Sound) : (s.reap env).Sound := by
  have hfree : ¬ s.creator.isSome = true → s.creator = none := fun h =>
    Option.not_isSome_iff_eq_none.1 h
  unfold reap
  split
  next hr =>
    split
    · exact hs
    · exact sound_pick hs hr
  next hr => exact sound_join hs hr _
  next hr =>
    split
    next w hfind =>
      obtain ⟨hw, rfl⟩ := of_find hfind
      exact sound_reapDetach hs hw hr
    · exact hs
  next hr =>
    split
    next w hfind =>
      obtain ⟨hw, rfl⟩ := of_find hfind
      split
      · exact hs
      · exact sound_act hs hw hr
    · exact hs
  next hr =>
    split
    · exact hs
    · exact sound_erase hs hr
  next hr =>
    split
    · exact hs
    next h => exact sound_fail hs hr (hfree h)
  · exact hs
  · exact hs

/-! ## Runs -/

/-- Every action keeps the invariant. -/
theorem sound_perform (hs : s.Sound) (a : Action) (env : Env) : (s.perform a env).Sound := by
  cases a with
  | start start =>
    unfold perform
    dsimp only
    split
    · exact hs.refuse _
    · split
      · exact hs
      · exact sound_begin hs start
  | create => exact sound_create hs
  | enter tid => exact sound_enter hs tid
  | leave tid outcome => exact sound_leave hs tid outcome
  | complete tid => exact sound_complete hs tid
  | reap => exact sound_reap hs
  | destroy =>
    unfold perform
    dsimp only
    split
    · exact hs
    · exact ⟨hs.base, hs.past, hs.assigned, hs.attached, hs.distinct, hs.active, hs.creator,
        hs.unreaped, hs.reaper, hs.lost, hs.errors, hs.rules⟩
  | guest address value => exact hs.storeWord address value

/-- The invariant holds of every reachable manager. -/
theorem sound (h : machine.Reachable s) : s.Sound := by
  refine h.inv (fun s hs => ?_) fun s s' hs hstep => ?_
  · obtain ⟨pid, firstTid, limit, memory, hvalid, rfl⟩ := hs
    exact ⟨hvalid.2.1, nofun, ⟨List.nodup_nil, nofun⟩, nofun, List.nodup_nil, nofun, nofun, nofun, nofun,
      nofun, (fun ⟨_, h⟩ => nomatch h), trivial⟩
  · obtain ⟨a, env, rfl⟩ := hstep
    exact sound_perform hs a env

/-- Nothing is given back of a worker whose join failed, and its record is kept. -/
theorem Sound.kept (hs : s.Sound) {t : Nat} {error : Int} (hj : .joined t error ∈ s.history)
    (hne : error ≠ 0) : (∀ e ∈ s.history, e.attempts t = false) ∧ ∃ w ∈ s.active, w.tid = t := by
  obtain ⟨stage, hr, hun⟩ := hs.lost t error hj hne
  obtain ⟨w, hw, rfl, _, hf⟩ := hs.reaper t stage hr
  refine ⟨fun e he => Bool.eq_false_iff.2 fun ha => ?_, w, hw, rfl⟩
  have hlate := Event.late_of_attempts ha
  cases stage with
  | failed error =>
    obtain ⟨r, _, _, hall⟩ := hf
    rw [hall e he hlate] at ha
    cases ha
  | lost =>
    obtain ⟨r, _, _, hall⟩ := hf
    rcases hall e he hlate with rfl | rfl <;> cases ha
  | joining | joined | detached | acted => cases hun

end System

end Artbox.Threads
