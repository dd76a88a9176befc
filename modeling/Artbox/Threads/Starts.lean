import Artbox.Threads.Lifecycle
import Mathlib.Logic.Function.Basic

/-!
# The runs of a manager of threads

What a step can do is said once (`Move`): to the words of the guest, to the records and to the signal
queue. From it follows what a start leaves that returns an error, from its call to its return
(`Returns.leaves`), while workers end, are reaped and store to other words of the guest.
-/

namespace Artbox.Threads

open Trace

/-- No start has stored or returned and nothing of a worker was given back. -/
def Event.quiet : Event → Bool
  | wrote _ | started _ | cleared _ _ | unmapped _ _ | refused _ => false
  | _ => true

namespace System

variable {s s' : System} {a : Action} {env : Env} {w : Worker} {l : List Event} {x : Nat}

/-! ## What a step can do -/

/-- A step begins a start, comes further with it or ends it, stores a word of the guest, gives back the
memory of a worker, or does none of this. -/
inductive Move (s : System) (a : Action) (s' : System) : Prop
  | quiet (l : List Event) (history : s'.history = l ++ s.history) (quiet : ∀ e ∈ l, e.quiet = true)
      (memory : s'.memory = s.memory) (records : ∀ w' ∈ s'.active, ∃ w ∈ s.active, w.tid = w'.tid)
      (attached : ∀ t ∈ s'.attached, t ∈ s.attached ∨ ∃ w ∈ s.active, w.tid = t)
      (creator : s'.creator = s.creator ∨
        ∃ w, s.creator = some (w, .prepared) ∧ s'.creator = some (w, .created))
  | begins (w : Worker) (call : a = .start w.start) (free : s.creator = none)
      (creator : s'.creator = some (w, .prepared)) (history : s'.history = .assigned w.tid :: s.history)
      (memory : s'.memory = s.memory) (active : s'.active = s.active)
      (attached : ∀ t ∈ s'.attached, t ∈ s.attached ∨ t = w.tid)
  | guest (address value : Nat) (call : a = .guest address value) (eq : s' = s.storeWord address value)
  | wrote (w : Worker) (creator : s.creator = some (w, .created))
      (eq : s' = ({ s with creator := some (w, .stored) }.storeWord w.start.parentTid w.tid).record
        [.wrote w.tid])
  | started (w : Worker) (creator : s.creator = some (w, .stored))
      (eq : s' = { s with creator := none, active := s.active ++ [w] }.record [.started w.tid])
  | acts (w : Worker) (e : Event) (active : w ∈ s.active) (reaper : s.reaper = .at w.tid (.detached 0))
      (event : (∃ error, e = .unmapped w.tid error) ∨ ∃ error, e = .cleared w.tid error)
      (history : s'.history = e :: s.history)
      (memory : (e ≠ .cleared w.tid 0 ∧ s'.memory = s.memory) ∨
        (e = .cleared w.tid 0 ∧ s'.memory = Function.update s.memory w.clearTid 0))
      (kept : s'.active = s.active ∧ s'.attached = s.attached ∧ s'.creator = s.creator)
  | refuses (error : Int) (memory : s'.memory = s.memory) (active : s'.active = s.active)
      (attached : (s'.creator = s.creator ∧ s'.attached = s.attached) ∨
        ∃ w, s.creator = some (w, .prepared) ∧ s'.creator = none ∧
          ∀ t, t ∈ s'.attached ↔ t ∈ s.attached ∧ t ≠ w.tid)
      (l : List Event) (history : s'.history = .refused error :: l ++ s.history)
      (quiet : ∀ e ∈ l, e.quiet = true)

/-- A step that records one quiet event, or none, and leaves the rest alone. -/
theorem Move.still (hl : s'.history = l ++ s.history) (hq : ∀ e ∈ l, e.quiet = true)
    (hm : s'.memory = s.memory) (hrecords : ∀ w' ∈ s'.active, ∃ w ∈ s.active, w.tid = w'.tid)
    (ha : s'.attached = s.attached) (hc : s'.creator = s.creator) : Move s a s' :=
  .quiet l hl hq hm hrecords (fun _ ht => .inl (ha ▸ ht)) (.inl hc)

/-- A step without any effect. -/
theorem Move.idle (s : System) (a : Action) : Move s a s :=
  .still (l := []) rfl (List.forall_mem_nil _) rfl (fun w hw => ⟨w, hw, rfl⟩) rfl rfl

/-- What `storeWord` leaves in memory. -/
theorem storeWord_memory (s : System) (address value : Nat) :
    (s.storeWord address value).memory = Function.update s.memory address value := by
  funext a
  rw [Function.update_apply]
  rfl

/-- The TIDs of the records do not depend on a worker's progress. -/
theorem mem_setWorker {t : Nat} {f : Worker → Worker}
    (hf : ∀ w ∈ s.active, w.tid = t → (f w).tid = w.tid) :
    ∀ w' ∈ (s.setWorker t f).active, ∃ w ∈ s.active, w.tid = w'.tid := by
  intro w' hw'
  obtain ⟨w, hw, rfl⟩ := List.mem_map.1 hw'
  refine ⟨w, hw, ?_⟩
  split
  next heq => exact (hf w hw heq).symm
  · rfl

/-- One quiet event. -/
theorem quiet_one {e : Event} (h : e.quiet = true) : ∀ x ∈ [e], x.quiet = true := by
  intro x hx
  rw [List.mem_singleton.1 hx]
  exact h

/-- The call of a start is a move. -/
theorem move_begin (hfree : s.creator = none) (start : Start) (env : Env) :
    Move s (.start start) (s.begin start env) := by
  have hrefuse : ∀ error, Move s (.start start) (s.refuse error) := fun error =>
    .refuses error rfl rfl (.inl ⟨rfl, rfl⟩) [] rfl (List.forall_mem_nil _)
  unfold begin
  split
  · exact hrefuse _
  · split
    · exact hrefuse _
    · split
      · exact hrefuse _
      · dsimp only
        have hassigned := quiet_one (e := .assigned s.nextTid) rfl
        split
        · exact .refuses _ rfl rfl (.inl ⟨rfl, rfl⟩) [.assigned s.nextTid] rfl hassigned
        · unfold inherit
          split
          · exact .begins { tid := s.nextTid, start, clearTid := start.childTid } rfl hfree rfl rfl rfl rfl
              fun t ht => .inl ht
          · split
            · exact .refuses _ rfl rfl (.inl ⟨rfl, rfl⟩) [.assigned s.nextTid] rfl hassigned
            · split
              · exact .refuses _ rfl rfl (.inl ⟨rfl, rfl⟩) [.assigned s.nextTid] rfl hassigned
              · refine .begins { tid := s.nextTid, start, clearTid := start.childTid, attached := true } rfl
                  hfree rfl rfl rfl rfl fun t ht => ?_
                exact (List.mem_cons.1 ht).symm

/-- A start that gives up takes back what it added to the signal queue. -/
theorem move_abandon (hs : s.Sound) (hc : s.creator = some (w, .prepared)) (error : Int) :
    Move s a (s.abandon w error) := by
  obtain ⟨_, _, hnew, _⟩ := hs.creator w .prepared hc
  unfold abandon detach
  rw [hnew.idle.1, if_neg Bool.false_ne_true]
  refine .refuses error ?_ ?_ (.inr ⟨w, hc, rfl, fun t => ?_⟩) [] ?_ (List.forall_mem_nil _)
  · split <;> rfl
  · split <;> rfl
  · by_cases ha : w.attached = true
    · rw [if_pos ha]
      show t ∈ s.attached.filter _ ↔ _
      rw [List.mem_filter, bne_iff_ne]
    · rw [if_neg ha]
      show t ∈ s.attached ↔ _
      refine ⟨fun ht => ⟨ht, ?_⟩, And.left⟩
      rintro rfl
      exact ha (hnew.attached.2 ht)
  · split <;> rfl

/-- Every stage of the creation is a move. -/
theorem move_create (hs : s.Sound) (env : Env) : Move s a (s.create env) := by
  unfold create
  split
  · exact .idle s a
  next w hc =>
    split
    · exact move_abandon hs hc _
    · split
      · exact move_abandon hs hc _
      · exact .quiet [] rfl (List.forall_mem_nil _) rfl (fun w' hw' => ⟨w', hw', rfl⟩) (fun t ht => .inl ht)
          (.inr ⟨w, hc, rfl⟩)
  next w hc => exact .wrote w hc rfl
  next w hc => exact .started w hc rfl

/-- A worker passes the lock, returns from its run callback or is done. -/
theorem move_worker {t : Nat} {f : Worker → Worker} {attached : List Nat} (hf : ∀ w, (f w).tid = w.tid)
    (hattached : ∀ t' ∈ attached, t' ∈ s.attached ∨ ∃ w ∈ s.active, w.tid = t')
    (hq : ∀ e ∈ l, e.quiet = true) : Move s a (({ s with attached }.setWorker t f).record l) :=
  .quiet l rfl hq rfl (mem_setWorker (s := { s with attached }) fun w _ _ => hf w) hattached (.inl rfl)

/-- Entering the guest is a move. -/
theorem move_enter (s : System) (tid : Nat) : Move s a (s.enter tid) := by
  unfold enter
  split
  · exact .idle s a
  · split
    · split
      · exact move_worker (fun _ => rfl) (fun t ht => .inl ht) (quiet_one rfl)
      · exact .idle s a
    · exact .idle s a

/-- Leaving the guest is a move. -/
theorem move_leave (s : System) (tid : Nat) (o : Outcome) : Move s a (s.leave tid o) := by
  unfold leave
  split
  next w hfind =>
    obtain ⟨hw, rfl⟩ := of_find hfind
    split
    · refine move_worker (fun _ => rfl) (fun t ht => ?_) (quiet_one rfl)
      split at ht
      · rcases List.mem_cons.1 ht with rfl | ht
        · exact .inr ⟨w, hw, rfl⟩
        · exact .inl ht
      · exact .inl (List.mem_filter.1 ht).1
    · exact .idle s a
  · exact .idle s a

/-- The return of the native thread is a move. -/
theorem move_complete (s : System) (tid : Nat) : Move s a (s.complete tid) := by
  unfold complete
  split
  · exact .idle s a
  · split
    · split
      · exact move_worker (l := []) (fun _ => rfl) (fun t ht => .inl ht) (List.forall_mem_nil _)
      · exact .idle s a
    · exact .idle s a

/-- The reaper is at another stage. -/
theorem move_stage (s : System) (r : Reaper) : Move s a { s with reaper := r } :=
  .still (l := []) rfl (List.forall_mem_nil _) rfl (fun w hw => ⟨w, hw, rfl⟩) rfl rfl

/-- The worker leaves the signal queue. -/
theorem move_reapDetach (s : System) (w : Worker) : Move s a (s.reapDetach w) := by
  unfold reapDetach
  split
  · have hw : (s.detach w).2.1.tid = w.tid ∧ (s.detach w).2.2.history = s.history ∧
        (s.detach w).2.2.memory = s.memory ∧ (s.detach w).2.2.active = s.active ∧
        (s.detach w).2.2.creator = s.creator ∧ ∀ t ∈ (s.detach w).2.2.attached, t ∈ s.attached := by
      unfold detach
      split
      · exact ⟨rfl, rfl, rfl, rfl, rfl, fun _ ht => ht⟩
      · exact ⟨rfl, rfl, rfl, rfl, rfl, fun _ ht => (List.mem_filter.1 ht).1⟩
    obtain ⟨htid, hh, hm, ha, hc, hsub⟩ := hw
    refine .quiet [.detached w.tid (s.detach w).1] (congrArg _ hh) (quiet_one rfl) hm (fun w' hw' => ?_)
      (fun t ht => .inl (hsub t ht)) (.inl hc)
    rw [← ha]
    exact mem_setWorker (fun x _ heq => htid.trans heq.symm) w' hw'
  · exact move_stage s _

/-- The stack is unmapped, the TID cleared, or the reaper goes on without. -/
theorem move_act (hw : w ∈ s.active) {error : Int} (hr : s.reaper = .at w.tid (.detached error)) :
    Move s a (s.act w error env) := by
  unfold act
  split
  · exact move_stage s _
  next hzero =>
    rw [not_not.1 hzero] at hr
    split
    · split
      · exact move_stage s _
      · exact .acts w (.unmapped w.tid env.munmap) hw hr (.inl ⟨_, rfl⟩) rfl (.inl ⟨nofun, rfl⟩)
          ⟨rfl, rfl, rfl⟩
    · split
      · exact move_stage s _
      · split
        next hstore =>
          refine .acts w (.cleared w.tid env.store) hw hr (.inr ⟨_, rfl⟩) rfl (.inl ⟨fun heq => ?_, rfl⟩)
            ⟨rfl, rfl, rfl⟩
          exact hstore (Event.cleared.inj heq).2
        · exact .acts w (.cleared w.tid 0) hw hr (.inr ⟨_, rfl⟩) rfl
            (.inr ⟨rfl, storeWord_memory s w.clearTid 0⟩) ⟨rfl, rfl, rfl⟩

/-- Every stage of the reaper is a move. -/
theorem move_reap (s : System) (env : Env) : Move s a (s.reap env) := by
  unfold reap
  split
  · split
    · exact .idle s a
    · unfold pick
      split
      · exact move_stage s _
      · split
        · exact move_stage s _
        · exact .idle s a
  · exact .still rfl (quiet_one rfl) rfl (fun w hw => ⟨w, hw, rfl⟩) rfl rfl
  · split
    · exact move_reapDetach s _
    · exact .idle s a
  next hr =>
    split
    next w hfind =>
      obtain ⟨hw, rfl⟩ := of_find hfind
      split
      · exact .idle s a
      · exact move_act hw hr
    · exact .idle s a
  · split
    · exact .idle s a
    · exact .still rfl (quiet_one rfl) rfl (fun w hw => ⟨w, (List.mem_filter.1 hw).1, rfl⟩) rfl rfl
  · split
    · exact .idle s a
    · exact .still rfl (quiet_one rfl) rfl (fun w hw => ⟨w, hw, rfl⟩) rfl rfl
  · exact .idle s a
  · exact .idle s a

/-- Every step is one of the moves. -/
theorem move_perform (hs : s.Sound) (a : Action) (env : Env) : Move s a (s.perform a env) := by
  cases a with
  | start start =>
    unfold perform
    dsimp only
    split
    · exact .refuses _ rfl rfl (.inl ⟨rfl, rfl⟩) [] rfl (List.forall_mem_nil _)
    · split
      · exact .idle s _
      next hfree => exact move_begin (Option.not_isSome_iff_eq_none.1 hfree) start env
  | create => exact move_create hs env
  | enter tid => exact move_enter s tid
  | leave tid outcome => exact move_leave s tid outcome
  | complete tid => exact move_complete s tid
  | reap => exact move_reap s env
  | destroy =>
    unfold perform
    dsimp only
    split
    · exact .idle s _
    · exact .still (l := []) rfl (List.forall_mem_nil _) rfl (fun w hw => ⟨w, hw, rfl⟩) rfl rfl
  | guest address value => exact .guest address value rfl rfl

/-- What a step records. -/
theorem Move.grows (h : Move s a s') : ∃ l, s'.history = l ++ s.history := by
  cases h with
  | quiet l hl => exact ⟨l, hl⟩
  | begins w _ _ _ hl => exact ⟨[_], hl⟩
  | guest _ _ _ heq => exact ⟨[], by rw [heq]; rfl⟩
  | wrote w _ heq => exact ⟨[_], by rw [heq]; rfl⟩
  | started w _ heq => exact ⟨[_], by rw [heq]; rfl⟩
  | acts w e _ _ _ hl => exact ⟨[e], hl⟩
  | refuses error _ _ _ l hl => exact ⟨_, hl⟩

/-! ## What a step leaves -/

/-- The guest's words change only in a step that says so: guest code stores, the TID goes to the word of
the parent, or a TID is cleared. -/
structure Stores (s : System) (a : Action) (l : List Event) (s' : System) : Prop where
  only : s'.memory = s.memory ∨ (∃ t, .wrote t ∈ l) ∨ (∃ t, .cleared t 0 ∈ l) ∨
    ∃ address value, a = .guest address value ∧ s'.memory = Function.update s.memory address value
  wrote : ∀ t, .wrote t ∈ l → ∃ w, s.creator = some (w, .created) ∧ w.tid = t ∧
    s'.memory = Function.update s.memory w.start.parentTid t
  cleared : ∀ t, .cleared t 0 ∈ l → ∃ w ∈ s.active, w.tid = t ∧
    s'.memory = Function.update s.memory w.clearTid 0

/-- A worker is with its creator from the call of the start to its return, and has a record from the
return of a start that succeeds. -/
structure Places (s : System) (a : Action) (l : List Event) (s' : System) : Prop where
  called : ∀ w stage, s'.creator = some (w, stage) → s.creator.map Prod.fst = some w ∨
    (s.creator = none ∧ stage = .prepared ∧ a = .start w.start ∧ .assigned w.tid ∈ l)
  returned : ∀ w stage, s.creator = some (w, stage) → s'.creator.map Prod.fst = some w ∨
    (s'.creator = none ∧ (.started w.tid ∈ l ∨ ∃ error, .refused error ∈ l))
  records : ∀ w' ∈ s'.active, (∃ w ∈ s.active, w.tid = w'.tid) ∨ .started w'.tid ∈ l
  started : ∀ t, .started t ∈ l → ∃ w, s.creator = some (w, .stored) ∧ w.tid = t ∧
    s'.creator = none ∧ s'.active = s.active ++ [w]

/-- Quiet events say nothing of a store or a return. -/
theorem not_mem_quiet {e : Event} (hq : ∀ e ∈ l, e.quiet = true) (he : e.quiet = false) : e ∉ l := by
  intro hmem
  rw [hq e hmem] at he
  cases he

/-- What a move does to the words of the guest. -/
theorem Move.stores (h : Move s a s') (hl : s'.history = l ++ s.history) : Stores s a l s' := by
  cases h with
  | quiet l' hl' hq hm =>
    obtain rfl := List.append_cancel_right (hl.symm.trans hl')
    exact ⟨.inl hm, fun t ht => absurd ht (not_mem_quiet hq rfl), fun t ht => absurd ht (not_mem_quiet hq rfl)⟩
  | begins w _ _ _ hl' hm =>
    obtain rfl : l = [_] := List.append_cancel_right (hl.symm.trans hl')
    refine ⟨.inl hm, fun t ht => ?_, fun t ht => ?_⟩ <;> cases List.mem_singleton.1 ht
  | guest address value hcall heq =>
    subst heq
    obtain rfl : l = [] := List.append_cancel_right (hl.symm.trans (List.nil_append _).symm)
    exact ⟨.inr (.inr (.inr ⟨address, value, hcall, storeWord_memory s address value⟩)),
      fun t ht => absurd ht List.not_mem_nil, fun t ht => absurd ht List.not_mem_nil⟩
  | wrote w hc heq =>
    subst heq
    obtain rfl : l = [.wrote w.tid] := List.append_cancel_right hl.symm
    refine ⟨.inr (.inl ⟨w.tid, List.mem_cons_self⟩), fun t ht => ?_, fun t ht => nomatch List.mem_singleton.1 ht⟩
    cases List.mem_singleton.1 ht
    exact ⟨w, hc, rfl, storeWord_memory s w.start.parentTid w.tid⟩
  | started w hc heq =>
    subst heq
    obtain rfl : l = [.started w.tid] := List.append_cancel_right hl.symm
    refine ⟨.inl rfl, fun t ht => ?_, fun t ht => ?_⟩ <;> cases List.mem_singleton.1 ht
  | acts w e hw _ he hl' hm =>
    obtain rfl : l = [e] := List.append_cancel_right (hl.symm.trans hl')
    refine ⟨?_, fun t ht => ?_, fun t ht => ?_⟩
    · rcases hm with ⟨_, hm⟩ | ⟨rfl, hm⟩
      · exact .inl hm
      · exact .inr (.inr (.inl ⟨w.tid, List.mem_cons_self⟩))
    · rw [← List.mem_singleton.1 ht] at he
      rcases he with ⟨error, he⟩ | ⟨error, he⟩ <;> cases he
    · rw [← List.mem_singleton.1 ht] at he hm
      have htid : t = w.tid := by
        rcases he with ⟨error, he⟩ | ⟨error, he⟩
        · cases he
        · exact (Event.cleared.inj he).1
      rcases hm with ⟨hne, _⟩ | ⟨_, hm⟩
      · exact absurd (by rw [htid]) hne
      · exact ⟨w, hw, htid.symm, hm⟩
  | refuses error hm _ _ l' hl' hq =>
    obtain rfl := List.append_cancel_right (hl.symm.trans hl')
    refine ⟨.inl hm, fun t ht => ?_, fun t ht => ?_⟩
    · exact absurd ((List.mem_cons.1 ht).resolve_left nofun) (not_mem_quiet hq rfl)
    · exact absurd ((List.mem_cons.1 ht).resolve_left nofun) (not_mem_quiet hq rfl)

/-- A step that records no start and keeps the worker under way with its creator leaves everybody in place. -/
theorem Places.same (hc : s'.creator.map Prod.fst = s.creator.map Prod.fst)
    (hrecords : ∀ w' ∈ s'.active, ∃ w ∈ s.active, w.tid = w'.tid) (hl : ∀ t, .started t ∉ l) : Places s a l s' := by
  refine ⟨fun w stage hw => .inl ?_, fun w stage hw => .inl ?_, fun w' hw' => .inl (hrecords w' hw'),
    fun t ht => absurd ht (hl t)⟩
  · rw [← hc, hw]
    rfl
  · rw [hc, hw]
    rfl

/-- What a move does to the records. -/
theorem Move.places (h : Move s a s') (hl : s'.history = l ++ s.history) : Places s a l s' := by
  cases h with
  | quiet l' hl' hq _ hrecords _ hc =>
    obtain rfl := List.append_cancel_right (hl.symm.trans hl')
    refine .same ?_ hrecords fun t => not_mem_quiet hq rfl
    rcases hc with hc | ⟨w, hc, hc'⟩
    · rw [hc]
    · rw [hc, hc']
      rfl
  | begins w hcall hfree hc hl' _ hactive =>
    obtain rfl : l = [_] := List.append_cancel_right (hl.symm.trans hl')
    refine ⟨fun x stage hx => .inr ?_, fun x stage hx => ?_, fun w' hw' => .inl ⟨w', hactive ▸ hw', rfl⟩,
      fun t ht => nomatch List.mem_singleton.1 ht⟩
    · rw [hc] at hx
      cases hx
      exact ⟨hfree, rfl, hcall, List.mem_cons_self⟩
    · rw [hfree] at hx
      cases hx
  | guest address value _ heq =>
    subst heq
    obtain rfl : l = [] := List.append_cancel_right (hl.symm.trans (List.nil_append _).symm)
    exact .same rfl (fun w' hw' => ⟨w', hw', rfl⟩) fun t => List.not_mem_nil
  | wrote w hc heq =>
    subst heq
    obtain rfl : l = [.wrote w.tid] := List.append_cancel_right hl.symm
    refine .same ?_ (fun w' hw' => ⟨w', hw', rfl⟩) fun t ht => nomatch List.mem_singleton.1 ht
    rw [hc]
    rfl
  | started w hc heq =>
    subst heq
    obtain rfl : l = [.started w.tid] := List.append_cancel_right hl.symm
    refine ⟨nofun, fun x stage hx => ?_, fun w' hw' => ?_, fun t ht => ?_⟩
    · rw [hc] at hx
      cases hx
      exact .inr ⟨rfl, .inl List.mem_cons_self⟩
    · rcases List.mem_append.1 hw' with hw' | hw'
      · exact .inl ⟨w', hw', rfl⟩
      · rw [List.mem_singleton.1 hw']
        exact .inr List.mem_cons_self
    · cases List.mem_singleton.1 ht
      exact ⟨w, hc, rfl, rfl, rfl⟩
  | acts w e _ _ he hl' _ hkept =>
    obtain rfl : l = [e] := List.append_cancel_right (hl.symm.trans hl')
    obtain ⟨hactive, _, hc⟩ := hkept
    refine .same (congrArg _ hc) (fun w' hw' => ⟨w', hactive ▸ hw', rfl⟩) fun t ht => ?_
    rw [← List.mem_singleton.1 ht] at he
    rcases he with ⟨error, he⟩ | ⟨error, he⟩ <;> cases he
  | refuses error _ hactive hattached l' hl' hq =>
    obtain rfl := List.append_cancel_right (hl.symm.trans hl')
    have hnot : ∀ t, .started t ∉ Event.refused error :: l' := fun t ht =>
      not_mem_quiet hq rfl ((List.mem_cons.1 ht).resolve_left nofun)
    rcases hattached with ⟨hc, _⟩ | ⟨w, hc, hc', _⟩
    · exact .same (congrArg _ hc) (fun w' hw' => ⟨w', hactive ▸ hw', rfl⟩) hnot
    · refine ⟨fun x stage hx => ?_, fun x stage hx => .inr ⟨hc', .inr ⟨error, List.mem_cons_self⟩⟩,
        fun w' hw' => .inl ⟨w', hactive ▸ hw', rfl⟩, fun t ht => absurd ht (hnot t)⟩
      rw [hc'] at hx
      cases hx

/-! ## Starts that fail -/

/-- Only a start that has returned its TID, or has come as far, has done anything for its worker. -/
structure Known (s : System) : Prop where
  wrote : ∀ t, .wrote t ∈ s.history →
    .started t ∈ s.history ∨ ∃ w, s.creator = some (w, .stored) ∧ w.tid = t
  attached : ∀ t ∈ s.attached, .started t ∈ s.history ∨ ∃ w stage, s.creator = some (w, stage) ∧ w.tid = t
  active : ∀ w ∈ s.active, .started w.tid ∈ s.history

/-- What was started stays started. -/
theorem Move.started_mem (h : Move s a s') {t : Nat} (ht : .started t ∈ s.history) : .started t ∈ s'.history := by
  obtain ⟨l, hl⟩ := h.grows
  rw [hl]
  exact List.mem_append_right l ht

/-- A step that returns from no start and stores for none leaves everybody known. -/
theorem Known.same (hk : s.Known) (hstarted : ∀ {t}, .started t ∈ s.history → .started t ∈ s'.history)
    (hwrote : ∀ t, .wrote t ∈ s'.history → .wrote t ∈ s.history)
    (hrecords : ∀ w' ∈ s'.active, ∃ w ∈ s.active, w.tid = w'.tid)
    (hattached : ∀ t ∈ s'.attached, t ∈ s.attached ∨ ∃ w ∈ s.active, w.tid = t)
    (hc : s'.creator = s.creator ∨ ∃ w, s.creator = some (w, .prepared) ∧ s'.creator = some (w, .created)) :
    s'.Known := by
  have hactive : ∀ w ∈ s.active, .started w.tid ∈ s'.history := fun w hw => hstarted (hk.active w hw)
  refine ⟨fun t ht => ?_, fun t ht => ?_, fun w' hw' => ?_⟩
  · refine (hk.wrote t (hwrote t ht)).imp hstarted fun ⟨w, hw, hid⟩ => ⟨w, ?_, hid⟩
    rcases hc with hc | ⟨w', hc, _⟩
    · exact hc.trans hw
    · rw [hc] at hw
      cases hw
  · rcases hattached t ht with ht | ⟨w, hw, rfl⟩
    · refine (hk.attached t ht).imp hstarted fun ⟨w, stage, hw, hid⟩ => ?_
      rcases hc with hc | ⟨w', hc, hc'⟩
      · exact ⟨w, stage, hc.trans hw, hid⟩
      · rw [hc] at hw
        cases hw
        exact ⟨w, .created, hc', hid⟩
    · exact .inl (hactive w hw)
  · obtain ⟨w, hw, hid⟩ := hrecords w' hw'
    exact hid ▸ hactive w hw

/-- Before its worker is created a start has done nothing for it but attach it. -/
theorem Known.returned (hk : s.Known) (hfree : ∀ w stage, s.creator = some (w, stage) → stage = .prepared)
    {t : Nat} (ht : .wrote t ∈ s.history) : .started t ∈ s.history := by
  refine (hk.wrote t ht).resolve_right fun ⟨w, hw, _⟩ => ?_
  cases hfree w .stored hw

/-- A move does nothing for a worker whose start is neither returned nor under way. -/
theorem Move.known (h : Move s a s') (hk : s.Known) : s'.Known := by
  have hstarted : ∀ {t}, .started t ∈ s.history → .started t ∈ s'.history := h.started_mem
  cases h with
  | quiet l hl hq _ hrecords hattached hc =>
    refine hk.same hstarted (fun t ht => ?_) hrecords hattached hc
    rw [hl] at ht
    exact (List.mem_append.1 ht).resolve_left (not_mem_quiet hq rfl)
  | begins w _ hfree hc hl _ hactive hattached =>
    have hnone : ∀ x stage, s.creator ≠ some (x, stage) := fun x stage hx => by
      rw [hfree] at hx
      cases hx
    refine ⟨fun t ht => ?_, fun t ht => ?_, fun w' hw' => hstarted (hk.active w' (hactive ▸ hw'))⟩
    · rw [hl] at ht
      exact .inl (hstarted (hk.returned (fun x stage hx => absurd hx (hnone x stage))
        ((List.mem_cons.1 ht).resolve_left nofun)))
    · rcases hattached t ht with ht | rfl
      · exact .inl (hstarted ((hk.attached t ht).resolve_right fun ⟨x, stage, hx, _⟩ => hnone x stage hx))
      · exact .inr ⟨w, .prepared, hc, rfl⟩
  | guest address value _ heq => exact heq ▸ ⟨hk.wrote, hk.attached, hk.active⟩
  | wrote w hc heq =>
    -- the start under way has its TID stored, and it is still the only one
    subst heq
    refine ⟨fun t ht => ?_, fun t ht => ?_, fun w' hw' => hstarted (hk.active w' hw')⟩
    · rcases List.mem_cons.1 ht with ht | ht
      · exact .inr ⟨w, rfl, (Event.wrote.inj ht).symm⟩
      · refine .inl (hstarted ((hk.wrote t ht).resolve_right fun ⟨x, hx, _⟩ => ?_))
        rw [hc] at hx
        cases hx
    · refine (hk.attached t ht).imp hstarted fun ⟨x, stage, hx, hid⟩ => ?_
      rw [hc] at hx
      cases hx
      exact ⟨w, .stored, rfl, hid⟩
  | started w hc heq =>
    -- the worker of the start under way is the one that is started
    subst heq
    refine ⟨fun t ht => .inl ?_, fun t ht => .inl ?_, fun w' hw' => ?_⟩
    · rcases hk.wrote t ((List.mem_cons.1 ht).resolve_left nofun) with h | ⟨x, hx, rfl⟩
      · exact hstarted h
      · rw [hc] at hx
        cases hx
        exact List.mem_cons_self
    · rcases hk.attached t ht with h | ⟨x, stage, hx, rfl⟩
      · exact hstarted h
      · rw [hc] at hx
        cases hx
        exact List.mem_cons_self
    · rcases List.mem_append.1 hw' with hw' | hw'
      · exact hstarted (hk.active w' hw')
      · rw [List.mem_singleton.1 hw']
        exact List.mem_cons_self
  | acts w e _ _ he hl _ hkept =>
    obtain ⟨hactive, hattached, hc⟩ := hkept
    refine hk.same hstarted (fun t ht => ?_) (fun w' hw' => ⟨w', hactive ▸ hw', rfl⟩)
      (fun t ht => .inl (hattached ▸ ht)) (.inl hc)
    rw [hl] at ht
    refine (List.mem_cons.1 ht).resolve_left fun heq => ?_
    rw [← heq] at he
    rcases he with ⟨error, he⟩ | ⟨error, he⟩ <;> cases he
  | refuses error _ hactive hattached l hl hq =>
    have hwrote : ∀ t, .wrote t ∈ s'.history → .wrote t ∈ s.history := by
      intro t ht
      rw [hl] at ht
      exact (List.mem_append.1 ((List.mem_cons.1 ht).resolve_left nofun)).resolve_left (not_mem_quiet hq rfl)
    rcases hattached with ⟨hc, hsame⟩ | ⟨w, hc, hc', hattached⟩
    · exact hk.same hstarted hwrote (fun w' hw' => ⟨w', hactive ▸ hw', rfl⟩) (fun t ht => .inl (hsame ▸ ht))
        (.inl hc)
    · -- the failed start was the only one under way, and its worker is detached again
      have hunder : ∀ x stage, s.creator = some (x, stage) → x = w ∧ stage = .prepared := fun x stage hx => by
        rw [hc] at hx
        cases hx
        exact ⟨rfl, rfl⟩
      refine ⟨fun t ht => .inl (hstarted (hk.returned (fun x stage hx => (hunder x stage hx).2) (hwrote t ht))),
        fun t ht => .inl ?_, fun w' hw' => hstarted (hk.active w' (hactive ▸ hw'))⟩
      obtain ⟨hmem, hne⟩ := (hattached t).1 ht
      refine hstarted ((hk.attached t hmem).resolve_right fun ⟨x, stage, hx, hid⟩ => ?_)
      exact hne (hid.symm.trans (congrArg Worker.tid (hunder x stage hx).1))

/-- In every reachable manager only known workers have events. -/
theorem known (h : machine.Reachable s) : s.Known := by
  refine h.inv_of (fun _ => sound) (fun s hs => ?_) fun s s' hs hk hstep => ?_
  · obtain ⟨pid, firstTid, limit, memory, _, rfl⟩ := hs
    exact ⟨fun t ht => absurd ht List.not_mem_nil, List.forall_mem_nil _, List.forall_mem_nil _⟩
  · obtain ⟨a, env, rfl⟩ := hstep
    exact (move_perform hs a env).known hk

/-- A TID that was given to a start is with its creator, or the start has returned it, or nothing was
done for it. -/
theorem Known.untouched (hk : s.Known) (t : Nat) : .started t ∈ s.history ∨
    (∃ w stage, s.creator = some (w, stage) ∧ w.tid = t) ∨
    (.wrote t ∉ s.history ∧ t ∉ s.attached ∧ ∀ w ∈ s.active, w.tid ≠ t) := by
  by_cases hstarted : .started t ∈ s.history
  · exact .inl hstarted
  · by_cases hc : ∃ w stage, s.creator = some (w, stage) ∧ w.tid = t
    · exact .inr (.inl hc)
    · refine .inr (.inr ⟨fun ht => ?_, fun ht => ?_, fun w hw hid => ?_⟩)
      · obtain ⟨w, hw, hid⟩ := (hk.wrote t ht).resolve_left hstarted
        exact hc ⟨w, .stored, hw, hid⟩
      · exact hc ((hk.attached t ht).resolve_left hstarted)
      · exact hstarted (hid ▸ hk.active w hw)

/-- Nobody but a creator stores to the word in the step. -/
def Apart (s : System) (a : Action) (x : Nat) : Prop :=
  (∀ value, a ≠ .guest x value) ∧ ∀ w ∈ s.active, w.clearTid ≠ x

/-- The steps of everybody from a state in which the start of `w` holds the lock to its return, while
nobody else stores to the word. -/
inductive Returns (w : Worker) (x : Nat) : System → System → Prop
  | last {s : System} {a : Action} {env : Env} (holds : ∃ stage, s.creator = some (w, stage))
      (apart : Apart s a x) (free : (s.perform a env).creator = none) : Returns w x s (s.perform a env)
  | step {s s' : System} {a : Action} {env : Env} (holds : ∃ stage, s.creator = some (w, stage))
      (apart : Apart s a x) (rest : Returns w x (s.perform a env) s') : Returns w x s s'

/-- The creator alone stores to a word that is left to it, and only the TID of its worker. -/
theorem Move.memory_apart (h : Move s a s') (hc : ∃ stage, s.creator = some (w, stage)) (ha : Apart s a x)
    (hnot : .wrote w.tid ∉ s'.history) : s'.memory x = s.memory x := by
  obtain ⟨stage, hc⟩ := hc
  obtain ⟨l, hl⟩ := h.grows
  have hstores := h.stores hl
  rcases hstores.only with hm | ⟨t, ht⟩ | ⟨t, ht⟩ | ⟨address, value, hcall, hm⟩
  · rw [hm]
  · obtain ⟨w', hc', rfl, _⟩ := hstores.wrote t ht
    rw [hc] at hc'
    cases hc'
    rw [hl] at hnot
    exact absurd (List.mem_append_left _ ht) hnot
  · obtain ⟨w', hw', _, hm⟩ := hstores.cleared t ht
    rw [hm, Function.update_of_ne (ha.2 w' hw').symm]
  · have hne : x ≠ address := by
      rintro rfl
      exact ha.1 value hcall
    rw [hm, Function.update_of_ne hne]

/-- The state behind the return of a start is reachable. -/
theorem Returns.reachable (h : Returns w x s s') (hr : machine.Reachable s) : machine.Reachable s' := by
  induction h with
  | last => exact hr.step ⟨_, _, rfl⟩
  | step _ _ _ ih => exact ih (hr.step ⟨_, _, rfl⟩)

/-- The return of a start lets the lock go. -/
theorem Returns.free (h : Returns w x s s') : s'.creator = none := by
  induction h with
  | last _ _ hfree => exact hfree
  | step _ _ _ ih => exact ih

/-- What was recorded stays recorded. -/
theorem Returns.grows (h : Returns w x s s') (hr : machine.Reachable s) : ∃ l, s'.history = l ++ s.history := by
  induction h with
  | last => exact (move_perform (sound hr) _ _).grows
  | step _ _ _ ih =>
    obtain ⟨l, hl⟩ := (move_perform (sound hr) _ _).grows
    obtain ⟨l', hl'⟩ := ih (hr.step ⟨_, _, rfl⟩)
    exact ⟨l' ++ l, by rw [hl', hl, List.append_assoc]⟩

/-- A start that does not return its TID leaves the words of the guest as it found them, and nothing of
its worker. -/
theorem Returns.leaves (h : Returns w x s s') (hr : machine.Reachable s) (hfails : .started w.tid ∉ s'.history) :
    s'.memory x = s.memory x ∧ w.tid ∉ s'.attached ∧ ∀ w' ∈ s'.active, w'.tid ≠ w.tid := by
  obtain ⟨hwrote, hattached, hactive⟩ :=
    (((known (h.reachable hr)).untouched w.tid).resolve_left hfails).resolve_left fun ⟨x, stage, hx, _⟩ => by
      rw [h.free] at hx
      cases hx
  refine ⟨?_, hattached, hactive⟩
  clear hfails hattached hactive
  induction h with
  | last hc ha => exact (move_perform (sound hr) _ _).memory_apart hc ha hwrote
  | @step s s' a env hc ha hrest ih =>
    have hr' : machine.Reachable (s.perform a env) := hr.step ⟨a, env, rfl⟩
    refine (ih hr' hwrote).trans ((move_perform (sound hr) _ _).memory_apart hc ha fun hmem => hwrote ?_)
    obtain ⟨l, hl⟩ := hrest.grows hr'
    rw [hl]
    exact List.mem_append_right _ hmem

/-- The call of a start that gets the lock stores nothing. -/
theorem Move.call_leaves {start : Start} (h : Move s (.start start) s') (hfree : s.creator = none)
    (hc : s'.creator = some (w, .prepared)) : w.start = start ∧ s'.memory = s.memory := by
  have hnone : s'.creator ≠ none := by
    rw [hc]
    exact nofun
  cases h with
  | quiet _ _ _ _ _ _ hsame =>
    rcases hsame with hsame | ⟨_, hsome, _⟩
    · exact absurd (hsame.trans hfree) hnone
    · rw [hfree] at hsome
      cases hsome
  | begins w' hcall _ hc' _ hm =>
    rw [hc] at hc'
    cases hc'
    exact ⟨(Action.start.inj hcall).symm, hm⟩
  | guest _ _ hcall => cases hcall
  | wrote _ hsome | started _ hsome =>
    rw [hfree] at hsome
    cases hsome
  | acts _ _ _ _ _ _ _ hkept => exact absurd (hkept.2.2.trans hfree) hnone
  | refuses _ _ _ hattached =>
    rcases hattached with ⟨hsame, _⟩ | ⟨_, _, hgone, _⟩
    · exact absurd (hsame.trans hfree) hnone
    · exact absurd hgone hnone

/-! ## The life of a thread -/

/-- Memory of a worker is given back only when it is out of the signal queue. -/
theorem Move.attempts_detached (h : Move s a s') (hs : s.Sound) (hl : s'.history = l ++ s.history) {e : Event}
    (he : e ∈ l) {t : Nat} (ha : e.attempts t = true) : ∃ w ∈ s.active, w.tid = t ∧ w.attached = false := by
  have hquiet : e.quiet = false := by
    cases e <;> first | rfl | cases ha
  cases h with
  | quiet l' hl' hq =>
    obtain rfl := List.append_cancel_right (hl.symm.trans hl')
    exact absurd he (not_mem_quiet hq hquiet)
  | begins w _ _ _ hl' =>
    obtain rfl : l = [_] := List.append_cancel_right (hl.symm.trans hl')
    rw [List.mem_singleton.1 he] at ha
    cases ha
  | guest _ _ _ heq =>
    subst heq
    obtain rfl : l = [] := List.append_cancel_right (hl.symm.trans (List.nil_append _).symm)
    cases he
  | wrote w _ heq =>
    subst heq
    obtain rfl : l = [.wrote w.tid] := List.append_cancel_right hl.symm
    rw [List.mem_singleton.1 he] at ha
    cases ha
  | started w _ heq =>
    subst heq
    obtain rfl : l = [.started w.tid] := List.append_cancel_right hl.symm
    rw [List.mem_singleton.1 he] at ha
    cases ha
  | acts w e' hw hr he' hl' =>
    obtain rfl : l = [e'] := List.append_cancel_right (hl.symm.trans hl')
    rw [List.mem_singleton.1 he] at ha
    obtain rfl : w.tid = t := by
      rcases he' with ⟨error, rfl⟩ | ⟨error, rfl⟩ <;> exact beq_iff_eq.1 ha
    obtain ⟨w', hw', hid, _, hf⟩ := hs.reaper _ _ hr
    exact ⟨w', hw', hid, (hf.2 rfl).1⟩
  | refuses error _ _ _ l' hl' hq =>
    obtain rfl := List.append_cancel_right (hl.symm.trans hl')
    rcases List.mem_cons.1 he with rfl | he
    · cases ha
    · exact absurd he (not_mem_quiet hq hquiet)

/-- A step in which a start is refused leaves memory and records, and takes from the signal queue only what
the start added. -/
theorem Move.refused_leaves (h : Move s a s') (hl : s'.history = l ++ s.history)
    (hr : ∃ error, .refused error ∈ l) : s'.memory = s.memory ∧ s'.active = s.active ∧
      (s'.attached = s.attached ∨ ∃ w stage, s.creator = some (w, stage) ∧ s'.creator = none ∧
        ∀ t, t ∈ s'.attached ↔ t ∈ s.attached ∧ t ≠ w.tid) := by
  obtain ⟨error, hr⟩ := hr
  cases h with
  | quiet l' hl' hq =>
    obtain rfl := List.append_cancel_right (hl.symm.trans hl')
    exact absurd hr (not_mem_quiet hq rfl)
  | begins w _ _ _ hl' =>
    obtain rfl : l = [_] := List.append_cancel_right (hl.symm.trans hl')
    cases List.mem_singleton.1 hr
  | guest _ _ _ heq =>
    subst heq
    obtain rfl : l = [] := List.append_cancel_right (hl.symm.trans (List.nil_append _).symm)
    cases hr
  | wrote w _ heq =>
    subst heq
    obtain rfl : l = [.wrote w.tid] := List.append_cancel_right hl.symm
    cases List.mem_singleton.1 hr
  | started w _ heq =>
    subst heq
    obtain rfl : l = [.started w.tid] := List.append_cancel_right hl.symm
    cases List.mem_singleton.1 hr
  | acts w e _ _ he hl' =>
    obtain rfl : l = [e] := List.append_cancel_right (hl.symm.trans hl')
    rw [← List.mem_singleton.1 hr] at he
    rcases he with ⟨error, he⟩ | ⟨error, he⟩ <;> cases he
  | refuses error hm hactive hattached =>
    exact ⟨hm, hactive, hattached.imp And.right fun ⟨w, hc, rest⟩ => ⟨w, .prepared, hc, rest⟩⟩

/-- The life of a guest thread. TIDs are given once and are above the PID. Memory of a worker is
given back at most once, in one of the two ways, after a join that succeeded, by then the worker is
out of the signal queue, and neither its run callback nor the detach reported an error. If its join
failed nothing is ever given back and its record stays, and once that failure is recorded no start
succeeds. A run callback begins after the word of the parent was written. A start that fails leaves,
from its call to its return, the word of the parent, no record and nothing in the signal queue. The
words of the guest and the records change only in the steps that say so. -/
theorem thread_lifecycle (h : machine.Reachable s) :
    ((s.history.filterMap Event.assignment).Nodup ∧ ∀ t, .assigned t ∈ s.history → s.pid < t) ∧
    Always Rule s.history ∧
    (∀ t error, .joined t error ∈ s.history → error ≠ 0 →
      (∀ e ∈ s.history, e.attempts t = false) ∧ ∃ w ∈ s.active, w.tid = t) ∧
    (∀ t, .assigned t ∈ s.history → .started t ∈ s.history ∨
      (∃ w stage, s.creator = some (w, stage) ∧ w.tid = t) ∨
      (.wrote t ∉ s.history ∧ t ∉ s.attached ∧ ∀ w ∈ s.active, w.tid ≠ t)) ∧
    (∀ start env w x s', s.creator = none → (s.perform (.start start) env).creator = some (w, .prepared) →
      Returns w x (s.perform (.start start) env) s' → .started w.tid ∉ s'.history →
      w.start = start ∧ s'.memory x = s.memory x ∧ w.tid ∉ s'.attached ∧ ∀ w' ∈ s'.active, w'.tid ≠ w.tid) ∧
    ∀ a env l, (s.perform a env).history = l ++ s.history →
      (∀ e ∈ l, ∀ t, e.attempts t = true → ∃ w ∈ s.active, w.tid = t ∧ w.attached = false) ∧
      ((∃ error, .refused error ∈ l) → (s.perform a env).memory = s.memory ∧
        (s.perform a env).active = s.active ∧
        ((s.perform a env).attached = s.attached ∨ ∃ w stage, s.creator = some (w, stage) ∧
          (s.perform a env).creator = none ∧
          ∀ t, t ∈ (s.perform a env).attached ↔ t ∈ s.attached ∧ t ≠ w.tid)) ∧
      Stores s a l (s.perform a env) ∧ Places s a l (s.perform a env) := by
  have hs := sound h
  refine ⟨⟨hs.assigned.1, fun t ht => hs.assigned.2 t (List.mem_filterMap.2 ⟨_, ht, rfl⟩)⟩, hs.rules,
    fun t error hj hne => hs.kept hj hne, fun t _ => (known h).untouched t,
    fun start env w x s' hfree hc hreturns hfails => ?_, fun a env l hl => ?_⟩
  · obtain ⟨hcall, hsame⟩ := (move_perform hs (.start start) env).call_leaves hfree hc
    obtain ⟨hm, hattached, hactive⟩ := hreturns.leaves (h.step ⟨.start start, env, rfl⟩) hfails
    exact ⟨hcall, hm.trans (congrFun hsame x), hattached, hactive⟩
  · have hmove := move_perform hs a env
    exact ⟨fun e he t ha => hmove.attempts_detached hs hl he ha, hmove.refused_leaves hl, hmove.stores hl,
      hmove.places hl⟩

/-- A start whose stack and words are in guest memory. -/
def plainStart : Start where
  flags := 0x3d0f00
  stackBase := 4096
  stackSize := 4096
  tls := 1
  parentTid := 8
  childTid := 8
  entry := 1
  argument := 0

/-- A manager before its first thread, in memory that is zero. -/
def newManager : System := { pid := 100, nextTid := 101, limit := 2, memory := fun _ => 0 }

theorem reachable_newManager : machine.Reachable newManager :=
  .init ⟨100, 101, 2, _, ⟨by decide, by decide, by decide, by decide⟩, rfl⟩

theorem step_perform (s : System) (a : Action × Env) : machine.step s (s.perform a.1 a.2) :=
  ⟨a.1, a.2, rfl⟩

/-- A thread starts, ends and is reaped. -/
def joinedLife : System :=
  [(.start plainStart, {}), (.create, {}), (.create, {}), (.create, {}), (.enter 101, {}),
    (.leave 101 { clearTid := 8 }, {}), (.complete 101, {}), (.reap, {}), (.reap, {}), (.reap, {}),
    (.reap, {}), (.reap, {})].foldl (fun s (a : Action × Env) => s.perform a.1 a.2) newManager

/-- The native start of the next thread fails after the guest has stored to another word. -/
def failedStart : System :=
  [(.start plainStart, {}), (.guest 16 7, {}), (.create, { start := -11 })].foldl
    (fun s (a : Action × Env) => s.perform a.1 a.2) joinedLife

/-- A worker whose join precedes the clearing of its TID, and a failed start that leaves the word alone. -/
theorem thread_lifecycle_joinedLife : .cleared 101 0 ∈ joinedLife.history ∧
    (∃ newer older, joinedLife.history = newer ++ .cleared 101 0 :: older ∧ .joined 101 0 ∈ older) ∧
    (joinedLife.history.filterMap Event.assignment).Nodup ∧
    .refused (-11) ∈ failedStart.history ∧ failedStart.memory plainStart.parentTid = 0 ∧
    102 ∉ failedStart.attached ∧ failedStart.active = [] := by
  have hreach : machine.Reachable joinedLife := reachable_newManager.foldl step_perform _
  have hmem : .cleared 101 0 ∈ joinedLife.history := by decide
  obtain ⟨⟨hnodup, _⟩, hrules, _, _, hfails, _⟩ := thread_lifecycle hreach
  obtain ⟨newer, older, heq⟩ := List.append_of_mem hmem
  -- the start that fails, from its call to its return
  have hreturns : Returns { tid := 102, start := plainStart, clearTid := 8 } 8
      (joinedLife.perform (.start plainStart) {}) failedStart :=
    @Returns.step _ _ _ _ (.guest 16 7) {} ⟨.prepared, rfl⟩ ⟨nofun, by decide⟩
      (@Returns.last _ _ _ .create { start := -11 } ⟨.prepared, rfl⟩ ⟨nofun, by decide⟩ rfl)
  obtain ⟨_, hword, hattached, _⟩ := hfails plainStart {} _ 8 _ rfl rfl hreturns (by decide)
  refine ⟨hmem, ⟨newer, older, heq, ?_⟩, hnodup, by decide, hword.trans (by decide), hattached, by decide⟩
  rw [heq] at hrules
  exact (hrules.split.1 101 rfl).1

/-- The join of a thread fails, and another starts before the reaper has the lock again. -/
def overtakenFailure : System :=
  [(.start plainStart, {}), (.create, {}), (.create, {}), (.create, {}), (.enter 101, {}),
    (.leave 101 {}, {}), (.complete 101, {}), (.reap, {}), (.reap, { join := -5 }),
    (.start plainStart, {}), (.create, {}), (.create, {}), (.create, {}), (.reap, {})].foldl
    (fun s (a : Action × Env) => s.perform a.1 a.2) newManager

/-- A start can succeed after the native join failed. -/
theorem start_overtakes_failure : ∃ s, machine.Reachable s ∧
    ¬ Always (fun e older => ∀ t, e = .started t →
      ∀ t' error, .joined t' error ∈ older → error = 0) s.history := by
  refine ⟨overtakenFailure, reachable_newManager.foldl step_perform _, fun hall => ?_⟩
  have hsplit : overtakenFailure.history =
      [.failed 101] ++ .started 102 :: overtakenFailure.history.drop 2 := by decide
  rw [hsplit] at hall
  have hjoined : .joined 101 (-5) ∈ overtakenFailure.history.drop 2 := by decide
  exact absurd (hall.split 102 rfl 101 (-5) hjoined) (by decide)

end System

end Artbox.Threads
