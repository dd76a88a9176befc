import Artbox.Futex.Ledger

/-!
# Wakes are accounted for

Every step of every call keeps the ledger, so that a run of any calls in any order wakes each
waiter at most once and reports each wake exactly once.
-/

namespace Artbox.Futex

variable {ω : Type} {host : Host ω}

/-! ## Errors are not zero -/

/-- A clock that fails gives an errno other than zero. -/
theorem clockValue_error {w w' : ω} {id : Nat} {e : Int}
    (h : clockValue host w id = (.error e, w')) : e ≠ 0 := by
  unfold clockValue at h
  dsimp only at h
  split at h
  next hne =>
    cases h
    split <;> omega
  next =>
    split at h
    · cases h
      decide
    · cases h

/-- A timeout that is refused gives an errno other than zero. -/
theorem timeoutValue_error {w w' : ω} {pointer : Nat} {relative : Bool} {e : Int}
    (h : timeoutValue host w pointer relative = (.error e, w')) : e ≠ 0 := by
  unfold timeoutValue at h
  dsimp only at h
  split at h
  next hne =>
    cases h
    exact hne
  next =>
    split at h
    · cases h
      decide
    · split at h
      · split at h
        next heq =>
          cases h
          exact clockValue_error heq
        next => cases h
      · cases h

/-- A call that is refused before the queue gives an errno other than zero. -/
theorem prepare_error {w w' : ω} {a : Arguments} {e : Int}
    (h : prepare host w a = (.error e, w')) : e ≠ 0 := by
  unfold prepare at h
  dsimp only at h
  split at h
  · cases h
    decide
  · split at h
    · split at h
      · cases h
        decide
      · split at h
        · cases h
          decide
        · split at h
          next hne =>
            cases h
            exact hne
          next =>
            split at h
            next hne =>
              cases h
              exact hne
            next => cases h
    · split at h
      next e' w' heq =>
        cases h
        split at heq
        · split at heq
          next htime =>
            cases heq
            exact timeoutValue_error htime
          next => cases heq
        · cases heq
      next =>
        -- what is left are constants
        split_ifs at h <;> cases h <;> decide

namespace System

variable {s s' : System ω}

/-- A wait ends with zero exactly if its waiter has its mark. -/
theorem check_result {w w' : ω} {woken : Bool} {r : WaitRequest} {q : Int}
    (h : check host w woken r = (some q, w')) : q = 0 ↔ woken = true := by
  unfold check at h
  split at h
  next hw =>
    cases h
    exact iff_of_true rfl hw
  next hw =>
    refine iff_of_false ?_ hw
    split at h
    · cases h
      decide
    · split at h
      · cases h
      · split at h
        next heq =>
          cases h
          exact clockValue_error heq
        next =>
          split at h
          · cases h
            decide
          · cases h

/-! ## Every step keeps the ledger -/

/-- A queued waiter is found by its id. -/
theorem Ledger.find (h : s.Ledger) {w : Waiter} (hw : w ∈ s.active) :
    s.active.find? (fun v => v.id == w.id) = some w := by
  rw [List.find?_eq_some_iff_append]
  obtain ⟨pre, post, hsplit⟩ := List.append_of_mem hw
  refine ⟨beq_self_eq_true _, pre, post, hsplit, fun v hv => ?_⟩
  have hnd := h.ids
  rw [hsplit, List.map_append, List.map_cons] at hnd
  have hne : v.id ≠ w.id := fun heq =>
    (List.nodup_append.1 hnd).2.2 _ (List.mem_map_of_mem hv) _ List.mem_cons_self heq
  simpa using hne

/-- One pass of a wait: it leaves the queue, or it waits on and nothing happened. -/
theorem loop_cases (h : s.Ledger) {w : Waiter} (hw : w ∈ s.active) (r : WaitRequest) :
    (∃ q w', (q = 0 ↔ w.woken = true) ∧ loop host s w.id r = { s with world := w' }.leave w.id q) ∨
      ∃ w', loop host s w.id r =
        { s with world := w', sleepers := (⟨w.id, r⟩ : Sleeper) :: s.sleepers } := by
  unfold loop
  rw [h.find hw]
  dsimp only [Option.any_some]
  split
  next q w' heq => exact .inl ⟨q, w', check_result heq, rfl⟩
  next w' heq => exact .inr ⟨w', rfl⟩

/-- A turn of a waiter's loop keeps the ledger, whether it sleeps again or returns. -/
theorem Ledger.loop (h : s.Ledger) {w : Waiter} (hw : w ∈ s.active)
    (hs : ∀ p ∈ s.sleepers, p.id ≠ w.id) (r : WaitRequest) :
    (System.loop host s w.id r).Ledger := by
  obtain ⟨q, w', hq, heq⟩ | ⟨w', heq⟩ := loop_cases h hw r
  · have hworld : Ledger { s with world := w' } := h.congr rfl rfl rfl rfl
    rw [heq]
    exact hworld.leave hw hs hq
  · rw [heq]
    refine ⟨h.sorted, h.fresh, h.issued, ?_, ?_, h.marked, h.once, h.known, h.moved, h.returned,
      h.present, h.refused, h.total⟩
    · refine List.nodup_cons.2 ⟨fun hmem => ?_, h.asleep⟩
      obtain ⟨p, hp, hid⟩ := List.mem_map.1 hmem
      exact hs p hp hid
    · intro p hp
      rcases List.mem_cons.1 hp with rfl | hp
      · exact ⟨w, hw, rfl⟩
      · exact h.waiting p hp

/-- The system with the wait `r` in the queue. -/
def join (s : System ω) (r : WaitRequest) (w : ω) : System ω :=
  { s with
    world := w
    active := s.active ++ [(⟨s.nextId, r.address, r.mask, r.privateKey, false⟩ : Waiter)]
    nextId := s.nextId + 1
    history := .registered s.nextId r r.value :: s.history }

/-- A wait either is refused or read its value in the step in which it joins the queue. -/
theorem wait_cases (s : System ω) (r : WaitRequest) :
    (∃ e w', e ≠ 0 ∧ wait host s r = { s with world := w' }.record (.refused e)) ∨
      ((host.loadU32 s.world r.address).1 = (0, r.value) ∧
        ∃ w', wait host s r = System.loop host (s.join r w') s.nextId r) := by
  unfold wait
  dsimp only
  split
  next hne => exact .inl ⟨_, _, hne, rfl⟩
  next hzero =>
    split
    next => exact .inl ⟨_, _, by decide, rfl⟩
    next hvalue =>
      split
      next => exact .inl ⟨_, _, by decide, rfl⟩
      next =>
        have hload : (host.loadU32 s.world r.address).1 = (0, r.value) :=
          Prod.ext (not_not.1 hzero) (not_not.1 hvalue)
        refine .inr ⟨hload, (host.loadU32 s.world r.address).2, ?_⟩
        rw [hload]
        rfl

/-- A wait that joins the queue keeps the ledger. -/
theorem Ledger.join (h : s.Ledger) (r : WaitRequest) (w : ω) : (s.join r w).Ledger :=
  (h.register r).congr rfl rfl rfl rfl

/-- A wait keeps the ledger, also where its word has changed. -/
theorem Ledger.wait (h : s.Ledger) (r : WaitRequest) : (System.wait host s r).Ledger := by
  obtain ⟨e, w', he, heq⟩ | ⟨_, w', heq⟩ := wait_cases s r
  · have hworld : Ledger { s with world := w' } := h.congr rfl rfl rfl rfl
    rw [heq]
    exact hworld.refuse he
  · rw [heq]
    have hmem : (⟨s.nextId, r.address, r.mask, r.privateKey, false⟩ : Waiter) ∈ (s.join r w').active :=
      List.mem_append_right _ (List.mem_singleton.2 rfl)
    refine (h.join r w').loop hmem (fun p hp => ?_) r
    obtain ⟨w, hw, hid⟩ := h.waiting p hp
    exact hid ▸ Nat.ne_of_lt (h.fresh w hw)

/-- The waiters a wake may take, in the order in which they registered. -/
def candidates (s : System ω) (address : Nat) (key : Bool) (mask : Nat) : List Waiter :=
  s.active.filter (Waiter.matches address key mask)

/-- What a wake does to the system. -/
def woken (s : System ω) (address : Nat) (key : Bool) (mask : Nat) (count : Int) : System ω :=
  { s with
    active := markAll ((s.candidates address key mask).take (max count 1).toNat) s.active
    history := ((s.candidates address key mask).take (max count 1).toNat).map (fun w => .marked w.id) ++
      s.history }

/-- A wake takes the first candidates up to its count and leaves the rest in order. -/
theorem Ledger.wake_eq (h : s.Ledger) (address : Nat) (key : Bool) (mask : Nat) (count : Int) :
    (Futex.wake s.active address key mask count).1 =
        min (max count 1).toNat (s.candidates address key mask).length ∧
      s.requeueTo (Futex.wake s.active address key mask count).2 =
        s.woken address key mask count := by
  rw [Futex.wake_eq, candidates, List.countP_eq_length_filter]
  refine ⟨rfl, ?_⟩
  have hmarks := marks_editUpTo (p := Waiter.matches address key mask)
    (fun _ => Waiter.unwoken_of_matches) (max count 1).toNat s.active
  have hmoves : moves s.active (markAll ((s.candidates address key mask).take (max count 1).toNat)
      s.active) = [] := by
    rw [markAll, moves_map, List.map_eq_nil_iff, List.filter_eq_nil_iff]
    intro w _
    split <;> simp [Waiter.mark]
  rw [editUpTo_mark h.ids] at hmarks ⊢
  unfold requeueTo woken
  rw [candidates] at hmoves ⊢
  rw [hmarks, hmoves, List.map_nil, List.append_nil, List.map_map]
  rfl

/-- The ledger with the wake recorded. -/
theorem Ledger.woke (h : s.Ledger) (address : Nat) (key : Bool) (mask : Nat) (count : Int)
    {e : Event} (he : e.Reports)
    (hn : e.woken = (Futex.wake s.active address key mask count).1) :
    ((s.requeueTo (Futex.wake s.active address key mask count).2).record e).Ledger := by
  have hwake : Futex.wake s.active address key mask count = _ := Futex.wake_eq s.active count
  have hmarks := marks_editUpTo (p := Waiter.matches address key mask)
    (fun _ => Waiter.unwoken_of_matches) (max count 1).toNat s.active
  rw [hwake] at hn ⊢
  dsimp only at hn ⊢
  rw [editUpTo_mark h.ids] at hmarks ⊢
  refine h.revise (revises_markAll _) he ?_
  rw [hn]
  show _ = (marks s.active (markAll _ s.active)).length
  rw [hmarks, List.length_map, List.length_take, List.countP_eq_length_filter]

/-- The waiters a requeue may take, in the order in which they registered. -/
def requeueable (s : System ω) (source : Nat) : List Waiter :=
  s.active.filter (Waiter.requeues source)

/-- The queue after a requeue. -/
def requeuedQueue (s : System ω) (source target wakes moves : Nat) : List Waiter :=
  requeueAll target ((s.requeueable source).take wakes)
    (((s.requeueable source).drop wakes).take moves) s.active

/-- A requeue wakes the first candidates and moves the next ones, both up to their counts. -/
theorem Ledger.requeue_eq (h : s.Ledger) (source target wakes moves : Nat) :
    requeueLoop source target wakes moves 0 0 s.active =
        ((min wakes (s.requeueable source).length,
            min moves ((s.requeueable source).length - wakes)),
          s.requeuedQueue source target wakes moves) ∧
      marks s.active (s.requeuedQueue source target wakes moves) =
        ((s.requeueable source).take wakes).map (·.id) := by
  have hqueue : Edit.editUpTo (Waiter.requeues source) (Waiter.move target) moves
      (Edit.editUpTo (Waiter.requeues source) Waiter.mark wakes s.active) = _ :=
    editUpTo_requeue h.ids
  constructor
  · rw [Futex.requeue_eq, hqueue, List.countP_eq_length_filter]
    rfl
  · rw [requeuedQueue, requeueable, ← hqueue]
    refine (marks_congr (Edit.map_editUpTo fun w => ?_)).trans
      (marks_editUpTo (fun _ => Waiter.unwoken_of_requeues) wakes s.active)
    rfl

/-- What a requeue adds to the history besides its marks are moves. -/
theorem requeue_history (s : System ω) (source target wakes moves : Nat) (h : s.Ledger) :
    ∃ l, (s.requeueTo (s.requeuedQueue source target wakes moves)).history =
        ((s.requeueable source).take wakes).map (fun w => .marked w.id) ++ l ++ s.history ∧
      ∀ e ∈ l, ∃ id, e = .moved id target := by
  refine ⟨(System.moves s.active (s.requeuedQueue source target wakes moves)).map fun m => .moved m.1 m.2,
    ?_, ?_⟩
  · show (marks _ _).map _ ++ _ ++ _ = _
    rw [(h.requeue_eq source target wakes moves).2, List.map_map]
    rfl
  · intro e he
    obtain ⟨m, hm, rfl⟩ := List.mem_map.1 he
    rw [requeuedQueue, requeueAll, moves_map] at hm
    obtain ⟨w, hw, rfl⟩ := List.mem_map.1 hm
    have hne := (List.mem_filter.1 hw).2
    dsimp only at hne ⊢
    split at hne
    · simp [Waiter.mark] at hne
    next hwoken =>
      split at hne
      next hmoved => exact ⟨w.id, by rw [if_neg hwoken, if_pos hmoved]; rfl⟩
      next => simp at hne

/-- The ledger with the requeue recorded. -/
theorem Ledger.requeued (h : s.Ledger) (source target wakes moves : Nat) :
    ((s.requeueTo (s.requeuedQueue source target wakes moves)).record
      (.requeued (.requeue source target wakes moves) (min wakes (s.requeueable source).length)
        (min moves ((s.requeueable source).length - wakes)))).Ledger := by
  refine h.revise (revises_requeueAll _ _ _) trivial ?_
  show min wakes _ = (marks s.active (s.requeuedQueue source target wakes moves)).length
  rw [(h.requeue_eq source target wakes moves).2, List.length_map, List.length_take]

/-- Every prepared request keeps the ledger. -/
theorem Ledger.enter (h : s.Ledger) (r : Request) : (System.enter host s r).Ledger := by
  cases r with
  | wait r => exact h.wait r
  | wake address key mask count =>
    have hworld : ∀ w', Ledger { s with world := w' } := fun w' => h.congr rfl rfl rfl rfl
    unfold System.enter
    dsimp only
    generalize (if key = true then (true, s.world) else host.access s.world address 4) = a
    split
    · exact Ledger.refuse (r := -14) (hworld a.2) (by decide)
    · exact Ledger.woke (hworld a.2) address key mask count
        (e := .woke (.wake address key mask count) _) trivial rfl
  | requeue source target wakes moves =>
    have hq := h.requeued source target wakes moves
    unfold System.enter
    dsimp only
    rw [(h.requeue_eq source target wakes moves).1]
    exact hq

/-- The clearing of a TID keeps the ledger. -/
theorem Ledger.clearTid (h : s.Ledger) (address : Nat) : (System.clearTid host s address).Ledger := by
  have hworld : ∀ w', Ledger { s with world := w' } := fun w' => h.congr rfl rfl rfl rfl
  unfold System.clearTid
  split
  · exact h
  · dsimp only
    split
    · exact hworld _
    · exact Ledger.woke (hworld _) address false uint32Max 1 (e := .cleared address _) trivial rfl

/-- The preparation of a call keeps the ledger. -/
theorem Ledger.begin (h : s.Ledger) (a : Arguments) : (System.begin host s a).Ledger := by
  unfold System.begin
  split
  next e w' heq =>
    have hworld : Ledger { s with world := w' } := h.congr rfl rfl rfl rfl
    exact hworld.refuse (prepare_error heq)
  next => exact h.congr rfl rfl rfl rfl

/-- The step lemma. -/
theorem Ledger.perform (h : s.Ledger) (a : Action) : (System.perform host s a).Ledger := by
  cases a with
  | begin a => exact h.begin a
  | enter i =>
    unfold System.perform
    dsimp only
    split
    · exact h
    next r _ =>
      have hleft : Ledger { s with prepared := s.prepared.eraseIdx i } := h.congr rfl rfl rfl rfl
      exact hleft.enter r
  | resume i =>
    unfold System.perform
    dsimp only
    split
    · exact h
    next p hp =>
      have hmem : p ∈ s.sleepers := List.mem_of_getElem? hp
      have hsub : (s.sleepers.eraseIdx i).Sublist s.sleepers := List.eraseIdx_sublist _ _
      have hleft : Ledger { s with sleepers := s.sleepers.eraseIdx i } :=
        ⟨h.sorted, h.fresh, h.issued, h.asleep.sublist (hsub.map _),
          fun q hq => h.waiting q (hsub.subset hq), h.marked, h.once, h.known, h.moved, h.returned,
          h.present, h.refused, h.total⟩
      obtain ⟨w, hw, hid⟩ := h.waiting p hmem
      rw [← hid]
      refine hleft.loop hw (fun q hq heq => ?_) p.request
      -- the one that runs is no longer among the sleepers
      obtain ⟨j, hj, hjq⟩ := List.mem_eraseIdx_iff_getElem?.1 hq
      have hids : ∀ (k : Nat) (x : Sleeper), s.sleepers[k]? = some x →
          (s.sleepers.map (·.id))[k]? = some x.id := by
        intro k x hx
        rw [List.getElem?_map, hx]
        rfl
      have hlt : j < (s.sleepers.map (·.id)).length := by
        rw [List.length_map]
        exact (List.getElem?_eq_some_iff.1 hjq).1
      exact hj ((List.getElem?_inj hlt h.asleep).1
        ((hids j q hjq).trans (by rw [hids i p hp, heq, hid])))
  | clearTid address => exact h.clearTid address

/-- The ledger holds in every reachable futex. -/
theorem ledger (h : (machine host).Reachable s) : s.Ledger := by
  refine h.inv (fun s hs => ?_) fun s s' hs hstep => ?_
  · obtain ⟨limit, w, _, _, rfl⟩ := hs
    exact ⟨.nil, nofun, rfl, .nil, nofun, nofun, .nil, nofun, nofun, nofun, nofun, nofun, rfl⟩
  · obtain ⟨a, rfl⟩ | ⟨w, rfl⟩ := hstep
    · exact hs.perform a
    · exact hs.congr rfl rfl rfl rfl

/-! ## The accounts -/

/-- What holds of a futex between any two steps, and of its next step. -/
structure Accounted (host : Host ω) (s : System ω) : Prop where
  /-- The reports of all wakes, requeues and cleared thread ids add up to the marked waiters. -/
  total : (s.history.map Event.woken).sum = (markedIds s.history).length
  /-- No waiter is marked twice. -/
  once : (markedIds s.history).Nodup
  /-- A wait returns zero exactly if its waiter was marked. -/
  returned : ∀ id result, .returned id result ∈ s.history → (result = 0 ↔ .marked id ∈ s.history)
  /-- A call that never joined the queue does not return zero. -/
  refused : ∀ result, .refused result ∈ s.history → result ≠ 0
  /-- Waiters are numbered in the order in which they registered. -/
  registered : (s.history.filterMap Event.registeredId).reverse = List.range s.nextId
  /-- The queue is in the order of registration. -/
  sorted : s.active.Pairwise fun v w => v.id < w.id
  /-- A waiter that registered and has not returned is in the queue, with its mask and its kind of
  key, at the address it was last moved to. -/
  queued : ∀ id r v, .registered id r v ∈ s.history → v = r.value ∧
    ((∃ result, .returned id result ∈ s.history) ∨
      ∃ w ∈ s.active, w.id = id ∧ w.mask = r.mask ∧ w.privateKey = r.privateKey ∧
        w.address = addressOf id r.address s.history ∧ (w.woken = true ↔ .marked id ∈ s.history))
  /-- A wait joins the queue in the step that finds its value, or is refused. -/
  waits : ∀ (i : Nat) (r : WaitRequest), s.prepared[i]? = some (.wait r) →
    (∃ e, e ≠ 0 ∧ (perform host s (.enter i)).active = s.active ∧
        (perform host s (.enter i)).history = .refused e :: s.history) ∨
      ((host.loadU32 s.world r.address).1 = (0, r.value) ∧
        ∃ l, (perform host s (.enter i)).history = l ++ .registered s.nextId r r.value :: s.history)
  /-- A wake marks the first of its candidates and reports how many. -/
  wakes : ∀ (i address : Nat) (key : Bool) (mask : Nat) (count : Int),
    s.prepared[i]? = some (.wake address key mask count) →
    (key = true ∨ (host.access s.world address 4).1 = true) →
      (perform host s (.enter i)).active =
          markAll ((s.candidates address key mask).take (max count 1).toNat) s.active ∧
        (perform host s (.enter i)).history =
          .woke (.wake address key mask count)
              (min (max count 1).toNat (s.candidates address key mask).length) ::
            (((s.candidates address key mask).take (max count 1).toNat).map (fun w => .marked w.id) ++
              s.history)
  /-- A requeue marks the first waiters of its source, moves the next, and reports both. -/
  requeues : ∀ (i source target wakes moves : Nat),
    s.prepared[i]? = some (.requeue source target wakes moves) →
      (perform host s (.enter i)).active =
          requeueAll target ((s.requeueable source).take wakes)
            (((s.requeueable source).drop wakes).take moves) s.active ∧
        ∃ l, (∀ e ∈ l, ∃ id, e = .moved id target) ∧
          (perform host s (.enter i)).history =
            .requeued (.requeue source target wakes moves) (min wakes (s.requeueable source).length)
                (min moves ((s.requeueable source).length - wakes)) ::
              (((s.requeueable source).take wakes).map (fun w => .marked w.id) ++ l ++ s.history)
  /-- A cleared thread id wakes the first candidate of its shared key. -/
  clears : ∀ address, address ≠ 0 → (host.storeU32 s.world address 0).1 = 0 →
    (perform host s (.clearTid address)).active =
        markAll ((s.candidates address false uint32Max).take 1) s.active ∧
      (perform host s (.clearTid address)).history =
        .cleared address (min 1 (s.candidates address false uint32Max).length) ::
          (((s.candidates address false uint32Max).take 1).map (fun w => .marked w.id) ++ s.history)

/-- Entering takes the request from those prepared. -/
theorem perform_enter {i : Nat} {r : Request} (hi : s.prepared[i]? = some r) :
    perform host s (.enter i) = enter host { s with prepared := s.prepared.eraseIdx i } r := by
  rw [perform, hi]

/-- A wait is refused with an errno, or joins the queue while its word has the value. -/
theorem Ledger.waits (h : s.Ledger) {i : Nat} {r : WaitRequest}
    (hi : s.prepared[i]? = some (.wait r)) :
    (∃ e, e ≠ 0 ∧ (System.perform host s (.enter i)).active = s.active ∧
        (System.perform host s (.enter i)).history = .refused e :: s.history) ∨
      ((host.loadU32 s.world r.address).1 = (0, r.value) ∧ ∃ l,
        (System.perform host s (.enter i)).history = l ++ .registered s.nextId r r.value :: s.history) := by
  have hleft : Ledger { s with prepared := s.prepared.eraseIdx i } := h.congr rfl rfl rfl rfl
  rw [perform_enter hi]
  show (∃ e, e ≠ 0 ∧ (System.wait host _ r).active = _ ∧ (System.wait host _ r).history = _) ∨
    _ ∧ ∃ l, (System.wait host _ r).history = _
  obtain ⟨e, w', he, heq⟩ | ⟨hload, w', heq⟩ :=
    wait_cases { s with prepared := s.prepared.eraseIdx i } r
  · exact .inl ⟨e, he, by rw [heq]; rfl, by rw [heq]; rfl⟩
  · refine .inr ⟨hload, ?_⟩
    rw [heq]
    have hmem : (⟨s.nextId, r.address, r.mask, r.privateKey, false⟩ : Waiter) ∈
        (System.join { s with prepared := s.prepared.eraseIdx i } r w').active :=
      List.mem_append_right _ (List.mem_singleton.2 rfl)
    obtain ⟨q, w'', _, heq'⟩ | ⟨w'', heq'⟩ :=
      loop_cases (hleft.join r w') hmem r
    · rw [heq']
      exact ⟨[.returned s.nextId q], rfl⟩
    · rw [heq']
      exact ⟨[], rfl⟩

/-- A wake at an address that is accessible takes its candidates. -/
theorem Ledger.wakes (h : s.Ledger) {i address : Nat} {key : Bool} {mask : Nat} {count : Int}
    (hi : s.prepared[i]? = some (.wake address key mask count))
    (ha : key = true ∨ (host.access s.world address 4).1 = true) :
    ∃ w', System.perform host s (.enter i) =
      ({ s with prepared := s.prepared.eraseIdx i, world := w' }.woken address key mask count).record
        (.woke (.wake address key mask count)
          (min (max count 1).toNat (s.candidates address key mask).length)) := by
  rw [perform_enter hi]
  unfold System.enter
  dsimp only
  have hpass : (!(if key = true then (true, s.world) else host.access s.world address 4).1) = false := by
    split
    · rfl
    next hk => simpa [hk] using ha
  rw [hpass, if_neg Bool.false_ne_true]
  generalize (if key = true then (true, s.world) else host.access s.world address 4).2 = w'
  have hleft : Ledger { s with prepared := s.prepared.eraseIdx i, world := w' } :=
    h.congr rfl rfl rfl rfl
  obtain ⟨h1, h2⟩ := hleft.wake_eq address key mask count
  refine ⟨w', ?_⟩
  rw [← h2]
  exact congrArg (fun n => System.record _ (.woke _ n)) h1

/-- Every wake of every run is accounted for. -/
theorem wake_accounting (h : (machine host).Reachable s) : Accounted host s := by
  have hl := ledger h
  refine ⟨hl.total, hl.once, fun id r hr => (hl.returned id r hr).2.2, hl.refused, hl.issued,
    List.pairwise_map.1 hl.sorted, fun id r v hr => ?_, fun i r hi => hl.waits hi,
    fun i address key mask count hi ha => ?_, fun i source target wakes moves hi => ?_,
    fun address h0 hstore => ?_⟩
  · obtain ⟨_, hv, hback | ⟨w, hw, rfl, hmask, hkey, ha⟩⟩ := hl.present id r v hr
    · exact ⟨hv, .inl hback⟩
    · exact ⟨hv, .inr ⟨w, hw, rfl, hmask, hkey, ha, hl.marked w hw⟩⟩
  · obtain ⟨w', heq⟩ := hl.wakes hi ha
    rw [heq]
    exact ⟨rfl, rfl⟩
  · have hleft : Ledger { s with prepared := s.prepared.eraseIdx i } := hl.congr rfl rfl rfl rfl
    obtain ⟨l, hhist, hmoved⟩ := requeue_history _ source target wakes moves hleft
    rw [perform_enter hi]
    unfold enter
    dsimp only
    rw [(hl.requeue_eq source target wakes moves).1]
    exact ⟨rfl, l, hmoved, congrArg (List.cons _) hhist⟩
  · have hleft : Ledger { s with world := (host.storeU32 s.world address 0).2 } :=
      hl.congr rfl rfl rfl rfl
    obtain ⟨h1, h2⟩ := hleft.wake_eq address false uint32Max 1
    rw [perform, clearTid, if_neg h0]
    dsimp only
    rw [if_neg (not_not.2 hstore), h2, h1]
    exact ⟨rfl, rfl⟩

/-- A host whose words are all zero and where nothing fails. -/
def zeros : Host Unit where
  access w _ _ := (true, w)
  read w _ size := ((0, List.replicate size 0), w)
  loadU32 w _ := ((0, 0), w)
  storeU32 w _ _ := (0, w)
  clock w _ := ((0, ⟨0, 0⟩), w)
  sameVm _ _ := true
  interruptNumber _ _ := 0
  interruptEpoch _ _ := 0

/-- Two private waits for one word, a wake of one waiter and the end of the first wait. -/
def twoWaits : System Unit :=
  let wait : Arguments := ⟨none, 4096, 128, 0, 0, 0, 0⟩
  let wake : Arguments := ⟨none, 4096, 129, 1, 0, 0, 0⟩
  [.begin wait, .enter 0, .begin wait, .enter 0, .begin wake, .enter 0, .resume 1].foldl
    (perform zeros) { limit := 4, world := () }

/-- One wake of one waiter marks the first, which returns while the second stays. -/
theorem wake_accounting_twoWaits :
    markedIds twoWaits.history = [0] ∧ twoWaits.active.map (·.id) = [1] ∧
      .returned 0 0 ∈ twoWaits.history ∧ Accounted zeros twoWaits := by
  have hinit : (machine zeros).Reachable { limit := 4, world := () } :=
    .init ⟨4, (), by decide, by decide, rfl⟩
  have hstep : ∀ s a, (machine zeros).step s (perform zeros s a) := fun _ a => .inl ⟨a, rfl⟩
  have hreach : (machine zeros).Reachable twoWaits := hinit.foldl hstep _
  exact ⟨by decide, by decide, by decide, wake_accounting hreach⟩

end System

end Artbox.Futex
