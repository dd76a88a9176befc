import Artbox.Binder.Manager

/-!
# The device between two calls

Every teardown is the work of one call, so between two calls none is going on, and an
endpoint whose release dropped parcels is gone (`Device.Settled`). No parcel was ever
delivered to an endpoint whose release had begun to drop parcels (`Device.Settled.whole`).
-/

namespace Artbox.Binder

open Slots Trace

/-- No release of the endpoint has dropped a parcel. -/
def Intact (k : Nat) (h : List Event) : Prop := ∀ w, .dropped k 0 w ∉ h

/-- Parcels are delivered to endpoints nobody has begun to release. -/
def DeliveredIntact (e : Event) (older : List Event) : Prop :=
  ∀ k i q w, e = .delivered k i q w → Intact k older

theorem Intact.of_append {k : Nat} {l older : List Event} (h : Intact k (l ++ older)) :
    Intact k older := fun w hw => h w (List.mem_append_right _ hw)

/-- A device outside `exit_thread` and `release_endpoint`. -/
structure Device.Settled (d : Device) : Prop where
  reachable : d.Reachable
  resting : Resting d.history
  gone : ∀ k w, .dropped k 0 w ∈ d.history → Issued d.nextToken k ∧ d.endpointFor k = none
  whole : Always DeliveredIntact d.history

/-! ## The history of a teardown -/

/-- An event of the teardown of `(token, tid)`. -/
def Event.Tears (token : Nat) (tid : Int) (e : Event) : Prop :=
  (∃ w, e = .dropped token tid w) ∨ ∃ k i x u, e = .cancelled k i x u

/-- `l` was added to the history by the teardown of `(token, tid)`. -/
def Torn (token : Nat) (tid : Int) (h h' : List Event) : Prop :=
  ∃ l, h' = l ++ h ∧ ∀ e ∈ l, e.Tears token tid

theorem Torn.trans {token : Nat} {tid : Int} {h h' h'' : List Event} (h₁ : Torn token tid h h')
    (h₂ : Torn token tid h' h'') : Torn token tid h h'' := by
  obtain ⟨l, rfl, hl⟩ := h₁
  obtain ⟨l', rfl, hl'⟩ := h₂
  refine ⟨l' ++ l, by rw [List.append_assoc], fun e he => ?_⟩
  exact (List.mem_append.1 he).elim (hl' e) (hl e)

theorem torn_drops (token : Nat) (tid : Int) (ws : List Work) (h : List Event) :
    Torn token tid h ((ws.map (Event.dropped token tid)).reverse ++ h) := by
  refine ⟨_, rfl, fun e he => ?_⟩
  obtain ⟨w, _, rfl⟩ := List.mem_map.1 (List.mem_reverse.1 he)
  exact .inl ⟨w, rfl⟩

theorem torn_cancelTransaction (d : Device) (token : Nat) (tid : Int) (t : Transaction) :
    Torn token tid d.history (Device.cancelTransaction token tid d t).history := by
  obtain ⟨_, _, _, _, _, new, hh, hnew⟩ := Device.cancelTransaction_frame d token tid t
  have hcut : Torn token tid d.history (new ++ d.history) := by
    refine ⟨new, rfl, fun e he => ?_⟩
    obtain ⟨u, rfl⟩ := hnew e he
    exact .inr ⟨_, _, _, _, rfl⟩
  rw [hh]
  exact hcut.trans (torn_drops token tid _ _)

theorem torn_cancelTransactions (d : Device) (token : Nat) (tid : Int) :
    Torn token tid d.history (d.cancelTransactions token tid).history := by
  unfold Device.cancelTransactions
  dsimp only
  rw [(Device.dropWorks_frame _ token tid _).2.2.1]
  refine .trans ?_ (torn_drops token tid _ _)
  generalize d.transactions.filter (Device.cancelMatches token tid) = l
  induction l generalizing d with
  | nil => exact ⟨[], rfl, by simp⟩
  | cons t ts ih => exact (torn_cancelTransaction d token tid t).trans (ih _)

/-! ## Steps and teardowns keep it -/

namespace Device.Settled

variable {d d' : Device}

/-- Endpoints that are gone stay gone when nothing is dropped. -/
theorem grow (h : d.Settled) (hr : d'.Reachable) (hrest : Resting d'.history) {l : List Event}
    (hh : d'.history = l ++ d.history)
    (hgone : ∀ k, Issued d.nextToken k → d.endpointFor k = none →
      Issued d'.nextToken k ∧ d'.endpointFor k = none)
    (hdrop : ∀ k w, .dropped k 0 w ∈ l → Issued d'.nextToken k ∧ d'.endpointFor k = none)
    (hl : ∀ e ∈ l, DeliveredIntact e d.history) (hone : ∀ e ∈ l, ∀ k i q w,
      e = .delivered k i q w → l = [e]) : d'.Settled := by
  refine ⟨hr, hrest, fun k w hw => ?_, ?_⟩
  · rw [hh] at hw
    rcases List.mem_append.1 hw with hw | hw
    · exact hdrop k w hw
    · obtain ⟨hi, hnone⟩ := h.gone k w hw
      exact hgone k hi hnone
  · rw [hh]
    by_cases hd : ∃ e ∈ l, ∃ k i q w, e = .delivered k i q w
    · obtain ⟨e, he, k, i, q, w, heq⟩ := hd
      rw [hone e he k i q w heq]
      exact ⟨hl e he, h.whole⟩
    · exact h.whole.append fun e he older k i q w heq => absurd ⟨e, he, k, i, q, w, heq⟩ hd

/-- What becomes of the endpoints that are gone in one step. -/
theorem gone_step (h : d.Settled) (hs : Step d d') (k : Nat) (hk : Issued d.nextToken k)
    (hgone : d.endpointFor k = none) : Issued d'.nextToken k ∧ d'.endpointFor k = none := by
  obtain ⟨hi, hnone | ⟨e, _, he, _⟩⟩ := hs.endpoint h.reachable.endpointIds hk
  · exact ⟨hi, hnone⟩
  · rw [hgone] at he
    cases he

theorem step (h : d.Settled) (hs : Step d d') (hc : d.Calm d') : d'.Settled := by
  have hr := h.reachable.then hs
  have hrest := hc h.resting
  have hgone := h.gone_step hs
  cases h.reachable.traffic hs with
  | quiet _ _ hh hn =>
    refine h.grow hr hrest hh hgone (fun k w hw => (hn _ hw).elim) (fun e he k i q w heq => ?_)
      fun e he k i q w heq => ?_
    · exact (heq ▸ hn e he : (Event.delivered k i q w).Plain).elim
    · exact (heq ▸ hn e he : (Event.delivered k i q w).Plain).elim
  | accept _ _ _ hh =>
    exact h.grow (l := [_, _]) hr hrest hh hgone (by simp) (by simp [DeliveredIntact]) (by simp)
  | @deliver e th index w _ hth _ _ _ _ hh =>
    refine h.grow (l := [_]) hr hrest hh hgone (by simp) (fun e' he k i q w' heq w₀ hw₀ => ?_) (by simp)
    -- the endpoint that reads is there
    rw [List.mem_singleton.1 he] at heq
    cases heq
    have hnone := (h.gone e.token w₀ hw₀).2
    rw [threadFor, hnone] at hth
    cases hth
  | drop _ ht => exact absurd ht (h.resting _ _)

/-- What a teardown adds to the history delivers nothing. -/
theorem not_delivered_of_tears {token : Nat} {tid : Int} {e : Event} (he : e.Tears token tid)
    (k : Nat) (i : Int) (q : List Work) (w : Work) : e ≠ .delivered k i q w := by
  rintro rfl
  rcases he with ⟨_, he⟩ | ⟨_, _, _, _, he⟩ <;> cases he

theorem exitThread (h : d.Settled) (token : Nat) {tid : Int} (hpos : 0 < tid) :
    (d.exitThread token tid).Settled := by
  obtain ⟨l, hl, htears⟩ := torn_cancelTransactions (d.record (.teardown token tid)) token tid
  have hsame : SameIds (d.record (.teardown token tid))
      ((d.record (.teardown token tid)).cancelTransactions token tid) := .cancelTransactions
  have hh : (d.exitThread token tid).history =
      (.exited token tid :: (l ++ [.teardown token tid])) ++ d.history := by
    change _ :: (Device.cancelTransactions _ token tid).history = _
    rw [hl]
    simp
  have hids : ∀ k, Issued d.nextToken k → d.endpointFor k = none →
      Issued (d.exitThread token tid).nextToken k ∧ (d.exitThread token tid).endpointFor k = none := by
    intro k hk hnone
    have hnext : (d.exitThread token tid).nextToken = d.nextToken := hsame.1
    have hpres := hsame.present k
    rw [endpointFor_record, hnone, Option.isSome_none, Option.isSome_eq_false_iff,
      Option.isNone_iff_eq_none] at hpres
    refine ⟨hnext ▸ hk, ?_⟩
    have hthreads : ∀ e : Endpoint, { e with threads := e.threads.filter fun t => t.tid != tid }.token =
        e.token := fun _ => rfl
    rw [Device.exitThread, eraseThread, endpointFor_record, endpointFor_updateEndpoint hthreads]
    exact Option.map_eq_none_iff.2 hpres
  have hnot : ∀ e ∈ (.exited token tid :: (l ++ [.teardown token tid]) : List Event), ∀ k i q w,
      e ≠ .delivered k i q w := by
    intro e he k i q w heq
    rcases List.mem_cons.1 he with rfl | he
    · cases heq
    · rcases List.mem_append.1 he with he | he
      · exact not_delivered_of_tears (htears e he) k i q w heq
      · rw [List.mem_singleton.1 he] at heq
        cases heq
  refine h.grow (exitThread_reachable h.reachable token hpos) ?_ hh hids (fun k w hw => ?_)
    (fun e he k i q w heq => absurd heq (hnot e he k i q w))
    fun e he k i q w heq => absurd heq (hnot e he k i q w)
  · rw [hh]
    exact Event.Outside.resting (e := .exited token tid) trivial _
  · -- a thread's exit drops nothing in the name of the endpoint
    rcases List.mem_cons.1 hw with hw | hw
    · cases hw
    · rcases List.mem_append.1 hw with hw | hw
      · rcases htears _ hw with ⟨_, heq⟩ | ⟨_, _, _, _, heq⟩
        · cases heq
          exact absurd hpos (lt_irrefl 0)
        · cases heq
      · cases List.mem_singleton.1 hw

theorem releaseEndpoint (h : d.Settled) {token : Nat} (h0 : token ≠ 0)
    (hi : Issued d.nextToken token) : (d.releaseEndpoint token).Settled := by
  obtain ⟨l, hl, htears⟩ := torn_cancelTransactions (d.record (.teardown token 0)) token 0
  have hh : (d.releaseEndpoint token).history =
      (.released token :: (l ++ [.teardown token 0])) ++ d.history := by
    rw [Device.releaseEndpoint, retire_frame.2.2.1, hl]
    simp
  have hnone : ∀ k, d.endpointFor k = none ∨ k = token →
      (d.releaseEndpoint token).endpointFor k = none := by
    intro k hk
    rw [← Option.not_isSome_iff_eq_none, isSome_endpointFor_releaseEndpoint]
    rintro ⟨hsome, hne⟩
    rw [hk.resolve_right hne] at hsome
    cases hsome
  have hnot : ∀ e ∈ (.released token :: (l ++ [.teardown token 0]) : List Event), ∀ k i q w,
      e ≠ .delivered k i q w := by
    intro e he k i q w heq
    rcases List.mem_cons.1 he with rfl | he
    · cases heq
    · rcases List.mem_append.1 he with he | he
      · exact not_delivered_of_tears (htears e he) k i q w heq
      · rw [List.mem_singleton.1 he] at heq
        cases heq
  have hnext := releaseEndpoint_nextToken d token
  refine h.grow (releaseEndpoint_reachable h.reachable h0) ?_ hh
    (fun k hk hgone => ⟨hnext ▸ hk, hnone k (.inl hgone)⟩) (fun k w hw => ?_)
    (fun e he k i q w heq => absurd heq (hnot e he k i q w))
    fun e he k i q w heq => absurd heq (hnot e he k i q w)
  · rw [hh]
    exact Event.Outside.resting (e := .released token) trivial _
  · rcases List.mem_cons.1 hw with hw | hw
    · cases hw
    · rcases List.mem_append.1 hw with hw | hw
      · rcases htears _ hw with ⟨_, heq⟩ | ⟨_, _, _, _, heq⟩
        · cases heq
          exact ⟨hnext ▸ hi, hnone _ (.inr rfl)⟩
        · cases heq
      · cases List.mem_singleton.1 hw

end Device.Settled

theorem closed_settled : Closed Device.Settled where
  reachable h := h.reachable
  step h hs hc := h.step hs hc
  exit token _ h hpos := h.exitThread token hpos
  release h h0 hi := h.releaseEndpoint h0 hi

/-- The devices of a system's runs are settled. -/
theorem system_settled {ω : Type} {host : Host ω} {s : System ω}
    (h : (System.machine host).Reachable s) : s.device.Settled := by
  refine system_kept closed_settled (fun d hi => ?_) h
  obtain ⟨_, _, _, _, hh, _⟩ := machine_init hi
  refine ⟨.init hi, ?_, ?_, ?_⟩ <;> rw [hh]
  · exact fun _ _ ht => ht
  · simp
  · trivial

/-- An endpoint that is there is intact. -/
theorem Device.Settled.intact {d : Device} (h : d.Settled) {k : Nat}
    (hk : (d.endpointFor k).isSome = true) : Intact k d.history := by
  intro w hw
  rw [(h.gone k w hw).2] at hk
  cases hk

end Artbox.Binder
