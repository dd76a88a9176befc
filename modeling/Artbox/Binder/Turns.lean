import Artbox.Binder.Runs

/-!
# What a step does to the returns a thread is owed

A thread is owed a completion for every packet it sent and the error in its error slot,
if there is one: its *account*. `Turn` says what a step can do to the accounts and
which events it leaves; it is the one place where the steps are looked at for
statements about returns.
-/

namespace Artbox.Binder

open Slots

/-- What a thread has yet to be told: completions and the pending error. -/
def Thread.account (th : Thread) : Nat × Option BR := (th.completions, th.error)

/-- The account of a live thread. -/
def Device.accountFor (d : Device) (k : Nat) (i : Int) : Option (Nat × Option BR) :=
  (d.threadFor k i).map Thread.account

/-- An event that concerns no account. -/
def Event.Idle : Event → Prop
  | consumed _ _ _ | refused _ _ _ _ | accepted _ | returned _ _ _ | cancelled _ _ _ _
  | exited _ _ | released _ => False
  | _ => True

/-- What a step does to accounts and history. -/
inductive Turn (d d' : Device) : Prop
  | quiet {l : List Event} : (∀ k i, d'.accountFor k i = d.accountFor k i) →
    d'.history = l ++ d.history → (∀ e ∈ l, e.Idle) → Turn d d'
  | admission {k : Nat} {i : Int} : d.accountFor k i = none →
    (∀ k' i', d'.accountFor k' i' =
      if k' = k ∧ i' = i then some (0, none) else d.accountFor k' i') →
      d'.history = d.history → Turn d d'
  /-- A packet is consumed with an error return. -/
  | fail {k : Nat} {i : Int} {n : Nat} {call : Bool} {word : BR} {c : BC} :
    d.accountFor k i = some (n, none) → word = .failedReply ∨ word = .deadReply →
      (∀ k' i', d'.accountFor k' i' =
        if k' = k ∧ i' = i then some (n, some word) else d.accountFor k' i') →
        d'.history = .consumed k i c :: .refused k i call word :: d.history → Turn d d'
  /-- A packet is consumed and sent. -/
  | send {p : Parcel} {n : Nat} {c : BC} : d.accountFor p.source p.sourceTid = some (n, none) →
    (∀ k' i', d'.accountFor k' i' = if k' = p.source ∧ i' = p.sourceTid then some (n + 1, none)
      else d.accountFor k' i') →
      d'.history = .consumed p.source p.sourceTid c :: .accepted p :: d.history → Turn d d'
  /-- The pending error is returned. -/
  | error {k : Nat} {i : Int} {n : Nat} {word : BR} : d.accountFor k i = some (n, some word) →
    (∀ k' i', d'.accountFor k' i' =
      if k' = k ∧ i' = i then some (n, none) else d.accountFor k' i') →
      d'.history = .returned k i word :: d.history → Turn d d'
  /-- A completion is returned. -/
  | completion {k : Nat} {i : Int} {n : Nat} : d.accountFor k i = some (n + 1, none) →
    (∀ k' i', d'.accountFor k' i' =
      if k' = k ∧ i' = i then some (n, none) else d.accountFor k' i') →
      d'.history = .returned k i .transactionComplete :: d.history → Turn d d'
  /-- Teardown ends the thread's call. -/
  | cancel {k : Nat} {i : Int} {n x : Nat} {u : Option BR} {new : List Event} :
    d.accountFor k i = some (n, u) →
      (∀ k' i', d'.accountFor k' i' =
        if k' = k ∧ i' = i then some (n, some .deadReply) else d.accountFor k' i') →
        d'.history = new ++ .cancelled k i x u :: d.history → (∀ e ∈ new, e.Idle) → Turn d d'
  | erase {k : Nat} {i : Int} :
    (∀ k' i', d'.accountFor k' i' = if k' = k ∧ i' = i then none else d.accountFor k' i') →
      d'.history = .exited k i :: d.history → Turn d d'
  | retire {k : Nat} :
    (∀ k' i', d'.accountFor k' i' = if k' = k then none else d.accountFor k' i') →
      d'.history = .released k :: d.history → Turn d d'

namespace Turn

open Device

variable {d d' : Device}

/-- The thread table is as before. -/
theorem of_threads (h : ∀ k i, d'.threadFor k i = d.threadFor k i) (k : Nat) (i : Int) :
    d'.accountFor k i = d.accountFor k i := by
  rw [accountFor, h]
  rfl

/-- One thread is edited. -/
theorem of_edit {e : Endpoint} {th : Thread} {f : Thread → Thread} (hf : Found d e th)
    (h : ∀ k i, d'.threadFor k i =
      if k = e.token ∧ i = th.tid then (d.threadFor k i).map f else d.threadFor k i) (k : Nat) (i : Int) :
    d'.accountFor k i = if k = e.token ∧ i = th.tid then some (f th).account else d.accountFor k i := by
  rw [accountFor, h]
  split
  next hk =>
    rw [hk.1, hk.2, threadFor_of hf.endpoint, hf.thread]
    rfl
  next => rfl

theorem account_of_found {e : Endpoint} {th : Thread} (hf : Found d e th) :
    d.accountFor e.token th.tid = some th.account := by
  rw [accountFor, threadFor_of hf.endpoint, hf.thread]
  rfl

theorem threadFor_failThread {k : Nat} {i : Int} {call : Bool} {word : BR} (k' : Nat) (i' : Int) :
    (d.failThread k i call word).threadFor k' i' =
      if k' = k ∧ i' = i then (d.threadFor k' i').map fun th => { th with error := some word }
      else d.threadFor k' i' := by
  rw [failThread, threadFor_record, threadFor_updateThread]
  exact fun _ => rfl

theorem of_refuse {e : Endpoint} {th : Thread} {call : Bool} {word : BR} {c : BC} (hf : Found d e th)
    (herr : th.error = none) (hw : word = .failedReply ∨ word = .deadReply) :
    Turn d ((d.failThread e.token th.tid call word).record (.consumed e.token th.tid c)) := by
  refine .fail (n := th.completions) ?_ hw (fun k i => ?_) rfl
  · rw [account_of_found hf, Thread.account, herr]
  · have hedit : (d.failThread e.token th.tid call word).accountFor k i = _ :=
      of_edit hf (fun k i => threadFor_failThread k i) k i
    exact hedit

theorem of_bounce {e : Endpoint} {th : Thread} {c : BC} (hf : Found d e th)
    (herr : th.error = none) :
    Turn d (((d.updateThread e.token th.tid fun th => { th with deadReply := false }).failThread
      e.token th.tid false .deadReply).record (.consumed e.token th.tid c)) := by
  refine .fail (n := th.completions) ?_ (.inr rfl) (of_edit hf
    (f := fun th => { th with deadReply := false, error := some .deadReply }) fun k i => ?_) rfl
  · rw [account_of_found hf, Thread.account, herr]
  · rw [threadFor_record, threadFor_failThread, threadFor_updateThread]
    · split
      · rw [Option.map_map]
        rfl
      · rfl
    · exact fun _ => rfl

/-- The parts of a thread that an account does not read may change. -/
theorem account_map {g : Thread → Thread} (hg : ∀ th, (g th).account = th.account)
    (o : Option Thread) : (o.map g).map Thread.account = o.map Thread.account := by
  cases o with
  | none => rfl
  | some th => exact congrArg some (hg th)

theorem of_send {p : Parcel} {e : Endpoint} {th : Thread} {c : BC} {g : Nat → Int → Thread → Thread}
    (hf : Found d e th) (herr : th.error = none) (hs : p.source = e.token) (hst : p.sourceTid = th.tid)
    (hd : ∀ k i, d'.threadFor k i = (d.threadFor k i).map (g k i))
    (hg : ∀ k i th', (g k i th').account =
      if k = e.token ∧ i = th.tid then (th'.completions + 1, th'.error) else th'.account)
    (hh : d'.history = .consumed e.token th.tid c :: .accepted p :: d.history) : Turn d d' := by
  refine .send (p := p) (n := th.completions) (c := c) ?_ (fun k i => ?_) (by rw [hs, hst, hh])
  · rw [hs, hst, account_of_found hf, Thread.account, herr]
  · rw [hs, hst, accountFor, hd]
    split
    next hk =>
      rw [hk.1, hk.2, threadFor_of hf.endpoint, hf.thread]
      simp [hg, herr]
    next hk => exact account_map (fun th' => by rw [hg, if_neg hk]) _

/-- Serving a call from a published buffer is on no account. -/
theorem account_serve {token : Nat} {tid : Int} {f : Arena → Arena} (id : Nat) (k : Nat) (i : Int) :
    (((d.updateArena token f).serve token tid id).threadFor k i).map Thread.account =
      d.accountFor k i := by
  by_cases h0 : id = 0
  · rw [h0, Device.serve, if_pos rfl, threadFor_updateArena]
    rfl
  · rw [threadFor_serve _ _ _ h0, threadFor_updateArena]
    split
    · exact account_map (g := fun th => { th with incoming := id }) (fun _ => rfl) _
    · rfl

theorem of_deliver {e : Endpoint} {th : Thread} {record : Record} (hd : d.Reachable)
    (hf : Found d e th) (hr : d.nextRecord e.token th = some record) :
    Turn d (d.deliver e th record).2 := by
  have hacc := account_of_found hf
  rcases nextRecord_cases hr with ⟨word, herr, rfl⟩ | ⟨_, n, c, _, rfl⟩ | ⟨herr, hcomp, rfl⟩ |
    ⟨_, _, index, w, hfor, hw, rfl⟩ | ⟨_, slot, death, _, _, rfl⟩
  · refine .error (n := th.completions) ?_ (of_edit hf
      (f := fun th => { th with error := none }) fun k i => ?_) rfl
    · rw [hacc, Thread.account, herr]
    · exact threadFor_updateThread fun _ => rfl
  · exact .quiet (l := [_]) (fun _ _ => rfl) rfl (by simp [Event.Idle])
  · obtain ⟨n, hn⟩ := Nat.exists_eq_succ_of_ne_zero hcomp
    refine .completion (n := n) ?_ (fun k i => ?_) rfl
    · rw [hacc, Thread.account, herr, hn]
    · have hedit : (d.deliver e th .completion).2.accountFor k i = _ := of_edit hf
        (f := fun th => { th with completions := th.completions - 1 })
        (fun k i => threadFor_updateThread fun _ => rfl) k i
      rw [hedit, Thread.account, herr, hn]
      rfl
  · obtain ⟨_, _, hdel⟩ := hd.parcelInv.delivered hd.callInv hf.endpoint hfor hw
    simp only [Device.deliver]
    rw [hdel]
    exact .quiet (l := [.delivered e.token th.tid d.work w]) (account_serve w.transaction) (by simp)
      (by simp [Event.Idle])
  · exact .quiet (l := [_]) (fun _ _ => rfl) rfl (by simp [Event.Idle])

theorem of_cancel (hr : d.Reachable) {token : Nat} {tid : Int} {t : Transaction}
    (ht : t ∈ d.transactions) (hm : cancelMatches token tid t = true) :
    Turn d (cancelTransaction token tid d t) := by
  have h0 : t.id ≠ 0 := by
    simp only [cancelMatches, Bool.and_eq_true, bne_iff_ne] at hm
    exact hm.1
  have htin := hr.callIds.transactionFor ht h0
  obtain ⟨caller, hcaller, hout⟩ := hr.callInv.caller t.id t htin
  obtain ⟨_, _, _, hth⟩ := dropWorks_frame ((d.cancelCaller t).cancelServer t) token tid
    fun w => w.transaction == t.id
  refine .cancel (k := t.source) (i := t.sourceTid) (n := caller.completions) (u := caller.error)
    (x := t.id) ?_ (fun k i => ?_) (cancelTransaction_history hcaller hout) fun e he => ?_
  · rw [accountFor, hcaller]
    rfl
  · rw [accountFor, cancelTransaction, threadFor_endTransaction, hth, threadFor_cancelServer,
      threadFor_cancelCaller]
    have hserver : ∀ th, (endServer t.id th).account = th.account := by
      intro th
      unfold endServer
      split <;> rfl
    have hif : ∀ o : Option Thread, (if k = t.target ∧ i = t.targetTid then o.map (endServer t.id)
        else o).map Thread.account = o.map Thread.account := by
      intro o
      split
      · exact account_map hserver o
      · rfl
    rw [hif]
    split
    next hk =>
      rw [hk.1, hk.2, hcaller]
      simp [endCaller, hout, Thread.account]
    next => rfl
  · obtain ⟨w, _, rfl⟩ := List.mem_map.1 (List.mem_reverse.1 he)
    trivial

/-- Every step is a turn. -/
theorem of_step (hr : d.Reachable) (hs : Step d d') : Turn d d' := by
  cases hs with
  | configure | refer => exact .quiet (l := []) (fun _ _ => rfl) rfl (by simp)
  | openEndpoint ho =>
    obtain ⟨_, _, _, hh, _⟩ := openEndpoint_frame ho
    exact .quiet (l := []) (of_threads fun _ _ => (hr.endpointIds.lookups_openEndpoint ho).1) hh
      (by simp)
  | tune token hf =>
    obtain ⟨g, hg, hd⟩ := threadFor_tune (d := d) (k := token) hf
    refine .quiet (l := []) (fun k i => ?_) rfl (by simp)
    rw [accountFor, hd]
    split
    · exact account_map (fun th => by rw [Thread.account, (hg th).completions, (hg th).error]; rfl) _
    · rfl
  | @admission _ e tid he hpos ha =>
    obtain ⟨_, _, _, hh, _⟩ := admitThread_frame ha
    have hd := fun k i => threadFor_admitThread (k := k) (i := i) he ha
    -- a thread that is there already keeps its account
    by_cases hnone : d.threadFor e.token tid = none
    · refine .admission (k := e.token) (i := tid) (by rw [accountFor, hnone]; rfl) (fun k i => ?_) hh
      rw [accountFor, hd]
      by_cases hk : k = e.token ∧ i = tid
      · rw [if_pos ⟨hk.1, hk.2, by rw [hk.1, hk.2, hnone]⟩, if_pos hk]
        rfl
      · rw [if_neg fun h => hk ⟨h.1, h.2.1⟩, if_neg hk]
        rfl
    · refine .quiet (l := []) (of_threads fun k i => ?_) hh (by simp)
      rw [hd, if_neg]
      rintro ⟨rfl, rfl, hn⟩
      exact hnone hn
  | setContextMgr flags pointer cookie =>
    obtain ⟨he, _, _, _, hh⟩ := setContextMgr_frame d _ flags pointer cookie
    exact .quiet (l := []) (of_threads fun _ _ => threadFor_congr he _ _) hh (by simp)
  | nodeDone | teardown => exact .quiet (l := [_]) (fun _ _ => rfl) rfl (by simp [Event.Idle])
  | requestDeath | clearDeath | doneDeath =>
    simp only [requestDeath, clearDeath, doneDeath]
    obtain ⟨he, _, _, _, _, new, hh, hnew⟩ := recordSlot_frame _ _ _
    refine .quiet (of_threads fun _ _ => threadFor_congr he _ _) hh fun e he => ?_
    obtain ⟨slot, rfl⟩ := hnew e he
    trivial
  | free buffer =>
    obtain ⟨_, _, _, ⟨new, hh, hnew⟩, hth⟩ := freePacket_frame d _ buffer
    refine .quiet (of_threads hth) hh fun e he => ?_
    rw [hnew e he]
    trivial
  | refuse reply call he hth herr hw => exact of_refuse ⟨he, hth⟩ herr hw
  | bounce he hth herr => exact of_bounce ⟨he, hth⟩ herr
  | reserve =>
    exact .quiet (l := []) (of_threads fun _ _ => threadFor_storeReservation _ _ _) rfl (by simp)
  | @reply e th target t input r hres _ _ ht =>
    refine of_send (p := ⟨e.token, th.tid, t.id, replyWork d.history.length e t input r, r.sent,
      r.data, r.offsets, r.nodes⟩) (g := fun k i => answered e.token th.tid t k i)
      ⟨hres.sourceFound, hres.threadFound⟩ hres.ready rfl rfl (fun k i => ?_) (fun k i th' => ?_) rfl
    · rw [threadFor_record, threadFor_sendReply]
    · simp only [answered, Thread.account]
      split <;> rfl
  | @oneway e th target node input r hres =>
    refine of_send (p := ⟨e.token, th.tid, 0, onewayWork d.history.length e target.token node input r,
      r.sent, r.data, r.offsets, r.nodes⟩) (g := fun k i th' => if k = e.token ∧ i = th.tid then
        { th' with completions := th'.completions + 1 } else th')
      ⟨hres.sourceFound, hres.threadFound⟩ hres.ready rfl rfl (fun k i => ?_) (fun k i th' => ?_) rfl
    · rw [threadFor_record, threadFor_sendOneway]
      split
      · rfl
      · simp
    · split <;> rfl
  | @call e th target node input r hres =>
    refine of_send (p := ⟨e.token, th.tid, 0, callWork d.history.length e d.nextTransaction
      target.token node input r, r.sent, r.data, r.offsets, r.nodes⟩) (g := fun k i th' =>
        if k = e.token ∧ i = th.tid then called d.nextTransaction th' else th')
      ⟨hres.sourceFound, hres.threadFound⟩ hres.ready rfl rfl (fun k i => ?_) (fun k i th' => ?_) rfl
    · rw [threadFor_record, threadFor_sendCall]
      split
      · rfl
      · simp
    · split <;> rfl
  | deliver he hth hrec => exact of_deliver hr ⟨he, hth⟩ hrec
  | cancel _ ht hm => exact of_cancel hr ht hm
  | drop =>
    exact .quiet (l := [_]) (of_threads fun _ _ => threadFor_dropWork _ _ _ _ _ _) rfl
      (by simp [Event.Idle])
  | erase =>
    refine .erase (fun k i => ?_) rfl
    rw [accountFor, threadFor_eraseThread]
    split <;> rfl
  | retire =>
    obtain ⟨_, _, hh, _⟩ := retire_frame
    refine .retire (fun k i => ?_) hh
    rw [accountFor, threadFor_retire]
    split <;> rfl

end Turn

end Artbox.Binder
