import Artbox.Binder.Identity
import Mathlib.Data.List.Nodup

/-!
# The work queue

Parcels are queued at the end and taken out anywhere: by a delivery or by a teardown.
Their stamps increase along the queue (`QueueIds`), so no item is queued twice and
removing one removes exactly that one.
-/

namespace Artbox.Binder

open Slots

/-- Stamps increase along the queue and lie in the past. -/
structure QueueIds (d : Device) : Prop where
  sorted : d.work.Pairwise fun w w' => w.stamp < w'.stamp
  past : ∀ w ∈ d.work, w.stamp < d.history.length

namespace QueueIds

variable {d d' : Device}

/-- No item is queued twice. -/
theorem nodup (h : QueueIds d) : d.work.Nodup :=
  h.sorted.imp fun hlt heq => by
    rw [heq] at hlt
    exact Nat.lt_irrefl _ hlt

/-- Items with one stamp are one item. -/
theorem eq_of_stamp (h : QueueIds d) {w w' : Work} (hw : w ∈ d.work) (hw' : w' ∈ d.work)
    (hs : w.stamp = w'.stamp) : w = w' := by
  have hu : Unique (fun _ => True) (·.stamp) d.work :=
    h.sorted.imp fun hlt _ _ => Nat.ne_of_lt hlt
  exact hu.eq_of_mem hw hw' trivial trivial hs

/-- Taking items out keeps the stamps in order. -/
theorem sublist (h : QueueIds d) (hw : d'.work.Sublist d.work)
    (hh : d.history.length ≤ d'.history.length) : QueueIds d' :=
  ⟨h.sorted.sublist hw, fun w hmem => Nat.lt_of_lt_of_le (h.past w (hw.subset hmem)) hh⟩

/-- Queueing an item under the stamp of the event to come keeps the stamps in order. -/
theorem append (h : QueueIds d) {w : Work} (hw : d'.work = d.work ++ [w])
    (hs : w.stamp = d.history.length) (hh : d.history.length < d'.history.length) :
    QueueIds d' := by
  refine ⟨?_, ?_⟩ <;> rw [hw]
  · refine List.pairwise_append.2 ⟨h.sorted, List.pairwise_singleton _ _, fun x hx y hy => ?_⟩
    rw [List.mem_singleton.1 hy, hs]
    exact h.past x hx
  · intro x hx
    rcases List.mem_append.1 hx with hx | hx
    · exact Nat.lt_trans (h.past x hx) hh
    · rw [List.mem_singleton.1 hx, hs]
      exact hh

end QueueIds

/-! ## The loop that drops parcels -/

namespace Device

variable {d : Device} {token k : Nat} {tid i : Int} {p : Work → Bool}

/-- What a fold of `dropWork` leaves alone, and what it does to queue and history. -/
theorem foldl_dropWork_frame (l : List Work) (d : Device) :
    (l.foldl (dropWork token tid) d).transactions = d.transactions ∧
      (l.foldl (dropWork token tid) d).nextTransaction = d.nextTransaction ∧
      (l.foldl (dropWork token tid) d).work = l.foldl List.erase d.work ∧
      (l.foldl (dropWork token tid) d).history =
        (l.map (Event.dropped token tid)).reverse ++ d.history ∧
      ∀ k i, (l.foldl (dropWork token tid) d).threadFor k i = d.threadFor k i := by
  induction l generalizing d with
  | nil => exact ⟨rfl, rfl, rfl, rfl, fun _ _ => rfl⟩
  | cons w ws ih =>
    obtain ⟨h1, h2, h3, h4, h5⟩ := ih (dropWork token tid d w)
    refine ⟨h1, h2, h3, ?_, fun k i => (h5 k i).trans (threadFor_dropWork ..)⟩
    rw [List.foldl_cons, h4]
    simp

/-- Erasing items leaves a part of the queue in its order. -/
theorem foldl_erase_sublist (l work : List Work) : (l.foldl List.erase work).Sublist work := by
  induction l generalizing work with
  | nil => exact List.Sublist.refl _
  | cons w ws ih => exact (ih _).trans List.erase_sublist

/-- Exactly the erased items are gone. -/
theorem mem_foldl_erase {work : List Work} (h : work.Nodup) (l : List Work) (x : Work) :
    x ∈ l.foldl List.erase work ↔ x ∈ work ∧ x ∉ l := by
  induction l generalizing work with
  | nil => simp
  | cons w ws ih =>
    rw [List.foldl_cons, ih (h.sublist List.erase_sublist), h.mem_erase_iff]
    simp only [List.mem_cons, not_or]
    tauto

/-- Dropping items leaves a part of the queue in its order. -/
theorem dropWorks_work_sublist (d : Device) (token : Nat) (tid : Int) (p : Work → Bool) :
    (d.dropWorks token tid p).work.Sublist d.work := by
  rw [dropWorks, (foldl_dropWork_frame _ d).2.2.1]
  exact foldl_erase_sublist _ _

/-- Exactly the items without the property stay. -/
theorem mem_dropWorks_work (h : d.work.Nodup) {x : Work} :
    x ∈ (d.dropWorks token tid p).work ↔ x ∈ d.work ∧ p x = false := by
  rw [dropWorks, (foldl_dropWork_frame _ d).2.2.1, mem_foldl_erase h, List.mem_filter]
  by_cases hp : p x = true <;> simp [hp]

/-- Dropping items ends no call and records one drop for each. -/
theorem dropWorks_frame (d : Device) (token : Nat) (tid : Int) (p : Work → Bool) :
    (d.dropWorks token tid p).transactions = d.transactions ∧
      (d.dropWorks token tid p).nextTransaction = d.nextTransaction ∧
      (d.dropWorks token tid p).history =
        ((d.work.filter p).map (Event.dropped token tid)).reverse ++ d.history ∧
      ∀ k i, (d.dropWorks token tid p).threadFor k i = d.threadFor k i :=
  have h := @foldl_dropWork_frame token tid (d.work.filter p) d
  ⟨h.1, h.2.1, h.2.2.2.1, h.2.2.2.2⟩

/-- The history after the two ends of a call were cut. -/
theorem cancelEnds_history (d : Device) (t : Transaction) :
    ∃ new, ((d.cancelCaller t).cancelServer t).history = new ++ d.history ∧
      ∀ e ∈ new, ∃ unread, e = .cancelled t.source t.sourceTid t.id unread := by
  have hs : ((d.cancelCaller t).cancelServer t).history = (d.cancelCaller t).history := by
    unfold cancelServer
    split
    · rfl
    · split <;> rfl
  rw [hs]
  unfold cancelCaller
  split
  · exact ⟨[], rfl, by simp⟩
  next source _ =>
    split
    · exact ⟨[.cancelled t.source t.sourceTid t.id source.error], rfl, by simp⟩
    · exact ⟨[], rfl, by simp⟩

/-- What ending a call does to queue, calls and threads. -/
theorem cancelTransaction_frame (d : Device) (token : Nat) (tid : Int) (t : Transaction) :
    (cancelTransaction token tid d t).work.Sublist d.work ∧
      (d.work.Nodup → ∀ x, x ∈ (cancelTransaction token tid d t).work ↔
        x ∈ d.work ∧ x.transaction ≠ t.id) ∧
      (∀ x, (cancelTransaction token tid d t).transactionFor x =
        if x = t.id then none else d.transactionFor x) ∧
      (∀ k i, (cancelTransaction token tid d t).threadFor k i =
        ((d.cancelCaller t).cancelServer t).threadFor k i) ∧
      (cancelTransaction token tid d t).nextTransaction = d.nextTransaction ∧
      ∃ new, (cancelTransaction token tid d t).history =
        ((d.work.filter fun w => w.transaction == t.id).map (Event.dropped token tid)).reverse ++
          (new ++ d.history) ∧
        ∀ e ∈ new, ∃ unread, e = .cancelled t.source t.sourceTid t.id unread := by
  obtain ⟨hw, ht, _, _, hn, _, _⟩ := cancelEnds_frame d t
  obtain ⟨ht', hn', hh', hth'⟩ := dropWorks_frame ((d.cancelCaller t).cancelServer t) token tid
    fun w => w.transaction == t.id
  obtain ⟨new, hnew, hall⟩ := cancelEnds_history d t
  have hsub := dropWorks_work_sublist ((d.cancelCaller t).cancelServer t) token tid
    fun w => w.transaction == t.id
  rw [hw] at hsub
  refine ⟨hsub, fun hnd x => ?_, fun x => ?_, hth', hn'.trans hn, new, ?_, hall⟩
  · have hmem : x ∈ (cancelTransaction token tid d t).work ↔ _ := mem_dropWorks_work (hw ▸ hnd)
    rw [hw] at hmem
    exact hmem.trans (by simp)
  · rw [cancelTransaction, transactionFor_endTransaction]
    split
    · rfl
    · exact transactionFor_congr (ht'.trans ht) x
  · rw [cancelTransaction, endTransaction_history, hh', hw, hnew]

/-- The history after a call was ended whose caller waits for it. -/
theorem cancelTransaction_history {t : Transaction} {caller : Thread}
    (hc : d.threadFor t.source t.sourceTid = some caller) (hout : caller.outgoing = t.id) :
    (cancelTransaction token tid d t).history =
      ((d.work.filter fun w => w.transaction == t.id).map (Event.dropped token tid)).reverse ++
        ([.cancelled t.source t.sourceTid t.id caller.error] ++ d.history) := by
  have hends : ((d.cancelCaller t).cancelServer t).history =
      .cancelled t.source t.sourceTid t.id caller.error :: d.history := by
    have hcaller : (d.cancelCaller t).history =
        .cancelled t.source t.sourceTid t.id caller.error :: d.history := by
      rw [cancelCaller, hc]
      dsimp only
      rw [if_pos hout]
      rfl
    unfold cancelServer
    split
    · exact hcaller
    · split <;> exact hcaller
  have hh := (dropWorks_frame ((d.cancelCaller t).cancelServer t) token tid
    fun w => w.transaction == t.id).2.2.1
  rw [cancelTransaction, endTransaction_history, hh, hends, (cancelEnds_frame d t).1]
  rfl

/-! ## Acceptance and delivery -/

section Accept

variable {source : Endpoint} {answers : Nat} {work : Work} {r : Reservation}

/-- An accepted parcel is queued behind all others, and the calls and the objects stay. -/
theorem acceptParcel_frame (d : Device) :
    (d.acceptParcel source tid answers work r).work = d.work ++ [work] ∧
      (d.acceptParcel source tid answers work r).transactions = d.transactions ∧
      (d.acceptParcel source tid answers work r).objects = d.objects ∧
      (d.acceptParcel source tid answers work r).nextTransaction = d.nextTransaction ∧
      (d.acceptParcel source tid answers work r).history =
        .accepted ⟨source.token, tid, answers, work, r.sent, r.data, r.offsets, r.nodes⟩ ::
          d.history :=
  ⟨rfl, rfl, rfl, rfl, rfl⟩

/-- Only the sender has one more transmission to hear of. -/
theorem threadFor_acceptParcel (d : Device) (k : Nat) (i : Int) :
    (d.acceptParcel source tid answers work r).threadFor k i =
      if k = source.token ∧ i = tid then
        (d.threadFor k i).map fun th => { th with completions := th.completions + 1 }
      else d.threadFor k i := by
  rw [acceptParcel, threadFor_record]
  change (d.updateThread source.token tid fun th =>
    { th with completions := th.completions + 1 }).threadFor k i = _
  rw [threadFor_updateThread]
  exact fun _ => rfl

end Accept

@[simp] theorem threadFor_storeReservation (d : Device) (target : Nat) (r : Reservation) :
    (d.storeReservation target r).threadFor k i = d.threadFor k i :=
  threadFor_updateEndpoint (fun _ => rfl) fun _ => rfl

/-- Storing a reservation changes the target's arena only. -/
theorem arenaFor_storeReservation {target : Nat} (h : (d.endpointFor target).isSome)
    (r : Reservation) : (d.storeReservation target r).arenaFor k =
      if k = target then r.arena else d.arenaFor k := by
  have htok : ∀ e : Endpoint, ({ e with arena := r.arena } : Endpoint).token = e.token :=
    fun _ => rfl
  change (d.updateEndpoint target fun e => { e with arena := r.arena }).arenaFor k = _
  rw [arenaFor, endpointFor_updateEndpoint htok, arenaFor]
  split
  next hk =>
    obtain ⟨e, he⟩ := Option.isSome_iff_exists.1 h
    rw [hk, he]
    simp
  next hk =>
    cases d.endpointFor k <;> rfl

/-- The record a read writes, case by case. -/
theorem nextRecord_cases {th : Thread} {record : Record} (h : d.nextRecord token th = some record) :
    (∃ word, th.error = some word ∧ record = .error word) ∨
    (th.error = none ∧ ∃ n c, d.nodeEventFor token th = some (n, c) ∧ record = .node n c) ∨
    (th.error = none ∧ th.completions ≠ 0 ∧ record = .completion) ∨
    (th.error = none ∧ th.completions = 0 ∧ ∃ index w, d.workFor token th = some index ∧
      d.work[index]? = some w ∧ record = .work index w) ∨
    (th.error = none ∧ ∃ slot death, d.deathFor token th = some slot ∧
      d.objects.deaths[slot]? = some death ∧ record = .notification slot death) := by
  unfold nextRecord at h
  split at h
  next word herr => exact .inl ⟨word, herr, (Option.some.inj h).symm⟩
  next herr =>
    refine .inr ?_
    split at h
    next n c hn => exact .inl ⟨herr, n, c, hn, (Option.some.inj h).symm⟩
    next =>
      refine .inr ?_
      split at h
      next hcomp => exact .inl ⟨herr, hcomp, (Option.some.inj h).symm⟩
      next hcomp =>
        refine .inr ?_
        have hcomp : th.completions = 0 := by omega
        split at h
        next r hr =>
          obtain ⟨j, hj, hw⟩ := Option.bind_eq_some_iff.1 hr
          obtain ⟨w, hw', rfl⟩ := Option.map_eq_some_iff.1 hw
          exact .inl ⟨herr, hcomp, j, w, hj, hw', (Option.some.inj h).symm⟩
        next =>
          obtain ⟨j, hj, hw⟩ := Option.bind_eq_some_iff.1 h
          obtain ⟨death, hd, rfl⟩ := Option.map_eq_some_iff.1 hw
          exact .inr ⟨herr, j, death, hj, hd, rfl⟩

/-- The calls after a call was accepted. -/
theorem startCall_transactions {target : Nat} (h : d.transactionSlot = true) :
    ∃ l, insertFree packetLimit (fun s : Transaction => s.id == 0) (d.callOf token tid target)
        d.transactions = some l ∧ (d.startCall token tid target).transactions = l := by
  have hroom : d.transactions.length < packetLimit ∨
      ∃ t ∈ d.transactions, (t.id == 0) = true := by
    simpa [transactionSlot] using h
  obtain ⟨l, hl⟩ := insertFree_isSome (x := d.callOf token tid target) hroom
  refine ⟨l, hl, ?_⟩
  change (insertFree packetLimit (fun s : Transaction => s.id == 0) (d.callOf token tid target)
    d.transactions).getD d.transactions = l
  rw [hl]
  rfl

/-- The call that starts is found by the next id, and every other as before. -/
theorem transactionFor_startCall {target : Nat} (h : d.transactionSlot = true)
    (h0 : d.nextTransaction ≠ 0) (hfresh : d.transactionFor d.nextTransaction = none) (x : Nat) :
    (d.startCall token tid target).transactionFor x =
      if x = d.nextTransaction then some (d.callOf token tid target) else d.transactionFor x := by
  obtain ⟨l, hl, ht⟩ : ∃ l, _ ∧ (d.startCall token tid target).transactions = l :=
    startCall_transactions h
  rw [transactionFor, ht]
  split
  next hx =>
    subst hx
    refine find?_insertFree_self hl (by simpa using h0) fun t htm => ?_
    simpa using List.find?_eq_none.1 hfresh t htm
  next hx =>
    refine find?_insertFree_other hl (by simp [Ne.symm hx]) fun t htm => ?_
    have : t.id = 0 := by simpa using htm
    simp only [this, Bool.and_eq_false_iff, beq_eq_false_iff_ne, bne_eq_false_iff_eq]
    omega

/-- The caller's thread waits for the call that starts. -/
theorem threadFor_startCall {target : Nat} :
    (d.startCall token tid target).threadFor k i =
      if k = token ∧ i = tid then
        (d.threadFor k i).map fun th => { th with outgoing := d.nextTransaction }
      else d.threadFor k i := by
  change (d.updateThread token tid fun th => { th with outgoing := d.nextTransaction }).threadFor k
    i = _
  rw [threadFor_updateThread]
  exact fun _ => rfl

/-- The threads after a call was ended by its reply. -/
theorem threadFor_finishCall {t : Transaction} :
    (d.finishCall token tid t).threadFor k i =
      ((d.threadFor k i).map fun th =>
        if k = token ∧ i = tid then { th with incoming := 0 } else th).map fun th =>
          if k = t.source ∧ i = t.sourceTid then { th with outgoing := 0 } else th := by
  rw [finishCall, threadFor_endTransaction, threadFor_updateThread, threadFor_updateThread]
  · cases d.threadFor k i with
    | none => simp
    | some th =>
      simp only [Option.map_some]
      split_ifs <;> rfl
  · exact fun _ => rfl
  · exact fun _ => rfl

/-- What an accepted reply does to the thread `(k, i)`. -/
def answered (token : Nat) (tid : Int) (t : Transaction) (k : Nat) (i : Int) (th : Thread) :
    Thread :=
  { th with
    incoming := if k = token ∧ i = tid then 0 else th.incoming
    completions := if k = token ∧ i = tid then th.completions + 1 else th.completions
    outgoing := if k = t.source ∧ i = t.sourceTid then 0 else th.outgoing }

/-- What a reply does to the threads. -/
theorem threadFor_sendReply {e : Endpoint} {th : Thread} {target : Nat} {t : Transaction}
    {input : TransactionData} {r : Reservation} :
    ((d.storeReservation target r).sendReply e th t input r).threadFor k i =
      (d.threadFor k i).map (answered e.token th.tid t k i) := by
  rw [sendReply, threadFor_acceptParcel, threadFor_finishCall, threadFor_storeReservation]
  cases d.threadFor k i with
  | none => simp
  | some x =>
    simp only [Option.map_some, answered]
    split_ifs <;> rfl

/-- What an accepted call does to its caller's thread. -/
def called (id : Nat) (th : Thread) : Thread :=
  { th with outgoing := id, completions := th.completions + 1 }

/-- What a call does to the threads. -/
theorem threadFor_sendCall {e : Endpoint} {th : Thread} {target : Nat} {node : Node}
    {input : TransactionData} {r : Reservation} :
    ((d.storeReservation target r).sendCall e th target node input r).threadFor k i =
      if k = e.token ∧ i = th.tid then (d.threadFor k i).map (called d.nextTransaction)
      else d.threadFor k i := by
  rw [sendCall, threadFor_acceptParcel, threadFor_startCall, threadFor_storeReservation]
  split
  · cases d.threadFor k i <;> rfl
  · rfl

/-- What a one-way call does to the threads. -/
theorem threadFor_sendOneway {e : Endpoint} {th : Thread} {target : Nat} {node : Node}
    {input : TransactionData} {r : Reservation} :
    ((d.storeReservation target r).sendOneway e th target node input r).threadFor k i =
      if k = e.token ∧ i = th.tid then
        (d.threadFor k i).map fun th => { th with completions := th.completions + 1 }
      else d.threadFor k i := by
  rw [sendOneway, threadFor_acceptParcel]
  change (if _ then Option.map _ ((d.storeReservation target r).threadFor k i) else
    (d.storeReservation target r).threadFor k i) = _
  rw [threadFor_storeReservation]

/-- The call a reply answers: its own thread serves it and its caller waits for it. -/
theorem replyTarget_spec {th : Thread} {target : Endpoint} {t : Transaction}
    (h : d.replyTarget th = some (target, t)) :
    d.transactionFor th.incoming = some t ∧ th.outgoing = 0 ∧
      d.endpointFor t.source = some target ∧
      ∃ caller, d.threadFor t.source t.sourceTid = some caller ∧ caller.outgoing = t.id := by
  unfold replyTarget at h
  split at h
  · cases h
  next t' ht =>
    split at h
    · cases h
    next hout =>
      split at h
      · cases h
      next e he =>
        split at h
        · cases h
        next caller hcaller =>
          split at h
          next hc =>
            cases h
            exact ⟨ht, by omega, he, caller, by rw [threadFor_of he]; exact hcaller, hc⟩
          next => cases h

/-- What `work_for` finds: the first parcel it may stop at. -/
theorem workFor_spec {d : Device} {th : Thread} {polling : Bool} {index : Nat}
    (h : d.workFor token th polling = some index) :
    ∃ w, d.work[index]? = some w ∧ d.workReady token th polling w = true ∧
      ∀ j < index, ∀ w', d.work[j]? = some w' → d.workReady token th polling w' = false := by
  obtain ⟨hlt, hready, hfirst⟩ := List.findIdx?_eq_some_iff_getElem.1 h
  refine ⟨d.work[index], List.getElem?_eq_getElem hlt, hready, fun j hj w' hw' => ?_⟩
  rw [List.getElem?_eq_getElem (Nat.lt_trans hj hlt)] at hw'
  rw [← Option.some.inj hw']
  simpa using hfirst j hj

/-- Taking the item at an index out of the queue takes that item out. -/
theorem mem_eraseIdx {work : List Work} (h : work.Nodup) {index : Nat} {w : Work}
    (hw : work[index]? = some w) (x : Work) : x ∈ work.eraseIdx index ↔ x ∈ work ∧ x ≠ w := by
  obtain ⟨hlt, rfl⟩ := List.getElem?_eq_some_iff.1 hw
  rw [← h.erase_getElem index hlt, h.mem_erase_iff]
  exact and_comm

/-- Delivering a parcel fails and leaves queue and history alone, or takes it out. -/
theorem deliverWork_cases (d : Device) (e : Endpoint) (th : Thread) (index : Nat) (w : Work) :
    ((d.deliverWork e th index w).1 ≠ 0 ∧
      ((d.deliverWork e th index w).2 = d ∨ (d.deliverWork e th index w).2 =
        d.updateArena e.token fun a => (a.publish w.value.dataBuffer).2)) ∨
    ((∃ a, e.arena = some a ∧ (a.publish w.value.dataBuffer).1 = 0) ∧
      (w.transaction ≠ 0 → (d.transactionFor w.transaction).isSome) ∧
      d.deliverWork e th index w =
        (0, { (d.updateArena e.token fun a => (a.publish w.value.dataBuffer).2).serve e.token th.tid
            w.transaction with work := d.work.eraseIdx index }.record
          (.delivered e.token th.tid d.work w))) := by
  unfold deliverWork
  split
  · exact .inl ⟨(by decide : (-5 : Int) ≠ 0), .inl rfl⟩
  next hpub =>
    split
    · exact .inl ⟨(by decide : (-5 : Int) ≠ 0), .inr rfl⟩
    next ht =>
      refine .inr ⟨?_, fun h0 => ?_, rfl⟩
      · cases ha : e.arena with
        | none => simp [ha] at hpub
        | some a => exact ⟨a, rfl, by simpa [ha] using hpub⟩
      · by_contra hnone
        exact ht ⟨h0, by simpa using hnone⟩

/-- Records other than parcels leave queue and calls alone and are noted. -/
theorem deliver_frame (d : Device) (e : Endpoint) (th : Thread) {record : Record}
    (h : ∀ index w, record ≠ .work index w) :
    (d.deliver e th record).1 = 0 ∧ (d.deliver e th record).2.work = d.work ∧
      (d.deliver e th record).2.transactions = d.transactions ∧
      (d.deliver e th record).2.nextTransaction = d.nextTransaction ∧
      (∃ event, (d.deliver e th record).2.history = event :: d.history) ∧
      ∀ k, (d.deliver e th record).2.arenaFor k = d.arenaFor k := by
  cases record with
  | error word => exact ⟨rfl, rfl, rfl, rfl, ⟨_, rfl⟩, fun _ => arenaFor_updateThread _⟩
  | node n c => exact ⟨rfl, rfl, rfl, rfl, ⟨_, rfl⟩, fun _ => rfl⟩
  | completion => exact ⟨rfl, rfl, rfl, rfl, ⟨_, rfl⟩, fun _ => arenaFor_updateThread _⟩
  | notification slot death => exact ⟨rfl, rfl, rfl, rfl, ⟨_, rfl⟩, fun _ => rfl⟩
  | work index w => exact absurd rfl (h index w)

/-- Freeing a buffer takes nothing from the queue and ends no call. -/
theorem freePacket_frame (d : Device) (e : Endpoint) (buffer : Nat) :
    (d.freePacket e buffer).2.work = d.work ∧
      (d.freePacket e buffer).2.transactions = d.transactions ∧
      (d.freePacket e buffer).2.nextTransaction = d.nextTransaction ∧
      (∃ new, (d.freePacket e buffer).2.history = new ++ d.history ∧
        ∀ event ∈ new, event = .freed e.token buffer) ∧
      ∀ k i, (d.freePacket e buffer).2.threadFor k i = d.threadFor k i := by
  unfold freePacket
  split
  · exact ⟨rfl, rfl, rfl, ⟨[], rfl, by simp⟩, fun _ _ => rfl⟩
  · split
    · exact ⟨rfl, rfl, rfl, ⟨[], rfl, by simp⟩, fun _ _ => rfl⟩
    · exact ⟨rfl, rfl, rfl, ⟨[_], rfl, by simp⟩, fun _ _ => threadFor_updateArena _⟩

/-- Recording a change of the tables touches nothing else of the device. -/
theorem recordSlot_frame (d : Device) (slot : Option Nat) (event : Nat → Event) :
    (d.recordSlot slot event).endpoints = d.endpoints ∧ (d.recordSlot slot event).work = d.work ∧
      (d.recordSlot slot event).transactions = d.transactions ∧
      (d.recordSlot slot event).objects = d.objects ∧
      (d.recordSlot slot event).nextTransaction = d.nextTransaction ∧
      ∃ new, (d.recordSlot slot event).history = new ++ d.history ∧
        ∀ e ∈ new, ∃ slot, e = event slot := by
  cases slot with
  | none => exact ⟨rfl, rfl, rfl, rfl, rfl, [], rfl, by simp⟩
  | some slot => exact ⟨rfl, rfl, rfl, rfl, rfl, [event slot], rfl, by simp⟩

/-- Registering the context manager leaves endpoints, queue and calls alone. -/
theorem setContextMgr_frame (d : Device) (e : Endpoint) (flags pointer cookie : Nat) :
    (d.setContextMgr e flags pointer cookie).2.endpoints = d.endpoints ∧
      (d.setContextMgr e flags pointer cookie).2.work = d.work ∧
      (d.setContextMgr e flags pointer cookie).2.transactions = d.transactions ∧
      (d.setContextMgr e flags pointer cookie).2.nextTransaction = d.nextTransaction ∧
      (d.setContextMgr e flags pointer cookie).2.history = d.history := by
  unfold setContextMgr
  repeat' split
  all_goals exact ⟨rfl, rfl, rfl, rfl, rfl⟩

end Device

open Device in
/-- Every step keeps the queue in order. -/
theorem QueueIds.step {d d' : Device} (h : QueueIds d) (hs : Step d d') : QueueIds d' := by
  -- most steps leave the queue alone, and the history only grows
  have hsame : ∀ d', d'.work = d.work → d.history.length ≤ d'.history.length → QueueIds d' :=
    fun d' hw hh => h.sublist (hw ▸ List.Sublist.refl _) hh
  cases hs with
  | configure => exact hsame _ rfl (Nat.le_refl _)
  | openEndpoint ho =>
    obtain ⟨_, hw, _, hh, _⟩ := openEndpoint_frame ho
    exact hsame _ hw (hh ▸ Nat.le_refl _)
  | tune => exact hsame _ rfl (Nat.le_refl _)
  | admission _ _ ha =>
    obtain ⟨_, hw, _, hh, _⟩ := admitThread_frame ha
    exact hsame _ hw (hh ▸ Nat.le_refl _)
  | setContextMgr flags pointer cookie =>
    obtain ⟨_, hw, _, _, hh⟩ := setContextMgr_frame d _ flags pointer cookie
    exact hsame _ hw (hh ▸ Nat.le_refl _)
  | refer => exact hsame _ rfl (Nat.le_refl _)
  | nodeDone => exact hsame _ rfl (by simp)
  | requestDeath | clearDeath | doneDeath =>
    simp only [requestDeath, clearDeath, doneDeath]
    obtain ⟨_, hw, _, _, _, new, hh, _⟩ := recordSlot_frame _ _ _
    refine hsame _ hw ?_
    rw [hh]
    simp
  | free buffer =>
    obtain ⟨hw, _, _, ⟨new, hh, _⟩, _⟩ := freePacket_frame d _ buffer
    exact hsame _ hw (by rw [hh]; simp)
  | refuse | bounce =>
    refine hsame _ rfl ?_
    simp only [failThread, record_history, updateThread_history, List.length_cons]
    omega
  | reserve => exact hsame _ rfl (Nat.le_refl _)
  | reply | oneway | call =>
    refine h.append rfl rfl ?_
    exact Nat.lt_add_of_pos_right (k := 2) (by decide)
  | @deliver e th record =>
    by_cases hwork : ∃ index w, record = .work index w
    · obtain ⟨index, w, rfl⟩ := hwork
      simp only [deliver]
      rcases deliverWork_cases d e th index w with ⟨_, hd | hd⟩ | ⟨_, _, hd⟩
      · exact hsame _ (by rw [hd]) (by rw [hd])
      · exact hsame _ (by rw [hd]; rfl) (by rw [hd]; exact Nat.le_refl _)
      · rw [hd]
        exact h.sublist (List.eraseIdx_sublist _ _) (by simp)
    · obtain ⟨_, hw, _, _, ⟨event, hh⟩, _⟩ :=
        deliver_frame d e th fun index w heq => hwork ⟨index, w, heq⟩
      exact hsame _ hw (by rw [hh]; simp)
  | teardown => exact hsame _ rfl (by simp)
  | cancel =>
    obtain ⟨hw, _, _, _, _, new, hh, _⟩ := cancelTransaction_frame d _ _ _
    refine h.sublist hw ?_
    rw [hh]
    simp only [List.length_append]
    omega
  | drop => exact h.sublist List.erase_sublist (by simp)
  | erase => exact hsame _ rfl (by rw [eraseThread_frame.2.2.1]; simp)
  | retire =>
    obtain ⟨_, hw, hh, _⟩ := retire_frame
    exact hsame _ hw (by rw [hh]; simp)

/-- The queue of every reachable device is in the order of its stamps. -/
theorem Device.Reachable.queueIds {d : Device} (h : d.Reachable) : QueueIds d := by
  refine h.inv (fun d hi => ?_) fun _ _ => QueueIds.step
  obtain ⟨_, _, hw, _⟩ := machine_init hi
  exact ⟨hw ▸ List.Pairwise.nil, by simp [hw]⟩

end Artbox.Binder
