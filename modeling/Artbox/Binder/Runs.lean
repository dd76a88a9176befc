import Artbox.Binder.Ledger

/-!
# Every run is a sequence of steps

The entry points of the device only ever take steps (`Artbox.Binder.Steps`), so every
device of a system's run, on any host, is `Reachable`, and so are the devices in between.
The proofs follow the code from `transfer_packet` up to `ioctl`; each loop of the
source is an induction whose invariant is that the device is reachable and that the
tables still hold what the loop has yet to visit.

Outside `exit_thread` and `release_endpoint` no step belongs to a teardown. What such steps
and whole teardowns keep (`Closed`) every call keeps (`perform_kept`); that the device is
reachable is the first instance.
-/

namespace Artbox.Binder

open Slots Bytes

variable {ω : Type} {host : Host ω} {w : ω} {d : Device}

/-- One step further. -/
theorem Device.Reachable.then {d d' : Device} (h : d.Reachable) (hs : Step d d') : d'.Reachable :=
  Machine.Reachable.step h hs

/-! ## Teardown -/

/-- The calls after one was cancelled. -/
theorem cancelTransaction_transactions (d : Device) (token : Nat) (tid : Int) (t : Transaction) :
    (Device.cancelTransaction token tid d t).transactions =
      update (fun s => s.id == t.id) (fun s => { s with id := 0 }) d.transactions := by
  have h1 := (Device.cancelEnds_frame d t).2.1
  have h2 := (Device.dropWorks_frame ((d.cancelCaller t).cancelServer t) token tid
    fun w => w.transaction == t.id).1
  change update _ _ (Device.dropWorks _ _ _ _).transactions = _
  rw [h2, h1]

/-- A cancellation belongs to the teardown that it happens in. -/
theorem inTeardown_cancelTransaction {token : Nat} {tid : Int}
    (ht : InTeardown token tid d.history) (t : Transaction) :
    InTeardown token tid (Device.cancelTransaction token tid d t).history := by
  obtain ⟨_, _, _, _, _, new, hh, hnew⟩ := Device.cancelTransaction_frame d token tid t
  rw [hh, ← List.map_reverse]
  refine inTeardown_drops (inTeardown_cancels ht fun e he => ?_) _
  obtain ⟨unread, rfl⟩ := hnew e he
  exact ⟨_, _, _, _, rfl⟩

/-- The first loop of `cancel_transactions`: what it has yet to visit is still listed. -/
theorem cancelLoop_reachable (h : d.Reachable) {token : Nat} {tid : Int}
    (ht : InTeardown token tid d.history) (l : List Transaction)
    (hl : ∀ t ∈ l, t ∈ d.transactions ∧ Device.cancelMatches token tid t = true)
    (hnd : l.Pairwise fun t t' => t.id ≠ t'.id) :
    (l.foldl (Device.cancelTransaction token tid) d).Reachable ∧
      InTeardown token tid (l.foldl (Device.cancelTransaction token tid) d).history ∧
      ∀ t ∈ (l.foldl (Device.cancelTransaction token tid) d).transactions,
        Device.cancelMatches token tid t = true → t ∈ d.transactions ∧ t ∉ l := by
  induction l generalizing d with
  | nil => exact ⟨h, ht, fun t hmem _ => ⟨hmem, by simp⟩⟩
  | cons t ts ih =>
    obtain ⟨hmem, hm⟩ := hl t List.mem_cons_self
    obtain ⟨hne, hnd⟩ := List.pairwise_cons.1 hnd
    have hr := h.then (.cancel ht hmem hm)
    have hrest : ∀ s ∈ ts, s ∈ (Device.cancelTransaction token tid d t).transactions ∧
        Device.cancelMatches token tid s = true := by
      intro s hs
      obtain ⟨hsmem, hsm⟩ := hl s (List.mem_cons_of_mem _ hs)
      rw [cancelTransaction_transactions]
      exact ⟨mem_update_of_not hsmem (by simpa using (hne s hs).symm), hsm⟩
    obtain ⟨h1, h2, h3⟩ := ih hr (inTeardown_cancelTransaction ht t) hrest hnd
    refine ⟨h1, h2, fun s hs hsm => ?_⟩
    obtain ⟨hs', hnot⟩ := h3 s hs hsm
    rw [cancelTransaction_transactions] at hs'
    obtain ⟨s0, hs0, heq⟩ := mem_update.1 hs'
    split at heq
    · rw [heq] at hsm
      simp [Device.cancelMatches] at hsm
    next hid =>
      rw [heq]
      refine ⟨hs0, fun hmem => ?_⟩
      rcases List.mem_cons.1 hmem with hst | hmem
      · exact hid (by simp [hst])
      · exact hnot (heq ▸ hmem)

/-- The second loop. -/
theorem dropLoop_reachable (h : d.Reachable) {token : Nat} {tid : Int}
    (ht : InTeardown token tid d.history)
    (hm : ∀ t ∈ d.transactions, Device.cancelMatches token tid t = false) (l : List Work)
    (hl : ∀ w ∈ l, w ∈ d.work ∧ Device.workMatches token tid w = true) (hnd : l.Nodup) :
    (l.foldl (Device.dropWork token tid) d).Reachable := by
  induction l generalizing d with
  | nil => exact h
  | cons w ws ih =>
    obtain ⟨hmem, hwm⟩ := hl w List.mem_cons_self
    obtain ⟨hne, hnd⟩ := List.nodup_cons.1 hnd
    refine ih (h.then (.drop ht hm hmem hwm)) ⟨rfl, rfl, ht⟩ hm (fun x hx => ?_) hnd
    obtain ⟨hx', hxm⟩ := hl x (List.mem_cons_of_mem _ hx)
    refine ⟨?_, hxm⟩
    rw [Device.dropWork_work, h.queueIds.nodup.mem_erase_iff]
    exact ⟨fun heq => hne (heq ▸ hx), hx'⟩

/-- The calls a teardown ends have ids of their own. -/
theorem Device.Reachable.cancelled_ids (h : d.Reachable) {token : Nat} {tid : Int} :
    (d.transactions.filter (Device.cancelMatches token tid)).Pairwise fun t t' => t.id ≠ t'.id := by
  refine (h.callIds.unique.filter _).imp_of_mem fun {t t'} hmem hmem' hne => ?_
  have hlive : ∀ s ∈ d.transactions.filter (Device.cancelMatches token tid), s.id ≠ 0 := by
    intro s hs
    have := (List.mem_filter.1 hs).2
    simp only [Device.cancelMatches, Bool.and_eq_true, bne_iff_ne] at this
    exact this.1
  exact hne (hlive t hmem) (hlive t' hmem')

/-- `cancel_transactions` leaves no call and no parcel that concerns the teardown. -/
theorem cancelTransactions_reachable (h : d.Reachable) {token : Nat} {tid : Int}
    (ht : InTeardown token tid d.history) :
    (d.cancelTransactions token tid).Reachable ∧
      InTeardown token tid (d.cancelTransactions token tid).history ∧
      (∀ t ∈ (d.cancelTransactions token tid).transactions,
        Device.cancelMatches token tid t = false) ∧
      ∀ w ∈ (d.cancelTransactions token tid).work, Device.workMatches token tid w = false := by
  obtain ⟨h1, ht1, hleft⟩ := cancelLoop_reachable h ht _ (fun t hmem => List.mem_filter.1 hmem)
    h.cancelled_ids
  unfold Device.cancelTransactions
  generalize (d.transactions.filter (Device.cancelMatches token tid)).foldl
    (Device.cancelTransaction token tid) d = d1 at h1 ht1 hleft
  have hm : ∀ t ∈ d1.transactions, Device.cancelMatches token tid t = false := by
    intro t hmem
    by_contra hne
    have hne : Device.cancelMatches token tid t = true := by simpa using hne
    obtain ⟨hold, hnot⟩ := hleft t hmem hne
    exact hnot (List.mem_filter.2 ⟨hold, hne⟩)
  obtain ⟨htrans, _, hh, _⟩ := Device.dropWorks_frame d1 token tid (Device.workMatches token tid)
  refine ⟨?_, ?_, fun t hmem => hm t (htrans ▸ hmem), fun w hw => ?_⟩
  · exact dropLoop_reachable h1 ht1 hm _ (fun w hw => List.mem_filter.1 hw)
      (h1.queueIds.nodup.filter _)
  · rw [hh, ← List.map_reverse]
    exact inTeardown_drops ht1 _
  · exact ((Device.mem_dropWorks_work h1.queueIds.nodup).1 hw).2

/-- The exit of a thread is a run of steps. -/
theorem exitThread_reachable (h : d.Reachable) (token : Nat) {tid : Int} (hpos : 0 < tid) :
    (d.exitThread token tid).Reachable := by
  obtain ⟨h1, ht, hm, hw⟩ := cancelTransactions_reachable (h.then (.teardown token tid))
    (show InTeardown token tid (_ :: _) from ⟨rfl, rfl⟩)
  exact h1.then (.erase ht hpos hm hw)

/-- The release of an endpoint is a run of steps. -/
theorem releaseEndpoint_reachable (h : d.Reachable) {token : Nat} (h0 : token ≠ 0) :
    (d.releaseEndpoint token).Reachable := by
  obtain ⟨h1, ht, hm, hw⟩ := cancelTransactions_reachable (h.then (.teardown token 0))
    (show InTeardown token 0 (_ :: _) from ⟨rfl, rfl⟩)
  exact h1.then (.retire ht h0 hm hw)

/-! ## Steps outside a teardown -/

/-- No teardown is going on. -/
def Resting (h : List Event) : Prop := ∀ k i, ¬ InTeardown k i h

/-- An event that is in no teardown. -/
def Event.Outside : Event → Prop
  | teardown _ _ | dropped _ _ _ | cancelled _ _ _ _ => False
  | _ => True

/-- An event outside of teardowns leaves the history at rest. -/
theorem Event.Outside.resting {e : Event} (he : e.Outside) (h : List Event) : Resting (e :: h) := by
  intro k i ht
  cases e <;> first | exact ht | exact he

/-- From `d` to `d'` no teardown begins. -/
def Device.Calm (d d' : Device) : Prop := Resting d.history → Resting d'.history

namespace Device.Calm

variable {d d' : Device}

/-- A step without an event is calm. -/
theorem same (hh : d'.history = d.history) : Calm d d' := fun h => hh ▸ h

/-- A step whose events are outside of teardowns is calm. -/
theorem of_append {new : List Event} (hh : d'.history = new ++ d.history)
    (hn : ∀ e ∈ new, e.Outside) : Calm d d' := by
  intro h
  rw [hh]
  cases new with
  | nil => exact h
  | cons e es => exact (hn e List.mem_cons_self).resting _

/-- A step with one event outside of teardowns is calm. -/
theorem of_cons {e : Event} {h : List Event} (hh : d'.history = e :: h) (he : e.Outside) :
    Calm d d' := fun _ => hh ▸ he.resting h

end Device.Calm

/-- What steps outside a teardown and whole teardowns keep. -/
structure Closed (P : Device → Prop) : Prop where
  reachable : ∀ {d : Device}, P d → d.Reachable
  step : ∀ {d d' : Device}, P d → Step d d' → d.Calm d' → P d'
  exit : ∀ {d : Device} (token : Nat) {tid : Int}, P d → 0 < tid → P (d.exitThread token tid)
  release : ∀ {d : Device} {token : Nat}, P d → token ≠ 0 → Issued d.nextToken token →
    P (d.releaseEndpoint token)

/-- What happens to a subscription is outside a teardown. -/
theorem calm_recordSlot {d₀ d : Device} {slot : Option Nat} {event : Nat → Event}
    (hh : d.history = d₀.history) (he : ∀ i, (event i).Outside) : d₀.Calm (d.recordSlot slot event) := by
  obtain ⟨_, _, _, _, _, new, hnew, hslot⟩ := Device.recordSlot_frame d slot event
  rw [hh] at hnew
  refine .of_append hnew fun e hmem => ?_
  obtain ⟨i, rfl⟩ := hslot e hmem
  exact he i

/-- So is a delivery. -/
theorem calm_deliver (d : Device) (e : Endpoint) (th : Thread) (record : Record) :
    d.Calm (d.deliver e th record).2 := by
  cases record with
  | error word => exact .of_cons rfl trivial
  | node n c => exact .of_cons rfl trivial
  | completion => exact .of_cons rfl trivial
  | notification slot death => exact .of_cons rfl trivial
  | work index w =>
    change d.Calm (d.deliverWork e th index w).2
    rcases Device.deliverWork_cases d e th index w with ⟨_, heq | heq⟩ | ⟨_, _, heq⟩ <;> rw [heq]
    · exact .same rfl
    · exact .same rfl
    · exact .of_cons (e := .delivered e.token th.tid d.work w) rfl trivial

/-- The reachable states are closed under the steps of a call. -/
theorem closed_reachable : Closed Device.Reachable where
  reachable h := h
  step h hs _ := h.then hs
  exit token _ h hpos := exitThread_reachable h token hpos
  release h h0 _ := releaseEndpoint_reachable h h0

variable {P : Device → Prop}

/-- The thread a call is about. -/
structure Found (d : Device) (e : Endpoint) (th : Thread) : Prop where
  endpoint : d.endpointFor e.token = some e
  thread : e.threadFor th.tid = some th

/-- A thread that is found at an endpoint that is found is one that runs. -/
theorem Found.of_threadFor {e : Endpoint} {token : Nat} {tid : Int} {th : Thread}
    (he : d.endpointFor token = some e) (hth : d.threadFor token tid = some th) : Found d e th := by
  have htok := (Device.endpointFor_spec he).2.1
  have htid := Device.threadFor_tid hth
  rw [Device.threadFor_of he] at hth
  exact ⟨by rw [htok, he], by rw [htid, hth]⟩

/-! ## Packets -/

/-- What target selection for a call has established when it lets a packet through. -/
theorem callTarget_spec {source target : Endpoint} {th : Thread} {input : TransactionData}
    {oneway : Bool} {node : Node} (h : d.callTarget source th input oneway = .send target node) :
    d.endpointFor target.token = some target ∧ d.objects.nodeFor node.id = some node ∧
      node.owner = target.token ∧ target.token ≠ source.token ∧
      (oneway = false → th.incoming = 0 ∧ th.outgoing = 0 ∧ d.nextTransaction ≠ 0 ∧
        d.transactionSlot = true) := by
  simp only [Device.callTarget] at h
  split at h
  · cases h
  next hbusy =>
    split at h
    · cases h
    next n hn =>
      split at h
      · cases h
      next e he =>
        have hnode : ∀ x, d.objects.nodeFor x = some n → d.objects.nodeFor n.id = some n := by
          intro x hx
          have := List.find?_some hx
          simp only [Bool.and_eq_true, beq_iff_eq] at this
          rw [this.2]
          exact hx
        have hfound : d.objects.nodeFor n.id = some n := by
          split at hn
          · exact hnode _ hn
          · obtain ⟨ref, _, href⟩ := Option.bind_eq_some_iff.1 hn
            exact hnode _ href
        have htarget : d.endpointFor n.owner = some e := by
          split at he
          · cases he
          · exact he
        have htok := (Device.endpointFor_spec htarget).2.1
        split at h
        · cases h
        next hself =>
          have hself : e.token ≠ source.token := fun heq => hself (.inl heq)
          split at h
          next hone =>
            cases h
            exact ⟨by rw [htok, htarget], hfound, htok.symm, hself, fun h => by simp [h] at hone⟩
          next hone =>
            split at h
            · cases h
            next hroom =>
              cases h
              refine ⟨by rw [htok, htarget], hfound, htok.symm, hself, fun _ => ?_⟩
              simp only [hone, Bool.not_false, true_and, not_or, not_not] at hbusy
              simp only [not_or, Bool.not_eq_false] at hroom
              exact ⟨hbusy.1, hbusy.2, hroom⟩

/-- The word of a failed call. -/
theorem callTarget_word {source : Endpoint} {th : Thread} {input : TransactionData} {oneway : Bool}
    {word : BR} (h : d.callTarget source th input oneway = .fail word) :
    word = .failedReply ∨ word = .deadReply := by
  simp only [Device.callTarget] at h
  repeat' split at h
  all_goals cases h
  all_goals simp

/-- Where a packet command ends: a consumed packet is noted. -/
def Noted (P : Device → Prop) (e : Endpoint) (th : Thread) (reply : Bool) (result : Int) (d : Device) : Prop :=
  if result = 0 then P (d.record (.consumed e.token th.tid (packetWord reply)))
  else P d

/-- A packet that was consumed is noted. -/
theorem Noted.consumed {e : Endpoint} {th : Thread} {reply : Bool}
    (h : P (d.record (.consumed e.token th.tid (packetWord reply)))) :
    Noted P e th reply 0 d := by
  rwa [Noted, if_pos rfl]

/-- A packet that was refused is not noted as consumed. -/
theorem Noted.refused {e : Endpoint} {th : Thread} {reply : Bool} {result : Int} (h : P d)
    (h0 : result ≠ 0) : Noted P e th reply result d := by
  rwa [Noted, if_neg h0]

/-- A refused reservation is kept, and then perhaps answered with an error return. -/
theorem refusePayload_noted (C : Closed P) (h : P d) {e target : Endpoint} {th : Thread}
    {node : Option Node} {input : TransactionData} {r : Reservation} {reply call : Bool}
    (hr : Reserved d e th target node input r) (h0 : r.result ≠ 0)
    (hc : reply = true → call = false) :
    Noted P e th reply ((d.storeReservation target.token r).refusePayload e th call r.result).1
      ((d.storeReservation target.token r).refusePayload e th call r.result).2 := by
  have hkept := C.step h (.reserve hr h0) (.same rfl)
  unfold Device.refusePayload
  split
  · -- the sender's endpoint may be the one whose arena was kept
    obtain ⟨e', he', htok, hths⟩ : ∃ e' : Endpoint,
        (d.storeReservation target.token r).endpointFor e.token = some e' ∧ e'.token = e.token ∧
          e'.threads = e.threads := by
      have hmap : (d.storeReservation target.token r).endpointFor e.token = _ :=
        Device.endpointFor_updateEndpoint fun _ => rfl
      rw [hr.sourceFound] at hmap
      refine ⟨_, hmap, ?_, ?_⟩ <;> split <;> rfl
    have hth : e'.threadFor th.tid = some th := by
      rw [Endpoint.threadFor, hths]
      exact hr.threadFound
    rw [← htok] at he'
    have hword : BR.failedReply = .failedReply ∨ BR.failedReply = .deadReply := .inl rfl
    have := C.step hkept (.refuse reply call he' hth hr.ready hword hc) (.of_cons rfl trivial)
    rw [htok] at this
    exact .consumed this
  · exact .refused hkept h0

/-- The steps of BC_TRANSACTION keep what is closed, and note the packet if it is consumed. -/
theorem transferCall_noted (C : Closed P) (h : P d) {e : Endpoint} {th : Thread} {input : TransactionData}
    (hf : Found d e th) (herr : th.error = none) (hroom : d.work.length ≠ packetLimit) :
    Noted P e th false (transferCall host w d e th input).1 (transferCall host w d e th input).2.1 := by
  simp only [transferCall]
  split
  next r hr =>
    refine .refused h fun h0 => ?_
    simp only [Device.callTarget] at hr
    repeat' split at hr
    all_goals cases hr
    all_goals simp at h0
  next word hr =>
    have hword := callTarget_word hr
    exact .consumed (C.step h (.refuse false _ hf.endpoint hf.thread herr hword (by simp))
      (.of_cons rfl trivial))
  next target node hr =>
    obtain ⟨htarget, hnode, howner, hne, hfree⟩ := callTarget_spec hr
    have hres : Reserved d e th target (some node) input
        (reservePayload host w d.objects e th.tid target input (some node)).1 :=
      ⟨hf.endpoint, hf.thread, htarget, fun n hn => by cases hn; exact ⟨hnode, howner⟩, herr, hroom,
        ω, host, w, _, rfl⟩
    split
    next h0 => exact refusePayload_noted C h hres h0 (by simp)
    next h0 =>
      have h0 : (reservePayload host w d.objects e th.tid target input (some node)).1.result = 0 := by
        omega
      split
      next => exact .consumed (C.step h (.oneway hres h0 hne) (.of_cons rfl trivial))
      next hone =>
        obtain ⟨hin, hout, hnext, hslot⟩ := hfree (by simpa using hone)
        exact .consumed (C.step h (.call hres h0 hne hin hout hnext hslot) (.of_cons rfl trivial))

/-- The steps of BC_REPLY keep what is closed, and note the packet if it is consumed. -/
theorem transferReply_noted (C : Closed P) (h : P d) {e : Endpoint} {th : Thread} {input : TransactionData}
    (hf : Found d e th) (herr : th.error = none) (hroom : d.work.length ≠ packetLimit) :
    Noted P e th true (transferReply host w d e th input).1 (transferReply host w d e th input).2.1 := by
  simp only [transferReply]
  split
  next hdead =>
    exact .consumed (C.step h (.bounce hf.endpoint hf.thread herr hdead) (.of_cons rfl trivial))
  next hdead =>
    split
    · exact .refused h (by decide : (-95 : Int) ≠ 0)
    next target t ht =>
      have htarget : d.endpointFor target.token = some target := by
        have := (Device.replyTarget_spec ht).2.2.1
        rw [(Device.endpointFor_spec this).2.1, this]
      have hres : Reserved d e th target none input
          (reservePayload host w d.objects e th.tid target input none).1 :=
        ⟨hf.endpoint, hf.thread, htarget, fun n hn => (by cases hn), herr, hroom, ω, host, w, _, rfl⟩
      split
      next h0 => exact refusePayload_noted C h hres h0 fun _ => rfl
      next h0 =>
        exact .consumed (C.step h (.reply hres (by omega) (by simpa using hdead) ht)
          (.of_cons rfl trivial))

/-- The steps of a packet keep what is closed, and note the packet if it is consumed. -/
theorem transferPacket_noted (C : Closed P) (host : Host ω) (w : ω) (h : P d) {e : Endpoint} {th : Thread}
    (hf : Found d e th) (address : Nat) (reply : Bool) :
    Noted P e th reply (transferPacket host w d e th address reply).1
      (transferPacket host w d e th address reply).2.1 := by
  have hstop : ∀ c : Int, c ≠ 0 → Noted P e th reply c d := fun c hc => .refused h hc
  simp only [transferPacket]
  split; · exact hstop (-95) (by decide)
  split; · exact hstop (-14) (by decide)
  split; · exact hstop (-22) (by decide)
  split; · exact hstop (-95) (by decide)
  split; · exact hstop (-12) (by decide)
  next hbusy =>
    simp only [not_or, Option.not_isSome_iff_eq_none] at hbusy
    split
    next hreply => exact hreply ▸ transferReply_noted C h hf hbusy.1 hbusy.2.2
    next hreply =>
      rw [show reply = false by simpa using hreply]
      exact transferCall_noted C h hf hbusy.1 hbusy.2.2

/-- The command of a packet keeps what is closed. -/
theorem packetCommand_kept (C : Closed P) (h : P d) {e : Endpoint} {th : Thread} (hf : Found d e th)
    (address : Nat) (reply : Bool) : P (packetCommand host w d e th address reply).2.1 := by
  have hn := transferPacket_noted C host w h hf address reply
  simp only [packetCommand]
  split
  next h0 => rwa [Noted, if_pos h0] at hn
  next h0 => rwa [Noted, if_neg h0] at hn

/-! ## Write commands -/

/-- An update of one thread that calls and parcels do not notice. -/
theorem Thread.Tuned.updateThread {f : Thread → Thread} (hf : ∀ th : Thread, th.Tuned (f th))
    (tid : Int) : Endpoint.Tuned fun e =>
      { e with threads := update (fun t => t.tid == tid) f e.threads } where
  token _ := rfl
  uid _ := rfl
  arena _ := rfl
  threads := by
    refine ⟨fun t => if t.tid == tid then f t else t, fun t => ?_, fun _ => rfl⟩
    beta_reduce
    split
    · exact hf t
    · exact ⟨rfl, rfl, rfl, rfl, rfl, rfl⟩

/-- An update of fields other than token, user, arena and threads. -/
theorem Endpoint.Tuned.of_eq {f : Endpoint → Endpoint} (ht : ∀ e, (f e).token = e.token)
    (hu : ∀ e, (f e).uid = e.uid) (ha : ∀ e, (f e).arena = e.arena) (hs : ∀ e, (f e).threads = e.threads) :
    Endpoint.Tuned f :=
  ⟨ht, hu, ha, id, fun _ => ⟨rfl, rfl, rfl, rfl, rfl, rfl⟩, fun e => by rw [hs]; simp⟩

/-- Settings of a thread keep what is closed. -/
theorem updateThread_kept (C : Closed P) (h : P d) {f : Thread → Thread}
    (hf : ∀ th : Thread, th.Tuned (f th)) (token : Nat) (tid : Int) :
    P (d.updateThread token tid f) :=
  C.step h (.tune token (Thread.Tuned.updateThread hf tid)) (.same rfl)

/-- BC_FREE_BUFFER keeps what is closed. -/
theorem freeCommand_kept (C : Closed P) (h : P d) {e : Endpoint}
    (he : d.endpointFor e.token = some e) (address : Nat) :
    P (freeCommand host w d e address).2.1 := by
  simp only [freeCommand]
  split; · exact h
  split; · exact h
  obtain ⟨_, _, _, ⟨new, hh, hnew⟩, _⟩ := Device.freePacket_frame d e _
  exact C.step h (.free _ he) (.of_append hh fun event hmem => by rw [hnew event hmem]; trivial)

/-- The commands of reference counts keep what is closed. -/
theorem referenceCommand_kept (C : Closed P) (h : P d) {e : Endpoint}
    (he : d.endpointFor e.token = some e) (address : Nat) (increment strong : Bool) :
    P (referenceCommand host w d e address increment strong).2.1 := by
  simp only [referenceCommand]
  split; · exact h
  split; · exact h
  exact C.step h (.refer _ increment strong he (field_lt _ _ 4)) (.same rfl)

/-- The acknowledgements of node counts keep what is closed. -/
theorem nodeDoneCommand_kept (C : Closed P) (h : P d) {e : Endpoint}
    (he : d.endpointFor e.token = some e) (address : Nat) (increfs : Bool) :
    P (nodeDoneCommand host w d e address increfs).2.1 := by
  simp only [nodeDoneCommand]
  split; · exact h
  split; · exact h
  split; · exact h
  next hnode => exact C.step h (.nodeDone increfs he hnode) (.of_cons rfl trivial)

/-- BC_DEAD_BINDER_DONE keeps what is closed. -/
theorem doneDeathCommand_kept (C : Closed P) (h : P d) {e : Endpoint} {th : Thread}
    (he : d.endpointFor e.token = some e) (address : Nat) :
    P (doneDeathCommand host w d e th address).2.1 := by
  simp only [doneDeathCommand]
  split; · exact h
  split; · exact h
  exact C.step h (.doneDeath _ he) (calm_recordSlot rfl fun _ => trivial)

/-- The requests and clearings of death notifications keep what is closed. -/
theorem deathCommand_kept (C : Closed P) (h : P d) {e : Endpoint} {th : Thread}
    (he : d.endpointFor e.token = some e) (address : Nat) (request : Bool) :
    P (deathCommand host w d e th address request).2.1 := by
  simp only [deathCommand]
  split; · exact h
  split; · exact h
  split; · exact h
  next href =>
    split
    · exact C.step h (.requestDeath _ he href) (calm_recordSlot rfl fun _ => trivial)
    · exact C.step h (.clearDeath _ he href) (calm_recordSlot rfl fun _ => trivial)

/-- Every command keeps what is closed. -/
theorem command_kept (C : Closed P) (host : Host ω) (w : ω) (h : P d) {e : Endpoint} {th : Thread} (hf : Found d e th)
    (address : Nat) : P (command host w d e th address).device := by
  have hlooper : ∀ f : Thread → Thread, (∀ th : Thread, th.Tuned (f th)) →
      P (d.updateThread e.token th.tid f) :=
    fun f hf => updateThread_kept C h hf _ _
  simp only [command]
  split; · exact h
  split
  · exact hlooper _ fun _ => ⟨rfl, rfl, rfl, rfl, rfl, rfl⟩
  · exact hlooper _ fun _ => ⟨rfl, rfl, rfl, rfl, rfl, rfl⟩
  · exact hlooper _ fun _ => ⟨rfl, rfl, rfl, rfl, rfl, rfl⟩
  · exact packetCommand_kept C h hf _ _
  · exact packetCommand_kept C h hf _ _
  · exact freeCommand_kept C h hf.endpoint _
  iterate 4 exact referenceCommand_kept C h hf.endpoint _ _ _
  iterate 2 exact deathCommand_kept C h hf.endpoint _ _
  · exact doneDeathCommand_kept C h hf.endpoint _
  iterate 2 exact nodeDoneCommand_kept C h hf.endpoint _ _
  split <;> exact h

/-- A write buffer keeps what is closed, command by command. -/
theorem writeLoop_kept (C : Closed P) (h : P d) (token : Nat) (tid : Int)
    (base size rounds consumed : Nat) :
    P (writeLoop host token tid base size rounds consumed d w).device := by
  induction rounds generalizing consumed d w with
  | zero => exact h
  | succ rounds ih =>
    simp only [writeLoop]
    split
    next e th he hth =>
      split; · exact h
      split; · exact h
      have hr := command_kept C host w h (.of_threadFor he hth) (base + consumed)
      split
      · exact hr
      · exact ih hr _
    next => exact h

/-! ## Reads -/

/-- A delivered record keeps what is closed. -/
theorem deliver_kept (C : Closed P) (h : P d) {e : Endpoint} {th : Thread} (hf : Found d e th)
    {record : Record} (hr : d.nextRecord e.token th = some record) :
    P (d.deliver e th record).2 :=
  C.step h (.deliver hf.endpoint hf.thread hr) (calm_deliver d e th record)

/-- A chosen record is always delivered. -/
theorem deliver_ok (h : d.Reachable) {e : Endpoint} {th : Thread} (hf : Found d e th)
    {record : Record} (hr : d.nextRecord e.token th = some record) :
    (d.deliver e th record).1 = 0 := by
  by_cases hwork : ∃ index w, record = .work index w
  · obtain ⟨index, w, rfl⟩ := hwork
    rcases Device.nextRecord_cases hr with ⟨_, _, hrec⟩ | ⟨_, _, _, _, hrec⟩ | ⟨_, _, hrec⟩ |
      ⟨_, _, j, w', hfor, hw, hrec⟩ | ⟨_, _, _, _, _, hrec⟩
    all_goals cases hrec
    obtain ⟨_, _, hd⟩ := h.parcelInv.delivered h.callInv hf.endpoint hfor hw
    simp only [Device.deliver]
    rw [hd]
  · exact (Device.deliver_frame d e th fun index w heq => hwork ⟨index, w, heq⟩).1

/-- The read loop passes through reachable devices and never ends with `-5`. -/
theorem readLoop_kept (C : Closed P) (h : P d) (token : Nat) (tid : Int)
    (address size rounds consumed : Nat) :
    P (readLoop host token tid address size rounds consumed d w).device ∧
      (readLoop host token tid address size rounds consumed d w).result ≠ -5 := by
  induction rounds generalizing consumed d w with
  | zero => exact ⟨h, by simp [readLoop]⟩
  | succ rounds ih =>
    simp only [readLoop]
    split
    next e th he hth =>
      have hf := Found.of_threadFor he hth
      split; · exact ⟨h, by simp⟩
      split; · exact ⟨h, by simp⟩
      next record hrec =>
        rw [← (Device.endpointFor_spec he).2.1] at hrec
        have hr := deliver_kept C h hf hrec
        have hok := deliver_ok (C.reachable h) hf hrec
        split; · exact ⟨h, by simp⟩
        split; · exact ⟨h, by simp⟩
        split
        next h0 => exact absurd hok h0
        next =>
          split
          · exact ⟨hr, by simp⟩
          · exact ih hr _
    next => exact ⟨h, by simp⟩

/-- A read that finds work keeps what is closed, and does not fail with an I/O error. -/
theorem readWork_kept (C : Closed P) (host : Host ω) (w : ω) (h : P d) (e : Endpoint) (th : Thread) (header : Header) :
    P (readWork host w d e th header).device ∧
      (readWork host w d e th header).result ≠ -5 := by
  simp only [readWork]
  split; · exact ⟨h, by simp⟩
  split; · exact ⟨h, by simp⟩
  split; · exact ⟨h, by simp⟩
  split; · exact ⟨h, by simp⟩
  split; · exact ⟨h, by simp⟩
  split; · exact ⟨h, by simp⟩
  exact readLoop_kept C h _ _ _ _ _ _

/-! ## Reaping -/

/-- The cancellation of a thread's transactions leaves the identities. -/
theorem SameIds.cancelTransactions {d : Device} {token : Nat} {tid : Int} :
    SameIds d (d.cancelTransactions token tid) := by
  unfold Device.cancelTransactions
  refine trans ?_ dropWorks
  generalize d.transactions.filter (Device.cancelMatches token tid) = l
  induction l generalizing d with
  | nil => exact refl d
  | cons t ts ih => exact cancelTransaction.trans ih

/-- The release of an endpoint leaves the counter of tokens. -/
theorem releaseEndpoint_nextToken (d : Device) (token : Nat) :
    (d.releaseEndpoint token).nextToken = d.nextToken := by
  have hsame : SameIds (d.record (.teardown token 0))
      ((d.record (.teardown token 0)).cancelTransactions token) := .cancelTransactions
  rw [Device.releaseEndpoint, retire_nextToken, hsame.1]
  rfl

/-- The tokens a reap has yet to visit were handed out. -/
theorem reapFrom_kept (C : Closed P) (h : P d) (l : List Endpoint)
    (hl : ∀ e ∈ l, e.token ≠ 0 → Issued d.nextToken e.token) : P (reapFrom host l d w).2.1 := by
  induction l generalizing d w with
  | nil => exact h
  | cons e rest ih =>
    have hrest := fun x hx => hl x (List.mem_cons_of_mem e hx)
    simp only [reapFrom]
    split
    · exact ih h hrest
    next hgone =>
      split
      · exact ih h hrest
      · have h0 : e.token ≠ 0 := fun h0 => hgone (.inl h0)
        refine ih (C.release h h0 (hl e List.mem_cons_self h0)) fun x hx hx0 => ?_
        rw [releaseEndpoint_nextToken]
        exact hrest x hx hx0

/-- The reaping of closed endpoints keeps what is closed. -/
theorem reapClosed_kept (C : Closed P) (host : Host ω) (w : ω) (h : P d) : P (reapClosed host w d).2.1 :=
  reapFrom_kept C h _ (C.reachable h).endpointIds.issued

/-! ## Ioctls -/

/-- What a call leaves behind, finished or asleep. -/
def Outcome.device : Outcome ω → Device
  | .done _ d _ => d
  | .sleep _ d _ => d

/-- The admission of a thread keeps what is closed. -/
theorem admitThread_kept {d' : Device} (C : Closed P) (h : P d) {e : Endpoint} {tid : Int}
    (he : d.endpointFor e.token = some e) (hpos : 0 < tid) (ha : d.admitThread e tid = some d') :
    P d' :=
  C.step h (.admission he hpos ha) (.same (Device.admitThread_frame ha).2.2.2.1)

/-- A thread that begins a call keeps what is closed. -/
theorem enter_kept (C : Closed P) (h : P d) (token : Nat) (tid : Int) :
    P (d.enter token tid) := by
  have h1 : P (d.updateThread token tid fun t => { t with active := true }) :=
    updateThread_kept C h (f := fun t => { t with active := true })
      (fun _ => ⟨rfl, rfl, rfl, rfl, rfl, rfl⟩) token tid
  refine C.step h1 (.tune token (f := fun e => { e with activeCalls := e.activeCalls + 1 }) ?_)
    (.same rfl)
  exact .of_eq (fun _ => rfl) (fun _ => rfl) (fun _ => rfl) fun _ => rfl

/-- A thread that ends a call keeps what is closed. -/
theorem leave_kept (C : Closed P) (h : P d) (token : Nat) (tid : Int) :
    P (d.leave token tid) := by
  have h1 : P (d.updateThread token tid fun t =>
      { t with initialReturn := false, active := false }) :=
    updateThread_kept C h (f := fun t => { t with initialReturn := false, active := false })
      (fun _ => ⟨rfl, rfl, rfl, rfl, rfl, rfl⟩) token tid
  refine C.step h1 (.tune token (f := fun e => { e with activeCalls := e.activeCalls - 1 }) ?_)
    (.same rfl)
  exact .of_eq (fun _ => rfl) (fun _ => rfl) (fun _ => rfl) fun _ => rfl

/-- The end of BINDER_WRITE_READ keeps what is closed. -/
theorem finishWriteRead_kept (C : Closed P) (h : P d) (s : Sleeper) (vm : Nat) (header : Header)
    (result : Int) : P (finishWriteRead host s vm header result d w).device := by
  simp only [finishWriteRead]
  split <;> exact leave_kept C h _ _

/-- A read that waits keeps what is closed. -/
theorem readWait_kept (C : Closed P) (h : P d) (s : Sleeper) (e : Endpoint) (interrupted : Bool) :
    P (readWait host s e interrupted d w).device := by
  simp only [readWait, finishRead]
  split; · exact finishWriteRead_kept C h _ _ _ _
  next th _ =>
    have hr := (readWork_kept C host w h e th s.header).1
    split; · exact finishWriteRead_kept C hr _ _ _ _
    split
    · exact finishWriteRead_kept C hr _ _ _ _
    · exact hr

/-- A read that is woken keeps what is closed. -/
theorem wake_kept (C : Closed P) (h : P d) (s : Sleeper) (interrupted : Bool) :
    P (wake host s interrupted d w).device := by
  have hr := reapClosed_kept C host w h
  simp only [wake, finishRead]
  split; · exact hr
  split; · exact finishWriteRead_kept C hr _ _ _ _
  split; · exact finishWriteRead_kept C hr _ _ _ _
  split; · exact finishWriteRead_kept C hr _ _ _ _
  split
  · exact finishWriteRead_kept C (readWork_kept C _ _ hr _ _ _).1 _ _ _ _
  · exact hr

/-- BINDER_WRITE_READ keeps what is closed. -/
theorem writeRead_kept (C : Closed P) (h : P d) (e : Endpoint) (tid : Int) (argument : Nat)
    (interruptible interrupted : Bool) :
    P (writeRead host w d e tid argument interruptible interrupted).device := by
  simp only [writeRead]
  split; · exact leave_kept C h _ _
  next bytes w' _ =>
    obtain ⟨written, hwritten, hw⟩ : ∃ written : CommandResult ω,
        (if 65536 < (Header.ofBytes bytes.1).writeSize then
          (⟨-7, (Header.ofBytes bytes.1).writeConsumed, d, w'⟩ : CommandResult ω)
        else writeLoop host e.token tid (Header.ofBytes bytes.1).writeBuffer
          (Header.ofBytes bytes.1).writeSize (Header.ofBytes bytes.1).writeSize
          (Header.ofBytes bytes.1).writeConsumed d w') = written ∧ P written.device := by
      refine ⟨_, rfl, ?_⟩
      split
      · exact h
      · exact writeLoop_kept C h _ _ _ _ _ _
    rw [hwritten]
    split; · exact finishWriteRead_kept C hw _ _ _ _
    split
    · exact readWait_kept C hw _ _ _
    · exact finishWriteRead_kept C hw _ _ _ _

/-- The endpoint an ioctl found at its start, as far as its requests go. -/
def Entered (d : Device) (e : Endpoint) : Prop :=
  ∃ e', d.endpointFor e.token = some e' ∧ e'.token = e.token ∧ e'.uid = e.uid

/-- The endpoint that an ioctl found is still there after an update that keeps token and UID. -/
theorem Entered.updateEndpoint {e : Endpoint} (h : Entered d e) {k : Nat} {f : Endpoint → Endpoint}
    (ht : ∀ e : Endpoint, (f e).token = e.token) (hu : ∀ e : Endpoint, (f e).uid = e.uid) :
    Entered (d.updateEndpoint k f) e := by
  obtain ⟨e', he', htok, huid⟩ := h
  refine ⟨_, by rw [Device.endpointFor_updateEndpoint ht, he']; rfl, ?_, ?_⟩ <;> dsimp only <;> split
  · exact (ht e').trans htok
  · exact htok
  · exact (hu e').trans huid
  · exact huid

/-- The endpoint that an ioctl found is still there when a thread was admitted. -/
theorem Entered.admitThread {d' : Device} {e e0 : Endpoint} {tid : Int} (h : Entered d e)
    (ha : d.admitThread e0 tid = some d') : Entered d' e := by
  unfold Device.admitThread at ha
  split at ha
  · cases ha
    exact h
  · split at ha
    · cases ha
    · cases ha
      exact h.updateEndpoint (fun _ => rfl) fun _ => rfl

/-- The endpoint that an ioctl found is still there when its thread has entered. -/
theorem Entered.enter {e : Endpoint} (h : Entered d e) (token : Nat) (tid : Int) :
    Entered (d.enter token tid) e := by
  have h1 : Entered (d.updateThread token tid fun t => { t with active := true }) e :=
    h.updateEndpoint (fun _ => rfl) fun _ => rfl
  exact h1.updateEndpoint (fun _ => rfl) fun _ => rfl

/-- BINDER_SET_CONTEXT_MGR keeps what is closed. -/
theorem setContextMgr_kept (C : Closed P) (h : P d) {e : Endpoint} (he : Entered d e) (argument : Nat)
    (ext : Bool) : P (setContextMgr host w d e argument ext).2.1 := by
  obtain ⟨e', he', htok, huid⟩ := he
  rw [← htok] at he'
  have hstep : ∀ flags pointer cookie, pointer < 2 ^ 64 → cookie < 2 ^ 64 →
      P (d.setContextMgr e flags pointer cookie).2 := by
    intro flags pointer cookie hp hc
    have := C.step h (.setContextMgr flags pointer cookie he' hp hc)
      (.same (Device.setContextMgr_frame d e' flags pointer cookie).2.2.2.2)
    rw [Device.setContextMgr, htok, huid] at this
    exact this
  simp only [setContextMgr]
  split
  · split
    · exact h
    · exact hstep _ _ _ (field_lt _ _ 8) (field_lt _ _ 8)
  · exact hstep _ _ _ (by decide) (by decide)

/-- BINDER_SET_MAX_THREADS keeps what is closed. -/
theorem setMaxThreads_kept (C : Closed P) (h : P d) (e : Endpoint) (argument : Nat) :
    P (setMaxThreads host w d e argument).2.1 := by
  simp only [setMaxThreads]
  split
  · exact h
  next bytes _ _ =>
    refine C.step h (.tune e.token (f := fun e => { e with maxThreads := read32 bytes.1 0 }) ?_)
      (.same rfl)
    exact .of_eq (fun _ => rfl) (fun _ => rfl) (fun _ => rfl) fun _ => rfl

/-- The request of an ioctl keeps what is closed. -/
theorem invoke_kept (C : Closed P) (h : P d) {e : Endpoint} {tid : Int} (hpos : 0 < tid)
    (he : Entered d e) (request argument : Nat) (interruptible interrupted : Bool) :
    P (invoke host w d e tid request argument interruptible interrupted).device := by
  simp only [invoke]
  split
  · split <;> exact leave_kept C h _ _
  · exact leave_kept C (setMaxThreads_kept C h _ _) _ _
  · exact leave_kept C (setContextMgr_kept C h he _ _) _ _
  · exact leave_kept C (setContextMgr_kept C h he _ _) _ _
  · exact leave_kept C (C.exit _ h hpos) _ _
  · exact writeRead_kept C h _ _ _ _ _
  all_goals exact leave_kept C h _ _

/-- An ioctl keeps what is closed, its entry and its exit included. -/
theorem ioctl_kept (C : Closed P) (h : P d) (token : Nat) (tid : Int) (request argument : Nat)
    (ownerVm : Option Nat) (interrupted : Bool) :
    P (ioctl host w d token tid request argument ownerVm interrupted).device := by
  have hr := reapClosed_kept C host w h
  simp only [ioctl]
  split; · exact h
  next htid =>
  split; · exact h
  split; · exact hr
  split; · exact hr
  next e he =>
    have he := (Option.filter_eq_some_iff.1 he).1
    split; · exact hr
    split; · exact hr
    next d' ha =>
      have htok := (Device.endpointFor_spec he).2.1
      rw [← htok] at he
      have hadm := admitThread_kept C hr he (by omega) ha
      split; · exact hadm
      split
      · exact hadm
      · have hent : Entered (reapClosed host w d).2.1 e := ⟨e, he, rfl, rfl⟩
        exact invoke_kept C (enter_kept C hadm _ _) (by omega) ((hent.admitThread ha).enter _ _)
          _ _ _ _

/-! ## Entry points -/

/-- The open of an endpoint keeps what is closed. -/
theorem openDevice_kept (C : Closed P) (h : P d) (vm : Nat) (pid : Int) (uid : Nat) :
    P (openDevice host w d vm pid uid).2.1 := by
  have hr := reapClosed_kept C host w h
  simp only [openDevice]
  split; · exact h
  split; · exact hr
  split
  · exact hr
  next ho => exact C.step hr (.openEndpoint ho) (.same (Device.openEndpoint_frame ho).2.2.2.1)

/-- The close of an endpoint keeps what is closed. -/
theorem close_kept (C : Closed P) (h : P d) (token : Nat) : P (close host w d token).2.1 := by
  simp only [close]
  split; · exact h
  split; · exact h
  refine reapClosed_kept C _ _ (C.step h (.tune token (f := fun e => { e with opened := false, vm := 0 })
    ?_) (.same rfl))
  exact .of_eq (fun _ => rfl) (fun _ => rfl) (fun _ => rfl) fun _ => rfl

/-- The mode of an endpoint keeps what is closed. -/
theorem setNonblocking_kept (C : Closed P) (h : P d) (token : Nat) (enabled : Bool) :
    P (setNonblocking d token enabled).2 := by
  simp only [setNonblocking]
  split; · exact h
  refine C.step h (.tune token (f := fun e => { e with nonblocking := enabled }) ?_) (.same rfl)
  exact .of_eq (fun _ => rfl) (fun _ => rfl) (fun _ => rfl) fun _ => rfl

/-- The memory limit keeps what is closed. -/
theorem setMemory_kept (C : Closed P) (h : P d) (maximum page : Nat) :
    P (setMemory d maximum page).2 := by
  simp only [setMemory]
  split; · exact h
  split; · exact h
  split; · exact h
  exact C.step h (.configure maximum page) (.same rfl)

/-- The mapping of an arena keeps what is closed. -/
theorem mmap_kept (C : Closed P) (h : P d) (token address length prot flags offset : Nat) :
    P (mmap host w d token address length prot flags offset).2.1 := by
  have hr := reapClosed_kept C host w h
  simp only [mmap]
  split; · exact hr
  split; · exact hr
  split; · exact hr
  split; · exact hr
  next owner watch writable mapped _ _ =>
    refine C.step hr (.tune token ?_) (.same rfl)
    exact .of_eq (fun _ => rfl) (fun _ => rfl) (fun _ => rfl) fun _ => rfl

/-- A query of the readiness keeps what is closed. -/
theorem events_kept (C : Closed P) (h : P d) (token : Nat) (tid : Int) :
    P (events host w d token tid).2.1 := by
  have hr := reapClosed_kept C host w h
  simp only [events]
  split; · exact h
  split; · exact hr
  split; · exact hr
  next e he =>
    split; · exact hr
    split; · exact hr
    next d' ha =>
      have htok := (Device.endpointFor_spec he).2.1
      rw [← htok] at he
      have hadm := admitThread_kept C hr he (by omega) ha
      split; · exact hadm
      split <;> exact hadm

/-! ## Systems -/

/-- Who sleeps does not matter to the device. -/
theorem settle_device (sleepers : List Sleeper) (o : Outcome ω) :
    (System.settle sleepers o).2.device = o.device := by
  cases o <;> rfl

/-- Every entry point keeps what is closed. -/
theorem perform_kept (C : Closed P) {s : System ω} (h : P s.device) (call : Call) :
    P (s.perform host call).2.device := by
  cases call with
  | setMemory maximum page => exact setMemory_kept C h maximum page
  | openDevice vm pid uid => exact openDevice_kept C h vm pid uid
  | close token => exact close_kept C h token
  | setNonblocking token enabled => exact setNonblocking_kept C h token enabled
  | mmap token address length prot flags offset => exact mmap_kept C h _ _ _ _ _ _
  | events token tid => exact events_kept C h token tid
  | ioctl token tid request argument ownerVm interrupted =>
    simp only [System.perform]
    rw [settle_device]
    exact ioctl_kept C h _ _ _ _ _ _
  | wake i interrupted =>
    simp only [System.perform]
    split
    · exact h
    · rw [settle_device]
      exact wake_kept C h _ _

/-- What new devices satisfy and calls keep is true of the devices of a system's runs. -/
theorem system_kept (C : Closed P) (h0 : ∀ d, machine.init d → P d) {s : System ω}
    (h : (System.machine host).Reachable s) : P s.device := by
  refine h.inv (I := fun s => P s.device) (fun s hi => ?_) fun s s' hp hs => ?_
  · obtain ⟨endpoints, threads, w, hs⟩ := hi
    obtain ⟨d, hd, rfl⟩ := Option.map_eq_some_iff.1 hs
    exact h0 d ⟨endpoints, threads, hd⟩
  · rcases hs with ⟨call, rfl⟩ | ⟨w, rfl⟩
    · exact perform_kept C hp call
    · exact hp

/-- The devices of a system's runs are reachable. -/
theorem system_reachable {s : System ω} (h : (System.machine host).Reachable s) :
    s.device.Reachable :=
  system_kept closed_reachable (fun _ hi => .init hi) h

/-- The system after a list of calls. -/
theorem run_system {endpoints threads : Nat} {s : System ω}
    (h : System.start endpoints threads w = some s) (calls : List Call) :
    (System.machine host).Reachable (s.run host calls) := by
  have hr : (System.machine host).Reachable s := .init ⟨endpoints, threads, w, h⟩
  clear h
  unfold System.run
  induction calls generalizing s with
  | nil => exact hr
  | cons call calls ih => exact ih (hr.step (.inl ⟨call, rfl⟩))

/-- A replay is a run of a system. -/
theorem replay_system (script : Script) (calls : List Call) :
    ∃ s, (System.machine scriptHost).Reachable s ∧ s.device = replay script calls :=
  have hstart : System.start 2 4 script = some _ := rfl
  ⟨_, run_system hstart _, rfl⟩

/-- A script of calls leads to a reachable state. -/
theorem replay_reachable (script : Script) (calls : List Call) : (replay script calls).Reachable := by
  obtain ⟨s, hs, hd⟩ := replay_system script calls
  exact hd ▸ system_reachable hs

end Artbox.Binder
