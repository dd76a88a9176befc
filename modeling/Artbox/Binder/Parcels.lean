import Artbox.Binder.Calls
import Artbox.Binder.Payload
import Artbox.Lib.Trace

/-!
# Parcels from acceptance to delivery

Every queued item is the parcel of one acceptance, and its data and offset table lie
in a reserved buffer of the target's arena that no other item shares (`ParcelInv`).
Accepted, queued, delivered and dropped parcels add up (`Ledger`), so a parcel is
delivered at most once and is dropped only if it is not delivered.
-/

namespace Artbox.Binder

open Slots Trace

/-! ## What a buffer holds -/

/-- The arena of endpoint `k` has a reserved buffer at `x` that holds `data` and, from
`y` on, `offsets`. -/
def Device.Stores (d : Device) (k x y : Nat) (data offsets : List UInt8) : Prop :=
  ∃ a, d.arenaFor k = some a ∧ a.Stores x y data offsets

namespace Device

variable {d d' : Device} {k x y token : Nat} {tid : Int} {data offsets : List UInt8}

theorem Stores.congr (h : d.Stores k x y data offsets) (ha : d'.arenaFor k = d.arenaFor k) :
    d'.Stores k x y data offsets := by
  obtain ⟨a, hk, hs⟩ := h
  exact ⟨a, ha.trans hk, hs⟩

/-- An operation on another buffer of the device. -/
theorem Stores.updateArena (h : d.Stores k x y data offsets) {k' x' : Nat} {f : Arena → Arena}
    (hf : ∀ a : Arena, a.SameBut x' (f a)) (hne : k = k' → x ≠ x') :
    (d.updateArena k' f).Stores k x y data offsets := by
  obtain ⟨a, hk, hs⟩ := h
  by_cases hkk : k = k'
  · exact ⟨f a, by rw [arenaFor_updateArena, if_pos hkk, hk]; rfl, hs.sameBut (hf a) (hne hkk)⟩
  · exact ⟨a, by rw [arenaFor_updateArena, if_neg hkk, hk], hs⟩

theorem Stores.dropWork (h : d.Stores k x y data offsets) {w : Work}
    (hne : w.endpoint = k → w.value.dataBuffer ≠ x) :
    (dropWork token tid d w).Stores k x y data offsets :=
  (h.updateArena (fun _ => Arena.removeBuffer_sameBut) fun hk heq => hne hk.symm heq.symm).congr rfl

theorem Stores.foldl_dropWork {l : List Work} (h : d.Stores k x y data offsets)
    (hne : ∀ w ∈ l, w.endpoint = k → w.value.dataBuffer ≠ x) :
    (l.foldl (Device.dropWork token tid) d).Stores k x y data offsets := by
  induction l generalizing d with
  | nil => exact h
  | cons w ws ih =>
    exact ih (h.dropWork (hne w List.mem_cons_self)) fun w' hw' =>
      hne w' (List.mem_cons_of_mem _ hw')

theorem Stores.storeReservation {ω : Type} {host : Host ω} {w w' : ω} {o : Objects}
    {e target : Endpoint} {input : TransactionData} {node : Option Node} {r : Reservation}
    (h : d.Stores k x y data offsets) (ht : d.endpointFor target.token = some target)
    (hr : reservePayload host w o e tid target input node = (r, w')) :
    (d.storeReservation target.token r).Stores k x y data offsets := by
  obtain ⟨a, hk, hs⟩ := h
  by_cases hkk : k = target.token
  · rw [hkk, arenaFor_of ht] at hk
    obtain ⟨a', ha', hkeeps⟩ := reservePayload_keeps hr hk
    exact ⟨a', by rw [arenaFor_storeReservation (by simp [ht]), if_pos hkk, ha'], hs.keeps hkeeps⟩
  · exact ⟨a, by rw [arenaFor_storeReservation (by simp [ht]), if_neg hkk, hk], hs⟩

end Device

/-! ## Queued parcels -/

/-- Every queued item is an accepted parcel and has its buffer to itself. -/
structure ParcelInv (d : Device) : Prop where
  stored : ∀ w ∈ d.work, ∃ p, .accepted p ∈ d.history ∧ p.work = w ∧
    d.Stores w.endpoint w.value.dataBuffer w.value.offsetsBuffer p.data p.offsets
  distinct : ∀ w ∈ d.work, ∀ w' ∈ d.work, w.endpoint = w'.endpoint →
    w.value.dataBuffer = w'.value.dataBuffer → w = w'

namespace ParcelInv

variable {d d' : Device}

/-- A step that keeps what the buffers of the remaining items hold. -/
theorem keep (h : ParcelInv d) (hw : ∀ w ∈ d'.work, w ∈ d.work)
    (hh : ∃ new, d'.history = new ++ d.history)
    (hs : ∀ w ∈ d'.work, ∀ data offsets,
      d.Stores w.endpoint w.value.dataBuffer w.value.offsetsBuffer data offsets →
        d'.Stores w.endpoint w.value.dataBuffer w.value.offsetsBuffer data offsets) :
    ParcelInv d' := by
  obtain ⟨new, hh⟩ := hh
  refine ⟨fun w hmem => ?_, fun w hmem w' hmem' => h.distinct w (hw w hmem) w' (hw w' hmem')⟩
  obtain ⟨p, hp, hpw, hst⟩ := h.stored w (hw w hmem)
  exact ⟨p, by rw [hh]; exact List.mem_append_right _ hp, hpw, hs w hmem _ _ hst⟩

/-- A step that leaves queue and arenas alone. -/
theorem quiet (h : ParcelInv d) (hw : d'.work = d.work)
    (hh : ∃ new, d'.history = new ++ d.history) (ha : ∀ k, d'.arenaFor k = d.arenaFor k) :
    ParcelInv d' :=
  h.keep (fun _ hmem => hw ▸ hmem) hh fun _ _ _ _ hst => hst.congr (ha _)

/-- An acceptance: the new parcel is stored where no buffer was. -/
theorem accept (h : ParcelInv d) {e target : Endpoint} {th : Thread} {node : Option Node}
    {input : TransactionData} {r : Reservation} (hr : Reserved d e th target node input r)
    (h0 : r.result = 0) {p : Parcel} (hd : p.data = r.data) (ho : p.offsets = r.offsets)
    (hwe : p.work.endpoint = target.token) (hwb : p.work.value.dataBuffer = r.buffer.address)
    (hwo : p.work.value.offsetsBuffer = r.buffer.offsetsAddress)
    (hw : d'.work = d.work ++ [p.work]) (hh : ∃ e, d'.history = e :: .accepted p :: d.history)
    (ha : ∀ k, d'.arenaFor k = (d.storeReservation target.token r).arenaFor k) : ParcelInv d' := by
  obtain ⟨ω, host, w, w', hres⟩ := hr.result
  obtain ⟨arena, held, hacc⟩ := reservePayload_ok hres h0
  obtain ⟨a', ha', hkeeps, hfresh, _, hst⟩ := hacc.stores
  obtain ⟨ev, hh⟩ := hh
  have hold : ∀ x ∈ d.work, x.endpoint = target.token → x.value.dataBuffer ≠ r.buffer.address := by
    intro x hx hxe heq
    obtain ⟨_, _, _, a, hax, hs⟩ := h.stored x hx
    obtain ⟨s, hs, haddr, _⟩ := hs.slot
    rw [hxe, Device.arenaFor_of hr.targetFound] at hax
    have : receiveArena target = some a := by simp [receiveArena, hax]
    rw [hacc.arenaFound] at this
    cases this
    exact hfresh s hs (haddr.trans heq)
  have hmem : ∀ x ∈ d'.work, x ∈ d.work ∨ x = p.work := by
    intro x hx
    rw [hw] at hx
    exact (List.mem_append.1 hx).imp_right List.mem_singleton.1
  refine ⟨fun x hx => ?_, fun x hx x' hx' he hb => ?_⟩
  · rcases hmem x hx with hx | rfl
    · obtain ⟨q, hq, hqw, hst⟩ := h.stored x hx
      exact ⟨q, by rw [hh]; simp [hq], hqw, (hst.storeReservation hr.targetFound hres).congr (ha _)⟩
    · refine ⟨p, by rw [hh]; simp, rfl, a', ?_, ?_⟩
      · rw [ha, hwe, Device.arenaFor_storeReservation (by simp [hr.targetFound]), if_pos rfl, ha']
      · rw [hwb, hwo, hd, ho]
        exact hst
  · rcases hmem x hx with hx | rfl <;> rcases hmem x' hx' with hx' | rfl
    · exact h.distinct x hx x' hx' he hb
    · exact absurd (hb.trans hwb) (hold x hx (he.trans hwe))
    · exact absurd (hb.symm.trans hwb) (hold x' hx' (he.symm.trans hwe))
    · rfl

open Device

theorem free (h : ParcelInv d) {e : Endpoint} (he : d.endpointFor e.token = some e) (buffer : Nat) :
    ParcelInv (d.freePacket e buffer).2 := by
  obtain ⟨hw, _, _, ⟨new, hh, _⟩, _⟩ := freePacket_frame d e buffer
  refine h.keep (fun w hmem => hw ▸ hmem) ⟨new, hh⟩ fun w hmem data offsets hst => ?_
  unfold freePacket
  split
  · exact hst
  next arena harena =>
    split
    · exact hst
    next hrel =>
      have hsame : ∀ a : Arena, a.SameBut buffer (a.release buffer).2 := fun _ =>
        Arena.removeBuffer_sameBut
      refine Stores.congr (hst.updateArena hsame fun hk hx => ?_) rfl
      -- the released buffer was delivered, a queued item's is not
      obtain ⟨a, ha, hs⟩ := hst
      obtain ⟨s, hs, haddr, _, hdel, _⟩ := hs.slot
      rw [hk, arenaFor_of he, harena] at ha
      cases ha
      obtain ⟨r, a', hr⟩ : ∃ r a', arena.removeBuffer buffer true = (r, a') := ⟨_, _, rfl⟩
      have h0 : r = 0 := by
        have : (arena.release buffer).1 = 0 := by omega
        rw [Arena.release, hr] at this
        exact this
      obtain ⟨⟨s', hs', haddr', hdel'⟩, _⟩ := (Arena.removeBuffer_spec hr).2.2.1 h0
      rw [arena.laid.eq_of_address hs hs' (haddr.trans (hx.trans haddr'.symm)), hdel'] at hdel
      cases hdel

/-- Delivering the parcel that `work_for` found does not fail. -/
theorem delivered (h : ParcelInv d) (hc : CallInv d) {e : Endpoint} {th : Thread} {index : Nat}
    {w : Work} (he : d.endpointFor e.token = some e) (hfor : d.workFor e.token th = some index)
    (hw : d.work[index]? = some w) :
    w ∈ d.work ∧ d.workReady e.token th false w = true ∧ d.deliverWork e th index w =
      (0, { (d.updateArena e.token fun a => (a.publish w.value.dataBuffer).2).serve e.token th.tid
          w.transaction with work := d.work.eraseIdx index }.record
        (.delivered e.token th.tid d.work w)) := by
  obtain ⟨w', hw', hready, _⟩ := workFor_spec hfor
  rw [hw] at hw'
  cases hw'
  have hwmem := List.mem_of_getElem? hw
  refine ⟨hwmem, hready, ?_⟩
  obtain ⟨_, _, _, a, ha, hst⟩ := h.stored w hwmem
  obtain ⟨s, hs, haddr, _, hdel, _⟩ := hst.slot
  rw [(CallInv.ready_thread hready).1, arenaFor_of he] at ha
  have hpub : (a.publish w.value.dataBuffer).1 = 0 := (Arena.publish_spec rfl).2.2.1 s hs haddr hdel
  unfold deliverWork
  rw [if_neg (by simp [ha, hpub]), if_neg]
  rintro ⟨h0, hnone⟩
  obtain ⟨t, ht, _⟩ := hc.work w hwmem h0
  rw [ht] at hnone
  cases hnone

theorem deliver (h : ParcelInv d) (hc : CallInv d) (hq : d.work.Nodup) {e : Endpoint} {th : Thread}
    {record : Record} (he : d.endpointFor e.token = some e)
    (hr : d.nextRecord e.token th = some record) : ParcelInv (d.deliver e th record).2 := by
  by_cases hwork : ∃ index w, record = .work index w
  · obtain ⟨index, w, rfl⟩ := hwork
    rcases nextRecord_cases hr with ⟨_, _, hrec⟩ | ⟨_, _, _, _, hrec⟩ | ⟨_, _, hrec⟩ |
      ⟨_, _, j, w', hfor, hw, hrec⟩ | ⟨_, _, _, _, _, hrec⟩
    all_goals cases hrec
    obtain ⟨hwmem, hready, hd⟩ := h.delivered hc he hfor hw
    have hwe := (CallInv.ready_thread hready).1
    have hmem := mem_eraseIdx hq hw
    simp only [Device.deliver]
    rw [hd]
    refine h.keep (fun x hx => ((hmem x).1 hx).1) ?_ fun x hx data offsets hst => ?_
    · exact ⟨[.delivered e.token th.tid d.work w], by simp⟩
    · obtain ⟨hx, hne⟩ := (hmem x).1 hx
      have hsame : ∀ a : Arena, a.SameBut w.value.dataBuffer (a.publish w.value.dataBuffer).2 :=
        fun _ => (Arena.publish_spec rfl).1
      have hpub := hst.updateArena hsame fun (hk : x.endpoint = e.token) hb =>
        hne (h.distinct x hx w hwmem (hk.trans hwe.symm) hb)
      exact hpub.congr (arenaFor_serve _ _ _ _)
  · obtain ⟨_, hw, _, _, ⟨event, hh⟩, ha⟩ :=
      deliver_frame d e th fun index w heq => hwork ⟨index, w, heq⟩
    exact h.quiet hw ⟨[event], hh⟩ ha

theorem cancel (h : ParcelInv d) (hq : d.work.Nodup) (token : Nat) (tid : Int) (t : Transaction) :
    ParcelInv (cancelTransaction token tid d t) := by
  obtain ⟨_, hwork, _, _, _, new, hh, _⟩ := cancelTransaction_frame d token tid t
  have hends := cancelEnds_frame d t
  refine h.keep (fun w hw => ((hwork hq w).1 hw).1) ⟨_, hh.trans (List.append_assoc ..).symm⟩
    fun w hw data offsets hst => ?_
  · obtain ⟨hw, hne⟩ := (hwork hq w).1 hw
    have hst' : ((d.cancelCaller t).cancelServer t).Stores w.endpoint w.value.dataBuffer
        w.value.offsetsBuffer data offsets := hst.congr (hends.2.2.2.2.2.2 _)
    have hdrop : (((d.work.filter fun w => w.transaction == t.id).foldl (Device.dropWork token tid)
        ((d.cancelCaller t).cancelServer t))).Stores w.endpoint w.value.dataBuffer
          w.value.offsetsBuffer data offsets := hst'.foldl_dropWork fun x hx he hb => by
        rw [h.distinct x (List.mem_filter.1 hx).1 w hw he hb] at hx
        exact hne (by simpa using (List.mem_filter.1 hx).2)
    refine Stores.congr ?_ (arenaFor_endTransaction _ _)
    rw [dropWorks, hends.1]
    exact hdrop

theorem step (h : ParcelInv d) (hi : EndpointIds d) (hq : QueueIds d) (hc : CallInv d)
    (hs : Step d d') : ParcelInv d' := by
  cases hs with
  | configure | refer => exact h.quiet rfl ⟨[], rfl⟩ fun _ => rfl
  | openEndpoint ho =>
    obtain ⟨_, hw, _, hh, _⟩ := openEndpoint_frame ho
    exact h.quiet hw ⟨[], hh⟩ fun _ => (hi.lookups_openEndpoint (i := 0) ho).2
  | tune _ hf => exact h.quiet rfl ⟨[], rfl⟩ fun _ => arenaFor_tune hf
  | admission _ _ ha =>
    obtain ⟨_, hw, _, hh, _⟩ := admitThread_frame ha
    exact h.quiet hw ⟨[], hh⟩ fun _ => arenaFor_admitThread ha
  | setContextMgr flags pointer cookie =>
    obtain ⟨he, hw, _, _, hh⟩ := setContextMgr_frame d _ flags pointer cookie
    exact h.quiet hw ⟨[], hh⟩ fun _ => arenaFor_congr he _
  | nodeDone | teardown => exact h.quiet rfl ⟨[_], rfl⟩ fun _ => rfl
  | requestDeath | clearDeath | doneDeath =>
    simp only [requestDeath, clearDeath, doneDeath]
    obtain ⟨he, hw, _, _, _, new, hh, _⟩ := recordSlot_frame _ _ _
    exact h.quiet hw ⟨new, hh⟩ fun _ => arenaFor_congr he _
  | free buffer he => exact h.free he buffer
  | refuse => exact h.quiet rfl ⟨[_, _], rfl⟩ fun _ => arenaFor_updateThread _
  | bounce =>
    exact h.quiet rfl ⟨[_, _], rfl⟩ fun _ =>
      (arenaFor_updateThread _).trans (arenaFor_updateThread _)
  | reserve hr =>
    obtain ⟨ω, host, w, w', hres⟩ := hr.result
    exact h.keep (fun _ hw => hw) ⟨[], rfl⟩ fun _ _ _ _ hst =>
      hst.storeReservation hr.targetFound hres
  | @reply e th target t input r hr h0 _ ht =>
    obtain ⟨_, _, htarget, _⟩ := replyTarget_spec ht
    refine h.accept hr h0 (p := ⟨e.token, th.tid, t.id, replyWork d.history.length e t input r,
      r.sent, r.data, r.offsets, r.nodes⟩) rfl rfl (endpointFor_spec htarget).2.1.symm rfl rfl rfl
      ⟨_, rfl⟩ fun k => ?_
    exact (arenaFor_updateThread _).trans ((arenaFor_updateThread _).trans (arenaFor_updateThread _))
  | @oneway e th target node input r hr h0 =>
    refine h.accept hr h0 (p := ⟨e.token, th.tid, 0, onewayWork d.history.length e target.token node
      input r, r.sent, r.data, r.offsets, r.nodes⟩) rfl rfl rfl rfl rfl rfl ⟨_, rfl⟩ fun k => ?_
    exact arenaFor_updateThread _
  | @call e th target node input r hr h0 =>
    refine h.accept hr h0 (p := ⟨e.token, th.tid, 0, callWork d.history.length e d.nextTransaction
      target.token node input r, r.sent, r.data, r.offsets, r.nodes⟩) rfl rfl rfl rfl rfl rfl
      ⟨_, rfl⟩ fun k => ?_
    exact (arenaFor_updateThread _).trans (arenaFor_updateThread _)
  | deliver he _ hr => exact h.deliver hc hq.nodup he hr
  | cancel => exact h.cancel hq.nodup _ _ _
  | @drop token tid w _ _ hw =>
    refine h.keep (fun _ hx => List.mem_of_mem_erase hx) ⟨[_], rfl⟩ fun x hx data offsets hst => ?_
    obtain ⟨hne, hx⟩ := hq.nodup.mem_erase_iff.1 hx
    exact hst.dropWork fun he hb => hne (h.distinct w hw x hx he hb).symm
  | erase => exact h.quiet rfl ⟨[_], rfl⟩ fun _ => arenaFor_eraseThread
  | @retire token _ _ _ hwork =>
    obtain ⟨_, hw, hh, _⟩ : _ ∧ (d.retire token).work = d.work ∧ _ := retire_frame
    refine h.keep (fun _ hx => hw ▸ hx) ⟨[_], hh⟩ fun x hx data offsets hst => hst.congr ?_
    rw [arenaFor_retire, if_neg]
    intro hk
    have := hwork x (hw ▸ hx)
    simp [workMatches, hk] at this

end ParcelInv

theorem Device.Reachable.parcelInv {d : Device} (h : d.Reachable) : ParcelInv d := by
  refine h.inv_of (J := fun d => d.Reachable) (fun _ h => h) (fun d hi => ?_) fun _ _ hr hinv =>
    hinv.step hr.endpointIds hr.queueIds hr.callInv
  obtain ⟨_, _, hw, _⟩ := machine_init hi
  exact ⟨by simp [hw], by simp [hw]⟩

end Artbox.Binder
