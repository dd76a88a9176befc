import Artbox.Binder.Oneway

/-!
# One-way calls in order

What the gates of the nodes (`Gates`) say about runs: the one-way parcels of a node are
delivered in the order of their acceptance and none is passed over, at most one of them is
with the node or may be delivered to it, and the node never waits for a buffer that nobody
has. It is said of the devices of a system's runs, where no release is under way.
-/

namespace Artbox.Binder

open Slots Trace Objects

/-! ## The active parcel -/

/-- The parcel was delivered and is not freed, or may be delivered. -/
def Device.Current (d : Device) (w : Work) : Prop :=
  Outstanding w d.history ∨ w ∈ d.work ∧ d.asyncReady w = true

section Current

variable {d : Device} {w w' : Work}

theorem Device.asyncReady_iff (h0 : w.asyncNode ≠ 0) : d.asyncReady w = true ↔
    ∃ n, d.objects.nodeFor w.asyncNode = some n ∧ n.asyncBuffer = w.value.dataBuffer := by
  unfold asyncReady
  rw [show (w.asyncNode == 0) = false by simpa using h0, Bool.false_or]
  cases d.objects.nodeFor w.asyncNode with
  | none => simp
  | some n => simp

/-- The node of a current parcel has its buffer. -/
theorem Device.Current.node (h : d.Reachable) (hc : d.Current w) (h0 : w.asyncNode ≠ 0) :
    ∃ n, d.objects.nodeFor w.asyncNode = some n ∧ n.owner = w.endpoint ∧
      n.asyncBuffer = w.value.dataBuffer := by
  have hmem : w ∈ d.work ∨ Outstanding w d.history := hc.symm.imp And.left id
  obtain ⟨n, hn, how⟩ := (h.gates.holds w hmem h0).node h.accounts
  refine ⟨n, hn, how, ?_⟩
  rcases hc with hc | ⟨_, hc⟩
  · exact h.gates.unfreed w hc h0 n hn
  · obtain ⟨n', hn', hb⟩ := (Device.asyncReady_iff h0).1 hc
    rw [hn] at hn'
    cases hn'
    exact hb

/-- The endpoint of a queued parcel is there. -/
theorem queued_present (h : d.Reachable) (hw : w ∈ d.work) :
    (d.endpointFor w.endpoint).isSome = true := by
  obtain ⟨_, _, _, a, ha, _⟩ := h.parcelInv.stored w hw
  unfold Device.arenaFor at ha
  obtain ⟨e, he, _⟩ := Option.bind_eq_some_iff.1 ha
  rw [he]
  rfl

/-- A queued parcel has no unfreed parcel's buffer. -/
theorem queued_not_outstanding (h : d.Reachable) (hw : w ∈ d.work) (hw' : Outstanding w' d.history)
    (he : w.endpoint = w'.endpoint) : w.value.dataBuffer ≠ w'.value.dataBuffer := by
  intro hb
  obtain ⟨_, _, _, hst⟩ := h.parcelInv.stored w hw
  have htrue := h.unfreed.delivered w' hw'
  rw [← he, ← hb, hst.bufferState] at htrue
  cases htrue

/-- A node has one current parcel. -/
theorem Device.Current.unique (h : d.Reachable) (hc : d.Current w) (hc' : d.Current w')
    (h0 : w.asyncNode ≠ 0) (hn : w.asyncNode = w'.asyncNode) : w = w' := by
  obtain ⟨n, hfor, how, hb⟩ := hc.node h h0
  obtain ⟨n', hfor', how', hb'⟩ := hc'.node h (hn ▸ h0)
  rw [← hn, hfor] at hfor'
  cases hfor'
  have he : w.endpoint = w'.endpoint := how.symm.trans how'
  have hbuf : w.value.dataBuffer = w'.value.dataBuffer := hb.symm.trans hb'
  rcases hc with hc | ⟨hc, _⟩ <;> rcases hc' with hc' | ⟨hc', _⟩
  · exact h.unfreed.once w w' hc hc' he hbuf
  · exact absurd hbuf.symm (queued_not_outstanding h hc' hc he.symm)
  · exact absurd hbuf (queued_not_outstanding h hc hc' he)
  · exact h.parcelInv.distinct w hc w' hc' he hbuf

/-- A parcel that may be delivered is its node's first. -/
theorem Device.Current.foremost (h : d.Reachable) (hw : w ∈ d.work) (hready : d.asyncReady w = true)
    (h0 : w.asyncNode ≠ 0) (hi : Intact w.endpoint d.history) : Foremost d.work w := by
  have hc : d.Current w := .inr ⟨hw, hready⟩
  obtain ⟨n, hn, how, hb⟩ := hc.node h h0
  have hz := h.gates.queued w hw h0 hi n hn
  have halive : n.dead = false := by
    refine h.deadGone.alive hn ?_
    rw [how]
    exact queued_present h hw
  obtain ⟨v, hv, hve, hvb, hcase⟩ := h.gates.active _ n hn halive (how ▸ hi) hz
  rcases hcase with hcase | hcase
  · rw [h.parcelInv.distinct w hw v hcase.1 (how.symm.trans hve.symm) (hb.symm.trans hvb.symm)]
    exact hcase
  · exact absurd (hb.symm.trans hvb.symm) (queued_not_outstanding h hw hcase (how.symm.trans hve.symm))

end Current

/-! ## The order of deliveries -/

/-- The delivery of a one-way parcel comes after the deliveries of all parcels of its node
that were accepted before it, and of no other. -/
def OnewayInOrder (e : Event) (older : List Event) : Prop :=
  ∀ k i q w, e = .delivered k i q w → w.asyncNode ≠ 0 →
    (∀ k' i' q' w', .delivered k' i' q' w' ∈ older → w'.asyncNode = w.asyncNode → w'.stamp < w.stamp) ∧
      ∀ p, .accepted p ∈ older → p.work.asyncNode = w.asyncNode → p.work.stamp < w.stamp →
        ∃ k' i' q', .delivered k' i' q' p.work ∈ older

/-- Delivered one-way parcels were accepted before those of their node that are queued. -/
structure Succession (d : Device) : Prop where
  order : Always (fun e older => DeliveredIntact e older → OnewayInOrder e older) d.history
  queued : ∀ k i q w, .delivered k i q w ∈ d.history → w.asyncNode ≠ 0 →
    Intact w.endpoint d.history → ∀ w' ∈ d.work, w'.asyncNode = w.asyncNode → w.stamp < w'.stamp

/-- A delivered item was accepted for the endpoint it was delivered to. -/
theorem Device.Reachable.delivered_accepted {d : Device} (h : d.Reachable) {k : Nat} {i : Int}
    {q : List Work} {w : Work} (hd : .delivered k i q w ∈ d.history) :
    w.endpoint = k ∧ ∃ p, .accepted p ∈ d.history ∧ p.work = w := by
  obtain ⟨newer, older, heq⟩ := List.append_of_mem hd
  have hright := h.fates.delivered
  rw [heq] at hright
  obtain ⟨p, hp, hw, hk, _⟩ := hright.split k i q w rfl
  refine ⟨hk, p, ?_, hw⟩
  rw [heq]
  exact List.mem_append_right _ (List.mem_cons_of_mem _ hp)

/-- A node's parcel that is accepted and not queued was delivered, if its endpoint is intact. -/
theorem Device.Reachable.delivered_of_accepted {d : Device} (h : d.Reachable) {p : Parcel}
    (hp : .accepted p ∈ d.history) (h0 : p.work.asyncNode ≠ 0) (hq : p.work ∉ d.work)
    (hi : Intact p.work.endpoint d.history) : ∃ k i q, .delivered k i q p.work ∈ d.history := by
  have hone := accepted_once h hp
  rw [List.count_eq_zero_of_not_mem hq, Nat.zero_add] at hone
  have hdrops : d.history.countP (·.drops p.work) = 0 := by
    refine List.countP_eq_zero.2 fun e he hdrop => ?_
    cases e with
    | dropped k i w =>
      have hw : w = p.work := by simpa using hdrop
      subst hw
      obtain ⟨hk, rfl⟩ := h.oneway_dropped he h0
      exact hi _ (hk ▸ he)
    | _ => cases hdrop
  have hpos : 0 < d.history.countP (·.delivers p.work) := by omega
  obtain ⟨e, he, hdel⟩ := List.countP_pos_iff.1 hpos
  cases e with
  | delivered k i q w =>
    have hw : w = p.work := by simpa using hdel
    exact ⟨k, i, q, hw ▸ he⟩
  | _ => cases hdel

namespace Succession

variable {d d' : Device}

/-- A step that delivers nothing and queues new items only. -/
theorem keep (h : Succession d) (hr : d.Reachable) {l : List Event} (hh : d'.history = l ++ d.history)
    (hl : ∀ e ∈ l, ∀ k i q w, e ≠ .delivered k i q w)
    (hw : ∀ w ∈ d'.work, w ∈ d.work ∨ w.stamp = d.history.length) : Succession d' := by
  refine ⟨?_, fun k i q w hmem h0 hi w' hw' hn => ?_⟩
  · rw [hh]
    exact h.order.append fun e he older _ k i q w heq => absurd heq (hl e he k i q w)
  · rw [hh] at hmem hi
    have hold := (List.mem_append.1 hmem).resolve_left fun he => hl _ he k i q w rfl
    rcases hw w' hw' with hw' | hst
    · exact h.queued k i q w hold h0 hi.of_append w' hw' hn
    · rw [hst]
      exact hr.inOrder.past k i q w hold

theorem step (h : Succession d) (hr : d.Reachable) (ht : Traffic d d') : Succession d' := by
  cases ht with
  | quiet _ hw hh hn =>
    refine h.keep hr hh (fun e he k i q w heq => ?_) fun w hmem => .inl (hw ▸ hmem)
    rw [heq] at he
    exact hn _ he
  | accept _ hst hw hh =>
    refine h.keep hr (l := [_, _]) hh (by simp) fun w hmem => ?_
    rw [hw, List.mem_append] at hmem
    exact hmem.imp_right fun hone => by rw [List.mem_singleton.1 hone, hst]
  | @deliver e th index w _ _ _ hfor hw hwork hh =>
    have hmem := List.mem_of_getElem? hw
    obtain ⟨w₀, hw₀, hready, _⟩ := Device.workFor_spec hfor
    rw [hw] at hw₀
    cases hw₀
    have hasync : d.asyncReady w = true := by
      simp only [Device.workReady, Bool.and_eq_true] at hready
      exact hready.1.1
    have hwe := (CallInv.ready_thread hready).1
    -- the delivered parcel is its node's first
    have hfore : w.asyncNode ≠ 0 → Intact w.endpoint d.history → ∀ w' ∈ d.work,
        w'.asyncNode = w.asyncNode → w.stamp ≤ w'.stamp := fun h0 hi =>
      (Device.Current.foremost hr hmem hasync h0 hi).2
    have hsame : ∀ p, .accepted p ∈ d.history → p.work.asyncNode ≠ 0 →
        p.work.asyncNode = w.asyncNode → p.work.endpoint = w.endpoint := by
      intro p hp h0 hn
      obtain ⟨p₁, hp₁, hpw, _⟩ := hr.parcelInv.stored w hmem
      rw [← hpw] at hn ⊢
      exact hr.addressed.same p p₁ hp hp₁ h0 hn
    refine ⟨hh ▸ ⟨fun hint k i q x heq h0 => ?_, h.order⟩, fun k i q x hx h0 hi w' hw' hn => ?_⟩
    · have hi : Intact w.endpoint d.history := hwe.symm ▸ hint e.token th.tid d.work w rfl
      cases heq
      refine ⟨fun k' i' q' w' hd hn => ?_, fun p hp hn hlt => ?_⟩
      · obtain ⟨_, p, hp, rfl⟩ := hr.delivered_accepted hd
        have he := hsame p hp (hn ▸ h0) hn
        exact h.queued k' i' q' p.work hd (hn ▸ h0) (he ▸ hi) w hmem hn.symm
      · refine hr.delivered_of_accepted hp (hn ▸ h0) (fun hq => ?_) (hsame p hp (hn ▸ h0) hn ▸ hi)
        have := hfore h0 hi p.work hq hn
        omega
    · rw [hh] at hx hi
      have hi : Intact x.endpoint d.history := Intact.of_append (l := [_]) hi
      rw [hwork, Device.mem_eraseIdx hr.queueIds.nodup hw] at hw'
      rcases List.mem_cons.1 hx with heq | hx
      · cases heq
        have hle := hfore h0 hi w' hw'.1 hn
        have hne : w'.stamp ≠ w.stamp := fun heq => hw'.2 (hr.queueIds.eq_of_stamp hw'.1 hmem heq)
        omega
      · exact h.queued k i q x hx h0 hi w' hw'.1 hn
  | drop hcut _ _ _ _ hmem _ hh =>
    rw [← List.append_assoc] at hh
    refine h.keep hr hh (fun e he k i q w heq => ?_) fun w hw => .inl ((hmem w).1 hw).1
    rcases List.mem_append.1 he with he | he
    · rw [heq] at he
      simp at he
    · obtain ⟨_, _, _, _, rfl⟩ := hcut.cancelled e he
      cases heq

end Succession

theorem Device.Reachable.succession {d : Device} (h : d.Reachable) : Succession d :=
  h.inv_traffic (fun d _ hh _ => ⟨by simp [hh], by simp [hh]⟩) fun _ _ hr hinv ht => hinv.step hr ht

/-! ## Senders -/

/-- A parcel that a step accepts is made of a reservation at another endpoint. -/
theorem Step.accepts {d d' : Device} (hc : CallInv d) (hs : Step d d') {p : Parcel} (hp : .accepted p ∈ d'.history) :
    .accepted p ∈ d.history ∨ ∃ e th target node input r, Reserved d e th target node input r ∧
      r.result = 0 ∧ target.token ≠ e.token ∧ p.Of e th target r ∧ p.work ∈ d'.work ∧
        d'.objects = { r.objects with nodes := r.objects.nodes.map (gate p.work) } := by
  -- only a packet command accepts a parcel
  have hold : ∀ l : List Event, d'.history = l ++ d.history → (∀ e ∈ l, ∀ q, e ≠ .accepted q) →
      .accepted p ∈ d.history := by
    intro l hh hl
    rw [hh, List.mem_append] at hp
    exact hp.resolve_left fun hmem => hl _ hmem p rfl
  have hnew : ∀ k i c q, d'.history = .consumed k i c :: .accepted q :: d.history →
      p = q ∨ .accepted p ∈ d.history := by
    intro k i c q hh
    rw [hh, List.mem_cons, List.mem_cons] at hp
    exact (hp.resolve_left (fun h => nomatch h)).imp_left Event.accepted.inj
  cases hs with
  | configure | tune | refer | reserve => exact .inl (hold [] rfl (by simp))
  | openEndpoint ho =>
    obtain ⟨_, _, _, hh, _⟩ := Device.openEndpoint_frame ho
    exact .inl (hold [] hh (by simp))
  | admission _ _ ha =>
    obtain ⟨_, _, _, hh, _⟩ := Device.admitThread_frame ha
    exact .inl (hold [] hh (by simp))
  | setContextMgr flags pointer cookie =>
    obtain ⟨_, _, _, _, hh⟩ := Device.setContextMgr_frame d _ flags pointer cookie
    exact .inl (hold [] hh (by simp))
  | nodeDone | teardown | erase => exact .inl (hold [_] rfl (by simp))
  | requestDeath | clearDeath | doneDeath =>
    simp only [Device.requestDeath, Device.clearDeath, Device.doneDeath] at hp hold
    obtain ⟨_, _, _, _, _, new, hh, hslot⟩ := Device.recordSlot_frame _ _ _
    refine .inl (hold new hh fun e he q heq => ?_)
    obtain ⟨slot, rfl⟩ := hslot e he
    cases heq
  | @free e buffer =>
    obtain ⟨_, _, _, ⟨new, hh, hfreed⟩, _⟩ := Device.freePacket_frame d e buffer
    refine .inl (hold new hh fun event he q heq => ?_)
    rw [hfreed event he] at heq
    cases heq
  | refuse | bounce => exact .inl (hold [_, _] rfl (by simp))
  | @reply e th target t input r hr h0 _ ht =>
    obtain ⟨htin, _, htarget, _⟩ := Device.replyTarget_spec ht
    rcases hnew _ _ _ _ rfl with rfl | hp
    · have hth : d.threadFor e.token th.tid = some th := by
        rw [Device.threadFor_of hr.sourceFound]
        exact hr.threadFound
      -- the sender serves the call, so its caller is somebody else
      obtain ⟨_, t', ht', hserver, _⟩ := hc.serving _ _ th hth (Device.transactionFor_spec htin).2.2
      rw [htin] at ht'
      cases ht'
      have hapart : target.token ≠ e.token := by
        rw [(Device.endpointFor_spec htarget).2.1, ← hserver]
        exact hc.apart _ t htin
      refine .inr ⟨e, th, target, none, input, r, hr, h0, hapart,
        ⟨rfl, rfl, (Device.endpointFor_spec htarget).2.1.symm, rfl, rfl, rfl, rfl, rfl⟩,
        List.mem_append_right _ (List.mem_singleton_self _), ?_⟩
      rw [gate_of_zero rfl, List.map_id]
      rfl
    · exact .inl hp
  | @oneway e th target node input r hr h0 hne =>
    rcases hnew _ _ _ _ rfl with rfl | hp
    · refine .inr ⟨e, th, target, some node, input, r, hr, h0, hne,
        ⟨rfl, rfl, rfl, rfl, rfl, rfl, rfl, rfl⟩,
        List.mem_append_right _ (List.mem_singleton_self _), ?_⟩
      obtain ⟨_, _, h0⟩ := nodeFor_spec (hr.nodeFound node rfl).1
      rw [← update_gate (by exact h0)]
      rfl
    · exact .inl hp
  | @call e th target node input r hr h0 hne =>
    rcases hnew _ _ _ _ rfl with rfl | hp
    · refine .inr ⟨e, th, target, some node, input, r, hr, h0, hne,
        ⟨rfl, rfl, rfl, rfl, rfl, rfl, rfl, rfl⟩,
        List.mem_append_right _ (List.mem_singleton_self _), ?_⟩
      rw [gate_of_zero rfl, List.map_id]
      rfl
    · exact .inl hp
  | @deliver e th record =>
    refine .inl ?_
    cases record with
    | work index w =>
      change .accepted p ∈ (d.deliverWork e th index w).2.history at hp
      rcases Device.deliverWork_cases d e th index w with ⟨_, heq | heq⟩ | ⟨_, _, heq⟩ <;>
        rw [heq] at hp
      · exact hp
      · exact hp
      · simpa using hp
    | _ => exact hold [_] rfl (by simp)
  | @cancel token tid t =>
    obtain ⟨l, hh, htears⟩ := torn_cancelTransaction d token tid t
    refine .inl (hold l hh fun e he q heq => ?_)
    rcases htears e he with ⟨_, htear⟩ | ⟨_, _, _, _, htear⟩ <;> cases heq.symm.trans htear
  | drop => exact .inl (hold [_] rfl (by simp))
  | retire => exact .inl (hold [_] Device.retire_frame.2.2.1 (by simp))

/-- Every accepted parcel is for another endpoint than its sender's. -/
theorem Device.Reachable.elsewhere {d : Device} (h : d.Reachable) :
    ∀ p, .accepted p ∈ d.history → p.source ≠ p.work.endpoint := by
  refine h.inv_of (I := fun d => ∀ p, .accepted p ∈ d.history → p.source ≠ p.work.endpoint)
    (J := fun d => d.Reachable) (fun _ h => h) (fun d hi p hp => ?_) fun d d' hr hold hs p hp => ?_
  · rw [(machine_init hi).2.2.2.2.1] at hp
    exact absurd hp List.not_mem_nil
  · rcases hs.accepts hr.callInv hp with hp | ⟨_, _, _, _, _, _, _, _, hne, hof, _⟩
    · exact hold p hp
    · rw [hof.source, hof.endpoint]
      exact hne.symm

/-! ## Freeing the active buffer -/

/-- The free of a node's active buffer makes its next parcel deliverable. -/
theorem ready_of_free {d : Device} (h : d.Settled) {e : Endpoint} {buffer : Nat} {n : Node} {w : Work}
    (he : d.endpointFor e.token = some e) (hfree : (d.freePacket e buffer).1 = 0)
    (hn : d.objects.nodeFor n.id = some n) (how : n.owner = e.token) (hb : n.asyncBuffer = buffer)
    (hw : w.asyncNode = n.id) (hfirst : Foremost d.work w) :
    (d.freePacket e buffer).2.asyncReady w = true := by
  have hr' : (d.freePacket e buffer).2.Reachable := h.reachable.then (.free buffer he)
  have hwork := (Device.freePacket_frame d e buffer).1
  have hh : (d.freePacket e buffer).2.history = .freed e.token buffer :: d.history := by
    unfold Device.freePacket at hfree ⊢
    split
    · rename_i harena
      rw [harena] at hfree
      cases hfree
    · rename_i a harena
      rw [harena] at hfree
      dsimp only at hfree ⊢
      split
      · rename_i hrel
        rw [if_pos hrel] at hfree
        cases hfree
      · rfl
  have h0 : w.asyncNode ≠ 0 := hw ▸ (nodeFor_spec hn).2.2
  have hmem : w ∈ (d.freePacket e buffer).2.work := hwork ▸ hfirst.1
  obtain ⟨n', hn', how'⟩ := (hr'.gates.holds w (.inl hmem) h0).node hr'.accounts
  have hwe : w.endpoint = e.token := by
    obtain ⟨x, hx, hxo⟩ := (h.reachable.gates.holds w (.inl hfirst.1) h0).node h.reachable.accounts
    rw [hw, hn] at hx
    cases hx
    exact hxo.symm.trans how
  -- the endpoint stands, so that nothing of its history says it was closed
  have hi : Intact w.endpoint (d.freePacket e buffer).2.history := by
    intro x hx
    rw [hh, List.mem_cons] at hx
    refine h.intact (k := w.endpoint) ?_ x (hx.resolve_left fun heq => nomatch heq)
    rw [hwe, he]
    rfl
  have halive : n'.dead = false := hr'.deadGone.alive hn' (how' ▸ queued_present hr' hmem)
  have hz := hr'.gates.queued w hmem h0 hi n' hn'
  obtain ⟨v, hv, hve, hvb, hcase⟩ := hr'.gates.active _ n' hn' halive (how' ▸ hi) hz
  refine (Device.asyncReady_iff h0).2 ⟨n', hn', ?_⟩
  rcases hcase with hcase | hcase
  · -- the first in the queue is this one
    rw [hwork] at hcase
    have hle := hcase.2 w hfirst.1 hv.symm
    have hge := hfirst.2 v hcase.1 hv
    have hvw := h.reachable.queueIds.eq_of_stamp hcase.1 hfirst.1 (Nat.le_antisymm hle hge)
    rw [← hvb, hvw]
  · -- an unfreed parcel of the node would have had the freed buffer
    rw [hh] at hcase
    have hvn : d.objects.nodeFor v.asyncNode = some n := by rw [hv, hw, hn]
    have hvbuf := h.reachable.gates.unfreed v hcase.2 (hv ▸ h0) n hvn
    exact absurd ⟨(hve.trans how').trans hwe |>.symm, (hvbuf.symm.trans hb).symm⟩ hcase.1

/-- One-way calls of a system's run. The parcels of a node are delivered in the order of their
acceptance, each after all before it; one of them at most is delivered and unfreed or may be
delivered; only the release of the endpoint they are for, which is not the sender's, removes
one. While one is queued its node has an active buffer, the one of the node's first parcel in
the queue or a delivered one of the node's owner, and when that is freed the first is next. -/
theorem oneway_calls {ω : Type} {host : Host ω} {s : System ω}
    (h : (System.machine host).Reachable s) :
    Always OnewayInOrder s.device.history ∧
      (∀ w w', w.asyncNode ≠ 0 → w.asyncNode = w'.asyncNode → s.device.Current w →
        s.device.Current w' → w = w') ∧
      (∀ k i p, .accepted p ∈ s.device.history → p.work.asyncNode ≠ 0 →
        .dropped k i p.work ∈ s.device.history → i = 0 ∧ k = p.work.endpoint ∧ k ≠ p.source) ∧
      (∀ w ∈ s.device.work, w.asyncNode ≠ 0 → ∃ n, s.device.objects.nodeFor w.asyncNode = some n ∧
        n.owner = w.endpoint ∧ n.asyncBuffer ≠ 0 ∧
          ((∃ w', s.device.work.find? (fun x => x.asyncNode == w.asyncNode) = some w' ∧
            w'.value.dataBuffer = n.asyncBuffer) ∨
              s.device.bufferState n.owner n.asyncBuffer = some true)) ∧
      ∀ e buffer n w, s.device.endpointFor e.token = some e →
        (s.device.freePacket e buffer).1 = 0 → s.device.objects.nodeFor n.id = some n →
          n.owner = e.token → n.asyncBuffer = buffer →
            s.device.work.find? (fun x => x.asyncNode == n.id) = some w →
              (s.device.freePacket e buffer).2.asyncReady w = true := by
  have hset := system_settled h
  have hr := hset.reachable
  refine ⟨hset.whole.mp hr.succession.order, fun w w' h0 hn hc hc' => hc.unique hr hc' h0 hn,
    fun k i p hp h0 hd => ?_, fun w hw h0 => ?_, fun e buffer n w he hfree hn how hb hfind => ?_⟩
  · obtain ⟨hk, hi⟩ := hr.oneway_dropped hd h0
    exact ⟨hi, hk.symm, hk ▸ Ne.symm (hr.elsewhere p hp)⟩
  · have hmem : w ∈ s.device.work ∨ Outstanding w s.device.history := .inl hw
    obtain ⟨n, hn, how⟩ := (hr.gates.holds w hmem h0).node hr.accounts
    have hpres := queued_present hr hw
    have hi := hset.intact hpres
    have hz := hr.gates.queued w hw h0 hi n hn
    refine ⟨n, hn, how, hz, ?_⟩
    obtain ⟨v, hv, hve, hvb, hcase⟩ := hr.gates.active _ n hn (hr.deadGone.alive hn (how ▸ hpres))
      (how ▸ hi) hz
    rcases hcase with hcase | hcase
    · refine .inl ⟨v, ?_, hvb⟩
      rw [← hv]
      exact (foremost_iff hr.queueIds).1 hcase
    · refine .inr ?_
      rw [← hve, ← hvb]
      exact hr.unfreed.delivered v hcase
  · have hwn : w.asyncNode = n.id := by simpa using List.find?_some hfind
    rw [← hwn] at hfind
    exact ready_of_free hset he hfree hn how hb hwn ((foremost_iff hr.queueIds).2 hfind)

/-- The client's thread `2` sends two one-way calls in one write; the manager's looper thread
`1` reads one of them and then frees its buffer. -/
def onewayScript : Script :=
  [(2, 256, Header.bytes ⟨136, 0, 512, 0, 0, 0⟩), (2, 512, packetBytes .transaction 0 1 8 0 1024 0),
    (2, 580, packetBytes .transaction 0 1 8 0 1024 0), (2, 1024, Bytes.writeLE 8 77),
    (1, 256, Header.bytes ⟨4, 0, 512, 256, 0, 8192⟩), (1, 512, Bytes.writeLE 4 BC.enterLooper.word),
    (1, 320, Header.bytes ⟨12, 0, 640, 0, 0, 0⟩),
    (1, 640, Bytes.writeLE 4 BC.freeBuffer.word ++ Bytes.writeLE 8 65536)]

def onewayCalls : List Call := [.writeRead 2 2 256, .writeRead 1 1 256, .writeRead 1 1 320]

/-- The second call may be delivered when the first is freed. -/
theorem oneway_calls_ordered : Always OnewayInOrder (replay onewayScript onewayCalls).history ∧
    (replay onewayScript (onewayCalls.take 2)).work.map
      (replay onewayScript (onewayCalls.take 2)).asyncReady = [false] ∧
    (replay onewayScript onewayCalls).work.map (replay onewayScript onewayCalls).asyncReady =
      [true] := by
  obtain ⟨s, hs, hd⟩ := replay_system onewayScript onewayCalls
  exact ⟨hd ▸ (oneway_calls hs).1, by decide +kernel⟩

end Artbox.Binder
