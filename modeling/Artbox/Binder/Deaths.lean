import Artbox.Binder.Links

/-!
# Death notifications

What each step does to death subscriptions (`DeathStep`), what holds of them in every
reachable state (`Subscriptions`), and what the history says of each (`Logged`): under
cookies of its own a subscription is notified at most once, after the release of the owner,
and its clearing confirmed at most once, after the notification was acknowledged if there
was one.
-/

namespace Artbox.Binder

open Slots Objects

/-! ## Steps and subscriptions -/

/-- An event that is not about subscriptions or the end of an endpoint. -/
def Event.Calm : Event → Prop
  | deathRequested _ _ _ | deathCleared _ _ _ | deathDone _ _ _ | deathReturned _ _ _ _ _
  | released _ => False
  | _ => True

/-- The subscription after a matching `BC_CLEAR_DEATH_NOTIFICATION`. -/
def Death.clear (s : Death) (th : Thread) : Death :=
  if s.state = .armed ∨ s.state = .deathAcknowledged then queueClear { s with clearing := true } th
  else { s with clearing := true }

/-- The subscription after a matching `BC_DEAD_BINDER_DONE`. -/
def Death.acknowledge (s : Death) (th : Thread) : Death :=
  if s.clearing then queueClear s th else { s with state := .deathAcknowledged }

/-- The subscription after its return was written. -/
def Death.deliver (s : Death) : Death :=
  if s.state = .clearQueued then {} else { s with state := .deathDelivered }

/-- What a step does to references and subscriptions. -/
inductive DeathStep (d d' : Device) : Prop
  | pass {l : List Event} : Carries d.objects d'.objects → d'.history = l ++ d.history →
    (∀ e ∈ l, e.Calm) → DeathStep d d'
  | request {r : Reference} {slot cookie : Nat} : r ∈ d.objects.references → r.endpoint ≠ 0 →
    r.death = 0 → (∀ s, d.objects.deaths[slot]? = some s → s.endpoint = 0) →
      Writes d.objects d'.objects { r with death := slot + 1 } → d'.objects.nodes = d.objects.nodes →
      (∀ i, d'.objects.deaths[i]? = if i = slot then some
        { endpoint := r.endpoint, owner := r.owner, cookie
          state := if (d.endpointFor r.owner).isSome then .armed else .deathQueued }
        else d.objects.deaths[i]?) →
      d'.history = .deathRequested r.endpoint slot cookie :: d.history → DeathStep d d'
  | clear {r : Reference} {slot : Nat} {s : Death} (th : Thread) : r ∈ d.objects.references →
    r.endpoint ≠ 0 → r.death = slot + 1 → d.objects.deaths[slot]? = some s →
      Writes d.objects d'.objects { r with death := 0 } → d'.objects.nodes = d.objects.nodes →
      (∀ i, d'.objects.deaths[i]? = if i = slot then some (s.clear th) else d.objects.deaths[i]?) →
      d'.history = .deathCleared r.endpoint slot s.cookie :: d.history → DeathStep d d'
  | done {k slot : Nat} {s : Death} (th : Thread) : d.objects.deaths[slot]? = some s →
    s.endpoint = k → k ≠ 0 → s.state = .deathDelivered →
      d'.objects.references = d.objects.references → d'.objects.nodes = d.objects.nodes →
      (∀ i, d'.objects.deaths[i]? = if i = slot then some (s.acknowledge th)
        else d.objects.deaths[i]?) →
      d'.history = .deathDone k slot s.cookie :: d.history → DeathStep d d'
  | notify {k slot : Nat} {tid : Int} {s : Death} : d.objects.deaths[slot]? = some s →
    s.endpoint = k → k ≠ 0 → s.state = .deathQueued ∨ s.state = .clearQueued →
      d'.objects.references = d.objects.references → d'.objects.nodes = d.objects.nodes →
      (∀ i, d'.objects.deaths[i]? = if i = slot then some s.deliver else d.objects.deaths[i]?) →
      d'.history = .deathReturned k tid slot s.returnWord s.cookie :: d.history → DeathStep d d'
  | exit {k : Nat} {tid : Int} : 0 < tid → d'.objects.references = d.objects.references →
    Kept d.objects d'.objects →
      d'.objects.deaths = update (fun s => s.endpoint == k && s.tid == tid) (fun _ => {})
        d.objects.deaths →
      d'.history = .exited k tid :: d.history → DeathStep d d'
  | retire {token : Nat} {o : Objects} : token ≠ 0 → Retired d.objects o token →
    d'.objects = (if d.manager = token then { o with managerNode := 0 } else o) →
      o.deaths = d.objects.deaths.map (bereave token) →
      d'.history = .released token :: d.history → DeathStep d d'

/-- The names a reservation passes on. -/
theorem Reserved.carries {d : Device} {e target : Endpoint} {th : Thread} {node : Option Node}
    {input : TransactionData} {r : Reservation} (ha : Accounts d)
    (hr : Reserved d e th target node input r) : Carries d.objects r.objects := by
  have hk := (Device.endpointFor_spec hr.targetFound).2.2
  rcases hr.objects_cases with heq | ⟨buffer, offsets, data, held, t, hheld, ht, hr'⟩
  · rw [heq]
    exact .refl _
  have hcar : Carries d.objects t.objects := by
    have hclaim := ha.objects.claimTarget (b := buffer) hk hr.nodeFound
    have hheld₂ : Carries d.objects held.2 := by
      rcases claimTarget_cases d.objects target.token buffer node with heq | ⟨n, res, hn, heq⟩
      · rw [← hheld, heq]
        exact .refl _
      · obtain ⟨hfor, how⟩ := hr.nodeFound n hn
        rw [hheld] at heq
        exact ha.objects.carries_addClaim hk hfor (by simp [how]) heq
    rw [hheld] at hclaim
    split at ht
    next h0 =>
      rw [ht]
      exact hheld₂.trans ((hclaim.2 h0).carries_translate hk _ _)
    next =>
      rw [ht]
      exact hheld₂
  obtain ⟨hload, _⟩ := loaded_translate ha.objects hk hr.nodeFound hheld ht
  rcases hr' with heq | heq <;> rw [heq]
  · exact hcar.trans (hload.sound.carries_releaseClaims hk)
  · exact hcar

/-- Dropping parcels drops a name only with its reference. -/
theorem carries_dropWorks {k : Nat} {i : Int} {l : List Work} {d : Device} (h : d.objects.Inv)
    (hw : ∀ w ∈ l, w.endpoint ≠ 0) :
    Carries d.objects (l.foldl (Device.dropWork k i) d).objects := by
  induction l generalizing d with
  | nil => exact .refl _
  | cons w l ih =>
    have hk := hw w List.mem_cons_self
    have hone : Carries d.objects (Device.dropWork k i d w).objects :=
      h.carries_releaseClaims hk
    exact hone.trans (ih (h.releaseClaims hk).1 fun x hx => hw x (List.mem_cons_of_mem _ hx))

section Kinds

variable {d : Device} {e : Endpoint} {th : Thread}

/-- A step that leaves the tables alone. -/
theorem DeathStep.aside {d' : Device} {l : List Event} (ho : d'.objects = d.objects)
    (hh : d'.history = l ++ d.history) (hl : ∀ e ∈ l, e.Calm) : DeathStep d d' :=
  .pass (ho ▸ .refl _) hh hl

/-- A subscription request takes a free slot or changes nothing. -/
theorem Device.requestDeath_cases (ha : Accounts d) {r : Reference} (cookie : Nat)
    (hr : r ∈ d.objects.references) (h0 : r.endpoint ≠ 0) : (d.requestDeath r cookie).2 = d ∨
      ∃ slot, r.death = 0 ∧ (∀ s, d.objects.deaths[slot]? = some s → s.endpoint = 0) ∧
        Writes d.objects (d.requestDeath r cookie).2.objects { r with death := slot + 1 } ∧
        (d.requestDeath r cookie).2.objects.nodes = d.objects.nodes ∧
        (∀ i : Nat, (d.requestDeath r cookie).2.objects.deaths[i]? = if i = slot then some
          { endpoint := r.endpoint, owner := r.owner, cookie
            state := if (d.endpointFor r.owner).isSome then .armed else .deathQueued }
          else d.objects.deaths[i]?) ∧
        (d.requestDeath r cookie).2.history = .deathRequested r.endpoint slot cookie :: d.history := by
  unfold Device.requestDeath Objects.requestDeath
  dsimp only
  split
  · exact .inl rfl
  next hd =>
    split
    · exact .inl rfl
    next deaths hins =>
      generalize hslot : (d.objects.deaths.findIdx? fun s => s.endpoint == 0).getD
        d.objects.deaths.length = slot
      have hcounted : ({ r with death := slot + 1 } : Reference).Counted :=
        ha.objects.tables.counted r hr h0
      have hw : Writes d.objects _ { r with death := slot + 1 } :=
        writes_listed ha.objects.tables.handles ha.objects.tables.targets hr h0
          (ha.objects.tables.small r hr h0) ⟨rfl, rfl⟩ rfl
      rw [dropIfUnused_of_counted hcounted] at hw
      refine .inr ⟨slot, by simpa using hd, fun s hs => ?_,
        ⟨hw.live, hw.small, hw.handles, hw.targets, hw.mem, hw.same⟩, rfl,
        fun i => hslot ▸ getElem?_insertFree hins i, rfl⟩
      rw [← hslot] at hs
      simpa using free_of_slot hs

/-- A subscription is one step of the notices. -/
theorem DeathStep.of_requestDeath (ha : Accounts d) {r : Reference} (cookie : Nat)
    (hr : r ∈ d.objects.references) (h0 : r.endpoint ≠ 0) : DeathStep d (d.requestDeath r cookie).2 := by
  rcases Device.requestDeath_cases ha cookie hr h0 with heq | ⟨slot, hd, hfree, hw, hn, hdeaths, hh⟩
  · rw [heq]
    exact .aside (l := []) rfl rfl (by simp)
  · exact .request hr h0 hd hfree hw hn hdeaths hh

/-- The clearing of a subscription is one step of the notices. -/
theorem DeathStep.of_clearDeath (ha : Accounts d) {r : Reference} (cookie : Nat)
    (hr : r ∈ d.objects.references) (h0 : r.endpoint ≠ 0) : DeathStep d (d.clearDeath th r cookie) := by
  unfold Device.clearDeath Objects.clearDeath
  dsimp only
  split
  · exact .aside (l := []) rfl rfl (by simp)
  next hd =>
    split
    · exact .aside (l := []) rfl rfl (by simp)
    next s hs =>
      split
      · exact .aside (l := []) rfl rfl (by simp)
      next hcookie =>
        have hcookie : s.cookie = cookie := by simpa using hcookie
        have hcounted : ({ r with death := 0 } : Reference).Counted :=
          ha.objects.tables.counted r hr h0
        have hw : Writes d.objects _ { r with death := 0 } :=
          writes_listed ha.objects.tables.handles ha.objects.tables.targets hr h0
            (ha.objects.tables.small r hr h0) ⟨rfl, rfl⟩ rfl
        rw [dropIfUnused_of_counted hcounted] at hw
        refine .clear th hr h0 (by omega : r.death = r.death - 1 + 1) hs
          ⟨hw.live, hw.small, hw.handles, hw.targets, hw.mem, hw.same⟩ rfl
          (fun i => getElem?_set_slot hs _ i) ?_
        rw [hcookie]
        rfl

/-- An acknowledgement is one step of the notices. -/
theorem DeathStep.of_doneDeath (he : e.token ≠ 0) (cookie : Nat) :
    DeathStep d (d.doneDeath e.token th cookie) := by
  unfold Device.doneDeath Objects.doneDeath
  dsimp only
  split
  · exact .aside (l := []) rfl rfl (by simp)
  next slot hfind =>
    obtain ⟨hlt, hmatch, _⟩ := List.findIdx?_eq_some_iff_getElem.1 hfind
    simp only [Bool.and_eq_true, beq_iff_eq] at hmatch
    split
    · exact .aside (l := []) rfl rfl (by simp)
    next s hs =>
      have hs' := hs
      rw [List.getElem?_eq_getElem hlt] at hs'
      cases hs'
      refine .done th hs hmatch.1.1 he hmatch.2 rfl rfl (fun i => getElem?_set_slot hs _ i) ?_
      rw [hmatch.1.2]
      rfl

/-- The delivery of a notification is one step of the notices. -/
theorem DeathStep.of_notification {slot : Nat} {s : Death} (he : e.token ≠ 0)
    (hfind : d.deathFor e.token th = some slot) (hs : d.objects.deaths[slot]? = some s) :
    DeathStep d (d.deliver e th (.notification slot s)).2 := by
  obtain ⟨hlt, hmatch, _⟩ := List.findIdx?_eq_some_iff_getElem.1 hfind
  have hs' := hs
  rw [List.getElem?_eq_getElem hlt] at hs'
  cases hs'
  simp only [Bool.and_eq_true, Bool.or_eq_true, beq_iff_eq] at hmatch
  exact .notify hs hmatch.1.1 he hmatch.1.2 rfl rfl (fun i => getElem?_set_slot hs _ i) rfl

/-- A freed buffer ends subscriptions only with their references. -/
theorem DeathStep.of_free (ha : Accounts d) (he : e.token ≠ 0) (buffer : Nat) :
    DeathStep d (d.freePacket e buffer).2 := by
  unfold Device.freePacket
  split
  · exact .aside (l := []) rfl rfl (by simp)
  · split
    · exact .aside (l := []) rfl rfl (by simp)
    · have hm := ha.objects.advanceAsync d.work buffer he
      have hedit : Carries d.objects
          { d.objects with nodes := advanceAsync d.work e.token buffer d.objects.nodes } :=
        ha.objects.nodes.carries hm.kept (fun n => (advance_like _ _ _ _ n).owner) rfl rfl
      exact .pass (l := [_]) (hedit.trans (hm.inv.carries_releaseClaims he)) rfl
        (by simp [Event.Calm])

open Device in
/-- Registering the context manager passes every name on. -/
theorem DeathStep.of_setContextMgr (ha : Accounts d) (flags pointer cookie : Nat) :
    DeathStep d (d.setContextMgr e flags pointer cookie).2 := by
  unfold Device.setContextMgr
  split
  · exact .aside (l := []) rfl rfl (by simp)
  split
  · exact .aside (l := []) rfl rfl (by simp)
  split
  · exact .aside (l := []) rfl rfl (by simp)
  split
  · exact .aside (l := []) rfl rfl (by simp)
  next n o hc =>
    obtain ⟨hinv, hrefs, _, hfor⟩ := ha.objects.createManager hc
    have hdeaths := (ha.objects.createNode hc).2.2.2.2.2.1
    refine .pass (l := []) ⟨.of_eq hrefs hdeaths, fun how r hr h0 x hx => ?_⟩ rfl (by simp)
    have hr : r ∈ d.objects.references := hrefs ▸ hr
    have hx : o.nodeFor r.node = some x := hx
    obtain ⟨y, hy, _⟩ := ha.objects.nodes.referred r hr h0
    obtain ⟨hmem, hid, hid0⟩ := nodeFor_spec hy
    rw [hfor, if_neg] at hx
    · exact how r hr h0 x hx
    · -- the new node has a new id
      intro heq
      obtain ⟨hnew, hnext, _⟩ := createNode_spec hc
      exact (ha.objects.nodes.issued y hmem (hid ▸ hid0)).ne hnext (hid.trans (heq.trans hnew))

open Device in
/-- A delivery hands out a notification, or nothing about a subscription. -/
theorem DeathStep.of_deliver (h : d.Reachable) (he : d.endpointFor e.token = some e) {record : Record}
    (hr : d.nextRecord e.token th = some record) : DeathStep d (d.deliver e th record).2 := by
  have ha := h.accounts
  have hk := (endpointFor_spec he).2.2
  rcases nextRecord_cases hr with ⟨word, _, rfl⟩ | ⟨_, n, c, hn, rfl⟩ | ⟨_, _, rfl⟩ |
    ⟨_, _, index, w, hfor, hw, rfl⟩ | ⟨_, slot, s, hfor, hs, rfl⟩
  · exact .aside (l := [_]) rfl rfl (by simp [Event.Calm])
  · obtain ⟨hmem, h0, _⟩ := Device.nodeEventFor_spec hn
    have hm := ha.objects.moves_commanded (ha.objects.nodes.nodeFor hmem h0) c
    exact .pass (l := [_]) (ha.objects.nodes.carries hm.kept (fun n => (told_frame _ _ n).1) rfl rfl)
      rfl (by simp [Event.Calm])
  · exact .aside (l := [_]) rfl rfl (by simp [Event.Calm])
  · obtain ⟨_, _, hdel⟩ := h.parcelInv.delivered h.callInv he hfor hw
    simp only [Device.deliver]
    rw [hdel]
    refine .aside (l := [.delivered e.token th.tid d.work w]) ?_ ?_ (by simp [Event.Calm])
    · simp
    · simp
  · exact .of_notification hk hfor hs

open Device in
/-- A cancelled call drops its parcel, and names only with their references. -/
theorem DeathStep.of_cancel (h : d.Reachable) (token : Nat) (tid : Int) (t : Transaction) :
    DeathStep d (cancelTransaction token tid d t) := by
  have ha := h.accounts
  obtain ⟨_, _, _, _, _, new, hh, hnew⟩ := cancelTransaction_frame d token tid t
  obtain ⟨hw, _, ho, _⟩ := cancelEnds_frame d t
  have hcar := carries_dropWorks (k := token) (i := tid)
    (l := d.work.filter fun w => w.transaction == t.id) (d := (d.cancelCaller t).cancelServer t)
    (ho ▸ ha.objects) fun w hmem =>
      bufferState_endpoint (h.parcelInv.bufferState (List.mem_filter.1 hmem).1)
  refine .pass (ho ▸ ?_) (hh.trans (List.append_assoc ..).symm) fun x hx => ?_
  · rw [cancelTransaction, dropWorks, hw]
    exact hcar
  · rcases List.mem_append.1 hx with hx | hx
    · simp only [List.mem_reverse, List.mem_map] at hx
      obtain ⟨_, _, rfl⟩ := hx
      trivial
    · obtain ⟨_, rfl⟩ := hnew x hx
      trivial

end Kinds

open Device in
/-- Every step is of one kind. -/
theorem Step.deaths {d d' : Device} (h : d.Reachable) (hl : d.objects.Links) (hs : Step d d') :
    DeathStep d d' := by
  have ha := h.accounts
  cases hs with
  | configure | tune => exact .aside (l := []) rfl rfl (by simp)
  | openEndpoint ho =>
    obtain ⟨_, _, hobj, hh, _⟩ := openEndpoint_frame ho
    exact .aside (l := []) hobj hh (by simp)
  | admission _ _ hadm =>
    obtain ⟨_, _, hobj, hh, _⟩ := admitThread_frame hadm
    exact .aside (l := []) hobj hh (by simp)
  | setContextMgr flags pointer cookie he => exact .of_setContextMgr ha flags pointer cookie
  | refer handle increment strong he =>
    have hk := (endpointFor_spec he).2.2
    refine .pass (l := []) (ha.objects.carries_referenceCommand increment strong hk
      fun h0 n hn => ?_) rfl (by simp)
    obtain ⟨n', hn', how, _⟩ := ha.registered.node h0
    rw [hn] at hn'
    cases hn'
    exact how
  | nodeDone increfs he hn =>
    obtain ⟨hmem, h0, _⟩ := doneNode_spec hn
    have hfor := ha.objects.nodes.nodeFor hmem h0
    have hm := ha.objects.moves_nodeDone hfor increfs
    refine .pass (l := [_]) (ha.objects.nodes.carries hm.kept (fun n => (acked_frame _ _ n).1)
      (ha.objects.nodeDone hfor increfs).2.1 ?_) rfl (by simp [Event.Calm])
    simp only [record_objects, Objects.nodeDone]
    split <;> split <;> rfl
  | requestDeath cookie he href =>
    obtain ⟨hmem, hre, _⟩ := referenceFor_spec href
    exact .of_requestDeath ha cookie hmem (hre ▸ (endpointFor_spec he).2.2)
  | clearDeath cookie he href =>
    obtain ⟨hmem, hre, _⟩ := referenceFor_spec href
    exact .of_clearDeath ha cookie hmem (hre ▸ (endpointFor_spec he).2.2)
  | doneDeath cookie he => exact .of_doneDeath (endpointFor_spec he).2.2 cookie
  | free buffer he => exact .of_free ha (endpointFor_spec he).2.2 buffer
  | refuse => exact .aside (l := [_, _]) rfl rfl (by simp [Event.Calm])
  | bounce => exact .aside (l := [_, _]) rfl rfl (by simp [Event.Calm])
  | reserve hr => exact .pass (l := []) (hr.carries ha) rfl (by simp)
  | reply hr => exact .pass (l := [_, _]) (hr.carries ha) rfl (by simp [Event.Calm])
  | @oneway e th target node input r hr h0 =>
    obtain ⟨hinv, _⟩ := hr.succeeded ha h0
    refine .pass (l := [_, _]) ((hr.carries ha).trans ?_) rfl (by simp [Event.Calm])
    exact hinv.nodes.carries (g := fun n => if n.id == node.id && n.asyncBuffer == 0 then
      { n with asyncBuffer := r.buffer.address } else n)
      (.map_nodes (fun n _ => by split <;> rfl) rfl rfl) (fun n => by split <;> rfl) rfl rfl
  | call hr => exact .pass (l := [_, _]) (hr.carries ha) rfl (by simp [Event.Calm])
  | deliver he _ hr => exact .of_deliver h he hr
  | teardown => exact .aside (l := [_]) rfl rfl (by simp [Event.Calm])
  | @cancel token tid t _ => exact .of_cancel h token tid t
  | @drop token tid w _ _ hw =>
    have hk := bufferState_endpoint (h.parcelInv.bufferState hw)
    exact .pass (l := [_]) (ha.objects.carries_releaseClaims hk) rfl (by simp [Event.Calm])
  | @erase token tid _ hpos =>
    refine .exit hpos rfl ?_ rfl rfl
    have hmap : Objects.KeptBy (fun n => if n.id != 0 && n.owner == token && n.notificationTid == tid
        then { n with notificationTid := 0 } else n) d.objects (d.eraseThread token tid).objects :=
      .map_nodes (fun n _ => by split <;> rfl) rfl rfl
    refine hmap.kept fun n _ => ?_
    split <;> exact ⟨⟨rfl, rfl, rfl, rfl, rfl, rfl, rfl, rfl, rfl, rfl⟩, rfl⟩
  | @retire token _ h0 =>
    obtain ⟨ho, _⟩ := d.retire_objects token
    obtain ⟨_, _, hh, _⟩ : _ ∧ _ ∧ (d.retire token).history = .released token :: d.history ∧ _ :=
      retire_frame
    exact .retire h0 (ha.objects.retire h0) ho (hl.retire_deaths ha.objects.tables h0) hh

/-! ## What holds of subscriptions -/

/-- The flags of a subscription fit its state. -/
structure Death.Formed (s : Death) : Prop where
  quiet : s.state = .armed ∨ s.state = .deathAcknowledged → s.clearing = false
  clear : s.state = .clearQueued → s.clearing = true
  tid : s.tid ≠ 0 → s.state = .clearQueued

namespace Death.Formed

variable {s : Death}

theorem cleared (h : s.Formed) (th : Thread) : (s.clear th).Formed := by
  unfold Death.clear
  split
  · exact ⟨fun hs => by simp [queueClear] at hs, fun _ => rfl, fun _ => rfl⟩
  next hstate =>
    exact ⟨fun hs => absurd hs hstate, fun _ => rfl, h.tid⟩

theorem acknowledged (h : s.Formed) (hs : s.state = .deathDelivered) (th : Thread) :
    (s.acknowledge th).Formed := by
  unfold Death.acknowledge
  split
  next hc => exact ⟨fun hs => by simp [queueClear] at hs, fun _ => hc, fun _ => rfl⟩
  next hc =>
    refine ⟨fun _ => by simpa using hc, (fun hs => nomatch hs), fun ht => ?_⟩
    have := h.tid ht
    rw [hs] at this
    cases this

theorem delivered (h : s.Formed) (hs : s.state ≠ .clearQueued) :
    ({ s with state := .deathDelivered } : Death).Formed :=
  ⟨fun h => by simp at h, (fun h => nomatch h), fun ht => absurd (h.tid ht) hs⟩

theorem queued (h : s.Formed) (hs : s.state = .armed) :
    ({ s with state := .deathQueued } : Death).Formed := by
  refine ⟨fun h => by simp at h, (fun h => nomatch h), fun ht => ?_⟩
  have := h.tid ht
  rw [hs] at this
  cases this

end Death.Formed

namespace Objects.Links

variable {o o' : Objects}

/-- Subscriptions move on and their references stay. -/
theorem update (h : o.Links) (hr : o'.references = o.references)
    (hkeep : ∀ (i : Nat) (s : Death), o.deaths[i]? = some s → s.endpoint ≠ 0 → s.clearing = false →
      ∃ s' : Death, o'.deaths[i]? = some s' ∧ s'.endpoint = s.endpoint ∧ s'.owner = s.owner ∧
        s'.clearing = false)
    (hold : ∀ (i : Nat) (s' : Death), o'.deaths[i]? = some s' → s'.endpoint ≠ 0 → s'.clearing = false →
      ∃ s : Death, o.deaths[i]? = some s ∧ s.endpoint ≠ 0 ∧ s.clearing = false) : o'.Links := by
  refine ⟨fun r hmem h0 hd => ?_, hr ▸ h.injective, fun i s' hs' h0 hc => ?_⟩
  · obtain ⟨s, hs, hse, hso, hsc⟩ := h.named r (hr ▸ hmem) h0 hd
    obtain ⟨s', hs', he, ho, hcl⟩ := hkeep _ s hs (hse ▸ h0) hsc
    exact ⟨s', hs', he.trans hse, ho.trans hso, hcl⟩
  · obtain ⟨s, hs, hs0, hsc⟩ := hold i s' hs' h0 hc
    rw [hr]
    exact h.naming i s hs hs0 hsc

/-- The subscription of one slot moves on and its references stay. -/
theorem slot {slot : Nat} {s x : Death} (h : o.Links) (hr : o'.references = o.references)
    (hslot : o.deaths[slot]? = some s)
    (hdeaths : ∀ i : Nat, o'.deaths[i]? = if i = slot then some x else o.deaths[i]?)
    (hkeep : s.clearing = false → x.endpoint = s.endpoint ∧ x.owner = s.owner ∧ x.clearing = false)
    (hold : x.endpoint ≠ 0 → x.clearing = false → s.endpoint ≠ 0 ∧ s.clearing = false) : o'.Links := by
  refine h.update hr (fun i y hy _ hyc => ?_) (fun i y hy hy0 hyc => ?_)
  · rw [hdeaths]
    split
    next hi =>
      rw [hi, hslot] at hy
      cases hy
      exact ⟨x, rfl, hkeep hyc⟩
    next => exact ⟨y, hy, rfl, rfl, hyc⟩
  · rw [hdeaths] at hy
    split at hy
    next hi =>
      cases hy
      exact ⟨s, hi ▸ hslot, hold hy0 hyc⟩
    next => exact ⟨y, hy, hy0, hyc⟩

/-- A subscription takes a slot. -/
theorem request {r : Reference} {slot : Nat} {s : Death} (h : o.Links)
    (hr : r ∈ o.references) (hd : r.death = 0)
    (hfree : ∀ s : Death, o.deaths[slot]? = some s → s.endpoint = 0)
    (hw : Writes o o' { r with death := slot + 1 })
    (hdeaths : ∀ i : Nat, o'.deaths[i]? = if i = slot then some s else o.deaths[i]?)
    (he : s.endpoint = r.endpoint) (ho : s.owner = r.owner) (hc : s.clearing = false)
    {claims : List Claim} (ht : o.Tables claims) : o'.Links := by
  -- no reference names the slot yet
  have hslot : ∀ x ∈ o.references, x.endpoint ≠ 0 → x.death ≠ slot + 1 := by
    intro x hx h0 hxd
    obtain ⟨s, hs, hse, _⟩ := h.named x hx h0 (by omega)
    rw [hxd, Nat.add_sub_cancel] at hs
    exact h0 (hse.symm.trans (hfree s hs))
  have hlive : r.endpoint ≠ 0 := hw.live
  refine ⟨fun x hx h0 hxd => ?_, hw.handles.of_key (fun x hx => hx.1) fun x hx y hy lx ly heq => ?_,
    fun i s' hs' h0 hsc => ?_⟩
  · rcases (hw.mem x h0).1 hx with ⟨rfl, _⟩ | ⟨hx, _⟩
    · exact ⟨s, (hdeaths slot).trans (if_pos rfl), he, ho, hc⟩
    · obtain ⟨s', hs', hrest⟩ := h.named x hx h0 hxd
      refine ⟨s', ?_, hrest⟩
      have hne := hslot x hx h0
      rw [hdeaths, if_neg (by omega), hs']
  · rcases (hw.mem x lx.1).1 hx with ⟨rfl, _⟩ | ⟨hx, _⟩ <;>
      rcases (hw.mem y ly.1).1 hy with ⟨rfl, _⟩ | ⟨hy, _⟩
    · rfl
    · exact absurd heq.symm (hslot y hy ly.1)
    · exact absurd heq (hslot x hx lx.1)
    · rw [h.injective.eq_of_mem hx hy lx ly heq]
  · rw [hdeaths] at hs'
    split at hs'
    next hi =>
      cases hs'
      have hcounted : Reference.Counted { r with death := slot + 1 } := ht.counted r hr hlive
      exact ⟨_, (hw.mem _ hw.live).2 (.inl ⟨rfl, hcounted⟩), hw.live, hi ▸ rfl⟩
    next hi =>
      obtain ⟨x, hx, hx0, hxd⟩ := h.naming i s' hs' h0 hsc
      refine ⟨x, (hw.mem x hx0).2 (.inr ⟨hx, fun hk => ?_⟩), hx0, hxd⟩
      have hxr : x = r := ht.handles.eq_of_mem hx hr hx0 hlive (Prod.ext hk.1 hk.2)
      rw [hxr, hd] at hxd
      cases hxd

/-- A subscription is cleared, and its reference names it no more. -/
theorem clear {r : Reference} {slot : Nat} {s : Death} (h : o.Links)
    (hr : r ∈ o.references) (hd : r.death = slot + 1) (hw : Writes o o' { r with death := 0 })
    (hdeaths : ∀ i : Nat, o'.deaths[i]? = if i = slot then some s else o.deaths[i]?)
    (hc : s.clearing = true) {claims : List Claim} (ht : o.Tables claims) : o'.Links := by
  have hlive : r.endpoint ≠ 0 := hw.live
  -- references that name a subscription are old, and not the one written
  have hold : ∀ x ∈ o'.references, x.endpoint ≠ 0 → x.death ≠ 0 →
      x ∈ o.references ∧ x.death ≠ slot + 1 := by
    intro x hx h0 hxd
    rcases (hw.mem x h0).1 hx with ⟨rfl, _⟩ | ⟨hx, hk⟩
    · exact absurd rfl hxd
    · refine ⟨hx, fun heq => hk ?_⟩
      have hxr : x = r := h.injective.eq_of_mem hx hr ⟨h0, hxd⟩ ⟨hlive, by omega⟩ (heq.trans hd.symm)
      rw [hxr]
      exact ⟨rfl, rfl⟩
  refine ⟨fun x hx h0 hxd => ?_, hw.handles.of_key (fun x hx => hx.1) fun x hx y hy lx ly heq => ?_,
    fun i s' hs' h0 hsc => ?_⟩
  · obtain ⟨hx, hne⟩ := hold x hx h0 hxd
    rw [hdeaths, if_neg (by omega)]
    exact h.named x hx h0 hxd
  · rw [h.injective.eq_of_mem (hold x hx lx.1 lx.2).1 (hold y hy ly.1 ly.2).1 lx ly heq]
  · rw [hdeaths] at hs'
    split at hs'
    next =>
      cases hs'
      rw [hc] at hsc
      cases hsc
    next hi =>
      obtain ⟨x, hx, hx0, hxd⟩ := h.naming i s' hs' h0 hsc
      refine ⟨x, (hw.mem x hx0).2 (.inr ⟨hx, fun hk => hi ?_⟩), hx0, hxd⟩
      have hxr : x = r := ht.handles.eq_of_mem hx hr hx0 hlive (Prod.ext hk.1 hk.2)
      rw [hxr, hd] at hxd
      omega

end Objects.Links

/-- What holds of the subscriptions of a device. -/
structure Subscriptions (d : Device) : Prop where
  links : d.objects.Links
  owned : d.objects.Owned
  formed : ∀ (i : Nat) (s : Death), d.objects.deaths[i]? = some s → s.endpoint ≠ 0 → s.Formed
  owner : ∀ (i : Nat) (s : Death), d.objects.deaths[i]? = some s → s.endpoint ≠ 0 →
    (s.state = .armed → (d.endpointFor s.owner).isSome = true) ∧
      (s.state = .deathQueued → .released s.owner ∈ d.history)

/-- What a step that writes one slot keeps of the formed subscriptions. -/
theorem formed_of_slot {d d' : Device} {slot : Nat} {x : Death} (h : Subscriptions d)
    (hdeaths : ∀ i, d'.objects.deaths[i]? = if i = slot then some x else d.objects.deaths[i]?)
    (hx : x.endpoint ≠ 0 → x.Formed ∧ (x.state = .armed → (d'.endpointFor x.owner).isSome = true) ∧
      (x.state = .deathQueued → .released x.owner ∈ d'.history))
    (hpres : ∀ k, (d.endpointFor k).isSome = true → (d'.endpointFor k).isSome = true)
    (hsub : ∀ e ∈ d.history, e ∈ d'.history) (hl : d'.objects.Links) (ho : d'.objects.Owned) :
    Subscriptions d' := by
  have hcase : ∀ (i : Nat) (s : Death), d'.objects.deaths[i]? = some s →
      s = x ∨ d.objects.deaths[i]? = some s := by
    intro i s hs
    rw [hdeaths] at hs
    split at hs
    · cases hs
      exact .inl rfl
    · exact .inr hs
  refine ⟨hl, ho, fun i s hs h0 => ?_, fun i s hs h0 => ?_⟩
  · rcases hcase i s hs with rfl | hs
    · exact (hx h0).1
    · exact h.formed i s hs h0
  · rcases hcase i s hs with rfl | hs
    · exact (hx h0).2
    · obtain ⟨ha, hq⟩ := h.owner i s hs h0
      exact ⟨fun hst => hpres _ (ha hst), fun hst => hsub _ (hq hst)⟩

/-- Owners depend on references and nodes alone. -/
theorem Objects.Owned.congr {o o' : Objects} (h : o.Owned) (hr : o'.references = o.references)
    (hn : o'.nodes = o.nodes) : o'.Owned := by
  intro r hmem h0 n hfor
  rw [nodeFor_congr hn] at hfor
  exact h r (hr ▸ hmem) h0 n hfor

namespace Subscriptions

variable {d d' : Device} {slot : Nat} {s : Death}

/-- A step that is not about subscriptions leaves those that it does not drop. -/
theorem passed {l : List Event} (h : Subscriptions d) (ha' : Accounts d') (hcar : Carries d.objects d'.objects)
    (hh : d'.history = l ++ d.history)
    (hnew : ∀ k, (d.endpointFor k).isSome = true → (d'.endpointFor k).isSome = true) : Subscriptions d' := by
  have hold : ∀ (i : Nat) (s : Death), d'.objects.deaths[i]? = some s → s.endpoint ≠ 0 →
      d.objects.deaths[i]? = some s := by
    intro i s hs h0
    rcases hcar.passes.slots i with heq | ⟨heq, _⟩
    · rw [← heq, hs]
    · rw [heq] at hs
      cases hs
      exact absurd rfl h0
  refine ⟨h.links.passes ha'.objects.tables hcar.passes, hcar.owned h.owned,
    fun i s hs h0 => h.formed i s (hold i s hs h0) h0, fun i s hs h0 => ?_⟩
  obtain ⟨harm, hq⟩ := h.owner i s (hold i s hs h0) h0
  exact ⟨fun hst => hnew _ (harm hst), fun hst => hh ▸ List.mem_append_right _ (hq hst)⟩

/-- A new subscription is armed if the owner is there, and else queued since the owner was released. -/
theorem requested {r : Reference} {cookie : Nat} (h : Subscriptions d) (hr : d.Reachable)
    (hmem : r ∈ d.objects.references) (h0 : r.endpoint ≠ 0) (hd : r.death = 0)
    (hfree : ∀ s, d.objects.deaths[slot]? = some s → s.endpoint = 0)
    (hw : Writes d.objects d'.objects { r with death := slot + 1 }) (hn : d'.objects.nodes = d.objects.nodes)
    (hdeaths : ∀ i, d'.objects.deaths[i]? = if i = slot then some
      { endpoint := r.endpoint, owner := r.owner, cookie
        state := if (d.endpointFor r.owner).isSome then .armed else .deathQueued }
      else d.objects.deaths[i]?)
    (hh : d'.history = .deathRequested r.endpoint slot cookie :: d.history)
    (hnew : ∀ k, (d.endpointFor k).isSome = true → (d'.endpointFor k).isSome = true) : Subscriptions d' := by
  have ha := hr.accounts
  refine formed_of_slot h hdeaths (fun _ => ⟨⟨fun _ => rfl, ?_, fun ht => absurd rfl ht⟩, ?_, ?_⟩) hnew
    (fun e he => hh ▸ List.mem_cons_of_mem _ he)
    (h.links.request hmem hd hfree hw hdeaths rfl rfl rfl ha.objects.tables)
    (hw.owned hn (fun how => how r hmem h0) h.owned)
  · intro hst
    dsimp only at hst
    split at hst <;> cases hst
  · intro hst
    refine hnew _ ?_
    dsimp only at hst ⊢
    by_contra hgone
    rw [if_neg hgone] at hst
    cases hst
  · -- the owner is gone: its node died with it
    intro hst
    dsimp only at hst ⊢
    rw [hh]
    refine List.mem_cons_of_mem _ ?_
    obtain ⟨n, hfor, _⟩ := ha.objects.nodes.referred r hmem h0
    obtain ⟨hlive, hdead⟩ := hr.nodeOwners r.node n hfor
    rw [h.owned r hmem h0 n hfor] at hlive hdead
    refine hdead ?_
    by_contra hnd
    rw [if_pos (hlive (by simpa using hnd))] at hst
    cases hst

/-- A subscription that is cleared is not armed any more, and stays queued only if it was. -/
theorem cleared {r : Reference} (h : Subscriptions d) (ha : Accounts d) (th : Thread)
    (hmem : r ∈ d.objects.references) (h0 : r.endpoint ≠ 0) (hd : r.death = slot + 1)
    (hslot : d.objects.deaths[slot]? = some s) (hw : Writes d.objects d'.objects { r with death := 0 })
    (hn : d'.objects.nodes = d.objects.nodes)
    (hdeaths : ∀ i, d'.objects.deaths[i]? = if i = slot then some (s.clear th) else d.objects.deaths[i]?)
    (hh : d'.history = .deathCleared r.endpoint slot s.cookie :: d.history)
    (hnew : ∀ k, (d.endpointFor k).isSome = true → (d'.endpointFor k).isSome = true) : Subscriptions d' := by
  obtain ⟨x, hx, hxe, hxo, hxc⟩ := h.links.named r hmem h0 (by omega)
  rw [hd, Nat.add_sub_cancel, hslot] at hx
  cases hx
  have hs0 : s.endpoint ≠ 0 := hxe ▸ h0
  have hc : (s.clear th).clearing = true := by
    unfold Death.clear
    split <;> rfl
  have hstate : (s.clear th).state ≠ .armed ∧
      ((s.clear th).state = .deathQueued → s.state = .deathQueued) ∧ (s.clear th).owner = s.owner := by
    unfold Death.clear
    split
    next => exact ⟨fun h => DeathState.noConfusion h, fun h => DeathState.noConfusion h, rfl⟩
    next hst => exact ⟨fun h => hst (.inl h), id, rfl⟩
  refine formed_of_slot h hdeaths (fun _ => ⟨(h.formed slot s hslot hs0).cleared th,
    fun hst => absurd hst hstate.1, fun hst => ?_⟩) hnew
    (fun e he => hh ▸ List.mem_cons_of_mem _ he)
    (h.links.clear hmem hd hw hdeaths hc ha.objects.tables)
    (hw.owned hn (fun how => how r hmem h0) h.owned)
  rw [hstate.2.2, hh]
  exact List.mem_cons_of_mem _ ((h.owner slot s hslot hs0).2 (hstate.2.1 hst))

/-- An acknowledged notification is neither armed nor queued. -/
theorem acknowledged {k : Nat} (h : Subscriptions d) (th : Thread) (hslot : d.objects.deaths[slot]? = some s)
    (hs0 : s.endpoint ≠ 0) (hst : s.state = .deathDelivered)
    (hrefs : d'.objects.references = d.objects.references) (hn : d'.objects.nodes = d.objects.nodes)
    (hdeaths : ∀ i, d'.objects.deaths[i]? = if i = slot then some (s.acknowledge th) else d.objects.deaths[i]?)
    (hh : d'.history = .deathDone k slot s.cookie :: d.history)
    (hnew : ∀ k, (d.endpointFor k).isSome = true → (d'.endpointFor k).isSome = true) : Subscriptions d' := by
  have hsame : (s.acknowledge th).endpoint = s.endpoint ∧ (s.acknowledge th).owner = s.owner ∧
      (s.acknowledge th).clearing = s.clearing ∧ (s.acknowledge th).state ≠ .armed ∧
      (s.acknowledge th).state ≠ .deathQueued := by
    unfold Death.acknowledge
    split <;> exact ⟨rfl, rfl, rfl, fun h => DeathState.noConfusion h, fun h => DeathState.noConfusion h⟩
  obtain ⟨hend, howner, hclearing, harmed, hqueued⟩ := hsame
  exact formed_of_slot h hdeaths (fun _ => ⟨(h.formed slot s hslot hs0).acknowledged hst th,
    fun hst => absurd hst harmed, fun hst => absurd hst hqueued⟩)
    hnew (fun e he => hh ▸ List.mem_cons_of_mem _ he)
    (h.links.slot hrefs hslot hdeaths (fun hc => ⟨hend, howner, hclearing.trans hc⟩)
      fun _ hc => ⟨hs0, hclearing ▸ hc⟩)
    (h.owned.congr hrefs hn)

/-- A return that was written leaves a delivered notification, or a free slot where it confirmed a
clearing. -/
theorem notified {k : Nat} {tid : Int} (h : Subscriptions d) (hslot : d.objects.deaths[slot]? = some s)
    (hs0 : s.endpoint ≠ 0) (hrefs : d'.objects.references = d.objects.references)
    (hn : d'.objects.nodes = d.objects.nodes)
    (hdeaths : ∀ i, d'.objects.deaths[i]? = if i = slot then some s.deliver else d.objects.deaths[i]?)
    (hh : d'.history = .deathReturned k tid slot s.returnWord s.cookie :: d.history)
    (hnew : ∀ k, (d.endpointFor k).isSome = true → (d'.endpointFor k).isSome = true) : Subscriptions d' := by
  have hform := h.formed slot s hslot hs0
  refine formed_of_slot h hdeaths (fun hx0 => ?_) hnew (fun e he => hh ▸ List.mem_cons_of_mem _ he)
    (h.links.slot hrefs hslot hdeaths (fun hc => ?_) fun hx0 hc => ?_) (h.owned.congr hrefs hn)
  · unfold Death.deliver at hx0 ⊢
    split at hx0
    · exact absurd rfl hx0
    next hcq =>
      rw [if_neg hcq]
      exact ⟨hform.delivered hcq, fun h => DeathState.noConfusion h, fun h => DeathState.noConfusion h⟩
  · unfold Death.deliver
    split
    next hcq =>
      rw [hform.clear hcq] at hc
      cases hc
    next => exact ⟨rfl, rfl, hc⟩
  · unfold Death.deliver at hx0 hc
    split at hx0
    · exact absurd rfl hx0
    next hcq =>
      rw [if_neg hcq] at hc
      exact ⟨hs0, hc⟩

/-- The end of a thread drops the clearings that were queued to it. -/
theorem exited {k : Nat} {tid : Int} (h : Subscriptions d) (ha : Accounts d) (hpos : 0 < tid)
    (hrefs : d'.objects.references = d.objects.references) (hkept : Kept d.objects d'.objects)
    (hdeaths : d'.objects.deaths =
      update (fun s => s.endpoint == k && s.tid == tid) (fun _ => {}) d.objects.deaths)
    (hh : d'.history = .exited k tid :: d.history)
    (hnew : ∀ k, (d.endpointFor k).isSome = true → (d'.endpointFor k).isSome = true) : Subscriptions d' := by
  have hslot : ∀ i : Nat, d'.objects.deaths[i]? = (d.objects.deaths[i]?).map fun s =>
      if s.endpoint == k && s.tid == tid then {} else s := fun i => by
    rw [hdeaths, Slots.update, List.getElem?_map]
  have hold : ∀ (i : Nat) (s : Death), d'.objects.deaths[i]? = some s → s.endpoint ≠ 0 →
      d.objects.deaths[i]? = some s := by
    intro i s hs hs0
    rw [hslot] at hs
    obtain ⟨x, hx, heq⟩ := Option.map_eq_some_iff.1 hs
    split at heq
    · rw [← heq] at hs0
      exact absurd rfl hs0
    · rw [hx, heq]
  refine ⟨?_, fun r hmem h0 n hfor => ?_, fun i s hs h0 => h.formed i s (hold i s hs h0) h0,
    fun i s hs h0 => ?_⟩
  · refine h.links.update hrefs (fun i x hx hx0 hxc => ?_)
      (fun i x hx hx0 hxc => ⟨x, hold i x hx hx0, hx0, hxc⟩)
    rw [hslot, hx]
    refine ⟨_, rfl, ?_⟩
    dsimp only
    rw [if_neg]
    · exact ⟨rfl, rfl, hxc⟩
    · -- an exiting thread owns clearings only
      intro hm
      simp only [Bool.and_eq_true, beq_iff_eq] at hm
      have hform := h.formed i x hx hx0
      have := hform.clear (hform.tid (by omega))
      rw [hxc] at this
      cases this
  · obtain ⟨y, hy, hs⟩ := hkept.nodes r.node n hfor |>.resolve_right fun hborn => by
      obtain ⟨y, hy, _⟩ := ha.objects.nodes.referred r (hrefs ▸ hmem) h0
      obtain ⟨hin, hid, hid0⟩ := nodeFor_spec hy
      exact hborn.1 (hid ▸ ha.objects.nodes.issued y hin (hid ▸ hid0))
    exact hs.owner.trans (h.owned r (hrefs ▸ hmem) h0 y hy)
  · obtain ⟨harm, hq⟩ := h.owner i s (hold i s hs h0) h0
    exact ⟨fun hst => hnew _ (harm hst), fun hst => hh ▸ List.mem_cons_of_mem _ (hq hst)⟩

theorem bereave_blank {token : Nat} (h : s.endpoint = 0) : (bereave token s).endpoint = 0 := by
  unfold bereave
  split
  · rfl
  · split <;> exact h

/-- The end of an endpoint leaves a subscription well formed; it is armed only if its owner is another
one, and queued if the owner is this one or if it was. -/
theorem bereaved {token : Nat} (h : Subscriptions d) {i : Nat} (hs : d.objects.deaths[i]? = some s)
    (hs0 : (bereave token s).endpoint ≠ 0) : (bereave token s).Formed ∧
      ((bereave token s).state = .armed → s.owner ≠ token ∧ s.state = .armed ∧ (bereave token s).owner = s.owner) ∧
      ((bereave token s).state = .deathQueued →
        (bereave token s).owner = token ∨ s.state = .deathQueued ∧ (bereave token s).owner = s.owner) := by
  have hse : s.endpoint ≠ 0 := fun hblank => hs0 (bereave_blank hblank)
  have hform := h.formed i s hs hse
  unfold bereave at hs0 ⊢
  split at hs0
  · exact absurd rfl hs0
  next hne =>
    rw [if_neg hne]
    split
    next hcond =>
      exact ⟨hform.queued hcond.2.2, fun h => DeathState.noConfusion h, fun _ => .inl hcond.2.1⟩
    next hcond =>
      exact ⟨hform, fun hst => ⟨fun ho => hcond ⟨hse, ho, hst⟩, hst, rfl⟩, fun hst => .inr ⟨hst, rfl⟩⟩

/-- The end of an endpoint queues the notifications that wait for it and drops its own subscriptions. -/
theorem retired {token : Nat} {o : Objects} (h : Subscriptions d) (hret : Retired d.objects o token)
    (ho : d'.objects = (if d.manager = token then { o with managerNode := 0 } else o))
    (hdeaths : o.deaths = d.objects.deaths.map (bereave token))
    (hh : d'.history = .released token :: d.history)
    (hnew : ∀ k, k ≠ token → (d.endpointFor k).isSome = true → (d'.endpointFor k).isSome = true) :
    Subscriptions d' := by
  have hsame : d'.objects.references = o.references ∧ d'.objects.deaths = o.deaths ∧
      ∀ id, d'.objects.nodeFor id = o.nodeFor id := by
    rw [ho]
    split <;> exact ⟨rfl, rfl, fun _ => rfl⟩
  have hold : ∀ (i : Nat) (s' : Death), d'.objects.deaths[i]? = some s' →
      ∃ s, d.objects.deaths[i]? = some s ∧ s' = bereave token s := by
    intro i s' hs'
    rw [hsame.2.1, hdeaths, List.getElem?_map] at hs'
    obtain ⟨s, hs, rfl⟩ := Option.map_eq_some_iff.1 hs'
    exact ⟨s, hs, rfl⟩
  refine ⟨?_, fun r hmem hr0 n hfor => ?_, fun i s' hs' hs0 => ?_, fun i s' hs' hs0 => ?_⟩
  · refine (h.links.retire hret hdeaths).update hsame.1 (fun i x hx _ hxc => ⟨x, ?_, rfl, rfl, hxc⟩)
      (fun i x hx hx0 hxc => ⟨x, ?_, hx0, hxc⟩)
    · rw [hsame.2.1, hx]
    · rw [← hsame.2.1, hx]
  · rw [hsame.2.2] at hfor
    exact h.owned.retire hret r (hsame.1 ▸ hmem) hr0 n hfor
  · obtain ⟨s, hs, rfl⟩ := hold i s' hs'
    exact (h.bereaved hs hs0).1
  · obtain ⟨s, hs, rfl⟩ := hold i s' hs'
    obtain ⟨_, harmed, hqueued⟩ := h.bereaved hs hs0
    have hse : s.endpoint ≠ 0 := fun hblank => hs0 (bereave_blank hblank)
    obtain ⟨harm, hq⟩ := h.owner i s hs hse
    rw [hh]
    refine ⟨fun hst => ?_, fun hst => ?_⟩
    · obtain ⟨hne, hst, howner⟩ := harmed hst
      rw [howner]
      exact hnew _ hne (harm hst)
    · rcases hqueued hst with howner | ⟨hst, howner⟩
      · rw [howner]
        exact List.mem_cons_self
      · rw [howner]
        exact List.mem_cons_of_mem _ (hq hst)

/-- Every step keeps what holds of the subscriptions, by its kind. -/
theorem step (h : Subscriptions d) (hr : d.Reachable) (hs : Step d d') : Subscriptions d' := by
  have ha := hr.accounts
  have hr' : d'.Reachable := .step hr hs
  have hpres : ∀ {l : List Event}, d'.history = l ++ d.history → ∀ k, .released k ∉ l →
      (d.endpointFor k).isSome = true → (d'.endpointFor k).isSome = true :=
    fun hh k hk => hs.present hr.endpointIds hh hk
  cases hs.deaths hr h.links with
  | pass hcar hh hcalm =>
    exact h.passed hr'.accounts hcar hh fun k => hpres hh k fun hk => hcalm _ hk
  | request hmem h0 hd hfree hw hn hdeaths hh =>
    exact h.requested hr hmem h0 hd hfree hw hn hdeaths hh fun k => hpres (l := [_]) hh k (by simp)
  | clear th hmem h0 hd hslot hw hn hdeaths hh =>
    exact h.cleared ha th hmem h0 hd hslot hw hn hdeaths hh fun k => hpres (l := [_]) hh k (by simp)
  | done th hslot he h0 hst hrefs hn hdeaths hh =>
    exact h.acknowledged th hslot (he ▸ h0) hst hrefs hn hdeaths hh fun k => hpres (l := [_]) hh k (by simp)
  | notify hslot he h0 _ hrefs hn hdeaths hh =>
    exact h.notified hslot (he ▸ h0) hrefs hn hdeaths hh fun k => hpres (l := [_]) hh k (by simp)
  | exit hpos hrefs hkept hdeaths hh =>
    exact h.exited ha hpos hrefs hkept hdeaths hh fun k => hpres (l := [_]) hh k (by simp)
  | retire _ hret ho hdeaths hh =>
    exact h.retired hret ho hdeaths hh fun k hne => hpres (l := [_]) hh k (by simpa using hne)

end Subscriptions

/-- Every reachable device has its subscriptions in order. -/
theorem Device.Reachable.subscriptions {d : Device} (h : d.Reachable) : Subscriptions d := by
  induction h with
  | init hi =>
    obtain ⟨_, _, _, ho, _⟩ := machine_init hi
    refine ⟨⟨?_, ?_, ?_⟩, ?_, ?_, ?_⟩ <;> rw [ho]
    · exact fun r hr => nomatch hr
    · exact .nil
    · exact fun i s hs => by simp at hs
    · exact fun r hr => nomatch hr
    · exact fun i s hs => by simp at hs
    · exact fun i s hs => by simp at hs
  | step hr hs ih => exact ih.step hr hs

end Artbox.Binder
