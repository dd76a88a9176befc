import Artbox.Binder.Owners
import Artbox.Binder.Settled
import Artbox.Binder.Delivery

/-!
# One-way calls, one at a time

The one-way parcels of a node are delivered in the order of their acceptance, and the next
one only when the buffer of the last one is freed. The node's `asyncBuffer` sees to it
(`Gates`): it is zero if none of its parcels is queued or unfreed, it is the buffer of the
unfreed one if there is one (`Outstanding`), and else of the first in the queue.
-/

namespace Artbox.Binder

open Slots Trace Objects

/-! ## Unfreed parcels -/

/-- The parcel was delivered and its buffer is there since. -/
def Outstanding (w : Work) : List Event → Prop
  | [] => False
  | .delivered _ _ _ w' :: h => w' = w ∨ Outstanding w h
  | .freed k x :: h => ¬ (k = w.endpoint ∧ x = w.value.dataBuffer) ∧ Outstanding w h
  | .released k :: h => k ≠ w.endpoint ∧ Outstanding w h
  | _ :: h => Outstanding w h

instance decidableOutstanding (w : Work) : ∀ h : List Event, Decidable (Outstanding w h)
  | [] => isFalse id
  | e :: h => by
    have := decidableOutstanding w h
    cases e <;> unfold Outstanding <;> infer_instance

/-- An event that neither delivers a parcel nor takes a buffer away from its endpoint. -/
def Event.Inert : Event → Prop
  | delivered _ _ _ _ | freed _ _ | released _ => False
  | _ => True

theorem Event.Mute.inert {e : Event} (h : e.Mute) : e.Inert := by
  cases e <;> first | exact h | trivial

theorem outstanding_inert {w : Work} {l h : List Event} (hl : ∀ e ∈ l, e.Inert) :
    Outstanding w (l ++ h) ↔ Outstanding w h := by
  induction l with
  | nil => exact .rfl
  | cons e es ih =>
    have he := hl e List.mem_cons_self
    have ih := ih fun x hx => hl x (List.mem_cons_of_mem _ hx)
    cases e <;> first | exact ih | exact he.elim

/-- The buffers of unfreed parcels are there, one for each. -/
structure Unfreed (d : Device) : Prop where
  delivered : ∀ w, Outstanding w d.history → d.bufferState w.endpoint w.value.dataBuffer = some true
  once : ∀ w w', Outstanding w d.history → Outstanding w' d.history → w.endpoint = w'.endpoint →
    w.value.dataBuffer = w'.value.dataBuffer → w = w'

namespace Unfreed

variable {d d' : Device}

/-- A step that delivers nothing and keeps delivered buffers. -/
theorem inert (h : Unfreed d) {l : List Event} (hh : d'.history = l ++ d.history)
    (hl : ∀ e ∈ l, e.Inert)
    (hs : ∀ k x, d.bufferState k x = some true → d'.bufferState k x = some true) : Unfreed d' := by
  have hiff : ∀ w, Outstanding w d'.history ↔ Outstanding w d.history := fun w =>
    hh ▸ outstanding_inert hl
  refine ⟨fun w hw => hs _ _ (h.delivered w ((hiff w).1 hw)), fun w w' hw hw' => ?_⟩
  exact h.once w w' ((hiff w).1 hw) ((hiff w').1 hw')

theorem step (h : Unfreed d) (hd : Handling d d') : Unfreed d' := by
  cases hd with
  | quiet _ _ _ hs _ hh hl =>
    exact h.inert hh (fun e he => (hl e he).inert) fun k x hx => (hs k x).trans hx
  | accept _ _ _ _ _ _ _ _ _ _ hnone hs _ hh =>
    refine h.inert (l := [_, _]) hh (by simp [Event.Inert]) fun k x hx => ?_
    rw [hs, if_neg]
    · exact hx
    · rintro ⟨rfl, rfl⟩
      rw [hnone] at hx
      cases hx
  | @deliver e th index w _ _ _ _ hwe _ hfalse hs _ hh =>
    -- no unfreed parcel has the buffer of a queued one
    have hne : ∀ w', Outstanding w' d.history →
        ¬ (w'.endpoint = e.token ∧ w'.value.dataBuffer = w.value.dataBuffer) := by
      rintro w' hw' ⟨h1, h2⟩
      have htrue := h.delivered w' hw'
      rw [h1, h2, hfalse] at htrue
      cases htrue
    rw [← hwe] at hne
    refine ⟨fun w' hw' => ?_, fun w₁ w₂ hw₁ hw₂ he hx => ?_⟩
    · rw [hs]
      rw [hh] at hw'
      rcases hw' with rfl | hw'
      · rw [if_pos ⟨hwe, rfl⟩]
      · rw [if_neg (hwe ▸ hne w' hw')]
        exact h.delivered w' hw'
    · rw [hh] at hw₁ hw₂
      rcases hw₁ with rfl | hw₁ <;> rcases hw₂ with rfl | hw₂
      · rfl
      · exact absurd ⟨he.symm, hx.symm⟩ (hne w₂ hw₂)
      · exact absurd ⟨he, hx⟩ (hne w₁ hw₁)
      · exact h.once w₁ w₂ hw₁ hw₂ he hx
  | free _ _ _ _ _ hs _ hh =>
    refine ⟨fun w hw => ?_, fun w w' hw hw' => ?_⟩
    · rw [hh] at hw
      rw [hs, if_neg fun heq => hw.1 ⟨heq.1.symm, heq.2.symm⟩]
      exact h.delivered w hw.2
    · rw [hh] at hw hw'
      exact h.once w w' hw.2 hw'.2
  | @drop token tid ws l _ _ _ hfalse _ _ hs _ hh hl =>
    rw [← List.append_assoc] at hh
    refine h.inert hh (fun e he => ?_) fun k x hx => ?_
    · rcases List.mem_append.1 he with he | he
      · obtain ⟨w, _, rfl⟩ := List.mem_map.1 (List.mem_reverse.1 he)
        trivial
      · exact (hl e he).inert
    · rw [hs, if_neg]
      · exact hx
      · rintro ⟨w, hw, rfl, rfl⟩
        rw [hfalse w hw] at hx
        cases hx
  | register _ _ _ _ _ _ _ _ _ _ _ _ _ _ _ hs _ hh =>
    exact h.inert (l := []) hh (by simp) fun k x hx => (hs k x).trans hx
  | done _ _ _ _ _ _ _ hs _ hh =>
    exact h.inert (l := [_]) hh (by simp [Event.Inert]) fun k x hx => (hs k x).trans hx
  | command _ _ _ _ _ _ _ _ _ hs _ hh =>
    exact h.inert (l := [_]) hh (by simp [Event.Inert]) fun k x hx => (hs k x).trans hx
  | retire _ _ _ _ _ hs _ _ hh =>
    refine ⟨fun w hw => ?_, fun w w' hw hw' => ?_⟩
    · rw [hh] at hw
      rw [hs, if_neg (Ne.symm hw.1)]
      exact h.delivered w hw.2
    · rw [hh] at hw hw'
      exact h.once w w' hw.2 hw'.2

end Unfreed

theorem Device.Reachable.unfreed {d : Device} (h : d.Reachable) : Unfreed d := by
  refine h.inv_of (J := fun d => d.Reachable) (fun _ h => h) (fun d hi => ?_) fun d d' hr hu hs =>
    hu.step (Device.Reachable.handling hr hs)
  obtain ⟨_, _, _, _, hh, _⟩ := machine_init hi
  refine ⟨fun w hw => ?_, fun w w' hw => ?_⟩ <;> rw [hh] at hw <;> exact hw.elim

/-! ## Nodes of parcels -/

/-- The parcel's buffer holds its node, or the node is a live manager's. -/
def Device.Holds (d : Device) (w : Work) : Prop :=
  (∃ c ∈ d.objects.claims, c.endpoint ≠ 0 ∧ c.At w.endpoint w.value.dataBuffer ∧
    c.node = w.asyncNode ∧ c.remote = false) ∨
  ∃ n, d.objects.nodeFor w.asyncNode = some n ∧ n.owner = w.endpoint ∧ n.manager = true ∧
    n.dead = false

namespace Device.Holds

variable {d d' : Device} {w : Work}

/-- The parcel's node, which its endpoint owns. -/
theorem node (h : d.Holds w) (ha : Accounts d) :
    ∃ n, d.objects.nodeFor w.asyncNode = some n ∧ n.owner = w.endpoint := by
  rcases h with ⟨c, hc, h0, hat, hn, hrem⟩ | ⟨n, hn, how, _⟩
  · obtain ⟨n, hfor, how⟩ := ha.objects.nodes.claimed c hc h0
    refine ⟨n, hn ▸ hfor, ?_⟩
    by_contra hne
    rw [how.2 (hat.1 ▸ hne)] at hrem
    cases hrem
  · exact ⟨n, hn, how⟩

/-- An edit of nodes that leaves owners and managers alone. -/
theorem moves {g : Node → Node} (h : d.Holds w) (hm : Moves g d.objects d'.objects)
    (hg : ∀ n, (g n).owner = n.owner ∧ (g n).manager = n.manager ∧ (g n).dead = n.dead)
    (hc : ∀ c ∈ d.objects.claims, c.endpoint ≠ 0 → c.At w.endpoint w.value.dataBuffer →
      c ∈ d'.objects.claims) : d'.Holds w := by
  rcases h with ⟨c, hmem, h0, hat, hn⟩ | ⟨n, hn, how, hman, hdead⟩
  · exact .inl ⟨c, hc c hmem h0 hat, h0, hat, hn⟩
  · obtain ⟨h1, h2, h3⟩ := hg n
    obtain ⟨n', hn', hs⟩ := hm.kept.stays _ n hn (h2.trans hman) (h3.trans hdead)
    exact .inr ⟨n', hn', hs.owner.trans (h1.trans how), hs.manager.trans (h2.trans hman),
      hs.dead.trans (h3.trans hdead)⟩

/-- Every step keeps it for a buffer that is not taken away. -/
theorem step (h : d.Holds w) (ha : Accounts d) (hd : Handling d d')
    (hbuf : d'.bufferState w.endpoint w.value.dataBuffer ≠ none) : d'.Holds w := by
  cases hd with
  | quiet _ hq hc => exact h.moves hq id_frame fun c hmem h0 _ => (hc c h0).2 hmem
  | accept _ _ _ _ _ _ hm _ hc hl =>
    exact h.moves hm (like_frame (gate_like _)) fun c hmem h0 _ => hc ▸ hl.counts.claims c hmem h0
  | deliver _ _ _ _ _ ho =>
    unfold Device.Holds
    rw [ho]
    exact h
  | free _ _ _ hm hc hs =>
    refine h.moves hm (like_frame (advance_like _ _ _ _)) fun c hmem h0 hat => (hc c h0).2 ⟨hmem, ?_⟩
    rintro ⟨h1, h2⟩
    exact hbuf (by rw [hs, if_pos ⟨hat.1.symm.trans h1, hat.2.symm.trans h2⟩])
  | drop _ _ _ _ hq hc hs =>
    refine h.moves hq id_frame fun c hmem h0 hat => (hc c h0).2 ⟨hmem, fun x hx hat' => ?_⟩
    exact hbuf (by rw [hs, if_pos ⟨x, hx, hat'.1.symm.trans hat.1, hat'.2.symm.trans hat.2⟩])
  | @register e n _ _ _ _ _ _ _ hnew hn0 _ _ hinv _ hc hfor =>
    rcases h with ⟨c, hmem, h0, hat, hn⟩ | ⟨x, hx, hrest⟩
    · exact .inl ⟨c, hc ▸ hmem, h0, hat, hn⟩
    · refine .inr ⟨x, ?_, hrest⟩
      rw [hfor, if_neg]
      · exact hx
      · -- a node that is there has its id
        intro heq
        obtain ⟨hmem, hid, h0⟩ := nodeFor_spec hx
        rw [← heq, ← hid] at hnew
        exact hnew (ha.objects.nodes.issued x hmem (hid ▸ h0))
  | done _ _ _ _ _ hm hc => exact h.moves hm (acked_frame _ _) fun c hmem h0 _ => (hc c h0).2 hmem
  | command _ _ _ _ _ _ _ hm hc =>
    exact h.moves hm (told_frame _ _) fun c hmem h0 _ => (hc c h0).2 hmem
  | @retire token o _ hr ho _ _ hs =>
    have hne : w.endpoint ≠ token := fun heq => hbuf (by rw [hs, if_pos heq])
    have hclaims : d'.objects.claims = o.claims ∧ ∀ id, d'.objects.nodeFor id = o.nodeFor id := by
      rw [ho]
      split <;> exact ⟨rfl, fun _ => rfl⟩
    rcases h with ⟨c, hmem, h0, hat, hn⟩ | ⟨x, hx, how, hman, hdead⟩
    · refine .inl ⟨c, ?_, h0, hat, hn⟩
      rw [hclaims.1, hr.claims]
      refine mem_update_of_not hmem ?_
      simp [claimMatches, hat.1, hne]
    · have horphan : orphan token x = x := by
        unfold orphan
        rw [if_neg]
        simp [how, hne]
      obtain ⟨n', hn', hsame⟩ := hr.moves.kept.stays _ x hx (by rw [horphan, hman])
        (by rw [horphan, hdead])
      rw [horphan] at hsame
      exact .inr ⟨n', by rw [hclaims.2, hn'], hsame.owner.trans how, hsame.manager.trans hman,
        hsame.dead.trans hdead⟩

end Device.Holds

/-- The call's buffer holds the node it is addressed to, unless that is a manager's. -/
theorem Reserved.claims {d : Device} {e target : Endpoint} {th : Thread} {n : Node}
    {input : TransactionData} {r : Reservation} (ha : Accounts d)
    (hr : Reserved d e th target (some n) input r) (h0 : r.result = 0) : n.manager = true ∨
      ∃ c ∈ r.objects.claims, c.endpoint ≠ 0 ∧ c.At target.token r.buffer.address ∧
        c.node = n.id ∧ c.remote = false := by
  obtain ⟨ω, host, w, w', hres⟩ := hr.result
  have hk := (Device.endpointFor_spec hr.targetFound).2.2
  obtain ⟨arena, held, hacc⟩ := reservePayload_ok hres h0
  obtain ⟨hn, how⟩ := hr.nodeFound n rfl
  have hheld := hacc.claimed
  obtain ⟨_, hinv⟩ := ha.objects.claimTarget (b := r.buffer.address) hk hr.nodeFound
  rw [hheld] at hinv
  obtain ⟨hloaded, _⟩ := (hinv rfl).translate (k := e.token) (i := th.tid)
    (b := r.buffer.address) hk (offsetTable r.offsets) r.sent
  rw [hacc.translated] at hloaded
  unfold claimTarget at hheld
  simp only at hheld
  split at hheld
  next hman => exact .inl hman
  next hman =>
    refine .inr ?_
    have hrem : false = (n.owner != target.token) := by simp [how]
    split at hheld
    · cases hheld
    next handle o₁ heq =>
      cases hheld
      obtain ⟨hno, _⟩ | ⟨handle', _, hadd⟩ := ha.objects.toSound.addClaim hk hn hrem heq
      · cases hno
      · have hmem := (hadd.mem ⟨target.token, r.buffer.address, n.id, handle', false⟩ hk).2 (.inl rfl)
        exact ⟨_, hloaded.counts.claims _ hmem hk, hk, ⟨rfl, rfl⟩, rfl, rfl⟩

/-! ## Dead nodes -/

/-- The owner of a dead node is gone, and its token is handed out to no other. -/
def DeadGone (d : Device) : Prop :=
  ∀ id n, d.objects.nodeFor id = some n → n.dead = true →
    Issued d.nextToken n.owner ∧ d.endpointFor n.owner = none

/-- A step kills nodes of an endpoint it takes away only. -/
theorem Handling.dead {d d' : Device} (hd : Handling d d') {id : Nat} {n' : Node}
    (hn' : d'.objects.nodeFor id = some n') (hdead : n'.dead = true) :
    ∃ n, d.objects.nodeFor id = some n ∧ n'.owner = n.owner ∧
      (n.dead = true ∨ d'.endpointFor n'.owner = none) := by
  have hmoves : ∀ g : Node → Node, Moves g d.objects d'.objects →
      (∀ n, (g n).owner = n.owner ∧ (g n).manager = n.manager ∧ (g n).dead = n.dead) →
        ∃ n, d.objects.nodeFor id = some n ∧ n'.owner = n.owner ∧
          (n.dead = true ∨ d'.endpointFor n'.owner = none) := by
    intro g hm hg
    rcases hm.kept.nodes id n' hn' with ⟨n, hn, hs⟩ | ⟨_, hf, _⟩
    · exact ⟨n, hn, hs.owner.trans (hg n).1, .inl ((hg n).2.2.symm.trans (hs.dead.symm.trans hdead))⟩
    · rw [hf.dead] at hdead
      cases hdead
  cases hd with
  | quiet _ hq => exact hmoves _ hq id_frame
  | accept _ _ _ _ _ _ hm => exact hmoves _ hm (like_frame (gate_like _))
  | deliver _ _ _ _ _ ho =>
    rw [ho] at hn'
    exact ⟨n', hn', rfl, .inl hdead⟩
  | free _ _ _ hm => exact hmoves _ hm (like_frame (advance_like _ _ _ _))
  | drop _ _ _ _ hq => exact hmoves _ hq id_frame
  | register _ _ _ _ _ _ hf _ _ _ _ _ _ _ hfor =>
    rw [hfor] at hn'
    split at hn'
    · cases hn'
      rw [hf.dead] at hdead
      cases hdead
    · exact ⟨n', hn', rfl, .inl hdead⟩
  | done _ _ _ _ _ hm => exact hmoves _ hm (acked_frame _ _)
  | command _ _ _ _ _ _ _ hm => exact hmoves _ hm (told_frame _ _)
  | @retire token o _ hr ho _ hpres =>
    have hfor : d'.objects.nodeFor id = o.nodeFor id := by
      rw [ho]
      split <;> rfl
    rw [hfor, hr.nodes, Option.filter_eq_some_iff] at hn'
    obtain ⟨n, hn, rfl⟩ := Option.map_eq_some_iff.1 hn'.1
    refine ⟨n, hn, ?_⟩
    unfold orphan at hdead ⊢
    split
    next hown =>
      -- its owner is the released endpoint
      simp only [Bool.and_eq_true, beq_iff_eq] at hown
      refine ⟨rfl, .inr ?_⟩
      change d'.endpointFor n.owner = none
      rw [← Option.not_isSome_iff_eq_none, hpres, hown.2]
      exact fun h => h.2 rfl
    next hown =>
      rw [if_neg hown] at hdead
      exact ⟨rfl, .inl hdead⟩

theorem Device.Reachable.deadGone {d : Device} (h : d.Reachable) : DeadGone d := by
  refine h.inv_of (J := fun d => d.Reachable) (fun _ h => h) (fun d hi => ?_)
    fun d d' hr hg hs id n' hn' hdead => ?_
  · intro id n hn
    rw [(machine_init hi).2.2.2.1] at hn
    cases hn
  · have hr : d.Reachable := hr
    obtain ⟨n, hn, how, hcase⟩ := (hr.handling hs).dead hn' hdead
    have hissued : Issued d.nextToken n.owner := by
      cases hlive : n.dead with
      | true => exact (hg id n hn hlive).1
      | false =>
        obtain ⟨e, he⟩ := Option.isSome_iff_exists.1 ((hr.nodeOwners id n hn).1 hlive)
        obtain ⟨hmem, htok, h0⟩ := Device.endpointFor_spec he
        exact htok ▸ hr.endpointIds.issued e hmem (htok ▸ h0)
    rw [how] at hcase ⊢
    obtain ⟨hi, hgone⟩ := Step.endpoint hr.endpointIds hs hissued
    refine ⟨hi, hcase.elim (fun hlive => ?_) fun hnone => hnone⟩
    rcases hgone with hgone | ⟨e, _, he, _⟩
    · exact hgone
    · rw [(hg id n hn hlive).2] at he
      cases he

/-- The nodes of an endpoint that is there are alive. -/
theorem DeadGone.alive {d : Device} (h : DeadGone d) {id : Nat} {n : Node}
    (hn : d.objects.nodeFor id = some n) (hk : (d.endpointFor n.owner).isSome = true) :
    n.dead = false := by
  cases hdead : n.dead with
  | false => rfl
  | true =>
    rw [(h id n hn hdead).2] at hk
    cases hk

/-! ## Accepted parcels -/

/-- A parcel that a step accepts is queued by it. -/
theorem Traffic.accepted {d d' : Device} (ht : Traffic d d') {p : Parcel}
    (hp : .accepted p ∈ d'.history) : .accepted p ∈ d.history ∨ p.work ∈ d'.work := by
  cases ht with
  | quiet _ _ hh hn =>
    rw [hh, List.mem_append] at hp
    exact .inl (hp.resolve_left fun hmem => hn _ hmem)
  | accept _ _ hw hh =>
    rw [hh] at hp
    simp only [List.mem_cons, reduceCtorEq, false_or, Event.accepted.injEq] at hp
    rcases hp with rfl | hp
    · exact .inr (by simp [hw])
    · exact .inl hp
  | deliver _ _ _ _ _ _ hh =>
    rw [hh] at hp
    exact .inl (by simpa using hp)
  | drop hcut _ _ _ _ _ _ hh =>
    rw [hh, List.mem_append, List.mem_append] at hp
    rcases hp with hp | hp | hp
    · simp at hp
    · obtain ⟨_, _, _, _, he⟩ := hcut.cancelled _ hp
      cases he
    · exact .inl hp

/-- What kind of parcel an accepted one is. -/
theorem Device.Reachable.shapes {d : Device} (h : d.Reachable) :
    ∀ p, .accepted p ∈ d.history → p.work.Shaped := by
  refine h.inv_of (I := fun d => ∀ p, .accepted p ∈ d.history → p.work.Shaped)
    (J := fun d => d.Reachable) (fun _ h => h) (fun d hi => ?_) fun d d' hr hold hs p hp => ?_
  · simp [(machine_init hi).2.2.2.2.1]
  · have hr : d.Reachable := hr
    exact ((hr.traffic hs).accepted hp).elim (hold p) ((hr.then hs).callInv.shaped _)

/-- A one-way parcel is dropped with the endpoint it is addressed to only. -/
theorem Device.Reachable.oneway_dropped {d : Device} (h : d.Reachable) {k : Nat} {i : Int} {w : Work}
    (hd : .dropped k i w ∈ d.history) (h0 : w.asyncNode ≠ 0) : w.endpoint = k ∧ i = 0 := by
  obtain ⟨newer, older, heq⟩ := List.append_of_mem hd
  have hright := h.fates.dropped
  rw [heq] at hright
  obtain ⟨_, p, hp, rfl, hcause⟩ := hright.split k i w rfl
  have hp' : .accepted p ∈ d.history := by
    rw [heq]
    exact List.mem_append_right _ (List.mem_cons_of_mem _ hp)
  cases hcause with
  | target hi hk => exact ⟨hk, hi⟩
  | caller ht =>
    cases h.shapes p hp' with
    | reply _ _ hz => exact absurd hz ht
    | call _ _ _ hz => exact absurd hz h0
    | oneway _ _ hz => exact absurd hz ht
  | addressee hc =>
    cases h.shapes p hp' with
    | reply _ _ _ hz => exact absurd hz h0
    | call hc' => exact nomatch hc.symm.trans hc'
    | oneway hc' => exact nomatch hc.symm.trans hc'

/-- The one-way parcels of a node go to its owner. -/
structure Addressed (d : Device) : Prop where
  owner : ∀ p, .accepted p ∈ d.history → p.work.asyncNode ≠ 0 →
    Issued d.objects.nextNode p.work.asyncNode ∧
      ∀ n, d.objects.nodeFor p.work.asyncNode = some n → n.owner = p.work.endpoint
  same : ∀ p p', .accepted p ∈ d.history → .accepted p' ∈ d.history → p.work.asyncNode ≠ 0 →
    p.work.asyncNode = p'.work.asyncNode → p.work.endpoint = p'.work.endpoint

/-- A node keeps its owner. -/
theorem Handling.owner {d d' : Device} (hd : Handling d d') {id : Nat} (hi : Issued d.objects.nextNode id)
    {n' : Node} (hn' : d'.objects.nodeFor id = some n') :
    ∃ n, d.objects.nodeFor id = some n ∧ n'.owner = n.owner := by
  have hmoves : ∀ g : Node → Node, Moves g d.objects d'.objects → (∀ n, (g n).owner = n.owner) →
      ∃ n, d.objects.nodeFor id = some n ∧ n'.owner = n.owner := by
    intro g hm hg
    rcases hm.kept.nodes id n' hn' with ⟨n, hn, hs⟩ | ⟨hnew, _⟩
    · exact ⟨n, hn, hs.owner.trans (hg n)⟩
    · exact absurd hi hnew
  cases hd with
  | quiet _ hq => exact hmoves _ hq fun _ => rfl
  | accept _ _ _ _ _ _ hm => exact hmoves _ hm fun n => (gate_like _ n).owner
  | deliver _ _ _ _ _ ho =>
    rw [ho] at hn'
    exact ⟨n', hn', rfl⟩
  | free _ _ _ hm => exact hmoves _ hm fun n => (advance_like _ _ _ _ n).owner
  | drop _ _ _ _ hq => exact hmoves _ hq fun _ => rfl
  | register _ _ _ _ _ _ _ hnew _ _ _ _ _ _ hfor =>
    rw [hfor, if_neg] at hn'
    · exact ⟨n', hn', rfl⟩
    · rintro rfl
      exact hnew hi
  | done _ _ _ _ _ hm => exact hmoves _ hm fun n => (acked_frame _ _ n).1
  | command _ _ _ _ _ _ _ hm => exact hmoves _ hm fun n => (told_frame _ _ n).1
  | @retire token o _ hr ho =>
    have hfor : d'.objects.nodeFor id = o.nodeFor id := by
      rw [ho]
      split <;> rfl
    rw [hfor, hr.nodes, Option.filter_eq_some_iff] at hn'
    obtain ⟨n, hn, rfl⟩ := Option.map_eq_some_iff.1 hn'.1
    refine ⟨n, hn, ?_⟩
    unfold orphan
    split <;> rfl

/-- Identities that were handed out stay so. -/
theorem Handling.issued {d d' : Device} (hd : Handling d d') {id : Nat}
    (hi : Issued d.objects.nextNode id) : Issued d'.objects.nextNode id := by
  cases hd with
  | quiet _ hq => exact hq.kept.next id hi
  | accept _ _ _ _ _ _ hm => exact hm.kept.next id hi
  | deliver _ _ _ _ _ ho => exact ho ▸ hi
  | free _ _ _ hm => exact hm.kept.next id hi
  | drop _ _ _ _ hq => exact hq.kept.next id hi
  | register _ _ _ _ _ _ _ _ _ hnext => exact hnext id hi
  | done _ _ _ _ _ hm => exact hm.kept.next id hi
  | command _ _ _ _ _ _ _ hm => exact hm.kept.next id hi
  | retire _ hr ho =>
    rw [ho]
    split <;> exact hr.next ▸ hi

/-- A step accepts no one-way parcel, or one to the owner of its node. -/
theorem Handling.accepted {d d' : Device} (hd : Handling d d') {p : Parcel}
    (hp : .accepted p ∈ d'.history) (h0 : p.work.asyncNode ≠ 0) : .accepted p ∈ d.history ∨
      (∃ n, d.objects.nodeFor p.work.asyncNode = some n ∧ n.owner = p.work.endpoint) ∧
        ∀ q, .accepted q ∈ d'.history → q = p ∨ .accepted q ∈ d.history := by
  have hold : ∀ l : List Event, d'.history = l ++ d.history → (∀ e ∈ l, ∀ q, e ≠ .accepted q) →
      .accepted p ∈ d.history := by
    intro l hh hl
    rw [hh, List.mem_append] at hp
    exact hp.resolve_left fun hmem => hl _ hmem p rfl
  have hmute : ∀ {l : List Event}, (∀ e ∈ l, e.Mute) → ∀ e ∈ l, ∀ q, e ≠ .accepted q := by
    rintro l hl e he q rfl
    exact hl _ he
  cases hd with
  | quiet _ _ _ _ _ hh hl => exact .inl (hold _ hh (hmute hl))
  | @accept e target th node input r p' c _ hr _ hof hnode hnone _ _ _ _ _ _ _ hh =>
    rw [hh] at hp
    simp only [List.mem_cons, reduceCtorEq, false_or, Event.accepted.injEq] at hp
    rcases hp with rfl | hp
    · refine .inr ⟨?_, fun q hq => ?_⟩
      · cases node with
        | none => exact absurd (hnone rfl) h0
        | some n =>
          obtain ⟨hn, how⟩ := hr.nodeFound n rfl
          rw [(hnode n rfl).2.resolve_left h0, hof.endpoint]
          exact ⟨n, hn, how⟩
      · rw [hh] at hq
        simpa only [List.mem_cons, reduceCtorEq, false_or, Event.accepted.injEq] using hq
    · exact .inl hp
  | deliver _ _ _ _ _ _ _ _ _ hh => exact .inl (hold [_] hh (by simp))
  | free _ _ _ _ _ _ _ hh => exact .inl (hold [_] hh (by simp))
  | drop _ _ _ _ _ _ _ _ hh hl =>
    rw [← List.append_assoc] at hh
    refine .inl (hold _ hh fun e he q => ?_)
    rcases List.mem_append.1 he with he | he
    · obtain ⟨w, _, rfl⟩ := List.mem_map.1 (List.mem_reverse.1 he)
      exact fun heq => nomatch heq
    · exact hmute hl e he q
  | register _ _ _ _ _ _ _ _ _ _ _ _ _ _ _ _ _ hh => exact .inl (hold [] hh (by simp))
  | done _ _ _ _ _ _ _ _ _ hh => exact .inl (hold [_] hh (by simp))
  | command _ _ _ _ _ _ _ _ _ _ _ hh => exact .inl (hold [_] hh (by simp))
  | retire _ _ _ _ _ _ _ _ hh => exact .inl (hold [_] hh (by simp))

theorem Addressed.step {d d' : Device} (h : Addressed d) (ha : Accounts d) (hd : Handling d d') :
    Addressed d' := by
  refine ⟨fun p hp h0 => ?_, fun p p' hp hp' h0 heq => ?_⟩
  · obtain ⟨hi, how⟩ : Issued d.objects.nextNode p.work.asyncNode ∧
        ∀ n, d.objects.nodeFor p.work.asyncNode = some n → n.owner = p.work.endpoint := by
      rcases hd.accepted hp h0 with hp | ⟨⟨n, hn, how⟩, _⟩
      · exact h.owner p hp h0
      · obtain ⟨hmem, hid, hn0⟩ := nodeFor_spec hn
        refine ⟨hid ▸ ha.objects.nodes.issued n hmem (hid ▸ hn0), fun x hx => ?_⟩
        rw [hn] at hx
        cases hx
        exact how
    refine ⟨hd.issued hi, fun n' hn' => ?_⟩
    obtain ⟨n, hn, hsame⟩ := hd.owner hi hn'
    exact hsame.trans (how n hn)
  · rcases hd.accepted hp h0 with hp | ⟨⟨n, hn, how⟩, hone⟩
    · rcases hd.accepted hp' (heq ▸ h0) with hp' | ⟨⟨n, hn, how⟩, _⟩
      · exact h.same p p' hp hp' h0 heq
      · rw [← how]
        exact ((h.owner p hp h0).2 n (heq ▸ hn)).symm
    · rcases hone p' hp' with rfl | hp'
      · rfl
      · rw [← how]
        exact (h.owner p' hp' (heq ▸ h0)).2 n (heq ▸ hn)

theorem Device.Reachable.addressed {d : Device} (h : d.Reachable) : Addressed d := by
  refine h.inv_of (J := fun d => d.Reachable) (fun _ h => h) (fun d hi => ?_) fun d d' hr hd hs => ?_
  · constructor <;> simp [(machine_init hi).2.2.2.2.1]
  · have hr : d.Reachable := hr
    exact hd.step hr.accounts (hr.handling hs)

/-! ## The gate of a node -/

/-- The first parcel of its node in the queue. -/
def Foremost (work : List Work) (w : Work) : Prop :=
  w ∈ work ∧ ∀ w' ∈ work, w'.asyncNode = w.asyncNode → w.stamp ≤ w'.stamp

/-- The scan of the queue for a node's parcels finds the first. -/
theorem foremost_iff {d : Device} (hq : QueueIds d) {w : Work} :
    Foremost d.work w ↔ d.work.find? (fun x => x.asyncNode == w.asyncNode) = some w := by
  have hs := hq.sorted
  generalize d.work = work at hs
  induction work with
  | nil => simp [Foremost]
  | cons x xs ih =>
    obtain ⟨hx, hxs⟩ := List.pairwise_cons.1 hs
    rw [List.find?_cons]
    by_cases hn : x.asyncNode = w.asyncNode
    · rw [show (x.asyncNode == w.asyncNode) = true by simpa using hn]
      simp only [Option.some.injEq]
      refine ⟨fun ⟨hmem, hle⟩ => ?_, ?_⟩
      · rcases List.mem_cons.1 hmem with rfl | hmem
        · rfl
        · have h1 := hx w hmem
          have h2 := hle x List.mem_cons_self hn
          omega
      · rintro rfl
        refine ⟨List.mem_cons_self, fun w' hw' _ => ?_⟩
        rcases List.mem_cons.1 hw' with rfl | hw'
        · exact Nat.le_refl _
        · exact Nat.le_of_lt (hx w' hw')
    · rw [show (x.asyncNode == w.asyncNode) = false by simpa using hn]
      refine .trans ?_ (ih hxs)
      unfold Foremost
      refine and_congr (List.mem_cons.trans (or_iff_right ?_)) ?_
      · rintro rfl
        exact hn rfl
      · refine ⟨fun h w' hw' => h w' (List.mem_cons_of_mem _ hw'), fun h w' hw' heq => ?_⟩
        rcases List.mem_cons.1 hw' with rfl | hw'
        · exact absurd heq hn
        · exact h w' hw' heq

/-- Nodes keep to their parcels. -/
structure Gates (d : Device) : Prop where
  holds : ∀ w, w ∈ d.work ∨ Outstanding w d.history → w.asyncNode ≠ 0 → d.Holds w
  active : ∀ id n, d.objects.nodeFor id = some n → n.dead = false → Intact n.owner d.history →
    n.asyncBuffer ≠ 0 → ∃ w, w.asyncNode = id ∧ w.endpoint = n.owner ∧
      w.value.dataBuffer = n.asyncBuffer ∧ (Foremost d.work w ∨ Outstanding w d.history)
  queued : ∀ w ∈ d.work, w.asyncNode ≠ 0 → Intact w.endpoint d.history →
    ∀ n, d.objects.nodeFor w.asyncNode = some n → n.asyncBuffer ≠ 0
  unfreed : ∀ w, Outstanding w d.history → w.asyncNode ≠ 0 →
    ∀ n, d.objects.nodeFor w.asyncNode = some n → n.asyncBuffer = w.value.dataBuffer

/-- Nodes have the active buffers they had, and new nodes have none. -/
def SameGates (d d' : Device) : Prop :=
  ∀ id n', d'.objects.nodeFor id = some n' →
    (∃ n, d.objects.nodeFor id = some n ∧ n'.owner = n.owner ∧ n'.dead = n.dead ∧
      n'.asyncBuffer = n.asyncBuffer) ∨ (d.objects.nodeFor id = none ∧ n'.asyncBuffer = 0)

section SameGates

variable {d d' : Device}

theorem not_issued_none (ha : Accounts d) {id : Nat} (hi : ¬ Issued d.objects.nextNode id) :
    d.objects.nodeFor id = none := by
  cases hn : d.objects.nodeFor id with
  | none => rfl
  | some n =>
    obtain ⟨hmem, hid, h0⟩ := nodeFor_spec hn
    exact absurd (hid ▸ ha.objects.nodes.issued n hmem (hid ▸ h0)) hi

theorem SameGates.moves (ha : Accounts d) {g : Node → Node} (hm : Moves g d.objects d'.objects)
    (hg : ∀ n, (g n).owner = n.owner ∧ (g n).dead = n.dead ∧ (g n).asyncBuffer = n.asyncBuffer) :
    SameGates d d' := by
  intro id n' hn'
  rcases hm.kept.nodes id n' hn' with ⟨n, hn, hs⟩ | ⟨hnew, hf, _⟩
  · obtain ⟨h1, h2, h3⟩ := hg n
    exact .inl ⟨n, hn, hs.owner.trans h1, hs.dead.trans h2, hs.asyncBuffer.trans h3⟩
  · exact .inr ⟨not_issued_none ha hnew, hf.asyncBuffer⟩

theorem SameGates.quiet (ha : Accounts d) (hq : Quiet d.objects d'.objects) : SameGates d d' :=
  .moves ha hq fun _ => ⟨rfl, rfl, rfl⟩

end SameGates

namespace Gates

variable {d d' : Device}

/-- A step that leaves the gates alone, delivers nothing and drops no parcel that counts. -/
theorem same (h : Gates d) (ha : Accounts d) (hs : SameGates d d') {l : List Event}
    (hh : d'.history = l ++ d.history) (hl : ∀ e ∈ l, e.Inert)
    (hholds : ∀ w, w ∈ d'.work ∨ Outstanding w d'.history → w.asyncNode ≠ 0 → d'.Holds w)
    (hw : ∀ w ∈ d'.work, w ∈ d.work)
    (hstay : ∀ w ∈ d.work, w.asyncNode ≠ 0 → Intact w.endpoint d'.history → w ∈ d'.work) :
    Gates d' := by
  have hout : ∀ w, Outstanding w d'.history ↔ Outstanding w d.history := fun w =>
    hh ▸ outstanding_inert hl
  have hintact : ∀ k, Intact k d'.history → Intact k d.history := fun k hk => (hh ▸ hk).of_append
  -- the node of a parcel was there
  have hold : ∀ w, w ∈ d.work ∨ Outstanding w d.history → w.asyncNode ≠ 0 → ∀ n',
      d'.objects.nodeFor w.asyncNode = some n' → ∃ n, d.objects.nodeFor w.asyncNode = some n ∧
        n'.asyncBuffer = n.asyncBuffer := by
    intro w hmem h0 n' hn'
    rcases hs _ n' hn' with ⟨n, hn, _, _, hb⟩ | ⟨hnone, _⟩
    · exact ⟨n, hn, hb⟩
    · obtain ⟨n, hn, _⟩ := (h.holds w hmem h0).node ha
      rw [hnone] at hn
      cases hn
  refine ⟨hholds, fun id n' hn' hdead hi h0 => ?_, fun w hmem h0 hi n' hn' => ?_,
    fun w hw' h0 n' hn' => ?_⟩
  · rcases hs id n' hn' with ⟨n, hn, how, hd, hb⟩ | ⟨_, hb⟩
    · rw [how] at hi ⊢
      rw [hb] at h0 ⊢
      obtain ⟨w, hid, hwe, hwb, hcase⟩ := h.active id n hn (hd ▸ hdead) (hintact _ hi) h0
      refine ⟨w, hid, hwe, hwb, hcase.imp (fun hfore => ?_) (hout w).2⟩
      have hz : w.asyncNode ≠ 0 := hid ▸ (nodeFor_spec hn).2.2
      exact ⟨hstay w hfore.1 hz (hwe ▸ hi), fun w' hw' => hfore.2 w' (hw w' hw')⟩
    · exact absurd hb h0
  · obtain ⟨n, hn, hb⟩ := hold w (.inl (hw w hmem)) h0 n' hn'
    rw [hb]
    exact h.queued w (hw w hmem) h0 (hintact _ hi) n hn
  · rw [hout] at hw'
    obtain ⟨n, hn, hb⟩ := hold w (.inr hw') h0 n' hn'
    rw [hb]
    exact h.unfreed w hw' h0 n hn

/-- A parcel that is accepted has its node. -/
theorem holds_accepted (hr : d.Reachable) {e target : Endpoint} {th : Thread} {node : Option Node}
    {input : TransactionData} {r : Reservation} {p : Parcel}
    (hres : Reserved d e th target node input r) (h0 : r.result = 0) (hp : p.Of e th target r)
    (hsome : ∀ n, node = some n → p.work.command = .transaction ∧
      (p.work.asyncNode = 0 ∨ p.work.asyncNode = n.id)) (hnone : node = none → p.work.asyncNode = 0)
    (hm : Moves (gate p.work) d.objects d'.objects) (hc : d'.objects.claims = r.objects.claims)
    (hz : p.work.asyncNode ≠ 0) : d'.Holds p.work := by
  cases node with
  | none => exact absurd (hnone rfl) hz
  | some n =>
    have hid := (hsome n rfl).2.resolve_left hz
    obtain ⟨hn, how⟩ := hres.nodeFound n rfl
    rcases Reserved.claims hr.accounts hres h0 with hman | ⟨c, hmem, hc0, hat, hcn, hrem⟩
    · -- a manager's node is alive and stays
      have halive : n.dead = false := by
        refine hr.deadGone.alive hn ?_
        rw [how, hres.targetFound]
        rfl
      have hlike := gate_like p.work n
      obtain ⟨n', hn', hs⟩ := hm.kept.stays _ n hn (hlike.manager.trans hman) (hlike.dead.trans halive)
      refine .inr ⟨n', hid ▸ hn', ?_, hs.manager.trans (hlike.manager.trans hman),
        hs.dead.trans (hlike.dead.trans halive)⟩
      rw [hp.endpoint, hs.owner, hlike.owner, how]
    · refine .inl ⟨c, hc ▸ hmem, hc0, ?_, hcn.trans hid.symm, hrem⟩
      rw [hp.endpoint, hp.buffer]
      exact hat

/-- The parcels in the queue or unfreed after a step were so before it, or are accepted by it. -/
theorem parcel_cases (hr : d.Reachable) (hd : Handling d d') {w : Work}
    (hw : w ∈ d'.work ∨ Outstanding w d'.history) :
    (w ∈ d.work ∨ Outstanding w d.history) ∨ (w.asyncNode ≠ 0 → d'.Holds w) := by
  have hq := hr.queueIds.nodup
  have hsame : ∀ l : List Event, d'.work = d.work → d'.history = l ++ d.history →
      (∀ e ∈ l, e.Inert) → w ∈ d.work ∨ Outstanding w d.history := by
    intro l hwork hh hl
    rw [hwork, hh, outstanding_inert hl] at hw
    exact hw
  cases hd with
  | quiet _ _ _ _ hwork hh hl => exact .inl (hsame _ hwork hh fun e he => (hl e he).inert)
  | @accept e target th node input r p c _ hres h0 hp hsome hnone hm _ hc _ _ _ hwork hh =>
    have hout := @outstanding_inert w [.consumed p.source p.sourceTid c, .accepted p] d.history
      (by simp [Event.Inert])
    rw [hh] at hw
    rcases hw with hw | hw
    · rw [hwork, List.mem_append, List.mem_singleton] at hw
      rcases hw with hw | rfl
      · exact .inl (.inl hw)
      · exact .inr (holds_accepted hr hres h0 hp hsome hnone hm hc)
    · exact .inl (.inr (hout.1 hw))
  | @deliver e th index w' _ _ _ hw' _ _ _ _ hwork hh =>
    rw [hwork, Device.mem_eraseIdx hq hw', hh] at hw
    rcases hw with hw | rfl | hw
    · exact .inl (.inl hw.1)
    · exact .inl (.inl (List.mem_of_getElem? hw'))
    · exact .inl (.inr hw)
  | free _ _ _ _ _ _ hwork hh =>
    rw [hwork, hh] at hw
    exact .inl (hw.imp id And.right)
  | drop _ _ _ _ _ _ _ hwork hh hl =>
    rw [← List.append_assoc] at hh
    rw [hwork, Device.mem_foldl_erase hq, hh, outstanding_inert] at hw
    · exact .inl (hw.imp And.left id)
    · intro e he
      rcases List.mem_append.1 he with he | he
      · obtain ⟨x, _, rfl⟩ := List.mem_map.1 (List.mem_reverse.1 he)
        trivial
      · exact (hl e he).inert
  | register _ _ _ _ _ _ _ _ _ _ _ _ _ _ _ _ hwork hh => exact .inl (hsame [] hwork hh (by simp))
  | done _ _ _ _ _ _ _ _ hwork hh => exact .inl (hsame [_] hwork hh (by simp [Event.Inert]))
  | command _ _ _ _ _ _ _ _ _ _ hwork hh => exact .inl (hsame [_] hwork hh (by simp [Event.Inert]))
  | retire _ _ _ _ _ _ _ hwork hh =>
    rw [hwork, hh] at hw
    exact .inl (hw.imp id And.right)

/-- A parcel in the queue or unfreed has its buffer. -/
theorem bufferState_ne_none (hr : d.Reachable) {w : Work}
    (hw : w ∈ d.work ∨ Outstanding w d.history) :
    d.bufferState w.endpoint w.value.dataBuffer ≠ none := by
  rcases hw with hw | hw
  · obtain ⟨_, _, _, hst⟩ := hr.parcelInv.stored w hw
    rw [hst.bufferState]
    exact nofun
  · rw [hr.unfreed.delivered w hw]
    exact nofun

theorem holds_step (h : Gates d) (hr : d.Reachable) (hr' : d'.Reachable) (hd : Handling d d') {w : Work}
    (hw : w ∈ d'.work ∨ Outstanding w d'.history) (h0 : w.asyncNode ≠ 0) : d'.Holds w := by
  rcases parcel_cases hr hd hw with hold | hnew
  · exact (h.holds w hold h0).step hr.accounts hd (bufferState_ne_none hr' hw)
  · exact hnew h0

/-- The next parcel is accepted: it is active if none is. -/
theorem accept (h : Gates d) (hr : d.Reachable) (hr' : d'.Reachable)
    (hholds : ∀ w, w ∈ d'.work ∨ Outstanding w d'.history → w.asyncNode ≠ 0 → d'.Holds w)
    {e target : Endpoint} {th : Thread} {node : Option Node} {input : TransactionData}
    {r : Reservation} {p : Parcel} {c : BC} (hres : Reserved d e th target node input r)
    (hp : p.Of e th target r)
    (hsome : ∀ n, node = some n → p.work.command = .transaction ∧
      (p.work.asyncNode = 0 ∨ p.work.asyncNode = n.id)) (hnone : node = none → p.work.asyncNode = 0)
    (hm : Moves (gate p.work) d.objects d'.objects) (hwork : d'.work = d.work ++ [p.work])
    (hh : d'.history = .consumed p.source p.sourceTid c :: .accepted p :: d.history) : Gates d' := by
  have hout : ∀ w, Outstanding w d'.history ↔ Outstanding w d.history := fun w =>
    hh ▸ @outstanding_inert w [.consumed p.source p.sourceTid c, .accepted p] d.history
      (by simp [Event.Inert])
  have hintact : ∀ k, Intact k d'.history → Intact k d.history := by
    intro k hk w hw
    exact hk w (by rw [hh]; exact List.mem_cons_of_mem _ (List.mem_cons_of_mem _ hw))
  have hpos : p.work.value.dataBuffer ≠ 0 := by
    obtain ⟨_, _, _, hst⟩ := hr'.parcelInv.stored p.work (by simp [hwork])
    exact Nat.ne_of_gt (Device.pos_of_bufferState hst.bufferState)
  -- the parcel is behind all others
  have hlast : ∀ w ∈ d.work, w.stamp < p.work.stamp := by
    have hsorted := hr'.queueIds.sorted
    rw [hwork] at hsorted
    exact fun w hw => (List.pairwise_append.1 hsorted).2.2 w hw _ (List.mem_singleton_self _)
  have hfore : ∀ w, Foremost d.work w → Foremost d'.work w := by
    rintro w ⟨hmem, hle⟩
    rw [hwork]
    refine ⟨List.mem_append_left _ hmem, fun w' hw' heq => ?_⟩
    rcases List.mem_append.1 hw' with hw' | hw'
    · exact hle w' hw' heq
    · rw [List.mem_singleton.1 hw']
      exact Nat.le_of_lt (hlast w hmem)
  have hnodes : ∀ id n', d'.objects.nodeFor id = some n' →
      (∃ n, d.objects.nodeFor id = some n ∧ (gate p.work n).Same n') ∨
        (d.objects.nodeFor id = none ∧ n'.asyncBuffer = 0) := by
    intro id n' hn'
    rcases hm.kept.nodes id n' hn' with hold | ⟨hnew, hf, _⟩
    · exact .inl hold
    · exact .inr ⟨not_issued_none hr.accounts hnew, hf.asyncBuffer⟩
  have hold : ∀ w, w ∈ d.work ∨ Outstanding w d.history → w.asyncNode ≠ 0 → ∀ n',
      d'.objects.nodeFor w.asyncNode = some n' → ∃ n, d.objects.nodeFor w.asyncNode = some n ∧
        (gate p.work n).Same n' := by
    intro w hmem h0 n' hn'
    rcases hnodes _ n' hn' with hold | ⟨hno, _⟩
    · exact hold
    · obtain ⟨n, hn, _⟩ := (h.holds w hmem h0).node hr.accounts
      rw [hno] at hn
      cases hn
  have hkeep : ∀ n : Node, n.asyncBuffer ≠ 0 → (gate p.work n).asyncBuffer = n.asyncBuffer := by
    intro n hn
    unfold gate
    rw [if_neg fun hg => hn hg.2.2]
  refine ⟨hholds, fun id n' hn' hdead hi h0 => ?_, fun w hmem h0 hi n' hn' => ?_,
    fun w hw' h0 n' hn' => ?_⟩
  · rcases hnodes id n' hn' with ⟨n, hn, hs⟩ | ⟨_, hb⟩
    · have hlike := gate_like p.work n
      have how : n'.owner = n.owner := hs.owner.trans hlike.owner
      have hd : n.dead = false := hlike.dead.symm.trans (hs.dead.symm.trans hdead)
      rw [how] at hi ⊢
      by_cases hz : n.asyncBuffer = 0
      · -- the gate was open: it is closed behind this parcel
        have hgate : p.work.asyncNode ≠ 0 ∧ n.id = p.work.asyncNode := by
          by_contra hno
          refine h0 (hs.asyncBuffer.trans ?_)
          unfold gate
          rw [if_neg fun hg => hno ⟨hg.1, hg.2.1⟩]
          exact hz
        have hbuf : n'.asyncBuffer = p.work.value.dataBuffer := by
          rw [hs.asyncBuffer, gate, if_pos ⟨hgate.1, hgate.2, hz⟩]
        have hid : p.work.asyncNode = id := hgate.2.symm.trans (nodeFor_spec hn).2.1
        have hpe : p.work.endpoint = n.owner := by
          cases node with
          | none => exact absurd (hnone rfl) hgate.1
          | some x =>
            obtain ⟨hx, hxo⟩ := hres.nodeFound x rfl
            rw [← (hsome x rfl).2.resolve_left hgate.1, hid, hn] at hx
            cases hx
            rw [hp.endpoint, hxo]
        refine ⟨p.work, hid, hpe, hbuf.symm, .inl ⟨by simp [hwork], fun w' hw' heq => ?_⟩⟩
        rw [hwork] at hw'
        rcases List.mem_append.1 hw' with hw' | hw'
        · have hw0 : w'.asyncNode ≠ 0 := heq ▸ hgate.1
          have hwn : d.objects.nodeFor w'.asyncNode = some n := by rw [heq, hid, hn]
          obtain ⟨x, hx, hxo⟩ := (h.holds w' (.inl hw') hw0).node hr.accounts
          rw [hwn] at hx
          cases hx
          exact absurd hz (h.queued w' hw' hw0 (hintact _ (hxo ▸ hi)) n hwn)
        · rw [List.mem_singleton.1 hw']
      · have hbuf : n'.asyncBuffer = n.asyncBuffer := hs.asyncBuffer.trans (hkeep n hz)
        obtain ⟨w, hid, hwe, hwb, hcase⟩ := h.active id n hn hd (hintact _ hi) hz
        exact ⟨w, hid, hwe, hwb.trans hbuf.symm, hcase.imp (hfore w) (hout w).2⟩
    · exact absurd hb h0
  · rw [hwork] at hmem
    rcases List.mem_append.1 hmem with hmem | hmem
    · obtain ⟨n, hn, hs⟩ := hold w (.inl hmem) h0 n' hn'
      have hz := h.queued w hmem h0 (hintact _ hi) n hn
      rw [hs.asyncBuffer, hkeep n hz]
      exact hz
    · rw [List.mem_singleton.1 hmem] at h0 hn'
      rcases hnodes _ n' hn' with ⟨n, hn, hs⟩ | ⟨hno, _⟩
      · rw [hs.asyncBuffer]
        by_cases hz : n.asyncBuffer = 0
        · rw [gate, if_pos ⟨h0, (nodeFor_spec hn).2.1, hz⟩]
          exact hpos
        · rw [hkeep n hz]
          exact hz
      · cases node with
        | none => exact absurd (hnone rfl) h0
        | some x =>
          rw [(hsome x rfl).2.resolve_left h0, (hres.nodeFound x rfl).1] at hno
          cases hno
  · rw [hout] at hw'
    obtain ⟨n, hn, hs⟩ := hold w (.inr hw') h0 n' hn'
    have hbuf := h.unfreed w hw' h0 n hn
    have hz : n.asyncBuffer ≠ 0 := by
      rw [hbuf]
      exact Nat.ne_of_gt (Device.pos_of_bufferState (hr.unfreed.delivered w hw'))
    rw [hs.asyncBuffer, hkeep n hz]
    exact hbuf

/-- The item a reader may take is its node's active one. -/
theorem ready_active {token : Nat} {th : Thread} {index : Nat} {w : Work}
    (hfor : d.workFor token th = some index) (hw : d.work[index]? = some w) (h0 : w.asyncNode ≠ 0) :
    ∃ n, d.objects.nodeFor w.asyncNode = some n ∧ n.asyncBuffer = w.value.dataBuffer := by
  obtain ⟨w', hw', hready, _⟩ := Device.workFor_spec hfor
  rw [hw] at hw'
  cases hw'
  simp only [Device.workReady, Device.asyncReady, Bool.and_eq_true, Bool.or_eq_true, beq_iff_eq] at hready
  have hgate := hready.1.1.resolve_left h0
  cases hn : d.objects.nodeFor w.asyncNode with
  | none =>
    rw [hn] at hgate
    cases hgate
  | some n =>
    rw [hn] at hgate
    exact ⟨n, rfl, by simpa using hgate⟩

/-- The active parcel is delivered. -/
theorem deliver (h : Gates d) (hr : d.Reachable)
    (hholds : ∀ w, w ∈ d'.work ∨ Outstanding w d'.history → w.asyncNode ≠ 0 → d'.Holds w)
    {e : Endpoint} {th : Thread} {index : Nat} {w : Work} (hfor : d.workFor e.token th = some index)
    (hw : d.work[index]? = some w) (ho : d'.objects = d.objects)
    (hwork : d'.work = d.work.eraseIdx index)
    (hh : d'.history = .delivered e.token th.tid d.work w :: d.history) : Gates d' := by
  have hmem : ∀ x, x ∈ d'.work ↔ x ∈ d.work ∧ x ≠ w := fun x =>
    hwork ▸ Device.mem_eraseIdx hr.queueIds.nodup hw x
  have hout : ∀ x, Outstanding x d'.history ↔ w = x ∨ Outstanding x d.history := fun x => by
    rw [hh]
    exact .rfl
  have hintact : ∀ k, Intact k d'.history → Intact k d.history := by
    intro k hk x hx
    exact hk x (by rw [hh]; exact List.mem_cons_of_mem _ hx)
  refine ⟨hholds, fun id n hn hdead hi h0 => ?_, fun x hx h0 hi n hn => ?_, fun x hx h0 n hn => ?_⟩
  · rw [ho] at hn
    obtain ⟨x, hid, hxe, hxb, hcase⟩ := h.active id n hn hdead (hintact _ hi) h0
    refine ⟨x, hid, hxe, hxb, ?_⟩
    rw [hout]
    rcases hcase with ⟨hx, hle⟩ | hx
    · by_cases heq : w = x
      · exact .inr (.inl heq)
      · refine .inl ⟨(hmem x).2 ⟨hx, Ne.symm heq⟩, fun y hy => hle y ((hmem y).1 hy).1⟩
    · exact .inr (.inr hx)
  · rw [ho] at hn
    exact h.queued x ((hmem x).1 hx).1 h0 (hintact _ hi) n hn
  · rw [ho] at hn
    rcases (hout x).1 hx with rfl | hx
    · obtain ⟨n', hn', hb⟩ := ready_active hfor hw h0
      rw [hn] at hn'
      cases hn'
      exact hb
    · exact h.unfreed x hx h0 n hn

/-- A delivered buffer is freed: if it was the active one, the node's next parcel is active. -/
theorem free (h : Gates d) (hr : d.Reachable)
    (hholds : ∀ w, w ∈ d'.work ∨ Outstanding w d'.history → w.asyncNode ≠ 0 → d'.Holds w)
    {k x : Nat} (hk : k ≠ 0) (htrue : d.bufferState k x = some true)
    (hm : Moves (advance d.work k x d.objects.nodes) d.objects d'.objects)
    (hwork : d'.work = d.work) (hh : d'.history = .freed k x :: d.history) : Gates d' := by
  have hout : ∀ w, Outstanding w d'.history ↔
      ¬ (k = w.endpoint ∧ x = w.value.dataBuffer) ∧ Outstanding w d.history := fun w => by
    rw [hh]
    exact .rfl
  have hintact : ∀ k, Intact k d'.history → Intact k d.history := by
    intro k hk w hw
    exact hk w (by rw [hh]; exact List.mem_cons_of_mem _ hw)
  -- the node of the freed buffer is found first
  have hfirst : ∀ n, d.objects.nodes.find? (fun n => n.owner == k && n.asyncBuffer == x) = some n →
      n ∈ d.objects.nodes ∧ n.owner = k ∧ n.asyncBuffer = x ∧ n.id ≠ 0 := by
    intro n hn
    have hcond := List.find?_some hn
    simp only [Bool.and_eq_true, beq_iff_eq] at hcond
    refine ⟨List.mem_of_find?_eq_some hn, hcond.1, hcond.2, fun h0 => ?_⟩
    rw [hr.accounts.objects.nodes.blank n (List.mem_of_find?_eq_some hn) h0] at hcond
    exact hk hcond.1.symm
  have hnodes : ∀ id n', d'.objects.nodeFor id = some n' →
      (∃ n, d.objects.nodeFor id = some n ∧ (advance d.work k x d.objects.nodes n).Same n') ∨
        (d.objects.nodeFor id = none ∧ n'.asyncBuffer = 0) := by
    intro id n' hn'
    rcases hm.kept.nodes id n' hn' with hold | ⟨hnew, hf, _⟩
    · exact .inl hold
    · exact .inr ⟨not_issued_none hr.accounts hnew, hf.asyncBuffer⟩
  have hold : ∀ w, w ∈ d.work ∨ Outstanding w d.history → w.asyncNode ≠ 0 → ∀ n',
      d'.objects.nodeFor w.asyncNode = some n' → ∃ n, d.objects.nodeFor w.asyncNode = some n ∧
        n.owner = w.endpoint ∧ (advance d.work k x d.objects.nodes n).Same n' := by
    intro w hmem h0 n' hn'
    obtain ⟨y, hy, hyo⟩ := (h.holds w hmem h0).node hr.accounts
    rcases hnodes _ n' hn' with ⟨n, hn, hs⟩ | ⟨hno, _⟩
    · rw [hy] at hn
      cases hn
      exact ⟨y, hy, hyo, hs⟩
    · rw [hno] at hy
      cases hy
  -- a queued parcel has another buffer than the freed one
  have hqueued : ∀ w ∈ d.work, ¬ (w.endpoint = k ∧ w.value.dataBuffer = x) := by
    rintro w hw ⟨rfl, rfl⟩
    obtain ⟨_, _, _, hst⟩ := hr.parcelInv.stored w hw
    rw [hst.bufferState] at htrue
    cases htrue
  have hpos : ∀ w ∈ d.work, w.value.dataBuffer ≠ 0 := by
    intro w hw
    obtain ⟨_, _, _, hst⟩ := hr.parcelInv.stored w hw
    exact Nat.ne_of_gt (Device.pos_of_bufferState hst.bufferState)
  refine ⟨hholds, fun id n' hn' hdead hi h0 => ?_, fun w hw h0 hi n' hn' => ?_,
    fun w hw h0 n' hn' => ?_⟩
  · rcases hnodes id n' hn' with ⟨n, hn, hs⟩ | ⟨_, hb⟩
    · have hlike := advance_like d.work k x d.objects.nodes n
      have how : n'.owner = n.owner := hs.owner.trans hlike.owner
      have hd : n.dead = false := hlike.dead.symm.trans (hs.dead.symm.trans hdead)
      obtain ⟨_, hid, hid0⟩ := nodeFor_spec hn
      rw [how] at hi ⊢
      rw [hwork]
      have hb := hs.asyncBuffer
      unfold advance at hb
      split at hb
      next hact =>
        -- the next parcel of this node
        obtain ⟨_, hno, _, _⟩ := hfirst n hact
        change _ = nextAsync d.work n at hb
        unfold nextAsync at hb
        cases hnext : d.work.find? fun w => w.asyncNode == n.id with
        | none =>
          rw [hnext] at hb
          exact absurd hb h0
        | some w =>
          rw [hnext] at hb
          have hwn : w.asyncNode = n.id := by simpa using List.find?_some hnext
          have hwm := List.mem_of_find?_eq_some hnext
          obtain ⟨y, hy, hyo⟩ := (h.holds w (.inl hwm) (hwn ▸ hid ▸ hid0)).node hr.accounts
          rw [hwn, hid, hn] at hy
          cases hy
          refine ⟨w, hwn.trans hid, hyo.symm, hb.symm, .inl ((foremost_iff hr.queueIds).2 ?_)⟩
          rw [hwn]
          exact hnext
      next hact =>
        rw [hb] at h0 ⊢
        obtain ⟨w, hwid, hwe, hwb, hcase⟩ := h.active id n hn hd (hintact _ hi) h0
        refine ⟨w, hwid, hwe, hwb, hcase.imp (fun hfore => hfore) fun hw => (hout w).2 ⟨?_, hw⟩⟩
        rintro ⟨hk', hx'⟩
        -- then the node found first is this one
        have hsome : (d.objects.nodes.find? fun n => n.owner == k && n.asyncBuffer == x).isSome := by
          rw [List.find?_isSome]
          refine ⟨n, (nodeFor_spec hn).1, ?_⟩
          simp [← hwe, hk', hx', hwb]
        obtain ⟨m, hm'⟩ := Option.isSome_iff_exists.1 hsome
        obtain ⟨hmm, hmo, hmb, hm0⟩ := hfirst m hm'
        have hmn := hr.accounts.objects.nodes.nodeFor hmm hm0
        have hmd : m.dead = false := by
          refine hr.deadGone.alive hmn ?_
          rw [hmo, hk', hwe]
          exact (hr.nodeOwners id n hn).1 hd
        have hmi : Intact m.owner d.history := by
          rw [hmo, hk', hwe]
          exact hintact _ hi
        have hx0 : m.asyncBuffer ≠ 0 := by
          rw [hmb, hx', hwb]
          exact h0
        obtain ⟨v, hvid, hve, hvb, hvcase⟩ := h.active m.id m hmn hmd hmi hx0
        rcases hvcase with hv | hv
        · exact hqueued v hv.1 ⟨hve.trans hmo, hvb.trans hmb⟩
        · have hvw := hr.unfreed.once v w hv hw ((hve.trans hmo).trans hk') ((hvb.trans hmb).trans hx')
          rw [← hvid, hvw, hwid, hn] at hmn
          cases hmn
          exact hact hm'
    · exact absurd hb h0
  · rw [hwork] at hw
    obtain ⟨n, hn, how, hs⟩ := hold w (.inl hw) h0 n' hn'
    rw [hs.asyncBuffer]
    unfold advance
    split
    · change nextAsync d.work n ≠ 0
      unfold nextAsync
      have hsome : (d.work.find? fun w => w.asyncNode == n.id).isSome := by
        rw [List.find?_isSome]
        exact ⟨w, hw, by simp [(nodeFor_spec hn).2.1]⟩
      obtain ⟨v, hv⟩ := Option.isSome_iff_exists.1 hsome
      rw [hv]
      exact hpos v (List.mem_of_find?_eq_some hv)
    · exact h.queued w hw h0 (hintact _ hi) n hn
  · obtain ⟨hne, hw⟩ := (hout w).1 hw
    obtain ⟨n, hn, how, hs⟩ := hold w (.inr hw) h0 n' hn'
    have hb := h.unfreed w hw h0 n hn
    rw [hs.asyncBuffer]
    unfold advance
    split
    next hact =>
      obtain ⟨_, hno, hnb, _⟩ := hfirst n hact
      exact absurd ⟨hno.symm.trans how, hnb.symm.trans hb⟩ hne
    next => exact hb

/-- An endpoint is gone and its nodes are dead. -/
theorem retire (h : Gates d)
    (hholds : ∀ w, w ∈ d'.work ∨ Outstanding w d'.history → w.asyncNode ≠ 0 → d'.Holds w)
    {token : Nat} {o : Objects} (hret : Retired d.objects o token)
    (ho : d'.objects = if d.manager = token then { o with managerNode := 0 } else o)
    (hwork : d'.work = d.work) (hh : d'.history = .released token :: d.history) : Gates d' := by
  have hout : ∀ w, Outstanding w d'.history ↔ token ≠ w.endpoint ∧ Outstanding w d.history :=
    fun w => by
      rw [hh]
      exact .rfl
  have hintact : ∀ k, Intact k d'.history → Intact k d.history := by
    intro k hk w hw
    exact hk w (by rw [hh]; exact List.mem_cons_of_mem _ hw)
  have hnodes : ∀ id n', d'.objects.nodeFor id = some n' → ∃ n, d.objects.nodeFor id = some n ∧
      n' = orphan token n := by
    intro id n' hn'
    have hfor : d'.objects.nodeFor id = o.nodeFor id := by
      rw [ho]
      split <;> rfl
    rw [hfor, hret.nodes, Option.filter_eq_some_iff] at hn'
    obtain ⟨n, hn, rfl⟩ := Option.map_eq_some_iff.1 hn'.1
    exact ⟨n, hn, rfl⟩
  have hbuffer : ∀ n : Node, (orphan token n).asyncBuffer = n.asyncBuffer := by
    intro n
    unfold orphan
    split <;> rfl
  refine ⟨hholds, fun id n' hn' hdead hi h0 => ?_, fun w hw h0 hi n' hn' => ?_,
    fun w hw h0 n' hn' => ?_⟩
  · obtain ⟨n, hn, rfl⟩ := hnodes id n' hn'
    unfold orphan at hdead hi h0 ⊢
    split at hdead
    · cases hdead
    next hown =>
      rw [if_neg hown] at hi h0 ⊢
      obtain ⟨w, hid, hwe, hwb, hcase⟩ := h.active id n hn hdead (hintact _ hi) h0
      refine ⟨w, hid, hwe, hwb, hcase.imp (fun hfore => hwork ▸ hfore) fun hw => (hout w).2 ⟨?_, hw⟩⟩
      rintro rfl
      obtain ⟨_, hnid, hn0⟩ := nodeFor_spec hn
      exact hown (by simp [hnid, hn0, hwe])
  · obtain ⟨n, hn, rfl⟩ := hnodes _ n' hn'
    rw [hbuffer]
    exact h.queued w (hwork ▸ hw) h0 (hintact _ hi) n hn
  · obtain ⟨n, hn, rfl⟩ := hnodes _ n' hn'
    rw [hbuffer]
    exact h.unfreed w ((hout w).1 hw).2 h0 n hn

theorem step (h : Gates d) (hr : d.Reachable) (hs : Step d d') : Gates d' := by
  have hr' := hr.then hs
  have ha := hr.accounts
  have hd := hr.handling hs
  have hholds : ∀ w, w ∈ d'.work ∨ Outstanding w d'.history → w.asyncNode ≠ 0 → d'.Holds w :=
    fun w hw h0 => h.holds_step hr hr' hd hw h0
  -- most steps leave the queue as it is
  have hall : d'.work = d.work → (∀ w ∈ d'.work, w ∈ d.work) ∧
      ∀ w ∈ d.work, w.asyncNode ≠ 0 → Intact w.endpoint d'.history → w ∈ d'.work := fun hw =>
    ⟨fun w hmem => hw ▸ hmem, fun w hmem _ _ => hw ▸ hmem⟩
  cases hd with
  | quiet _ hq _ _ hw hh hl =>
    exact h.same ha (.quiet ha hq) hh (fun e he => (hl e he).inert) hholds (hall hw).1 (hall hw).2
  | accept _ hres h0 hp hsome hnone hm _ _ _ _ _ hwork hh =>
    exact h.accept hr hr' hholds hres hp hsome hnone hm hwork hh
  | deliver _ _ hfor hw _ ho _ _ hwork hh => exact h.deliver hr hholds hfor hw ho hwork hh
  | free _ hk htrue hm _ _ hwork hh => exact h.free hr hholds hk htrue hm hwork hh
  | @drop token tid ws l _ _ hsub _ hq _ _ hwork hh hl =>
    have hmem : ∀ w, w ∈ d'.work ↔ w ∈ d.work ∧ w ∉ ws := fun w =>
      hwork ▸ Device.mem_foldl_erase hr.queueIds.nodup ws w
    refine h.same (l := _ ++ _) ha (.quiet ha hq) (by rw [hh, List.append_assoc]) (fun e he => ?_)
      hholds (fun w hw => ((hmem w).1 hw).1) fun w hw h0 hi => (hmem w).2 ⟨hw, fun hws => ?_⟩
    · rcases List.mem_append.1 he with he | he
      · obtain ⟨x, _, rfl⟩ := List.mem_map.1 (List.mem_reverse.1 he)
        trivial
      · exact (hl e he).inert
    · -- a dropped one-way parcel goes with its endpoint
      have hdrop : .dropped token tid w ∈ d'.history := by
        rw [hh]
        exact List.mem_append_left _ (List.mem_reverse.2 (List.mem_map.2 ⟨w, hws, rfl⟩))
      obtain ⟨htok, htid⟩ := hr'.oneway_dropped hdrop h0
      rw [← htok, htid] at hdrop
      exact hi w hdrop
  | @register e n _ _ _ _ _ _ hf hnew _ _ _ _ _ _ hfor _ hw hh =>
    refine h.same (l := []) ha (fun id n' hn' => ?_) hh (by simp) hholds (hall hw).1 (hall hw).2
    rw [hfor] at hn'
    split at hn'
    next hid =>
      cases hn'
      exact .inr ⟨not_issued_none ha (hid ▸ hnew), hf.asyncBuffer⟩
    next => exact .inl ⟨n', hn', rfl, rfl, rfl⟩
  | done _ _ _ _ _ hm _ _ hw hh =>
    refine h.same (l := [_]) ha (.moves ha hm fun x => ?_) hh (by simp [Event.Inert]) hholds
      (hall hw).1 (hall hw).2
    refine ⟨(acked_frame _ _ x).1, (acked_frame _ _ x).2.2, ?_⟩
    unfold acked
    split
    · split <;> rfl
    · rfl
  | @command e th n c _ _ _ _ _ _ _ hm _ _ hw hh =>
    refine h.same (l := [_]) ha (.moves ha hm fun x => ?_) hh (by simp [Event.Inert]) hholds
      (hall hw).1 (hall hw).2
    refine ⟨(told_frame _ _ x).1, (told_frame _ _ x).2.2, ?_⟩
    unfold told
    split
    · cases c <;> rfl
    · rfl
  | retire _ hret ho _ _ _ _ hwork hh => exact h.retire hholds hret ho hwork hh

end Gates

theorem Device.Reachable.gates {d : Device} (h : d.Reachable) : Gates d := by
  refine h.inv_of (J := fun d => d.Reachable) (fun _ h => h) (fun d hi => ?_) fun d d' hr hg hs =>
    hg.step hr hs
  obtain ⟨_, _, hw, ho, hh, _⟩ := machine_init hi
  have hnone : ∀ id, d.objects.nodeFor id = none := fun id => by rw [ho]; rfl
  refine ⟨fun w hmem => ?_, fun id n hn => ?_, fun w hmem => ?_, fun w hout => ?_⟩
  · rw [hw, hh] at hmem
    rcases hmem with hmem | hmem
    · cases hmem
    · exact hmem.elim
  · rw [hnone] at hn
    cases hn
  · rw [hw] at hmem
    cases hmem
  · rw [hh] at hout
    exact hout.elim

end Artbox.Binder
