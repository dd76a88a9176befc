import Artbox.Binder.References

/-!
# Nodes and the endpoints that own them

Only translation and registration make nodes, each for an endpoint that is there
(`Objects.Births`, `Step.births`), so a node is alive as long as its owner is and dead from
the owner's release on (`NodeOwners`).
-/

namespace Artbox.Binder

open Slots

namespace Objects

/-! ## New nodes -/

/-- The nodes of `o'` that are new to `o` are the source's. -/
def Births (source : Nat) (o o' : Objects) : Prop :=
  ∀ id n', o'.nodeFor id = some n' → Issued o.nextNode id ∨ n'.owner = source

section Births

variable {o o' o'' : Objects} {source : Nat} {node : Node}

/-- Where no id is handed out no node is new. -/
theorem Sound.births {k : Nat} (h : o'.Sound) (hnext : o'.nextNode = o.nextNode) : Births k o o' := by
  intro id n hn
  obtain ⟨hmem, hid, h0⟩ := nodeFor_spec hn
  refine .inl ?_
  rw [← hnext, ← hid]
  exact h.nodes.issued n hmem (hid ▸ h0)

theorem Births.trans (h : Births source o o') (hk : Kept o' o'') (h' : Births source o' o'') :
    Births source o o'' := by
  intro id n'' hn''
  rcases h' id n'' hn'' with hi | how
  · rcases hk.nodes id n'' hn'' with ⟨n', hn', hs⟩ | ⟨hnew, _⟩
    · exact (h id n' hn').imp_right fun how => hs.owner.trans how
    · exact absurd hi hnew
  · exact .inr how

theorem Sound.births_resolveObject (h : o.Sound) {tid : Int} {data : List UInt8} {offset : Nat}
    (hr : o.resolveObject source tid data offset = .ok (node, o')) : Births source o o' := by
  have hold : Births source o o := h.births rfl
  unfold Objects.resolveObject at hr
  split at hr
  · split at hr
    · split at hr
      · cases hr
      · cases hr
        exact hold
    · split at hr
      · cases hr
      next n o₁ hc =>
        cases hr
        intro id n' hn'
        obtain ⟨_, _, _, _, _, _, hfor, _⟩ := h.createNode hc
        rw [hfor] at hn'
        split at hn'
        next =>
          cases hn'
          exact .inr (createNode_spec hc).2.2.1
        next => exact hold id n' hn'
  · split at hr
    · cases hr
    · split at hr
      · cases hr
      · cases hr
        exact hold

theorem Inv.births_translate (h : o.Inv) {target buffer : Nat} {tid : Int} (hk : target ≠ 0)
    (offsets : List Nat) (data : List UInt8) :
    Births source o (Objects.translate source tid target buffer offsets o data).objects := by
  induction offsets generalizing o data with
  | nil => exact h.toSound.births rfl
  | cons offset rest ih =>
    unfold Objects.translate
    split
    · exact h.toSound.births rfl
    next node o₁ hr =>
      obtain ⟨hs, _, _, _, _, _, hfor, _⟩ := h.toSound.resolveObject hr
      have hborn := h.toSound.births_resolveObject hr
      dsimp only
      split
      next o₂ hc =>
        obtain ⟨_, rfl⟩ | ⟨_, hno, _⟩ := hs.addClaim hk hfor rfl hc
        · exact hborn
        · cases hno
      next handle o₂ hc =>
        obtain ⟨hinv, _, hadd⟩ := h.claimObject hr hk hc
        have hkept : Kept o₁ o₂ := .of_nodes hadd.nodes hadd.nextNode
        have hborn₂ : Births source o o₂ := hborn.trans hkept (hadd.sound.births hadd.nextNode)
        exact hborn₂.trans (hinv.translate hk rest _).1.kept (ih hinv _)

/-! The other operations hand out no id. -/

theorem foldl_releaseHold_nextNode (l : List Claim) (o : Objects) :
    (l.foldl Objects.releaseHold o).nextNode = o.nextNode := by
  induction l generalizing o with
  | nil => rfl
  | cons c l ih => exact (ih _).trans (releaseHold_frame c).2.2.1

theorem releaseClaims_nextNode (o : Objects) (k buffer : Nat) :
    (o.releaseClaims k buffer).nextNode = o.nextNode :=
  foldl_releaseHold_nextNode _ o

theorem adjustReference_nextNode (o : Objects) (r : Reference) (increment strong : Bool) :
    (o.adjustReference r increment strong).2.nextNode = o.nextNode := by
  rcases adjustReference_cases o r increment strong with ⟨_, heq⟩ | ⟨ref, _, _, _, _, _, heq⟩
  · rw [heq]
  · rw [heq]
    exact dropIfUnused_frame.2.2.1

theorem referenceCommand_nextNode (o : Objects) (manager endpoint handle : Nat)
    (increment strong : Bool) :
    (o.referenceCommand manager endpoint handle increment strong).2.nextNode = o.nextNode := by
  unfold referenceCommand
  split
  · split
    · rfl
    split
    · rfl
    split
    · rfl
    next he => exact (adjustReference_nextNode _ _ _ _).trans (ensureReference_frame he).2.2.1
  · split
    · rfl
    · exact adjustReference_nextNode _ _ _ _

end Births

end Objects

/-! ## New nodes of a reservation -/

section Reserved

variable {d : Device} {e target : Endpoint} {th : Thread} {node : Option Node}
  {input : TransactionData} {r : Reservation}

/-- What a reservation makes of the tables: nothing, or a claim on the addressed node and a
translation, taken back if one of them fails. -/
theorem Reserved.objects_cases (hr : Reserved d e th target node input r) :
    r.objects = d.objects ∨ ∃ buffer offsets data held t,
      claimTarget d.objects target.token buffer node = held ∧
      t = (if held.1 = 0 then Objects.translate e.token th.tid target.token buffer offsets held.2 data
        else ⟨held.1, held.2, data, []⟩) ∧
      (r.objects = t.objects.releaseClaims target.token buffer ∨ r.objects = t.objects) := by
  obtain ⟨ω, host, w, w', hres⟩ := hr.result
  rcases reservePayload_cases hres with ⟨_, ho, _⟩ | ⟨arena, data, offsets, harena, hd, ho, hc, rfl⟩
  · exact .inl ho
  · rcases storePayload_cases d.objects e th.tid target arena input node hd ho hc with
      ⟨c, _, hr'⟩ | ⟨b, reserved, held, t, _, hheld, ht, ⟨_, hr'⟩ | ⟨_, hr'⟩⟩
    · exact .inl (by rw [hr'])
    · exact .inr ⟨b.address, offsetTable offsets, data, held, t, hheld, ht, .inl (by rw [hr'])⟩
    · exact .inr ⟨b.address, offsetTable offsets, data, held, t, hheld, ht, .inr (by rw [hr'])⟩

/-- The hold on the addressed node is one claim. -/
theorem claimTarget_cases (o : Objects) (target buffer : Nat) (node : Option Node) :
    (claimTarget o target buffer node).2 = o ∨ ∃ n res, node = some n ∧
      o.addClaim target buffer n false = (res, (claimTarget o target buffer node).2) := by
  unfold claimTarget
  split
  · exact .inl rfl
  next n =>
    split
    · exact .inl rfl
    · refine .inr ⟨n, (o.addClaim target buffer n false).1, rfl, ?_⟩
      split
      next heq => rw [heq]
      next heq => rw [heq]

/-- The nodes a reservation makes are the sender's. -/
theorem Reserved.births (ha : Accounts d) (hr : Reserved d e th target node input r) :
    Objects.Births e.token d.objects r.objects := by
  have hk := (Device.endpointFor_spec hr.targetFound).2.2
  rcases hr.objects_cases with heq | ⟨buffer, offsets, data, held, t, hheld, ht, hr'⟩
  · rw [heq]
    exact ha.objects.births rfl
  have hborn : Objects.Births e.token d.objects t.objects := by
    have hclaim := ha.objects.claimTarget (b := buffer) hk hr.nodeFound
    have hheld₂ : held.2.nextNode = d.objects.nextNode := by
      rcases claimTarget_cases d.objects target.token buffer node with heq | ⟨n, res, hn, heq⟩
      · rw [← hheld, heq]
      · obtain ⟨hfor, how⟩ := hr.nodeFound n hn
        rw [hheld] at heq
        obtain ⟨_, heq'⟩ | ⟨_, _, hadd⟩ := ha.objects.addClaim hk hfor (by simp [how]) heq
        · rw [heq']
        · exact hadd.nextNode
    rw [hheld] at hclaim
    have hborn := hclaim.1.sound.births (k := e.token) hheld₂
    split at ht
    next h0 =>
      rw [ht]
      exact hborn.trans ((hclaim.2 h0).translate hk _ _).1.kept ((hclaim.2 h0).births_translate hk _ _)
    next =>
      rw [ht]
      exact hborn
  obtain ⟨hload, _⟩ := loaded_translate ha.objects hk hr.nodeFound hheld ht
  rcases hr' with heq | heq <;> rw [heq]
  · obtain ⟨hinv, hkept, _⟩ := hload.sound.releaseClaims (b := buffer) hk
    exact hborn.trans hkept (hinv.births (Objects.releaseClaims_nextNode _ _ _))
  · exact hborn

end Reserved

/-! ## Who owns a node -/

theorem foldl_dropWork_nextNode {token : Nat} {tid : Int} (l : List Work) (d : Device) :
    (l.foldl (Device.dropWork token tid) d).objects.nextNode = d.objects.nextNode := by
  induction l generalizing d with
  | nil => rfl
  | cons w ws ih => exact (ih _).trans (Objects.releaseClaims_nextNode _ _ _)

/-- A node that is new after a step is owned by an endpoint that is there. -/
theorem Step.births {d d' : Device} (h : d.Reachable) (hs : Step d d') {id : Nat} {n' : Node}
    (hn' : d'.objects.nodeFor id = some n') :
    Issued d.objects.nextNode id ∨ (d.endpointFor n'.owner).isSome = true := by
  have ha := h.accounts
  have ha' : Accounts d' := (h.then hs).accounts
  -- steps that hand out no id
  have hquiet : d'.objects.nextNode = d.objects.nextNode → Issued d.objects.nextNode id := by
    intro hnext
    obtain ⟨hmem, hid, h0⟩ := Objects.nodeFor_spec hn'
    rw [← hnext, ← hid]
    exact ha'.objects.nodes.issued n' hmem (hid ▸ h0)
  have hreserved : ∀ {e th target node input r}, Reserved d e th target node input r →
      (∃ n, r.objects.nodeFor id = some n ∧ n.owner = n'.owner) →
        Issued d.objects.nextNode id ∨ (d.endpointFor n'.owner).isSome = true := by
    rintro e th target node input r hr ⟨n, hn, how⟩
    refine (hr.births ha id n hn).imp_right fun hsrc => ?_
    rw [← how, hsrc, hr.sourceFound]
    rfl
  cases hs with
  | openEndpoint ho => exact .inl (hquiet (by rw [(Device.openEndpoint_frame ho).2.2.1]))
  | admission _ _ hadm => exact .inl (hquiet (by rw [(Device.admitThread_frame hadm).2.2.1]))
  | @setContextMgr e flags pointer cookie he =>
    unfold Device.setContextMgr at hn' hquiet
    split at hn'
    next h0 =>
      rw [if_pos h0] at hquiet
      exact .inl (hquiet rfl)
    next h0 =>
      rw [if_neg h0] at hquiet
      split at hn'
      next hu =>
        rw [if_pos hu] at hquiet
        exact .inl (hquiet rfl)
      next hu =>
        rw [if_neg hu] at hquiet
        split at hn'
        next hown =>
          rw [if_pos hown] at hquiet
          exact .inl (hquiet rfl)
        next hown =>
          rw [if_neg hown] at hquiet
          split at hn'
          next hc =>
            rw [hc] at hquiet
            exact .inl (hquiet rfl)
          next n o hc =>
            -- the manager's node is the endpoint's
            have hfor : d.objects.createNode _ _ _ _ _ _ = some (n, o) := hc
            obtain ⟨_, _, how, _⟩ := Objects.createNode_spec hfor
            have hn₁ : o.nodeFor id = some n' := hn'
            rw [(ha.objects.createManager hfor).2.2.2 id] at hn₁
            split at hn₁
            next =>
              cases hn₁
              refine .inr ?_
              rw [how, he]
              rfl
            next =>
              obtain ⟨hmem, hid, hid0⟩ := Objects.nodeFor_spec hn₁
              rw [← hid]
              exact .inl (ha.objects.nodes.issued n' hmem (hid ▸ hid0))
  | refer => exact .inl (hquiet (Objects.referenceCommand_nextNode ..))
  | nodeDone increfs he hn =>
    obtain ⟨hmem, h0, _⟩ := Objects.doneNode_spec hn
    exact .inl (hquiet (ha.objects.nodeDone (ha.objects.nodes.nodeFor hmem h0) increfs).2.2.2.1)
  | requestDeath =>
    refine .inl (hquiet ?_)
    simp only [Device.requestDeath, Device.recordSlot, Objects.requestDeath]
    repeat' split
    all_goals rfl
  | clearDeath =>
    refine .inl (hquiet ?_)
    simp only [Device.clearDeath, Device.recordSlot, Objects.clearDeath]
    repeat' split
    all_goals rfl
  | doneDeath =>
    refine .inl (hquiet ?_)
    simp only [Device.doneDeath, Device.recordSlot, Objects.doneDeath]
    repeat' split
    all_goals rfl
  | free =>
    refine .inl (hquiet ?_)
    unfold Device.freePacket
    split
    · rfl
    · split
      · rfl
      · exact Objects.releaseClaims_nextNode _ _ _
  | reserve hr => exact hreserved hr ⟨n', hn', rfl⟩
  | reply hr => exact hreserved hr ⟨n', hn', rfl⟩
  | @oneway e th target node input r hr =>
    refine hreserved hr ?_
    have hfor : Objects.nodeFor { r.objects with nodes := r.objects.nodes.map fun n =>
        if n.id == node.id && n.asyncBuffer == 0 then { n with asyncBuffer := r.buffer.address } else n }
        id = some n' := hn'
    rw [Objects.nodeFor_map (o := r.objects) (fun n _ => by split <;> rfl) rfl] at hfor
    obtain ⟨n, hn, rfl⟩ := Option.map_eq_some_iff.1 hfor
    refine ⟨n, hn, ?_⟩
    split <;> rfl
  | call hr => exact hreserved hr ⟨n', hn', rfl⟩
  | @deliver e th record =>
    refine .inl (hquiet ?_)
    cases record with
    | work index w =>
      simp only [Device.deliver, Device.deliverWork]
      split
      · rfl
      · split
        · rfl
        · unfold Device.serve
          split <;> rfl
    | _ => rfl
  | cancel =>
    refine .inl (hquiet ?_)
    obtain ⟨_, _, ho, _⟩ := Device.cancelEnds_frame d _
    unfold Device.cancelTransaction Device.dropWorks
    exact (foldl_dropWork_nextNode _ _).trans (by rw [ho])
  | drop => exact .inl (hquiet (Objects.releaseClaims_nextNode _ _ _))
  | @retire token _ h0 =>
    refine .inl (hquiet ?_)
    rw [(d.retire_objects token).1]
    split
    · exact (ha.objects.retire h0).next
    · exact (ha.objects.retire h0).next
  | _ => exact .inl (hquiet rfl)

/-- A node is alive while its owner is there and dead after the owner's release. -/
def NodeOwners (d : Device) : Prop :=
  ∀ id n, d.objects.nodeFor id = some n →
    (n.dead = false → (d.endpointFor n.owner).isSome = true) ∧
      (n.dead = true → .released n.owner ∈ d.history)

/-- A step that takes no endpoint away. -/
theorem NodeOwners.beside {d d' : Device} {g : Node → Node} {l : List Event} (h : NodeOwners d)
    (hb : Beside d d') (hk : Objects.KeptBy g d.objects d'.objects)
    (hg : ∀ n, (g n).owner = n.owner ∧ (g n).manager = n.manager ∧ (g n).dead = n.dead)
    (hborn : ∀ id n', d'.objects.nodeFor id = some n' → Issued d.objects.nextNode id ∨
      (d.endpointFor n'.owner).isSome = true)
    (hh : d'.history = l ++ d.history) : NodeOwners d' := by
  intro id n' hn'
  rcases hk.nodes id n' hn' with ⟨n, hn, hs⟩ | ⟨hnew, hf, _⟩
  · obtain ⟨hlive, hdead⟩ := h id n hn
    have how : n'.owner = n.owner := hs.owner.trans (hg n).1
    have hd : n'.dead = n.dead := hs.dead.trans (hg n).2.2
    rw [how, hd, hh]
    exact ⟨fun h0 => hb.present _ (hlive h0), fun h1 => List.mem_append_right _ (hdead h1)⟩
  · refine ⟨fun _ => hb.present _ ((hborn id n' hn').resolve_left hnew), fun h1 => ?_⟩
    rw [hf.dead] at h1
    cases h1

theorem NodeOwners.step {d d' : Device} (h : NodeOwners d) (hd : Handling d d')
    (hborn : ∀ id n', d'.objects.nodeFor id = some n' → Issued d.objects.nextNode id ∨
      (d.endpointFor n'.owner).isSome = true) : NodeOwners d' := by
  cases hd with
  | quiet hb hq _ _ _ hh => exact h.beside hb hq.kept id_frame hborn hh
  | accept hb _ _ _ _ _ hm _ _ _ _ _ _ hh =>
    exact h.beside (l := [_, _]) hb hm.kept (like_frame (gate_like _)) hborn hh
  | deliver hb _ _ _ _ ho _ _ _ hh =>
    exact h.beside (g := id) (l := [_]) hb (by rw [ho]; exact Objects.Kept.of_nodes rfl rfl) id_frame hborn hh
  | free hb _ _ hm _ _ _ hh =>
    exact h.beside (l := [_]) hb hm.kept (like_frame (Objects.advance_like _ _ _ _)) hborn hh
  | drop hb _ _ _ hq _ _ _ hh =>
    exact h.beside (l := _ ++ _) hb hq.kept id_frame hborn (by rw [hh, List.append_assoc])
  | @register e n hpres he _ _ how _ hf _ _ _ _ _ _ _ hfor _ _ hh =>
    intro id n' hn'
    rw [hfor] at hn'
    rw [hh]
    split at hn'
    next =>
      cases hn'
      refine ⟨fun _ => hpres _ ?_, fun h1 => ?_⟩
      · rw [how, he]
        rfl
      · rw [hf.dead] at h1
        cases h1
    next =>
      obtain ⟨hlive, hdead⟩ := h id n' hn'
      exact ⟨fun h0 => hpres _ (hlive h0), hdead⟩
  | done hb _ _ _ _ hm _ _ _ hh =>
    exact h.beside (l := [_]) hb hm.kept (acked_frame _ _) hborn hh
  | command hb _ _ _ _ _ _ hm _ _ _ hh =>
    exact h.beside (l := [_]) hb hm.kept (told_frame _ _) hborn hh
  | @retire token o h0 hr ho _ hpres _ _ _ hh =>
    intro id n' hn'
    have hfor : d'.objects.nodeFor id = o.nodeFor id := by
      rw [ho]
      split <;> rfl
    rw [hfor, hr.nodes, Option.filter_eq_some_iff] at hn'
    obtain ⟨n, hn, rfl⟩ := Option.map_eq_some_iff.1 hn'.1
    obtain ⟨hlive, hdead⟩ := h id n hn
    rw [hh]
    unfold Objects.orphan
    split
    next hown =>
      -- its owner is the released endpoint
      simp only [Bool.and_eq_true, beq_iff_eq] at hown
      refine ⟨(fun hd => nomatch hd), fun _ => ?_⟩
      show Event.released n.owner ∈ _
      rw [hown.2]
      exact List.mem_cons_self
    next hown =>
      refine ⟨fun hd => (hpres _).2 ⟨hlive hd, fun heq => hown ?_⟩, fun hd => List.mem_cons_of_mem _ (hdead hd)⟩
      obtain ⟨_, hid, hid0⟩ := Objects.nodeFor_spec hn
      simp [hid, hid0, heq]

theorem Device.Reachable.nodeOwners {d : Device} (h : d.Reachable) : NodeOwners d := by
  refine h.inv_of (J := fun d => d.Reachable) (fun _ h => h) (fun d hi => ?_) fun d d' hr hn hs =>
    hn.step (Device.Reachable.handling hr hs) fun _ _ hn' => hs.births hr hn'
  intro id n hn
  have ho : d.objects = {} := (machine_init hi).2.2.2.1
  rw [ho] at hn
  cases hn

end Artbox.Binder
