import Artbox.Binder.Carriage

/-!
# Objects in other hands

What the receiver of a parcel has of its objects, and for how long. Until it gives the parcel
back (`Parcel.Held`) every object in it names the node it was sent for, and two objects that
name one node look the same.

The law composes. As long as an endpoint has a handle the handle denotes one node, so along
any chain of forwards, over any number of endpoints, an object stays the one it was, and one
that comes back to its owner has the pointer and the cookie it was sent out with
(`Forwarded`).
-/

namespace Artbox.Binder

open Bytes Slots Objects Trace

/-! ## Nodes stay who they are -/

section Steps

variable {d d' : Device} {x k handle : Nat} {n n' : Node}

theorem acked_twin (x : Nat) (increfs : Bool) (n : Node) : n.Twin (acked x increfs n) := by
  unfold acked
  split
  · split <;> exact ⟨rfl, rfl, rfl, rfl⟩
  · exact .refl n

theorem told_twin (x : Nat) (c : BR) (n : Node) : n.Twin (told x c n) := by
  unfold told
  split
  · cases c <;> exact ⟨rfl, rfl, rfl, rfl⟩
  · exact .refl n

theorem orphan_twin (token : Nat) (n : Node) : n.Twin (orphan token n) := by
  unfold orphan
  split
  · exact ⟨rfl, rfl, rfl, rfl⟩
  · exact .refl n

/-- No step makes a node another. -/
theorem Handling.twin (ha : Accounts d) (h : Handling d d') (hn : d.objects.nodeFor x = some n)
    (hn' : d'.objects.nodeFor x = some n') : n.Twin n' := by
  have hnodes := ha.objects.nodes
  cases h with
  | quiet _ hq => exact hq.kept.twin (g := id) .refl hnodes hn hn'
  | accept _ _ _ _ _ _ hm => exact hm.kept.twin (fun n => (gate_like _ n).twin) hnodes hn hn'
  | deliver _ _ _ _ _ ho =>
    rw [ho, hn] at hn'
    cases hn'
    exact .refl n
  | free _ _ _ hm => exact hm.kept.twin (fun n => (advance_like _ _ _ _ n).twin) hnodes hn hn'
  | drop _ _ _ _ hq => exact hq.kept.twin (g := id) .refl hnodes hn hn'
  | @register _ m _ _ _ _ _ _ _ hnew _ _ _ _ _ _ hfor =>
    -- the manager's node is a new one
    obtain ⟨hmem, hid, h0⟩ := nodeFor_spec hn
    have hne : x ≠ m.id := by
      rintro rfl
      exact hnew (hid ▸ hnodes.issued n hmem (hid ▸ h0))
    rw [hfor, if_neg hne, hn] at hn'
    cases hn'
    exact .refl n
  | done _ _ _ _ _ hm => exact hm.kept.twin (acked_twin _ _) hnodes hn hn'
  | command _ _ _ _ _ _ _ hm => exact hm.kept.twin (told_twin _ _) hnodes hn hn'
  | @retire token o _ hr ho =>
    have hfor : d'.objects.nodeFor x = o.nodeFor x := by
      rw [ho]
      split <;> rfl
    rw [hfor] at hn'
    exact hr.moves.kept.twin (orphan_twin token) hnodes hn hn'

/-- The node behind a handle is there as long as the handle is. -/
theorem StepsHolding.stands {r : Reference} (hs : StepsHolding k handle d d') (h : d.Reachable)
    (hk : k ≠ 0) (hr : d.objects.referenceFor k handle = some r) (hrn : r.node = n.id)
    (hn : d.objects.Stands n) : d'.objects.Stands n := by
  induction hs with
  | refl => exact hn
  | @tail d₁ d₂ hs₁ hstep ih =>
    obtain ⟨n₁, hn₁, htwin⟩ := ih
    have h₁ : d₁.Reachable := StepsHolding.reachable hs₁ h
    have hs₂ : StepsHolding k handle d d₂ := .tail hs₁ hstep
    obtain ⟨r₂, hr₂, hsame⟩ := hs₂.node h hk hr
    obtain ⟨hmem, hre, _⟩ := referenceFor_spec hr₂
    obtain ⟨n₂, hn₂, _⟩ := (h₁.then hstep.1).accounts.objects.nodes.referred r₂ hmem (hre ▸ hk)
    rw [hsame, hrn] at hn₂
    exact ⟨n₂, hn₂, htwin.trans ((h₁.handling hstep.1).twin h₁.accounts hn₁ hn₂)⟩

end Steps

/-! ## What a receiver holds -/

/-- The receiver has the parcel no more: it freed the buffer, never read it, or is gone. -/
def Parcel.GivenUp (p : Parcel) (e : Event) : Prop :=
  e = .freed p.work.endpoint p.work.value.dataBuffer ∨ (∃ k i, e = .dropped k i p.work) ∨
    e = .released p.work.endpoint

/-- The parcel was accepted and is not given up. -/
def Parcel.Held (p : Parcel) (h : List Event) : Prop := Since p.GivenUp (· = .accepted p) h

theorem Event.drops_iff {e : Event} {w : Work} : e.drops w = true ↔ ∃ k i, e = .dropped k i w := by
  cases e <;> simp [Event.drops]

instance (p : Parcel) : DecidablePred p.GivenUp := fun e =>
  decidable_of_iff (e = .freed p.work.endpoint p.work.value.dataBuffer ∨ e.drops p.work = true ∨
    e = .released p.work.endpoint) (or_congr_right (or_congr_left Event.drops_iff))

instance (p : Parcel) (h : List Event) : Decidable (p.Held h) := inferInstanceAs (Decidable (Since _ _ h))

/-- The parcel's buffer is there and holds the nodes of its objects. -/
structure Parcel.Kept (p : Parcel) (d : Device) : Prop where
  target : p.work.endpoint ≠ 0
  lodged : p.work ∈ d.work ∨ d.bufferState p.work.endpoint p.work.value.dataBuffer = some true
  conveys : ∀ x n, p.Lists x n →
    Conveys d.objects p.work.endpoint p.work.value.dataBuffer p.data x n
  stands : ∀ x n, p.Lists x n → d.objects.Stands n

section Held

variable {d d' : Device} {p : Parcel}

/-- A step that takes no claim of the parcel's buffer back. -/
theorem Parcel.Kept.keep (h : p.Kept d) (ha : Accounts d) (hd : Handling d d')
    (hlodged : p.work ∈ d'.work ∨ d'.bufferState p.work.endpoint p.work.value.dataBuffer = some true)
    (hclaims : ∀ c : Claim, c.endpoint ≠ 0 → c.At p.work.endpoint p.work.value.dataBuffer →
      c ∈ d.objects.claims → c ∈ d'.objects.claims) : p.Kept d' := by
  have hconveys : ∀ x n, p.Lists x n →
      Conveys d'.objects p.work.endpoint p.work.value.dataBuffer p.data x n := by
    intro x n hn
    obtain ⟨handle, hmem, hshows⟩ := h.conveys x n hn
    exact ⟨handle, hclaims _ h.target ⟨rfl, rfl⟩ hmem, hshows⟩
  refine ⟨h.target, hlodged, hconveys, fun x n hn => ?_⟩
  obtain ⟨handle, hmem, _⟩ := hconveys x n hn
  obtain ⟨n₁, hn₁, htwin⟩ := h.stands x n hn
  obtain ⟨n₂, hn₂, _⟩ := (ha.handled hd).objects.nodes.claimed _ hmem h.target
  exact ⟨n₂, hn₂, htwin.trans (hd.twin ha hn₁ hn₂)⟩

/-- Only what gives a parcel up takes it from its receiver. -/
theorem Parcel.Kept.step (h : p.Kept d) (hr : d.Reachable) (hs : Step d d')
    (hg : ∀ l, d'.history = l ++ d.history → ∀ e ∈ l, ¬ p.GivenUp e) : p.Kept d' := by
  have ha := hr.accounts
  have hd := hr.handling hs
  have hsame : ∀ k x b, d.bufferState k x = some b → d'.bufferState k x = d.bufferState k x →
      d'.bufferState k x = some b := fun k x b hb heq => heq.trans hb
  cases id hd with
  | quiet _ _ hc hb hw _ _ =>
    exact h.keep ha hd (h.lodged.imp (fun hw' => hw ▸ hw') (hsame _ _ _ · (hb _ _)))
      fun c h0 _ hmem => (hc c h0).2 hmem
  | accept _ _ _ _ _ _ _ _ hc hl hnone hb hw _ =>
    refine h.keep ha hd (h.lodged.imp (fun hw' => ?_) fun hb' => hsame _ _ _ hb' ?_) fun c h0 _ hmem => ?_
    · rw [hw]
      exact List.mem_append_left _ hw'
    · -- the new buffer was not there before
      rw [hb, if_neg]
      rintro ⟨hk, hx⟩
      rw [hk, hx, hnone] at hb'
      cases hb'
    · rw [hc]
      exact hl.counts.claims c hmem h0
  | @deliver e th index w _ _ _ hw hwe ho hb₀ hb hwork _ =>
    refine h.keep ha hd ?_ fun c h0 _ hmem => ho.symm ▸ hmem
    rcases h.lodged with hmem | hb'
    · by_cases heq : p.work = w
      · refine .inr ?_
        rw [hb, heq, if_pos ⟨hwe, rfl⟩]
      · refine .inl ?_
        rw [hwork]
        exact (Device.mem_eraseIdx hr.queueIds.nodup hw _).2 ⟨hmem, heq⟩
    · refine .inr ?_
      rw [hb]
      split
      · rfl
      · exact hb'
  | @free k x _ _ _ _ hc hb hw hh =>
    have hne : ¬ (p.work.endpoint = k ∧ p.work.value.dataBuffer = x) := by
      rintro ⟨rfl, rfl⟩
      exact hg [_] hh _ (List.mem_singleton_self _) (.inl rfl)
    refine h.keep ha hd (h.lodged.imp (fun hw' => hw ▸ hw') fun hb' => hsame _ _ _ hb' ?_)
      fun c h0 hat hmem => (hc c h0).2 ⟨hmem, fun hx => hne ?_⟩
    · rw [hb, if_neg hne]
    · exact ⟨hat.1.symm.trans hx.1, hat.2.symm.trans hx.2⟩
  | @drop token tid ws l _ _ hws hunread _ hc hb hwork hh _ =>
    have hnone : p.work ∉ ws := by
      intro hmem
      refine hg _ (by rw [hh, List.append_assoc]) (.dropped token tid p.work) ?_ (.inr (.inl ⟨_, _, rfl⟩))
      exact List.mem_append_left _ (List.mem_reverse.2 (List.mem_map_of_mem hmem))
    -- no parcel but this one has its buffer
    have hother : ∀ w ∈ ws, ¬ (w.endpoint = p.work.endpoint ∧
        w.value.dataBuffer = p.work.value.dataBuffer) := by
      rintro w hw ⟨hk, hx⟩
      rcases h.lodged with hmem | hb'
      · exact hnone (hr.parcelInv.distinct w (hws w hw) _ hmem hk hx ▸ hw)
      · have := hunread w hw
        rw [hk, hx, hb'] at this
        cases this
    refine h.keep ha hd (h.lodged.imp (fun hmem => ?_) fun hb' => hsame _ _ _ hb' ?_)
      fun c h0 hat hmem => (hc c h0).2 ⟨hmem, fun w hw hx => hother w hw ?_⟩
    · rw [hwork, Device.mem_foldl_erase hr.queueIds.nodup]
      exact ⟨hmem, hnone⟩
    · rw [hb, if_neg]
      rintro ⟨w, hw, hk, hx⟩
      exact hother w hw ⟨hk, hx⟩
    · exact ⟨hx.1.symm.trans hat.1, hx.2.symm.trans hat.2⟩
  | register _ _ _ _ _ _ _ _ _ _ _ _ _ hc _ hb hw _ =>
    exact h.keep ha hd (h.lodged.imp (fun hw' => hw ▸ hw') (hsame _ _ _ · (hb _ _)))
      fun c _ _ hmem => hc.symm ▸ hmem
  | done _ _ _ _ _ _ hc hb hw _ | command _ _ _ _ _ _ _ _ hc hb hw _ =>
    exact h.keep ha hd (h.lodged.imp (fun hw' => hw ▸ hw') (hsame _ _ _ · (hb _ _)))
      fun c h0 _ hmem => (hc c h0).2 hmem
  | @retire token o _ hret ho _ _ hb _ hw hh =>
    have hne : p.work.endpoint ≠ token := by
      rintro rfl
      exact hg [_] hh _ (List.mem_singleton_self _) (.inr (.inr rfl))
    have hclaims : d'.objects.claims = o.claims := by
      rw [ho]
      split <;> rfl
    refine h.keep ha hd (h.lodged.imp (fun hw' => hw ▸ hw') fun hb' => hsame _ _ _ hb' ?_)
      fun c h0 hat hmem => ?_
    · rw [hb, if_neg hne]
    · rw [hclaims, hret.claims]
      refine mem_update_const.2 (.inr ⟨hmem, ?_⟩)
      simpa [claimMatches] using fun heq => hne (hat.1.symm.trans heq)

theorem Traffic.suffix (h : Traffic d d') : ∃ l, d'.history = l ++ d.history := by
  cases h with
  | quiet _ _ hh => exact ⟨_, hh⟩
  | accept _ _ _ hh => exact ⟨[_, _], hh⟩
  | deliver _ _ _ _ _ _ hh => exact ⟨[_], hh⟩
  | drop _ _ _ _ _ _ _ hh => exact ⟨_ ++ _, hh.trans (List.append_assoc ..).symm⟩

/-- What happened stays in the history. -/
theorem Device.Reachable.remembers (hr : d.Reachable) (hs : machine.Steps d d') {e : Event}
    (he : e ∈ d.history) : e ∈ d'.history := by
  induction hs with
  | refl => exact he
  | @tail d₁ d₂ hpath hstep ih =>
    have hr₁ : d₁.Reachable := hr.steps hpath
    obtain ⟨l, hl⟩ := (hr₁.traffic hstep).suffix
    rw [hl]
    exact List.mem_append_right _ ih

/-- A parcel that was accepted before a step and is held behind it was held all the time. -/
theorem Parcel.Held.back (h : p.Held d'.history) (hr : d.Reachable) (hs : Step d d')
    (hp : .accepted p ∈ d.history) :
    p.Held d.history ∧ ∀ l, d'.history = l ++ d.history → ∀ e ∈ l, ¬ p.GivenUp e := by
  obtain ⟨l, hl⟩ := (hr.traffic hs).suffix
  -- no parcel is accepted twice
  have honce : .accepted p ∉ l := by
    intro hmem
    have hle := (hr.then hs).ledger.accepted_once p.work
    have h1 : 0 < l.countP (·.accepts p.work) := List.countP_pos_iff.2 ⟨_, hmem, by simp⟩
    have h2 : 0 < d.history.countP (·.accepts p.work) := List.countP_pos_iff.2 ⟨_, hp, by simp⟩
    rw [hl, List.countP_append] at hle
    omega
  rw [hl] at h
  obtain ⟨hheld, hnone⟩ := Since.of_append h fun e he heq => honce (heq ▸ he)
  refine ⟨hheld, fun l' hl' => ?_⟩
  rw [List.append_cancel_right (hl'.symm.trans hl)]
  exact hnone

/-- A parcel that is held is there, with the nodes of its objects. -/
theorem Device.Reachable.kept (h : d.Reachable) (hp : p.Held d.history) : p.Kept d := by
  induction h with
  | init hi =>
    rw [(machine_init hi).2.2.2.2.1] at hp
    exact hp.elim
  | @step d d' hr hs ih =>
    obtain ⟨e, he, rfl⟩ := Since.mem hp
    by_cases hold : .accepted p ∈ d.history
    · obtain ⟨hheld, hnone⟩ := hp.back hr hs hold
      exact (ih hheld).step hr hs hnone
    · have hcarries := Step.carries hr hs hold he
      exact ⟨hcarries.target, .inl hcarries.queued, hcarries.conveys, hcarries.stands⟩

/-- An object in a parcel that is held names the node it was sent for. -/
theorem Parcel.Kept.arrives (h : p.Kept d) (hr : d.Reachable) {x : Nat} {n : Node} (hn : p.Lists x n) :
    Arrives d.objects p.work.endpoint p.data x n :=
  hr.accounts.objects.arrives h.target (h.conveys x n hn)

/-- While a parcel is held its receiver has the handles in it. -/
theorem Parcel.Held.holding (hr : d.Reachable) (hs : machine.Steps d d') (h : p.Held d'.history)
    (hp : .accepted p ∈ d.history) {x : Nat} {n : Node} (hn : p.Lists x n)
    (hforeign : n.owner ≠ p.work.endpoint) :
    StepsHolding p.work.endpoint (read64 p.data (x + 8)) d d' := by
  induction hs with
  | refl => exact .refl
  | @tail d₁ d₂ hpath hstep ih =>
    have hr₁ : d₁.Reachable := hr.steps hpath
    refine .tail (ih (h.back hr₁ hstep (hr.remembers hpath hp)).1) ⟨hstep, ?_⟩
    have hr₂ := hr₁.then hstep
    cases (hr₂.kept h).arrives hr₂ hn with
    | binder how => exact absurd how hforeign
    | handle _ _ href => rw [href]; rfl

/-- Two objects that one endpoint holds and that name one node look the same. -/
theorem Parcel.Kept.alike {q : Parcel} (hp : p.Kept d) (hq : q.Kept d) (hr : d.Reachable)
    (hk : p.work.endpoint = q.work.endpoint) {x y : Nat} {n m : Node} (hn : p.Lists x n)
    (hm : q.Lists y m) (hid : n.id = m.id) :
    read32 p.data x = read32 q.data y ∧ read64 p.data (x + 8) = read64 q.data (y + 8) ∧
      read64 p.data (x + 16) = read64 q.data (y + 16) := by
  obtain ⟨n₁, hn₁, htwin₁⟩ := hp.stands x n hn
  obtain ⟨n₂, hn₂, htwin₂⟩ := hq.stands y m hm
  rw [← hid, hn₁] at hn₂
  cases hn₂
  have htwin : n.Twin m := htwin₁.trans htwin₂.symm
  cases hp.arrives hr hn with
  | binder how htype hfirst hsecond =>
    cases hq.arrives hr hm with
    | binder _ htype' hfirst' hsecond' =>
      rw [htwin.pointer] at hfirst'
      rw [htwin.cookie] at hsecond'
      exact ⟨htype.trans htype'.symm, hfirst.trans hfirst'.symm, hsecond.trans hsecond'.symm⟩
    | handle how' => exact absurd (htwin.owner.trans (how.trans hk)) how'
  | @handle ref how htype href _ hrn hsecond =>
    cases hq.arrives hr hm with
    | binder how' => exact absurd (htwin.owner.symm.trans (how'.trans hk.symm)) how
    | @handle ref' _ htype' href' _ hrn' hsecond' =>
      obtain ⟨hmem, hre, hrh⟩ := referenceFor_spec href
      obtain ⟨hmem', hre', hrh'⟩ := referenceFor_spec href'
      -- an endpoint has one handle for a node
      have heq : ref = ref' := hr.accounts.objects.tables.targets.eq_of_mem hmem hmem' (hre ▸ hp.target)
        (hre' ▸ hq.target) (Prod.ext (hre.trans (hk.trans hre'.symm)) (hrn.trans (hid.trans hrn'.symm)))
      refine ⟨htype.trans htype'.symm, ?_, hsecond.trans hsecond'.symm⟩
      rw [← hrh, ← hrh', heq]

/-- What a receiver holds, in every run of calls on any host: as long as a parcel is not given up
each of its objects names the node it was sent for, which is still there, and two objects of
one node in the hands of one endpoint are the same words. -/
theorem held_objects {ω : Type} {host : Host ω} {s : System ω} (h : (System.machine host).Reachable s) :
    (∀ (p : Parcel) (x : Nat) (n : Node), p.Held s.device.history → p.Lists x n →
      Arrives s.device.objects p.work.endpoint p.data x n ∧ s.device.objects.Stands n) ∧
    ∀ (p q : Parcel) (x y : Nat) (n m : Node), p.Held s.device.history → q.Held s.device.history →
      p.work.endpoint = q.work.endpoint → p.Lists x n → q.Lists y m → n.id = m.id →
        read32 p.data x = read32 q.data y ∧ read64 p.data (x + 8) = read64 q.data (y + 8) ∧
          read64 p.data (x + 16) = read64 q.data (y + 16) := by
  have hr := system_reachable h
  refine ⟨fun p x n hheld hn => ?_, fun p q x y n m hp hq hk hn hm hid => ?_⟩
  · have hkept := hr.kept hheld
    exact ⟨hkept.arrives hr hn, hkept.stands x n hn⟩
  · exact (hr.kept hp).alike (hr.kept hq) hr hk hn hm hid

theorem held_export : ∀ p ∈ parcels exportScript exportCalls,
    p.Held (replay exportScript exportCalls).history ∧ ∃ n ∈ p.nodes, p.Lists 0 n := by
  decide

/-- The manager has the client's object. -/
theorem held_objects_export : ∃ p n, .accepted p ∈ (replay exportScript exportCalls).history ∧
    Arrives (replay exportScript exportCalls).objects p.work.endpoint p.data 0 n := by
  obtain ⟨p, hp⟩ := List.exists_mem_of_ne_nil _ parcels_export
  obtain ⟨hheld, n, _, hn⟩ := held_export p hp
  obtain ⟨s, hs, heq⟩ := replay_system exportScript exportCalls
  refine ⟨p, n, mem_parcels hp, ?_⟩
  rw [← heq] at hheld ⊢
  exact ((held_objects hs).1 p 0 n hheld hn).1

end Held

/-! ## Chains of forwards -/

/-- The object that was sent as the one at `x` of `p`, naming `n`, is forwarded up to `d`, where
it is the one at `y` of `q`, naming `m`. Each endpoint on the way sends on a handle it was sent,
and has that handle all the time in between. -/
inductive Forwarded (p : Parcel) (x : Nat) (n : Node) : Device → Parcel → Nat → Node → Prop
  | sent {d d' : Device} : d.Reachable → Step d d' → .accepted p ∉ d.history →
    .accepted p ∈ d'.history → p.Lists x n → Forwarded p x n d' p x n
  | next {d d₁ d₂ : Device} {q q' : Parcel} {y y' : Nat} {m m' : Node} : Forwarded p x n d q y m →
    read32 q.data y = ObjectType.handle.word →
      StepsHolding q.work.endpoint (read64 q.data (y + 8)) d d₁ → Step d₁ d₂ →
        .accepted q' ∉ d₁.history → .accepted q' ∈ d₂.history → q'.source = q.work.endpoint →
          q'.Lists y' m' → read32 q'.sent y' = ObjectType.handle.word →
            read32 q'.sent (y' + 8) = read64 q.data (y + 8) → Forwarded p x n d₂ q' y' m'

section Chains

variable {p q : Parcel} {x y : Nat} {n m : Node} {d : Device}

theorem Arrives.twin {o : Objects} {k : Nat} {data : List UInt8} (h : Arrives o k data y m)
    (ht : n.Twin m) : Arrives o k data y n := by
  cases h with
  | binder how htype hfirst hsecond =>
    exact .binder (ht.owner ▸ how) htype (ht.pointer ▸ hfirst) (ht.cookie ▸ hsecond)
  | handle how htype hr hheld hn hsecond =>
    exact .handle (ht.owner ▸ how) htype hr hheld (hn.trans ht.id) hsecond

/-- What the first sender sent, and what the last receiver has. -/
structure Linked (p : Parcel) (x : Nat) (n : Node) (d : Device) (q : Parcel) (y : Nat) (m : Node) :
    Prop where
  reachable : d.Reachable
  sent : read32 p.sent x = ObjectType.binder.word →
    n.owner = p.source ∧ n.pointer = read64 p.sent (x + 8) ∧ n.cookie = read64 p.sent (x + 16)
  twin : n.Twin m
  endpoint : q.work.endpoint ≠ 0
  arrives : Arrives d.objects q.work.endpoint q.data y m
  stands : d.objects.Stands m

theorem Forwarded.linked (h : Forwarded p x n d q y m) : Linked p x n d q y m := by
  induction h with
  | @sent d d' hd hs hold hp hn =>
    have hcarries := hs.carries hd hold hp
    have harrives := hcarries.arrives x n hn
    refine ⟨hd.then hs, fun htype => ?_, .refl n, hcarries.target, harrives, hcarries.stands x n hn⟩
    cases hcarries.sends x n hn with
    | binder _ how hptr hcookie => exact ⟨how, hptr, hcookie⟩
    | handle hhandle =>
      rw [htype] at hhandle
      exact absurd hhandle (by decide)
  | @next d d₁ d₂ q q' y y' m m' hf htype hholding hs hold hq' hsource hm' htype' hsame ih =>
    have hd₁ := hholding.reachable ih.reachable
    have hcarries := hs.carries hd₁ hold hq'
    have htwin : m.Twin m' := by
      cases ih.arrives with
      | binder _ hbinder =>
        rw [htype] at hbinder
        exact absurd hbinder (by decide)
      | @handle r _ _ hr _ hrn =>
        obtain ⟨r₁, hr₁, hr₁n⟩ := hholding.node ih.reachable ih.endpoint hr
        obtain ⟨n₁, hn₁, htwin₁⟩ := hholding.stands ih.reachable ih.endpoint hr hrn ih.stands
        obtain ⟨n₂, hn₂, htwin₂⟩ := hcarries.stands y' m' hm'
        -- the forwarded handle is still the one that was received
        have hid : m'.id = m.id := by
          cases hcarries.sends y' m' hm' with
          | binder hbinder =>
            rw [htype'] at hbinder
            exact absurd hbinder (by decide)
          | handle _ hr' _ hn' =>
            rw [hsource, hsame, hr₁] at hr'
            cases hr'
            exact hn'.symm.trans (hr₁n.trans hrn)
        rw [hid] at hn₂
        exact (htwin₁.trans ((hd₁.handling hs).twin hd₁.accounts hn₁ hn₂)).trans htwin₂.symm
    exact ⟨hd₁.then hs, ih.sent, ih.twin.trans htwin, hcarries.target, hcarries.arrives y' m' hm',
      hcarries.stands y' m' hm'⟩

/-- Whoever holds a parcel when it sends on a handle from it forwards the object. -/
theorem Forwarded.forward (h : Forwarded p x n d q y m) (hq : .accepted q ∈ d.history) {d₁ d₂ : Device}
    (hpath : machine.Steps d d₁) (hheld : q.Held d₁.history) (hn : q.Lists y m)
    (htype : read32 q.data y = ObjectType.handle.word) (hs : Step d₁ d₂) {q' : Parcel}
    (hold : .accepted q' ∉ d₁.history) (hnew : .accepted q' ∈ d₂.history)
    (hsource : q'.source = q.work.endpoint) {y' : Nat} {m' : Node} (hn' : q'.Lists y' m')
    (htype' : read32 q'.sent y' = ObjectType.handle.word)
    (hsame : read32 q'.sent (y' + 8) = read64 q.data (y + 8)) : Forwarded p x n d₂ q' y' m' := by
  have hl := h.linked
  have hforeign : m.owner ≠ q.work.endpoint := by
    cases hl.arrives with
    | binder _ hbinder =>
      rw [htype] at hbinder
      exact absurd hbinder (by decide)
    | handle how => exact how
  have hholding := hheld.holding hl.reachable hpath hq hn hforeign
  exact .next h htype hholding hs hold hnew hsource hn' htype' hsame

end Chains

/-- Forwards keep the object. Over any chain of forwards the last receiver has the node that
was sent out first, and if it is the owner, who sent a `BINDER`, it has that `BINDER` back. -/
theorem forwards_return {p q : Parcel} {x y : Nat} {n m : Node} {d : Device}
    (h : Forwarded p x n d q y m) :
    Arrives d.objects q.work.endpoint q.data y n ∧ d.objects.Stands n ∧
      (read32 p.sent x = ObjectType.binder.word → q.work.endpoint = p.source →
        read32 q.data y = ObjectType.binder.word ∧ read64 q.data (y + 8) = read64 p.sent (x + 8) ∧
          read64 q.data (y + 16) = read64 p.sent (x + 16)) := by
  have hl := h.linked
  have harrives := hl.arrives.twin hl.twin
  obtain ⟨n', hn', htwin⟩ := hl.stands
  refine ⟨harrives, ⟨n', ?_, hl.twin.trans htwin⟩, fun htype hback => ?_⟩
  · rw [← hl.twin.id, hn']
  · have hword : ∀ i, read64 p.sent i < 2 ^ 64 := fun i => field_lt p.sent i 8
    obtain ⟨how, hptr, hcookie⟩ := hl.sent htype
    cases harrives with
    | binder _ hbinder hfirst hsecond =>
      rw [hptr, Nat.mod_eq_of_lt (hword _)] at hfirst
      rw [hcookie, Nat.mod_eq_of_lt (hword _)] at hsecond
      exact ⟨hbinder, hfirst, hsecond⟩
    | handle hforeign => exact absurd (how.trans hback.symm) hforeign

/-- The manager answers the client's call with the handle it was sent. -/
def returnScript : Script :=
  exportScript ++ [(1, 320, Header.bytes ⟨68, 0, 640, 0, 0, 0⟩),
    (1, 640, packetBytes .reply 0 0 24 8 1024 2048), (1, 1024, objectBytes .handle 1 0),
    (1, 2048, Bytes.writeLE 8 0)]

def returnCalls : List Call := exportCalls ++ [.writeRead 1 1 320]

/-- The parcel that was accepted last, the call it answers, and what happened before it. -/
def returned : Option (Parcel × Parcel × List Event) :=
  match (replay returnScript returnCalls).history, parcels returnScript returnCalls with
  | _ :: .accepted q :: older, [_, p] => some (q, p, older)
  | _, _ => none

theorem returned_isSome : returned.isSome = true := by decide

theorem returned_spec {p q : Parcel} {older : List Event} (h : returned = some (q, p, older)) :
    ∃ newer, (replay returnScript returnCalls).history = newer ++ .accepted q :: older := by
  unfold returned at h
  split at h
  next hh _ =>
    cases h
    exact ⟨[_], hh⟩
  next => cases h

/-- The client has its own object back. -/
theorem forwards_return_export : ∃ p q n m d, Forwarded p 0 n d q 0 m ∧
    read32 q.data 0 = ObjectType.binder.word ∧ read64 q.data 8 = 77 ∧ read64 q.data 16 = 78 := by
  obtain ⟨⟨q, p, older⟩, hsome⟩ := Option.isSome_iff_exists.1 returned_isSome
  have hget : returned.get returned_isSome = (q, p, older) := Option.get_of_eq_some returned_isSome hsome
  have hrun : ∀ x, returned.get returned_isSome = x → .accepted x.2.1 ∈ x.2.2 ∧ x.2.1.Held x.2.2 ∧
      (∃ n ∈ x.2.1.nodes, x.2.1.Lists 0 n) ∧ (∃ m ∈ x.1.nodes, x.1.Lists 0 m) ∧
      read32 x.2.1.data 0 = ObjectType.handle.word ∧ x.1.source = x.2.1.work.endpoint ∧
      read32 x.1.sent 0 = ObjectType.handle.word ∧ read32 x.1.sent 8 = read64 x.2.1.data 8 ∧
      read32 x.2.1.sent 0 = ObjectType.binder.word ∧ x.1.work.endpoint = x.2.1.source ∧
      read64 x.2.1.sent 8 = 77 ∧ read64 x.2.1.sent 16 = 78 := by
    rintro x rfl
    decide
  obtain ⟨hp, hheld, ⟨n, _, hn⟩, ⟨m, _, hm⟩, htype, hsource, htype', hsame, hbinder, hback, h77, h78⟩ :=
    hrun _ hget
  obtain ⟨newer, hh⟩ := returned_spec hsome
  -- the answer, and before it the call
  have hr := replay_reachable returnScript returnCalls
  obtain ⟨d₁, d₂, hd₁, hs₁, rfl, hnew, _⟩ := hr.accepting hh
  obtain ⟨newer', older', hh'⟩ := List.append_of_mem hp
  obtain ⟨d, d', hd, hs, rfl, hnew', hpath⟩ := hd₁.accepting hh'
  have hsent : Forwarded p 0 n d' p 0 n := .sent hd hs (hd₁.accepted_new hh') hnew' hn
  have hfor := hsent.forward hnew' hpath hheld hn htype hs₁ (hr.accepted_new hh) hnew hsource hm
    htype' hsame
  obtain ⟨hb, hpointer, hcookie⟩ := (forwards_return hfor).2.2 hbinder hback
  exact ⟨p, q, n, m, d₂, hfor, hb, hpointer.trans h77, hcookie.trans h78⟩

end Artbox.Binder
