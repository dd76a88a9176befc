import Artbox.Binder.Agreement
import Artbox.Binder.Deaths
import Artbox.Binder.Manager

/-!
# The teardown of an endpoint

What `release_endpoint` leaves, table by table: first the object tables after any number
of buffers were given back (`Objects.Releases`), then the device after any number of calls
were ended and parcels dropped (`Device.Cut`), and last the released endpoint itself.
-/

namespace Artbox.Binder

open Slots

namespace Objects

/-! ## Buffers given back -/

/-- The references of `o` with smaller temporary counts; only uncounted ones are gone. -/
structure Recounts (o o' : Objects) : Prop where
  old : ∀ r' ∈ o'.references, r'.endpoint ≠ 0 → ∃ r ∈ o.references,
    r' = { r with temporaryStrong := r'.temporaryStrong } ∧ r'.temporaryStrong ≤ r.temporaryStrong
  kept : ∀ r ∈ o.references, r.endpoint ≠ 0 → (∃ r' ∈ o'.references,
    r' = { r with temporaryStrong := r'.temporaryStrong }) ∨ (r.strong = 0 ∧ r.weak = 0)

section Recounts

variable {o o' o'' : Objects} {claims : List Claim} {r : Reference}

/-- Tables with the same references are recounts of each other. -/
theorem Recounts.of_eq (h : o'.references = o.references) : Recounts o o' :=
  ⟨fun r hr _ => ⟨r, h ▸ hr, rfl, Nat.le_refl _⟩, fun r hr _ => .inl ⟨r, h ▸ hr, rfl⟩⟩

/-- Recounts compose. -/
theorem Recounts.trans (h : Recounts o o') (h' : Recounts o' o'') : Recounts o o'' := by
  refine ⟨fun r'' hr'' h0 => ?_, fun r hr h0 => ?_⟩
  · obtain ⟨r', hr', heq', hle'⟩ := h'.old r'' hr'' h0
    have h0' : r'.endpoint ≠ 0 := by
      rw [heq'] at h0
      exact h0
    obtain ⟨r, hr, heq, hle⟩ := h.old r' hr' h0'
    refine ⟨r, hr, ?_, by omega⟩
    rw [heq] at heq'
    exact heq'
  · rcases h.kept r hr h0 with ⟨r', hr', heq⟩ | hun
    · have h0' : r'.endpoint ≠ 0 := by
        rw [heq]
        exact h0
      rcases h'.kept r' hr' h0' with ⟨r'', hr'', heq'⟩ | hun
      · refine .inl ⟨r'', hr'', ?_⟩
        rw [heq] at heq'
        exact heq'
      · rw [heq] at hun
        exact .inr hun
    · exact .inr hun

/-- A listed reference is written back with a smaller temporary count. -/
theorem Writes.recounts {n : Nat} (hw : Writes o o' { r with temporaryStrong := n })
    (h : o.Tables claims) (hr : r ∈ o.references) (hle : n ≤ r.temporaryStrong) : Recounts o o' := by
  have h0 : r.endpoint ≠ 0 := hw.live
  refine ⟨fun x hx hx0 => ?_, fun x hx hx0 => ?_⟩
  · rcases (hw.mem x hx0).1 hx with ⟨rfl, _⟩ | ⟨hx, _⟩
    · exact ⟨r, hr, rfl, hle⟩
    · exact ⟨x, hx, rfl, Nat.le_refl _⟩
  · by_cases hk : x.SameKey { r with temporaryStrong := n }
    · have hxr : x = r := h.handles.eq_of_mem hx hr hx0 h0 (Prod.ext hk.1 hk.2)
      rw [hxr]
      by_cases hc : Reference.Counted { r with temporaryStrong := n }
      · exact .inl ⟨_, (hw.mem _ hw.live).2 (.inl ⟨rfl, hc⟩), rfl⟩
      · -- what is not counted has no counts of its own
        refine .inr ⟨?_, ?_⟩ <;> by_contra hne
        · exact hc fun hz => hne hz.1
        · exact hc fun hz => hne hz.2.1
    · exact .inl ⟨x, (hw.mem x hx0).2 (.inr ⟨hx, hk⟩), rfl⟩

/-- Giving back the hold of one claim recounts its reference. -/
theorem Tables.recounts_releaseHold {c : Claim} (h : o.Tables (c :: claims)) (h0 : c.endpoint ≠ 0) :
    Recounts o (Objects.releaseHold o c) := by
  by_cases hrem : c.remote = true
  · obtain ⟨_, _, hw⟩ := h.releaseHold h0
    obtain ⟨r, hr, _, _, hw⟩ := hw hrem
    exact hw.recounts h hr (Nat.sub_le _ _)
  · unfold Objects.releaseHold
    rw [if_neg hrem]
    exact .of_eq rfl

/-- Giving back a list of holds recounts their references. -/
theorem Tables.recounts_releaseHolds {l rest : List Claim} (h : o.Tables (l ++ rest))
    (hl : ∀ c ∈ l, c.endpoint ≠ 0) : Recounts o (l.foldl Objects.releaseHold o) := by
  induction l generalizing o with
  | nil => exact .of_eq rfl
  | cons c l ih =>
    have h0 := hl c List.mem_cons_self
    exact (h.recounts_releaseHold h0).trans
      (ih (h.releaseHold h0).1 fun c hc => hl c (List.mem_cons_of_mem _ hc))

end Recounts

/-- The tables after the claims with `gone` were given back. -/
structure Releases (gone : Claim → Bool) (o o' : Objects) : Prop where
  inv : o'.Inv
  recounts : Recounts o o'
  claims : o'.claims = update gone (fun _ => {}) o.claims
  nodes : ∀ id, o'.nodeFor id = (o.nodeFor id).filter o'.inUse
  carries : Carries o o'
  managerNode : o'.managerNode = o.managerNode

section Releases

variable {o o' o'' : Objects} {gone gone' : Claim → Bool}

/-- Without a claim to give back the tables stay. -/
theorem Inv.releases_nil (h : o.Inv) (hg : ∀ c, gone c = false) : Releases gone o o := by
  refine ⟨h, .of_eq rfl, ?_, fun id => ?_, .refl o, rfl⟩
  · rw [update_eq_self]
    intro c _ hc
    rw [hg] at hc
    cases hc
  · cases hn : o.nodeFor id with
    | none => rfl
    | some n =>
      obtain ⟨hmem, hid, hid0⟩ := nodeFor_spec hn
      rw [Option.filter_some, if_pos (h.collected n hmem (hid ▸ hid0))]

/-- What is used afterwards was used before. -/
theorem Releases.counts (h : Releases gone o o') : Counts o' o := by
  refine ⟨fun r hr h0 => ?_, fun c hc h0 => ?_⟩
  · obtain ⟨x, hx, heq, hle⟩ := h.recounts.old r hr h0
    rw [heq] at h0 ⊢
    exact ⟨x, hx, h0, rfl, id, fun ht => by dsimp only at ht; omega⟩
  · rw [h.claims] at hc
    rcases mem_update_const.1 hc with ⟨rfl, _⟩ | ⟨hc, _⟩
    · exact absurd rfl h0
    · exact hc

/-- Giving back claims in two rounds gives back those of either. -/
theorem Releases.trans (h : Releases gone o o') (h' : Releases gone' o' o'')
    (hblank : gone' {} = false) : Releases (fun c => gone c || gone' c) o o'' := by
  refine ⟨h'.inv, h.recounts.trans h'.recounts, ?_, fun id => ?_, h.carries.trans h'.carries,
    h'.managerNode.trans h.managerNode⟩
  · rw [h'.claims, h.claims, update, update, update, List.map_map]
    refine List.map_congr_left fun c _ => ?_
    by_cases hc : gone c = true
    · simp [hc, hblank]
    · simp [hc]
  · rw [h'.nodes, h.nodes, Option.filter_filter]
    refine congrArg (Option.filter · _) (funext fun n => ?_)
    -- what is in use afterwards was in use in between
    cases hu : o''.inUse n with
    | true => rw [h'.counts.inUse hu, Bool.and_true]
    | false => rw [Bool.and_false]

/-- The references afterwards, exactly: each is counted by the claims left to it. -/
theorem Releases.mem_references (h : Releases gone o o') {claims : List Claim} (ht : o.Tables claims)
    {r : Reference} (h0 : r.endpoint ≠ 0) : r ∈ o'.references ↔ r.Counted ∧ ∃ x ∈ o.references,
      r = { x with temporaryStrong := o'.claims.countP (·.holds x.endpoint x.node) } := by
  have ht' := h.inv.tables
  constructor
  · intro hr
    obtain ⟨x, hx, heq, _⟩ := h.recounts.old r hr h0
    refine ⟨ht'.counted r hr h0, x, hx, ?_⟩
    have hheld := ht'.held r hr h0
    have hend : r.endpoint = x.endpoint ∧ r.node = x.node := by
      rw [heq]
      exact ⟨rfl, rfl⟩
    rw [heq, ← hend.1, ← hend.2, ← hheld]
  · rintro ⟨hc, x, hx, heq⟩
    have hx0 : x.endpoint ≠ 0 := by
      rw [heq] at h0
      exact h0
    have hheld : ∀ y ∈ o'.references, y = { x with temporaryStrong := y.temporaryStrong } → y = r := by
      intro y hy hyx
      have hy0 : y.endpoint ≠ 0 := by
        rw [hyx]
        exact hx0
      have hcount := ht'.held y hy hy0
      have hend : y.endpoint = x.endpoint ∧ y.node = x.node := by
        rw [hyx]
        exact ⟨rfl, rfl⟩
      rw [hend.1, hend.2] at hcount
      rw [hyx, hcount, heq]
    rcases h.recounts.kept x hx hx0 with ⟨y, hy, hyx⟩ | ⟨hs, hw⟩
    · exact hheld y hy hyx ▸ hy
    · -- some claim is left, and it names the reference
      have hne : o'.claims.countP (·.holds x.endpoint x.node) ≠ 0 := by
        intro hz
        rw [heq] at hc
        exact hc ⟨hs, hw, hz⟩
      obtain ⟨c, hcm, hch⟩ := List.countP_pos_iff.1 (Nat.pos_of_ne_zero hne)
      simp only [Claim.holds, Bool.and_eq_true, beq_iff_eq] at hch
      obtain ⟨y, hy, hye, hyn, _⟩ := ht'.covered c hcm (hch.1.1 ▸ hx0) hch.2
      have hy0 : y.endpoint ≠ 0 := by
        rw [hye, hch.1.1]
        exact hx0
      obtain ⟨z, hz, hyz, _⟩ := h.recounts.old y hy hy0
      have hzx : z = x := by
        have hyz' : y.endpoint = z.endpoint ∧ y.node = z.node := by
          rw [hyz]
          exact ⟨rfl, rfl⟩
        refine ht.targets.eq_of_mem hz hx (hyz'.1 ▸ hy0) hx0 (Prod.ext ?_ ?_)
        · exact hyz'.1.symm.trans (hye.trans hch.1.1)
        · exact hyz'.2.symm.trans (hyn.trans hch.1.2)
      exact hheld y hy (hzx ▸ hyz) ▸ hy

end Releases

/-- Releasing a buffer gives back exactly the claims on it. -/
theorem Sound.releases {o : Objects} (h : o.Sound) {k buffer : Nat} (hk : k ≠ 0) :
    Releases (claimMatches k buffer) o (o.releaseClaims k buffer) := by
  obtain ⟨hinv, _, _, hm, hc⟩ := h.releaseClaims (b := buffer) hk
  obtain ⟨hsound, _, hn, _⟩ := h.uncollected (b := buffer) hk
  have hrec := (h.released_tables k buffer).recounts_releaseHolds (claimMatches_live hk)
  refine ⟨hinv, ⟨hrec.old, hrec.kept⟩, hc, fun id => ?_, h.carries_releaseClaims hk, hm⟩
  have huse : (o.releaseClaims k buffer).inUse = (o.uncollected k buffer).inUse :=
    funext fun n => inUse_congr rfl rfl n
  rw [huse, ← nodeFor_congr hn]
  exact hsound.nodes.nodeFor_collectNodes id

end Objects

/-! ## Calls ended and parcels dropped -/

/-- The arena without the buffers at some addresses; the others keep their bytes. -/
structure Arena.Without (gone : Nat → Prop) (a a' : Arena) : Prop where
  base : a'.base = a.base
  capacity : a'.capacity = a.capacity
  mem : ∀ s : BufferSlot, s ∈ a'.buffers ↔ s ∈ a.buffers ∧ ¬ gone s.value.address
  bytes : ∀ s ∈ a'.buffers, ∀ i, s.value.address ≤ a.base + i →
    a.base + i < s.value.address + s.value.extent → a'.bytes i = a.bytes i

namespace Arena.Without

variable {a a' a'' : Arena} {gone gone' : Nat → Prop}

/-- Without a buffer to take the arena stays. -/
theorem none (hg : ∀ x, ¬ gone x) : a.Without gone a :=
  ⟨rfl, rfl, fun _ => (and_iff_left (hg _)).symm, fun _ _ _ _ _ => rfl⟩

/-- Only which addresses are taken matters. -/
theorem congr (h : a.Without gone a') (hg : ∀ x, gone x ↔ gone' x) : a.Without gone' a' :=
  ⟨h.base, h.capacity, fun s => (h.mem s).trans (and_congr_right' (not_congr (hg _))), h.bytes⟩

/-- Taking buffers in two rounds takes those of either. -/
theorem trans (h : a.Without gone a') (h' : a'.Without gone' a'') :
    a.Without (fun x => gone x ∨ gone' x) a'' := by
  refine ⟨h'.base.trans h.base, h'.capacity.trans h.capacity, fun s => ?_, fun s hs i hlo hhi => ?_⟩
  · rw [h'.mem, h.mem, and_assoc, not_or]
  · rw [h'.bytes s hs i (by rw [h.base]; exact hlo) (by rw [h.base]; exact hhi)]
    exact h.bytes s ((h'.mem s).1 hs).1 i hlo hhi

/-- Cancelling a buffer that is not published takes it and no other. -/
theorem cancel {x : Nat} (h : a.stateAt x = some false) : a.Without (· = x) (a.cancel x).2 := by
  have hsame : a.SameBut x (a.cancel x).2 := removeBuffer_sameBut
  have hgone : (a.cancel x).2.stateAt x = Option.none := by
    rw [Arena.cancel, stateAt_removeBuffer h, if_pos rfl]
  have hne : ∀ s ∈ (a.cancel x).2.buffers, s.value.address ≠ x := stateAt_eq_none.1 hgone
  refine ⟨hsame.base, hsame.capacity, fun _ => ⟨fun hs => ?_, fun hs => (hsame.mem _ hs.2).2 hs.1⟩,
    fun s hs i hlo hhi => ?_⟩
  · exact ⟨(hsame.mem _ (hne _ hs)).1 hs, hne _ hs⟩
  · exact hsame.bytes s ((hsame.mem s (hne s hs)).1 hs) (hne s hs) i hlo hhi

end Arena.Without

/-- The thread after the calls in `lost` were ended. -/
def Thread.cut (lost : Nat → Bool) (th : Thread) : Thread :=
  { th with
    outgoing := if lost th.outgoing then 0 else th.outgoing
    error := if lost th.outgoing then some .deadReply else th.error
    incoming := if lost th.incoming then 0 else th.incoming
    deadReply := th.deadReply || lost th.incoming }

/-- Ending no call leaves the thread as it was. -/
theorem Thread.cut_none (th : Thread) : th.cut (fun _ => false) = th := by
  simp [cut]

/-- Ending calls in two rounds ends those of either. -/
theorem Thread.cut_cut {lost lost' : Nat → Bool} (h0 : lost' 0 = false) (th : Thread) :
    (th.cut lost).cut lost' = th.cut fun id => lost id || lost' id := by
  unfold cut
  by_cases ho : lost th.outgoing = true <;> by_cases hi : lost th.incoming = true <;>
    simp [ho, hi, h0]

/-- The slot keeps all but its threads and its arena. -/
def Endpoint.Rest (e e' : Endpoint) : Prop := e' = { e with threads := e'.threads, arena := e'.arena }

theorem Endpoint.Rest.trans {e e' e'' : Endpoint} (h : e.Rest e') (h' : e'.Rest e'') : e.Rest e'' := by
  unfold Rest at *
  refine h'.trans ?_
  rw [h]

/-- The endpoints stay, apart from threads and arenas. -/
def SameSlots (d d' : Device) : Prop :=
  ∃ g : Endpoint → Endpoint, (∀ e : Endpoint, e.Rest (g e)) ∧ d'.endpoints = d.endpoints.map g

namespace SameSlots

variable {d d' d'' : Device}

/-- Devices with the same endpoints have the same slots. -/
theorem of_eq (he : d'.endpoints = d.endpoints) : SameSlots d d' :=
  ⟨id, fun _ => rfl, by rw [he, List.map_id]⟩

theorem trans (h : SameSlots d d') (h' : SameSlots d' d'') : SameSlots d d'' := by
  obtain ⟨g, hg, he⟩ := h
  obtain ⟨g', hg', he'⟩ := h'
  exact ⟨g' ∘ g, fun e => (hg e).trans (hg' (g e)), by rw [he', he, List.map_map]⟩

/-- An edit of threads and arena keeps the slots. -/
theorem updateEndpoint {k : Nat} {f : Endpoint → Endpoint} (hf : ∀ e : Endpoint, e.Rest (f e)) :
    SameSlots d (d.updateEndpoint k f) := by
  refine ⟨fun e => if e.token == k then f e else e, fun e => ?_, rfl⟩
  dsimp only
  split
  · exact hf e
  · rfl

/-- An endpoint that is found is found again in its slot. -/
theorem endpointFor (h : SameSlots d d') {k : Nat} {e : Endpoint} (he : d.endpointFor k = some e) :
    ∃ e', d'.endpointFor k = some e' ∧ e.Rest e' := by
  obtain ⟨g, hg, heq⟩ := h
  have hsearch : (fun e : Endpoint => e.token == k && k != 0) ∘ g =
      fun e => e.token == k && k != 0 := by
    funext e
    have htok : (g e).token = e.token := by rw [hg e]
    simp [htok]
  refine ⟨g e, ?_, hg e⟩
  rw [Device.endpointFor, heq, List.find?_map, hsearch]
  show (d.endpointFor k).map g = _
  rw [he, Option.map_some]

/-- Ending both sides of a call keeps the slots. -/
theorem cancelEnds {t : Transaction} : SameSlots d ((d.cancelCaller t).cancelServer t) := by
  have hthread : ∀ (d : Device) (k : Nat) (i : Int) (f : Thread → Thread),
      SameSlots d (d.updateThread k i f) := fun d k i f => updateEndpoint fun _ => rfl
  have hc : SameSlots d (d.cancelCaller t) := by
    unfold Device.cancelCaller
    split
    · exact of_eq rfl
    · split
      · exact (hthread _ _ _ _).trans (of_eq rfl)
      · exact of_eq rfl
  refine hc.trans ?_
  unfold Device.cancelServer
  split
  · exact of_eq rfl
  · split
    · exact hthread _ _ _ _
    · exact of_eq rfl

end SameSlots

/-- `d'` is `d` after the calls in `lost` were ended on both sides and the parcels in
`drop` dropped with their buffers. -/
structure Device.Cut (lost : Nat → Bool) (drop : Work → Bool) (d d' : Device) : Prop where
  work : d'.work = d.work.filter fun w => !drop w
  threads : ∀ k i, d'.threadFor k i = (d.threadFor k i).map (Thread.cut lost)
  arenas : ∀ k, (d.arenaFor k = none → d'.arenaFor k = none) ∧ ∀ a, d.arenaFor k = some a →
    ∃ a', d'.arenaFor k = some a' ∧ a.Without (fun x => ∃ w ∈ d.work, drop w = true ∧
      w.endpoint = k ∧ w.value.dataBuffer = x) a'
  slots : SameSlots d d'
  objects : Objects.Releases (fun c => d.work.any fun w => drop w &&
    Objects.claimMatches w.endpoint w.value.dataBuffer c) d.objects d'.objects

namespace Device.Cut

variable {d d' d'' : Device} {lost lost' : Nat → Bool} {drop drop' : Work → Bool} {token : Nat}
  {tid : Int}

/-- Only which calls and which parcels are lost matters. -/
theorem congr (h : Cut lost drop d d') (hl : ∀ id, lost id = lost' id)
    (hd : ∀ w ∈ d.work, drop w = drop' w) : Cut lost' drop' d d' := by
  obtain rfl : lost = lost' := funext hl
  refine ⟨h.work.trans (List.filter_congr fun w hw => by rw [hd w hw]), h.threads, fun k => ?_, h.slots, ?_⟩
  · refine ⟨(h.arenas k).1, fun a ha => ?_⟩
    obtain ⟨a', ha', hw⟩ := (h.arenas k).2 a ha
    refine ⟨a', ha', hw.congr fun x => exists_congr fun w => and_congr_right fun hmem => ?_⟩
    rw [hd w hmem]
  · have hgone : (fun c => d.work.any fun w => drop' w &&
        Objects.claimMatches w.endpoint w.value.dataBuffer c) = fun c => d.work.any fun w => drop w &&
          Objects.claimMatches w.endpoint w.value.dataBuffer c := by
      funext c
      refine Bool.eq_iff_iff.2 ?_
      simp only [List.any_eq_true]
      exact exists_congr fun w => and_congr_right fun hmem => by rw [hd w hmem]
    rw [hgone]
    exact h.objects

/-- Nothing was ended and nothing dropped. -/
theorem of_eq (ho : d.objects.Inv) (hw : d'.work = d.work) (ht : ∀ k i, d'.threadFor k i = d.threadFor k i)
    (ha : ∀ k, d'.arenaFor k = d.arenaFor k) (hs : d'.endpoints = d.endpoints)
    (hobj : d'.objects = d.objects) (hd : ∀ w ∈ d.work, drop w = false) :
    Cut (fun _ => false) drop d d' := by
  refine ⟨?_, fun k i => ?_, fun k => ⟨fun hn => (ha k).trans hn, fun a hk => ⟨a, (ha k).trans hk, .none ?_⟩⟩,
    .of_eq hs, ?_⟩
  · rw [hw, List.filter_eq_self.2 fun w hmem => by rw [hd w hmem]; rfl]
  · rw [ht, show Thread.cut (fun _ => false) = id from funext Thread.cut_none, Option.map_id]
    rfl
  · rintro x ⟨w, hmem, hdrop, _⟩
    rw [hd w hmem] at hdrop
    cases hdrop
  · rw [hobj]
    refine ho.releases_nil fun c => ?_
    rw [List.any_eq_false]
    intro w hmem
    rw [hd w hmem, Bool.false_and]
    exact Bool.false_ne_true

/-- Two cuts are one, of the calls and parcels of either. -/
theorem trans (h : Cut lost drop d d') (h' : Cut lost' drop' d' d'') (h0 : lost' 0 = false)
    (hw : ∀ w ∈ d.work, w.endpoint ≠ 0) :
    Cut (fun id => lost id || lost' id) (fun w => drop w || drop' w) d d'' := by
  have hmem : ∀ w, w ∈ d'.work ↔ w ∈ d.work ∧ drop w = false := by
    intro w
    rw [h.work, List.mem_filter]
    simp
  refine ⟨?_, fun k i => ?_, fun k => ⟨fun hn => (h'.arenas k).1 ((h.arenas k).1 hn), fun a ha => ?_⟩,
    h.slots.trans h'.slots, ?_⟩
  · rw [h'.work, h.work, List.filter_filter]
    refine List.filter_congr fun w _ => ?_
    cases drop w <;> cases drop' w <;> rfl
  · rw [h'.threads, h.threads, Option.map_map]
    refine congrArg (Option.map · _) (funext fun th => ?_)
    exact Thread.cut_cut h0 th
  · obtain ⟨a', ha', hout⟩ := (h.arenas k).2 a ha
    obtain ⟨a'', ha'', hout'⟩ := (h'.arenas k).2 a' ha'
    refine ⟨a'', ha'', (hout.trans hout').congr fun x => ?_⟩
    constructor
    · rintro (⟨w, hwm, hd, hrest⟩ | ⟨w, hwm, hd, hrest⟩)
      · exact ⟨w, hwm, by rw [hd, Bool.true_or], hrest⟩
      · exact ⟨w, ((hmem w).1 hwm).1, by rw [hd, Bool.or_true], hrest⟩
    · rintro ⟨w, hwm, hd, hrest⟩
      cases hdw : drop w with
      | true => exact .inl ⟨w, hwm, hdw, hrest⟩
      | false =>
        rw [hdw, Bool.false_or] at hd
        exact .inr ⟨w, (hmem w).2 ⟨hwm, hdw⟩, hd, hrest⟩
  · have hblank : (d'.work.any fun w => drop' w &&
        Objects.claimMatches w.endpoint w.value.dataBuffer {}) = false := by
      rw [List.any_eq_false]
      intro w hwm hc
      simp only [Objects.claimMatches, Bool.and_eq_true, beq_iff_eq] at hc
      exact hw w ((hmem w).1 hwm).1 hc.2.1.symm
    have hgone : (fun c => d.work.any fun w => (drop w || drop' w) &&
        Objects.claimMatches w.endpoint w.value.dataBuffer c) =
        fun c => (d.work.any fun w => drop w && Objects.claimMatches w.endpoint w.value.dataBuffer c) ||
          d'.work.any fun w => drop' w && Objects.claimMatches w.endpoint w.value.dataBuffer c := by
      funext c
      rw [h.work, List.any_filter]
      induction d.work with
      | nil => rfl
      | cons w ws ih =>
        simp only [List.any_cons, ih]
        cases drop w <;> cases drop' w <;> simp [Bool.or_assoc, Bool.or_left_comm]
    rw [hgone]
    exact h.objects.trans h'.objects hblank

/-- Dropping one parcel with its buffer is a cut. -/
theorem dropWork {n : Nat} {j : Int} {w : Work} (ho : d.objects.Inv) (hnd : d.work.Nodup) (hw : w ∈ d.work)
    (hb : d.bufferState w.endpoint w.value.dataBuffer = some false) :
    Cut (fun _ => false) (· == w) d (Device.dropWork n j d w) := by
  have hk : w.endpoint ≠ 0 := bufferState_endpoint hb
  refine ⟨?_, fun k i => ?_, fun k => ?_, ?_, ?_⟩
  · rw [dropWork_work, hnd.erase_eq_filter]
    rfl
  · rw [threadFor_dropWork, show Thread.cut (fun _ => false) = id from funext Thread.cut_none,
      Option.map_id]
    rfl
  · rw [arenaFor_dropWork]
    split
    next heq =>
      rw [heq]
      refine ⟨fun hn => by rw [hn, Option.map_none], fun a ha => ⟨_, by rw [ha, Option.map_some], ?_⟩⟩
      rw [bufferState, ha, Option.bind_some] at hb
      refine (Arena.Without.cancel hb).congr fun x => ⟨fun hx => ⟨w, hw, by simp, rfl, hx.symm⟩, ?_⟩
      rintro ⟨x, _, hxw, _, rfl⟩
      rw [eq_of_beq hxw]
    next hne =>
      refine ⟨id, fun a ha => ⟨a, ha, .none ?_⟩⟩
      rintro x ⟨y, _, hyw, hye, _⟩
      exact hne (hye.symm.trans (by rw [eq_of_beq hyw]))
  · have harena : SameSlots d (d.updateArena w.endpoint fun a => (a.cancel w.value.dataBuffer).2) :=
      .updateEndpoint fun _ => rfl
    exact harena.trans (.of_eq rfl)
  · have hgone : (fun c => d.work.any fun x => x == w &&
        Objects.claimMatches x.endpoint x.value.dataBuffer c) =
        Objects.claimMatches w.endpoint w.value.dataBuffer := by
      funext c
      refine Bool.eq_iff_iff.2 ?_
      simp only [List.any_eq_true, Bool.and_eq_true]
      constructor
      · rintro ⟨x, _, hxw, hm⟩
        rwa [eq_of_beq hxw] at hm
      · exact fun hm => ⟨w, hw, by simp, hm⟩
    rw [hgone, dropWork_objects]
    exact ho.toSound.releases hk

/-- The two ends of one call are cut. -/
theorem ends {t : Transaction} (h : d.Reachable) (ht : d.transactionFor t.id = some t) :
    Cut (· == t.id) (fun _ => false) d ((d.cancelCaller t).cancelServer t) := by
  obtain ⟨hw, _, ho, _, _, _, ha⟩ := cancelEnds_frame d t
  have hnone : Cut (fun _ => false) (fun _ => false) d d := of_eq h.accounts.objects rfl
    (fun _ _ => rfl) (fun _ => rfl) rfl rfl fun _ _ => rfl
  refine ⟨?_, fun k i => ?_, fun k => ?_, .cancelEnds, ?_⟩
  · rw [hw]
    exact hnone.work
  · rw [threadFor_cancelServer, threadFor_cancelCaller]
    cases hth : d.threadFor k i with
    | none => simp
    | some th =>
      have hout : th.outgoing = t.id → k = t.source ∧ i = t.sourceTid :=
        fun hout => h.callInv.only_caller ht hth hout
      have hin : th.incoming = t.id → k = t.target ∧ i = t.targetTid :=
        fun hin => h.callInv.only_server ht hth hin
      unfold Thread.cut endCaller endServer
      by_cases hc : th.outgoing = t.id <;> by_cases hs : th.incoming = t.id
      · have hcs := h.callInv.apart t.id t ht
        exact absurd ((hout hc).1.symm.trans (hin hs).1) hcs
      · rw [if_pos (hout hc)]
        split <;> simp [hc, hs]
      · rw [if_pos (hin hs)]
        split <;> simp [hc, hs]
      · have hb : (th.incoming == t.id) = false := beq_eq_false_iff_ne.2 hs
        split <;> split <;> simp [hc, hs, hb]
  · rw [ha]
    exact hnone.arenas k
  · rw [ho]
    exact hnone.objects

/-- Ending the call with an id is a cut of that call. -/
theorem endTransaction (h : Cut lost drop d d') (id : Nat) : Cut lost drop d (d'.endTransaction id) :=
  ⟨h.work, h.threads, h.arenas, h.slots, h.objects⟩

/-- One call is ended. -/
theorem cancelTransaction {n : Nat} {j : Int} {t : Transaction} (h : d.Reachable)
    (ht : d.transactionFor t.id = some t) :
    Cut (· == t.id) (fun w => w.transaction == t.id) d (Device.cancelTransaction n j d t) := by
  obtain ⟨hw, _, ho, _, _, _, ha⟩ := cancelEnds_frame d t
  have hid := (transactionFor_spec ht).2.2
  have hends := ends h ht
  unfold Device.cancelTransaction
  refine endTransaction ?_ t.id
  rw [Device.dropWorks, hw]
  have hlive : ∀ w ∈ d.work, w.endpoint ≠ 0 := fun w hw =>
    bufferState_endpoint (h.parcelInv.bufferState hw)
  -- at most one parcel belongs to the call
  have hone : ∀ w ∈ d.work, w.transaction = t.id → ∀ x ∈ d.work,
      (x == w) = (x.transaction == t.id) := by
    intro w hw hwt x hx
    refine Bool.eq_iff_iff.2 ?_
    rw [beq_iff_eq, beq_iff_eq]
    refine ⟨fun hxw => hxw ▸ hwt, fun hxt => ?_⟩
    exact h.callInv.once x hx w hw (hxt ▸ hid) (hxt.trans hwt.symm)
  cases hs : serverSide h ht with
  | @queued w _ _ _ hfilter =>
    have hmem : w ∈ d.work ∧ (w.transaction == t.id) = true :=
      List.mem_filter.1 (by rw [hfilter]; exact List.mem_singleton.2 rfl)
    have hb : ((d.cancelCaller t).cancelServer t).bufferState w.endpoint w.value.dataBuffer =
        some false := by
      rw [bufferState_congr (ha _)]
      exact h.parcelInv.bufferState hmem.1
    rw [hfilter, List.foldl_cons, List.foldl_nil]
    have hdrop := dropWork (n := n) (j := j) (ho ▸ h.accounts.objects)
      (hw ▸ h.queueIds.nodup) (hw ▸ hmem.1) hb
    refine (hends.trans hdrop rfl hlive).congr (fun id => Bool.or_false _) fun x hx => ?_
    rw [Bool.false_or]
    exact hone w hmem.1 (by simpa using hmem.2) x hx
  | served hfilter =>
    rw [hfilter, List.foldl_nil]
    refine hends.congr (fun _ => rfl) fun w hw => ?_
    have := List.filter_eq_nil_iff.1 hfilter w hw
    simpa using this

/-- The first loop of `cancel_transactions`. -/
theorem cancelLoop (h : d.Reachable) (ht : InTeardown token tid d.history) (l : List Transaction)
    (hl : ∀ t ∈ l, t ∈ d.transactions ∧ cancelMatches token tid t = true)
    (hnd : l.Pairwise fun t t' => t.id ≠ t'.id) :
    Cut (fun id => l.any (·.id == id)) (fun w => l.any (·.id == w.transaction)) d
      (l.foldl (Device.cancelTransaction token tid) d) := by
  induction l generalizing d with
  | nil => exact of_eq h.accounts.objects rfl (fun _ _ => rfl) (fun _ => rfl) rfl rfl fun _ _ => rfl
  | cons t ts ih =>
    obtain ⟨hmem, hm⟩ := hl t List.mem_cons_self
    obtain ⟨hne, hnd⟩ := List.pairwise_cons.1 hnd
    have hlive : ∀ s ∈ t :: ts, s.id ≠ 0 := by
      intro s hs
      have := (hl s hs).2
      simp only [cancelMatches, Bool.and_eq_true, bne_iff_ne] at this
      exact this.1
    have hone := cancelTransaction (n := token) (j := tid) h
      (h.callIds.transactionFor hmem (hlive t List.mem_cons_self))
    have hrest := ih (h.then (.cancel ht hmem hm)) (inTeardown_cancelTransaction ht t) (fun s hs => by
      obtain ⟨hsmem, hsm⟩ := hl s (List.mem_cons_of_mem _ hs)
      rw [cancelTransaction_transactions]
      exact ⟨mem_update_of_not hsmem (by simpa using (hne s hs).symm), hsm⟩) hnd
    have hzero : ts.any (·.id == 0) = false := by
      rw [List.any_eq_false]
      intro s hs
      simpa using hlive s (List.mem_cons_of_mem _ hs)
    refine (hone.trans hrest hzero fun w hw =>
      bufferState_endpoint (h.parcelInv.bufferState hw)).congr (fun id => ?_) fun w _ => ?_
    · rw [List.any_cons, BEq.comm]
    · rw [List.any_cons, BEq.comm]

/-- The second loop. -/
theorem dropLoop (h : d.Reachable) (ht : InTeardown token tid d.history)
    (hm : ∀ t ∈ d.transactions, cancelMatches token tid t = false) (l : List Work)
    (hl : ∀ w ∈ l, w ∈ d.work ∧ workMatches token tid w = true) (hnd : l.Nodup) :
    Cut (fun _ => false) (fun w => l.contains w) d (l.foldl (Device.dropWork token tid) d) := by
  induction l generalizing d with
  | nil => exact of_eq h.accounts.objects rfl (fun _ _ => rfl) (fun _ => rfl) rfl rfl fun _ _ => rfl
  | cons w ws ih =>
    obtain ⟨hmem, hwm⟩ := hl w List.mem_cons_self
    obtain ⟨hne, hnd⟩ := List.nodup_cons.1 hnd
    have hone := dropWork (n := token) (j := tid) h.accounts.objects h.queueIds.nodup hmem
      (h.parcelInv.bufferState hmem)
    have hrest := ih (h.then (.drop ht hm hmem hwm)) ⟨rfl, rfl, ht⟩ hm (fun x hx => by
      obtain ⟨hx', hxm⟩ := hl x (List.mem_cons_of_mem _ hx)
      refine ⟨?_, hxm⟩
      rw [dropWork_work, h.queueIds.nodup.mem_erase_iff]
      exact ⟨fun heq => hne (heq ▸ hx), hx'⟩) hnd
    refine (hone.trans hrest rfl fun w hw =>
      bufferState_endpoint (h.parcelInv.bufferState hw)).congr (fun _ => rfl) fun x _ => ?_
    rw [List.contains_cons]

end Device.Cut

/-- Whether the teardown of `(token, tid)` ends the call with this id. -/
def Device.cutOff (d : Device) (token : Nat) (tid : Int) (id : Nat) : Bool :=
  d.transactions.any fun t => Device.cancelMatches token tid t && t.id == id

/-- Whether the teardown of `(token, tid)` drops the parcel. -/
def Device.swept (d : Device) (token : Nat) (tid : Int) (w : Work) : Bool :=
  Device.workMatches token tid w || d.cutOff token tid w.transaction

open Device in
/-- `cancel_transactions` as a whole. -/
theorem Device.Reachable.cut {d : Device} (h : d.Reachable) {token : Nat} {tid : Int}
    (ht : InTeardown token tid d.history) :
    Cut (d.cutOff token tid) (d.swept token tid) d (d.cancelTransactions token tid) := by
  have hids : (d.transactions.filter (cancelMatches token tid)).Pairwise fun t t' => t.id ≠ t'.id :=
    h.cancelled_ids
  have hl := fun t (hmem : t ∈ d.transactions.filter (cancelMatches token tid)) => List.mem_filter.1 hmem
  have hloop := Cut.cancelLoop h ht _ hl hids
  obtain ⟨h1, ht1, hleft⟩ := cancelLoop_reachable h ht _ hl hids
  unfold Device.cancelTransactions
  dsimp only
  generalize (d.transactions.filter (cancelMatches token tid)).foldl
    (Device.cancelTransaction token tid) d = d1 at h1 ht1 hleft hloop
  have hm : ∀ t ∈ d1.transactions, cancelMatches token tid t = false := by
    intro t hmem
    by_contra hne
    have hne : cancelMatches token tid t = true := by simpa using hne
    obtain ⟨hold, hnot⟩ := hleft t hmem hne
    exact hnot (List.mem_filter.2 ⟨hold, hne⟩)
  have hdrop := Cut.dropLoop h1 ht1 hm (d1.work.filter (workMatches token tid))
    (fun w hw => List.mem_filter.1 hw) (h1.queueIds.nodup.filter _)
  have hany : ∀ id, (d.transactions.filter (cancelMatches token tid)).any (·.id == id) =
      d.cutOff token tid id := fun id => List.any_filter ..
  refine (hloop.trans hdrop rfl fun w hw => bufferState_endpoint (h.parcelInv.bufferState hw)).congr
    (fun id => ?_) fun w hw => ?_
  · rw [Bool.or_false, hany]
  · rw [hany, swept, Bool.or_comm]
    cases hc : d.cutOff token tid w.transaction with
    | true => rw [Bool.or_true, Bool.or_true]
    | false =>
      rw [Bool.or_false, Bool.or_false]
      refine Bool.eq_iff_iff.2 ?_
      rw [List.contains_iff_mem, List.mem_filter, hloop.work, List.mem_filter]
      refine ⟨fun hx => hx.2, fun hx => ⟨⟨hw, ?_⟩, hx⟩⟩
      rw [hany, hc]
      rfl

/-- The calls left. -/
theorem Device.transactionFor_cancelTransactions (d : Device) (token : Nat) (tid : Int) (x : Nat) :
    (d.cancelTransactions token tid).transactionFor x =
      if d.cutOff token tid x then none else d.transactionFor x := by
  have hloop : ∀ (l : List Transaction) (d : Device),
      (l.foldl (Device.cancelTransaction token tid) d).transactionFor x =
        if l.any (·.id == x) then none else d.transactionFor x := by
    intro l
    induction l with
    | nil => exact fun _ => rfl
    | cons t ts ih =>
      intro d
      obtain ⟨_, _, hone, _⟩ := cancelTransaction_frame d token tid t
      rw [List.foldl_cons, ih, hone, List.any_cons]
      by_cases hx : x = t.id
      · simp [hx]
      · have hne : (t.id == x) = false := beq_eq_false_iff_ne.2 (Ne.symm hx)
        rw [if_neg hx, hne, Bool.false_or]
  unfold Device.cancelTransactions
  rw [transactionFor_congr (dropWorks_frame _ token tid _).1, hloop, List.any_filter]
  rfl

/-! ## The endpoint released -/

namespace Objects

variable {o o' : Objects} {token : Nat}

/-- Losing its owner never brings a node into use. -/
theorem inUse_orphan {n : Node} (hu : o.inUse (orphan token n) = true) : o.inUse n = true := by
  unfold orphan at hu
  split at hu
  · simp only [inUse, strongUse, weakUse, killed, Bool.or_eq_true] at hu ⊢
    simp only [Bool.and_false, Bool.not_true, Bool.false_eq_true, false_or] at hu
    tauto
  · exact hu

/-- Retiring the owner changes no count of a reference. -/
theorem Retired.counts (h : Retired o o' token) : Counts o' o := by
  refine ⟨fun r hr h0 => ⟨r, ((h.references r h0).1 hr).1, h0, rfl, id, id⟩, fun c hc h0 => ?_⟩
  rw [h.claims] at hc
  rcases mem_update_const.1 hc with ⟨rfl, _⟩ | ⟨hc, _⟩
  · exact absurd rfl h0
  · exact hc

end Objects

/-- Whether the release of `token` takes the claim away: it is the endpoint's, or its buffer
belongs to a parcel that is dropped. -/
def Device.unclaimed (d : Device) (token : Nat) (c : Claim) : Bool :=
  c.endpoint == token || d.work.any fun w => d.swept token 0 w &&
    (c.endpoint == w.endpoint && c.buffer == w.value.dataBuffer)

/-- Nothing of the endpoint `token` is left. -/
structure Vacated (token : Nat) (d : Device) : Prop where
  endpoints : ∀ e ∈ d.endpoints, e.token ≠ token
  work : ∀ w ∈ d.work, w.endpoint ≠ token
  calls : ∀ t ∈ d.transactions, t.id ≠ 0 → t.source ≠ token ∧ t.target ≠ token
  references : ∀ r ∈ d.objects.references, r.endpoint ≠ token
  claims : ∀ c ∈ d.objects.claims, c.endpoint ≠ token
  deaths : ∀ s ∈ d.objects.deaths, s.endpoint ≠ token
  nodes : ∀ n ∈ d.objects.nodes, n.owner = token → n.dead = true
  manager : d.manager ≠ token

/-- What the release of `token` does to the rest of the device: it ends the calls with the
endpoint, drops the parcels queued to it or belonging to its calls, with their buffers and
claims, and lets its own references, claims and subscriptions go; references are recounted
and dropped with their subscriptions if nothing counts them, nodes are collected if nothing
uses them, and armed subscriptions on the endpoint's nodes are queued. -/
structure Spared (token : Nat) (d d' : Device) : Prop where
  endpoints : ∀ k e, k ≠ token → d.endpointFor k = some e →
    ∃ e', d'.endpointFor k = some e' ∧ e.Rest e'
  threads : ∀ k i, k ≠ token → d'.threadFor k i = (d.threadFor k i).map (Thread.cut (d.cutOff token 0))
  calls : ∀ id, d'.transactionFor id = if d.cutOff token 0 id then none else d.transactionFor id
  work : d'.work = d.work.filter fun w => !d.swept token 0 w
  arenas : ∀ k, k ≠ token → (d.arenaFor k = none → d'.arenaFor k = none) ∧ ∀ a, d.arenaFor k = some a →
    ∃ a', d'.arenaFor k = some a' ∧ a.Without (fun x => ∃ w ∈ d.work, d.swept token 0 w = true ∧
      w.endpoint = k ∧ w.value.dataBuffer = x) a'
  claims : d'.objects.claims = update (d.unclaimed token) (fun _ => {}) d.objects.claims
  references : ∀ r : Reference, r.endpoint ≠ 0 → (r ∈ d'.objects.references ↔
    r.endpoint ≠ token ∧ r.Counted ∧ ∃ x ∈ d.objects.references,
      r = { x with temporaryStrong := d'.objects.claims.countP (·.holds x.endpoint x.node) })
  nodes : ∀ id, d'.objects.nodeFor id =
    ((d.objects.nodeFor id).map (Objects.orphan token)).filter d'.objects.inUse
  deaths : ∀ (i : Nat) (s : Death), d.objects.deaths[i]? = some s → s.endpoint ≠ 0 → s.endpoint ≠ token →
    if s.clearing = true ∨ ∃ r ∈ d'.objects.references, r.endpoint ≠ 0 ∧ r.death = i + 1 then
      d'.objects.deaths[i]? = some (if s.owner = token ∧ s.state = .armed then
        { s with state := .deathQueued } else s)
    else d'.objects.deaths[i]? = some {}
  slots : d'.objects.deaths.length = d.objects.deaths.length
  freed : ∀ (i : Nat) (s s' : Death), d.objects.deaths[i]? = some s →
    s.endpoint = 0 ∨ s.endpoint = token → d'.objects.deaths[i]? = some s' → s'.endpoint = 0
  manager : d'.manager = if d.manager = token then 0 else d.manager
  managerNode : d'.objects.managerNode = if d.manager = token then 0 else d.objects.managerNode

section Release

open Device

variable {d : Device} {token : Nat}

/-- The claims on the buffers of the swept parcels, told by endpoint and buffer. -/
theorem claimMatches_sweep (h : d.Reachable) (c : Claim) :
    (d.work.any fun w => d.swept token 0 w && Objects.claimMatches w.endpoint w.value.dataBuffer c) =
      d.work.any fun w => d.swept token 0 w &&
        (c.endpoint == w.endpoint && c.buffer == w.value.dataBuffer) := by
  refine Bool.eq_iff_iff.2 ?_
  simp only [List.any_eq_true]
  refine exists_congr fun w => and_congr_right fun hw => ?_
  have hpos := pos_of_bufferState (h.parcelInv.bufferState hw)
  have h0 : (w.value.dataBuffer == 0) = false := beq_eq_false_iff_ne.2 (by omega)
  rw [Objects.claimMatches, h0, Bool.false_or]

/-- A release keeps what it has no reason to take. -/
theorem spared (h : d.Reachable) (h0 : token ≠ 0) : Spared token d (d.releaseEndpoint token) := by
  have hstart : (d.record (.teardown token 0)).Reachable := h.then (.teardown token 0)
  have hin : InTeardown token 0 (d.record (.teardown token 0)).history := ⟨rfl, rfl⟩
  have hcut := hstart.cut hin
  have hcalls := transactionFor_cancelTransactions (d.record (.teardown token 0)) token 0
  obtain ⟨h1, _, _, _⟩ := cancelTransactions_reachable hstart hin
  have hkeep : SameManager (d.record (.teardown token 0))
      ((d.record (.teardown token 0)).cancelTransactions token 0) := .cancelTransactions
  have hman := hkeep.manager
  unfold releaseEndpoint
  generalize (d.record (.teardown token 0)).cancelTransactions token 0 = d₁ at *
  obtain ⟨hobj, hm⟩ := d₁.retire_objects token
  obtain ⟨ht, hw, _, _⟩ := retire_frame (d := d₁) (n := token)
  have hret := h1.accounts.objects.retire h0
  have hdeaths := h1.subscriptions.links.retire_deaths h1.accounts.objects.tables h0
  -- the tables, whether or not the manager is gone
  have hsame : (d₁.retire token).objects.references =
        ((d₁.objects.releaseReferences token).releaseClaims token).references ∧
      (d₁.retire token).objects.claims =
        ((d₁.objects.releaseReferences token).releaseClaims token).claims ∧
      (d₁.retire token).objects.nodes =
        ((d₁.objects.releaseReferences token).releaseClaims token).nodes ∧
      (d₁.retire token).objects.deaths =
        ((d₁.objects.releaseReferences token).releaseClaims token).deaths ∧
      (d₁.retire token).objects.managerNode = if d₁.manager = token then 0 else
        ((d₁.objects.releaseReferences token).releaseClaims token).managerNode := by
    rw [hobj]
    split <;> exact ⟨rfl, rfl, rfl, rfl, rfl⟩
  generalize (d₁.objects.releaseReferences token).releaseClaims token = o at *
  obtain ⟨hsr, hsc, hsn, hsd, hsm⟩ := hsame
  have huse : (d₁.retire token).objects.inUse = o.inUse :=
    funext fun n => Objects.inUse_congr hsr hsc n
  have hcount : ∀ k n, k ≠ token → (d₁.retire token).objects.claims.countP (·.holds k n) =
      d₁.objects.claims.countP (·.holds k n) := by
    intro k n hk
    rw [hsc, hret.claims, countP_update]
    intro c _ hc
    simp only [Objects.claimMatches, Bool.and_eq_true, beq_iff_eq] at hc
    have hne : (c.endpoint == k) = false := beq_eq_false_iff_ne.2 fun heq => hk (heq.symm.trans hc.1)
    simp [Claim.holds, hne]
  refine ⟨fun k e hk he => ?_, fun k i hk => ?_, fun id => ?_, ?_, fun k hk => ?_, ?_,
    fun r hr0 => ?_, fun id => ?_, fun i s hs hs0 hne => ?_, ?_, fun i s s' hs hse hs' => ?_, ?_, ?_⟩
  · rw [endpointFor_retire, if_neg hk]
    exact hcut.slots.endpointFor he
  · rw [threadFor_retire, if_neg hk]
    exact hcut.threads k i
  · rw [transactionFor_congr ht]
    exact hcalls id
  · rw [hw]
    exact hcut.work
  · rw [arenaFor_retire, if_neg hk]
    exact hcut.arenas k
  · rw [hsc, hret.claims, hcut.objects.claims, update, update, update, List.map_map]
    refine List.map_congr_left fun c _ => ?_
    have hblank : Objects.claimMatches token 0 {} = false := by
      simp [Objects.claimMatches, Ne.symm h0]
    obtain ⟨b, hb⟩ : ∃ b, (d.work.any fun w => d.swept token 0 w &&
      Objects.claimMatches w.endpoint w.value.dataBuffer c) = b := ⟨_, rfl⟩
    have hun : d.unclaimed token c = (Objects.claimMatches token 0 c || b) := by
      rw [unclaimed, ← claimMatches_sweep h, hb]
      simp [Objects.claimMatches]
    show (if Objects.claimMatches token 0 (if (d.work.any fun w => d.swept token 0 w &&
        Objects.claimMatches w.endpoint w.value.dataBuffer c) then {} else c) then {} else
          if (d.work.any fun w => d.swept token 0 w &&
            Objects.claimMatches w.endpoint w.value.dataBuffer c) then {} else c) = _
    rw [hb, hun]
    cases b <;> simp [hblank]
  · rw [hsr, hret.references r hr0, hcut.objects.mem_references hstart.accounts.objects.tables hr0]
    constructor
    · rintro ⟨⟨hc, x, hx, heq⟩, hne⟩
      refine ⟨hne, hc, x, hx, ?_⟩
      rw [hcount]
      · exact heq
      · rw [heq] at hne
        exact hne
    · rintro ⟨hne, hc, x, hx, heq⟩
      refine ⟨⟨hc, x, hx, ?_⟩, hne⟩
      rw [hcount] at heq
      · exact heq
      · rw [heq] at hne
        exact hne
  · rw [Objects.nodeFor_congr hsn, huse, hret.nodes, hcut.objects.nodes]
    cases hn : d.objects.nodeFor id with
    | none =>
      show (Option.map _ (Option.filter _ (d.objects.nodeFor id))).filter _ = _
      rw [hn]
      rfl
    | some n =>
      show (Option.map _ (Option.filter _ (d.objects.nodeFor id))).filter _ = _
      rw [hn, Option.map_some, Option.filter_some, Option.filter_some]
      cases hu : o.inUse (Objects.orphan token n) with
      | true =>
        rw [if_pos (hret.counts.inUse (Objects.inUse_orphan hu)), Option.map_some, Option.filter_some, hu]
      | false =>
        split
        · rw [Option.map_some, Option.filter_some, hu]
        · rfl
  · have hslot : (d₁.retire token).objects.deaths[i]? =
        (d₁.objects.deaths[i]?).map (Objects.bereave token) := by
      rw [hsd, hdeaths, List.getElem?_map]
    have hlinks := h1.subscriptions.links
    have hkeeps : ∀ r ∈ d₁.objects.references, r.endpoint ≠ 0 → r.endpoint ≠ token →
        r ∈ (d₁.retire token).objects.references := fun r hr hr0 hrt => by
      rw [hsr]
      exact (hret.references r hr0).2 ⟨hr, hrt⟩
    rcases hcut.objects.carries.passes.slots i with heq | ⟨heq, r, hr, hr0, hrd, hgone⟩
    · -- the subscription outlived the ended calls
      have hs₁ : d₁.objects.deaths[i]? = some s := heq.trans hs
      have hlive : s.clearing = true ∨ ∃ r ∈ (d₁.retire token).objects.references,
          r.endpoint ≠ 0 ∧ r.death = i + 1 := by
        cases hc : s.clearing with
        | true => exact .inl rfl
        | false =>
          obtain ⟨r, hr, hr0, hrd⟩ := hlinks.naming i s hs₁ hs0 hc
          obtain ⟨x, hx, hxe, _⟩ := hlinks.named r hr hr0 (by omega)
          rw [hrd, Nat.add_sub_cancel, hs₁] at hx
          cases hx
          exact .inr ⟨r, hkeeps r hr hr0 (hxe ▸ hne), hr0, hrd⟩
      rw [if_pos hlive, hslot, hs₁, Option.map_some, Objects.bereave, if_neg hne]
      refine congrArg some (if_congr ?_ rfl rfl)
      exact ⟨And.right, fun hq => ⟨hs0, hq⟩⟩
    · -- its reference was dropped with an ended call
      have hdead : ¬ (s.clearing = true ∨ ∃ r ∈ (d₁.retire token).objects.references,
          r.endpoint ≠ 0 ∧ r.death = i + 1) := by
        rintro (hc | ⟨x, hx, hx0, hxd⟩)
        · obtain ⟨y, hy, _, _, hyc⟩ := hstart.subscriptions.links.named r hr hr0 (by omega)
          rw [hrd, Nat.add_sub_cancel] at hy
          have hys : y = s := Option.some.inj (hy.symm.trans hs)
          rw [hys, hc] at hyc
          cases hyc
        · rw [hsr] at hx
          obtain ⟨y, hy, hye, _⟩ := hlinks.named x ((hret.references x hx0).1 hx).1 hx0 (by omega)
          rw [hxd, Nat.add_sub_cancel, heq] at hy
          cases hy
          exact hx0 hye.symm
      rw [if_neg hdead, hslot, heq, Option.map_some, Objects.bereave_blank]
  · rw [hsd, hdeaths, List.length_map]
    exact hcut.objects.carries.passes.length hstart.subscriptions.links
  · rw [hsd, hdeaths, List.getElem?_map] at hs'
    obtain ⟨x, hx, rfl⟩ := Option.map_eq_some_iff.1 hs'
    rcases hcut.objects.carries.passes.slots i with heq | ⟨heq, _⟩
    · obtain rfl : x = s := Option.some.inj (hx.symm.trans (heq.trans hs))
      unfold Objects.bereave
      rcases hse with h0 | hk
      · split
        · rfl
        · rw [if_neg fun hq => hq.1 h0]
          exact h0
      · rw [if_pos hk]
    · rw [heq] at hx
      cases hx
      rw [Objects.bereave_blank]
  · rw [hm, hman]
    rfl
  · rw [hsm, hman, hret.managerNode, hcut.objects.managerNode]
    rfl

/-- A release leaves nothing of the endpoint behind. -/
theorem vacated (h : d.Reachable) (h0 : token ≠ 0) : Vacated token (d.releaseEndpoint token) := by
  -- what is left is said by what the teardown spares; nothing of it is the endpoint's
  have hs := spared h h0
  have hr : (d.releaseEndpoint token).Reachable := releaseEndpoint_reachable h h0
  refine ⟨fun e he htok => ?_, fun w hw htok => ?_, fun t ht hid => ?_, fun r hr htok => ?_,
    fun c hc htok => ?_, fun s hmem htok => ?_, fun n hn htok => ?_, ?_⟩
  · have hnone : (d.releaseEndpoint token).endpointFor token = none := by
      rw [releaseEndpoint, endpointFor_retire, if_pos rfl]
    have hfound := hr.endpointIds.endpointFor he (htok ▸ h0)
    rw [htok, hnone] at hfound
    cases hfound
  · rw [hs.work, List.mem_filter] at hw
    have hswept : d.swept token 0 w = true := by simp [swept, workMatches, htok]
    rw [hswept] at hw
    cases hw.2
  · have hfor := hr.callIds.transactionFor ht hid
    rw [hs.calls] at hfor
    split at hfor
    · cases hfor
    next hcut =>
      obtain ⟨hmem, _⟩ := transactionFor_spec hfor
      constructor <;> refine fun htok => hcut (List.any_eq_true.2 ⟨t, hmem, ?_⟩) <;>
        simp [cancelMatches, htok, hid]
  · exact ((hs.references r (htok ▸ h0)).1 hr).1 htok
  · rw [hs.claims] at hc
    rcases mem_update_const.1 hc with ⟨rfl, _⟩ | ⟨_, hc⟩
    · exact h0 htok.symm
    · simp [unclaimed, htok] at hc
  · have hin : InTeardown token 0 (d.record (.teardown token 0)).history := ⟨rfl, rfl⟩
    obtain ⟨h1, _⟩ := cancelTransactions_reachable (h.then (.teardown token 0)) hin
    have hdeaths := h1.subscriptions.links.retire_deaths h1.accounts.objects.tables h0
    have hsame : (d.releaseEndpoint token).objects.deaths =
        ((d.record (.teardown token 0)).cancelTransactions token).objects.deaths.map
          (Objects.bereave token) := by
      rw [← hdeaths, releaseEndpoint, (retire_objects _ token).1]
      split <;> rfl
    rw [hsame] at hmem
    obtain ⟨x, _, rfl⟩ := List.mem_map.1 hmem
    unfold Objects.bereave at htok
    split at htok
    · exact h0 htok.symm
    next hne => split at htok <;> exact hne htok
  · have hid : n.id ≠ 0 := by
      intro hz
      rw [hr.accounts.objects.nodes.blank n hn hz] at htok
      exact h0 htok.symm
    have hfor := hr.accounts.objects.nodes.nodeFor hn hid
    rw [hs.nodes, Option.filter_eq_some_iff] at hfor
    obtain ⟨x, hx, rfl⟩ := Option.map_eq_some_iff.1 hfor.1
    have hxo := (Objects.orphan_id token x)
    rw [hxo.2] at htok
    rw [hxo.1] at hid
    unfold Objects.orphan
    rw [if_pos (by simp [htok, hid])]
    rfl
  · rw [hs.manager]
    split
    · exact Ne.symm h0
    next hne => exact hne

/-- The release of an endpoint leaves nothing of it, wakes its peers with a dead reply, and
changes the rest of the device by what hung on the endpoint only. -/
theorem release_complete_and_local (h : d.Reachable) (h0 : token ≠ 0) :
    Vacated token (d.releaseEndpoint token) ∧ Spared token d (d.releaseEndpoint token) ∧
      (∀ t ∈ d.transactions, t.id ≠ 0 → t.target = token → ∀ k i th, k ≠ token →
        d.threadFor k i = some th → th.outgoing = t.id →
          ∃ th', (d.releaseEndpoint token).threadFor k i = some th' ∧ th'.outgoing = 0 ∧
            th'.error = some .deadReply) ∧
      ∀ t ∈ d.transactions, t.id ≠ 0 → t.source = token → ∀ k i th, k ≠ token →
        d.threadFor k i = some th → th.incoming = t.id →
          ∃ th', (d.releaseEndpoint token).threadFor k i = some th' ∧ th'.incoming = 0 ∧
            th'.deadReply = true := by
  have hs := spared h h0
  have hcut : ∀ t ∈ d.transactions, t.id ≠ 0 → t.source = token ∨ t.target = token →
      d.cutOff token 0 t.id = true := fun t ht hid hpeer =>
    List.any_eq_true.2 ⟨t, ht, by rcases hpeer with hp | hp <;> simp [cancelMatches, hid, hp]⟩
  refine ⟨vacated h h0, hs, fun t ht hid hp k i th hk hth hout => ?_,
    fun t ht hid hp k i th hk hth hin => ?_⟩
  · refine ⟨th.cut (d.cutOff token 0), by rw [hs.threads k i hk, hth, Option.map_some], ?_⟩
    simp [Thread.cut, hout, hcut t ht hid (.inr hp)]
  · refine ⟨th.cut (d.cutOff token 0), by rw [hs.threads k i hk, hth, Option.map_some], ?_⟩
    simp [Thread.cut, hin, hcut t ht hid (.inl hp)]

end Release

/-- The client's thread `2` sends an object of its own to the manager. Before the call is
read the manager's thread `1` subscribes to the object's death under the cookie `99`. -/
def mournScript : Script :=
  exportScript.take 4 ++ [(1, 256, Header.bytes ⟨16, 0, 512, 0, 0, 0⟩),
    (1, 512, Bytes.writeLE 4 BC.requestDeathNotification.word ++ Bytes.writeLE 4 1 ++
      Bytes.writeLE 8 99)]

/-- The client's release leaves nothing of it, the manager's reference on its dead node
apart, which still has the client's token as its owner. -/
theorem client_released : Vacated 2 ((replay exportScript exportCalls).releaseEndpoint 2) ∧
    ((replay exportScript exportCalls).releaseEndpoint 2).objects.references =
      [⟨1, 2, 2, 1, 0, 0, 1, 0⟩] :=
  ⟨(release_complete_and_local (replay_reachable exportScript exportCalls) (by decide)).1,
    by decide +kernel⟩

/-- A reference may go on naming the released endpoint, and a subscription that was armed on
its node may go away instead of being queued. -/
theorem release_not_clean :
    ¬ (∀ r ∈ ((replay exportScript exportCalls).releaseEndpoint 2).objects.references,
      r.endpoint ≠ 2 ∧ r.owner ≠ 2) ∧
    ¬ (∀ s ∈ (replay mournScript exportCalls).objects.deaths, s.owner = 2 → s.state = .armed →
      ∃ s' ∈ ((replay mournScript exportCalls).releaseEndpoint 2).objects.deaths,
        s'.cookie = s.cookie ∧ s'.state = .deathQueued) := by
  decide +kernel

end Artbox.Binder
