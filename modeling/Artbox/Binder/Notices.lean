import Artbox.Binder.Teardown

/-!
# The life of a subscription

What the history says of one subscription. An endpoint that never uses a cookie twice tells
its subscriptions apart by their cookies; each then lives in one slot of the death table
(`Seat`) and meets one fate in every step (`Fate`). The laws of its returns follow from its
state alone: `Story` for all returns, `Heard` for the confirmation of a clearing behind a
queued notification.
-/

namespace Artbox.Binder

open Slots Objects Trace

/-! ## Cookies -/

/-- The cookie of a subscription that `k` made. -/
def Event.cookieOf (k : Nat) : Event → Option Nat
  | deathRequested k' _ c => if k' = k then some c else none
  | _ => none

/-- The cookies `k` used so far. -/
def cookies (k : Nat) (h : List Event) : List Nat := h.filterMap (Event.cookieOf k)

/-- `k` used each of its cookies for one subscription. -/
def Distinct (k : Nat) (h : List Event) : Prop := (cookies k h).Nodup

/-- The event is about the subscription of `k` under the cookie `c`. -/
def Event.Tells (k c : Nat) : Event → Prop
  | deathCleared k' _ c' | deathDone k' _ c' | deathReturned k' _ _ _ c' => k' = k ∧ c' = c
  | _ => False

/-- A matching `BC_CLEAR_DEATH_NOTIFICATION` was consumed. -/
def Cleared (k c : Nat) (h : List Event) : Prop := ∃ slot, .deathCleared k slot c ∈ h

/-- A matching `BC_DEAD_BINDER_DONE` was consumed. -/
def Acknowledged (k c : Nat) (h : List Event) : Prop := ∃ slot, .deathDone k slot c ∈ h

/-- A return for the subscription was delivered. -/
def Returned (k c : Nat) (word : BR) (h : List Event) : Prop :=
  ∃ tid slot, .deathReturned k tid slot word c ∈ h

section Cookies

variable {d d' : Device} {k c : Nat} {l h : List Event} {e : Event}

/-- Cookies are read off the history event by event. -/
theorem cookies_append : cookies k (l ++ h) = cookies k l ++ cookies k h := List.filterMap_append

/-- Cookies that are distinct now were so before. -/
theorem Distinct.of_append (hd : Distinct k (l ++ h)) : Distinct k h := by
  unfold Distinct at hd
  rw [cookies_append] at hd
  exact hd.of_append_right

/-- The cookie of every request is among those used. -/
theorem mem_cookies {i : Nat} (hm : .deathRequested k i c ∈ h) : c ∈ cookies k h :=
  List.mem_filterMap.2 ⟨_, hm, if_pos rfl⟩

/-- A used cookie stays used. -/
theorem mem_cookies_append (hm : c ∈ cookies k h) : c ∈ cookies k (l ++ h) := by
  rw [cookies_append]
  exact List.mem_append_right _ hm

/-- A cookie in use is not used again. -/
theorem Distinct.fresh {slot : Nat} (hd : Distinct k (.deathRequested k slot c :: h)) :
    c ∉ cookies k h := by
  have hone : Event.cookieOf k (.deathRequested k slot c) = some c := if_pos rfl
  unfold Distinct cookies at hd
  rw [List.filterMap_cons_some hone] at hd
  exact (List.nodup_cons.1 hd).1

/-- A calm event tells nothing about a subscription. -/
theorem Event.Calm.not_tells (he : e.Calm) : ¬ e.Tells k c := by
  intro ht
  cases e <;> first | exact he | exact ht

/-- Records and events are of subscriptions that were requested. -/
structure Known (k : Nat) (d : Device) : Prop where
  records : ∀ (i : Nat) (s : Death), d.objects.deaths[i]? = some s → s.endpoint = k →
    s.cookie ∈ cookies k d.history
  events : ∀ e ∈ d.history, ∀ c, e.Tells k c → c ∈ cookies k d.history

/-- A step that writes one slot and tells of its record. -/
theorem Known.write {j : Nat} {s x : Death} (hn : Known k d) (hk : k ≠ 0)
    (hold : d.objects.deaths[j]? = some s) (hx : x = {} ∨ x.endpoint = s.endpoint ∧ x.cookie = s.cookie)
    (hdeaths : ∀ i : Nat, d'.objects.deaths[i]? = if i = j then some x else d.objects.deaths[i]?)
    (hh : d'.history = e :: d.history)
    (he : ∀ c, e.Tells k c → s.endpoint = k ∧ s.cookie = c) : Known k d' := by
  have hkeep : ∀ {c}, c ∈ cookies k d.history → c ∈ cookies k d'.history := fun hc => by
    rw [hh]
    exact mem_cookies_append (l := [e]) hc
  refine ⟨fun i y hy hyk => ?_, fun y hy c hc => ?_⟩
  · rw [hdeaths] at hy
    split at hy
    · cases hy
      rcases hx with rfl | ⟨hxe, hxc⟩
      · exact absurd hyk.symm hk
      · rw [hxc]
        exact hkeep (hn.records j s hold (hxe.symm.trans hyk))
    · exact hkeep (hn.records i y hy hyk)
  · rw [hh] at hy
    rcases List.mem_cons.1 hy with rfl | hy
    · obtain ⟨hs, rfl⟩ := he c hc
      exact hkeep (hn.records j s hold hs)
    · exact hkeep (hn.events y hy c hc)

/-- A step that keeps slots or blanks them. -/
theorem Known.shrink (hn : Known k d) (hk : k ≠ 0)
    (hdeaths : ∀ (i : Nat) (s' : Death), d'.objects.deaths[i]? = some s' → s'.endpoint ≠ 0 →
      ∃ s, d.objects.deaths[i]? = some s ∧ s'.endpoint = s.endpoint ∧ s'.cookie = s.cookie)
    (hh : d'.history = l ++ d.history) (hl : ∀ e ∈ l, ∀ c, ¬ e.Tells k c) : Known k d' := by
  refine ⟨fun i s' hs' hk' => ?_, fun e he c hc => ?_⟩
  · obtain ⟨s, hs, hse, hsc⟩ := hdeaths i s' hs' (hk' ▸ hk)
    rw [hh, hsc]
    exact mem_cookies_append (hn.records i s hs (hse ▸ hk'))
  · rw [hh] at he ⊢
    rcases List.mem_append.1 he with he | he
    · exact absurd hc (hl e he c)
    · exact mem_cookies_append (hn.events e he c hc)

end Cookies

/-- What a blanked or kept record was. -/
theorem DeathStep.exit_slots {d d' : Device} {k : Nat} {tid : Int}
    (hd : d'.objects.deaths = update (fun s => s.endpoint == k && s.tid == tid) (fun _ => {})
      d.objects.deaths) (i : Nat) :
    d'.objects.deaths[i]? = d.objects.deaths[i]? ∨ d'.objects.deaths[i]? = some {} := by
  rw [hd, Slots.update, List.getElem?_map]
  cases d.objects.deaths[i]? with
  | none => exact .inl rfl
  | some s =>
    rw [Option.map_some]
    split
    · exact .inr rfl
    · exact .inl rfl

/-- The subscription in the slot that a reference names. -/
theorem Objects.Links.named_slot {o : Objects} {r : Reference} {slot : Nat} {s : Death} (h : o.Links)
    (hr : r ∈ o.references) (h0 : r.endpoint ≠ 0) (hd : r.death = slot + 1)
    (hs : o.deaths[slot]? = some s) : s.endpoint = r.endpoint ∧ s.owner = r.owner ∧ s.clearing = false := by
  obtain ⟨x, hx, hrest⟩ := h.named r hr h0 (by omega)
  rw [hd, Nat.add_sub_cancel, hs] at hx
  cases hx
  exact hrest

/-- A release blanks a record, queues its notification or leaves it. -/
theorem bereave_cases (token : Nat) (s : Death) : bereave token s = {} ∨ bereave token s = s ∨
    (s.endpoint ≠ 0 ∧ s.owner = token ∧ s.state = .armed ∧
      bereave token s = { s with state := .deathQueued }) := by
  unfold bereave
  split
  · exact .inl rfl
  · split
    next hq => exact .inr (.inr ⟨hq.1, hq.2.1, hq.2.2, rfl⟩)
    next => exact .inr (.inl rfl)

/-- The slots after the release of an endpoint. -/
theorem retire_slots {d d' : Device} {token : Nat} {o : Objects}
    (ho : d'.objects = (if d.manager = token then { o with managerNode := 0 } else o))
    (hd : o.deaths = d.objects.deaths.map (bereave token)) (i : Nat) :
    d'.objects.deaths[i]? = (d.objects.deaths[i]?).map (bereave token) := by
  have hsame : d'.objects.deaths = o.deaths := by
    rw [ho]
    split <;> rfl
  rw [hsame, hd, List.getElem?_map]

/-- Records and events stay those of requested subscriptions. -/
theorem Known.step {d d' : Device} {k : Nat} (hn : Known k d) (hk : k ≠ 0) (hl : d.objects.Links)
    (hs : DeathStep d d') : Known k d' := by
  cases hs with
  | pass hcar hh hcalm =>
    refine hn.shrink hk (fun i s' hs' h0 => ?_) hh fun e he c => (hcalm e he).not_tells
    rcases hcar.passes.slots i with heq | ⟨heq, _⟩
    · exact ⟨s', by rw [← heq, hs'], rfl, rfl⟩
    · rw [heq] at hs'
      cases hs'
      exact absurd rfl h0
  | @request r slot cookie _ _ _ _ _ _ hdeaths hh =>
    refine ⟨fun i s hs hsk => ?_, fun e he c hc => ?_⟩
    · rw [hdeaths] at hs
      split at hs
      · cases hs
        obtain rfl : r.endpoint = k := hsk
        exact mem_cookies (i := slot) (hh ▸ List.mem_cons_self)
      · rw [hh]
        exact mem_cookies_append (l := [_]) (hn.records i s hs hsk)
    · rw [hh] at he ⊢
      rcases List.mem_cons.1 he with rfl | he
      · exact hc.elim
      · exact mem_cookies_append (l := [_]) (hn.events e he c hc)
  | @clear r slot s th hmem h0 hd hslot _ _ hdeaths hh =>
    have hse := hl.named_slot hmem h0 hd hslot
    refine hn.write hk hslot (.inr ?_) hdeaths hh fun c hc => ⟨hse.1.trans hc.1, hc.2⟩
    unfold Death.clear
    split <;> exact ⟨rfl, rfl⟩
  | @done k' slot s th hslot he _ _ _ _ hdeaths hh =>
    refine hn.write hk hslot (.inr ?_) hdeaths hh fun c hc => ⟨he.trans hc.1, hc.2⟩
    unfold Death.acknowledge
    split <;> exact ⟨rfl, rfl⟩
  | @notify k' slot tid s hslot he _ _ _ _ hdeaths hh =>
    refine hn.write hk hslot ?_ hdeaths hh fun c hc => ⟨he.trans hc.1, hc.2⟩
    unfold Death.deliver
    split
    · exact .inl rfl
    · exact .inr ⟨rfl, rfl⟩
  | exit _ _ _ hdeaths hh =>
    refine hn.shrink (l := [_]) hk (fun i s' hs' h0 => ?_) hh (by simp [Event.Tells])
    rcases DeathStep.exit_slots hdeaths i with heq | heq
    · exact ⟨s', by rw [← heq, hs'], rfl, rfl⟩
    · rw [heq] at hs'
      cases hs'
      exact absurd rfl h0
  | @retire token o _ _ ho hdeaths hh =>
    refine hn.shrink (l := [_]) hk (fun i s' hs' h0 => ?_) hh (by simp [Event.Tells])
    rw [retire_slots ho hdeaths] at hs'
    obtain ⟨s, hs, rfl⟩ := Option.map_eq_some_iff.1 hs'
    refine ⟨s, hs, ?_⟩
    rcases bereave_cases token s with heq | heq | ⟨_, _, _, heq⟩ <;> rw [heq] at h0 ⊢
    · exact absurd rfl h0
    · exact ⟨rfl, rfl⟩
    · exact ⟨rfl, rfl⟩

/-! ## The seat of a subscription -/

/-- The record of the subscription of `k` under the cookie `c`, while it is in the slot. -/
def Device.held (d : Device) (k c slot : Nat) : Option Death :=
  (d.objects.deaths[slot]?).filter fun s => s.endpoint == k && s.cookie == c

/-- The subscription was requested, has the slot for its record, and its reference has the
handle. -/
structure Seat (k c slot handle : Nat) (d : Device) : Prop where
  asked : c ∈ cookies k d.history
  only : ∀ (i : Nat) (s : Death), d.objects.deaths[i]? = some s → s.endpoint = k → s.cookie = c → i = slot
  named : ∀ r ∈ d.objects.references, r.endpoint = k → r.death = slot + 1 → d.held k c slot ≠ none →
    r.handle = handle

/-- What a step does to the subscription. -/
inductive Fate (k c slot : Nat) (d d' : Device) : Prop
  /-- It stays as it is or is dropped. -/
  | quiet {l : List Event} : d'.history = l ++ d.history → (∀ e ∈ l, ¬ e.Tells k c) →
    d'.held k c slot = none ∨ d'.held k c slot = d.held k c slot → Fate k c slot d d'
  /-- Its owner is released. -/
  | queue {s : Death} : d.held k c slot = some s → s.state = .armed →
    d'.held k c slot = some { s with state := .deathQueued } →
      d'.history = .released s.owner :: d.history → Fate k c slot d d'
  | clear {s : Death} (th : Thread) : d.held k c slot = some s → s.clearing = false →
    d'.held k c slot = some (s.clear th) → d'.history = .deathCleared k slot c :: d.history →
      Fate k c slot d d'
  | done {s : Death} (th : Thread) : d.held k c slot = some s → s.state = .deathDelivered →
    d'.held k c slot = some (s.acknowledge th) → d'.history = .deathDone k slot c :: d.history →
      Fate k c slot d d'
  | tell {s : Death} {tid : Int} : d.held k c slot = some s → s.state = .deathQueued →
    d'.held k c slot = some { s with state := .deathDelivered } →
      d'.history = .deathReturned k tid slot .deadBinder c :: d.history → Fate k c slot d d'
  | finish {s : Death} {tid : Int} : d.held k c slot = some s → s.state = .clearQueued →
    d'.held k c slot = none →
      d'.history = .deathReturned k tid slot .clearDeathNotificationDone c :: d.history →
        Fate k c slot d d'

section Seat

variable {d d' : Device} {k c slot handle : Nat}

/-- A held record is in its slot under its endpoint and cookie. -/
theorem Device.held_eq_some {s : Death} : d.held k c slot = some s ↔
    d.objects.deaths[slot]? = some s ∧ s.endpoint = k ∧ s.cookie = c := by
  rw [Device.held, Option.filter_eq_some_iff]
  simp

/-- Slots that are kept or blanked. -/
theorem Device.held_shrink (hk : k ≠ 0) (hslot : d'.objects.deaths[slot]? = d.objects.deaths[slot]? ∨
    d'.objects.deaths[slot]? = some {}) :
    d'.held k c slot = none ∨ d'.held k c slot = d.held k c slot := by
  rcases hslot with heq | heq
  · exact .inr (by rw [Device.held, heq, Device.held])
  · refine .inl ?_
    rw [Device.held, heq, Option.filter_some, if_neg]
    simp [Ne.symm hk]

/-- A step that writes one slot, keeping whose record it is or blanking it. -/
theorem Seat.write {j : Nat} {s x : Death} {e : Event} (h : Seat k c slot handle d) (hk : k ≠ 0)
    (hold : d.objects.deaths[j]? = some s) (hx : x = {} ∨ x.endpoint = s.endpoint ∧ x.cookie = s.cookie)
    (hdeaths : ∀ i : Nat, d'.objects.deaths[i]? = if i = j then some x else d.objects.deaths[i]?)
    (hrefs : ∀ r ∈ d'.objects.references, r.endpoint = k → r.death = slot + 1 → r ∈ d.objects.references)
    (hh : d'.history = e :: d.history) : Seat k c slot handle d' ∧
      (s.endpoint = k ∧ s.cookie = c ∧ j = slot ∧ d.held k c slot = some s ∧
          d'.held k c slot = (if x.endpoint = k then some x else none) ∨
        ¬ (s.endpoint = k ∧ s.cookie = c) ∧ d'.held k c slot = d.held k c slot) := by
  have hcase : s.endpoint = k ∧ s.cookie = c ∧ j = slot ∧ d.held k c slot = some s ∧
        d'.held k c slot = (if x.endpoint = k then some x else none) ∨
      ¬ (s.endpoint = k ∧ s.cookie = c) ∧ d'.held k c slot = d.held k c slot := by
    by_cases hm : s.endpoint = k ∧ s.cookie = c
    · obtain ⟨hse, hsc⟩ := hm
      obtain rfl : j = slot := h.only j s hold hse hsc
      refine .inl ⟨hse, hsc, rfl, Device.held_eq_some.2 ⟨hold, hse, hsc⟩, ?_⟩
      rw [Device.held, hdeaths, if_pos rfl, Option.filter_some]
      rcases hx with rfl | ⟨hxe, hxc⟩
      · simp [Ne.symm hk]
      · simp [hxe, hxc, hse, hsc]
    · refine .inr ⟨hm, ?_⟩
      rw [Device.held, hdeaths, Device.held]
      split
      next hj =>
        rw [hj, hold, Option.filter_some, Option.filter_some]
        rcases hx with rfl | ⟨hxe, hxc⟩
        · rw [if_neg (by simp [Ne.symm hk]), if_neg (by simpa using hm)]
        · rw [if_neg (by rw [hxe, hxc]; simpa using hm), if_neg (by simpa using hm)]
      next => rfl
  refine ⟨⟨?_, fun i y hy hyk hyc => ?_, fun r hr hrk hrd hheld => ?_⟩, hcase⟩
  · rw [hh]
    exact mem_cookies_append (l := [e]) h.asked
  · rw [hdeaths] at hy
    split at hy
    next hi =>
      cases hy
      rcases hx with rfl | ⟨hxe, hxc⟩
      · exact absurd hyk.symm hk
      · exact h.only i s (hi ▸ hold) (hxe ▸ hyk) (hxc ▸ hyc)
    next => exact h.only i y hy hyk hyc
  · refine h.named r (hrefs r hr hrk hrd) hrk hrd fun hnone => hheld ?_
    rcases hcase with ⟨_, _, _, hs, _⟩ | ⟨_, heq⟩
    · rw [hnone] at hs
      cases hs
    · rw [heq, hnone]

/-- A subscription keeps its seat while records and references only go. -/
theorem Seat.shrink {l : List Event} (h : Seat k c slot handle d) (hk : k ≠ 0)
    (hdeaths : ∀ i : Nat, d'.objects.deaths[i]? = d.objects.deaths[i]? ∨
      d'.objects.deaths[i]? = some {})
    (hrefs : ∀ r' ∈ d'.objects.references, r'.endpoint = k → r'.death = slot + 1 →
      ∃ r ∈ d.objects.references, r'.SameKey r ∧ r'.death = r.death)
    (hh : d'.history = l ++ d.history) (hl : ∀ e ∈ l, ¬ e.Tells k c) :
    Seat k c slot handle d' ∧ Fate k c slot d d' := by
  have hheld := Device.held_shrink (c := c) hk (hdeaths slot)
  refine ⟨⟨hh ▸ mem_cookies_append h.asked, fun i s hs hsk hsc => ?_, fun r' hr' hrk hrd hne => ?_⟩,
    .quiet hh hl hheld⟩
  · rcases hdeaths i with heq | heq
    · exact h.only i s (heq ▸ hs) hsk hsc
    · rw [heq] at hs
      cases hs
      exact absurd hsk.symm hk
  · obtain ⟨r, hr, hkey, hd⟩ := hrefs r' hr' hrk hrd
    rw [hkey.2]
    refine h.named r hr (hkey.1.symm.trans hrk) (hd.symm.trans hrd) fun hnone => hne ?_
    rcases hheld with heq | heq
    · exact heq
    · rw [heq, hnone]

/-- In a step of a device whose endpoint uses cookies once. -/
theorem Seat.step (h : Seat k c slot handle d) (hk : k ≠ 0) (hl : d.objects.Links)
    (hd : Distinct k d'.history) (hs : DeathStep d d') :
    Seat k c slot handle d' ∧ Fate k c slot d d' := by
  cases hs with
  | pass hcar hh hcalm =>
    refine h.shrink hk (fun i => (hcar.passes.slots i).imp_right And.left) (fun r' hr' hrk hrd => ?_) hh
      fun e he => (hcalm e he).not_tells
    obtain ⟨r, hr, hkey, _, hdr⟩ := hcar.passes.old r' hr' (hrk ▸ hk) (by omega)
    exact ⟨r, hr, hkey, hdr⟩
  | @request r j cookie hmem h0 _ hfree hw _ hdeaths hh =>
    -- the new record is another subscription's
    have hother : ¬ (r.endpoint = k ∧ cookie = c) := by
      rintro ⟨rfl, rfl⟩
      rw [hh] at hd
      exact hd.fresh h.asked
    have hheld : d'.held k c slot = d.held k c slot := by
      rw [Device.held, hdeaths, Device.held]
      split
      next hj =>
        rw [Option.filter_some, if_neg (by simpa using hother)]
        cases hold : d.objects.deaths[slot]? with
        | none => rfl
        | some s =>
          rw [Option.filter_some, if_neg]
          simp [hfree s (hj ▸ hold), Ne.symm hk]
      next => rfl
    refine ⟨⟨?_, fun i s hs hsk hsc => ?_, fun r' hr' hrk hrd hne => ?_⟩,
      .quiet (l := [_]) hh (by simp [Event.Tells]) (.inr hheld)⟩
    · rw [hh]
      exact mem_cookies_append (l := [_]) h.asked
    · rw [hdeaths] at hs
      split at hs
      · cases hs
        exact absurd ⟨hsk, hsc⟩ hother
      · exact h.only i s hs hsk hsc
    · rw [hheld] at hne
      rcases (hw.mem r' (hrk ▸ hk)).1 hr' with ⟨rfl, _⟩ | ⟨hr', _⟩
      · -- a free slot holds no record
        obtain ⟨s, hs⟩ := Option.ne_none_iff_exists'.1 hne
        obtain ⟨hslot, hsk, _⟩ := Device.held_eq_some.1 hs
        obtain rfl : j = slot := by simpa using hrd
        exact absurd (hsk.symm.trans (hfree s hslot)) hk
      · exact h.named r' hr' hrk hrd hne
  | @clear r j s th hmem h0 hrd hslot hw _ hdeaths hh =>
    obtain ⟨hse, _, hsc⟩ := hl.named_slot hmem h0 hrd hslot
    have hx : (s.clear th).endpoint = s.endpoint ∧ (s.clear th).cookie = s.cookie := by
      unfold Death.clear
      split <;> exact ⟨rfl, rfl⟩
    obtain ⟨hseat, ⟨rfl, rfl, rfl, hheld, hheld'⟩ | ⟨hne, heq⟩⟩ := h.write hk hslot (.inr hx) hdeaths
      (fun x hx hxk hxd => by
        rcases (hw.mem x (hxk ▸ hk)).1 hx with ⟨rfl, _⟩ | ⟨hx, _⟩
        · cases hxd
        · exact hx) hh
    · rw [if_pos hx.1] at hheld'
      exact ⟨hseat, .clear th hheld hsc hheld' (hse ▸ hh)⟩
    · refine ⟨hseat, .quiet (l := [_]) hh (fun e he ht => hne ?_) (.inr heq)⟩
      obtain rfl := List.mem_singleton.1 he
      exact ⟨hse.trans ht.1, ht.2⟩
  | @done k' j s th hslot he h0 hst hrefs _ hdeaths hh =>
    have hx : (s.acknowledge th).endpoint = s.endpoint ∧ (s.acknowledge th).cookie = s.cookie := by
      unfold Death.acknowledge
      split <;> exact ⟨rfl, rfl⟩
    obtain ⟨hseat, ⟨rfl, rfl, rfl, hheld, hheld'⟩ | ⟨hne, heq⟩⟩ := h.write hk hslot (.inr hx) hdeaths
      (fun x hx _ _ => hrefs ▸ hx) hh
    · rw [if_pos hx.1] at hheld'
      exact ⟨hseat, .done th hheld hst hheld' (he ▸ hh)⟩
    · refine ⟨hseat, .quiet (l := [_]) hh (fun e he' ht => hne ?_) (.inr heq)⟩
      obtain rfl := List.mem_singleton.1 he'
      exact ⟨he.trans ht.1, ht.2⟩
  | @notify k' j tid s hslot he h0 hst hrefs _ hdeaths hh =>
    have hx : s.deliver = {} ∨ s.deliver.endpoint = s.endpoint ∧ s.deliver.cookie = s.cookie := by
      unfold Death.deliver
      split
      · exact .inl rfl
      · exact .inr ⟨rfl, rfl⟩
    obtain ⟨hseat, ⟨rfl, rfl, rfl, hheld, hheld'⟩ | ⟨hne, heq⟩⟩ := h.write hk hslot hx hdeaths
      (fun x hx _ _ => hrefs ▸ hx) hh
    · refine ⟨hseat, ?_⟩
      unfold Death.deliver Death.returnWord at *
      by_cases hcq : s.state = .clearQueued
      · rw [if_pos hcq, if_neg (Ne.symm hk)] at hheld'
        rw [if_pos hcq] at hh
        exact .finish hheld hcq hheld' (he ▸ hh)
      · rw [if_neg hcq, if_pos rfl] at hheld'
        rw [if_neg hcq] at hh
        exact .tell hheld (hst.resolve_right hcq) hheld' (he ▸ hh)
    · refine ⟨hseat, .quiet (l := [_]) hh (fun e he' ht => hne ?_) (.inr heq)⟩
      obtain rfl := List.mem_singleton.1 he'
      exact ⟨he.trans ht.1, ht.2⟩
  | exit _ hrefs _ hdeaths hh =>
    exact h.shrink (l := [_]) hk (DeathStep.exit_slots hdeaths)
      (fun r hr _ _ => ⟨r, hrefs ▸ hr, ⟨rfl, rfl⟩, rfl⟩) hh (by simp [Event.Tells])
  | @retire token o _ hret ho hdeaths hh =>
    have hslot := retire_slots ho hdeaths
    have hrefs : ∀ r' ∈ d'.objects.references, r'.endpoint = k → r'.death = slot + 1 →
        r' ∈ d.objects.references := by
      intro r hr hrk _
      have hsame : d'.objects.references = o.references := by
        rw [ho]
        split <;> rfl
      exact ((hret.references r (hrk ▸ hk)).1 (hsame ▸ hr)).1
    have honly : ∀ (i : Nat) (s' : Death), d'.objects.deaths[i]? = some s' → s'.endpoint = k →
        s'.cookie = c → i = slot := by
      intro i s' hs' hsk hsc
      rw [hslot] at hs'
      obtain ⟨s, hs, rfl⟩ := Option.map_eq_some_iff.1 hs'
      rcases bereave_cases token s with heq | heq | ⟨_, _, _, heq⟩ <;> rw [heq] at hsk hsc
      · exact absurd hsk.symm hk
      · exact h.only i s hs hsk hsc
      · exact h.only i s hs hsk hsc
    have hfate : Fate k c slot d d' ∧ (d.held k c slot = none → d'.held k c slot = none) := by
      have hquiet : ∀ (hq : d'.held k c slot = none ∨ d'.held k c slot = d.held k c slot),
          Fate k c slot d d' := fun hq => .quiet (l := [_]) hh (by simp [Event.Tells]) hq
      cases hold : d.objects.deaths[slot]? with
      | none =>
        have hnone : d'.held k c slot = none := by
          rw [Device.held, hslot, hold]
          rfl
        exact ⟨hquiet (.inl hnone), fun _ => hnone⟩
      | some s =>
        have hs' := hslot slot
        rw [hold, Option.map_some] at hs'
        rcases bereave_cases token s with heq | heq | ⟨_, how, hst, heq⟩ <;> rw [heq] at hs'
        · have hsh := Device.held_shrink (d := d) (c := c) hk (.inr hs')
          refine ⟨hquiet hsh, fun hn => ?_⟩
          rcases hsh with hsh | hsh
          · exact hsh
          · rw [hsh, hn]
        · have hsh : d'.held k c slot = d.held k c slot := by
            rw [Device.held, hs', ← hold, Device.held]
          exact ⟨hquiet (.inr hsh), fun hn => by rw [hsh, hn]⟩
        · by_cases hm : s.endpoint = k ∧ s.cookie = c
          · have hheld : d.held k c slot = some s := Device.held_eq_some.2 ⟨hold, hm⟩
            refine ⟨.queue hheld hst (Device.held_eq_some.2 ⟨hs', hm⟩) (how ▸ hh), fun hn => ?_⟩
            rw [hn] at hheld
            cases hheld
          · have hnone : d'.held k c slot = none := by
              rw [Device.held, hs', Option.filter_some, if_neg (by simpa using hm)]
            exact ⟨hquiet (.inl hnone), fun _ => hnone⟩
    refine ⟨⟨?_, honly, fun r hr hrk hrd hne => ?_⟩, hfate.1⟩
    · rw [hh]
      exact mem_cookies_append (l := [_]) h.asked
    · exact h.named r (hrefs r hr hrk hrd) hrk hrd fun hn => hne (hfate.2 hn)

end Seat

/-! ## What the history says of it -/

/-- Every `BR_DEAD_BINDER` of the subscription is the first and follows the release of
`owner`; every confirmation is the first and follows a clearing. -/
def Lawful (k c owner : Nat) (e : Event) (older : List Event) : Prop :=
  ∀ tid slot, (e = .deathReturned k tid slot .deadBinder c →
      .released owner ∈ older ∧ ¬ Returned k c .deadBinder older) ∧
    (e = .deathReturned k tid slot .clearDeathNotificationDone c →
      Cleared k c older ∧ ¬ Returned k c .clearDeathNotificationDone older)

/-- The record of the subscription agrees with the history. -/
structure Story (k c slot owner : Nat) (d : Device) : Prop where
  owned : ∀ s, d.held k c slot = some s → s.owner = owner
  cleared : ∀ s, d.held k c slot = some s → (s.clearing = true ↔ Cleared k c d.history)
  finished : ∀ s, d.held k c slot = some s → ¬ Returned k c .clearDeathNotificationDone d.history
  notified : ∀ s, d.held k c slot = some s → s.state = .armed ∨ s.state = .deathQueued →
    ¬ Returned k c .deadBinder d.history
  law : Always (Lawful k c owner) d.history

/-- Once the notification was queued, the confirmation waits for its acknowledgement. -/
structure Heard (k c slot : Nat) (d : Device) : Prop where
  record : ∀ s, d.held k c slot = some s → s.state = .deathQueued ∨ s.state = .deathDelivered ∨
    Acknowledged k c d.history
  law : Always (fun e older => ∀ tid i, e = .deathReturned k tid i .clearDeathNotificationDone c →
    Acknowledged k c older) d.history

section Laws

variable {d d' : Device} {k c slot owner : Nat} {h l : List Event} {word : BR}

/-- What another event tells was returned before. -/
theorem Returned.of_cons {e : Event} (hr : Returned k c word (e :: h))
    (he : ∀ tid i, e ≠ .deathReturned k tid i word c) : Returned k c word h := by
  obtain ⟨tid, i, hmem⟩ := hr
  rcases List.mem_cons.1 hmem with heq | hmem
  · exact absurd heq.symm (he tid i)
  · exact ⟨tid, i, hmem⟩

/-- A clearing that is not the last event was consumed before it. -/
theorem Cleared.of_cons {e : Event} (hr : Cleared k c (e :: h)) (he : ∀ i, e ≠ .deathCleared k i c) :
    Cleared k c h := by
  obtain ⟨i, hmem⟩ := hr
  rcases List.mem_cons.1 hmem with heq | hmem
  · exact absurd heq.symm (he i)
  · exact ⟨i, hmem⟩

theorem Cleared.cons {e : Event} (hr : Cleared k c h) : Cleared k c (e :: h) := by
  obtain ⟨i, hmem⟩ := hr
  exact ⟨i, List.mem_cons_of_mem _ hmem⟩

theorem Acknowledged.cons {e : Event} (hr : Acknowledged k c h) : Acknowledged k c (e :: h) := by
  obtain ⟨i, hmem⟩ := hr
  exact ⟨i, List.mem_cons_of_mem _ hmem⟩

/-- Events about others tell nothing of the subscription. -/
theorem not_told {b : BR} (hl : ∀ e ∈ l, ¬ e.Tells k c) :
    (Returned k c b (l ++ h) ↔ Returned k c b h) ∧ (Cleared k c (l ++ h) ↔ Cleared k c h) := by
  constructor <;> constructor
  · rintro ⟨tid, i, hmem⟩
    rcases List.mem_append.1 hmem with hmem | hmem
    · exact absurd ⟨rfl, rfl⟩ (hl _ hmem)
    · exact ⟨tid, i, hmem⟩
  · rintro ⟨tid, i, hmem⟩
    exact ⟨tid, i, List.mem_append_right _ hmem⟩
  · rintro ⟨i, hmem⟩
    rcases List.mem_append.1 hmem with hmem | hmem
    · exact absurd ⟨rfl, rfl⟩ (hl _ hmem)
    · exact ⟨i, hmem⟩
  · rintro ⟨i, hmem⟩
    exact ⟨i, List.mem_append_right _ hmem⟩

/-- The record agrees with the history across any step of its fate. -/
theorem Story.step (hs : Story k c slot owner d) (hsub : Subscriptions d) (hk : k ≠ 0)
    (hf : Fate k c slot d d') : Story k c slot owner d' := by
  cases hf with
  | quiet hh hl hheld =>
    -- the record stays or goes
    have hkeep : ∀ s, d'.held k c slot = some s → d.held k c slot = some s := by
      intro s hs'
      rcases hheld with heq | heq
      · rw [heq] at hs'
        cases hs'
      · rw [← heq, hs']
    refine ⟨fun s h => hs.owned s (hkeep s h), fun s h => ?_, fun s h => ?_, fun s h hst => ?_, ?_⟩
    · rw [hh, (not_told (b := .deadBinder) hl).2]
      exact hs.cleared s (hkeep s h)
    · rw [hh, (not_told hl).1]
      exact hs.finished s (hkeep s h)
    · rw [hh, (not_told hl).1]
      exact hs.notified s (hkeep s h) hst
    · rw [hh]
      refine hs.law.append fun e he older tid i => ⟨fun heq => ?_, fun heq => ?_⟩
      · exact absurd ⟨rfl, rfl⟩ (heq ▸ hl e he)
      · exact absurd ⟨rfl, rfl⟩ (heq ▸ hl e he)
  | @queue s hheld hst hheld' hh =>
    refine ⟨fun x hx => ?_, fun x hx => ?_, fun x hx => ?_, fun x hx _ => ?_, ?_⟩
    · rw [hheld'] at hx
      cases hx
      exact hs.owned s hheld
    · rw [hheld'] at hx
      cases hx
      rw [hh]
      exact (hs.cleared s hheld).trans ⟨.cons, fun hc => hc.of_cons (by simp)⟩
    · rw [hh]
      exact fun hr => hs.finished s hheld (hr.of_cons (by simp))
    · rw [hh]
      exact fun hr => hs.notified s hheld (.inl hst) (hr.of_cons (by simp))
    · rw [hh]
      exact ⟨fun _ _ => ⟨by simp, by simp⟩, hs.law⟩
  | @clear s th hheld hc hheld' hh =>
    -- clearing does not bring a notification back
    have hsame : (s.clear th).owner = s.owner ∧ (s.clear th).clearing = true ∧
        ((s.clear th).state = .armed ∨ (s.clear th).state = .deathQueued → s.state = .deathQueued) := by
      unfold Death.clear
      split
      · exact ⟨rfl, rfl, fun hst => by simp [queueClear] at hst⟩
      next hne => exact ⟨rfl, rfl, fun hst => hst.resolve_left fun ha => hne (.inl ha)⟩
    refine ⟨fun x hx => ?_, fun x hx => ?_, fun x hx => ?_, fun x hx hst => ?_, ?_⟩
    · rw [hheld'] at hx
      cases hx
      exact hsame.1.trans (hs.owned s hheld)
    · rw [hheld'] at hx
      cases hx
      rw [hh, hsame.2.1]
      exact iff_of_true rfl ⟨slot, List.mem_cons_self⟩
    · rw [hh]
      exact fun hr => hs.finished s hheld (hr.of_cons (by simp))
    · rw [hheld'] at hx
      cases hx
      rw [hh]
      exact fun hr => hs.notified s hheld (.inr (hsame.2.2 hst)) (hr.of_cons (by simp))
    · rw [hh]
      exact ⟨fun _ _ => ⟨by simp, by simp⟩, hs.law⟩
  | @done s th hheld hst hheld' hh =>
    -- behind its acknowledgement nothing is to be notified
    have hsame : (s.acknowledge th).owner = s.owner ∧ (s.acknowledge th).clearing = s.clearing ∧
        (s.acknowledge th).state ≠ .armed ∧ (s.acknowledge th).state ≠ .deathQueued := by
      unfold Death.acknowledge
      split <;> exact ⟨rfl, rfl, fun h => DeathState.noConfusion h, fun h => DeathState.noConfusion h⟩
    refine ⟨fun x hx => ?_, fun x hx => ?_, fun x hx => ?_, fun x hx hq => ?_, ?_⟩
    · rw [hheld'] at hx
      cases hx
      exact hsame.1.trans (hs.owned s hheld)
    · rw [hheld'] at hx
      cases hx
      rw [hh, hsame.2.1]
      exact (hs.cleared s hheld).trans ⟨.cons, fun hc => hc.of_cons (by simp)⟩
    · rw [hh]
      exact fun hr => hs.finished s hheld (hr.of_cons (by simp))
    · rw [hheld'] at hx
      cases hx
      exact absurd hq (not_or.2 hsame.2.2)
    · rw [hh]
      exact ⟨fun _ _ => ⟨by simp, by simp⟩, hs.law⟩
  | @tell s tid hheld hst hheld' hh =>
    have hslot := Device.held_eq_some.1 hheld
    -- a queued notification says that its owner was released
    have hreleased := (hsub.owner slot s hslot.1 (hslot.2.1 ▸ hk)).2 hst
    rw [hs.owned s hheld] at hreleased
    refine ⟨fun x hx => ?_, fun x hx => ?_, fun x hx => ?_, fun x hx hq => ?_, ?_⟩
    · rw [hheld'] at hx
      cases hx
      exact hs.owned s hheld
    · rw [hheld'] at hx
      cases hx
      rw [hh]
      exact (hs.cleared s hheld).trans ⟨.cons, fun hc => hc.of_cons (by simp)⟩
    · rw [hh]
      exact fun hr => hs.finished s hheld (hr.of_cons (by simp))
    · rw [hheld'] at hx
      cases hx
      rcases hq with hq | hq <;> cases hq
    · rw [hh]
      exact ⟨fun _ _ => ⟨fun _ => ⟨hreleased, hs.notified s hheld (.inr hst)⟩, by simp⟩, hs.law⟩
  | @finish s tid hheld hst hheld' hh =>
    have hslot := Device.held_eq_some.1 hheld
    have hclear := (hsub.formed slot s hslot.1 (hslot.2.1 ▸ hk)).clear hst
    have hlaw : Always (Lawful k c owner) d'.history := by
      rw [hh]
      exact ⟨fun _ _ => ⟨by simp, fun _ => ⟨(hs.cleared s hheld).1 hclear, hs.finished s hheld⟩⟩, hs.law⟩
    -- the record is given back with the confirmation
    have hgone : ∀ x, d'.held k c slot ≠ some x := by simp [hheld']
    exact ⟨fun x hx => absurd hx (hgone x), fun x hx => absurd hx (hgone x),
      fun x hx => absurd hx (hgone x), fun x hx => absurd hx (hgone x), hlaw⟩

/-- A queued notification is still to be acknowledged across any step of its fate. -/
theorem Heard.step (hs : Heard k c slot d) (hf : Fate k c slot d d') : Heard k c slot d' := by
  cases hf with
  | quiet hh hl hheld =>
    refine ⟨fun s hs' => ?_, ?_⟩
    · have hold : d.held k c slot = some s := by
        rcases hheld with heq | heq
        · rw [heq] at hs'
          cases hs'
        · rw [← heq, hs']
      refine (hs.record s hold).imp_right (Or.imp_right ?_)
      rintro ⟨i, hmem⟩
      exact ⟨i, hh ▸ List.mem_append_right _ hmem⟩
    · rw [hh]
      exact hs.law.append fun e he older tid i heq => absurd ⟨rfl, rfl⟩ (heq ▸ hl e he)
  | @queue s hheld hst hheld' hh =>
    refine ⟨fun x hx => ?_, ?_⟩
    · rw [hheld'] at hx
      cases hx
      exact .inl rfl
    · rw [hh]
      exact ⟨fun _ _ => nofun, hs.law⟩
  | @clear s th hheld hc hheld' hh =>
    refine ⟨fun x hx => ?_, ?_⟩
    · rw [hheld'] at hx
      cases hx
      rw [hh]
      rcases hs.record s hheld with hst | hst | hack
      · exact .inl (by simp [Death.clear, hst])
      · exact .inr (.inl (by simp [Death.clear, hst]))
      · exact .inr (.inr hack.cons)
    · rw [hh]
      exact ⟨fun _ _ => nofun, hs.law⟩
  | @done s th hheld hst hheld' hh =>
    refine ⟨fun x hx => .inr (.inr ⟨slot, hh ▸ List.mem_cons_self⟩), ?_⟩
    rw [hh]
    exact ⟨fun _ _ => nofun, hs.law⟩
  | @tell s tid hheld hst hheld' hh =>
    refine ⟨fun x hx => ?_, ?_⟩
    · rw [hheld'] at hx
      cases hx
      exact .inr (.inl rfl)
    · rw [hh]
      exact ⟨fun _ _ => nofun, hs.law⟩
  | @finish s tid hheld hst hheld' hh =>
    -- the record was told, so that its acknowledgement is in the history
    have hack : Acknowledged k c d.history := by
      rcases hs.record s hheld with hq | hq | hack
      · rw [hst] at hq
        cases hq
      · rw [hst] at hq
        cases hq
      · exact hack
    refine ⟨fun x hx => ?_, ?_⟩
    · rw [hheld'] at hx
      cases hx
    · rw [hh]
      exact ⟨fun _ _ _ => hack, hs.law⟩

/-- A subscription that is gone tells nothing more. -/
theorem Fate.gone (hf : Fate k c slot d d') (hg : d.held k c slot = none) :
    d'.held k c slot = none ∧ ∃ l, d'.history = l ++ d.history ∧ ∀ e ∈ l, ¬ e.Tells k c := by
  cases hf with
  | quiet hh hl hheld => exact ⟨hheld.elim id fun heq => heq.trans hg, _, hh, hl⟩
  | queue hheld | clear _ hheld | done _ hheld | tell hheld | finish hheld =>
    rw [hg] at hheld
    cases hheld

end Laws

/-! ## Runs -/

/-- A step only adds to the history. -/
theorem DeathStep.suffix {d d' : Device} (hs : DeathStep d d') : ∃ l, d'.history = l ++ d.history := by
  cases hs with
  | pass _ hh => exact ⟨_, hh⟩
  | request _ _ _ _ _ _ _ hh | clear _ _ _ _ _ _ _ _ hh | done _ _ _ _ _ _ _ _ hh
  | notify _ _ _ _ _ _ _ hh | exit _ _ _ _ hh | retire _ _ _ _ hh => exact ⟨[_], hh⟩

/-- A run only adds to the history. -/
theorem history_suffix {d d' : Device} (h : d.Reachable) (hs : machine.Steps d d') :
    ∃ l, d'.history = l ++ d.history := by
  induction hs with
  | refl => exact ⟨[], rfl⟩
  | @tail d₁ d₂ hs₁ hstep ih =>
    have h₁ : d₁.Reachable := h.steps hs₁
    obtain ⟨l, hl⟩ := ih
    obtain ⟨l', hl'⟩ := (hstep.deaths h₁ h₁.subscriptions.links).suffix
    exact ⟨l' ++ l, by rw [hl', hl, List.append_assoc]⟩

/-- On every reachable device records are of requested subscriptions. -/
theorem Device.Reachable.known {d : Device} (h : d.Reachable) {k : Nat} (hk : k ≠ 0) : Known k d := by
  induction h with
  | init hi =>
    obtain ⟨_, _, _, ho, hh, _⟩ := machine_init hi
    exact ⟨fun i s hs => by simp [ho] at hs, fun e he => by simp [hh] at he⟩
  | @step d d' hr hs ih =>
    have hr : d.Reachable := hr
    exact ih.step hk hr.subscriptions.links (hs.deaths hr hr.subscriptions.links)

section Runs

variable {d d' : Device} {k c slot handle owner : Nat}

/-- What a run keeps of a subscription. -/
theorem Seat.run {n : Nat} (h : Seat k c slot handle d) (hr : d.Reachable) (hk : k ≠ 0) (hs : machine.Steps d d')
    (hd : Distinct k d'.history) : Seat k c slot handle d' ∧
      (Story k c slot n d → Story k c slot n d') ∧ (Heard k c slot d → Heard k c slot d') ∧
        (d.held k c slot = none → d'.held k c slot = none ∧
          ∃ l, d'.history = l ++ d.history ∧ ∀ e ∈ l, ¬ e.Tells k c) := by
  induction hs with
  | refl => exact ⟨h, id, id, fun hg => ⟨hg, [], rfl, by simp⟩⟩
  | @tail d₁ d₂ hs₁ hstep ih =>
    have h₁ : d₁.Reachable := hr.steps hs₁
    have hl := h₁.subscriptions.links
    obtain ⟨l, hl₂⟩ := (hstep.deaths h₁ hl).suffix
    obtain ⟨hseat, hstory, hheard, hgone⟩ := ih (hl₂ ▸ hd).of_append
    obtain ⟨hseat', hfate⟩ := hseat.step hk hl hd (hstep.deaths h₁ hl)
    refine ⟨hseat', fun h => (hstory h).step h₁.subscriptions hk hfate, fun h => (hheard h).step hfate,
      fun hg => ?_⟩
    obtain ⟨hg₁, l₁, hh₁, hq₁⟩ := hgone hg
    obtain ⟨hg₂, l₂, hh₂, hq₂⟩ := hfate.gone hg₁
    refine ⟨hg₂, l₂ ++ l₁, by rw [hh₂, hh₁, List.append_assoc], fun e he => ?_⟩
    exact (List.mem_append.1 he).elim (hq₂ e) (hq₁ e)

/-- An accepted request starts the story of a subscription. -/
theorem Seat.request (hr : d.Reachable) (hk : k ≠ 0) {r : Reference}
    (href : d.objects.referenceFor k handle = some r)
    (hh : (d.requestDeath r c).2.history = .deathRequested k slot c :: d.history)
    (hd : Distinct k (d.requestDeath r c).2.history) :
    Seat k c slot handle (d.requestDeath r c).2 ∧ Story k c slot r.owner (d.requestDeath r c).2 := by
  obtain ⟨hmem, rfl, rfl⟩ := referenceFor_spec href
  rcases Device.requestDeath_cases hr.accounts c hmem hk with
    heq | ⟨j, hdeath, hfree, hw, hn, hdeaths, hh'⟩
  · rw [heq] at hh
    exact absurd (congrArg List.length hh) (by simp)
  obtain rfl : j = slot := by
    rw [hh'] at hh
    injection hh with hev
    injection hev
  -- the cookie is new for this endpoint, so that nothing was ever told of it
  have hfresh : c ∉ cookies r.endpoint d.history := (hh' ▸ hd).fresh
  have hknown := hr.known hk
  have hnone : ∀ e ∈ d.history, ¬ e.Tells r.endpoint c := fun e he ht => hfresh (hknown.events e he c ht)
  have hheld : ∀ s, (d.requestDeath r c).2.held r.endpoint c j = some s → s.owner = r.owner ∧
      s.clearing = false := by
    intro s hs
    have hslot := (Device.held_eq_some.1 hs).1
    rw [hdeaths, if_pos rfl] at hslot
    cases hslot
    exact ⟨rfl, rfl⟩
  have hret : ∀ word, ¬ Returned r.endpoint c word (d.requestDeath r c).2.history := by
    rintro word ⟨tid, i, hm⟩
    rw [hh'] at hm
    rcases List.mem_cons.1 hm with heq | hm
    · cases heq
    · exact hnone _ hm ⟨rfl, rfl⟩
  refine ⟨⟨mem_cookies (i := j) (hh' ▸ List.mem_cons_self), fun i s hs hsk hsc => ?_,
      fun x hx hxk hxd _ => ?_⟩,
    ⟨fun s hs => (hheld s hs).1, fun s hs => ?_, fun _ _ => hret _, fun _ _ _ => hret _, ?_⟩⟩
  · rw [hdeaths] at hs
    split at hs
    next hi => exact hi
    next => exact absurd (hsc ▸ hknown.records i s hs hsk) hfresh
  · rcases (hw.mem x (hxk ▸ hk)).1 hx with ⟨rfl, _⟩ | ⟨hx, _⟩
    · rfl
    · obtain ⟨s, hs, hse, _⟩ := hr.subscriptions.links.named x hx (hxk ▸ hk) (by omega)
      rw [hxd, Nat.add_sub_cancel] at hs
      exact absurd (hse.symm.trans (hfree s hs)) (hxk ▸ hk)
  · rw [(hheld s hs).2]
    refine iff_of_false nofun fun hc => ?_
    obtain ⟨i, hm⟩ := hc
    rw [hh'] at hm
    rcases List.mem_cons.1 hm with heq | hm
    · cases heq
    · exact hnone _ hm ⟨rfl, rfl⟩
  · rw [hh']
    refine ⟨fun _ _ => ⟨nofun, nofun⟩, ?_⟩
    have hall := always_nil.append (P := Lawful r.endpoint c r.owner) (l := d.history)
      fun e he older tid i => ⟨fun heq => absurd ⟨rfl, rfl⟩ (heq ▸ hnone e he),
        fun heq => absurd ⟨rfl, rfl⟩ (heq ▸ hnone e he)⟩
    rwa [List.append_nil] at hall

end Runs

/-! ## The release of an owner -/

/-- The armed subscriptions on the objects of `token` when it is released: each is queued in
its slot, unless the release dropped its reference, and nothing else is queued. -/
structure Mourned (token : Nat) (d d' : Device) : Prop where
  armed : ∀ (i : Nat) (s : Death), d.objects.deaths[i]? = some s → s.endpoint ≠ 0 → s.owner = token →
    s.state = .armed → d'.objects.deaths[i]? = some
      (if ∃ r ∈ d'.objects.references, r.endpoint ≠ 0 ∧ r.death = i + 1 then
        { s with state := .deathQueued } else {})
  queued : ∀ (i : Nat) (s' : Death), d'.objects.deaths[i]? = some s' → s'.endpoint ≠ 0 →
    s'.state = .deathQueued → ∃ s, d.objects.deaths[i]? = some s ∧ (s' = s ∨ s.owner = token ∧
      s.state = .armed ∧ s' = { s with state := .deathQueued })

/-- A subscription is on the object of another endpoint. -/
theorem subscription_foreign {d : Device} (h : d.Reachable) {i : Nat} {s : Death}
    (hs : d.objects.deaths[i]? = some s) (h0 : s.endpoint ≠ 0) (hc : s.clearing = false) :
    s.endpoint ≠ s.owner := by
  obtain ⟨r, hr, hr0, hd⟩ := h.subscriptions.links.naming i s hs h0 hc
  obtain ⟨hse, hso, _⟩ := h.subscriptions.links.named_slot hr hr0 hd hs
  obtain ⟨n, hn, hforeign⟩ := h.accounts.objects.nodes.referred r hr hr0
  rw [hse, hso, ← h.subscriptions.owned r hr hr0 n hn]
  exact hforeign.symm

/-- The release of an endpoint queues the armed subscriptions on its objects. -/
theorem mourned {d : Device} (h : d.Reachable) {token : Nat} (h0 : token ≠ 0) :
    Mourned token d (d.releaseEndpoint token) := by
  have hsp := spared h h0
  refine ⟨fun i s hs hs0 how hst => ?_, fun i s' hs' hs0 hst => ?_⟩
  · have hc := (h.subscriptions.formed i s hs hs0).quiet (.inl hst)
    have hne : s.endpoint ≠ token := how ▸ subscription_foreign h hs hs0 hc
    have hdeath := hsp.deaths i s hs hs0 hne
    rw [if_pos (⟨how, hst⟩ : s.owner = token ∧ s.state = .armed)] at hdeath
    by_cases hlive : ∃ r ∈ (d.releaseEndpoint token).objects.references, r.endpoint ≠ 0 ∧ r.death = i + 1
    · rw [if_pos (.inr hlive)] at hdeath
      rw [hdeath, if_pos hlive]
    · rw [if_neg (not_or.2 ⟨by simp [hc], hlive⟩)] at hdeath
      rw [hdeath, if_neg hlive]
  · have hlt : i < d.objects.deaths.length := by
      rw [← hsp.slots]
      exact (List.getElem?_eq_some_iff.1 hs').1
    have hs := List.getElem?_eq_getElem hlt
    generalize d.objects.deaths[i] = s at hs
    by_cases hse : s.endpoint = 0 ∨ s.endpoint = token
    · exact absurd (hsp.freed i s s' hs hse hs') hs0
    · obtain ⟨hse, hne⟩ := not_or.1 hse
      have hdeath := hsp.deaths i s hs hse hne
      rw [hs'] at hdeath
      refine ⟨s, hs, ?_⟩
      split at hdeath
      · split at hdeath
        next hq =>
          cases hdeath
          exact .inr ⟨hq.1, hq.2, rfl⟩
        next =>
          cases hdeath
          exact .inl rfl
      · cases hdeath
        exact absurd rfl hs0

/-! ## The protocol -/

/-- A notification that is due is in the subscription's own record. -/
theorem Seat.heard {d : Device} {k c slot handle owner : Nat} (h : Seat k c slot handle d)
    (hs : Story k c slot owner d) {i : Nat} {s : Death} (hi : d.objects.deaths[i]? = some s)
    (hk : s.endpoint = k) (hc : s.cookie = c) (hst : s.state = .deathQueued ∨ s.state = .deathDelivered) :
    Heard k c slot d := by
  obtain rfl := h.only i s hi hk hc
  have hheld : d.held k c i = some s := Device.held_eq_some.2 ⟨hi, hk, hc⟩
  refine ⟨fun x hx => ?_, ?_⟩
  · rw [hheld] at hx
    cases hx
    exact hst.imp_right .inl
  · -- nothing was confirmed so far
    have hall := always_nil.append (P := fun e older => ∀ tid j,
      e = .deathReturned k tid j .clearDeathNotificationDone c → Acknowledged k c older)
      (l := d.history) fun e he older tid j heq => absurd ⟨tid, j, heq ▸ he⟩ (hs.finished s hheld)
    rwa [List.append_nil] at hall

/-- A subscription that nobody cleared loses its record only with its reference. -/
theorem Seat.dropped {d : Device} {k c slot handle owner : Nat} (h : Seat k c slot handle d)
    (hs : Story k c slot owner d) (hr : d.Reachable) (hk : k ≠ 0) (hc : ¬ Cleared k c d.history)
    (hgone : d.objects.referenceFor k handle = none) : d.held k c slot = none := by
  by_contra hne
  obtain ⟨s, hheld⟩ := Option.ne_none_iff_exists'.1 hne
  obtain ⟨hslot, hsk, _⟩ := Device.held_eq_some.1 hheld
  have hclear : s.clearing = false := by
    cases hcl : s.clearing with
    | false => rfl
    | true => exact absurd ((hs.cleared s hheld).1 hcl) hc
  -- its reference would have the handle
  obtain ⟨r, hmem, h0, hd⟩ := hr.subscriptions.links.naming slot s hslot (hsk ▸ hk) hclear
  have hrk := (hr.subscriptions.links.named_slot hmem h0 hd hslot).1.symm.trans hsk
  have hfor := hr.accounts.objects.tables.referenceFor hmem h0
  rw [hrk, h.named r hmem hrk hd hne, hgone] at hfor
  cases hfor

/-- Death subscriptions. In every reachable state references name subscriptions of their own
that are not being cleared, and the owner of what an armed subscription watches is there; its
release queues the subscription in its slot unless it drops the reference. In every run from
an accepted request of an endpoint that uses each cookie once, the notification is returned
at most once and behind the release of the node's owner, the confirmation at most once and
behind a clearing; if the notification was queued the confirmation waits for the
acknowledgement; and once the reference is gone without a clearing nothing is returned. -/
theorem subscriptions_follow {d : Device} (h : d.Reachable) :
    (∀ r ∈ d.objects.references, r.endpoint ≠ 0 → r.death ≠ 0 →
      ∃ s, d.objects.deaths[r.death - 1]? = some s ∧ s.endpoint = r.endpoint ∧ s.owner = r.owner ∧
        s.clearing = false) ∧
      Unique (fun r : Reference => r.endpoint ≠ 0 ∧ r.death ≠ 0) (·.death) d.objects.references ∧
      (∀ s ∈ d.objects.deaths, s.endpoint ≠ 0 → s.state = .armed → (d.endpointFor s.owner).isSome = true) ∧
      (∀ token, token ≠ 0 → Mourned token d (d.releaseEndpoint token)) ∧
      ∀ (k handle c slot : Nat) (e : Endpoint) (r : Reference) (n : Node) (d₁ d₂ : Device),
        d.endpointFor k = some e → d.objects.referenceFor k handle = some r →
        d.objects.nodeFor r.node = some n →
        (d.requestDeath r c).2.history = .deathRequested k slot c :: d.history →
        machine.Steps (d.requestDeath r c).2 d₁ → machine.Steps d₁ d₂ → Distinct k d₂.history →
          Always (Lawful k c n.owner) d₂.history ∧
          (∀ (i : Nat) (s : Death), d₁.objects.deaths[i]? = some s → s.endpoint = k → s.cookie = c →
            s.state = .deathQueued ∨ s.state = .deathDelivered →
              Always (fun e older => ∀ tid j, e = .deathReturned k tid j .clearDeathNotificationDone c →
                Acknowledged k c older) d₂.history) ∧
          (¬ Cleared k c d₁.history → d₁.objects.referenceFor k handle = none →
            ∃ l, d₂.history = l ++ d₁.history ∧ ∀ tid j word, .deathReturned k tid j word c ∉ l) := by
  have hsub := h.subscriptions
  refine ⟨hsub.links.named, hsub.links.injective, fun s hs h0 hst => ?_, fun token h0 => mourned h h0,
    fun k handle c slot e r n d₁ d₂ he href hn hh hs₁ hs₂ hd => ?_⟩
  · obtain ⟨i, hi⟩ := List.getElem?_of_mem hs
    exact (hsub.owner i s hi h0).1 hst
  · obtain ⟨_, htok, hk⟩ := Device.endpointFor_spec he
    obtain ⟨hmem, hre, _⟩ := referenceFor_spec href
    rw [hsub.owned r hmem (hre ▸ hk) n hn]
    have hstep : Step d (d.requestDeath r c).2 :=
      .requestDeath c (htok.symm ▸ he : d.endpointFor e.token = some e)
        (htok.symm ▸ href : d.objects.referenceFor e.token handle = some r)
    have h₀ : (d.requestDeath r c).2.Reachable := h.then hstep
    have h₁ : d₁.Reachable := h₀.steps hs₁
    -- distinct cookies in the end were distinct before
    obtain ⟨l₂, hl₂⟩ := history_suffix h₁ hs₂
    obtain ⟨l₁, hl₁⟩ := history_suffix h₀ hs₁
    have hd₁ : Distinct k d₁.history := (hl₂ ▸ hd).of_append
    obtain ⟨hseat₀, hstory₀⟩ := Seat.request h hk href hh (hl₁ ▸ hd₁).of_append
    obtain ⟨hseat₁, hstory₁, _, _⟩ := hseat₀.run (n := r.owner) h₀ hk hs₁ hd₁
    obtain ⟨_, hstory₂, hheard, hgone⟩ := hseat₁.run (n := r.owner) h₁ hk hs₂ hd
    have hst₁ := hstory₁ hstory₀
    refine ⟨(hstory₂ hst₁).law, fun i s hi hsk hsc hq => ?_, fun hc hnone => ?_⟩
    · exact (hheard (hseat₁.heard hst₁ hi hsk hsc hq)).law
    · obtain ⟨_, l, hl, hquiet⟩ := hgone (hseat₁.dropped hst₁ h₁ hk hc hnone)
      exact ⟨l, hl, fun tid j word hm => hquiet _ hm ⟨rfl, rfl⟩⟩

/-- The client's object is delivered before the manager's thread subscribes to its death. -/
def watchScript : Script :=
  exportScript ++ [(1, 320, Header.bytes ⟨16, 0, 640, 0, 0, 0⟩),
    (1, 640, Bytes.writeLE 4 BC.requestDeathNotification.word ++ Bytes.writeLE 4 1 ++
      Bytes.writeLE 8 99)]

def watchCalls : List Call := exportCalls ++ [.writeRead 1 1 320]

/-- The client's release queues the manager's subscription. -/
theorem watch_notified : Mourned 2 (replay watchScript watchCalls)
      ((replay watchScript watchCalls).releaseEndpoint 2) ∧
    (replay watchScript watchCalls).objects.deaths = [⟨1, 2, 99, 0, .armed, false⟩] ∧
      ((replay watchScript watchCalls).releaseEndpoint 2).objects.deaths =
        [⟨1, 2, 99, 0, .deathQueued, false⟩] :=
  ⟨(subscriptions_follow (replay_reachable watchScript watchCalls)).2.2.2.1 2 (by decide),
    by decide +kernel⟩

/-- An armed subscription need not be queued when its owner is released: the client's
unread call held the only count of its reference. -/
theorem watch_lost : ¬ (∀ s ∈ (replay mournScript exportCalls).objects.deaths, s.endpoint ≠ 0 →
    s.owner = 2 → s.state = .armed →
      ∃ s' ∈ ((replay mournScript exportCalls).releaseEndpoint 2).objects.deaths,
        s'.endpoint = s.endpoint ∧ s'.cookie = s.cookie ∧ s'.state = .deathQueued) := by
  decide +kernel

end Artbox.Binder
