import Artbox.Futex.Queue
import Mathlib.Algebra.BigOperators.Group.List.Basic

/-!
# What the queue owes its history

The invariant of the futex: who is in the queue, who was marked and what was returned agree.
Every step is made of four edits of the system, a call that is refused, a wait that joins the
queue, a call that marks and moves waiters, and a wait that leaves, and each keeps it.
-/

namespace Artbox.Futex

/-! ## Reading the history -/

namespace Event

/-- The waiters a call says it woke. -/
def woken : Event → Nat
  | woke _ n => n
  | requeued _ n _ => n
  | cleared _ n => n
  | _ => 0

/-- The waiter that was marked. -/
def markedId : Event → Option Nat
  | marked id => some id
  | _ => none

/-- The waiter that joined. -/
def registeredId : Event → Option Nat
  | registered id _ _ => some id
  | _ => none

/-- Where waiter `id` was moved. -/
def target (id : Nat) : Event → Option Nat
  | moved i t => if i = id then some t else none
  | _ => none

/-- The event is the report of a call that may have marked waiters. -/
def Reports : Event → Prop
  | woke _ _ => True
  | requeued _ _ _ => True
  | cleared _ _ => True
  | _ => False

/-- A report marks nobody, registers nobody and moves nobody. -/
theorem Reports.silent {e : Event} (he : e.Reports) :
    e.markedId = none ∧ e.registeredId = none ∧ ∀ id, e.target id = none := by
  cases e with
  | woke | requeued | cleared => exact ⟨rfl, rfl, fun _ => rfl⟩
  | _ => exact he.elim

end Event

/-- The waiters that were marked, the latest first. -/
def markedIds (h : List Event) : List Nat := h.filterMap Event.markedId

/-- The address a waiter that began at `start` waits for. -/
def addressOf (id start : Nat) (h : List Event) : Nat :=
  (h.filterMap (Event.target id)).head?.getD start

/-- The marked ids are those of the marks in the history. -/
theorem mem_markedIds {id : Nat} {h : List Event} : id ∈ markedIds h ↔ .marked id ∈ h := by
  rw [markedIds, List.mem_filterMap]
  constructor
  · rintro ⟨e, he, hid⟩
    cases e <;> cases hid
    exact he
  · exact fun hm => ⟨_, hm, rfl⟩

/-- An event that does not move a waiter leaves its address. -/
theorem addressOf_cons {e : Event} {id start : Nat} {h : List Event} (he : e.target id = none) :
    addressOf id start (e :: h) = addressOf id start h := by
  rw [addressOf, List.filterMap_cons_none he, addressOf]

/-! ## What a call does to the waiters -/

/-- A call changes no waiter's identity, mask or kind of key, and takes no mark away. -/
structure Revises (g : Waiter → Waiter) : Prop where
  id : ∀ w, (g w).id = w.id
  mask : ∀ w, (g w).mask = w.mask
  privateKey : ∀ w, (g w).privateKey = w.privateKey
  woken : ∀ w, w.woken = true → (g w).woken = true

/-- Revised waiters keep their ids. -/
theorem Revises.ids {g : Waiter → Waiter} (hg : Revises g) (l : List Waiter) :
    (l.map g).map (·.id) = l.map (·.id) := by
  rw [List.map_map]
  exact List.map_congr_left fun w _ => hg.id w

/-- Marking some waiters is a revision. -/
theorem revises_markAll (chosen : List Waiter) :
    Revises fun w => if w.id ∈ chosen.map (·.id) then w.mark else w := by
  constructor <;> intro w <;> split <;> intros <;> first | rfl | assumption

/-- Marking some waiters and moving others is a revision. -/
theorem revises_requeueAll (target : Nat) (woken moved : List Waiter) :
    Revises fun w => if w.id ∈ woken.map (·.id) then w.mark
      else if w.id ∈ moved.map (·.id) then w.move target else w := by
  constructor <;> intro w <;> split <;> (try split) <;> intros <;> first | rfl | assumption

namespace System

theorem zip_map_self (g : Waiter → Waiter) (l : List Waiter) :
    l.zip (l.map g) = l.map fun w => (w, g w) := by
  induction l with
  | nil => rfl
  | cons w l ih => rw [List.map_cons, List.zip_cons_cons, ih, List.map_cons]

/-- The new marks of a revised queue. -/
theorem marks_map (g : Waiter → Waiter) (l : List Waiter) :
    marks l (l.map g) = (l.filter fun w => !w.woken && (g w).woken).map (·.id) := by
  rw [marks, zip_map_self, List.filter_map, List.map_map]
  rfl

/-- The moves of a revised queue. -/
theorem moves_map (g : Waiter → Waiter) (l : List Waiter) :
    moves l (l.map g) =
      (l.filter fun w => w.address != (g w).address).map fun w => (w.id, (g w).address) := by
  rw [moves, zip_map_self, List.filter_map, List.map_map]
  rfl

/-- Marks depend only on who is woken. -/
theorem marks_congr {l after after' : List Waiter}
    (h : after.map (·.woken) = after'.map (·.woken)) : marks l after = marks l after' := by
  have hmarks : ∀ x : List Waiter, marks l x =
      ((l.zip (x.map (·.woken))).filter fun p => !p.1.woken && p.2).map (·.1.id) := by
    intro x
    rw [marks, List.zip_map_right, List.filter_map, List.map_map]
    rfl
  rw [hmarks, hmarks, h]

/-- The waiters a loop marks, in order. -/
theorem marks_editUpTo {p : Waiter → Bool} (hp : ∀ w, p w = true → w.woken = false) :
    ∀ (n : Nat) (l : List Waiter),
      marks l (Edit.editUpTo p Waiter.mark n l) = ((l.filter p).take n).map (·.id)
  | _, [] => by simp [marks]
  | 0, w :: l => by
    have hsame := marks_map id (w :: l)
    rw [List.map_id] at hsame
    rw [Edit.editUpTo_zero, hsame, List.take_zero]
    simp
  | n + 1, w :: l => by
    cases hw : p w with
    | false =>
      have ih := marks_editUpTo hp (n + 1) l
      rw [Edit.editUpTo_cons_neg hw, List.filter_cons_of_neg (by simp [hw]), ← ih, marks, marks,
        List.zip_cons_cons, List.filter_cons_of_neg (by simp)]
    | true =>
      have ih := marks_editUpTo hp n l
      rw [Edit.editUpTo_cons_pos hw, List.filter_cons_of_pos hw, List.take_succ_cons, List.map_cons,
        ← ih, marks, marks, List.zip_cons_cons, List.filter_cons_of_pos (by simp [hp w hw]),
        List.map_cons]

/-- The events of the marks and the moves of a call. -/
def news (before after : List Waiter) : List Event :=
  (marks before after).map .marked ++ (moves before after).map fun m => .moved m.1 m.2

section News

variable {g : Waiter → Waiter} {l : List Waiter} {h : List Event} {w : Waiter}

/-- Waiters of one queue with one identity are one. -/
theorem eq_of_id (hl : (l.map (·.id)).Nodup) {v : Waiter} (hv : v ∈ l) (hw : w ∈ l)
    (hid : v.id = w.id) : v = w :=
  List.inj_on_of_nodup_map hl hv hw hid

/-- News are a mark or a move of a waiter in the queue. -/
theorem mem_news {e : Event} (he : e ∈ news l (l.map g)) :
    (∃ w ∈ l, w.woken = false ∧ (g w).woken = true ∧ e = .marked w.id) ∨
      ∃ w ∈ l, w.address ≠ (g w).address ∧ e = .moved w.id (g w).address := by
  rw [news, marks_map, moves_map, List.map_map, List.map_map] at he
  rcases List.mem_append.1 he with he | he
  · obtain ⟨w, hw, rfl⟩ := List.mem_map.1 he
    obtain ⟨hw, hm⟩ := List.mem_filter.1 hw
    exact .inl ⟨w, hw, by simpa using hm⟩
  · obtain ⟨w, hw, rfl⟩ := List.mem_map.1 he
    obtain ⟨hw, hm⟩ := List.mem_filter.1 hw
    exact .inr ⟨w, hw, by simpa using hm, rfl⟩

/-- A mark is news for the waiters that were not woken before. -/
theorem marked_mem_news (hl : (l.map (·.id)).Nodup) (hw : w ∈ l) :
    .marked w.id ∈ news l (l.map g) ↔ w.woken = false ∧ (g w).woken = true := by
  constructor
  · intro he
    obtain ⟨v, hv, h1, h2, heq⟩ | ⟨v, _, _, heq⟩ := mem_news he
    · rw [eq_of_id hl hw hv (Event.marked.inj heq)]
      exact ⟨h1, h2⟩
    · cases heq
  · rintro ⟨h1, h2⟩
    rw [news, marks_map, List.map_map]
    refine List.mem_append_left _ (List.mem_map.2 ⟨w, List.mem_filter.2 ⟨hw, ?_⟩, rfl⟩)
    rw [h1, h2]
    rfl

/-- The news add the new marks to the marked ids. -/
theorem markedIds_news : markedIds (news l (l.map g) ++ h) = marks l (l.map g) ++ markedIds h := by
  have h1 : ∀ m : List Nat, (m.map Event.marked).filterMap Event.markedId = m := by
    intro m
    rw [List.filterMap_map]
    exact List.filterMap_some
  have h2 : ∀ m : List (Nat × Nat),
      (m.map fun p => Event.moved p.1 p.2).filterMap Event.markedId = [] := by
    intro m
    rw [List.filterMap_map]
    exact List.filterMap_eq_nil_iff.2 fun _ _ => rfl
  rw [markedIds, markedIds, List.filterMap_append, news, List.filterMap_append, h1, h2,
    List.append_nil]

/-- After the moves every waiter waits for the address it now has. -/
theorem addressOf_news (hl : (l.map (·.id)).Nodup) (hw : w ∈ l) {start : Nat}
    (ha : w.address = addressOf w.id start h) :
    (g w).address = addressOf w.id start (news l (l.map g) ++ h) := by
  have hall : ∀ t ∈ (news l (l.map g)).filterMap (Event.target w.id),
      t = (g w).address ∧ w.address ≠ (g w).address := by
    intro t ht
    obtain ⟨e, he, het⟩ := List.mem_filterMap.1 ht
    obtain ⟨v, _, _, _, rfl⟩ | ⟨v, hv, hne, rfl⟩ := mem_news he
    · cases het
    · rw [Event.target, Option.ite_none_right_eq_some] at het
      obtain ⟨hid, heq⟩ := het
      obtain rfl := eq_of_id hl hv hw hid
      exact ⟨(Option.some.inj heq).symm, hne⟩
  rw [addressOf, List.filterMap_append]
  cases hnew : (news l (l.map g)).filterMap (Event.target w.id) with
  | cons t rest =>
    rw [hnew] at hall
    exact (hall t List.mem_cons_self).1.symm
  | nil =>
    rw [List.nil_append]
    by_cases hmv : w.address = (g w).address
    · rw [← hmv]
      exact ha
    · have hmem : (g w).address ∈ (news l (l.map g)).filterMap (Event.target w.id) := by
        refine List.mem_filterMap.2 ⟨.moved w.id (g w).address, ?_, if_pos rfl⟩
        rw [news, moves_map, List.map_map]
        refine List.mem_append_right _ (List.mem_map.2 ⟨w, List.mem_filter.2 ⟨hw, ?_⟩, rfl⟩)
        exact bne_iff_ne.2 hmv
      rw [hnew] at hmem
      cases hmem

end News

/-! ## The invariant -/

variable {ω : Type} {s s' : System ω}

/-- The queue, the waits in progress and the history agree. -/
structure Ledger (s : System ω) : Prop where
  /-- The queue is in the order of registration. -/
  sorted : (s.active.map (·.id)).Pairwise (· < ·)
  fresh : ∀ w ∈ s.active, w.id < s.nextId
  issued : (s.history.filterMap Event.registeredId).reverse = List.range s.nextId
  asleep : (s.sleepers.map (·.id)).Nodup
  waiting : ∀ p ∈ s.sleepers, ∃ w ∈ s.active, w.id = p.id
  marked : ∀ w ∈ s.active, w.woken = true ↔ .marked w.id ∈ s.history
  once : (markedIds s.history).Nodup
  known : ∀ id, .marked id ∈ s.history → id < s.nextId
  moved : ∀ id t, .moved id t ∈ s.history → id < s.nextId
  returned : ∀ id r, .returned id r ∈ s.history →
    id < s.nextId ∧ (∀ w ∈ s.active, w.id ≠ id) ∧ (r = 0 ↔ .marked id ∈ s.history)
  present : ∀ id r v, .registered id r v ∈ s.history → id < s.nextId ∧ v = r.value ∧
    ((∃ result, .returned id result ∈ s.history) ∨
      ∃ w ∈ s.active, w.id = id ∧ w.mask = r.mask ∧ w.privateKey = r.privateKey ∧
        w.address = addressOf id r.address s.history)
  refused : ∀ r, .refused r ∈ s.history → r ≠ 0
  total : (s.history.map Event.woken).sum = (markedIds s.history).length

namespace Ledger

/-- No two waiters have one id. -/
theorem ids (h : s.Ledger) : (s.active.map (·.id)).Nodup :=
  h.sorted.imp fun hlt => Nat.ne_of_lt hlt

/-- The invariant is about four fields. -/
theorem congr (h : s.Ledger) (ha : s'.active = s.active) (hs : s'.sleepers = s.sleepers)
    (hn : s'.nextId = s.nextId) (hh : s'.history = s.history) : s'.Ledger := by
  cases s
  cases s'
  obtain rfl : _ = _ := ha
  obtain rfl : _ = _ := hs
  obtain rfl : _ = _ := hn
  obtain rfl : _ = _ := hh
  exact ⟨h.sorted, h.fresh, h.issued, h.asleep, h.waiting, h.marked, h.once, h.known, h.moved,
    h.returned, h.present, h.refused, h.total⟩

/-- A call is refused. -/
theorem refuse (h : s.Ledger) {r : Int} (hr : r ≠ 0) : (s.record (.refused r)).Ledger where
  sorted := h.sorted
  fresh := h.fresh
  issued := h.issued
  asleep := h.asleep
  waiting := h.waiting
  marked w hw := by
    rw [h.marked w hw]
    simp [record]
  once := h.once
  known id hm := h.known id (by simpa [record] using hm)
  moved id t hm := h.moved id t (by simpa [record] using hm)
  returned id r hm := by
    obtain ⟨h1, h2, h3⟩ := h.returned id r (by simpa [record] using hm)
    refine ⟨h1, h2, ?_⟩
    rw [h3]
    simp [record]
  present id q v hm := by
    obtain ⟨h1, h2, h3⟩ := h.present id q v (by simpa [record] using hm)
    refine ⟨h1, h2, h3.imp (fun ⟨r, hr⟩ => ⟨r, List.mem_cons_of_mem _ hr⟩) fun hw => ?_⟩
    obtain ⟨w, hw, hid, hmask, hkey, ha⟩ := hw
    exact ⟨w, hw, hid, hmask, hkey, ha.trans (addressOf_cons rfl).symm⟩
  refused r' hm := by
    rcases List.mem_cons.1 hm with heq | hm
    · cases heq
      exact hr
    · exact h.refused r' hm
  total := (Nat.zero_add _).trans h.total

/-- A wait that found its word joins the queue. -/
theorem register (h : s.Ledger) (r : WaitRequest) :
    ({ s with
        active := s.active ++ [(⟨s.nextId, r.address, r.mask, r.privateKey, false⟩ : Waiter)]
        nextId := s.nextId + 1
        history := .registered s.nextId r r.value :: s.history } : System ω).Ledger where
  sorted := by
    rw [List.map_append, List.pairwise_append]
    refine ⟨h.sorted, List.pairwise_singleton _ _, fun i hi j hj => ?_⟩
    obtain ⟨w, hw, rfl⟩ := List.mem_map.1 hi
    obtain rfl : j = s.nextId := by simpa using hj
    exact h.fresh w hw
  fresh w hw := by
    rcases List.mem_append.1 hw with hw | hw
    · exact Nat.lt_succ_of_lt (h.fresh w hw)
    · obtain rfl := List.mem_singleton.1 hw
      exact Nat.lt_succ_self _
  issued := by
    rw [List.filterMap_cons_some (rfl : Event.registeredId _ = some _), List.reverse_cons, h.issued,
      List.range_succ]
  asleep := h.asleep
  waiting p hp := by
    obtain ⟨w, hw, hid⟩ := h.waiting p hp
    exact ⟨w, List.mem_append_left _ hw, hid⟩
  marked w hw := by
    rw [List.mem_cons, or_iff_right nofun]
    rcases List.mem_append.1 hw with hw | hw
    · exact h.marked w hw
    · obtain rfl := List.mem_singleton.1 hw
      refine iff_of_false nofun fun hm => ?_
      exact Nat.lt_irrefl _ (h.known _ hm)
  once := h.once
  known id hm := Nat.lt_succ_of_lt (h.known id (by simpa using hm))
  moved id t hm := Nat.lt_succ_of_lt (h.moved id t (by simpa using hm))
  returned id r' hm := by
    obtain ⟨h1, h2, h3⟩ := h.returned id r' (by simpa using hm)
    refine ⟨Nat.lt_succ_of_lt h1, fun w hw => ?_, ?_⟩
    · rcases List.mem_append.1 hw with hw | hw
      · exact h2 w hw
      · obtain rfl := List.mem_singleton.1 hw
        exact Nat.ne_of_gt h1
    · rw [h3]
      simp
  present id q v hm := by
    rcases List.mem_cons.1 hm with heq | hm
    · cases heq
      refine ⟨Nat.lt_succ_self _, rfl, .inr ⟨_, List.mem_append_right _ (List.mem_singleton.2 rfl), rfl,
        rfl, rfl, ?_⟩⟩
      -- nothing has happened yet to this identity
      rw [addressOf_cons rfl, addressOf]
      have hnone : s.history.filterMap (Event.target s.nextId) = [] := by
        refine List.filterMap_eq_nil_iff.2 fun e he => ?_
        cases e with
        | moved i t =>
          have hne : i ≠ s.nextId := Nat.ne_of_lt (h.moved i t he)
          exact if_neg hne
        | _ => rfl
      rw [hnone]
      rfl
    · obtain ⟨h1, h2, h3⟩ := h.present id q v hm
      refine ⟨Nat.lt_succ_of_lt h1, h2, h3.imp (fun ⟨r, hr⟩ => ⟨r, List.mem_cons_of_mem _ hr⟩)
        fun hw => ?_⟩
      obtain ⟨w, hw, hid, hmask, hkey, ha⟩ := hw
      exact ⟨w, List.mem_append_left _ hw, hid, hmask, hkey, ha.trans (addressOf_cons rfl).symm⟩
  refused r' hm := h.refused r' (by simpa using hm)
  total := (Nat.zero_add _).trans h.total

/-- A call marks and moves waiters and says how many it marked. -/
theorem revise (h : s.Ledger) {g : Waiter → Waiter} (hg : Revises g) {e : Event} (he : e.Reports)
    (hn : e.woken = (marks s.active (s.active.map g)).length) :
    ((s.requeueTo (s.active.map g)).record e).Ledger := by
  obtain ⟨hsilent, hjoins, hmoves⟩ := he.silent
  have hnews : ((s.requeueTo (s.active.map g)).record e).history =
      e :: (news s.active (s.active.map g) ++ s.history) := rfl
  -- what the call adds is its report, marks and moves
  have hold : ∀ x : Event, ¬ x.Reports → (∀ id, x ≠ .marked id) → (∀ id t, x ≠ .moved id t) →
      x ∈ e :: (news s.active (s.active.map g) ++ s.history) → x ∈ s.history := by
    intro x hr hm hv hx
    rcases List.mem_cons.1 hx with rfl | hx
    · exact absurd he hr
    · rcases List.mem_append.1 hx with hx | hx
      · obtain ⟨w, _, _, _, heq⟩ | ⟨w, _, _, heq⟩ := mem_news hx
        · exact absurd heq (hm _)
        · exact absurd heq (hv _ _)
      · exact hx
  have hkeep : ∀ x ∈ s.history, x ∈ e :: (news s.active (s.active.map g) ++ s.history) :=
    fun x hx => List.mem_cons_of_mem _ (List.mem_append_right _ hx)
  have hmarked : ∀ id, .marked id ∈ e :: (news s.active (s.active.map g) ++ s.history) ↔
      .marked id ∈ news s.active (s.active.map g) ∨ .marked id ∈ s.history := by
    intro id
    rw [List.mem_cons, or_iff_right, List.mem_append]
    rintro rfl
    exact he
  refine ⟨?_, ?_, ?_, h.asleep, ?_, ?_, ?_, ?_, ?_, ?_, ?_, ?_, ?_⟩
  · show ((s.active.map g).map (·.id)).Pairwise _
    rw [hg.ids]
    exact h.sorted
  · intro w hw
    obtain ⟨v, hv, rfl⟩ := List.mem_map.1 hw
    rw [hg.id]
    exact h.fresh v hv
  · rw [hnews, List.filterMap_cons_none hjoins, List.filterMap_append, List.filterMap_eq_nil_iff.2, List.nil_append]
    · exact h.issued
    · intro x hx
      obtain ⟨w, _, _, _, rfl⟩ | ⟨w, _, _, rfl⟩ := mem_news hx <;> rfl
  · intro p hp
    obtain ⟨w, hw, hid⟩ := h.waiting p hp
    exact ⟨g w, List.mem_map_of_mem hw, (hg.id w).trans hid⟩
  · intro w hw
    obtain ⟨v, hv, rfl⟩ := List.mem_map.1 hw
    rw [hnews, hmarked, hg.id, marked_mem_news h.ids hv, ← h.marked v hv]
    cases hvw : v.woken with
    | true => simp [hg.woken v hvw]
    | false => simp
  · rw [hnews, markedIds, List.filterMap_cons_none hsilent]
    show (markedIds (_ ++ _)).Nodup
    rw [markedIds_news, List.nodup_append]
    refine ⟨?_, h.once, ?_⟩
    · rw [marks_map]
      exact h.ids.sublist (List.filter_sublist.map _)
    · rintro id hid _ hold rfl
      rw [marks_map] at hid
      obtain ⟨w, hw, rfl⟩ := List.mem_map.1 hid
      obtain ⟨hw, hm⟩ := List.mem_filter.1 hw
      rw [mem_markedIds, ← h.marked w hw] at hold
      simp [hold] at hm
  · intro id hm
    rcases (hmarked id).1 hm with hm | hm
    · obtain ⟨w, hw, _, _, heq⟩ | ⟨_, _, _, heq⟩ := mem_news hm
      · cases heq
        exact h.fresh w hw
      · cases heq
    · exact h.known id hm
  · intro id t hm
    rcases List.mem_cons.1 hm with rfl | hm
    · exact he.elim
    · rcases List.mem_append.1 hm with hm | hm
      · obtain ⟨_, _, _, _, heq⟩ | ⟨w, hw, _, heq⟩ := mem_news hm
        · cases heq
        · cases heq
          exact h.fresh w hw
      · exact h.moved id t hm
  · intro id r hm
    obtain ⟨h1, h2, h3⟩ := h.returned id r (hold _ (fun h => h) (by simp) (by simp) hm)
    refine ⟨h1, fun w hw => ?_, ?_⟩
    · obtain ⟨v, hv, rfl⟩ := List.mem_map.1 hw
      rw [hg.id]
      exact h2 v hv
    · rw [h3, hnews, hmarked, or_iff_right]
      intro hm
      obtain ⟨w, hw, _, _, heq⟩ | ⟨_, _, _, heq⟩ := mem_news hm
      · cases heq
        exact h2 w hw rfl
      · cases heq
  · intro id q v hm
    obtain ⟨h1, h2, h3⟩ := h.present id q v (hold _ (fun h => h) (by simp) (by simp) hm)
    refine ⟨h1, h2, h3.imp (fun ⟨r, hr⟩ => ⟨r, hkeep _ hr⟩) fun hw => ?_⟩
    obtain ⟨w, hw, rfl, hmask, hkey, ha⟩ := hw
    refine ⟨g w, List.mem_map_of_mem hw, hg.id w, (hg.mask w).trans hmask, (hg.privateKey w).trans hkey,
      ?_⟩
    rw [hnews, addressOf_cons (hmoves _)]
    exact addressOf_news h.ids hw ha
  · intro r hm
    exact h.refused r (hold _ (fun h => h) (by simp) (by simp) hm)
  · have hzero : ((news s.active (s.active.map g)).map Event.woken).sum = 0 := by
      refine List.sum_eq_zero fun n hn => ?_
      obtain ⟨x, hx, rfl⟩ := List.mem_map.1 hn
      obtain ⟨w, _, _, _, rfl⟩ | ⟨w, _, _, rfl⟩ := mem_news hx <;> rfl
    have hlen : markedIds (e :: (news s.active (s.active.map g) ++ s.history)) =
        markedIds (news s.active (s.active.map g) ++ s.history) := List.filterMap_cons_none hsilent
    rw [hnews, hlen, markedIds_news, List.length_append, List.map_cons, List.map_append,
      List.sum_cons, List.sum_append, hzero, hn, h.total, Nat.zero_add]

/-- A waiter that returns leaves the queue, and all others stay. -/
theorem mem_leave (h : s.Ledger) {id : Nat} {r : Int} {w : Waiter} :
    w ∈ (s.leave id r).active ↔ w ∈ s.active ∧ w.id ≠ id := by
  show w ∈ s.active.eraseP _ ↔ _
  constructor
  · intro hw
    refine ⟨List.mem_of_mem_eraseP hw, fun hid => ?_⟩
    obtain ⟨a, l₁, l₂, _, ha, hsplit, herase⟩ :=
      List.exists_of_eraseP (p := fun w => w.id == id) (List.mem_of_mem_eraseP hw)
        (beq_iff_eq.2 hid)
    have hnd := h.ids
    rw [herase] at hw
    rw [hsplit, List.map_append, List.map_cons, List.nodup_middle, List.nodup_cons] at hnd
    refine hnd.1 ?_
    rw [eq_of_beq ha, ← hid, ← List.map_append]
    exact List.mem_map_of_mem hw
  · rintro ⟨hw, hid⟩
    exact (List.mem_eraseP_of_neg (by simpa using hid)).2 hw

/-- A waiter leaves the queue; its result is zero exactly if it has its mark. -/
theorem leave (h : s.Ledger) {w : Waiter} (hw : w ∈ s.active) {r : Int}
    (hs : ∀ p ∈ s.sleepers, p.id ≠ w.id) (hr : r = 0 ↔ w.woken = true) :
    (s.leave w.id r).Ledger where
  sorted := h.sorted.sublist (List.eraseP_sublist.map _)
  fresh v hv := h.fresh v (h.mem_leave.1 hv).1
  issued := h.issued
  asleep := h.asleep
  waiting p hp := by
    obtain ⟨v, hv, hid⟩ := h.waiting p hp
    exact ⟨v, h.mem_leave.2 ⟨hv, hid ▸ hs p hp⟩, hid⟩
  marked v hv := by
    rw [h.marked v (h.mem_leave.1 hv).1]
    simp [System.leave, record]
  once := h.once
  known id hm := h.known id (by simpa [System.leave, record] using hm)
  moved id t hm := h.moved id t (by simpa [System.leave, record] using hm)
  returned id q hm := by
    have hkeep : ∀ id, .marked id ∈ (s.leave w.id r).history ↔ .marked id ∈ s.history := by
      simp [System.leave, record]
    rw [hkeep]
    rcases List.mem_cons.1 hm with heq | hm
    · cases heq
      exact ⟨h.fresh w hw, fun v hv => (h.mem_leave.1 hv).2, hr.trans (h.marked w hw)⟩
    · obtain ⟨h1, h2, h3⟩ := h.returned id q hm
      exact ⟨h1, fun v hv => h2 v (h.mem_leave.1 hv).1, h3⟩
  present id q v hm := by
    obtain ⟨h1, h2, h3⟩ := h.present id q v (by simpa [System.leave, record] using hm)
    refine ⟨h1, h2, ?_⟩
    rcases h3 with ⟨q, hq⟩ | ⟨x, hx, rfl, hmask, hkey, ha⟩
    · exact .inl ⟨q, List.mem_cons_of_mem _ hq⟩
    · by_cases hid : x.id = w.id
      · exact .inl ⟨r, hid ▸ List.mem_cons_self⟩
      · exact .inr ⟨x, h.mem_leave.2 ⟨hx, hid⟩, rfl, hmask, hkey, ha.trans (addressOf_cons rfl).symm⟩
  refused q hm := h.refused q (by simpa [System.leave, record] using hm)
  total := (Nat.zero_add _).trans h.total

end Ledger

end System

end Artbox.Futex
