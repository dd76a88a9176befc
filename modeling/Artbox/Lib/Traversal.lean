import Mathlib.Logic.Relation
import Mathlib.Logic.Function.Basic
import Mathlib.Data.List.Basic
import Mathlib.Data.List.Perm.Basic
import Mathlib.Data.List.Nodup
import Mathlib.Data.List.Induction
import Mathlib.Data.List.Perm.Subperm
import Mathlib.Tactic.Common

/-!
# Graph traversals

A graph is a function `next` from a node to the nodes it names, in an order that matters. Two
loops over it are here: the queue that finds nodes breadth first and the recursion that puts a
node behind what it names. Both mark a node when they first meet it, so a cycle ends them. What
each computes is said without the marks, by `BreadthFirst` and `Settled`.
-/

namespace Traversal

variable {α β : Type*}

/-- There is a path from one node to another. -/
def Reaches (next : α → List α) : α → α → Prop := Relation.ReflTransGen fun x y => y ∈ next x

/-- There is a path of at least one edge. -/
def Depends (next : α → List α) : α → α → Prop := Relation.TransGen fun x y => y ∈ next x

/-- A set of nodes that is closed under `next` has all that is reached from it. -/
theorem Reaches.mem {next : α → List α} {P : α → Prop} (hclosed : ∀ x, P x → ∀ y ∈ next x, P y) {x y : α}
    (hx : P x) (h : Reaches next x y) : P y := by
  induction h with
  | refl => exact hx
  | tail _ hstep ih => exact hclosed _ ih _ hstep

/-- The nodes that are marked, and nodes in the order they were put in. -/
structure Found (α : Type*) where
  marked : α → Bool
  order : List α

namespace Found

/-- Nothing has been met. -/
def start : Found α := ⟨fun _ => false, []⟩

/-- Put a node behind the others. -/
def put (s : Found α) (x : α) : Found α := { s with order := s.order ++ [x] }

/-- What is put in order is not marked by that. -/
@[simp] theorem put_marked (s : Found α) (x : α) : (s.put x).marked = s.marked := rfl

/-- What is put comes last. -/
@[simp] theorem put_order (s : Found α) (x : α) : (s.put x).order = s.order ++ [x] := rfl

/-- Whatever is marked is in the order, and nothing else. -/
def Exact (s : Found α) : Prop := ∀ x, s.marked x = true ↔ x ∈ s.order

/-- At the start exactly what is in order is marked. -/
theorem exact_start : (start : Found α).Exact := by
  intro x
  simp [start]

variable [DecidableEq α]

/-- Mark a node. -/
def mark (s : Found α) (x : α) : Found α := { s with marked := Function.update s.marked x true }

/-- Mark a node and put it behind the others, if it is not marked. -/
def push (s : Found α) (x : α) : Found α := if s.marked x then s else (s.mark x).put x

/-- Push nodes one after another. -/
def pushAll (s : Found α) (l : List α) : Found α := l.foldl push s

/-- A mark leaves the order. -/
@[simp] theorem mark_order (s : Found α) (x : α) : (s.mark x).order = s.order := rfl

/-- To push nothing changes nothing. -/
@[simp] theorem pushAll_nil (s : Found α) : s.pushAll [] = s := rfl

/-- To push a list is to push its first member and then the others. -/
@[simp] theorem pushAll_cons (s : Found α) (x : α) (l : List α) :
    s.pushAll (x :: l) = (s.push x).pushAll l := rfl

/-- A mark is that of the new member and the old ones. -/
theorem mark_marked (s : Found α) (x y : α) : (s.mark x).marked y = true ↔ y = x ∨ s.marked y = true := by
  show Function.update s.marked x true y = true ↔ _
  by_cases h : y = x
  · subst h
    simp
  · simp [h]

/-- What is pushed is marked and in order. -/
theorem Exact.push {s : Found α} (h : s.Exact) (x : α) : (s.push x).Exact := by
  unfold Found.push
  split
  · exact h
  · intro y
    rw [put_marked, mark_marked, put_order, mark_order, List.mem_append, List.mem_singleton, h y, or_comm]

/-- All that is pushed is marked and in order. -/
theorem Exact.pushAll {s : Found α} (h : s.Exact) (l : List α) : (s.pushAll l).Exact := by
  induction l generalizing s with
  | nil => exact h
  | cons x l ih => exact ih (h.push x)

end Found

variable [DecidableEq α]

/-! ## First mentions -/

/-- One more member is put at the end unless it is there. -/
theorem eraseDups_concat (l : List α) (x : α) :
    (l ++ [x]).eraseDups = if x ∈ l then l.eraseDups else l.eraseDups ++ [x] := by
  rw [List.eraseDups_append]
  by_cases h : x ∈ l
  · rw [if_pos h]
    have hnil : [x].removeAll l = [] := by simp [List.removeAll, h]
    rw [hnil, List.eraseDups_nil, List.append_nil]
  · rw [if_neg h]
    have hone : [x].removeAll l = [x] := by simp [List.removeAll, h]
    rw [hone]
    rfl

/-- A push puts what is first mentioned. -/
theorem Found.push_order {s : Found α} (h : s.Exact) {l : List α} (hl : s.order = l.eraseDups) (x : α) :
    (s.push x).order = (l ++ [x]).eraseDups := by
  have hmem : s.marked x = true ↔ x ∈ l := by rw [h x, hl, List.mem_eraseDups]
  unfold Found.push
  rw [eraseDups_concat]
  split
  next hmarked => rw [if_pos (hmem.1 hmarked), hl]
  next hmarked =>
    rw [if_neg (fun hx => hmarked (hmem.2 hx)), ← hl]
    rfl

/-- What is pushed to a list without repetitions extends it without repetitions. -/
theorem Found.pushAll_order {s : Found α} (h : s.Exact) {l : List α} (hl : s.order = l.eraseDups)
    (xs : List α) : (s.pushAll xs).order = (l ++ xs).eraseDups := by
  induction xs generalizing s l with
  | nil => rw [List.append_nil, Found.pushAll_nil, hl]
  | cons x xs ih =>
    rw [Found.pushAll_cons, ih (h.push x) (Found.push_order h hl x), List.append_assoc]
    rfl

/-- Without repetitions a prefix stays one. -/
theorem eraseDups_prefix (l l' : List α) : l.eraseDups <+: (l ++ l').eraseDups := by
  rw [List.eraseDups_append]
  exact List.prefix_append ..

/-- A list without its repetitions has none. -/
theorem nodup_eraseDups (l : List α) : l.eraseDups.Nodup := by
  induction l using List.reverseRecOn with
  | nil => exact List.nodup_nil
  | append_singleton l x ih =>
    rw [eraseDups_concat]
    split
    · exact ih
    next h =>
      refine List.nodup_append.2 ⟨ih, List.nodup_singleton x, ?_⟩
      intro a ha b hb hab
      rw [List.mem_singleton.1 hb] at hab
      exact h (List.mem_eraseDups.1 (hab ▸ ha))

/-- To push does not change the order so far. -/
theorem Found.prefix_pushAll (s : Found α) (l : List α) : s.order <+: (s.pushAll l).order := by
  induction l generalizing s with
  | nil => exact List.prefix_rfl
  | cons x l ih =>
    refine List.IsPrefix.trans ?_ (ih (s.push x))
    unfold Found.push
    split
    · exact List.prefix_rfl
    · exact List.prefix_append ..

/-! ## Breadth first -/

/-- The nodes that are reached from a root, each where it is first named: by the root of the
search or else by the first node in the order that names it. -/
structure BreadthFirst (next : α → List α) (root : α) (order : List α) : Prop where
  mem_iff : ∀ y, y ∈ order ↔ Reaches next root y
  mentions : order = (root :: order.flatMap next).eraseDups

/-- What is named within a number of rounds. -/
def mentioned (next : α → List α) (root : α) : Nat → List α
  | 0 => []
  | n + 1 => (root :: (mentioned next root n).flatMap next).eraseDups

/-- A node is at most so many edges from the root. -/
def Within (next : α → List α) (root : α) : Nat → α → Prop
  | 0, y => y = root
  | n + 1, y => y = root ∨ ∃ z, Within next root n z ∧ y ∈ next z

omit [DecidableEq α] in
/-- What is found within some rounds is reachable. -/
theorem Within.reaches {next : α → List α} {root : α} {n : Nat} {y : α} (h : Within next root n y) :
    Reaches next root y := by
  induction n generalizing y with
  | zero =>
    obtain rfl : y = root := h
    exact .refl
  | succ n ih =>
    rcases h with rfl | ⟨z, hz, hyz⟩
    · exact .refl
    · exact (ih hz).tail hyz

namespace BreadthFirst

variable {next : α → List α} {root : α} {order : List α}

/-- A breadth-first order has no repetitions. -/
theorem nodup (h : BreadthFirst next root order) : order.Nodup := by
  rw [h.mentions]
  exact nodup_eraseDups _

/-- A breadth-first order begins with its root. -/
theorem head (h : BreadthFirst next root order) : order.head? = some root := by
  rw [h.mentions, List.eraseDups_cons]
  rfl

/-- What the first members mention is a prefix of a breadth-first order. -/
theorem mentioned_prefix (h : BreadthFirst next root order) (n : Nat) : mentioned next root n <+: order := by
  induction n with
  | zero => exact List.nil_prefix
  | succ n ih =>
    obtain ⟨rest, hrest⟩ := ih
    have hmentions := h.mentions
    rw [← hrest, List.flatMap_append, ← List.cons_append, hrest] at hmentions
    rw [hmentions]
    exact eraseDups_prefix _ _

/-- A round names something new until all nodes are named. -/
theorem mentioned_eq (h : BreadthFirst next root order) {n : Nat} (hn : order.length ≤ n) :
    mentioned next root n = order := by
  have hgrow : ∀ n, n ≤ (mentioned next root n).length ∨ mentioned next root n = order := by
    intro n
    induction n with
    | zero => exact .inl (Nat.zero_le _)
    | succ n ih =>
      rcases ih with hlong | hall
      · rcases Nat.lt_or_ge n (mentioned next root (n + 1)).length with hlt | hge
        · exact .inl hlt
        · -- the round named nothing new, so what was named before is closed
          right
          have hback : mentioned next root (n + 1) <+: mentioned next root n :=
            List.prefix_of_prefix_length_le (h.mentioned_prefix _) (h.mentioned_prefix _) (Nat.le_trans hge hlong)
          have hin : ∀ y ∈ root :: (mentioned next root n).flatMap next, y ∈ mentioned next root n :=
            fun y hy => hback.subset (List.mem_eraseDups.2 hy)
          have hclosed : ∀ x ∈ mentioned next root n, ∀ y ∈ next x, y ∈ mentioned next root n :=
            fun x hx y hy => hin y (List.mem_cons_of_mem _ (List.mem_flatMap.2 ⟨x, hx, hy⟩))
          have hsub : order ⊆ mentioned next root n := fun z hz =>
            Reaches.mem hclosed (hin root List.mem_cons_self) ((h.mem_iff z).1 hz)
          have heq : mentioned next root n = order :=
            (h.mentioned_prefix n).eq_of_length_le (h.nodup.subperm hsub).length_le
          show (root :: (mentioned next root n).flatMap next).eraseDups = order
          rw [heq, ← h.mentions]
      · right
        show (root :: (mentioned next root n).flatMap next).eraseDups = order
        rw [hall, ← h.mentions]
  rcases hgrow n with hlong | hall
  · exact (h.mentioned_prefix n).eq_of_length_le (Nat.le_trans hn hlong)
  · exact hall

/-- There is one such order. -/
theorem unique (h : BreadthFirst next root order) {order' : List α} (h' : BreadthFirst next root order') :
    order = order' := by
  rw [← h.mentioned_eq (Nat.le_max_left order.length order'.length),
    h'.mentioned_eq (Nat.le_max_right order.length order'.length)]

/-- If a part of a list names the later of two first mentions, it names the earlier. -/
theorem mem_of_sublist {x y : α} {l l' : List α} (h : [x, y].Sublist (l ++ l').eraseDups) (hy : y ∈ l) :
    x ∈ l := by
  have hnodup := nodup_eraseDups (l ++ l')
  rw [List.eraseDups_append] at h hnodup
  obtain ⟨k, k', hk, hx, hyk⟩ := List.sublist_append_iff.1 h
  cases k with
  | nil =>
    have hyr : y ∈ (l'.removeAll l).eraseDups := hyk.subset (by
      rw [← (show [x, y] = k' from hk)]
      simp)
    exact absurd rfl ((List.nodup_append.1 hnodup).2.2 y (List.mem_eraseDups.2 hy) y hyr)
  | cons a k =>
    obtain rfl : x = a := (List.cons.inj hk).1
    exact List.mem_eraseDups.1 (hx.subset List.mem_cons_self)

/-- The root is before all others. -/
theorem eq_root (h : BreadthFirst next root order) {x : α} (hx : [x, root].Sublist order) : x = root := by
  rw [h.mentions] at hx
  exact List.mem_singleton.1 (mem_of_sublist (l := [root]) hx List.mem_cons_self)

/-- What is before a node is the root, or is named by a node no later than one that names the node. -/
theorem named_before (h : BreadthFirst next root order) {x y z : α} (hxy : [x, y].Sublist order)
    (hz : z ∈ order) (hyz : y ∈ next z) :
    x = root ∨ ∃ w, (w = z ∨ [w, z].Sublist order) ∧ x ∈ next w := by
  obtain ⟨a, b, hab⟩ := List.append_of_mem hz
  have hsplit : root :: order.flatMap next = (root :: (a ++ [z]).flatMap next) ++ b.flatMap next := by
    rw [hab, ← List.singleton_append (l := b), ← List.append_assoc, List.flatMap_append]
    rfl
  have hmentions := h.mentions
  rw [hsplit] at hmentions
  rw [hmentions] at hxy
  have hyl : y ∈ (a ++ [z]).flatMap next := List.mem_flatMap.2 ⟨z, by simp, hyz⟩
  rcases List.mem_cons.1 (mem_of_sublist hxy (List.mem_cons_of_mem _ hyl)) with hroot | hx
  · exact .inl hroot
  · obtain ⟨w, hw, hxw⟩ := List.mem_flatMap.1 hx
    refine .inr ⟨w, ?_, hxw⟩
    rcases List.mem_append.1 hw with hwa | hwz
    · right
      rw [hab]
      have hs : [w].Sublist a := List.singleton_sublist.2 hwa
      exact hs.append (List.singleton_sublist.2 List.mem_cons_self)
    · exact .inl (List.mem_singleton.1 hwz)

/-- What comes earlier is not further from the root. -/
theorem within (h : BreadthFirst next root order) {n : Nat} {x y : α} (hxy : [x, y].Sublist order)
    (hy : Within next root n y) : Within next root n x := by
  induction n generalizing x y with
  | zero =>
    obtain rfl : y = root := hy
    exact h.eq_root hxy
  | succ n ih =>
    rcases hy with rfl | ⟨z, hz, hyz⟩
    · exact .inl (h.eq_root hxy)
    · rcases h.named_before hxy ((h.mem_iff z).2 hz.reaches) hyz with hroot | ⟨w, rfl | hwz, hxw⟩
      · exact .inl hroot
      · exact .inr ⟨w, hz, hxw⟩
      · exact .inr ⟨w, ih hwz hz, hxw⟩

omit [DecidableEq α] in
/-- What is reachable depends only on the successors of what is reachable. -/
theorem reaches_congr {next next' : α → List α} {x y : α} (h : Reaches next x y)
    (hnext : ∀ z, Reaches next x z → next' z = next z) : Reaches next' x y := by
  induction h with
  | refl => exact .refl
  | tail hmid hstep ih => exact ih.tail (by rwa [hnext _ hmid])

/-- Another graph has the same order if it agrees on the nodes in it. -/
theorem congr (h : BreadthFirst next root order) {next' : α → List α} (hnext : ∀ x ∈ order, next' x = next x) :
    BreadthFirst next' root order := by
  refine ⟨fun y => ⟨fun hy => ?_, fun hy => ?_⟩, ?_⟩
  · exact reaches_congr ((h.mem_iff y).1 hy) fun z hz => hnext z ((h.mem_iff z).2 hz)
  · refine Reaches.mem (P := (· ∈ order)) (fun x hx z hz => ?_) ((h.mem_iff root).2 .refl) hy
    rw [hnext x hx] at hz
    exact (h.mem_iff z).2 (((h.mem_iff x).1 hx).tail hz)
  · have hflat : order.flatMap next' = order.flatMap next :=
      List.flatMap_congr hnext
    rw [hflat]
    exact h.mentions

end BreadthFirst

/-- The loop over the queue: the node at the cursor pushes what it names. -/
def grow (next : α → List α) : (rounds cursor : Nat) → Found α → Found α
  | 0, _, s => s
  | rounds + 1, cursor, s =>
    match s.order[cursor]? with
    | none => s
    | some x => grow next rounds (cursor + 1) (s.pushAll (next x))

/-- The nodes before the cursor have pushed what they name. -/
structure Growing (next : α → List α) (root : α) (cursor : Nat) (s : Found α) : Prop where
  exact : s.Exact
  order : s.order = (root :: (s.order.take cursor).flatMap next).eraseDups
  reached : ∀ x ∈ s.order, Reaches next root x

namespace Growing

variable {next : α → List α} {root : α} {cursor : Nat} {s : Found α}

/-- The search begins with its root. -/
theorem start (next : α → List α) (root : α) : Growing next root 0 (Found.start.push root) := by
  refine ⟨Found.exact_start.push root, rfl, fun x hx => ?_⟩
  obtain rfl : x = root := List.mem_singleton.1 hx
  exact .refl

/-- One round pushes the successors of the member at the cursor. -/
theorem step (h : Growing next root cursor s) {x : α} (hx : s.order[cursor]? = some x) :
    Growing next root (cursor + 1) (s.pushAll (next x)) := by
  have horder := Found.pushAll_order h.exact h.order (next x)
  obtain ⟨hlt, hget⟩ := List.getElem?_eq_some_iff.1 hx
  have htake : (s.pushAll (next x)).order.take (cursor + 1) = s.order.take cursor ++ [x] := by
    obtain ⟨rest, hrest⟩ := s.prefix_pushAll (next x)
    rw [← hrest, List.take_append_of_le_length hlt, List.take_add_one, hx]
    rfl
  refine ⟨h.exact.pushAll (next x), ?_, fun y hy => ?_⟩
  · rw [htake, List.flatMap_append, horder]
    simp
  · rw [horder, List.mem_eraseDups, List.mem_append, ← List.mem_eraseDups, ← h.order] at hy
    rcases hy with hy | hy
    · exact h.reached y hy
    · exact (h.reached x (List.mem_of_getElem? hx)).tail hy

/-- The search finds nothing twice. -/
theorem nodup (h : Growing next root cursor s) : s.order.Nodup := by
  rw [h.order]
  exact nodup_eraseDups _

/-- At the end of the queue all that is reached has been found. -/
theorem breadthFirst (h : Growing next root cursor s) (hend : s.order.length ≤ cursor) :
    BreadthFirst next root s.order := by
  have horder := h.order
  rw [List.take_of_length_le hend] at horder
  have hin : ∀ y ∈ root :: s.order.flatMap next, y ∈ s.order := by
    intro y hy
    rw [horder]
    exact List.mem_eraseDups.2 hy
  refine ⟨fun y => ⟨h.reached y, fun hy => ?_⟩, horder⟩
  refine Reaches.mem (P := (· ∈ s.order)) (fun x hx z hz => ?_) (hin root List.mem_cons_self) hy
  exact hin z (List.mem_cons_of_mem _ (List.mem_flatMap.2 ⟨x, hx, hz⟩))

/-- The queue has no more nodes than there are. -/
theorem length_le (h : Growing next root cursor s) {all : List α} (hall : ∀ x, Reaches next root x → x ∈ all) :
    s.order.length ≤ all.length :=
  (h.nodup.subperm fun x hx => hall x (h.reached x hx)).length_le

end Growing

/-- Enough rounds find a breadth-first order of all that is reachable. -/
theorem grow_breadthFirst {next : α → List α} {root : α} {all : List α}
    (hall : ∀ x, Reaches next root x → x ∈ all) {rounds cursor : Nat} {s : Found α}
    (h : Growing next root cursor s) (hrounds : all.length ≤ cursor + rounds) :
    BreadthFirst next root (grow next rounds cursor s).order := by
  induction rounds generalizing cursor s with
  | zero => exact h.breadthFirst (Nat.le_trans (h.length_le hall) hrounds)
  | succ rounds ih =>
    unfold grow
    split
    next hnone => exact h.breadthFirst (List.getElem?_eq_none_iff.1 hnone)
    next x hx => exact ih (h.step hx) (by omega)

/-- Rounds do not change the order so far. -/
theorem prefix_grow (next : α → List α) (rounds cursor : Nat) (s : Found α) :
    s.order <+: (grow next rounds cursor s).order := by
  induction rounds generalizing cursor s with
  | zero => exact List.prefix_rfl
  | succ rounds ih =>
    unfold grow
    split
    · exact List.prefix_rfl
    · exact (s.prefix_pushAll _).trans (ih _ _)

/-- What the queue has from the cursor on is the node at the cursor and what it has behind it. -/
theorem drop_grow {next : α → List α} {rounds cursor : Nat} {s : Found α} {x : α}
    (hx : s.order[cursor]? = some x) :
    (grow next (rounds + 1) cursor s).order.drop cursor =
      x :: (grow next rounds (cursor + 1) (s.pushAll (next x))).order.drop (cursor + 1) := by
  have hgrow : grow next (rounds + 1) cursor s = grow next rounds (cursor + 1) (s.pushAll (next x)) := by
    rw [grow, hx]
  obtain ⟨rest, hrest⟩ := prefix_grow next (rounds + 1) cursor s
  have hget : (grow next (rounds + 1) cursor s).order[cursor]? = some x := by
    rw [← hrest, List.getElem?_append_left (List.getElem?_eq_some_iff.1 hx).1, hx]
  obtain ⟨hlt, hget⟩ := List.getElem?_eq_some_iff.1 hget
  rw [List.drop_eq_getElem_cons hlt, hget, hgrow]

/-! ## Depth first -/

/-- A node is put behind what it names, which is visited before. -/
def visit (next : α → List α) : (depth : Nat) → Found α → α → Found α
  | 0, s, _ => s
  | depth + 1, s, x =>
    if s.marked x then s else ((next x).foldl (visit next depth) (s.mark x)).put x

/-- Each node is behind what it names, but for what leads back to it. -/
inductive Settled (next : α → List α) : List α → Prop
  | nil : Settled next []
  | put {l : List α} {x : α} (h : Settled next l) (hx : ∀ y ∈ next x, y ∈ l ∨ Reaches next y x) :
    Settled next (l ++ [x])

/-- The nodes that are reached from a root, settled, the root behind all others. -/
structure DepthFirst (next : α → List α) (root : α) (order : List α) : Prop where
  mem_iff : ∀ y, y ∈ order ↔ Reaches next root y
  nodup : order.Nodup
  settled : Settled next order
  last : ∃ front, order = front ++ [root]

omit [DecidableEq α] in
/-- In a settled order what a member leads to is before it, or leads back to it. -/
theorem Settled.split {next : α → List α} {l : List α} (h : Settled next l) {x : α} (hx : x ∈ l) :
    ∃ a b, l = a ++ x :: b ∧ ∀ y ∈ next x, y ∈ a ∨ Reaches next y x := by
  induction h with
  | nil => cases hx
  | put h hlast ih =>
    rename_i l z
    rcases List.mem_append.1 hx with hx | hx
    · obtain ⟨a, b, rfl, hnext⟩ := ih hx
      exact ⟨a, b ++ [z], by simp, hnext⟩
    · obtain rfl : x = z := List.mem_singleton.1 hx
      exact ⟨l, [], rfl, hlast⟩

/-- A node is behind what it names, if that does not lead back. -/
theorem DepthFirst.before {next : α → List α} {root : α} {order : List α} (h : DepthFirst next root order)
    {x y : α} (hx : x ∈ order) (hy : y ∈ next x) (hback : ¬ Reaches next y x) :
    order.idxOf y < order.idxOf x := by
  obtain ⟨a, b, hsplit, hnext⟩ := h.settled.split hx
  have hya : y ∈ a := (hnext y hy).resolve_right hback
  have hxa : x ∉ a := by
    have hnodup := h.nodup
    rw [hsplit] at hnodup
    exact fun hxa => (List.nodup_append.1 hnodup).2.2 x hxa x List.mem_cons_self rfl
  rw [hsplit, List.idxOf_append_of_mem hya, List.idxOf_append_of_notMem hxa, List.idxOf_cons_self]
  exact List.idxOf_lt_length_of_mem hya

/-- Without cycles a node is behind all it depends on. -/
theorem DepthFirst.before_all {next : α → List α} {root : α} {order : List α}
    (h : DepthFirst next root order) (hacyclic : ∀ x ∈ order, ¬ Depends next x x) {x y : α}
    (hx : x ∈ order) (hy : Depends next x y) : order.idxOf y < order.idxOf x := by
  have hedge : ∀ x ∈ order, ∀ y ∈ next x, order.idxOf y < order.idxOf x := by
    intro x hx y hy
    refine h.before hx hy fun hback => hacyclic x hx ?_
    exact Relation.TransGen.head' hy hback
  induction hy with
  | single hy => exact hedge x hx _ hy
  | tail hmid hstep ih =>
    refine Nat.lt_trans (hedge _ ?_ _ hstep) ih
    exact (h.mem_iff _).2 (((h.mem_iff x).1 hx).trans hmid.to_reflTransGen)

/-- A node whose visit has begun and not ended. -/
def Found.Open (s : Found α) (x : α) : Prop := s.marked x = true ∧ x ∉ s.order

/-- What holds between visits. -/
structure Visiting (next : α → List α) (s : Found α) : Prop where
  nodup : s.order.Nodup
  marked : ∀ x ∈ s.order, s.marked x = true
  closed : ∀ x ∈ s.order, ∀ y ∈ next x, s.marked y = true
  settled : Settled next s.order

/-- What visits of nodes change. -/
structure Visited (next : α → List α) (nodes : List α) (s s' : Found α) : Prop where
  marked : ∀ x, s.marked x = true → s'.marked x = true
  same : ∀ x, s'.Open x ↔ s.Open x
  visited : ∀ x ∈ nodes, s'.marked x = true
  reached : ∀ x ∈ s'.order, x ∈ s.order ∨ ∃ z ∈ nodes, Reaches next z x

omit [DecidableEq α] in
/-- A visit of no node changes nothing. -/
theorem Visited.nil (next : α → List α) (s : Found α) : Visited next [] s s :=
  ⟨fun _ h => h, fun _ => Iff.rfl, nofun, fun _ h => .inl h⟩

omit [DecidableEq α] in
/-- A visit of some nodes is one of the first and then one of the others. -/
theorem Visited.cons {next : α → List α} {x : α} {nodes : List α} {s t u : Found α}
    (h : Visited next [x] s t) (h' : Visited next nodes t u) : Visited next (x :: nodes) s u := by
  refine ⟨fun y hy => h'.marked y (h.marked y hy), fun y => (h'.same y).trans (h.same y),
    fun y hy => ?_, fun y hy => ?_⟩
  · rcases List.mem_cons.1 hy with rfl | hy
    · exact h'.marked y (h.visited y List.mem_cons_self)
    · exact h'.visited y hy
  · rcases h'.reached y hy with hy | ⟨z, hz, hzy⟩
    · rcases h.reached y hy with hy | ⟨z, hz, hzy⟩
      · exact .inl hy
      · rw [List.mem_singleton.1 hz] at hzy
        exact .inr ⟨x, List.mem_cons_self, hzy⟩
    · exact .inr ⟨z, List.mem_cons_of_mem _ hz, hzy⟩

/-- The nodes that are not marked. -/
def Found.left (s : Found α) (all : List α) : Nat := all.countP fun x => !s.marked x

omit [DecidableEq α] in
/-- A visit leaves no more unmarked than before. -/
theorem Visited.left_le {next : α → List α} {nodes : List α} {s t : Found α} (h : Visited next nodes s t)
    (all : List α) : t.left all ≤ s.left all := by
  refine List.countP_mono_left fun x _ hx => ?_
  by_contra hs
  have hmarked : s.marked x = true := by simpa using hs
  rw [h.marked x hmarked] at hx
  cases hx

/-- A new mark leaves fewer unmarked. -/
theorem Found.left_mark {s : Found α} {all : List α} {x : α} (hx : x ∈ all) (hnew : ¬ s.marked x = true) :
    (s.mark x).left all < s.left all := by
  obtain ⟨a, b, rfl⟩ := List.append_of_mem hx
  have hle : ∀ l : List α, (s.mark x).left l ≤ s.left l := by
    intro l
    refine List.countP_mono_left fun y _ hy => ?_
    by_contra hs
    have hmarked : s.marked y = true := by simpa using hs
    rw [(Found.mark_marked s x y).2 (.inr hmarked)] at hy
    cases hy
  have hone : (s.mark x).left [x] < s.left [x] := by
    have hmark : (s.mark x).marked x = true := (Found.mark_marked s x x).2 (.inl rfl)
    simp [Found.left, hmark, hnew]
  have ha := hle a
  have hb := hle b
  have hsplit : ∀ t : Found α, t.left (a ++ x :: b) = t.left a + (t.left [x] + t.left b) := by
    intro t
    unfold Found.left
    rw [List.countP_append, ← List.singleton_append (l := b), List.countP_append]
  rw [hsplit, hsplit]
  omega

section Spec

variable {next : α → List α} {all : List α}

omit [DecidableEq α] in
/-- Visits of nodes one after another, if each does what it should. -/
theorem foldl_visited {f : Found α → α → Found α} {depth : Nat}
    (hf : ∀ s x, Visiting next s → x ∈ all → (∀ y, s.Open y → Reaches next y x) → s.left all ≤ depth →
      Visiting next (f s x) ∧ Visited next [x] s (f s x))
    {l : List α} {s : Found α} (hs : Visiting next s) (hl : ∀ x ∈ l, x ∈ all)
    (hopen : ∀ x ∈ l, ∀ y, s.Open y → Reaches next y x) (hdepth : s.left all ≤ depth) :
    Visiting next (l.foldl f s) ∧ Visited next l s (l.foldl f s) := by
  induction l generalizing s with
  | nil => exact ⟨hs, Visited.nil next s⟩
  | cons x l ih =>
    obtain ⟨ht, hst⟩ := hf s x hs (hl x List.mem_cons_self) (hopen x List.mem_cons_self) hdepth
    obtain ⟨hu, htu⟩ := ih ht (fun z hz => hl z (List.mem_cons_of_mem _ hz))
      (fun z hz y hy => hopen z (List.mem_cons_of_mem _ hz) y ((hst.same y).1 hy))
      (Nat.le_trans (hst.left_le all) hdepth)
    exact ⟨hu, hst.cons htu⟩

/-- A mark keeps the state of a visit. -/
theorem Visiting.mark {s : Found α} (h : Visiting next s) (x : α) : Visiting next (s.mark x) := by
  have hmono : ∀ y, s.marked y = true → (s.mark x).marked y = true := fun y hy =>
    (Found.mark_marked s x y).2 (.inr hy)
  exact ⟨h.nodup, fun y hy => hmono y (h.marked y hy), fun y hy z hz => hmono z (h.closed y hy z hz), h.settled⟩

/-- A new mark opens its node. -/
theorem Visiting.open_mark {s : Found α} (h : Visiting next s) {x : α} (hnew : ¬ s.marked x = true) (y : α) :
    (s.mark x).Open y ↔ y = x ∨ s.Open y := by
  unfold Found.Open
  rw [Found.mark_marked, Found.mark_order]
  constructor
  · intro hy
    rcases hy with ⟨heq | hmarked, hnot⟩
    · exact .inl heq
    · exact .inr ⟨hmarked, hnot⟩
  · intro hy
    rcases hy with rfl | hy
    · exact ⟨.inl rfl, fun hin => hnew (h.marked y hin)⟩
    · exact ⟨.inr hy.1, hy.2⟩

/-- A visit: all nodes whose visit has not ended lead to the node. -/
theorem visit_visited (hall : ∀ x ∈ all, ∀ y ∈ next x, y ∈ all) {depth : Nat} :
    ∀ (s : Found α) (x : α), Visiting next s → x ∈ all → (∀ y, s.Open y → Reaches next y x) →
      s.left all ≤ depth →
        Visiting next (visit next depth s x) ∧ Visited next [x] s (visit next depth s x) := by
  induction depth with
  | zero =>
    intro s x hs hx _ hdepth
    -- with no depth left everything is marked
    have hmarked : s.marked x = true := by
      by_contra hnew
      exact absurd (Found.left_mark hx hnew) (by omega)
    refine ⟨hs, fun _ h => h, fun _ => Iff.rfl, fun y hy => ?_, fun _ h => .inl h⟩
    rw [List.mem_singleton.1 hy]
    exact hmarked
  | succ depth ih =>
    intro s x hs hx hopen hdepth
    unfold visit
    split
    next hmarked =>
      refine ⟨hs, fun _ h => h, fun _ => Iff.rfl, fun y hy => ?_, fun _ h => .inl h⟩
      rw [List.mem_singleton.1 hy]
      exact hmarked
    next hnew =>
      have hlt := Found.left_mark hx hnew
      have hopenMark := hs.open_mark hnew
      obtain ⟨hu, htu⟩ := foldl_visited ih (hs.mark x) (hall x hx)
        (fun z hz y hy => by
          rcases (hopenMark y).1 hy with rfl | hy
          · exact .single hz
          · exact (hopen y hy).tail hz)
        (by omega)
      generalize hfold : (next x).foldl (visit next depth) (s.mark x) = u at hu htu
      have hxu : u.Open x := (htu.same x).2 ((hopenMark x).2 (.inl rfl))
      refine ⟨⟨?_, fun y hy => ?_, fun y hy z hz => ?_, ?_⟩, fun y hy => ?_, fun y => ?_, fun y hy => ?_,
        fun y hy => ?_⟩
      · refine List.nodup_append.2 ⟨hu.nodup, List.nodup_singleton x, fun a ha b hb hab => ?_⟩
        rw [List.mem_singleton.1 hb] at hab
        exact hxu.2 (hab ▸ ha)
      · rcases List.mem_append.1 hy with hy | hy
        · exact hu.marked y hy
        · rw [List.mem_singleton.1 hy]
          exact hxu.1
      · rcases List.mem_append.1 hy with hy | hy
        · exact hu.closed y hy z hz
        · rw [List.mem_singleton.1 hy] at hz
          exact htu.visited z hz
      · -- what the node names has ended, or leads back to it
        refine .put hu.settled fun y hy => ?_
        by_cases hin : y ∈ u.order
        · exact .inl hin
        · rcases (hopenMark y).1 ((htu.same y).1 ⟨htu.visited y hy, hin⟩) with rfl | hyo
          · exact .inr .refl
          · exact .inr (hopen y hyo)
      · exact htu.marked y ((Found.mark_marked s x y).2 (.inr hy))
      · show u.marked y = true ∧ y ∉ u.order ++ [x] ↔ _
        rw [List.mem_append, List.mem_singleton, not_or, ← and_assoc]
        show u.Open y ∧ _ ↔ _
        rw [htu.same y, hopenMark y]
        constructor
        · intro h
          exact h.1.resolve_left h.2
        · intro h
          exact ⟨.inr h, fun heq => hnew (heq ▸ h.1)⟩
      · rw [List.mem_singleton.1 hy]
        exact hxu.1
      · refine .imp id (fun hy => ⟨x, List.mem_cons_self, hy⟩) ?_
        rcases List.mem_append.1 hy with hy | hy
        · rcases htu.reached y hy with hy | ⟨z, hz, hzy⟩
          · exact .inl hy
          · exact .inr (.head hz hzy)
        · rw [List.mem_singleton.1 hy]
          exact .inr .refl

/-- A visit of the root with nothing marked. -/
theorem visit_depthFirst (hall : ∀ x ∈ all, ∀ y ∈ next x, y ∈ all) {root : α} (hroot : root ∈ all)
    {depth : Nat} (hdepth : all.length ≤ depth) :
    DepthFirst next root (visit next depth Found.start root).order := by
  have hnone : ∀ y, ¬ (Found.start : Found α).Open y := fun y hy => Bool.noConfusion hy.1
  have hstart : Visiting next (Found.start : Found α) := ⟨List.nodup_nil, nofun, nofun, .nil⟩
  obtain ⟨hu, hsu⟩ := visit_visited hall Found.start root hstart hroot (fun y hy => (hnone y hy).elim)
    (Nat.le_trans List.countP_le_length hdepth)
  have hended : ∀ y, (visit next depth Found.start root).marked y = true →
      y ∈ (visit next depth Found.start root).order := by
    intro y hy
    by_contra hin
    exact hnone y ((hsu.same y).1 ⟨hy, hin⟩)
  have hrootIn := hended root (hsu.visited root List.mem_cons_self)
  refine ⟨fun y => ⟨fun hy => ?_, fun hy => ?_⟩, hu.nodup, hu.settled, ?_⟩
  · rcases hsu.reached y hy with hy | ⟨z, hz, hzy⟩
    · cases hy
    · exact List.mem_singleton.1 hz ▸ hzy
  · exact Reaches.mem (P := (· ∈ (visit next depth Found.start root).order))
      (fun x hx z hz => hended z (hu.closed x hx z hz)) hrootIn hy
  · cases depth with
    | zero => cases hrootIn
    | succ depth => exact ⟨_, rfl⟩

end Spec

/-! ## Renaming -/

section Renaming

variable [DecidableEq β] {next : α → List α} {next' : β → List β} {φ : α → β} {P : α → Prop}

/-- The renaming of a closed set of nodes keeps them apart and what they name. -/
structure Renames (next : α → List α) (next' : β → List β) (φ : α → β) (P : α → Prop) : Prop where
  closed : ∀ x, P x → ∀ y ∈ next x, P y
  next_eq : ∀ x, P x → next' (φ x) = (next x).map φ
  inj : ∀ x y, P x → P y → φ x = φ y → x = y

/-- The traversals have come to the same nodes. -/
structure Like (φ : α → β) (P : α → Prop) (s : Found α) (t : Found β) : Prop where
  marked : ∀ x, P x → t.marked (φ x) = s.marked x
  order : t.order = s.order.map φ
  inside : ∀ x ∈ s.order, P x

namespace Like

variable {s : Found α} {t : Found β}

omit [DecidableEq α] [DecidableEq β] in
/-- Two traversals that begin are alike. -/
theorem start (φ : α → β) (P : α → Prop) : Like φ P (Found.start : Found α) Found.start :=
  ⟨fun _ _ => rfl, rfl, nofun⟩

omit [DecidableEq α] [DecidableEq β] in
/-- Traversals stay alike when the same node is put. -/
theorem put (h : Like φ P s t) {x : α} (hx : P x) : Like φ P (s.put x) (t.put (φ x)) := by
  refine ⟨h.marked, ?_, fun y hy => ?_⟩
  · simp [h.order]
  · rcases List.mem_append.1 hy with hy | hy
    · exact h.inside y hy
    · rw [List.mem_singleton.1 hy]
      exact hx

/-- Traversals stay alike when the same node is marked. -/
theorem mark (h : Like φ P s t) (hinj : ∀ x y, P x → P y → φ x = φ y → x = y) {x : α} (hx : P x) :
    Like φ P (s.mark x) (t.mark (φ x)) := by
  refine ⟨fun y hy => ?_, h.order, h.inside⟩
  rw [Bool.eq_iff_iff, Found.mark_marked, Found.mark_marked, h.marked y hy]
  constructor
  · exact Or.imp_left (hinj y x hy hx)
  · exact Or.imp_left (congrArg φ)

/-- Traversals stay alike when the same node is pushed. -/
theorem push (h : Like φ P s t) (hinj : ∀ x y, P x → P y → φ x = φ y → x = y) {x : α} (hx : P x) :
    Like φ P (s.push x) (t.push (φ x)) := by
  unfold Found.push
  rw [h.marked x hx]
  split
  · exact h
  · exact (h.mark hinj hx).put hx

/-- Traversals stay alike when the same nodes are pushed. -/
theorem pushAll (h : Like φ P s t) (hinj : ∀ x y, P x → P y → φ x = φ y → x = y) {l : List α}
    (hl : ∀ x ∈ l, P x) : Like φ P (s.pushAll l) (t.pushAll (l.map φ)) := by
  induction l generalizing s t with
  | nil => exact h
  | cons x l ih =>
    exact ih (h.push hinj (hl x List.mem_cons_self)) fun y hy => hl y (List.mem_cons_of_mem _ hy)

/-- A visit comes to the same nodes under other names. -/
theorem visit (hφ : Renames next next' φ P) {depth : Nat} {s : Found α} {t : Found β} {x : α}
    (h : Like φ P s t) (hx : P x) :
    Like φ P (Traversal.visit next depth s x) (Traversal.visit next' depth t (φ x)) := by
  induction depth generalizing s t x with
  | zero => exact h
  | succ depth ih =>
    have hfold : ∀ (l : List α) (s : Found α) (t : Found β), (∀ y ∈ l, P y) → Like φ P s t →
        Like φ P (l.foldl (Traversal.visit next depth) s) ((l.map φ).foldl (Traversal.visit next' depth) t) := by
      intro l
      induction l with
      | nil =>
        intro s t _ h
        exact h
      | cons y l ihl =>
        intro s t hl h
        exact ihl _ _ (fun z hz => hl z (List.mem_cons_of_mem _ hz)) (ih h (hl y List.mem_cons_self))
    unfold Traversal.visit
    rw [h.marked x hx]
    split
    · exact h
    · rw [hφ.next_eq x hx]
      exact (hfold _ _ _ (hφ.closed x hx) (h.mark hφ.inj hx)).put hx

end Like

end Renaming

end Traversal
