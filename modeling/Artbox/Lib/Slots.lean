import Mathlib.Data.List.Basic
import Mathlib.Data.List.Pairwise
import Mathlib.Data.List.Count

/-!
# Slot tables

A slot table is a fixed pool of records, some of them free, kept in a list in
slot order. Only slots that were ever used are listed: a table of capacity
`cap` with `n ≤ cap` listed slots stands for those and `cap - n` slots that are
still blank, which no scan notices.

Records are found by a key (`find?`), written through the pointer a search
returned (`update`, which rewrites the records matching the key; with unique
keys that is one record), allocated in the first free slot (`insertFree`, or
`modifyFirst` where a slot keeps some of its fields) and freed by overwriting them
with a blank record. `Unique` says live records have
distinct keys; it survives all four.
-/

namespace Slots

variable {α β κ : Type*}

/-- Rewrite every record that satisfies `p`. -/
def update (p : α → Bool) (f : α → α) (l : List α) : List α :=
  l.map fun x => if p x then f x else x

/-- Put `x` in the first free slot, or in a slot never used before. -/
def insertFree (cap : Nat) (free : α → Bool) (x : α) : List α → Option (List α)
  | [] => if cap = 0 then none else some [x]
  | y :: ys => if free y then some (x :: ys) else (insertFree (cap - 1) free x ys).map (y :: ·)

/-- Rewrite the first record that satisfies `p`. -/
def modifyFirst (p : α → Bool) (f : α → α) : List α → Option (List α)
  | [] => none
  | y :: ys => if p y then some (f y :: ys) else (modifyFirst p f ys).map (y :: ·)

/-- Live records have pairwise distinct keys. -/
def Unique (live : α → Prop) (key : α → κ) (l : List α) : Prop :=
  l.Pairwise fun x y => live x → live y → key x ≠ key y

/-! ## Updates -/

section Update

variable {p : α → Bool} {f : α → α} {l : List α}

theorem mem_update {y : α} : y ∈ update p f l ↔ ∃ x ∈ l, y = if p x then f x else x := by
  simp only [update, List.mem_map]
  exact ⟨fun ⟨x, hx, h⟩ => ⟨x, hx, h.symm⟩, fun ⟨x, hx, h⟩ => ⟨x, hx, h.symm⟩⟩

theorem mem_update_of_not {x : α} (hx : x ∈ l) (hp : p x = false) : x ∈ update p f l :=
  mem_update.2 ⟨x, hx, by simp [hp]⟩

@[simp] theorem length_update : (update p f l).length = l.length := by simp [update]

theorem mem_update_const {e y : α} :
    y ∈ update p (fun _ => e) l ↔ (y = e ∧ ∃ x ∈ l, p x = true) ∨ (y ∈ l ∧ p y = false) := by
  rw [mem_update]
  constructor
  · rintro ⟨x, hx, rfl⟩
    by_cases hp : p x = true
    · exact .inl ⟨if_pos hp, x, hx, hp⟩
    · rw [if_neg hp]
      exact .inr ⟨hx, by simpa using hp⟩
  · rintro (⟨rfl, x, hx, hp⟩ | ⟨hy, hp⟩)
    · exact ⟨x, hx, (if_pos hp).symm⟩
    · exact ⟨y, hy, by simp [hp]⟩

/-- An update under which nothing changes. -/
theorem update_eq_self (h : ∀ x ∈ l, p x = true → f x = x) : update p f l = l := by
  conv_rhs => rw [← List.map_id l]
  refine List.map_congr_left fun x hx => ?_
  by_cases hp : p x = true
  · simp [hp, h x hx hp]
  · simp [hp]

/-- An update leaves a count alone if it keeps the counted property. -/
theorem countP_update {q : α → Bool} (h : ∀ x ∈ l, p x = true → q (f x) = q x) :
    (update p f l).countP q = l.countP q := by
  rw [update, List.countP_map]
  refine List.countP_congr fun x hx => ?_
  by_cases hp : p x = true <;> simp [hp, h x hx]

/-- A search that the update does not disturb finds the updated record. -/
theorem find?_update {q : α → Bool} (h : ∀ x, p x = true → q (f x) = q x) :
    (update p f l).find? q = (l.find? q).map fun x => if p x then f x else x := by
  induction l with
  | nil => rfl
  | cons z zs ih =>
    have hz : q (if p z then f z else z) = q z := by
      by_cases hp : p z = true
      · rw [if_pos hp, h z hp]
      · rw [if_neg hp]
    change ((if p z then f z else z) :: update p f zs).find? q = _
    rw [List.find?_cons, List.find?_cons, hz, ih]
    cases q z <;> rfl

/-- A search for records that an update blanks passes over them. -/
theorem find?_update_of_blank {q : α → Bool} (h : ∀ x, p x = true → q (f x) = false) :
    (update p f l).find? q = l.find? fun x => !p x && q x := by
  induction l with
  | nil => rfl
  | cons z zs ih =>
    change ((if p z then f z else z) :: update p f zs).find? q = _
    by_cases hp : p z = true
    · rw [if_pos hp, List.find?_cons, List.find?_cons, h z hp, hp, ih]
      rfl
    · rw [if_neg hp, List.find?_cons, List.find?_cons, ih]
      simp [hp]

end Update

/-! ## Uniqueness -/

section Unique

variable {live : α → Prop} {key : α → κ} {l : List α}

theorem Unique.nil : Unique live key ([] : List α) := List.Pairwise.nil

/-- Two live members with one key are one record. -/
theorem Unique.eq_of_mem (h : Unique live key l) {x y : α} (hx : x ∈ l) (hy : y ∈ l)
    (lx : live x) (ly : live y) (hk : key x = key y) : x = y := by
  induction l with
  | nil => cases hx
  | cons z zs ih =>
    obtain ⟨hz, hzs⟩ := List.pairwise_cons.1 h
    rcases List.mem_cons.1 hx with rfl | hx' <;> rcases List.mem_cons.1 hy with rfl | hy'
    · rfl
    · exact absurd hk (hz y hy' lx ly)
    · exact absurd hk.symm (hz x hx' ly lx)
    · exact ih hzs hx' hy'

/-- An update keeps uniqueness if whatever is live after it was live before, with
the same key. -/
theorem Unique.update (h : Unique live key l) {p : α → Bool} {f : α → α}
    (hf : ∀ x ∈ l, p x = true → live (f x) → live x ∧ key (f x) = key x) :
    Unique live key (Slots.update p f l) := by
  have hback : ∀ x ∈ l, live (if p x then f x else x) →
      live x ∧ key (if p x then f x else x) = key x := by
    intro x hx hlive
    by_cases hp : p x = true
    · rw [if_pos hp] at hlive ⊢
      exact hf x hx hp hlive
    · rw [if_neg hp] at hlive ⊢
      exact ⟨hlive, rfl⟩
  clear hf
  induction l with
  | nil => exact Unique.nil
  | cons z zs ih =>
    obtain ⟨hz, hzs⟩ := List.pairwise_cons.1 h
    refine List.pairwise_cons.2
      ⟨?_, ih hzs fun x hx => hback x (List.mem_cons_of_mem _ hx)⟩
    intro y hy lz ly
    obtain ⟨x, hx, rfl⟩ := mem_update.1 hy
    obtain ⟨lz', kz⟩ := hback z List.mem_cons_self lz
    obtain ⟨lx', kx⟩ := hback x (List.mem_cons_of_mem _ hx) ly
    rw [kz, kx]
    exact hz x hx lz' lx'

/-- With unique keys a search by key finds every live record. -/
theorem Unique.find? [DecidableEq κ] (h : Unique live key l) {x : α} {q : α → Bool} (hx : x ∈ l)
    (lx : live x) (hq : ∀ y, q y = true ↔ live y ∧ key y = key x) : l.find? q = some x := by
  cases hf : l.find? q with
  | none =>
    have := List.find?_eq_none.1 hf x hx
    exact absurd ((hq x).2 ⟨lx, rfl⟩) this
  | some y =>
    obtain ⟨ly, hk⟩ := (hq y).1 (List.find?_some hf)
    rw [h.eq_of_mem (List.mem_of_find?_eq_some hf) hx ly lx hk]

/-- Blanking records keeps uniqueness. -/
theorem Unique.clear (h : Unique live key l) {p : α → Bool} {e : α} (he : ¬ live e) :
    Unique live key (Slots.update p (fun _ => e) l) :=
  h.update fun _ _ _ hl => absurd hl he

/-- Records that a key tells apart are told apart by every key that determines it. -/
theorem Unique.of_key (h : Unique live key l) {live' : α → Prop} {κ' : Type*} {key' : α → κ'}
    (hlive : ∀ x, live' x → live x)
    (hk : ∀ x ∈ l, ∀ y ∈ l, live' x → live' y → key' x = key' y → key x = key y) :
    Unique live' key' l := by
  refine List.pairwise_iff_forall_sublist.2 fun {x y} hsub hx hy heq => ?_
  have hmem := hsub.subset
  have hpair := List.pairwise_iff_forall_sublist.1 h hsub (hlive x hx) (hlive y hy)
  exact hpair (hk x (hmem (by simp)) y (hmem (by simp)) hx hy heq)

theorem Unique.filter (h : Unique live key l) (p : α → Bool) : Unique live key (l.filter p) :=
  List.Pairwise.filter p h

theorem Unique.append_singleton (h : Unique live key l) {x : α}
    (hx : ∀ y ∈ l, live y → live x → key y ≠ key x) : Unique live key (l ++ [x]) := by
  refine List.pairwise_append.2 ⟨h, List.pairwise_singleton _ _, ?_⟩
  intro y hy z hz ly lz
  rw [List.mem_singleton] at hz
  subst hz
  exact hx y hy ly lz

end Unique

/-! ## Rewriting one record -/

theorem modifyFirst_some {p : α → Bool} {f : α → α} {l l' : List α}
    (h : modifyFirst p f l = some l') :
    ∃ pre y post, l = pre ++ y :: post ∧ p y = true ∧ l' = pre ++ f y :: post := by
  induction l generalizing l' with
  | nil => cases h
  | cons z zs ih =>
    rw [modifyFirst] at h
    split at h
    next hz => exact ⟨[], z, zs, rfl, hz, (Option.some.inj h).symm⟩
    next =>
      obtain ⟨zs', hzs', rfl⟩ := Option.map_eq_some_iff.1 h
      obtain ⟨pre, y, post, rfl, hy, rfl⟩ := ih hzs'
      exact ⟨z :: pre, y, post, rfl, hy, rfl⟩

/-! ## Allocation -/

section InsertFree

variable {cap : Nat} {free : α → Bool} {x : α} {l l' : List α}

/-- Where an allocation went: over a free record, or behind the listed slots. -/
theorem insertFree_some (h : insertFree cap free x l = some l') :
    (∃ pre y post, l = pre ++ y :: post ∧ free y = true ∧ l' = pre ++ x :: post) ∨
      l' = l ++ [x] := by
  induction l generalizing cap l' with
  | nil =>
    rw [insertFree] at h
    split at h
    · cases h
    · exact .inr (Option.some.inj h).symm
  | cons z zs ih =>
    rw [insertFree] at h
    split at h
    next hz => exact .inl ⟨[], z, zs, rfl, hz, (Option.some.inj h).symm⟩
    next =>
      obtain ⟨zs', hzs', rfl⟩ := Option.map_eq_some_iff.1 h
      rcases ih hzs' with ⟨pre, y, post, rfl, hy, rfl⟩ | rfl
      · exact .inl ⟨z :: pre, y, post, rfl, hy, rfl⟩
      · exact .inr rfl

/-- A table with a free or an unused slot takes a record. -/
theorem insertFree_isSome (h : l.length < cap ∨ ∃ y ∈ l, free y = true) :
    ∃ l', insertFree cap free x l = some l' := by
  induction l generalizing cap with
  | nil =>
    have hcap : cap ≠ 0 := by
      rcases h with h | ⟨y, hy, _⟩
      · exact Nat.ne_of_gt h
      · cases hy
    exact ⟨[x], by rw [insertFree, if_neg hcap]⟩
  | cons z zs ih =>
    rw [insertFree]
    split
    · exact ⟨_, rfl⟩
    next hz =>
      have hrest : zs.length < cap - 1 ∨ ∃ y ∈ zs, free y = true := by
        rcases h with h | ⟨y, hy, hf⟩
        · rw [List.length_cons] at h
          exact .inl (by omega)
        · rcases List.mem_cons.1 hy with rfl | hy
          · exact absurd hf hz
          · exact .inr ⟨y, hy, hf⟩
      obtain ⟨l', hl'⟩ := ih hrest
      exact ⟨z :: l', by rw [hl']; rfl⟩

/-- The slot an allocation takes: the first free one. -/
theorem getElem?_insertFree (h : insertFree cap free x l = some l') (i : Nat) :
    l'[i]? = if i = (l.findIdx? free).getD l.length then some x else l[i]? := by
  induction l generalizing cap l' i with
  | nil =>
    rw [insertFree] at h
    split at h
    · cases h
    · cases h
      cases i <;> simp
  | cons z zs ih =>
    rw [insertFree] at h
    rw [List.findIdx?_cons]
    split at h
    next hz =>
      cases h
      rw [if_pos hz]
      cases i <;> simp
    next hz =>
      obtain ⟨zs', hzs', rfl⟩ := Option.map_eq_some_iff.1 h
      rw [if_neg hz]
      cases i with
      | zero => cases zs.findIdx? free <;> simp
      | succ i =>
        rw [List.getElem?_cons_succ, List.getElem?_cons_succ, ih hzs' i]
        cases zs.findIdx? free <;> simp

theorem free_of_slot {y : α} (h : l[(l.findIdx? free).getD l.length]? = some y) : free y = true := by
  cases hi : l.findIdx? free with
  | none => simp [hi] at h
  | some i =>
    rw [hi, Option.getD_some] at h
    obtain ⟨hlt, hf, _⟩ := List.findIdx?_eq_some_iff_getElem.1 hi
    rw [List.getElem?_eq_getElem hlt] at h
    cases h
    exact hf

/-- A write to a listed slot. -/
theorem getElem?_set_slot {l : List α} {slot : Nat} {y : α} (h : l[slot]? = some y) (x : α) (i : Nat) :
    (l.set slot x)[i]? = if i = slot then some x else l[i]? := by
  split
  next hi =>
    rw [hi, List.getElem?_set_self', h]
    rfl
  next hi => rw [List.getElem?_set_ne (Ne.symm hi)]

/-- What is found after a write to a listed slot. -/
theorem of_getElem?_set {l : List α} {slot : Nat} {x z : α} {i : Nat}
    (hz : (l.set slot x)[i]? = some z) : (i = slot ∧ z = x) ∨ (i ≠ slot ∧ l[i]? = some z) := by
  by_cases hi : slot = i
  · subst hi
    have hlt : slot < l.length := by
      have := (List.getElem?_eq_some_iff.1 hz).1
      rwa [List.length_set] at this
    rw [List.getElem?_set_self hlt] at hz
    exact .inl ⟨rfl, (Option.some.inj hz).symm⟩
  · rw [List.getElem?_set_ne hi] at hz
    exact .inr ⟨Ne.symm hi, hz⟩

/-- What is found after a slot was used for the first time. -/
theorem of_getElem?_concat {l : List α} {x z : α} {i : Nat} (hz : (l ++ [x])[i]? = some z) :
    (i = l.length ∧ z = x) ∨ l[i]? = some z := by
  rcases Nat.lt_trichotomy i l.length with hlt | rfl | hgt
  · rw [List.getElem?_append_left hlt] at hz
    exact .inr hz
  · rw [List.getElem?_concat_length] at hz
    exact .inl ⟨rfl, (Option.some.inj hz).symm⟩
  · rw [List.getElem?_eq_none (by simp; omega)] at hz
    cases hz

theorem mem_of_insertFree (h : insertFree cap free x l = some l') {y : α} (hy : y ∈ l') :
    y = x ∨ y ∈ l := by
  rcases insertFree_some h with ⟨pre, z, post, rfl, _, rfl⟩ | rfl
  · simp only [List.mem_append, List.mem_cons] at hy ⊢
    rcases hy with hy | hy | hy
    · exact .inr (.inl hy)
    · exact .inl hy
    · exact .inr (.inr (.inr hy))
  · simp only [List.mem_append, List.mem_singleton] at hy
    exact hy.symm

theorem self_mem_insertFree (h : insertFree cap free x l = some l') : x ∈ l' := by
  rcases insertFree_some h with ⟨pre, z, post, rfl, _, rfl⟩ | rfl <;> simp

/-- Records in use stay where they are. -/
theorem mem_insertFree (h : insertFree cap free x l = some l') {y : α} (hy : y ∈ l)
    (hf : free y = false) : y ∈ l' := by
  rcases insertFree_some h with ⟨pre, z, post, rfl, hz, rfl⟩ | rfl
  · simp only [List.mem_append, List.mem_cons] at hy ⊢
    rcases hy with hy | rfl | hy
    · exact .inl hy
    · rw [hz] at hf
      cases hf
    · exact .inr (.inr hy)
  · exact List.mem_append_left _ hy

theorem countP_insertFree (h : insertFree cap free x l = some l') {q : α → Bool}
    (hq : ∀ y, free y = true → q y = false) :
    l'.countP q = l.countP q + if q x then 1 else 0 := by
  rcases insertFree_some h with ⟨pre, z, post, rfl, hz, rfl⟩ | rfl
  · simp only [List.countP_append, List.countP_cons, hq z hz, Bool.false_eq_true, if_false]
    omega
  · simp [List.countP_append, List.countP_cons]

/-- The new record is found by a search that no listed record answers. -/
theorem find?_insertFree_self (h : insertFree cap free x l = some l') {q : α → Bool}
    (hx : q x = true) (hq : ∀ y ∈ l, q y = false) : l'.find? q = some x := by
  rcases insertFree_some h with ⟨pre, z, post, rfl, _, rfl⟩ | rfl
  · rw [List.find?_append, List.find?_eq_none.2 fun y hy => by simp [hq y (by simp [hy])]]
    simp [hx]
  · rw [List.find?_append, List.find?_eq_none.2 fun y hy => by simp [hq y hy]]
    simp [hx]

/-- Other searches do not see it. -/
theorem find?_insertFree_other (h : insertFree cap free x l = some l') {q : α → Bool}
    (hx : q x = false) (hq : ∀ y, free y = true → q y = false) : l'.find? q = l.find? q := by
  rcases insertFree_some h with ⟨pre, z, post, rfl, hz, rfl⟩ | rfl
  · rw [List.find?_append, List.find?_append, List.find?_cons, List.find?_cons, hx, hq z hz]
  · rw [List.find?_append]
    simp [hx]

theorem Unique.insertFree {live : α → Prop} {key : α → κ} (hu : Unique live key l)
    (h : Slots.insertFree cap free x l = some l')
    (hx : ∀ y ∈ l, live y → key y ≠ key x) : Unique live key l' := by
  rcases insertFree_some h with ⟨pre, z, post, rfl, _, rfl⟩ | rfl
  · obtain ⟨hpre, hpost, hcross⟩ := List.pairwise_append.1 hu
    obtain ⟨_, hpost⟩ := List.pairwise_cons.1 hpost
    refine List.pairwise_append.2 ⟨hpre, List.pairwise_cons.2 ⟨?_, hpost⟩, ?_⟩
    · intro y hy _ ly hk
      exact hx y (by simp [hy]) ly hk.symm
    · intro y hy w hw ly lw
      rcases List.mem_cons.1 hw with rfl | hw
      · exact hx y (by simp [hy]) ly
      · exact hcross y hy w (List.mem_cons_of_mem _ hw) ly lw
  · exact hu.append_singleton fun y hy ly _ => hx y hy ly

end InsertFree

/-! ## Slot by slot -/

section Agree

variable {live : α → Prop} {l l' l'' : List α} {p : α → Bool} {f : α → α} {x y : α} {i : Nat}

/-- The same live records in the same slots. -/
def Agree (live : α → Prop) (l l' : List α) : Prop :=
  ∀ (i : Nat) x, live x → (l'[i]? = some x ↔ l[i]? = some x)

theorem Agree.refl (live : α → Prop) (l : List α) : Agree live l l := fun _ _ _ => Iff.rfl

theorem Agree.trans (h : Agree live l l') (h' : Agree live l' l'') : Agree live l l'' :=
  fun i x hx => (h' i x hx).trans (h i x hx)

theorem Agree.mem (h : Agree live l l') (hx : live x) : x ∈ l' ↔ x ∈ l := by
  rw [List.mem_iff_getElem?, List.mem_iff_getElem?]
  exact exists_congr fun i => h i x hx

/-- Tables that agree answer a question about live records alike. -/
theorem Agree.any (h : Agree live l l') {q : α → Bool} (hq : ∀ x, q x = true → live x) :
    l'.any q = l.any q := by
  rw [Bool.eq_iff_iff, List.any_eq_true, List.any_eq_true]
  refine exists_congr fun x => ?_
  constructor
  · rintro ⟨hx, hqx⟩
    exact ⟨(h.mem (hq x hqx)).1 hx, hqx⟩
  · rintro ⟨hx, hqx⟩
    exact ⟨(h.mem (hq x hqx)).2 hx, hqx⟩

/-- They count live records alike. -/
theorem Agree.countP (h : Agree live l l') {q : α → Bool} (hq : ∀ x, q x = true → live x) :
    l'.countP q = l.countP q := by
  induction l generalizing l' with
  | nil =>
    rw [List.countP_nil, List.countP_eq_zero]
    intro x hx hqx
    have hnil := (h.mem (hq x hqx)).1 hx
    cases hnil
  | cons y ys ih =>
    cases l' with
    | nil =>
      rw [List.countP_nil, eq_comm, List.countP_eq_zero]
      intro x hx hqx
      have hnil := (h.mem (hq x hqx)).2 hx
      cases hnil
    | cons z zs =>
      have htail : Agree live ys zs := fun i x hx => h (i + 1) x hx
      rw [List.countP_cons, List.countP_cons, ih htail]
      congr 1
      refine if_congr ⟨fun hz => ?_, fun hy => ?_⟩ rfl rfl
      · have hhead := (h 0 z (hq z hz)).1 rfl
        rwa [Option.some.inj hhead]
      · have hhead := (h 0 y (hq y hy)).2 rfl
        rwa [Option.some.inj hhead]

theorem getElem?_update (i : Nat) :
    (update p f l)[i]? = l[i]?.map fun x => if p x then f x else x := by
  rw [update, List.getElem?_map]

/-- A live record after others were blanked. -/
theorem getElem?_update_blank {e : α} (he : ¬ live e) (hx : live x) :
    (update p (fun _ => e) l)[i]? = some x ↔ l[i]? = some x ∧ p x = false := by
  rw [getElem?_update]
  cases hi : l[i]? with
  | none => simp
  | some y =>
    simp only [Option.map_some, Option.some.injEq]
    by_cases hp : p y = true
    · rw [if_pos hp]
      constructor
      · rintro rfl
        exact absurd hx he
      · rintro ⟨rfl, hno⟩
        rw [hp] at hno
        cases hno
    · rw [if_neg hp]
      constructor
      · rintro rfl
        exact ⟨rfl, Bool.eq_false_iff.2 hp⟩
      · exact And.left

/-- An allocation leaves the records in use where they are. -/
theorem getElem?_of_insertFree {cap : Nat} {free : α → Bool}
    (h : insertFree cap free x l = some l') (hi : l[i]? = some y) (hy : free y = false) :
    l'[i]? = some y := by
  rw [getElem?_insertFree h, if_neg, hi]
  rintro rfl
  rw [free_of_slot hi] at hy
  cases hy

/-- What an allocation finds in a slot: what was there, or the new record over a free one. -/
theorem insertFree_getElem? {cap : Nat} {free : α → Bool}
    (h : insertFree cap free x l = some l') (hi : l'[i]? = some y) :
    l[i]? = some y ∨ (y = x ∧ ∀ z, l[i]? = some z → free z = true) := by
  rw [getElem?_insertFree h] at hi
  split at hi
  next heq =>
    refine .inr ⟨(Option.some.inj hi).symm, fun z hz => ?_⟩
    rw [heq] at hz
    exact free_of_slot hz
  next => exact .inl hi

/-- Live records with one key are in one slot. -/
theorem Unique.slot {κ : Type*} {key : α → κ} (h : Unique live key l) {j : Nat}
    (hi : l[i]? = some x) (hj : l[j]? = some y) (lx : live x) (ly : live y) (hk : key x = key y) :
    i = j := by
  unfold Unique at h
  rw [List.pairwise_iff_getElem] at h
  obtain ⟨hilt, rfl⟩ := List.getElem?_eq_some_iff.1 hi
  obtain ⟨hjlt, rfl⟩ := List.getElem?_eq_some_iff.1 hj
  rcases Nat.lt_trichotomy i j with hlt | heq | hgt
  · exact absurd hk (h i j hilt hjlt hlt lx ly)
  · exact heq
  · exact absurd hk.symm (h j i hjlt hilt hgt ly lx)

end Agree

end Slots
