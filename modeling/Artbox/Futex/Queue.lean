import Artbox.Futex.Model
import Artbox.Lib.Edit

/-!
# The queue

What the loops over the queue do. Both walk it in order, and a waiter they take stops being one
they would take, so each is an edit of the first waiters that match.
-/

namespace Artbox.Futex

open Edit

variable {address source target mask : Nat} {key : Bool} {l : List Waiter}

/-- The waiter with its mark. -/
def Waiter.mark (w : Waiter) : Waiter := { w with woken := true }

/-- The waiter at another address. -/
def Waiter.move (target : Nat) (w : Waiter) : Waiter := { w with address := target }

/-- Whether a requeue takes the waiter. -/
def Waiter.requeues (source : Nat) (w : Waiter) : Bool :=
  !(w.woken || !w.privateKey || w.address != source)

@[simp] theorem Waiter.mark_id (w : Waiter) : w.mark.id = w.id := rfl
@[simp] theorem Waiter.mark_woken (w : Waiter) : w.mark.woken = true := rfl
@[simp] theorem Waiter.move_id (w : Waiter) : (w.move target).id = w.id := rfl
@[simp] theorem Waiter.move_woken (w : Waiter) : (w.move target).woken = w.woken := rfl

theorem Waiter.not_requeues_mark (w : Waiter) : w.mark.requeues source = false := by
  simp [requeues, mark]

/-- A wake takes only waiters that are not woken. -/
theorem Waiter.unwoken_of_matches {w : Waiter} (h : w.matches address key mask = true) :
    w.woken = false := by
  cases hw : w.woken with
  | false => rfl
  | true => simp [Waiter.matches, hw] at h

/-- A requeue takes only waiters that are not woken. -/
theorem Waiter.unwoken_of_requeues {w : Waiter} (h : w.requeues source = true) :
    w.woken = false := by
  cases hw : w.woken with
  | false => rfl
  | true => simp [requeues, hw] at h

/-! ## The loops as edits -/

/-- The loop of a wake marks the first candidates up to its maximum. -/
theorem wakeLoop_eq {maximum : Nat} : ∀ {done : Nat} (l : List Waiter), done < maximum →
    wakeLoop address key mask maximum done l =
      (done + min (maximum - done) (l.countP (Waiter.matches address key mask)),
        editUpTo (Waiter.matches address key mask) Waiter.mark (maximum - done) l)
  | done, [], _ => by simp [wakeLoop]
  | done, w :: l, hd => by
    unfold wakeLoop
    obtain ⟨n, hn⟩ : ∃ n, maximum - done = n + 1 := ⟨maximum - done - 1, by omega⟩
    rw [hn]
    by_cases hm : w.matches address key mask = true
    · rw [if_pos hm, List.countP_cons_of_pos hm, editUpTo_cons_pos hm]
      by_cases hlast : done + 1 = maximum
      · obtain rfl : n = 0 := by omega
        rw [if_pos hlast, editUpTo_zero]
        refine congrArg₂ Prod.mk ?_ rfl
        omega
      · have hn' : maximum - (done + 1) = n := by omega
        rw [if_neg hlast, wakeLoop_eq l (by omega : done + 1 < maximum), hn']
        refine congrArg₂ Prod.mk ?_ rfl
        show done + 1 + _ = _
        omega
    · rw [if_neg hm, wakeLoop_eq l hd, hn, List.countP_cons_of_neg hm,
        editUpTo_cons_neg (by simpa using hm)]

/-- A wake marks the first `max count 1` waiters that match. -/
theorem wake_eq (l : List Waiter) (count : Int) :
    wake l address key mask count =
      (min (max count 1).toNat (l.countP (Waiter.matches address key mask)),
        editUpTo (Waiter.matches address key mask) Waiter.mark (max count 1).toNat l) := by
  have hmax : (if 0 < count then count.toNat else 1) = (max count 1).toNat := by
    split <;> omega
  rw [wake, hmax, wakeLoop_eq l (by omega), Nat.zero_add, Nat.sub_zero]

/-- The loop of a requeue marks the first candidates and moves the next. -/
theorem requeueLoop_eq {wakes moves : Nat} : ∀ {woken moved : Nat} (l : List Waiter),
    woken ≤ wakes → moved ≤ moves →
    requeueLoop source target wakes moves woken moved l =
      ((woken + min (wakes - woken) (l.countP (Waiter.requeues source)),
          moved + min (moves - moved) (l.countP (Waiter.requeues source) - (wakes - woken))),
        editUpTo (Waiter.requeues source) (Waiter.move target) (moves - moved)
          (editUpTo (Waiter.requeues source) Waiter.mark (wakes - woken) l))
  | woken, moved, [], _, _ => by simp [requeueLoop]
  | woken, moved, w :: l, hw, hm => by
    unfold requeueLoop
    by_cases hp : w.requeues source = true
    · have hskip : ¬ (w.woken || !w.privateKey || w.address != source) = true := by
        simpa [Waiter.requeues] using hp
      rw [if_neg hskip, List.countP_cons_of_pos hp]
      by_cases hlt : woken < wakes
      · obtain ⟨n, hn⟩ : ∃ n, wakes - woken = n + 1 := ⟨wakes - woken - 1, by omega⟩
        have hn' : wakes - (woken + 1) = n := by omega
        rw [if_pos hlt, requeueLoop_eq l hlt hm, hn, hn', editUpTo_cons_pos hp,
          editUpTo_cons_neg (Waiter.not_requeues_mark w)]
        refine congrArg₂ Prod.mk (congrArg₂ Prod.mk ?_ ?_) rfl
        · show woken + 1 + _ = _
          omega
        · show moved + _ = _
          omega
      · have hw0 : wakes - woken = 0 := by omega
        rw [if_neg hlt, hw0, editUpTo_zero]
        by_cases hlt' : moved < moves
        · obtain ⟨n, hn⟩ : ∃ n, moves - moved = n + 1 := ⟨moves - moved - 1, by omega⟩
          have hn' : moves - (moved + 1) = n := by omega
          rw [if_pos hlt', requeueLoop_eq l hw hlt', hn, hn', hw0, editUpTo_zero,
            editUpTo_cons_pos hp]
          refine congrArg₂ Prod.mk (congrArg₂ Prod.mk ?_ ?_) rfl
          · show woken + _ = _
            omega
          · show moved + 1 + _ = _
            omega
        · have hm0 : moves - moved = 0 := by omega
          rw [if_neg hlt', hm0, editUpTo_zero]
          refine congrArg₂ Prod.mk (congrArg₂ Prod.mk ?_ ?_) rfl <;> omega
    · have hp' : w.requeues source = false := by simpa using hp
      have hskip : (w.woken || !w.privateKey || w.address != source) = true := by
        rwa [Waiter.requeues, Bool.not_eq_false'] at hp'
      rw [if_pos hskip, requeueLoop_eq l hw hm, List.countP_cons_of_neg hp, editUpTo_cons_neg hp',
        editUpTo_cons_neg hp']

/-- A requeue marks the first `wakes` waiters of the key and moves the next `moves`. -/
theorem requeue_eq (l : List Waiter) (wakes moves : Nat) :
    requeueLoop source target wakes moves 0 0 l =
      ((min wakes (l.countP (Waiter.requeues source)),
          min moves (l.countP (Waiter.requeues source) - wakes)),
        editUpTo (Waiter.requeues source) (Waiter.move target) moves
          (editUpTo (Waiter.requeues source) Waiter.mark wakes l)) := by
  rw [requeueLoop_eq l (Nat.zero_le _) (Nat.zero_le _)]
  simp only [Nat.zero_add, Nat.sub_zero]

/-! ## The edits waiter by waiter -/

/-- The queue after the waiters `chosen` were marked. -/
def markAll (chosen l : List Waiter) : List Waiter :=
  l.map fun w => if w.id ∈ chosen.map (·.id) then w.mark else w

/-- The queue after `woken` were marked and `moved` were moved. -/
def requeueAll (target : Nat) (woken moved l : List Waiter) : List Waiter :=
  l.map fun w =>
    if w.id ∈ woken.map (·.id) then w.mark
    else if w.id ∈ moved.map (·.id) then w.move target else w

/-- Marking the first candidates is marking by id. -/
theorem editUpTo_mark {p : Waiter → Bool} {n : Nat} (hid : (l.map (·.id)).Nodup) :
    editUpTo p Waiter.mark n l = markAll ((l.filter p).take n) l :=
  editUpTo_eq_map hid

/-- Marking and moving the first candidates is a requeue by id. -/
theorem editUpTo_requeue {n m : Nat} (hid : (l.map (·.id)).Nodup) :
    editUpTo (Waiter.requeues source) (Waiter.move target) m
        (editUpTo (Waiter.requeues source) Waiter.mark n l) =
      requeueAll target ((l.filter (Waiter.requeues source)).take n)
        (((l.filter (Waiter.requeues source)).drop n).take m) l := by
  have hid' : ((editUpTo (Waiter.requeues source) Waiter.mark n l).map (·.id)).Nodup := by
    rwa [map_editUpTo Waiter.mark_id]
  rw [editUpTo_eq_map hid', filter_editUpTo fun w _ => Waiter.not_requeues_mark w, editUpTo_mark hid,
    markAll, requeueAll, List.map_map]
  refine List.map_congr_left fun w hw => ?_
  dsimp only [Function.comp_apply]
  by_cases hmark : w.id ∈ ((l.filter (Waiter.requeues source)).take n).map (·.id)
  · -- a marked waiter is none of those that are left
    rw [if_pos hmark, if_pos hmark, Waiter.mark_id, if_neg]
    intro hmoved
    have hnd : (((l.filter (Waiter.requeues source)).map (·.id))).Nodup :=
      hid.sublist (List.filter_sublist.map _)
    rw [← List.take_append_drop n (l.filter _), List.map_append] at hnd
    have hdrop : w.id ∈ ((l.filter (Waiter.requeues source)).drop n).map (·.id) :=
      (((List.take_sublist m _).map _).subset hmoved)
    exact (List.nodup_append.1 hnd).2.2 _ hmark _ hdrop rfl
  · rw [if_neg hmark, if_neg hmark]

end Artbox.Futex
