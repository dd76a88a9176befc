import Artbox.Binder.Turns

/-!
# Returns are accounted for

Over the life of a thread, the packets it had consumed and the calls of its that a
teardown cancelled are balanced by the returns it got and the returns it is owed, up to
the error returns that a cancellation overwrote (`Balanced`). `cancel_transactions`
writes the error slot without looking at it, while `transfer_packet` refuses to; so
the books are even exactly as long as no call is cancelled over an unread error.
-/

namespace Artbox.Binder

open Slots

/-! ## The books of a thread -/

namespace Event

/-- The thread ends. -/
def ends (k : Nat) (i : Int) : Event → Bool
  | exited k' i' => k' == k && i' == i
  | released k' => k' == k
  | _ => false

/-- A `BC_TRANSACTION` or `BC_REPLY` of the thread was consumed. -/
def consumes (k : Nat) (i : Int) : Event → Bool
  | consumed k' i' _ => k' == k && i' == i
  | _ => false

/-- A call of the thread was cancelled. -/
def cancels (k : Nat) (i : Int) : Event → Bool
  | cancelled k' i' _ _ => k' == k && i' == i
  | _ => false

/-- A call of the thread was cancelled while its error slot held an unread return. -/
def overwrites (k : Nat) (i : Int) : Event → Bool
  | cancelled k' i' _ unread => k' == k && i' == i && unread.isSome
  | _ => false

/-- The thread was written a completion, a failed reply or a dead reply. -/
def returns (k : Nat) (i : Int) : Event → Bool
  | returned k' i' word =>
    k' == k && i' == i && (word == .transactionComplete || word == .failedReply || word == .deadReply)
  | _ => false

end Event

/-- The events of the present life of the thread. -/
def life (k : Nat) (i : Int) (h : List Event) : List Event := h.takeWhile fun e => !e.ends k i

/-- The returns a thread is owed: its completions and the error in its slot. -/
def pendingReturns (completions : Nat) (error : Option BR) : Nat :=
  completions + if error.isSome then 1 else 0

section Life

variable {k : Nat} {i : Int} {h new : List Event} {e : Event}

theorem life_cons : life k i (e :: h) = if e.ends k i then [] else e :: life k i h := by
  rw [life, List.takeWhile_cons]
  cases e.ends k i <;> rfl

end Life

/-- What the events of a life say: packets and cancellations on the one side, returns and
overwritten errors on the other. -/
structure Books where
  consumed : Nat
  cancelled : Nat
  returned : Nat
  overwritten : Nat

/-- The books after one more event. -/
def Books.note (k : Nat) (i : Int) (e : Event) (b : Books) : Books :=
  ⟨b.consumed + (e.consumes k i).toNat, b.cancelled + (e.cancels k i).toNat,
    b.returned + (e.returns k i).toNat, b.overwritten + (e.overwrites k i).toNat⟩

/-- The books of the present life of a thread. -/
def books (k : Nat) (i : Int) (h : List Event) : Books :=
  ⟨(life k i h).countP (·.consumes k i), (life k i h).countP (·.cancels k i),
    (life k i h).countP (·.returns k i), (life k i h).countP (·.overwrites k i)⟩

theorem books_cons {k : Nat} {i : Int} {e : Event} {h : List Event} :
    books k i (e :: h) = if e.ends k i then ⟨0, 0, 0, 0⟩ else (books k i h).note k i e := by
  rw [books, life_cons]
  split
  · rfl
  · simp only [List.countP_cons, Books.note, books]
    cases e.consumes k i <;> cases e.cancels k i <;> cases e.returns k i <;>
      cases e.overwrites k i <;> rfl

/-- Idle events are in nobody's books. -/
theorem books_idle {k : Nat} {i : Int} {new h : List Event} (hn : ∀ e ∈ new, e.Idle) :
    books k i (new ++ h) = books k i h := by
  induction new with
  | nil => rfl
  | cons e es ih =>
    have he := hn e List.mem_cons_self
    rw [List.cons_append, books_cons, ih fun e he => hn e (List.mem_cons_of_mem _ he)]
    cases e <;> first | exact he.elim | rfl

/-- The books of every live thread balance, those of a thread that is not are empty. -/
structure Balanced (d : Device) : Prop where
  live : ∀ k i n u, d.accountFor k i = some (n, u) →
    (books k i d.history).consumed + (books k i d.history).cancelled =
      (books k i d.history).returned + pendingReturns n u + (books k i d.history).overwritten
  dead : ∀ k i, d.accountFor k i = none → books k i d.history = ⟨0, 0, 0, 0⟩
  word : ∀ k i n u, d.accountFor k i = some (n, some u) → u = .failedReply ∨ u = .deadReply

/-- An event that is about one thread. -/
def Event.About (k : Nat) (i : Int) : Event → Prop
  | consumed k' i' _ | refused k' i' _ _ | returned k' i' _ | cancelled k' i' _ _ | exited k' i' =>
    k' = k ∧ i' = i
  | accepted p => p.source = k ∧ p.sourceTid = i
  | _ => False

/-- Other threads' books do not note it. -/
theorem books_other {k k' : Nat} {i i' : Int} {e : Event} {h : List Event}
    (hne : ¬ (k' = k ∧ i' = i)) (he : e.About k i) : books k' i' (e :: h) = books k' i' h := by
  have hne' : (k == k' && i == i') = false := by
    by_contra hk
    simp only [Bool.not_eq_false, Bool.and_eq_true, beq_iff_eq] at hk
    exact hne ⟨hk.1.symm, hk.2.symm⟩
  rw [books_cons]
  cases e with
  | consumed | refused | returned | cancelled | exited =>
    obtain ⟨rfl, rfl⟩ := he
    simp [Event.ends, Books.note, Event.consumes, Event.cancels, Event.returns, Event.overwrites, hne']
  | accepted => rfl
  | _ => exact he.elim

namespace Balanced

variable {d d' : Device}

/-- A step that edits the account of one thread `(k, i)` and notes it in its books. -/
theorem edit (h : Balanced d) {k : Nat} {i : Int} {a : Nat × Option BR} {b : Books}
    (ha : ∀ k' i', d'.accountFor k' i' = if k' = k ∧ i' = i then some a else d.accountFor k' i')
    (hb : ∀ k' i', ¬ (k' = k ∧ i' = i) → books k' i' d'.history = books k' i' d.history)
    (hbk : books k i d'.history = b)
    (heven : b.consumed + b.cancelled = b.returned + pendingReturns a.1 a.2 + b.overwritten)
    (hw : ∀ word, a.2 = some word → word = .failedReply ∨ word = .deadReply) : Balanced d' := by
  refine ⟨fun k' i' n u hacc => ?_, fun k' i' hacc => ?_, fun k' i' n u hacc => ?_⟩ <;>
    rw [ha] at hacc <;> split at hacc
  next hk =>
    rw [hk.1, hk.2, hbk]
    cases hacc
    exact heven
  next hk =>
    rw [hb k' i' hk]
    exact h.live k' i' n u hacc
  next => cases hacc
  next hk =>
    rw [hb k' i' hk]
    exact h.dead k' i' hacc
  next =>
    cases hacc
    exact hw u rfl
  next => exact h.word k' i' n u hacc

theorem step (h : Balanced d) (ht : Turn d d') : Balanced d' := by
  cases ht with
  | quiet ha hh hn =>
    have hb : ∀ k i, books k i d'.history = books k i d.history := fun k i => by
      rw [hh, books_idle hn]
    exact ⟨fun k i n u hacc => by rw [hb]; exact h.live k i n u (ha k i ▸ hacc),
      fun k i hacc => by rw [hb]; exact h.dead k i (ha k i ▸ hacc),
      fun k i n u hacc => h.word k i n u (ha k i ▸ hacc)⟩
  | @admission k i hnone ha hh =>
    refine h.edit ha (fun _ _ _ => by rw [hh]) (by rw [hh, h.dead k i hnone]) rfl fun word hw => ?_
    cases hw
  | @fail k i n call word c hacc hword ha hh =>
    -- the books gain the consumed command, the account the error that answers it
    have hlive := h.live k i n none hacc
    refine h.edit ha (fun k' i' hne => ?_) (b := (books k i d.history).note k i (.consumed k i c)) ?_ ?_
      fun w hw => ?_
    · rw [hh, books_other hne, books_other hne] <;> exact ⟨rfl, rfl⟩
    · rw [hh, books_cons, books_cons]
      rfl
    · simp only [pendingReturns, Books.note, Event.consumes, Event.cancels, Event.returns,
        Event.overwrites, beq_self_eq_true, Bool.and_self, Bool.toNat_true, Bool.toNat_false,
        Option.isSome_none, Option.isSome_some, Bool.false_eq_true, if_false, if_true] at hlive ⊢
      omega
    · cases hw
      exact hword
  | @send p n c hacc ha hh =>
    -- the books gain the consumed command, the account a completion
    have hlive := h.live p.source p.sourceTid n none hacc
    refine h.edit ha (fun k' i' hne => ?_)
      (b := (books p.source p.sourceTid d.history).note p.source p.sourceTid
        (.consumed p.source p.sourceTid c)) ?_ ?_ fun w hw => ?_
    · rw [hh, books_other hne, books_other hne] <;> exact ⟨rfl, rfl⟩
    · rw [hh, books_cons, books_cons]
      rfl
    · simp only [pendingReturns, Books.note, Event.consumes, Event.cancels, Event.returns,
        Event.overwrites, beq_self_eq_true, Bool.and_self, Bool.toNat_true, Bool.toNat_false,
        Option.isSome_none, Bool.false_eq_true, if_false] at hlive ⊢
      omega
    · cases hw
  | @error k i n word hacc ha hh =>
    have hlive := h.live k i n (some word) hacc
    -- what the thread is told leaves the account
    have hword := h.word k i n word hacc
    refine h.edit ha (fun k' i' hne => ?_) (b := (books k i d.history).note k i (.returned k i word)) ?_ ?_
      fun w hw => ?_
    · rw [hh, books_other hne]
      exact ⟨rfl, rfl⟩
    · rw [hh, books_cons]
      rfl
    · have hret : (Event.returned k i word).returns k i = true := by
        rcases hword with rfl | rfl <;> simp [Event.returns]
      simp only [pendingReturns, Books.note, Event.consumes, Event.cancels, hret,
        Event.overwrites, Bool.toNat_true, Bool.toNat_false, Option.isSome_none, Option.isSome_some,
        Bool.false_eq_true, if_false, if_true] at hlive ⊢
      omega
    · cases hw
  | @completion k i n hacc ha hh =>
    have hlive := h.live k i (n + 1) none hacc
    refine h.edit ha (fun k' i' hne => ?_)
      (b := (books k i d.history).note k i (.returned k i .transactionComplete)) ?_ ?_ fun w hw => ?_
    · rw [hh, books_other hne]
      exact ⟨rfl, rfl⟩
    · rw [hh, books_cons]
      rfl
    · simp only [pendingReturns, Books.note, Event.consumes, Event.cancels, Event.returns,
        Event.overwrites, beq_self_eq_true, Bool.and_self, Bool.true_or, Bool.toNat_true,
        Bool.toNat_false, Option.isSome_none, Bool.false_eq_true, if_false] at hlive ⊢
      omega
    · cases hw
  | @cancel k i n x u new hacc ha hh hn =>
    -- a cancellation replaces what was pending
    have hlive := h.live k i n u hacc
    refine h.edit ha (fun k' i' hne => ?_)
      (b := (books k i d.history).note k i (.cancelled k i x u)) ?_ ?_ fun w hw => ?_
    · rw [hh, books_idle hn, books_other hne]
      exact ⟨rfl, rfl⟩
    · rw [hh, books_idle hn, books_cons]
      rfl
    · cases u <;>
        simp only [pendingReturns, Books.note, Event.consumes, Event.cancels, Event.returns,
          Event.overwrites, beq_self_eq_true, Bool.and_self, Bool.and_false,
          Bool.toNat_true, Bool.toNat_false, Option.isSome_none, Option.isSome_some,
          Bool.false_eq_true, if_false, if_true] at hlive ⊢ <;> omega
    · cases hw
      exact .inr rfl
  | @erase k i ha hh =>
    -- the thread is gone, and no other is touched
    have hother : ∀ k' i', ¬ (k' = k ∧ i' = i) → books k' i' d'.history = books k' i' d.history := by
      intro k' i' hk
      rw [hh, books_other hk]
      exact ⟨rfl, rfl⟩
    refine ⟨fun k' i' n u hacc => ?_, fun k' i' hacc => ?_, fun k' i' n u hacc => ?_⟩ <;>
      rw [ha] at hacc <;> split at hacc
    next => cases hacc
    next hk => rw [hother k' i' hk]; exact h.live k' i' n u hacc
    next hk => rw [hh, books_cons, hk.1, hk.2]; simp [Event.ends]
    next hk => rw [hother k' i' hk]; exact h.dead k' i' hacc
    next => cases hacc
    next => exact h.word k' i' n u hacc
  | @retire k ha hh =>
    have hother : ∀ k' i', k' ≠ k → books k' i' d'.history = books k' i' d.history := by
      intro k' i' hk
      rw [hh, books_cons]
      simp [Event.ends, Ne.symm hk, Books.note, Event.consumes, Event.cancels, Event.returns,
        Event.overwrites]
    refine ⟨fun k' i' n u hacc => ?_, fun k' i' hacc => ?_, fun k' i' n u hacc => ?_⟩ <;>
      rw [ha] at hacc <;> split at hacc
    next => cases hacc
    next hk => rw [hother k' i' hk]; exact h.live k' i' n u hacc
    next hk => rw [hh, books_cons, hk]; simp [Event.ends]
    next hk => rw [hother k' i' hk]; exact h.dead k' i' hacc
    next => cases hacc
    next => exact h.word k' i' n u hacc

end Balanced

/-- The invariant rule for accounts and history. -/
theorem Device.Reachable.inv_turn {I : Device → Prop}
    (h0 : ∀ d : Device, (∀ k i, d.accountFor k i = none) → d.history = [] → I d)
    (hstep : ∀ d d' : Device, d.Reachable → I d → Turn d d' → I d') {d : Device}
    (h : d.Reachable) : I d := by
  refine h.inv_of (J := fun d => d.Reachable) (fun _ h => h) (fun d hi => ?_) fun d d' hr hinv hs =>
    hstep d d' hr hinv (.of_step hr hs)
  obtain ⟨he, _, _, _, hh, _⟩ := machine_init hi
  refine h0 d (fun k i => ?_) hh
  rw [Device.accountFor, Option.map_eq_none_iff, Device.threadFor]
  cases hfor : d.endpointFor k with
  | none => rfl
  | some e =>
    rw [he e (Device.endpointFor_spec hfor).1]
    rfl

theorem Device.Reachable.balanced {d : Device} (h : d.Reachable) : Balanced d :=
  h.inv_turn (fun d hacc hh => ⟨by simp [hacc], fun _ _ _ => by rw [hh]; rfl, by simp [hacc]⟩)
    fun _ _ _ hinv ht => hinv.step ht

/-! ## No return is lost -/

/-- No call of the thread was cancelled in its life while an error return was unread. -/
def NeverOverwritten (k : Nat) (i : Int) (h : List Event) : Prop :=
  ∀ e ∈ life k i h, e.overwrites k i = false

/-- The returns law of a thread: packets consumed and calls cancelled on the one side,
returns written and returns owed on the other. -/
def ReturnsEven (k : Nat) (i : Int) (th : Thread) (h : List Event) : Prop :=
  (life k i h).countP (·.consumes k i) + (life k i h).countP (·.cancels k i) =
    (life k i h).countP (·.returns k i) + pendingReturns th.completions th.error

/-- In every run the returns of a live thread are even exactly as long as no teardown
cancelled one of its calls over an unread error return. -/
theorem returns_even_iff {d : Device} (h : d.Reachable) {k : Nat} {i : Int} {th : Thread}
    (hth : d.threadFor k i = some th) :
    ReturnsEven k i th d.history ↔ NeverOverwritten k i d.history := by
  have hacc : d.accountFor k i = some (th.completions, th.error) := by
    rw [Device.accountFor, hth]
    rfl
  have hlaw := h.balanced.live k i _ _ hacc
  simp only [books] at hlaw
  have hzero : NeverOverwritten k i d.history ↔
      (life k i d.history).countP (·.overwrites k i) = 0 := by
    rw [List.countP_eq_zero]
    exact forall₂_congr fun e _ => by simp
  rw [ReturnsEven, hzero]
  omega

/-- The client's thread `2` calls the manager; the manager's thread `1` reads the call;
the client sends a one-way call on a handle it does not hold; the manager's thread
exits. -/
def overwriteScript : Script :=
  [(2, 256, Header.bytes ⟨68, 0, 512, 0, 0, 0⟩), (2, 512, packetBytes .transaction 0 0 0 0 0 0),
    (1, 256, Header.bytes ⟨4, 0, 512, 256, 0, 8192⟩), (1, 512, Bytes.writeLE 4 BC.enterLooper.word),
    (2, 1024, Header.bytes ⟨68, 0, 1280, 0, 0, 0⟩), (2, 1280, packetBytes .transaction 7 1 0 0 0 0)]

def overwriteCalls : List Call :=
  [.writeRead 2 2 256, .writeRead 1 1 256, .writeRead 2 2 1024,
    .ioctl 1 1 Request.threadExit.word 0 none false]

/-- The failed reply to the one-way call is overwritten by the dead reply: two packets and
one cancelled call, but one completion and one error return. -/
theorem returns_overwritten : ¬ ∀ d : Device, d.Reachable → ∀ k i th,
    d.threadFor k i = some th → ReturnsEven k i th d.history := by
  intro h
  have heven := h _ (replay_reachable overwriteScript overwriteCalls) 2 2
    { tid := 2, completions := 1, error := some .deadReply, initialReturn := false }
    (by decide)
  rw [ReturnsEven] at heven
  exact absurd heven (by decide)

/-- The client's thread after its two packets, the one-way call's failure unread. -/
theorem returns_even_before_exit : NeverOverwritten 2 2
    (replay overwriteScript (overwriteCalls.take 3)).history :=
  (returns_even_iff (replay_reachable overwriteScript (overwriteCalls.take 3))
    (i := 2) (k := 2) (by decide :
      _ = some (⟨2, {}, 0, 1, some .failedReply, 1, false, false, false⟩ : Thread))).1 (by
        rw [ReturnsEven]
        decide)

end Artbox.Binder
