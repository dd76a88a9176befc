import Artbox.Binder.Parcels

/-!
# The buffers of an endpoint

Whether a receive buffer is reserved, delivered or gone is one lookup, `bufferState`.
A parcel's buffer is reserved at its acceptance, delivered with it, and gone once it is
freed, its parcel is dropped, or its endpoint is released.
-/

namespace Artbox.Binder

open Slots

/-! ## One arena -/

namespace Arena

variable {a a' : Arena} {address x : Nat}

/-- Whether there is a buffer at the address, and whether it was delivered. -/
def stateAt (a : Arena) (x : Nat) : Option Bool := (a.slotFor x).map (·.delivered)

theorem stateAt_eq_some {b : Bool} :
    a.stateAt x = some b ↔ ∃ s ∈ a.buffers, s.value.address = x ∧ s.delivered = b := by
  rw [stateAt, Option.map_eq_some_iff]
  constructor
  · rintro ⟨s, hs, hb⟩
    obtain ⟨hmem, hx⟩ := slotFor_eq_some.1 hs
    exact ⟨s, hmem, hx, hb⟩
  · rintro ⟨s, hmem, hx, hb⟩
    exact ⟨s, slotFor_eq_some.2 ⟨hmem, hx⟩, hb⟩

theorem stateAt_eq_none : a.stateAt x = none ↔ ∀ s ∈ a.buffers, s.value.address ≠ x := by
  rw [stateAt, Option.map_eq_none_iff, slotFor_eq_none]

theorem SameBut.stateAt (h : a.SameBut address a') (hne : x ≠ address) : a'.stateAt x = a.stateAt x := by
  ext b
  rw [stateAt_eq_some, stateAt_eq_some]
  constructor <;> rintro ⟨s, hs, hx, hb⟩
  · exact ⟨s, (h.mem s (hx ▸ hne)).1 hs, hx, hb⟩
  · exact ⟨s, (h.mem s (hx ▸ hne)).2 hs, hx, hb⟩

theorem stateAt_publish (h : a.stateAt address = some false) (x : Nat) :
    (a.publish address).2.stateAt x = if x = address then some true else a.stateAt x := by
  obtain ⟨hsame, _, hok, hspec⟩ := publish_spec (show a.publish address = _ from rfl)
  split
  next hx =>
    obtain ⟨s, hs, hsa, hd⟩ := stateAt_eq_some.1 h
    obtain ⟨t, _, hta, _, hmem, _⟩ := hspec (hok s hs hsa hd)
    exact stateAt_eq_some.2 ⟨_, hmem, hta.trans hx.symm, rfl⟩
  next hx => exact hsame.stateAt hx

theorem stateAt_removeBuffer {delivered : Bool} (h : a.stateAt address = some delivered) (x : Nat) :
    (a.removeBuffer address delivered).2.stateAt x = if x = address then none else a.stateAt x := by
  obtain ⟨hsame, hok, hspec, _⟩ :=
    removeBuffer_spec (show a.removeBuffer address delivered = _ from rfl)
  split
  next hx =>
    obtain ⟨s, hs, hsa, hd⟩ := stateAt_eq_some.1 h
    rw [stateAt_eq_none, hx]
    exact (hspec (hok s hs hsa hd)).2
  next hx => exact hsame.stateAt hx

/-- A removal that fails changes nothing, one that succeeds found its buffer. -/
theorem removeBuffer_cases (a : Arena) (address : Nat) (delivered : Bool) :
    ((a.removeBuffer address delivered).1 = 0 ∧ a.stateAt address = some delivered) ∨
      ((a.removeBuffer address delivered).1 ≠ 0 ∧ (a.removeBuffer address delivered).2 = a) := by
  obtain ⟨_, _, hspec, hfail⟩ :=
    removeBuffer_spec (show a.removeBuffer address delivered = _ from rfl)
  by_cases h0 : (a.removeBuffer address delivered).1 = 0
  · obtain ⟨⟨s, hs, hsa, hd⟩, _⟩ := hspec h0
    exact .inl ⟨h0, stateAt_eq_some.2 ⟨s, hs, hsa, hd⟩⟩
  · exact .inr ⟨h0, hfail h0⟩

theorem Stores.stateAt {offsetsAddress : Nat} {data offsets : List UInt8}
    (h : a.Stores address offsetsAddress data offsets) : a.stateAt address = some false := by
  obtain ⟨s, hs, hsa, _, hd, _⟩ := h.slot
  exact stateAt_eq_some.2 ⟨s, hs, hsa, hd⟩

/-- A fresh reservation, stored into or not. -/
theorem stateAt_reserve {dataSize offsetsSize extraSize : Nat} {clear : Bool} {b : Buffer}
    (h : a.reserve dataSize offsetsSize extraSize clear = .ok (b, a')) :
    a.stateAt b.address = none ∧
      ∀ x, a'.stateAt x = if x = b.address then some false else a.stateAt x := by
  obtain ⟨_, hfresh, hmem, hsame, _, _⟩ := reserve_spec h
  refine ⟨stateAt_eq_none.2 hfresh, fun x => ?_⟩
  split
  next hx => exact stateAt_eq_some.2 ⟨_, hmem, hx.symm, rfl⟩
  next hx => exact hsame.stateAt hx

theorem stateAt_write {offset : Nat} {source : List UInt8} (x : Nat) :
    (a.write address offset source).2.stateAt x = a.stateAt x := by
  have hbuf : (a.write address offset source).2.buffers = a.buffers := (write_spec rfl).2.1
  unfold stateAt slotFor
  rw [hbuf]

end Arena

/-! ## The device -/

/-- Whether the endpoint has a receive buffer at the address, and whether it was
delivered. -/
def Device.bufferState (d : Device) (k x : Nat) : Option Bool :=
  (d.arenaFor k).bind fun a => a.stateAt x

namespace Device

variable {d d' : Device} {k x token : Nat} {tid : Int}

theorem bufferState_congr (h : d'.arenaFor k = d.arenaFor k) (x : Nat) :
    d'.bufferState k x = d.bufferState k x := by
  rw [bufferState, bufferState, h]

theorem Stores.bufferState {y : Nat} {data offsets : List UInt8} (h : d.Stores k x y data offsets) :
    d.bufferState k x = some false := by
  obtain ⟨a, ha, hs⟩ := h
  rw [Device.bufferState, ha]
  exact hs.stateAt

theorem bufferState_updateArena {f : Arena → Arena} {j y : Nat} {b : Option Bool}
    (hf : ∀ a, d.arenaFor j = some a → ∀ x, (f a).stateAt x = if x = y then b else a.stateAt x)
    (hb : d.bufferState j y ≠ none ∨ b = none) (k x : Nat) :
    (d.updateArena j f).bufferState k x =
      if k = j ∧ x = y then b else d.bufferState k x := by
  rw [Device.bufferState, arenaFor_updateArena]
  by_cases hk : k = j
  · rw [if_pos hk, hk]
    cases ha : d.arenaFor j with
    | none =>
      rw [Device.bufferState, ha] at hb
      rcases hb with hb | rfl
      · exact absurd rfl hb
      · simp [Device.bufferState, ha]
    | some a =>
      simp only [Option.map_some, Option.bind_some, true_and, hf a ha, Device.bufferState, ha]
  · rw [if_neg hk, if_neg fun h => hk h.1]
    rfl

/-- The parcel's buffer is gone after it was dropped. -/
theorem bufferState_dropWork {w : Work}
    (h : d.bufferState w.endpoint w.value.dataBuffer = some false) (k x : Nat) :
    (dropWork token tid d w).bufferState k x =
      if k = w.endpoint ∧ x = w.value.dataBuffer then none else d.bufferState k x := by
  have hcongr : (dropWork token tid d w).bufferState k x =
      (d.updateArena w.endpoint fun a => (a.cancel w.value.dataBuffer).2).bufferState k x := rfl
  rw [hcongr]
  refine bufferState_updateArena (fun a ha x => ?_) (.inr rfl) k x
  rw [bufferState, ha] at h
  exact Arena.stateAt_removeBuffer h x

/-- An arena that is made on first use is empty. -/
theorem stateAt_receiveArena {target : Endpoint} {a : Arena} (ha : receiveArena target = some a) :
    a.stateAt x = target.arena.bind fun a => a.stateAt x := by
  unfold receiveArena at ha
  split at ha
  next a' ha' =>
    cases ha
    rw [ha', Option.bind_some]
  next hnone =>
    rw [hnone, Option.bind_none]
    unfold Arena.create at ha
    split at ha
    · cases ha
    · cases ha
      rfl

/-- A reservation that failed left no buffer. -/
theorem bufferState_reserve_failed {ω : Type} {host : Host ω} {w w' : ω} {o : Objects}
    {e target : Endpoint} {input : TransactionData} {node : Option Node} {r : Reservation}
    (ht : d.endpointFor target.token = some target)
    (hr : reservePayload host w o e tid target input node = (r, w')) (h0 : r.result ≠ 0) (k x : Nat) :
    (d.storeReservation target.token r).bufferState k x = d.bufferState k x := by
  have hmain : (r.arena.bind fun a => a.stateAt x) = target.arena.bind fun a => a.stateAt x := by
    rcases reservePayload_cases hr with ⟨_, _, hra | hra⟩ | ⟨arena, data, offsets, harena, hd, ho, hc, rfl⟩
    · rw [hra]
    · rw [hra]
      cases ha : receiveArena target with
      | none =>
        unfold receiveArena at ha
        split at ha
        · cases ha
        next hnone => rw [hnone]
      | some a => exact stateAt_receiveArena ha
    · rcases storePayload_cases o e tid target arena input node hd ho hc with
        ⟨c, hres, hr⟩ | ⟨b, reserved, held, t, hres, hheld, ht, ⟨hne, hr⟩ | ⟨ht0, hr⟩⟩
      · rw [hr]
        exact stateAt_receiveArena harena
      · rw [hr, ← stateAt_receiveArena harena]
        obtain ⟨hnone, hthen⟩ := Arena.stateAt_reserve hres
        have hb : reserved.stateAt b.address = some false := by rw [hthen, if_pos rfl]
        simp only [Option.bind_some]
        rw [Arena.cancel, Arena.stateAt_removeBuffer hb, hthen]
        split
        next hx => rw [hx, hnone]
        next => rfl
      · rw [hr] at h0
        exact absurd rfl h0
  rw [bufferState, arenaFor_storeReservation (by simp [ht])]
  split
  next hk => rw [hk, bufferState, arenaFor_of ht, hmain]
  next => rfl

/-- A reservation that succeeded is a new reserved buffer. -/
theorem bufferState_reserve {o held : Objects} {e target : Endpoint} {input : TransactionData}
    {node : Option Node} {r : Reservation} {arena : Arena}
    (ht : d.endpointFor target.token = some target)
    (h : Accepted o e tid target input node r arena held) :
    d.bufferState target.token r.buffer.address = none ∧
      ∀ k x, (d.storeReservation target.token r).bufferState k x =
        if k = target.token ∧ x = r.buffer.address then some false else d.bufferState k x := by
  obtain ⟨reserved, hres, harena⟩ := h.reserved
  obtain ⟨hnone, hthen⟩ := Arena.stateAt_reserve hres
  refine ⟨?_, fun k x => ?_⟩
  · rw [bufferState, arenaFor_of ht, ← stateAt_receiveArena h.arenaFound, hnone]
  · rw [bufferState, arenaFor_storeReservation (by simp [ht]), harena]
    by_cases hk : k = target.token
    · simp only [hk, if_true, Option.bind_some, true_and]
      rw [Arena.stateAt_write, Arena.stateAt_write, hthen, bufferState, arenaFor_of ht,
        ← stateAt_receiveArena h.arenaFound]
    · rw [if_neg hk, if_neg fun h => hk h.1]
      rfl

/-- Buffers do not lie at zero. -/
theorem pos_of_bufferState {b : Bool} (h : d.bufferState k x = some b) : 0 < x := by
  obtain ⟨a, _, ha⟩ := Option.bind_eq_some_iff.1 h
  obtain ⟨s, hs, rfl, _⟩ := Arena.stateAt_eq_some.1 ha
  have := (Arena.mem_bounds hs).1
  have := a.base_pos
  omega

end Device

end Artbox.Binder
