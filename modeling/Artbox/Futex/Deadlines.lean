import Artbox.Futex.Accounting
import Artbox.Lib.Overflow

/-!
# Deadlines

A wait with a timeout has a deadline from before it joins the queue, and each pass of its loop
looks at the clock of the guest again. The first half is about times: what a deadline is, and that
a pass which does not end sleeps for a while that is neither zero nor too long. The arithmetic is
transcribed with operations that notice overflow. The second half is about runs: `Turn` says what
a step of any call can do to the waits, and a wait that times out does so at a reading of its clock
that has reached its deadline.
-/

namespace Artbox.Futex

open Bytes Overflow

variable {ω : Type} {host : Host ω}

/-! ## Times -/

namespace Timespec

/-- The time in nanoseconds. -/
def total (t : Timespec) : Int := t.seconds * 1000000000 + t.nanoseconds

/-- A time as a clock or a guest gives it: neither field negative, the nanoseconds less than a
second. -/
structure Normal (t : Timespec) : Prop where
  seconds_nonneg : 0 ≤ t.seconds
  seconds_le : t.seconds ≤ int64Max
  nanoseconds_nonneg : 0 ≤ t.nanoseconds
  nanoseconds_lt : t.nanoseconds < 1000000000

/-- The last time there is. -/
def last : Timespec := ⟨int64Max, 999999999⟩

/-- `t` is the time `duration` after `start`, or the last time where there is no such time. -/
def After (t start duration : Timespec) : Prop :=
  ((∃ e : Timespec, e.Normal ∧ e.total = start.total + duration.total) →
    t.total = start.total + duration.total) ∧
  ((¬ ∃ e : Timespec, e.Normal ∧ e.total = start.total + duration.total) → t = last)

variable {t deadline now duration : Timespec}

/-- The last time is normal. -/
theorem last_normal : last.Normal := ⟨by decide, by decide, by decide, by decide⟩

/-- No normal time is behind the last. -/
theorem Normal.total_le (h : t.Normal) : t.total ≤ last.total := by
  have hs := h.seconds_le
  have hn := h.nanoseconds_lt
  show t.seconds * 1000000000 + t.nanoseconds ≤ int64Max * 1000000000 + 999999999
  omega

/-- The comparison of a wait is the order of times. -/
theorem passed_iff (hd : deadline.Normal) (hn : now.Normal) :
    deadline.seconds < now.seconds ∨
        (now.seconds = deadline.seconds ∧ deadline.nanoseconds ≤ now.nanoseconds) ↔
      deadline.total ≤ now.total := by
  have h1 := hd.nanoseconds_nonneg
  have h2 := hd.nanoseconds_lt
  have h3 := hn.nanoseconds_nonneg
  have h4 := hn.nanoseconds_lt
  unfold total
  omega

/-- A normal time is the time after, if there is one. -/
theorem after_of_total (h : t.Normal) (ht : t.total = now.total + duration.total) : t.After now duration :=
  ⟨fun _ => ht, fun hnone => absurd ⟨t, h, ht⟩ hnone⟩

/-- A sum behind the last time is the last time. -/
theorem after_of_lt (h : last.total < now.total + duration.total) : last.After now duration := by
  refine ⟨?_, fun _ => rfl⟩
  intro hall
  obtain ⟨e, he, heq⟩ := hall
  have hle := he.total_le
  omega

end Timespec

open Timespec

variable {deadline now duration : Timespec}

/-- The sum of normal times is normal, and saturates at the last time. -/
theorem addTime_after (hd : duration.Normal) (hn : now.Normal) :
    (addTime duration now).Normal ∧ (addTime duration now).After now duration := by
  obtain ⟨d1, d2, d3, d4⟩ := hd
  obtain ⟨n1, n2, n3, n4⟩ := hn
  have hlast : last.total = int64Max * 1000000000 + 999999999 := rfl
  have hsum : now.total + duration.total =
      (duration.seconds + now.seconds) * 1000000000 + (duration.nanoseconds + now.nanoseconds) := by
    unfold total
    omega
  unfold addTime
  dsimp only
  split
  next hover => exact ⟨last_normal, after_of_lt (by omega)⟩
  next hroom =>
    split
    next hcarry =>
      split
      next hmax => exact ⟨last_normal, after_of_lt (by omega)⟩
      next hmax =>
        -- the carry moves a second's worth of nanoseconds
        have hnormal : Normal ⟨duration.seconds + now.seconds + 1,
            duration.nanoseconds + now.nanoseconds - 1000000000⟩ :=
          ⟨by dsimp only; omega, by dsimp only; omega, by dsimp only; omega, by dsimp only; omega⟩
        refine ⟨hnormal, after_of_total hnormal ?_⟩
        show (duration.seconds + now.seconds + 1) * 1000000000 +
          (duration.nanoseconds + now.nanoseconds - 1000000000) = _
        rw [hsum]
        omega
    next hcarry =>
      have hnormal : Normal ⟨duration.seconds + now.seconds, duration.nanoseconds + now.nanoseconds⟩ :=
        ⟨by dsimp only; omega, by dsimp only; omega, by dsimp only; omega, by dsimp only; omega⟩
      exact ⟨hnormal, after_of_total hnormal hsum.symm⟩

/-! ## Arithmetic -/

/-- The sum of `timeout_value`. -/
def addTimeChecked (duration now : Timespec) : Option Timespec := do
  let room ← signed (int64Max - now.seconds)
  if room < duration.seconds then some ⟨int64Max, 999999999⟩
  else do
    let seconds ← signed (duration.seconds + now.seconds)
    let nanoseconds ← signed (duration.nanoseconds + now.nanoseconds)
    if 1000000000 ≤ nanoseconds then
      if seconds = int64Max then some ⟨int64Max, 999999999⟩
      else do
        let seconds ← signed (seconds + 1)
        let nanoseconds ← signed (nanoseconds - 1000000000)
        some ⟨seconds, nanoseconds⟩
    else some ⟨seconds, nanoseconds⟩

/-- `timeout_value` -/
def timeoutChecked (host : Host ω) (w : ω) (pointer : Nat) (relative : Bool) :
    Option (Except Int Timespec × ω) :=
  let r := host.read w pointer 16
  if r.1.1 ≠ 0 then some (.error r.1.1, r.2)
  else
    let deadline : Timespec := ⟨toInt64 (field r.1.2 0 8), toInt64 (field r.1.2 8 8)⟩
    if deadline.seconds < 0 ∨ deadline.nanoseconds < 0 ∨ 1000000000 ≤ deadline.nanoseconds then
      some (.error (-22), r.2)
    else if relative then
      match clockValue host r.2 1 with
      | (.error e, w) => some (.error e, w)
      | (.ok now, w) => do
        let deadline ← addTimeChecked deadline now
        some (.ok deadline, w)
    else some (.ok deadline, r.2)

/-- `ns`: what is left of a wait, a tenth of a second if that is long. -/
def remainingChecked (deadline now : Timespec) : Option Int := do
  let seconds ← signed (deadline.seconds - now.seconds)
  if 1 < seconds then some 100000000
  else do
    let whole ← signed (seconds * 1000000000)
    let ns ← signed (whole + deadline.nanoseconds)
    signed (ns - now.nanoseconds)

/-- How a pass of the loop of a wait ends. -/
inductive Pass
  | returns (result : Int)
  /-- The wait goes on the condition variable, for `slice` nanoseconds if that is given. -/
  | sleeps (slice : Option Int)
deriving DecidableEq, Repr

/-- The result of a wait that ends. -/
def Pass.result : Pass → Option Int
  | .returns result => some result
  | .sleeps _ => none

/-- The longest sleep of a wait. -/
def WaitRequest.limit (r : WaitRequest) : Int := if r.interruptible.isSome then 5000000 else 100000000

/-- The id of the clock of a wait. -/
def WaitRequest.clockId (r : WaitRequest) : Nat := if r.realtime then 0 else 1

/-- A pass of the loop of a wait, with what it sleeps. -/
def passChecked (host : Host ω) (w : ω) (woken : Bool) (r : WaitRequest) : Option (Pass × ω) :=
  if woken then some (.returns 0, w)
  else if r.interruptible.any fun t => host.interruptEpoch w t.1 != t.2 then some (.returns (-4), w)
  else
    match r.deadline with
    | none => some (.sleeps (if r.interruptible.isSome then some 5000000 else none), w)
    | some deadline =>
      match clockValue host w r.clockId with
      | (.error e, w) => some (.returns e, w)
      | (.ok now, w) =>
        if deadline.seconds < now.seconds ∨
            (now.seconds = deadline.seconds ∧ deadline.nanoseconds ≤ now.nanoseconds) then
          some (.returns (-110), w)
        else do
          let ns ← remainingChecked deadline now
          some (.sleeps (some (min ns r.limit)), w)

/-- With normal times no checked operation overflows. -/
theorem addTimeChecked_eq (hd : duration.Normal) (hn : now.Normal) :
    addTimeChecked duration now = some (addTime duration now) := by
  obtain ⟨d1, d2, d3, d4⟩ := hd
  obtain ⟨n1, n2, n3, n4⟩ := hn
  have hmax : int64Max = 2 ^ 63 - 1 := rfl
  unfold addTimeChecked addTime
  rw [signed_eq (by omega), Option.bind_eq_bind, Option.bind_some]
  split
  · rfl
  next hroom =>
    rw [signed_eq (by omega), Option.bind_some, signed_eq (by omega), Option.bind_some]
    dsimp only
    split
    · split
      · rfl
      next hcarry hlast => rw [signed_eq (by omega), Option.bind_some, signed_eq (by omega), Option.bind_some]
    · rfl

/-- What is left of a wait is positive, and no longer than up to the deadline. -/
theorem remainingChecked_pos (hd : deadline.Normal) (hn : now.Normal) (hbefore : now.total < deadline.total) :
    ∃ ns, remainingChecked deadline now = some ns ∧ 0 < ns ∧ ns ≤ deadline.total - now.total := by
  obtain ⟨d1, d2, d3, d4⟩ := hd
  obtain ⟨n1, n2, n3, n4⟩ := hn
  have hmax : int64Max = 2 ^ 63 - 1 := rfl
  unfold total at hbefore ⊢
  unfold remainingChecked
  rw [signed_eq (by omega), Option.bind_eq_bind, Option.bind_some]
  split
  next hlong => exact ⟨_, rfl, by omega, by omega⟩
  next hshort =>
    -- at most one second apart, the product is a second or nothing
    have hle : 0 ≤ deadline.seconds - now.seconds := by omega
    rw [signed_eq (by omega), Option.bind_some, signed_eq (by omega), Option.bind_some, signed_eq (by omega)]
    exact ⟨_, rfl, by omega, by omega⟩

/-! ## Reading the guest and the clock -/

/-- The clock of the host succeeds, with a normal time. -/
def Host.Clocked (host : Host ω) : Prop :=
  ∀ w id, (host.clock w id).1.1 = 0 ∧ (host.clock w id).1.2.Normal

/-- The times of a guest: what is in its memory. -/
def guestTime (bytes : List UInt8) : Timespec := ⟨toInt64 (field bytes 0 8), toInt64 (field bytes 8 8)⟩

/-- Where a deadline comes from: a time `t` of the guest, for a relative wait taken from the
monotonic clock. -/
def Dated (host : Host ω) (w : ω) (pointer : Nat) (relative : Bool) (d : Timespec) : Prop :=
  ∃ bytes w₁, host.read w pointer 16 = ((0, bytes), w₁) ∧ (guestTime bytes).Normal ∧
    if relative then d.After (host.clock w₁ 1).1.2 (guestTime bytes) else d = guestTime bytes

/-- A word read as signed is at most the largest signed one. -/
theorem toInt64_lt (n : Nat) : toInt64 n ≤ int64Max := by
  have hlt := (BitVec.ofNat 64 n).toInt_lt
  have hmax : int64Max = 2 ^ 63 - 1 := rfl
  unfold toInt64
  omega

/-- A clock that succeeds is read as it is. -/
theorem Host.Clocked.clockValue_eq (hc : host.Clocked) (w : ω) (id : Nat) :
    clockValue host w id = (.ok (host.clock w id).1.2, (host.clock w id).2) := by
  obtain ⟨hzero, h1, h2, h3, h4⟩ := hc w id
  unfold clockValue
  dsimp only
  rw [if_neg (not_not.2 hzero), if_neg (by omega)]

/-- `timeout_value` does not overflow, and what it returns is a deadline. -/
theorem timeoutValue_dated (hc : host.Clocked) (w : ω) (pointer : Nat) (relative : Bool) :
    timeoutChecked host w pointer relative = some (timeoutValue host w pointer relative) ∧
      ∀ d, (timeoutValue host w pointer relative).1 = .ok d → d.Normal ∧ Dated host w pointer relative d := by
  unfold timeoutChecked timeoutValue
  rcases hread : host.read w pointer 16 with ⟨⟨error, bytes⟩, w₁⟩
  dsimp only
  by_cases herror : error ≠ 0
  · rw [if_pos herror, if_pos herror]
    exact ⟨rfl, nofun⟩
  rw [if_neg herror, if_neg herror]
  obtain rfl : error = 0 := not_not.1 herror
  by_cases hbad : toInt64 (field bytes 0 8) < 0 ∨ toInt64 (field bytes 8 8) < 0 ∨
      1000000000 ≤ toInt64 (field bytes 8 8)
  · rw [if_pos hbad, if_pos hbad]
    exact ⟨rfl, nofun⟩
  rw [if_neg hbad, if_neg hbad]
  have ht : (guestTime bytes).Normal :=
    ⟨by dsimp only [guestTime]; omega, toInt64_lt _, by dsimp only [guestTime]; omega,
      by dsimp only [guestTime]; omega⟩
  cases relative with
  | false =>
    refine ⟨rfl, fun d hd => ?_⟩
    cases hd
    exact ⟨ht, bytes, w₁, hread, ht, rfl⟩
  | true =>
    have hnow := (hc w₁ 1).2
    obtain ⟨hnormal, hafter⟩ := addTime_after ht hnow
    rw [if_pos rfl, if_pos rfl, hc.clockValue_eq]
    dsimp only
    refine ⟨?_, fun d hd => ?_⟩
    · rw [show (⟨toInt64 (field bytes 0 8), toInt64 (field bytes 8 8)⟩ : Timespec) = guestTime bytes from rfl,
        addTimeChecked_eq ht hnow]
      rfl
    · cases hd
      exact ⟨hnormal, bytes, w₁, hread, ht, hafter⟩

/-- What `call` makes of a timeout. -/
theorem prepare_dated (hc : host.Clocked) {w w' : ω} {a : Arguments} {r : WaitRequest}
    (h : prepare host w a = (.ok (.wait r), w')) {d : Timespec} (hd : r.deadline = some d) :
    d.Normal ∧ Dated host w a.timeout (a.operation % 2 ^ 32 &&& (uint32Max - 384) = 0) d := by
  unfold prepare at h
  dsimp only at h
  split at h
  · cases h
  · split at h
    · split_ifs at h <;> cases h
    · split at h
      next => cases h
      next deadline w₁ htimed =>
        obtain rfl : deadline = some d := by split_ifs at h <;> cases h <;> exact hd
        split at htimed
        · split at htimed
          next => cases htimed
          next d' w₂ htime =>
            cases htimed
            exact (timeoutValue_dated hc w a.timeout _).2 d (by rw [htime])
        · cases htimed

/-- A pass of the loop does not overflow and is the pass of the model. It sleeps for a positive time
that is not too long, without end only if nothing can end the wait but a wake, and it times out
only where the clock has reached the deadline. -/
theorem passChecked_spec (hc : host.Clocked) (w : ω) (woken : Bool) {r : WaitRequest}
    (hd : ∀ d, r.deadline = some d → d.Normal) :
    ∃ pass w', passChecked host w woken r = some (pass, w') ∧
      System.check host w woken r = (pass.result, w') ∧
      (∀ ns, pass = .sleeps (some ns) → 0 < ns ∧ ns ≤ r.limit) ∧
      (pass = .sleeps none → r.deadline = none ∧ r.interruptible = none) ∧
      (pass = .returns (-110) → ∃ d, r.deadline = some d ∧ d.total ≤ (host.clock w r.clockId).1.2.total) := by
  unfold passChecked System.check
  split
  · exact ⟨_, _, rfl, rfl, nofun, nofun, nofun⟩
  split
  · exact ⟨_, _, rfl, rfl, nofun, nofun, nofun⟩
  cases hdeadline : r.deadline with
  | none =>
    cases hint : r.interruptible with
    | none => exact ⟨_, _, rfl, rfl, nofun, fun _ => ⟨rfl, rfl⟩, nofun⟩
    | some t =>
      refine ⟨_, _, rfl, rfl, fun ns hns => ?_, nofun, nofun⟩
      cases hns
      exact ⟨by decide, by rw [WaitRequest.limit, hint, if_pos Option.isSome_some]⟩
  | some d =>
    have hclock : (if r.realtime then 0 else 1) = r.clockId := rfl
    dsimp only
    rw [hclock, hc.clockValue_eq]
    dsimp only
    have hnow := (hc w r.clockId).2
    by_cases hpassed : d.seconds < (host.clock w r.clockId).1.2.seconds ∨
        ((host.clock w r.clockId).1.2.seconds = d.seconds ∧
          d.nanoseconds ≤ (host.clock w r.clockId).1.2.nanoseconds)
    · rw [if_pos hpassed, if_pos hpassed]
      exact ⟨_, _, rfl, rfl, nofun, nofun, fun _ => ⟨d, rfl, (passed_iff (hd d hdeadline) hnow).1 hpassed⟩⟩
    · rw [if_neg hpassed, if_neg hpassed]
      have hbefore := mt (passed_iff (hd d hdeadline) hnow).2 hpassed
      obtain ⟨ns, hns, hpos, -⟩ := remainingChecked_pos (hd d hdeadline) hnow (Int.not_le.1 hbefore)
      rw [hns]
      refine ⟨_, _, rfl, rfl, fun slice hslice => ?_, nofun, nofun⟩
      cases hslice
      have hlimit : 0 < r.limit := by
        unfold WaitRequest.limit
        split <;> decide
      exact ⟨lt_min hpos hlimit, min_le_right _ _⟩

/-! ## Runs -/

/-- Events that are about no wait. -/
def Event.Aside : Event → Prop
  | .registered .. | .returned .. | .refused _ => False
  | _ => True

namespace System

variable {s s' : System ω}

/-- What a step of a call does to the waits. -/
structure Turn (host : Host ω) (s s' : System ω) : Prop where
  prepared : ∀ q ∈ s'.prepared, q ∈ s.prepared ∨ ∃ a w, prepare host s.world a = (.ok q, w)
  sleepers : ∀ p ∈ s'.sleepers, p ∈ s.sleepers ∨ ∃ v, .registered p.id p.request v ∈ s'.history
  kept : ∀ e ∈ s.history, e ∈ s'.history
  registered : ∀ id r v, .registered id r v ∈ s'.history →
    .registered id r v ∈ s.history ∨ .wait r ∈ s.prepared
  /-- A wait returns what a pass of its loop does. -/
  returned : ∀ id q, .returned id q ∈ s'.history → .returned id q ∈ s.history ∨
    ∃ r w woken w', check host w woken r = (some q, w') ∧
      (w = s.world ∨ w = (host.loadU32 s.world r.address).2) ∧
      (⟨id, r⟩ ∈ s.sleepers ∨ ∃ v, .registered id r v ∈ s'.history)
  refused : ∀ q, .refused q ∈ s'.history → .refused q ∈ s.history ∨ q = -11 ∨ q = -12 ∨ q = -14 ∨
    (∃ a w, prepare host s.world a = (.error q, w)) ∨ ∃ address, (host.loadU32 s.world address).1.1 = q

/-- A step that is about no wait is a turn. -/
theorem Turn.quiet (hp : ∀ q ∈ s'.prepared, q ∈ s.prepared) (hs : s'.sleepers = s.sleepers)
    {l : List Event} (hh : s'.history = l ++ s.history) (hl : ∀ e ∈ l, e.Aside) : Turn host s s' := by
  have hold : ∀ e, ¬ e.Aside → e ∈ s'.history → e ∈ s.history := by
    intro e he hmem
    rw [hh] at hmem
    exact (List.mem_append.1 hmem).resolve_left fun hnew => he (hl e hnew)
  exact
    { prepared := fun q hq => .inl (hp q hq)
      sleepers := fun p hmem => .inl (hs ▸ hmem)
      kept := fun e he => hh ▸ List.mem_append_right _ he
      registered := fun id r v hmem => .inl (hold _ (fun h => h) hmem)
      returned := fun id q hmem => .inl (hold _ (fun h => h) hmem)
      refused := fun q hmem => .inl (hold _ (fun h => h) hmem) }

/-- A call is refused. -/
theorem Turn.refuse {prepared : List Request} (hp : ∀ q ∈ prepared, q ∈ s.prepared) (w : ω) {q : Int}
    (hq : q = -11 ∨ q = -12 ∨ q = -14 ∨ (∃ a w, prepare host s.world a = (.error q, w)) ∨
      ∃ address, (host.loadU32 s.world address).1.1 = q) :
    Turn host s ({ s with prepared, world := w }.record (.refused q)) where
  prepared x hx := .inl (hp x hx)
  sleepers p hmem := .inl hmem
  kept e he := List.mem_cons_of_mem _ he
  registered id r v hmem := .inl ((List.mem_cons.1 hmem).resolve_left Event.noConfusion)
  returned id q hmem := .inl ((List.mem_cons.1 hmem).resolve_left Event.noConfusion)
  refused x hmem := by
    rcases List.mem_cons.1 hmem with heq | hold
    · cases heq
      exact .inr hq
    · exact .inl hold

/-- The marks and moves of a call are about no wait. -/
theorem aside_requeueTo (s : System ω) (active : List Waiter) :
    ∃ l, (s.requeueTo active).history = l ++ s.history ∧ ∀ e ∈ l, e.Aside := by
  refine ⟨_, rfl, fun e he => ?_⟩
  rcases List.mem_append.1 he with hmark | hmove
  · obtain ⟨id, -, rfl⟩ := List.mem_map.1 hmark
    trivial
  · obtain ⟨m, -, rfl⟩ := List.mem_map.1 hmove
    trivial

/-- A pass of the loop in a state that `s` led to. -/
theorem Turn.loop {u : System ω} (hu : Turn host s u) {id : Nat} {r : WaitRequest}
    (hw : u.world = s.world ∨ u.world = (host.loadU32 s.world r.address).2)
    (hid : ⟨id, r⟩ ∈ s.sleepers ∨ ∃ v, .registered id r v ∈ u.history) :
    Turn host s (System.loop host u id r) := by
  unfold System.loop
  dsimp only
  split
  next q w' hcheck =>
    exact
      { prepared := hu.prepared
        sleepers := fun p hmem => (hu.sleepers p hmem).imp_right fun ⟨v, hv⟩ => ⟨v, List.mem_cons_of_mem _ hv⟩
        kept := fun e he => List.mem_cons_of_mem _ (hu.kept e he)
        registered := fun i x v hmem =>
          hu.registered i x v ((List.mem_cons.1 hmem).resolve_left Event.noConfusion)
        returned := by
          intro i x hmem
          rcases List.mem_cons.1 hmem with heq | hold
          · cases heq
            exact .inr ⟨r, u.world, _, w', hcheck, hw,
              hid.imp_right fun ⟨v, hv⟩ => ⟨v, List.mem_cons_of_mem _ hv⟩⟩
          · rcases hu.returned i x hold with hold | ⟨y, w, b, w₁, h1, h2, h3⟩
            · exact .inl hold
            · exact .inr ⟨y, w, b, w₁, h1, h2, h3.imp_right fun ⟨v, hv⟩ => ⟨v, List.mem_cons_of_mem _ hv⟩⟩
        refused := fun x hmem => hu.refused x ((List.mem_cons.1 hmem).resolve_left Event.noConfusion) }
  next w' hcheck =>
    exact
      { prepared := hu.prepared
        sleepers := by
          intro p hmem
          rcases List.mem_cons.1 hmem with rfl | hold
          · exact hid
          · exact hu.sleepers p hold
        kept := hu.kept
        registered := hu.registered
        returned := hu.returned
        refused := hu.refused }

/-- A prepared wait that takes the mutex is a turn. -/
theorem Turn.wait {prepared : List Request} (hp : ∀ q ∈ prepared, q ∈ s.prepared) {r : WaitRequest}
    (hr : .wait r ∈ s.prepared) : Turn host s (System.wait host { s with prepared } r) := by
  unfold System.wait
  dsimp only
  split
  · exact Turn.refuse hp _ (.inr (.inr (.inr (.inr ⟨r.address, rfl⟩))))
  split
  · exact Turn.refuse hp _ (.inl rfl)
  split
  · exact Turn.refuse hp _ (.inr (.inl rfl))
  refine Turn.loop ?_ (.inr rfl) (.inr ⟨_, List.mem_cons_self⟩)
  -- the wait that joins the queue
  exact
    { prepared := fun q hq => .inl (hp q hq)
      sleepers := fun p hmem => .inl hmem
      kept := fun e he => List.mem_cons_of_mem _ he
      registered := by
        intro id x v hmem
        rcases List.mem_cons.1 hmem with heq | hold
        · cases heq
          exact .inr hr
        · exact .inl hold
      returned := fun id q hmem => .inl ((List.mem_cons.1 hmem).resolve_left Event.noConfusion)
      refused := fun q hmem => .inl ((List.mem_cons.1 hmem).resolve_left Event.noConfusion) }

/-- A call that marks or moves waiters and reports it. -/
theorem Turn.requeue {prepared : List Request} (hp : ∀ q ∈ prepared, q ∈ s.prepared) (w : ω)
    (active : List Waiter) {e : Event} (he : e.Aside) :
    Turn host s (({ s with prepared, world := w }.requeueTo active).record e) := by
  obtain ⟨l, hl, haside⟩ := aside_requeueTo { s with prepared, world := w } active
  refine Turn.quiet (l := e :: l) hp rfl (congrArg (List.cons e) hl) fun x hx => ?_
  rcases List.mem_cons.1 hx with rfl | hx
  · exact he
  · exact haside x hx

/-- Every prepared request that takes the mutex is one. -/
theorem Turn.enter {prepared : List Request} (hp : ∀ q ∈ prepared, q ∈ s.prepared) {q : Request}
    (hq : q ∈ s.prepared) : Turn host s (System.enter host { s with prepared } q) := by
  cases q with
  | wait r => exact Turn.wait hp hq
  | wake address key mask count =>
    unfold System.enter
    dsimp only
    generalize (if key = true then (true, s.world) else host.access s.world address 4) = access
    split
    · exact Turn.refuse hp access.2 (.inr (.inr (.inl rfl)))
    · exact Turn.requeue hp access.2 _ trivial
  | requeue source target wakes moves => exact Turn.requeue hp s.world _ trivial

/-- Every action is a turn. -/
theorem perform_turn (s : System ω) (a : Action) : Turn host s (perform host s a) := by
  have hself : Turn host s s := Turn.quiet (l := []) (fun q hq => hq) rfl rfl (List.forall_mem_nil _)
  cases a with
  | begin a =>
    show Turn host s (System.begin host s a)
    unfold System.begin
    split
    next e w heq => exact Turn.refuse (fun q hq => hq) w (.inr (.inr (.inr (.inl ⟨a, w, heq⟩))))
    next r w heq =>
      refine { hself with prepared := fun q hq => ?_ }
      rcases List.mem_cons.1 hq with rfl | hold
      · exact .inr ⟨a, w, heq⟩
      · exact .inl hold
  | enter i =>
    unfold perform
    dsimp only
    split
    next => exact hself
    next q hi =>
      exact Turn.enter (fun x hx => List.mem_of_mem_eraseIdx hx) (List.mem_of_getElem? hi)
  | resume i =>
    unfold perform
    dsimp only
    split
    next => exact hself
    next p hi =>
      have herased : Turn host s { s with sleepers := s.sleepers.eraseIdx i } :=
        { hself with sleepers := fun p hmem => .inl (List.mem_of_mem_eraseIdx hmem) }
      exact herased.loop (.inl rfl) (.inl (List.mem_of_getElem? hi))
  | clearTid address =>
    show Turn host s (System.clearTid host s address)
    unfold System.clearTid
    split
    · exact hself
    dsimp only
    split
    · exact { hself with }
    · exact Turn.requeue (fun q hq => hq) _ _ trivial

/-- The waits that are about to take the mutex or took it. -/
def Waits (s : System ω) (r : WaitRequest) : Prop :=
  .wait r ∈ s.prepared ∨ ∃ id v, .registered id r v ∈ s.history

/-- Every wait was made by a call, and every sleeper is in the history. -/
structure Rooted (host : Host ω) (s : System ω) : Prop where
  begun : ∀ r, s.Waits r → ∃ w a w', prepare host w a = (.ok (.wait r), w')
  noted : ∀ p ∈ s.sleepers, ∃ v, .registered p.id p.request v ∈ s.history

/-- A turn keeps every wait rooted in its call. -/
theorem Rooted.turn (h : Rooted host s) (ht : Turn host s s') : Rooted host s' where
  begun r hr := by
    have hold : .wait r ∈ s.prepared → ∃ w a w', prepare host w a = (.ok (.wait r), w') :=
      fun hmem => h.begun r (.inl hmem)
    rcases hr with hprepared | ⟨id, v, hnoted⟩
    · rcases ht.prepared _ hprepared with hmem | ⟨a, w, heq⟩
      · exact hold hmem
      · exact ⟨s.world, a, w, heq⟩
    · rcases ht.registered id r v hnoted with hmem | hmem
      · exact h.begun r (.inr ⟨id, v, hmem⟩)
      · exact hold hmem
  noted p hp := by
    rcases ht.sleepers p hp with hold | hnew
    · obtain ⟨v, hv⟩ := h.noted p hold
      exact ⟨v, ht.kept _ hv⟩
    · exact hnew

/-- Every wait of a reachable futex was made by a call. -/
theorem rooted (h : (machine host).Reachable s) : Rooted host s := by
  refine h.inv (fun s hs => ?_) fun s s' hs hstep => ?_
  · obtain ⟨limit, w, -, -, rfl⟩ := hs
    exact ⟨fun r hr => hr.elim nofun fun ⟨_, _, hmem⟩ => (List.not_mem_nil hmem).elim, nofun⟩
  · rcases hstep with ⟨a, rfl⟩ | ⟨w, rfl⟩
    · exact hs.turn (perform_turn s a)
    · exact ⟨hs.begun, hs.noted⟩

/-- The results of `artbox_vm_read` and `artbox_vm_load_u32`. -/
def vmResults : List Int := [0, -5, -14, -22]

/-- The address space answers with its own results. -/
structure Answers (host : Host ω) : Prop where
  read : ∀ w address size, (host.read w address size).1.1 ∈ vmResults
  loadU32 : ∀ w address, (host.loadU32 w address).1.1 ∈ vmResults

/-- The address space never answers `-110`. -/
theorem ne_timeout {q : Int} (h : q ∈ vmResults) : q ≠ -110 := by
  intro heq
  subst heq
  exact absurd h (by decide)

/-- A timeout that is refused is not refused by `-110`. -/
theorem timeoutValue_ne (hc : host.Clocked) (hv : Answers host) {w w' : ω} {pointer : Nat} {relative : Bool}
    {q : Int} (h : timeoutValue host w pointer relative = (.error q, w')) : q ≠ -110 := by
  unfold timeoutValue at h
  dsimp only at h
  split at h
  · cases h
    exact ne_timeout (hv.read _ _ _)
  split at h
  · cases h
    decide
  split at h
  · rw [hc.clockValue_eq] at h
    cases h
  · cases h

/-- A call is not refused by `-110`. -/
theorem prepare_ne (hc : host.Clocked) (hv : Answers host) {w w' : ω} {a : Arguments} {q : Int}
    (h : prepare host w a = (.error q, w')) : q ≠ -110 := by
  have hkey : ∀ key, checkKey key ≠ -110 := by
    intro key
    unfold checkKey
    split_ifs <;> decide
  unfold prepare at h
  dsimp only at h
  split at h
  · cases h
    decide
  split at h
  · split_ifs at h <;> cases h
    · decide
    · decide
    · exact hkey _
    · exact hkey _
  · split at h
    next e w₁ htimed =>
      cases h
      split at htimed
      · split at htimed
        next htime =>
          cases htimed
          exact timeoutValue_ne hc hv htime
        next => cases htimed
      · cases htimed
    next => split_ifs at h <;> cases h <;> decide

/-- What holds of deadlines in a state of a run. -/
structure Timely (host : Host ω) (s : System ω) : Prop where
  /-- A deadline is a time the guest gave, taken from the time its call began if it is relative. -/
  dated : ∀ r, s.Waits r → ∀ d, r.deadline = some d → d.Normal ∧ ∃ w a w',
    prepare host w a = (.ok (.wait r), w') ∧
      Dated host w a.timeout (a.operation % 2 ^ 32 &&& (uint32Max - 384) = 0) d
  /-- No pass of a loop overflows, and none sleeps for no time or too long. -/
  passes : ∀ r, s.Waits r → ∀ w woken, ∃ pass w', passChecked host w woken r = some (pass, w') ∧
    check host w woken r = (pass.result, w') ∧
    (∀ ns, pass = .sleeps (some ns) → 0 < ns ∧ ns ≤ r.limit) ∧
    (pass = .sleeps none → r.deadline = none ∧ r.interruptible = none)
  /-- A wait times out in a step in which its clock reads its deadline or later. -/
  timeouts : ∀ a id, .returned id (-110) ∈ (perform host s a).history →
    .returned id (-110) ∈ s.history ∨ ∃ r v d w, .registered id r v ∈ (perform host s a).history ∧
      r.deadline = some d ∧ (w = s.world ∨ w = (host.loadU32 s.world r.address).2) ∧
      d.total ≤ (host.clock w r.clockId).1.2.total
  /-- Nothing else is taken for a timeout. -/
  refused : .refused (-110) ∉ s.history

/-- No call of a run is refused by `-110`. -/
theorem refused_ne (hc : host.Clocked) (hv : Answers host) (h : (machine host).Reachable s) :
    .refused (-110) ∉ s.history := by
  refine Machine.Reachable.inv (I := fun s => .refused (-110) ∉ s.history) (fun s hs => ?_)
    (fun s s' hs hstep => ?_) h
  · obtain ⟨limit, w, -, -, rfl⟩ := hs
    exact List.not_mem_nil
  · rcases hstep with ⟨a, rfl⟩ | ⟨w, rfl⟩
    · intro hmem
      rcases (perform_turn s a).refused _ hmem with hold | hcode | hcode | hcode | ⟨b, w, heq⟩ | ⟨address, heq⟩
      · exact hs hold
      · exact absurd hcode (by decide)
      · exact absurd hcode (by decide)
      · exact absurd hcode (by decide)
      · exact prepare_ne hc hv heq rfl
      · exact ne_timeout (hv.loadU32 s.world address) heq
    · exact hs

/-- No wait of a run times out early, and nothing on the way overflows. -/
theorem futex_deadlines (hc : host.Clocked) (hv : Answers host) (h : (machine host).Reachable s) :
    Timely host s ∧ ∀ w pointer relative,
      timeoutChecked host w pointer relative = some (timeoutValue host w pointer relative) ∧
      ∀ d, (timeoutValue host w pointer relative).1 = .ok d → d.Normal ∧ Dated host w pointer relative d := by
  have hr := rooted h
  have hnormal : ∀ r, s.Waits r → ∀ d, r.deadline = some d → d.Normal := by
    intro r hwaits d hd
    obtain ⟨w, a, w', heq⟩ := hr.begun r hwaits
    exact (prepare_dated hc heq hd).1
  refine ⟨⟨fun r hwaits d hd => ?_, fun r hwaits w woken => ?_, fun a id hmem => ?_, refused_ne hc hv h⟩,
    timeoutValue_dated hc⟩
  · obtain ⟨w, a, w', heq⟩ := hr.begun r hwaits
    obtain ⟨hd1, hd2⟩ := prepare_dated hc heq hd
    exact ⟨hd1, w, a, w', heq, hd2⟩
  · obtain ⟨pass, w', h1, h2, h3, h4, -⟩ := passChecked_spec hc w woken (hnormal r hwaits)
    exact ⟨pass, w', h1, h2, h3, h4⟩
  · have ht : Turn host s (perform host s a) := perform_turn s a
    rcases ht.returned id (-110) hmem with hold | ⟨r, w, woken, w', hcheck, hw, hid⟩
    · exact .inl hold
    obtain ⟨v, hv⟩ : ∃ v, .registered id r v ∈ (perform host s a).history := by
      rcases hid with hsleeps | hnew
      · obtain ⟨v, hv⟩ := hr.noted _ hsleeps
        exact ⟨v, ht.kept _ hv⟩
      · exact hnew
    have hlater := hr.turn ht
    have hdeadline : ∀ d, r.deadline = some d → d.Normal := by
      intro d hd
      obtain ⟨w, b, w', heq⟩ := hlater.begun r (.inr ⟨id, v, hv⟩)
      exact (prepare_dated hc heq hd).1
    obtain ⟨pass, w'', -, h2, -, -, h5⟩ := passChecked_spec hc w woken hdeadline
    have hpass : pass = .returns (-110) := by
      rw [hcheck] at h2
      cases pass with
      | returns q =>
        have hq : some (-110) = some q := congrArg Prod.fst h2
        rw [Option.some.inj hq]
      | sleeps slice =>
        have hq : some (-110) = none := congrArg Prod.fst h2
        cases hq
    obtain ⟨d, hd, hle⟩ := h5 hpass
    exact .inr ⟨r, v, d, w, hv, hd, hw, hle⟩

/-- A wait whose timeout is zero. -/
def noTime : System Unit :=
  [.begin ⟨none, 4096, 128, 0, 8192, 0, 0⟩, .enter 0].foldl (perform zeros) { limit := 4, world := () }

/-- A wait with no time returns `-110` without sleeping. -/
theorem futex_deadlines_noTime : .returned 0 (-110) ∈ noTime.history ∧ Timely zeros noTime := by
  have hzero : Timespec.Normal ⟨0, 0⟩ := ⟨by decide, by decide, by decide, by decide⟩
  have hc : zeros.Clocked := fun _ _ => ⟨rfl, hzero⟩
  have hv : Answers zeros := ⟨fun _ _ _ => List.mem_cons_self, fun _ _ => List.mem_cons_self⟩
  have hinit : (machine zeros).Reachable { limit := 4, world := () } :=
    .init ⟨4, (), by decide, by decide, rfl⟩
  have hstep : ∀ s a, (machine zeros).step s (perform zeros s a) := fun _ a => .inl ⟨a, rfl⟩
  exact ⟨by decide, (futex_deadlines hc hv (hinit.foldl hstep _)).1⟩

end System

end Artbox.Futex
