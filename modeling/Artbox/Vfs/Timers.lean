import Artbox.Vfs.Model
import Artbox.Lib.Overflow
import Mathlib.Tactic.Common
import Mathlib.Tactic.Linarith
import Mathlib.Algebra.Order.Ring.Int
import Mathlib.Data.Int.Init

/-!
# Expirations of timers

A timer has no clock of its own: whoever looks at it brings it up to date with
`timerfd_refresh`. The theory is in `Due`: how many expirations a timer has accounted for
determines its deadline, so that one look at `now` accounts for all of them up to `now`
(`Due.refresh`) and it does not matter who looked before. `System.perform_timer` says which
steps of the table look at a timer; nothing else touches it but timerfd_settime.

The second half transcribes the arithmetic with operations that notice overflow.
-/

namespace Artbox.Vfs

/-! ## Looking at a timer -/

/-- The ways to look at a timer. -/
inductive Look
  | read | gettime | scan
deriving DecidableEq, Repr

/-- An observation, at the time the clock gives. A clock may fail with a positive result, which
is no error to `timerfd_read`. -/
structure Observation where
  look : Look
  now : Option Int
deriving DecidableEq, Repr

/-- The value an observation reads, and the timer it leaves. -/
def Timerfd.observe (timer : Timerfd) (o : Observation) : Nat × Timerfd :=
  let timer := o.now.elim timer (System.timerfdRefresh timer)
  match o.look with
  | .read => (timer.ticks, { timer with ticks := 0 })
  | _ => (0, timer)

/-- The sum of the values that observations read, and the timer they leave. -/
def Timerfd.watch (timer : Timerfd) : List Observation → Nat × Timerfd
  | [] => (0, timer)
  | o :: obs =>
    ((timer.observe o).1 + ((timer.observe o).2.watch obs).1, ((timer.observe o).2.watch obs).2)

/-- How often a timer that is armed for `d` with interval `i` has expired at `now`. -/
def expirations (d i now : Int) : Nat :=
  if now < d then 0 else if i = 0 then 1 else 1 + ((now - d) / i).toNat

/-! ## What a timer has accounted for -/

/-- The timer has accounted for `n` expirations, the last of them not after `last`. -/
structure Due (d i last : Int) (n : Nat) (timer : Timerfd) : Prop where
  interval : timer.interval = i
  past : n ≠ 0 → d + (n - 1) * i ≤ last
  deadline : (i = 0 ∧ n = 1 ∧ timer.deadline = 0) ∨
    ((i = 0 → n = 0) ∧ timer.deadline = min (d + n * i) int64Max)

section

variable {d i last now : Int} {n : Nat} {timer : Timerfd}

/-- Before its deadline a timer has not expired. -/
theorem expirations_of_lt (h : now < d) : expirations d i now = 0 := if_pos h

/-- The last expiration is not after `now` and the next one is. -/
theorem expirations_spec (hi : 0 < i) (h : d ≤ now) :
    d + (expirations d i now - 1) * i ≤ now ∧ now < d + expirations d i now * i := by
  have hcount : ((expirations d i now : Nat) : Int) = 1 + (now - d) / i := by
    unfold expirations
    rw [if_neg (by omega), if_neg (by omega), Nat.cast_add, Nat.cast_one,
      Int.toNat_of_nonneg (Int.ediv_nonneg (by omega) (by omega))]
  have hdiv := Int.mul_ediv_self_le (x := now - d) (k := i) (by omega)
  have hlt := Int.lt_mul_ediv_self_add (x := now - d) (k := i) hi
  rw [hcount]
  constructor
  · have : (1 + (now - d) / i - 1) * i = i * ((now - d) / i) := by ring
    omega
  · have : (1 + (now - d) / i) * i = i + i * ((now - d) / i) := by ring
    omega

/-- That determines their number. -/
theorem expirations_unique (hi : 0 < i) (h : d ≤ now) (hpast : d + ((n : Int) - 1) * i ≤ now)
    (hnext : now < d + n * i) : expirations d i now = n := by
  obtain ⟨hpast', hnext'⟩ := expirations_spec hi h
  have hle : ((n : Int) - 1) < expirations d i now :=
    Int.lt_of_mul_lt_mul_right (a := i) (by omega) (by omega)
  have hge : ((expirations d i now : Nat) : Int) - 1 < n :=
    Int.lt_of_mul_lt_mul_right (a := i) (by omega) (by omega)
  omega

/-- A timer never has more expirations than fit into 64 bits. -/
theorem expirations_le (hd : 0 < d) (hnow : now < int64Max) :
    expirations d i now ≤ uint64Max.toNat := by
  have hmax : uint64Max.toNat = 2 ^ 64 - 1 := rfl
  unfold int64Max at hnow
  unfold expirations
  split
  · omega
  · split
    · omega
    · have := Int.ediv_le_self i (a := now - d) (by omega)
      omega

/-- Before its deadline a timer has accounted for everything. -/
theorem Due.of_lt (h : Due d i last n timer) (hi : 0 ≤ i) (hlast : n ≠ 0 → last ≤ now)
    (hlt : now < d + n * i) (hone : i = 0 → n = 0) : expirations d i now = n := by
  by_cases hn : n = 0
  · subst hn
    exact expirations_of_lt (by omega)
  · have hi' : 0 < i := by omega
    have hpast := h.past hn
    have hnow := hlast hn
    have hfirst : 0 ≤ ((n : Int) - 1) * i := Int.mul_nonneg (by omega) hi
    exact expirations_unique hi' (by omega) (by omega) hlt

/-- The catch-up of a periodic timer: `count` more expirations, and the deadline behind them. -/
theorem catch_up {deadline : Int} (hi : 0 < i) (hd : d ≤ deadline) (hn : deadline = d + n * i)
    (hle : deadline ≤ now) :
    expirations d i now = n + (1 + ((now - deadline) / i).toNat) := by
  have hquot : (((now - deadline) / i).toNat : Int) = (now - deadline) / i :=
    Int.toNat_of_nonneg (Int.ediv_nonneg (by omega) (by omega))
  have hdiv := Int.mul_ediv_self_le (x := now - deadline) (k := i) (by omega)
  have hlt := Int.lt_mul_ediv_self_add (x := now - deadline) (k := i) hi
  apply expirations_unique hi (by omega)
  · have heq : d + (((n + (1 + ((now - deadline) / i).toNat) : Nat) : Int) - 1) * i =
        deadline + i * ((now - deadline) / i) := by
      push_cast
      rw [hquot, hn]
      ring
    omega
  · have heq : d + ((n + (1 + ((now - deadline) / i).toNat) : Nat) : Int) * i =
        deadline + (i * ((now - deadline) / i) + i) := by
      push_cast
      rw [hquot, hn]
      ring
    omega

/-- What `timerfd_refresh` makes of a timer whose deadline has passed, while its ticks fit. -/
theorem refresh_passed {count : Nat} (h0 : timer.deadline ≠ 0) (hle : timer.deadline ≤ now)
    (hcount : count = if timer.interval ≠ 0 then 1 + ((now - timer.deadline) / timer.interval).toNat else 1)
    (hfit : timer.ticks + count ≤ uint64Max.toNat) :
    System.timerfdRefresh timer now = { timer with
      ticks := timer.ticks + count
      deadline := if timer.interval = 0 ∨ now = int64Max then 0
        else if ((int64Max - timer.deadline) / timer.interval).toNat < count then int64Max
        else timer.deadline + count * timer.interval } := by
  unfold System.timerfdRefresh
  rw [if_neg (by omega)]
  dsimp only
  have hroom : ¬ uint64Max.toNat - timer.ticks < count := by omega
  rw [← hcount, if_neg hroom]

/-- A look at `now` accounts for what has expired by then. -/
theorem Due.refresh (h : Due d i last n timer) (hd : 0 < d) (hi : 0 ≤ i)
    (hlast : n ≠ 0 → last ≤ now) (hnow : now < int64Max) (hticks : timer.ticks ≤ n) :
    Due d i now (expirations d i now) (System.timerfdRefresh timer now) ∧
      n ≤ expirations d i now ∧
      (System.timerfdRefresh timer now).ticks = timer.ticks + (expirations d i now - n) ∧
      ((i = 0 ∧ (System.timerfdRefresh timer now).deadline = 0) ∨
        now < (System.timerfdRefresh timer now).deadline) := by
  have hmax := expirations_le (i := i) hd hnow
  rcases h.deadline with ⟨hi0, hn, hd0⟩ | ⟨hone, hdl⟩
  · -- a one-shot timer that has expired
    have hle : d ≤ now := by
      have h1 := h.past (by omega)
      have h2 := hlast (by omega)
      rw [hi0, hn] at h1
      omega
    have hcount : expirations d i now = 1 := by
      unfold expirations
      rw [if_neg (by omega), if_pos hi0]
    have hsame : System.timerfdRefresh timer now = timer := if_pos (.inl hd0)
    rw [hsame, hcount, hn]
    refine ⟨⟨h.interval, fun _ => ?_, .inl ⟨hi0, rfl, hd0⟩⟩, le_rfl, rfl, .inl ⟨hi0, hd0⟩⟩
    rw [hi0]
    omega
  · have hni : 0 ≤ (n : Int) * i := Int.mul_nonneg (by omega) hi
    by_cases hlt : now < timer.deadline
    · -- nothing has expired since the last look
      have hcount := h.of_lt hi hlast (by omega) hone
      have hsame : System.timerfdRefresh timer now = timer := if_pos (.inr hlt)
      rw [hsame, hcount]
      refine ⟨⟨h.interval, fun hn => ?_, .inr ⟨hone, hdl⟩⟩, le_rfl, by omega, .inr hlt⟩
      have h1 := h.past hn
      have h2 := hlast hn
      omega
    · have hdeadline : timer.deadline = d + n * i := by omega
      by_cases hi0 : i = 0
      · -- the only expiration of a one-shot timer
        have hn := hone hi0
        have hcount : expirations d i now = 1 := by
          unfold expirations
          rw [if_neg (by omega), if_pos hi0]
        have hzero : timer.interval = 0 := h.interval.trans hi0
        rw [refresh_passed (by omega) (by omega) (if_neg (not_not.2 hzero)).symm (by omega), hcount]
        have hdone : (if timer.interval = 0 ∨ now = int64Max then 0
            else if ((int64Max - timer.deadline) / timer.interval).toNat < 1 then int64Max
            else timer.deadline + (1 : Nat) * timer.interval) = 0 := if_pos (.inl hzero)
        refine ⟨⟨h.interval, fun _ => ?_, .inl ⟨hi0, rfl, hdone⟩⟩, by omega, ?_, .inl ⟨hi0, hdone⟩⟩
        · rw [hi0]
          omega
        · show timer.ticks + 1 = timer.ticks + (1 - n)
          omega
      · have hi' : 0 < i := by omega
        have hcount := catch_up hi' (by omega) hdeadline (by omega : timer.deadline ≤ now)
        obtain ⟨hpast, hnext⟩ := expirations_spec hi' (by omega : d ≤ now)
        have hpos : timer.interval ≠ 0 := by rw [h.interval]; exact hi0
        rw [refresh_passed (by omega) (by omega) (if_pos hpos).symm (by rw [h.interval]; omega),
          h.interval]
        generalize 1 + ((now - timer.deadline) / i).toNat = count at hcount ⊢
        have hstep : d + (expirations d i now : Int) * i = timer.deadline + count * i := by
          rw [hcount, hdeadline]
          push_cast
          ring
        have hover : ((int64Max - timer.deadline) / i).toNat < count ↔
            int64Max < timer.deadline + count * i := by
          have hquot : 0 ≤ (int64Max - timer.deadline) / i := Int.ediv_nonneg (by omega) (by omega)
          have hlt := Int.ediv_lt_iff_lt_mul (a := int64Max - timer.deadline) (b := count) hi'
          omega
        have hdue : (if i = 0 ∨ now = int64Max then 0
            else if ((int64Max - timer.deadline) / i).toNat < count then int64Max
            else timer.deadline + count * i) = min (d + (expirations d i now : Int) * i) int64Max := by
          rw [hstep, if_neg (by omega)]
          split <;> omega
        refine ⟨⟨rfl, fun _ => hpast, .inr ⟨fun h0 => absurd h0 hi0, hdue⟩⟩, by omega, ?_, .inr ?_⟩
        · show timer.ticks + count = timer.ticks + (expirations d i now - n)
          omega
        · show now < ite _ _ _
          rw [hdue]
          omega

/-- One observation moves ticks to its reader and loses none. -/
theorem Due.observe (h : Due d i last n timer) (hd : 0 < d) (hi : 0 ≤ i) {look : Look}
    (hlast : n ≠ 0 → last ≤ now) (hnow : now < int64Max) (hticks : timer.ticks ≤ n) :
    Due d i now (expirations d i now) (timer.observe ⟨look, now⟩).2 ∧
      (timer.observe ⟨look, now⟩).1 + (timer.observe ⟨look, now⟩).2.ticks + n =
        timer.ticks + expirations d i now ∧
      ((i = 0 ∧ (timer.observe ⟨look, now⟩).2.deadline = 0) ∨
        now < (timer.observe ⟨look, now⟩).2.deadline) := by
  obtain ⟨hdue, hle, hcount, hnext⟩ := h.refresh hd hi hlast hnow hticks
  cases look with
  | read =>
    refine ⟨⟨hdue.interval, hdue.past, hdue.deadline⟩, ?_, hnext⟩
    show (System.timerfdRefresh timer now).ticks + 0 + n = _
    omega
  | gettime =>
    refine ⟨hdue, ?_, hnext⟩
    show 0 + (System.timerfdRefresh timer now).ticks + n = _
    omega
  | scan =>
    refine ⟨hdue, ?_, hnext⟩
    show 0 + (System.timerfdRefresh timer now).ticks + n = _
    omega

/-- So does one for which the clock fails. -/
theorem Due.observe_blind (h : Due d i last n timer) (look : Look) :
    Due d i last n (timer.observe ⟨look, none⟩).2 ∧
      (timer.observe ⟨look, none⟩).1 + (timer.observe ⟨look, none⟩).2.ticks = timer.ticks := by
  cases look with
  | read => exact ⟨⟨h.interval, h.past, h.deadline⟩, rfl⟩
  | gettime => exact ⟨h, Nat.zero_add _⟩
  | scan => exact ⟨h, Nat.zero_add _⟩

/-- The times of observations do not decrease and stay below the largest value. -/
structure Ordered (obs : List Observation) : Prop where
  sorted : (obs.filterMap (·.now)).Pairwise (· ≤ ·)
  small : ∀ now ∈ obs.filterMap (·.now), now < int64Max

/-- Over observations the values read and the unread ticks add up to what the timer has
accounted for, which is what has expired at the last of them. -/
theorem Due.watch {obs : List Observation} (h : Due d i last n timer) (hd : 0 < d) (hi : 0 ≤ i)
    (hobs : Ordered obs) (hlast : n ≠ 0 → ∀ now ∈ obs.filterMap (·.now), last ≤ now)
    (hticks : timer.ticks ≤ n) (hmax : n ≤ uint64Max.toNat) :
    ∃ last' n', Due d i last' n' (timer.watch obs).2 ∧ n' ≤ uint64Max.toNat ∧
      (timer.watch obs).1 + (timer.watch obs).2.ticks + n = timer.ticks + n' ∧
      (timer.watch obs).2.ticks ≤ n' ∧
      ∀ look now, obs.getLast? = some ⟨look, some now⟩ → n' = expirations d i now ∧
        ((i = 0 ∧ (timer.watch obs).2.deadline = 0) ∨ now < (timer.watch obs).2.deadline) := by
  induction obs generalizing last n timer with
  | nil => exact ⟨last, n, h, hmax, Nat.add_right_cancel_iff.2 (Nat.zero_add _), hticks, nofun⟩
  | cons o obs ih =>
    obtain ⟨look, now⟩ := o
    cases now with
    | none =>
      obtain ⟨hdue, hsum⟩ := h.observe_blind look
      obtain ⟨last', n', hdue', hmax', hsum', hticks', hlast'⟩ :=
        ih hdue ⟨hobs.sorted, hobs.small⟩ hlast (by omega) hmax
      refine ⟨last', n', hdue', hmax', ?_, hticks', fun look' now' ho' => ?_⟩
      · show (timer.observe ⟨look, none⟩).1 + ((timer.observe ⟨look, none⟩).2.watch obs).1 +
          ((timer.observe ⟨look, none⟩).2.watch obs).2.ticks + n = timer.ticks + n'
        omega
      · cases obs with
        | nil => cases ho'
        | cons o obs => exact hlast' look' now' ho'
    | some now =>
      have hsmall := hobs.small now List.mem_cons_self
      obtain ⟨hfirst, hsorted⟩ := List.pairwise_cons.1 hobs.sorted
      obtain ⟨hdue, hsum, hnext⟩ := @Due.observe d i last now n timer h hd hi look
        (fun hn => hlast hn now List.mem_cons_self) hsmall hticks
      obtain ⟨last', n', hdue', hmax', hsum', hticks', hlast'⟩ := ih hdue
        ⟨hsorted, fun now' h' => hobs.small now' (List.mem_cons_of_mem _ h')⟩ (fun _ => hfirst)
        (by omega) (expirations_le hd hsmall)
      refine ⟨last', n', hdue', hmax', ?_, hticks', fun look' now' ho' => ?_⟩
      · show (timer.observe ⟨look, now⟩).1 + ((timer.observe ⟨look, now⟩).2.watch obs).1 +
          ((timer.observe ⟨look, now⟩).2.watch obs).2.ticks + n = timer.ticks + n'
        omega
      · cases obs with
        | nil =>
          cases ho'
          have hnone : 0 + (timer.observe ⟨look, now⟩).2.ticks + expirations d i now =
            (timer.observe ⟨look, now⟩).2.ticks + n' := hsum'
          exact ⟨by omega, hnext⟩
        | cons o obs => exact hlast' look' now' ho'

end

/-! ## What a step does to a timer -/

namespace System

variable {s : System} {env : Env} {t : Nat}

/-- The timer that is asked for the readiness of an interest. -/
def timerOf (s : System) (target : Target) : Option Nat :=
  if target.token ≠ 0 then none
  else
    match s.lockEventfd target.eventfd with
    | some _ => none
    | none => s.lockTimerfd target.timerfd

/-- The interest that a step of a call asks for its readiness. -/
def asked (s : System) (call : Call) : Option Target :=
  match call.phase, call.op with
  | .scanning index remaining copied, .pwait ep maximum _ _ =>
    match s.epolls[ep]? with
    | none => none
    | some epoll =>
      if remaining = 0 ∨ maximum ≤ copied then none
      else epoll.interests[index % epoll.interests.length]?.map (·.target)
  | .reaping index, .control ep operation interest =>
    match s.epolls[ep]? with
    | none => none
    | some epoll =>
      match epoll.interests[index]? with
      | some other => some other.target
      | none =>
        if (epoll.interests.findIdx? (Interest.names s interest.fd interest.target)).isNone ∧
            operation = 1 ∧ epoll.interests.length ≠ s.interests then some interest.target
        else none
  | _, _ => none

/-- The timer the next step of a call looks at. -/
def callSight (s : System) (call : Call) : Option (Nat × Caller × Look) :=
  match call.phase, call.op with
  | .checking, .read t _ => if s.unlocked then some (t, call.caller, .read) else none
  | _, _ => ((s.asked call).bind s.timerOf).map fun t => (t, call.caller, .scan)

/-- The timer a step looks at, for whom and how. -/
def sight (s : System) (a : Action) : Option (Nat × Caller × Look) :=
  match a with
  | .timerfdGettime caller fd =>
    if s.unlocked then ((s.get fd).bind (·.timerfd)).map fun t => (t, caller, .gettime) else none
  | .advance id =>
    match s.calls.find? fun c => c.id == id with
    | none => none
    | some call => s.callSight call
  | _ => none

/-- The observation of timer `t` that looking at `sight` makes. -/
def lookAt (s : System) (t : Nat) (sight : Option (Nat × Caller × Look)) (env : Env) :
    Option Observation :=
  match sight, s.timerfds[t]? with
  | some (t', caller, look), some timer =>
    if t' = t ∧ timer.vm = caller.vm then
      match monotonicNs env with
      | .ok now => some ⟨look, some now⟩
      | .error error => if 0 < error then some ⟨look, none⟩ else none
    else none
  | _, _ => none

/-- The observation of timer `t` that a step makes. -/
def observation (s : System) (t : Nat) (a : Action) (env : Env) : Option Observation :=
  s.lookAt t (s.sight a) env

/-- The step sets timer `t`. -/
def Sets (s : System) (t : Nat) (a : Action) : Prop :=
  ∃ caller fd flags out, a = .timerfdSettime caller fd flags out ∧ (s.get fd).bind (·.timerfd) = some t

/-- What an observation, if there is one, makes of a timer. -/
def seen (timer : Timerfd) (o : Option Observation) : Timerfd :=
  match o with
  | none => timer
  | some o => (timer.observe o).2

/-! ### Timers are left alone -/

@[simp] theorem record_timerfds (s : System) (l : List Event) : (s.record l).timerfds = s.timerfds := rfl

/-- A notification leaves the timers. -/
@[simp] theorem pollNotify_timerfds (s : System) (env : Env) :
    (s.pollNotify env).timerfds = s.timerfds := rfl

@[simp] theorem reply_timerfds (s : System) (result : Int) : (s.reply result).timerfds = s.timerfds := rfl

@[simp] theorem start_timerfds (s : System) (caller : Caller) (op : Op) (phase : Phase) :
    (s.start caller op phase).timerfds = s.timerfds := rfl

@[simp] theorem setPhase_timerfds (s : System) (id : Nat) (phase : Phase) :
    (s.setPhase id phase).timerfds = s.timerfds := rfl

@[simp] theorem setEpoll_timerfds (s : System) (ep : Nat) (epoll : Epoll) :
    (s.setEpoll ep epoll).timerfds = s.timerfds := rfl

/-- A timer that is set is the only one that changes. -/
@[simp] theorem setTimerfd_timerfds (s : System) (t : Nat) (timer : Timerfd) :
    (s.setTimerfd t timer).timerfds = s.timerfds.set t timer := rfl

/-- The close of a Binder endpoint leaves the timers. -/
@[simp] theorem dropBinder_timerfds (s : System) (b : Option Nat) (env : Env) :
    (s.dropBinder b env).timerfds = s.timerfds := by
  unfold dropBinder
  split
  · rfl
  · split
    · rfl
    · split
      · rfl
      · dsimp only
        split <;> rfl

/-- A call that returns leaves the timers. -/
@[simp] theorem finish_timerfds (s : System) (call : Call) (result : Int) (env : Env) :
    (s.finish call result env).timerfds = s.timerfds :=
  dropBinder_timerfds _ _ _

/-- A new descriptor leaves the timers. -/
@[simp] theorem install_timerfds (s : System) (d : Descriptor) :
    (s.install d).timerfds = s.timerfds := by
  unfold install
  split <;> rfl

/-- The registration of a waiter leaves the timers. -/
@[simp] theorem register_timerfds (s : System) (call : Call) (env : Env) :
    (s.register call env).timerfds = s.timerfds := by
  unfold register
  split
  · split
    · exact finish_timerfds _ _ _ _
    · rfl
  · split
    · exact finish_timerfds _ _ _ _
    · rfl

@[simp] theorem prepare_timerfds (s : System) (call : Call) (env : Env) :
    (s.prepare call env).timerfds = s.timerfds := by
  unfold prepare
  repeat' split
  all_goals simp

@[simp] theorem create_timerfds (s : System) (call : Call) (env : Env) :
    (s.create call env).timerfds = s.timerfds := by
  unfold create
  repeat' split
  all_goals simp

@[simp] theorem wake_timerfds (s : System) (call : Call) (env : Env) :
    (s.wake call env).timerfds = s.timerfds := by
  unfold wake
  repeat' split
  all_goals simp

/-- A look at an eventfd leaves the timers. -/
@[simp] theorem checkTransfer_timerfds (s : System) (call : Call) (e : Nat) (writing : Bool)
    (value : BitVec 64) (env : Env) :
    (s.checkTransfer call e writing value env).timerfds = s.timerfds := by
  unfold checkTransfer
  repeat' split
  all_goals simp

/-- The end of a scan leaves the timers. -/
@[simp] theorem endScan_timerfds (s : System) (call : Call) (timeout result : Int) (env : Env) :
    (s.endScan call timeout result env).timerfds = s.timerfds := by
  unfold endScan
  split <;> simp

/-! ### Timers are looked at -/

/-- Timer `t` has been looked at once, at `sight`. -/
def Looked (s s' : System) (t : Nat) (sight : Option (Nat × Caller × Look)) (env : Env) : Prop :=
  s'.timerfds[t]? = s.timerfds[t]?.map (seen · (s.lookAt t sight env))

/-- A step that leaves the timers looks at none. -/
theorem Looked.none {s' : System} (h : s'.timerfds = s.timerfds) : Looked s s' t none env := by
  unfold Looked lookAt seen
  rw [h]
  exact Option.map_id'.symm

/-- What follows a look and leaves the timers does not matter to it. -/
theorem Looked.same {s' s'' : System} {sight : Option (Nat × Caller × Look)}
    (h : Looked s s' t sight env) (hs : s''.timerfds = s'.timerfds) : Looked s s'' t sight env := by
  unfold Looked
  rw [hs]
  exact h

/-- A look at another timer is none at this one. -/
theorem lookAt_ne {t' : Nat} {caller : Caller} {look : Look} (h : t' ≠ t) :
    s.lookAt t (some (t', caller, look)) env = none := by
  unfold lookAt
  split
  next heq _ =>
    cases heq
    exact if_neg fun hc => h hc.1
  next => rfl

/-- A look by another address space. -/
theorem seen_foreign {timer : Timerfd} {caller : Caller} {look : Look}
    (ht : s.timerfds[t]? = some timer) (hvm : timer.vm ≠ caller.vm) :
    seen timer (s.lookAt t (some (t, caller, look)) env) = timer := by
  unfold lookAt
  rw [ht]
  dsimp only
  rw [if_neg fun hc => hvm hc.2]
  rfl

/-- A look when the clock fails. -/
theorem seen_error {timer : Timerfd} {caller : Caller} {look : Look} {error : Int}
    (ht : s.timerfds[t]? = some timer) (hvm : timer.vm = caller.vm) (hnow : monotonicNs env = .error error) :
    seen timer (s.lookAt t (some (t, caller, look)) env) =
      if 0 < error ∧ look = .read then { timer with ticks := 0 } else timer := by
  unfold lookAt
  rw [ht, hnow]
  dsimp only
  rw [if_pos ⟨rfl, hvm⟩]
  by_cases he : 0 < error
  · rw [if_pos he]
    cases look with
    | read => exact (if_pos ⟨he, rfl⟩).symm
    | gettime => exact (if_neg fun hc => nomatch hc.2).symm
    | scan => exact (if_neg fun hc => nomatch hc.2).symm
  · rw [if_neg he, if_neg fun hc => he hc.1]
    rfl

/-- A look at the time. -/
theorem seen_now {timer : Timerfd} {caller : Caller} {look : Look} {now : Int}
    (ht : s.timerfds[t]? = some timer) (hvm : timer.vm = caller.vm) (hnow : monotonicNs env = .ok now) :
    seen timer (s.lookAt t (some (t, caller, look)) env) =
      if look = .read then { timerfdRefresh timer now with ticks := 0 } else timerfdRefresh timer now := by
  unfold lookAt
  rw [ht, hnow]
  dsimp only
  rw [if_pos ⟨rfl, hvm⟩]
  cases look <;> rfl

/-- The readiness of a timer is a look at it. -/
theorem timerfdEvents_seen {timer : Timerfd} {caller : Caller} (ht : s.timerfds[t]? = some timer) :
    (timerfdEvents timer caller env).2 = seen timer (s.lookAt t (some (t, caller, .scan)) env) := by
  unfold timerfdEvents
  by_cases hvm : timer.vm = caller.vm
  · rw [if_neg (not_not.2 hvm)]
    cases hnow : monotonicNs env with
    | error e =>
      rw [seen_error ht hvm hnow]
      exact (if_neg fun hc => nomatch hc.2).symm
    | ok now =>
      rw [seen_now ht hvm hnow]
      exact (if_neg nofun).symm
  · rw [if_pos hvm, seen_foreign ht hvm]

/-- To store a timer as it is changes nothing. -/
theorem set_same {timer : Timerfd} (ht : s.timerfds[t]? = some timer) :
    s.timerfds.set t timer = s.timerfds := by
  obtain ⟨hlt, rfl⟩ := List.getElem?_eq_some_iff.1 ht
  exact List.set_getElem_self hlt

/-- Replacing a timer by what a look makes of it. -/
theorem Looked.set {timer timer' : Timerfd} {t' : Nat} {caller : Caller} {look : Look} {s' : System}
    (ht : s.timerfds[t']? = some timer) (hs : s'.timerfds = s.timerfds.set t' timer')
    (h : timer' = seen timer (s.lookAt t' (some (t', caller, look)) env)) :
    Looked s s' t (some (t', caller, look)) env := by
  unfold Looked
  rw [hs]
  by_cases heq : t' = t
  · subst heq
    have hlt := (List.getElem?_eq_some_iff.1 ht).1
    rw [List.getElem?_set_self hlt, ht, h]
    rfl
  · rw [List.getElem?_set_ne heq, lookAt_ne heq]
    exact Option.map_id'.symm

/-- A timer that is not there is not looked at. -/
theorem Looked.absent {t' : Nat} {caller : Caller} {look : Look} {s' : System}
    (ht : s.timerfds[t']? = Option.none) (hs : s'.timerfds = s.timerfds) :
    Looked s s' t (some (t', caller, look)) env := by
  unfold Looked
  rw [hs]
  by_cases heq : t' = t
  · subst heq
    rw [ht]
    rfl
  · rw [lookAt_ne heq]
    exact Option.map_id'.symm

/-- A look at an interest is a look at the timer it names, if it names one. -/
theorem looked_interestEvents (s : System) (target : Target) (caller : Caller) :
    Looked s (s.interestEvents target caller env).2 t
      ((s.timerOf target).map fun t => (t, caller, .scan)) env := by
  unfold interestEvents timerOf
  split
  next htoken =>
    split
    · exact .none rfl
    · split <;> exact .none rfl
  next =>
    cases he : s.lockEventfd target.eventfd with
    | some e =>
      dsimp only
      split <;> exact .none rfl
    | none =>
      dsimp only
      cases htimer : s.lockTimerfd target.timerfd with
      | none => exact .none rfl
      | some t' =>
        dsimp only
        cases hget : s.timerfds[t']? with
        | none => exact .absent hget rfl
        | some timer => exact .set hget rfl (timerfdEvents_seen hget)

/-- What a pass of `timerfd_read` leaves of its timer. -/
theorem checkRead_timerfds {timer : Timerfd} {call : Call} (ht : s.timerfds[t]? = some timer) :
    (s.checkRead call t env).timerfds = s.timerfds.set t
      (if 0 < (timerfdEvents timer call.caller env).1
        then { (timerfdEvents timer call.caller env).2 with ticks := 0 }
        else (timerfdEvents timer call.caller env).2) := by
  unfold checkRead
  rw [ht]
  dsimp only
  generalize timerfdEvents timer call.caller env = r
  split
  next hneg =>
    have hready : ¬ 0 < r.1 := by omega
    rw [finish_timerfds, if_neg hready]
    rfl
  next hneg =>
    split
    next hpos =>
      have hready : 0 < r.1 := by omega
      rw [if_pos hready]
      exact List.set_set _
    next hzero =>
      have hready : ¬ 0 < r.1 := by omega
      rw [if_neg hready]
      split
      · exact finish_timerfds _ _ _ _
      · rfl

/-- A read takes the ticks of a timer that is ready. -/
theorem timerfdEvents_taken {timer : Timerfd} {caller : Caller} (ht : s.timerfds[t]? = some timer) :
    (if 0 < (timerfdEvents timer caller env).1
      then { (timerfdEvents timer caller env).2 with ticks := 0 }
      else (timerfdEvents timer caller env).2) =
        seen timer (s.lookAt t (some (t, caller, .read)) env) := by
  unfold timerfdEvents
  by_cases hvm : timer.vm = caller.vm
  · rw [if_neg (not_not.2 hvm)]
    cases hnow : monotonicNs env with
    | error e =>
      rw [seen_error ht hvm hnow]
      by_cases he : 0 < e
      · rw [if_pos he, if_pos ⟨he, rfl⟩]
      · rw [if_neg he, if_neg fun hc => he hc.1]
    | ok now =>
      rw [seen_now ht hvm hnow, if_pos rfl]
      by_cases hticks : (timerfdRefresh timer now).ticks = 0
      · simp only [hticks, ne_eq, not_true_eq_false, if_false, Int.lt_irrefl]
        rw [← hticks]
      · simp only [hticks, ne_eq, not_false_eq_true, if_true, Int.one_pos]
  · rw [if_pos hvm, seen_foreign ht hvm]
    rfl

/-- A read looks at its timer. -/
theorem looked_checkRead (s : System) (call : Call) (t' : Nat) :
    Looked s (s.checkRead call t' env) t (some (t', call.caller, .read)) env := by
  cases ht : s.timerfds[t']? with
  | none =>
    unfold checkRead
    rw [ht]
    exact .absent ht rfl
  | some timer => exact .set ht (checkRead_timerfds ht) (timerfdEvents_taken ht)

/-- A query looks at the timer of its descriptor. -/
theorem looked_gettime (s : System) (caller : Caller) (fd : Int) :
    Looked s (s.timerfdGettime caller fd env) t
      (((s.get fd).bind (·.timerfd)).map fun t => (t, caller, .gettime)) env := by
  unfold timerfdGettime timerfdNow
  cases s.get fd with
  | none => exact .none rfl
  | some d =>
    dsimp only [Option.bind_some]
    cases d.timerfd with
    | none => exact .none rfl
    | some t' =>
      dsimp only
      cases ht : s.timerfds[t']? with
      | none => exact .absent ht rfl
      | some timer =>
        dsimp only
        by_cases hvm : timer.vm = caller.vm
        · rw [if_neg (not_not.2 hvm)]
          cases hnow : monotonicNs env with
          | error e =>
            refine .set ht (set_same ht).symm ?_
            rw [seen_error ht hvm hnow, if_neg fun hc => nomatch hc.2]
          | ok now =>
            refine .set ht rfl ?_
            rw [seen_now ht hvm hnow, if_neg nofun]
        · rw [if_pos hvm]
          exact .set ht (set_same ht).symm (seen_foreign ht hvm).symm

/-- A new interest is looked at once; other changes look at nothing. -/
theorem looked_applyControl (s : System) (caller : Caller) (ep : Nat) (epoll : Epoll) (operation : Int)
    (interest : Interest) :
    Looked s (s.applyControl caller ep epoll operation interest env).2 t
      (((if (epoll.interests.findIdx? (Interest.names s interest.fd interest.target)).isNone ∧
          operation = 1 ∧ epoll.interests.length ≠ s.interests then some interest.target
        else none).bind s.timerOf).map fun t => (t, caller, .scan)) env := by
  unfold applyControl
  cases epoll.interests.findIdx? (Interest.names s interest.fd interest.target) with
  | some index =>
    have hfound : (if (some index).isNone = true ∧ operation = 1 ∧
        epoll.interests.length ≠ s.interests then some interest.target else none) = none :=
      if_neg fun hc => nomatch hc.1
    rw [hfound]
    dsimp only
    split
    · exact .none rfl
    · split <;> exact .none rfl
  | none =>
    dsimp only
    by_cases hadd : operation = 1
    · rw [if_neg (not_not.2 hadd)]
      by_cases hfull : epoll.interests.length = s.interests
      · have hnone : (if (none : Option Nat).isNone = true ∧ operation = 1 ∧
            epoll.interests.length ≠ s.interests then some interest.target else none) = none :=
          if_neg fun hc => hc.2.2 hfull
        rw [if_pos hfull, hnone]
        exact .none rfl
      · have hsome : (if (none : Option Nat).isNone = true ∧ operation = 1 ∧
            epoll.interests.length ≠ s.interests then some interest.target else none) =
              some interest.target := if_pos ⟨rfl, hadd, hfull⟩
        rw [if_neg hfull, hsome]
        have hlook := @looked_interestEvents env t s interest.target caller
        split
        · exact hlook
        · exact hlook.same rfl
    · have hnone : (if (none : Option Nat).isNone = true ∧ operation = 1 ∧
          epoll.interests.length ≠ s.interests then some interest.target else none) = none :=
        if_neg fun hc => hadd hc.2.1
      rw [if_pos hadd, hnone]
      exact .none rfl

/-- A step of a scan looks at the timer of the interest it is at. -/
theorem looked_scan (s : System) (call : Call) (ep maximum : Nat) (timeout : Int)
    (index remaining copied : Nat) {deadline : Int}
    (hphase : call.phase = .scanning index remaining copied)
    (hop : call.op = .pwait ep maximum timeout deadline) :
    Looked s (s.scan call ep maximum timeout index remaining copied env) t
      (((s.asked call).bind s.timerOf).map fun t => (t, call.caller, .scan)) env := by
  unfold scan asked
  rw [hphase, hop]
  dsimp only
  cases s.epolls[ep]? with
  | none => exact .none rfl
  | some epoll =>
    dsimp only
    by_cases hend : remaining = 0 ∨ epoll.interests = [] ∨ maximum ≤ copied
    · rw [if_pos hend]
      have hnone : (if remaining = 0 ∨ maximum ≤ copied then none
          else epoll.interests[index % epoll.interests.length]?.map (·.target)) = none := by
        rcases hend with h0 | hempty | hfull
        · exact if_pos (.inl h0)
        · rw [hempty]
          exact ite_self _
        · exact if_pos (.inr hfull)
      rw [hnone]
      exact .none (endScan_timerfds _ _ _ _ _)
    · have hmore : ¬ (remaining = 0 ∨ maximum ≤ copied) := fun hc => hend (hc.imp id .inr)
      rw [if_neg hend, if_neg hmore]
      cases epoll.interests[index % epoll.interests.length]? with
      | none => exact .none rfl
      | some interest =>
        have hlook := @looked_interestEvents env t s interest.target call.caller
        dsimp only
        repeat' split
        all_goals first
          | exact hlook.same rfl
          | exact hlook.same (endScan_timerfds _ _ _ _ _)

/-- A step of the reaping looks at what `asked` says. -/
theorem looked_reap (s : System) (call : Call) (ep : Nat) (operation : Int) (interest : Interest)
    (index : Nat) (hphase : call.phase = .reaping index)
    (hop : call.op = .control ep operation interest) :
    Looked s (s.reap call ep operation interest index env) t
      (((s.asked call).bind s.timerOf).map fun t => (t, call.caller, .scan)) env := by
  unfold reap asked
  rw [hphase, hop]
  dsimp only
  cases s.epolls[ep]? with
  | none => exact .none rfl
  | some epoll =>
    dsimp only
    cases epoll.interests[index]? with
    | none =>
      exact (looked_applyControl s call.caller ep epoll operation interest).same
        (finish_timerfds _ _ _ _)
    | some other =>
      have hlook := @looked_interestEvents env t s other.target call.caller
      dsimp only
      split <;> exact hlook.same rfl

/-- The first look of a call is at the timer it reads, if it reads one. -/
theorem looked_check (s : System) (call : Call) (hphase : call.phase = .checking) :
    Looked s (if s.unlocked then s.check call env else s) t (s.callSight call) env := by
  unfold callSight asked check
  rw [hphase]
  by_cases hfree : s.unlocked
  · rw [if_pos hfree]
    cases call.op with
    | read t' address =>
      dsimp only
      rw [if_pos hfree]
      exact looked_checkRead s call t'
    | transfer e writing value => exact .none (checkTransfer_timerfds _ _ _ _ _ _)
    | pwait ep maximum timeout deadline =>
      dsimp only
      split <;> exact .none rfl
    | _ => exact .none rfl
  · rw [if_neg hfree]
    cases call.op with
    | read t' address =>
      dsimp only
      rw [if_neg hfree]
      exact .none rfl
    | _ => exact .none rfl

/-- What a step of a call looks at is told by its phase. -/
theorem looked_advance (s : System) (call : Call) :
    Looked s (s.advance call env) t (s.callSight call) env := by
  have hsight : call.phase ≠ .checking → s.callSight call =
      ((s.asked call).bind s.timerOf).map fun t => (t, call.caller, .scan) := by
    intro hne
    unfold callSight
    split
    next hphase _ => exact absurd hphase hne
    next => rfl
  have hidle : call.phase ≠ .checking → s.asked call = none → s.callSight call = none :=
    fun hne hnone => by rw [hsight hne, hnone]; rfl
  unfold advance
  cases hphase : call.phase with
  | checking => exact looked_check s call hphase
  | scanning index remaining copied =>
    cases hop : call.op with
    | pwait ep maximum timeout deadline =>
      rw [hsight (by rw [hphase]; nofun)]
      exact looked_scan s call ep maximum timeout index remaining copied hphase hop
    | _ =>
      rw [hidle (by rw [hphase]; nofun) (by unfold asked; rw [hphase, hop])]
      exact .none rfl
  | reaping index =>
    cases hop : call.op with
    | control ep operation interest =>
      rw [hsight (by rw [hphase]; nofun)]
      exact looked_reap s call ep operation interest index hphase hop
    | _ =>
      rw [hidle (by rw [hphase]; nofun) (by unfold asked; rw [hphase, hop])]
      exact .none rfl
  | checked =>
    rw [hidle (by rw [hphase]; nofun) (by unfold asked; rw [hphase])]
    exact .none (prepare_timerfds _ _ _)
  | registered =>
    rw [hidle (by rw [hphase]; nofun) (by unfold asked; rw [hphase])]
    exact .none (create_timerfds _ _ _)
  | created =>
    rw [hidle (by rw [hphase]; nofun) (by unfold asked; rw [hphase])]
    exact .none rfl
  | waiting =>
    rw [hidle (by rw [hphase]; nofun) (by unfold asked; rw [hphase])]
    exact .none (wake_timerfds _ _ _)
  | copying value =>
    rw [hidle (by rw [hphase]; nofun) (by unfold asked; rw [hphase])]
    exact .none (finish_timerfds _ _ _ _)

/-! ### Steps -/

/-- A new eventfd leaves the timers. -/
@[simp] theorem eventfd2_timerfds (s : System) (caller : Caller) (initial flags : BitVec 32) :
    (s.eventfd2 caller initial flags).timerfds = s.timerfds := by
  unfold eventfd2
  repeat' split
  all_goals first
    | rfl
    | exact install_timerfds _ _

/-- A new epoll instance leaves the timers. -/
@[simp] theorem epollCreate_timerfds (s : System) (caller : Caller) (flags : BitVec 32) :
    (s.epollCreate caller flags).timerfds = s.timerfds := by
  unfold epollCreate
  repeat' split
  all_goals first
    | rfl
    | exact install_timerfds _ _

/-- A new Binder endpoint leaves the timers. -/
@[simp] theorem openBinder_timerfds (s : System) (caller : Caller) (env : Env) :
    (s.openBinder caller env).timerfds = s.timerfds := by
  unfold openBinder
  repeat' split
  all_goals first
    | rfl
    | exact install_timerfds _ _

/-- The close of a descriptor leaves the timers. -/
@[simp] theorem close_timerfds (s : System) (fd : Int) (env : Env) :
    (s.close fd env).timerfds = s.timerfds := by
  unfold close
  split
  · rfl
  · dsimp only
    rw [reply_timerfds]
    split
    · exact dropBinder_timerfds _ _ _
    · exact dropBinder_timerfds _ _ _

/-- A read or write that begins has not looked at a timer yet. -/
@[simp] theorem transfer_timerfds (s : System) (caller : Caller) (fd : Int) (address count : Nat)
    (writing : Bool) (env : Env) :
    (s.transfer caller fd address count writing env).timerfds = s.timerfds := by
  unfold transfer timerfdRead eventfdTransfer
  repeat' split
  all_goals first
    | rfl
    | (dsimp only; split <;> rfl)

/-- A change of interests that begins has not looked at a timer yet. -/
@[simp] theorem epollCtl_timerfds (s : System) (caller : Caller) (epfd operation fd : Int) (env : Env) :
    (s.epollCtl caller epfd operation fd env).timerfds = s.timerfds := by
  unfold epollCtl
  repeat' split
  all_goals first
    | rfl
    | (dsimp only; split <;> rfl)

/-- A wait for events that begins has not looked at a timer yet. -/
@[simp] theorem epollPwait_timerfds (s : System) (caller : Caller) (epfd : Int) (address : Nat)
    (maximum timeout : Int) (mask : Bool) (size : Nat) (env : Env) :
    (s.epollPwait caller epfd address maximum timeout mask size env).timerfds = s.timerfds := by
  unfold epollPwait
  repeat' split
  all_goals rfl

/-- An ioctl leaves the timers. -/
@[simp] theorem ioctl_timerfds (s : System) (caller : Caller) (fd : Int) :
    (s.ioctl caller fd).timerfds = s.timerfds := by
  unfold ioctl
  repeat' split
  all_goals rfl

/-- A new timer is another one. -/
theorem timerfdCreate_timer {timer : Timerfd} (ht : s.timerfds[t]? = some timer) (caller : Caller)
    (clock flags : BitVec 32) : (s.timerfdCreate caller clock flags).timerfds[t]? = some timer := by
  have hlt := (List.getElem?_eq_some_iff.1 ht).1
  unfold timerfdCreate
  repeat' split
  · exact ht
  · exact ht
  · exact ht
  · exact ht
  · rw [install_timerfds, List.getElem?_append_left hlt]
    exact ht

/-- The timer that timerfd_settime and timerfd_gettime are about. -/
theorem timerfdNow_ok {caller : Caller} {fd : Int} {timer' : Timerfd} {now : Int}
    (h : s.timerfdNow caller fd env = .ok (t, timer', now)) :
    (s.get fd).bind (·.timerfd) = some t ∧ monotonicNs env = .ok now ∧
      ∃ timer, s.timerfds[t]? = some timer ∧ timer.vm = caller.vm ∧ timer' = timerfdRefresh timer now := by
  unfold timerfdNow at h
  cases hget : s.get fd with
  | none => rw [hget] at h; cases h
  | some d =>
    rw [hget] at h
    dsimp only [Option.bind_some] at h ⊢
    cases hd : d.timerfd with
    | none => rw [hd] at h; cases h
    | some t' =>
      rw [hd] at h
      dsimp only at h
      cases ht : s.timerfds[t']? with
      | none => rw [ht] at h; cases h
      | some timer =>
        rw [ht] at h
        dsimp only at h
        by_cases hvm : timer.vm = caller.vm
        · rw [if_neg (not_not.2 hvm)] at h
          cases hnow : monotonicNs env with
          | error e => rw [hnow] at h; cases h
          | ok now' =>
            rw [hnow] at h
            cases h
            exact ⟨rfl, rfl, timer, ht, hvm, rfl⟩
        · rw [if_pos hvm] at h
          cases h

/-- Setting another timer. -/
theorem timerfdSettime_timer {timer : Timerfd} (ht : s.timerfds[t]? = some timer) {caller : Caller}
    {fd : Int} {flags : BitVec 32} {out : Bool} (hset : (s.get fd).bind (·.timerfd) ≠ some t) :
    (s.timerfdSettime caller fd flags out env).timerfds[t]? = some timer := by
  unfold timerfdSettime
  cases timerfdNew flags env with
  | error e => exact ht
  | ok asked =>
    dsimp only
    cases hnow : s.timerfdNow caller fd env with
    | error e => exact ht
    | ok found =>
      obtain ⟨t', timer', now⟩ := found
      have hne : t' ≠ t := by
        rintro rfl
        exact hset (timerfdNow_ok hnow).1
      dsimp only
      split
      · exact (List.getElem?_set_ne hne).trans ht
      · exact (List.getElem?_set_ne hne).trans ht

/-- What a step that does not set a timer makes of it: it is looked at once, or not at all. -/
theorem perform_timer {timer : Timerfd} (ht : s.timerfds[t]? = some timer) {a : Action}
    (hset : ¬ s.Sets t a) :
    (perform s a env).timerfds[t]? = some (seen timer (s.observation t a env)) := by
  have hlook : ∀ {s' : System} {sight : Option (Nat × Caller × Look)}, Looked s s' t sight env →
      s'.timerfds[t]? = some (seen timer (s.lookAt t sight env)) := by
    intro s' sight h
    unfold Looked at h
    rw [h, ht]
    rfl
  have hquiet : ∀ {s' : System}, s'.timerfds[t]? = some timer →
      s'.timerfds[t]? = some (seen timer (s.lookAt t none env)) := fun h => h
  cases a with
  | advance id =>
    unfold perform observation sight
    dsimp only
    cases s.calls.find? fun c => c.id == id with
    | none => exact hquiet ht
    | some call => exact hlook (looked_advance s call)
  | binderChanged => exact hquiet ht
  | reapClosed token =>
    unfold perform
    dsimp only
    split <;> exact hquiet ht
  | timerfdGettime caller fd =>
    unfold perform observation sight
    dsimp only
    split
    next => exact hlook (looked_gettime s caller fd)
    next => exact hquiet ht
  | timerfdSettime caller fd flags out =>
    unfold perform
    dsimp only
    split
    · exact hquiet (timerfdSettime_timer ht fun hc => hset ⟨caller, fd, flags, out, rfl, hc⟩)
    · exact hquiet ht
  | timerfdCreate caller clock flags =>
    unfold perform
    dsimp only
    split
    · exact hquiet (timerfdCreate_timer ht caller clock flags)
    · exact hquiet ht
  | openOther kind =>
    unfold perform
    dsimp only
    split
    · split
      · exact hquiet ht
      · exact hquiet (by rw [install_timerfds]; exact ht)
    · exact hquiet ht
  | _ =>
    unfold perform
    dsimp only
    split
    · exact hquiet (by simpa using ht)
    · exact hquiet ht

/-- The deadline that timerfd_settime sets. -/
def deadlineOf (flags : BitVec 32) (value now : Int) : Int :=
  if value = 0 ∨ flags &&& 1 ≠ 0 then value
  else if int64Max - now < value then int64Max else now + value

/-- timerfd_settime arms its timer and forgets its ticks. -/
theorem timerfdSettime_arms {caller : Caller} {fd : Int} {flags : BitVec 32} {out : Bool}
    {interval value now : Int} {timer : Timerfd} (hnew : timerfdNew flags env = .ok (interval, value))
    (hnow : s.timerfdNow caller fd env = .ok (t, timer, now)) :
    (s.timerfdSettime caller fd flags out env).timerfds[t]? =
      some { timer with interval, deadline := deadlineOf flags value now, ticks := 0 } := by
  obtain ⟨_, _, timer', ht, _⟩ := timerfdNow_ok hnow
  have hlt := (List.getElem?_eq_some_iff.1 ht).1
  unfold timerfdSettime
  rw [hnew, hnow]
  dsimp only
  split <;> exact List.getElem?_set_self hlt

/-! ### What is read -/

/-- The value that a call hands to the copy of a read of timer `t`, when a step leaves it as `call'`. -/
def handed (t : Nat) (call call' : Call) : Nat :=
  match call.op, call.phase, call'.phase with
  | .read t' _, .checking, .copying value => if t' = t then value.toNat else 0
  | _, _, _ => 0

/-- The value that a step hands to the copy of a read of timer `t`. The copy itself is a later step; when
it fails, the value was read all the same. -/
def valueRead (t : Nat) (s : System) (a : Action) (env : Env) : Nat :=
  match a with
  | .advance id =>
    match s.calls.find? fun c => c.id == id, (s.perform a env).calls.find? fun c => c.id == id with
    | some call, some call' => handed t call call'
    | _, _ => 0
  | _ => 0

/-- The value that an observation, if there is one, reads. -/
def valueSeen (timer : Timerfd) (o : Option Observation) : Nat :=
  match o with
  | none => 0
  | some o => (timer.observe o).1

/-- A call that is not at the first look of a read hands nothing over. -/
theorem handed_zero {call call' : Call}
    (h : call.phase ≠ .checking ∨ ∀ t' address, call.op ≠ .read t' address) : handed t call call' = 0 := by
  unfold handed
  split
  next hop hphase _ => exact h.elim (absurd hphase) fun hnot => absurd hop (hnot _ _)
  · rfl

/-- Only a read takes a value. -/
theorem valueSeen_scan {timer : Timerfd} {t' : Nat} {caller : Caller} {look : Look} (hlook : look ≠ .read) :
    valueSeen timer (s.lookAt t (some (t', caller, look)) env) = 0 := by
  have hvalue : ∀ now, (timer.observe ⟨look, now⟩).1 = 0 := by
    intro now
    cases look with
    | read => exact absurd rfl hlook
    | gettime | scan => rfl
  unfold lookAt
  split
  next heq _ =>
    cases heq
    split
    · split
      · exact hvalue _
      · split
        · exact hvalue _
        · rfl
    · rfl
  · rfl

/-- A look at a timer to read it finds the ticks of a timer that is ready. -/
theorem valueSeen_read {timer : Timerfd} {caller : Caller} (ht : s.timerfds[t]? = some timer) :
    valueSeen timer (s.lookAt t (some (t, caller, .read)) env) =
      if 0 < (timerfdEvents timer caller env).1 then (timerfdEvents timer caller env).2.ticks else 0 := by
  by_cases hvm : timer.vm = caller.vm
  · cases hnow : monotonicNs env with
    | ok now =>
      have hevents : timerfdEvents timer caller env =
          (if (timerfdRefresh timer now).ticks ≠ 0 then 1 else 0, timerfdRefresh timer now) := by
        unfold timerfdEvents
        rw [if_neg (not_not.2 hvm), hnow]
      have hlook : s.lookAt t (some (t, caller, .read)) env = some ⟨.read, some now⟩ := by
        unfold lookAt
        rw [ht, hnow]
        exact if_pos ⟨rfl, hvm⟩
      rw [hlook, hevents]
      show (timerfdRefresh timer now).ticks = _
      by_cases hticks : (timerfdRefresh timer now).ticks = 0 <;> simp [hticks]
    | error e =>
      have hevents : timerfdEvents timer caller env = (e, timer) := by
        unfold timerfdEvents
        rw [if_neg (not_not.2 hvm), hnow]
      have hlook : s.lookAt t (some (t, caller, .read)) env = if 0 < e then some ⟨.read, none⟩ else none := by
        unfold lookAt
        rw [ht, hnow]
        exact if_pos ⟨rfl, hvm⟩
      rw [hlook, hevents]
      by_cases he : 0 < e
      · rw [if_pos he, if_pos he]
        rfl
      · rw [if_neg he, if_neg he]
        rfl
  · have hevents : timerfdEvents timer caller env = (-95, timer) := if_pos hvm
    have hlook : s.lookAt t (some (t, caller, .read)) env = none := by
      unfold lookAt
      rw [ht]
      exact if_neg fun hc => hvm hc.2
    rw [hlook, hevents]
    rfl

/-- A call that moves on is found in its new phase. -/
theorem find_setPhase {call : Call} (h : (s.calls.find? fun c => c.id == call.id) = some call) (phase : Phase) :
    ((s.setPhase call.id phase).calls.find? fun c => c.id == call.id) = some { call with phase } := by
  have hid : ((fun c : Call => c.id == call.id) ∘ fun c : Call => if c.id = call.id then { c with phase } else c) =
      fun c => c.id == call.id := by
    funext c
    show ((if c.id = call.id then { c with phase } else c).id == call.id) = _
    split <;> rfl
  show (s.calls.map _).find? _ = _
  rw [List.find?_map, hid, h]
  exact congrArg some (if_pos rfl)

/-- A call that returned is not found. -/
theorem find_finish (s : System) (call : Call) (result : Int) (env : Env) :
    ((s.finish call result env).calls.find? fun c => c.id == call.id) = none := by
  have hcalls : (s.finish call result env).calls = s.calls.filter fun c => c.id != call.id := by
    unfold finish dropBinder
    repeat' split
    all_goals rfl
  rw [hcalls]
  refine List.find?_eq_none.2 fun c hc hid => ?_
  exact absurd (beq_iff_eq.1 hid) (bne_iff_ne.1 (List.mem_filter.1 hc).2)

/-- What a pass of `timerfd_read` hands to its copy are the ticks of a timer that is ready, whether the
copy then fails or not. -/
theorem checkRead_value {timer : Timerfd} {call : Call} (ht : s.timerfds[t]? = some timer)
    (hcall : (s.calls.find? fun c => c.id == call.id) = some call)
    (hfits : (timerfdEvents timer call.caller env).2.ticks ≤ uint64Max.toNat) {address : Nat}
    (hop : call.op = .read t address) (hphase : call.phase = .checking) :
    (((s.checkRead call t env).calls.find? fun c => c.id == call.id).elim 0 (handed t call)) =
      if 0 < (timerfdEvents timer call.caller env).1 then (timerfdEvents timer call.caller env).2.ticks else 0 := by
  have hmax : uint64Max.toNat = 2 ^ 64 - 1 := rfl
  unfold checkRead
  rw [ht]
  dsimp only
  generalize timerfdEvents timer call.caller env = r at hfits ⊢
  split
  next hneg =>
    have hready : ¬ 0 < r.1 := by omega
    rw [find_finish, if_neg hready]
    rfl
  next hneg =>
    split
    next hpos =>
      have hready : 0 < r.1 := by omega
      rw [find_setPhase (by exact hcall), if_pos hready]
      show handed t call _ = _
      unfold handed
      rw [hop, hphase]
      dsimp only
      rw [if_pos rfl, BitVec.toNat_ofNat]
      exact Nat.mod_eq_of_lt (by omega)
    next hzero =>
      have hready : ¬ 0 < r.1 := by omega
      rw [if_neg hready]
      split
      · rw [find_finish]
        rfl
      · rw [find_setPhase (by exact hcall)]
        show handed t call _ = _
        unfold handed
        rw [hop, hphase]

/-- Ticks stay in the range of what the code can hold. -/
theorem timerfdRefresh_ticks {timer : Timerfd} (h : timer.ticks ≤ uint64Max.toNat) (now : Int) :
    (timerfdRefresh timer now).ticks ≤ uint64Max.toNat := by
  unfold timerfdRefresh
  split
  · exact h
  · dsimp only
    generalize (if timer.interval ≠ 0 then 1 + ((now - timer.deadline) / timer.interval).toNat else 1) = count
    split
    · exact Nat.le_refl _
    · omega

/-- The ticks stay in 64 bits when a timer is observed. -/
theorem observe_ticks {timer : Timerfd} (h : timer.ticks ≤ uint64Max.toNat) (o : Observation) :
    (timer.observe o).2.ticks ≤ uint64Max.toNat := by
  have hnow : (o.now.elim timer (timerfdRefresh timer)).ticks ≤ uint64Max.toNat := by
    cases o.now with
    | none => exact h
    | some now => exact timerfdRefresh_ticks h now
  unfold Timerfd.observe
  cases o.look with
  | read => exact Nat.zero_le _
  | gettime | scan => exact hnow

/-- The ticks stay in 64 bits when a timer's events are asked for. -/
theorem timerfdEvents_ticks {timer : Timerfd} (h : timer.ticks ≤ uint64Max.toNat) (caller : Caller) (env : Env) :
    (timerfdEvents timer caller env).2.ticks ≤ uint64Max.toNat := by
  unfold timerfdEvents
  split
  · exact h
  · split
    · exact h
    · exact timerfdRefresh_ticks h _

/-- A call of read goes on: it hands the ticks of its own timer to the copy, or waits for the mutex. -/
theorem advance_value {timer : Timerfd} (ht : s.timerfds[t]? = some timer) (hticks : timer.ticks ≤ uint64Max.toNat)
    {call : Call} (hcall : (s.calls.find? fun c => c.id == call.id) = some call) {t' address : Nat}
    (hop : call.op = .read t' address) (hphase : call.phase = .checking) :
    (match some call, (s.advance call env).calls.find? fun c => c.id == call.id with
      | some call, some call' => handed t call call'
      | _, _ => 0) = valueSeen timer (s.lookAt t (s.callSight call) env) := by
  have hadvance : s.advance call env = if s.unlocked then s.checkRead call t' env else s := by
    unfold advance check
    rw [hphase, hop]
  have hsight : s.callSight call = if s.unlocked then some (t', call.caller, .read) else none := by
    unfold callSight
    rw [hphase, hop]
  have helim : ∀ o : Option Call, (match some call, o with
      | some call, some call' => handed t call call'
      | _, _ => 0) = o.elim 0 (handed t call) := by
    intro o
    cases o <;> rfl
  rw [hadvance, hsight, helim]
  by_cases hfree : s.unlocked
  · rw [if_pos hfree, if_pos hfree]
    by_cases heq : t' = t
    · subst heq
      rw [valueSeen_read ht]
      exact checkRead_value ht hcall (timerfdEvents_ticks hticks _ _) hop hphase
    · rw [lookAt_ne heq]
      cases (s.checkRead call t' env).calls.find? fun c => c.id == call.id with
      | none => rfl
      | some call' =>
        show handed t call call' = 0
        unfold handed
        rw [hop, hphase]
        split
        next hread _ _ =>
          cases hread
          exact if_neg heq
        · rfl
  · rw [if_neg hfree, if_neg hfree, hcall]
    show handed t call call = 0
    unfold handed
    rw [hop, hphase]

/-- The value a step hands to the copy of a read of a timer is what its observation of the timer reads. -/
theorem valueRead_eq {timer : Timerfd} (ht : s.timerfds[t]? = some timer) (hticks : timer.ticks ≤ uint64Max.toNat)
    (a : Action) : valueRead t s a env = valueSeen timer (s.observation t a env) := by
  cases a with
  | advance id =>
    unfold valueRead observation sight
    dsimp only
    cases hfind : s.calls.find? fun c => c.id == id with
    | none => rfl
    | some call =>
      have hid : call.id = id := beq_iff_eq.1 (List.find?_some (p := fun c : Call => c.id == id) hfind)
      subst hid
      have hstep : s.perform (.advance call.id) env = s.advance call env := by
        unfold perform
        dsimp only
        rw [hfind]
      rw [hstep]
      by_cases hread : call.phase = .checking ∧ ∃ t' address, call.op = .read t' address
      · obtain ⟨hphase, t', address, hop⟩ := hread
        exact advance_value ht hticks hfind hop hphase
      · -- any other step of a call hands nothing out, and looks at timers as epoll does
        have hnot : call.phase ≠ .checking ∨ ∀ t' address, call.op ≠ .read t' address := by
          by_cases hphase : call.phase = .checking
          · exact .inr fun t' address hop => hread ⟨hphase, t', address, hop⟩
          · exact .inl hphase
        have hsight : s.callSight call = ((s.asked call).bind s.timerOf).map fun t => (t, call.caller, .scan) := by
          unfold callSight
          split
          next hphase hop => exact absurd ⟨hphase, _, _, hop⟩ hread
          · rfl
        have hzero : valueSeen timer (s.lookAt t (s.callSight call) env) = 0 := by
          rw [hsight]
          cases (s.asked call).bind s.timerOf with
          | none => rfl
          | some t' => exact valueSeen_scan nofun
        rw [hzero]
        cases (s.advance call env).calls.find? fun c => c.id == call.id with
        | none => rfl
        | some call' => exact handed_zero hnot
  | timerfdGettime caller fd =>
    unfold observation sight
    dsimp only
    split
    · cases (s.get fd).bind (·.timerfd) with
      | none => rfl
      | some t' => exact (valueSeen_scan Look.noConfusion).symm
    · rfl
  | _ => rfl

/-! ### Runs -/

/-- The observations of timer `t` in a run. -/
def observations (t : Nat) : System → List (Action × Env) → List Observation
  | _, [] => []
  | s, (a, env) :: run => (s.observation t a env).toList ++ observations t (s.perform a env) run

/-- The sum of the values that a run hands to the copies of reads of timer `t`. -/
def valuesRead (t : Nat) : System → List (Action × Env) → Nat
  | _, [] => 0
  | s, (a, env) :: run => valueRead t s a env + valuesRead t (s.perform a env) run

/-- No step of the run sets timer `t`. -/
def Undisturbed (t : Nat) : System → List (Action × Env) → Prop
  | _, [] => True
  | s, (a, env) :: run => ¬ s.Sets t a ∧ Undisturbed t (s.perform a env) run

/-- One observation or none is a list of observations. -/
theorem seen_eq {timer : Timerfd} (o : Option Observation) : seen timer o = (timer.watch o.toList).2 := by
  cases o <;> rfl

/-- Observations after others start from the timer these left. -/
theorem watch_append (timer : Timerfd) (obs obs' : List Observation) :
    (timer.watch (obs ++ obs')).2 = ((timer.watch obs).2.watch obs').2 := by
  induction obs generalizing timer with
  | nil => rfl
  | cons o obs ih => exact ih _

/-- A run that does not set a timer looks at it. -/
theorem run_timer {timer : Timerfd} (ht : s.timerfds[t]? = some timer) {run : List (Action × Env)}
    (h : Undisturbed t s run) :
    (run.foldl (fun s x => s.perform x.1 x.2) s).timerfds[t]? =
      some (timer.watch (observations t s run)).2 := by
  induction run generalizing s timer with
  | nil => exact ht
  | cons x run ih =>
    obtain ⟨a, env⟩ := x
    obtain ⟨hset, hrest⟩ := h
    have hstep := ih (perform_timer ht hset) hrest
    show (run.foldl _ (s.perform a env)).timerfds[t]? = _
    rw [hstep, observations, watch_append, ← seen_eq]

/-- The values read by two lists of observations add up. -/
theorem watch_append_value (timer : Timerfd) (obs obs' : List Observation) :
    (timer.watch (obs ++ obs')).1 = (timer.watch obs).1 + ((timer.watch obs).2.watch obs').1 := by
  induction obs generalizing timer with
  | nil => exact (Nat.zero_add _).symm
  | cons o obs ih =>
    show (timer.observe o).1 + ((timer.observe o).2.watch (obs ++ obs')).1 = _
    rw [ih, ← Nat.add_assoc]
    rfl

/-- The value of one observation or none is that of the list. -/
theorem valueSeen_eq (timer : Timerfd) (o : Option Observation) : valueSeen timer o = (timer.watch o.toList).1 := by
  cases o <;> rfl

/-- What a run hands to the copies of reads is what its observations read. -/
theorem run_values {timer : Timerfd} (ht : s.timerfds[t]? = some timer) (hticks : timer.ticks ≤ uint64Max.toNat)
    {run : List (Action × Env)} (h : Undisturbed t s run) :
    valuesRead t s run = (timer.watch (observations t s run)).1 := by
  induction run generalizing s timer with
  | nil => rfl
  | cons x run ih =>
    obtain ⟨a, env⟩ := x
    obtain ⟨hset, hrest⟩ := h
    have hseen : (seen timer (s.observation t a env)).ticks ≤ uint64Max.toNat := by
      cases s.observation t a env with
      | none => exact hticks
      | some o => exact observe_ticks hticks o
    show valueRead t s a env + valuesRead t (s.perform a env) run = _
    rw [valueRead_eq ht hticks, ih (perform_timer ht hset) hseen hrest, observations, watch_append_value,
      ← valueSeen_eq, ← seen_eq]

/-! ## Arithmetic -/

open Overflow

/-- The count of `timerfd_refresh`. -/
def countChecked (timer : Timerfd) (now : Int) : Option Nat :=
  if timer.interval ≠ 0 then do
    let late ← signed (now - timer.deadline)
    let periods ← signed (late.tdiv timer.interval)
    add64 1 periods.toNat
  else some 1

/-- The ticks of `timerfd_refresh`. -/
def ticksChecked (timer : Timerfd) (count : Nat) : Option Nat := do
  let room ← sub64 uint64Max.toNat timer.ticks
  if room < count then some uint64Max.toNat else add64 timer.ticks count

/-- The next deadline of `timerfd_refresh`. -/
def nextChecked (timer : Timerfd) (now : Int) (count : Nat) : Option Int :=
  if timer.interval = 0 ∨ now = int64Max then some 0
  else do
    let left ← signed (int64Max - timer.deadline)
    let periods ← signed (left.tdiv timer.interval)
    if periods.toNat < count then some int64Max
    else do
      let signedCount ← signed count
      let step ← signed (signedCount * timer.interval)
      signed (timer.deadline + step)

/-- `timerfd_refresh` -/
def refreshChecked (timer : Timerfd) (now : Int) : Option Timerfd :=
  if timer.deadline = 0 ∨ now < timer.deadline then some timer
  else do
    let count ← countChecked timer now
    let ticks ← ticksChecked timer count
    let deadline ← nextChecked timer now count
    some { timer with ticks, deadline }

/-- `monotonic_ns` -/
def monotonicChecked (env : Env) : Option (Except Int Int) :=
  match env.clock with
  | none => some (.error (-95))
  | some (error, seconds, nanoseconds) =>
    if error ≠ 0 then some (.error error)
    else if seconds < 0 ∨ nanoseconds < 0 ∨ 1000000000 ≤ nanoseconds then some (.error (-75))
    else do
      let left ← signed (int64Max - nanoseconds)
      let limit ← signed (left.tdiv 1000000000)
      if limit < seconds then some (.error (-75))
      else do
        let whole ← signed (seconds * 1000000000)
        let value ← signed (whole + nanoseconds)
        some (.ok value)

/-- `timerfd_duration` -/
def durationChecked (bytes : List UInt8) (offset : Nat) : Option (Option Int) :=
  let seconds := (BitVec.ofNat 64 (Bytes.field bytes offset 8)).toInt
  let nanos := (BitVec.ofNat 64 (Bytes.field bytes (offset + 8) 8)).toInt
  if seconds < 0 ∨ nanos < 0 ∨ 1000000000 ≤ nanos then some none
  else do
    let left ← signed (int64Max - nanos)
    let limit ← signed (left.tdiv 1000000000)
    if limit < seconds then some (some int64Max)
    else do
      let whole ← signed (seconds * 1000000000)
      let value ← signed (whole + nanos)
      some (some value)

/-- The deadline of timerfd_settime. -/
def deadlineChecked (flags : BitVec 32) (value now : Int) : Option Int :=
  if value = 0 ∨ flags &&& 1 ≠ 0 then some value
  else do
    let left ← signed (int64Max - now)
    if left < value then some int64Max
    else signed (now + value)

/-- The fields of a timer are in the range of what the code can hold. -/
structure InRange (timer : Timerfd) : Prop where
  deadline : 0 ≤ timer.deadline ∧ timer.deadline ≤ int64Max
  interval : 0 ≤ timer.interval ∧ timer.interval ≤ int64Max
  ticks : timer.ticks ≤ uint64Max.toNat

/-- No step on the way from seconds and nanoseconds to a value overflows. -/
theorem nanoseconds_fit {seconds nanos : Int} (hs : 0 ≤ seconds) (hn : 0 ≤ nanos)
    (hn' : nanos < 1000000000) :
    signed (int64Max - nanos) = some (int64Max - nanos) ∧
      signed ((int64Max - nanos).tdiv 1000000000) = some ((int64Max - nanos) / 1000000000) ∧
      (¬ (int64Max - nanos) / 1000000000 < seconds →
        signed (seconds * 1000000000) = some (seconds * 1000000000) ∧
          signed (seconds * 1000000000 + nanos) = some (seconds * 1000000000 + nanos)) := by
  have hmax : int64Max = 2 ^ 63 - 1 := rfl
  refine ⟨signed_eq (by omega), ?_, fun hle => ⟨signed_eq (by omega), signed_eq (by omega)⟩⟩
  rw [Int.tdiv_eq_ediv_of_nonneg (by omega)]
  exact signed_eq (by omega)

/-- The clock is read without overflow. -/
theorem monotonicChecked_eq (env : Env) : monotonicChecked env = some (monotonicNs env) := by
  unfold monotonicChecked monotonicNs
  cases env.clock with
  | none => rfl
  | some answer =>
    obtain ⟨error, seconds, nanoseconds⟩ := answer
    dsimp only
    by_cases he : error ≠ 0
    · rw [if_pos he, if_pos he]
    · rw [if_neg he, if_neg he]
      by_cases hrange : seconds < 0 ∨ nanoseconds < 0 ∨ 1000000000 ≤ nanoseconds
      · have hrange' : seconds < 0 ∨ nanoseconds < 0 ∨ 1000000000 ≤ nanoseconds ∨
            (int64Max - nanoseconds) / 1000000000 < seconds := by omega
        rw [if_pos hrange, if_pos hrange']
      · obtain ⟨hleft, hlimit, hfit⟩ := nanoseconds_fit (by omega : 0 ≤ seconds)
          (by omega : 0 ≤ nanoseconds) (by omega)
        rw [if_neg hrange]
        simp only [hleft, hlimit, Option.bind_eq_bind, Option.bind_some]
        by_cases hover : (int64Max - nanoseconds) / 1000000000 < seconds
        · rw [if_pos hover, if_pos (.inr (.inr (.inr hover)))]
        · obtain ⟨hwhole, hvalue⟩ := hfit hover
          have hfine : ¬ (seconds < 0 ∨ nanoseconds < 0 ∨ 1000000000 ≤ nanoseconds ∨
            (int64Max - nanoseconds) / 1000000000 < seconds) := by omega
          rw [if_neg hover, hwhole, Option.bind_some, hvalue, if_neg hfine]
          rfl

/-- A duration is read without overflow. -/
theorem durationChecked_eq (bytes : List UInt8) (offset : Nat) :
    durationChecked bytes offset = some (timerfdDuration bytes offset) := by
  unfold durationChecked timerfdDuration
  dsimp only
  generalize (BitVec.ofNat 64 (Bytes.field bytes offset 8)).toInt = seconds
  generalize (BitVec.ofNat 64 (Bytes.field bytes (offset + 8) 8)).toInt = nanos
  by_cases hrange : seconds < 0 ∨ nanos < 0 ∨ 1000000000 ≤ nanos
  · rw [if_pos hrange, if_pos hrange]
  · obtain ⟨hleft, hlimit, hfit⟩ := nanoseconds_fit (by omega : 0 ≤ seconds) (by omega : 0 ≤ nanos)
      (by omega)
    rw [if_neg hrange, if_neg hrange]
    simp only [hleft, hlimit, Option.bind_eq_bind, Option.bind_some]
    by_cases hover : (int64Max - nanos) / 1000000000 < seconds
    · rw [if_pos hover, if_pos hover]
    · obtain ⟨hwhole, hvalue⟩ := hfit hover
      rw [if_neg hover, if_neg hover, hwhole, Option.bind_some, hvalue]
      rfl

/-- A deadline is computed without overflow. -/
theorem deadlineChecked_eq {flags : BitVec 32} {value now : Int} (hv : 0 ≤ value ∧ value ≤ int64Max)
    (hn : 0 ≤ now ∧ now ≤ int64Max) :
    deadlineChecked flags value now = some (deadlineOf flags value now) := by
  have hmax : int64Max = 2 ^ 63 - 1 := rfl
  unfold deadlineChecked deadlineOf
  split
  · rfl
  · rw [signed_eq (by omega), Option.bind_eq_bind, Option.bind_some]
    split
    · rfl
    · exact signed_eq (by omega)

/-- The expirations are counted without overflow, and their number fits. -/
theorem countChecked_eq {timer : Timerfd} (h : InRange timer) {now : Int} (hn : now ≤ int64Max)
    (hle : timer.deadline ≤ now) :
    ∃ count : Nat, countChecked timer now = some count ∧ count ≤ 2 ^ 63 ∧
      count = if timer.interval ≠ 0 then 1 + ((now - timer.deadline) / timer.interval).toNat else 1 := by
  have hmax : int64Max = 2 ^ 63 - 1 := rfl
  obtain ⟨hdeadline, hinterval, _⟩ := h
  unfold countChecked
  by_cases hi : timer.interval ≠ 0
  · have hquot := Int.ediv_le_self timer.interval (a := now - timer.deadline) (by omega)
    have hpos : 0 ≤ (now - timer.deadline) / timer.interval := Int.ediv_nonneg (by omega) hinterval.1
    rw [if_pos hi, if_pos hi]
    refine ⟨_, ?_, ?_, rfl⟩
    · rw [signed_eq (by omega), Option.bind_eq_bind, Option.bind_some,
        Int.tdiv_eq_ediv_of_nonneg (by omega), signed_eq (by omega), Option.bind_some]
      exact add64_eq (by omega)
    · omega
  · rw [if_neg hi, if_neg hi]
    exact ⟨1, rfl, by omega, rfl⟩

/-- The ticks are added up without overflow. -/
theorem ticksChecked_eq {timer : Timerfd} (h : InRange timer) (count : Nat) :
    ticksChecked timer count =
      some (if uint64Max.toNat - timer.ticks < count then uint64Max.toNat else timer.ticks + count) := by
  have humax : uint64Max.toNat = 2 ^ 64 - 1 := rfl
  have hticks := h.ticks
  unfold ticksChecked
  rw [sub64_eq hticks, Option.bind_eq_bind, Option.bind_some]
  split
  · rfl
  · exact add64_eq (by omega)

/-- The next deadline is computed without overflow. -/
theorem nextChecked_eq {timer : Timerfd} (h : InRange timer) (now : Int) {count : Nat}
    (hcount : count ≤ 2 ^ 63) :
    nextChecked timer now count =
      some (if timer.interval = 0 ∨ now = int64Max then 0
        else if ((int64Max - timer.deadline) / timer.interval).toNat < count then int64Max
        else timer.deadline + count * timer.interval) := by
  have hmax : int64Max = 2 ^ 63 - 1 := rfl
  obtain ⟨hdeadline, hinterval, _⟩ := h
  unfold nextChecked
  by_cases hdone : timer.interval = 0 ∨ now = int64Max
  · rw [if_pos hdone, if_pos hdone]
  · have hleft : 0 ≤ (int64Max - timer.deadline) / timer.interval :=
      Int.ediv_nonneg (by omega) hinterval.1
    have hle := Int.ediv_le_self timer.interval (a := int64Max - timer.deadline) (by omega)
    rw [if_neg hdone, if_neg hdone, signed_eq (by omega), Option.bind_eq_bind, Option.bind_some,
      Int.tdiv_eq_ediv_of_nonneg (by omega), signed_eq (by omega), Option.bind_some]
    by_cases hover : ((int64Max - timer.deadline) / timer.interval).toNat < count
    · rw [if_pos hover, if_pos hover]
    · -- the product is below what is left, so count fits as well
      have hfit : (count : Int) * timer.interval ≤ int64Max - timer.deadline :=
        Int.le_trans (Int.mul_le_mul_of_nonneg_right (by omega) hinterval.1)
          (Int.ediv_mul_le _ (by omega))
      have hstep : 0 ≤ (count : Int) * timer.interval := Int.mul_nonneg (by omega) hinterval.1
      rw [if_neg hover, if_neg hover, signed_eq (by omega), Option.bind_some, signed_eq (by omega),
        Option.bind_some]
      exact signed_eq (by omega)

/-- A timer is brought up to date without overflow. -/
theorem refreshChecked_eq {timer : Timerfd} (h : InRange timer) {now : Int} (hn : now ≤ int64Max) :
    refreshChecked timer now = some (timerfdRefresh timer now) := by
  unfold refreshChecked timerfdRefresh
  by_cases hwait : timer.deadline = 0 ∨ now < timer.deadline
  · rw [if_pos hwait, if_pos hwait]
  · obtain ⟨count, hcount, hbound, heq⟩ := countChecked_eq h hn (by omega)
    rw [if_neg hwait, if_neg hwait, hcount, Option.bind_eq_bind, Option.bind_some,
      ticksChecked_eq h count, Option.bind_eq_bind, Option.bind_some, nextChecked_eq h now hbound, heq]
    rfl

/-! ## Conservation -/

/-- The range of what timerfd_settime is asked for. -/
theorem timerfdDuration_range {bytes : List UInt8} {offset : Nat} {value : Int}
    (h : timerfdDuration bytes offset = some value) : 0 ≤ value ∧ value ≤ int64Max := by
  have hmax : int64Max = 2 ^ 63 - 1 := rfl
  unfold timerfdDuration at h
  dsimp only at h
  generalize (BitVec.ofNat 64 (Bytes.field bytes offset 8)).toInt = seconds at h
  generalize (BitVec.ofNat 64 (Bytes.field bytes (offset + 8) 8)).toInt = nanos at h
  split at h
  · cases h
  · split at h
    · cases h
      omega
    · cases h
      omega

/-- What the clock says is not negative and fits. -/
theorem monotonicNs_range {now : Int} (h : monotonicNs env = .ok now) : 0 ≤ now ∧ now ≤ int64Max := by
  have hmax : int64Max = 2 ^ 63 - 1 := rfl
  unfold monotonicNs at h
  cases hclock : env.clock with
  | none => rw [hclock] at h; cases h
  | some answer =>
    obtain ⟨error, seconds, nanoseconds⟩ := answer
    rw [hclock] at h
    dsimp only at h
    split at h
    · cases h
    · split at h
      · cases h
      · cases h
        omega

/-- What a timer has accounted for keeps it in range. -/
theorem inRange {d i last : Int} {n : Nat} {timer : Timerfd} (h : Due d i last n timer) (hd : 0 < d)
    (hi : 0 ≤ i ∧ i ≤ int64Max) (hticks : timer.ticks ≤ n) (hn : n ≤ uint64Max.toNat) :
    InRange timer := by
  have hmax : int64Max = 2 ^ 63 - 1 := rfl
  have hprod : 0 ≤ (n : Int) * i := Int.mul_nonneg (by omega) hi.1
  refine ⟨?_, by rw [h.interval]; exact hi, by omega⟩
  rcases h.deadline with ⟨_, _, h0⟩ | ⟨_, hdl⟩
  · omega
  · omega

/-- Expirations of an armed timer are conserved, whoever looks at it and when: the values handed to the
copies of its reads and the unread ticks make up all of them. The deadline it keeps is zero or ahead; it
is armed by timerfd_settime; and no step of its arithmetic overflows. -/
theorem expirations_conserved {s : System} {t : Nat} {timer : Timerfd} {d i : Int}
    (ht : s.timerfds[t]? = some timer) (hd : timer.deadline = d ∧ 0 < d ∧ d ≤ int64Max)
    (hi : timer.interval = i ∧ 0 ≤ i ∧ i ≤ int64Max) (hticks : timer.ticks = 0)
    {run : List (Action × Env)} (hset : Undisturbed t s run)
    (hordered : Ordered (observations t s run)) :
    (∃ timer', (run.foldl (fun s x => s.perform x.1 x.2) s).timerfds[t]? = some timer' ∧
      (∀ look now, (observations t s run).getLast? = some ⟨look, some now⟩ →
        valuesRead t s run + timer'.ticks =
          (if now < d then 0 else if i = 0 then 1 else 1 + ((now - d) / i).toNat) ∧
        ((i = 0 ∧ timer'.deadline = 0) ∨ now < timer'.deadline)) ∧
      ∀ env now, monotonicNs env = .ok now → refreshChecked timer' now = some (timerfdRefresh timer' now)) ∧
    valuesRead t s run = (timer.watch (observations t s run)).1 ∧
    (∀ env, monotonicChecked env = some (monotonicNs env)) ∧
    (∀ bytes offset, durationChecked bytes offset = some (timerfdDuration bytes offset)) ∧
    (∀ bytes offset value flags env now, timerfdDuration bytes offset = some value →
      monotonicNs env = .ok now → deadlineChecked flags value now = some (deadlineOf flags value now)) ∧
    ∀ (s : System) (t : Nat) (timer : Timerfd) caller fd flags out env interval value now,
      timerfdNew flags env = .ok (interval, value) → s.timerfdNow caller fd env = .ok (t, timer, now) →
      (s.timerfdSettime caller fd flags out env).timerfds[t]? =
        some { timer with interval, deadline := deadlineOf flags value now, ticks := 0 } := by
  obtain ⟨hdl, hd0, hd1⟩ := hd
  obtain ⟨hint, hi0, hi1⟩ := hi
  have hdue : Due d i 0 0 timer :=
    ⟨hint, fun h => absurd rfl h, .inr ⟨fun _ => rfl, by rw [hdl]; omega⟩⟩
  obtain ⟨last, n, hdue', hn, hsum, hticks', hlast⟩ := hdue.watch hd0 hi0 hordered
    (fun h => absurd rfl h) (Nat.le_of_eq hticks) (Nat.zero_le _)
  have hvalues := run_values ht (hticks ▸ Nat.zero_le _) hset
  refine ⟨⟨_, run_timer ht hset, fun look now hnow => ?_, fun env now hnow => ?_⟩, hvalues,
    monotonicChecked_eq, durationChecked_eq, fun bytes offset value flags env now hv hnow => ?_,
    fun s t timer caller fd flags out env interval value now hnew hnow => timerfdSettime_arms hnew hnow⟩
  · obtain ⟨hcount, hnext⟩ := hlast look now hnow
    have htotal : (timer.watch (observations t s run)).1 +
        (timer.watch (observations t s run)).2.ticks = expirations d i now := by omega
    exact ⟨by rw [hvalues]; exact htotal, hnext⟩
  · exact refreshChecked_eq (inRange hdue' hd0 ⟨hi0, hi1⟩ hticks' hn) (monotonicNs_range hnow).2
  · exact deadlineChecked_eq (timerfdDuration_range hv) (monotonicNs_range hnow)

/-- The caller of the sample run. -/
def sampleCaller : Caller := ⟨1, 7⟩

/-- The clock shows `now` nanoseconds. -/
def sampleEnv (now : Int) : Env := { clock := some (0, 0, now) }

/-- A table with one timer that is armed for 3 with interval 2. -/
def sampleArmed : System :=
  let spec : List UInt8 := List.replicate 8 0 ++ 2 :: List.replicate 15 0 ++ 3 :: List.replicate 7 0
  (({ attached := false, interests := 1, limit := 1, descriptors := [{}] } : System).perform
    (.timerfdCreate sampleCaller 1 0) (sampleEnv 0)).perform
      (.timerfdSettime sampleCaller 3 1 false) { sampleEnv 0 with read := (0, spec) }

/-- It is looked at and then read. -/
def sampleRun : List (Action × Env) :=
  [(.timerfdGettime sampleCaller 3, sampleEnv 4), (.transfer sampleCaller 3 4096 8 false, sampleEnv 5),
    (.advance 3, sampleEnv 13)]

/-- In the sample the read hands over all six expirations, and the next deadline lies ahead. -/
theorem sample_expirations : ∃ timer',
    (sampleRun.foldl (fun s x => s.perform x.1 x.2) sampleArmed).timerfds[0]? = some timer' ∧
      valuesRead 0 sampleArmed sampleRun = 6 ∧ timer'.ticks = 0 ∧ 13 < timer'.deadline := by
  obtain ⟨⟨timer', ht, hsum, _⟩, _⟩ := @expirations_conserved sampleArmed 0
    ⟨1, 0, 2, 3, 0⟩ 3 2 (by decide) ⟨rfl, by decide, by decide⟩ ⟨rfl, by decide, by decide⟩ rfl
    sampleRun ⟨nofun, nofun, nofun, trivial⟩ ⟨by decide, by decide⟩
  have hlast : (observations 0 sampleArmed sampleRun).getLast? = some ⟨.read, some 13⟩ := by decide
  obtain ⟨htotal, hnext⟩ := hsum _ _ hlast
  have hread : valuesRead 0 sampleArmed sampleRun = 6 := by decide
  have hcount : valuesRead 0 sampleArmed sampleRun + timer'.ticks = 6 := htotal
  exact ⟨timer', ht, hread, by omega, hnext.resolve_left fun h => nomatch h.1⟩

end System

end Artbox.Vfs
