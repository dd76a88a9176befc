import Artbox.Vfs.Model
import Artbox.Lib.Slots
import Mathlib.Tactic.Common

/-!
# What a step does to eventfds and interests

Most of what a step does concerns calls, waiters, descriptors and timers. `Quiet` is that part, and
`Change` says once what else a step can do.
-/

namespace Artbox.Vfs

/-- The event is not about a counter or an interest. -/
def Event.quiet : Event → Bool
  | .opened _ _ | .wrote _ _ | .consumed _ _ | .set _ _ | .reported _ _ _ => false
  | _ => true

/-- The target is a token, an eventfd or a timerfd. -/
def Target.WellFormed (t : Target) : Prop :=
  (t.token ≠ 0 ∧ t.eventfd = none ∧ t.timerfd = none) ∨
    (t.token = 0 ∧ t.eventfd.isSome ∧ t.timerfd = none) ∨
      (t.token = 0 ∧ t.eventfd = none ∧ t.timerfd.isSome)

namespace System

variable {s s' s'' : System} {env : Env}

/-- Descriptors, interests and calls of epoll_ctl name one target each. -/
structure Grounded (s : System) : Prop where
  descriptors : ∀ d ∈ s.descriptors, (d.binder.isSome → d.eventfd = none ∧ d.timerfd = none) ∧
    (d.eventfd.isSome → d.timerfd = none)
  tokens : ∀ b ∈ s.binders, b.token ≠ 0
  next : s.nextToken ≠ 0
  calls : ∀ c ∈ s.calls, ∀ ep operation interest, c.op = .control ep operation interest →
    interest.target.WellFormed
  interests : ∀ epoll ∈ s.epolls, ∀ i ∈ epoll.interests, i.target.WellFormed

/-- Counters and interests are as they were. -/
structure Quiet (s s' : System) : Prop where
  cap : s'.interests = s.interests
  eventfds : s'.eventfds = s.eventfds
  epolls : s'.epolls = s.epolls
  history : ∃ l, s'.history = l ++ s.history ∧ ∀ e ∈ l, e.quiet = true
  grounded : s.Grounded → s'.Grounded

/-- What does not change is quiet. -/
theorem Quiet.refl (s : System) : Quiet s s := ⟨rfl, rfl, rfl, ⟨[], rfl, List.forall_mem_nil _⟩, id⟩

/-- Two quiet steps are quiet together. -/
theorem Quiet.trans (h : Quiet s s') (h' : Quiet s' s'') : Quiet s s'' := by
  obtain ⟨l, hl, hq⟩ := h.history
  obtain ⟨l', hl', hq'⟩ := h'.history
  refine ⟨h'.cap.trans h.cap, h'.eventfds.trans h.eventfds, h'.epolls.trans h.epolls,
    ⟨l' ++ l, ?_, fun e he => ?_⟩, fun hg => h'.grounded (h.grounded hg)⟩
  · rw [hl', hl, List.append_assoc]
  · rcases List.mem_append.1 he with he | he
    · exact hq' e he
    · exact hq e he

/-- Two quiet steps are quiet together, the second one given first. -/
theorem Quiet.after (h' : Quiet s' s'') (h : Quiet s s') : Quiet s s'' := h.trans h'

/-- Quiet events are quiet. -/
theorem quiet_record (s : System) {l : List Event} (hl : ∀ e ∈ l, e.quiet = true) :
    Quiet s (s.record l) := ⟨rfl, rfl, rfl, ⟨l, rfl, hl⟩, fun h => ⟨h.1, h.2, h.3, h.4, h.5⟩⟩

/-- A notification is quiet: it touches waiters only. -/
theorem quiet_pollNotify (s : System) (env : Env) : Quiet s (s.pollNotify env) := by
  refine ⟨rfl, rfl, rfl, ⟨((s.waiters.filter (·.owner)).map fun w => Event.signalled w.call) ++
    [.changed], ?_, fun e he => ?_⟩, fun h => ⟨h.1, h.2, h.3, h.4, h.5⟩⟩
  · rw [List.append_assoc]
    rfl
  · rcases List.mem_append.1 he with he | he
    · obtain ⟨w, _, rfl⟩ := List.mem_map.1 he
      rfl
    · rw [List.mem_singleton.1 he]
      rfl

/-- The close of a Binder endpoint is quiet. -/
theorem quiet_dropBinder (s : System) (b : Option Nat) (env : Env) : Quiet s (s.dropBinder b env) := by
  have hends : ∀ (s : System) endpoints, Quiet s { s with endpoints } := fun s endpoints =>
    ⟨rfl, rfl, rfl, ⟨[], rfl, List.forall_mem_nil _⟩, fun h => ⟨h.1, h.2, h.3, h.4, h.5⟩⟩
  unfold dropBinder
  split
  · exact .refl s
  · split
    · exact .refl s
    · split
      · exact .refl s
      · dsimp only
        split
        · exact (hends _ _).trans (quiet_pollNotify _ env)
        · exact ((hends _ _).trans (quiet_pollNotify _ env)).trans
            ((hends _ _).trans (quiet_pollNotify _ env))

/-- A call that returns at once is quiet. -/
theorem quiet_reply (s : System) (result : Int) : Quiet s (s.reply result) :=
  ⟨rfl, rfl, rfl, ⟨[.returned s.nextId result], rfl, by simp [Event.quiet]⟩,
    fun h => ⟨h.1, h.2, h.3, h.4, h.5⟩⟩

/-- A call that begins is quiet if its interest is well formed. -/
theorem quiet_start (s : System) (caller : Caller) {op : Op} (phase : Phase)
    (hop : ∀ ep operation interest, op = .control ep operation interest → s.Grounded →
      interest.target.WellFormed) : Quiet s (s.start caller op phase) := by
  refine ⟨rfl, rfl, rfl, ⟨[], rfl, List.forall_mem_nil _⟩, fun h => ⟨h.1, h.2, h.3, fun c hc => ?_, h.5⟩⟩
  rcases List.mem_append.1 hc with hc | hc
  · exact h.4 c hc
  · rw [List.mem_singleton.1 hc]
    exact fun ep operation interest heq => hop ep operation interest heq h

/-- A call that moves on is quiet. -/
theorem quiet_setPhase (s : System) (id : Nat) (phase : Phase) : Quiet s (s.setPhase id phase) := by
  refine ⟨rfl, rfl, rfl, ⟨[], rfl, List.forall_mem_nil _⟩, fun h => ⟨h.1, h.2, h.3, fun c hc => ?_, h.5⟩⟩
  obtain ⟨c', hc', rfl⟩ := List.mem_map.1 hc
  split <;> exact h.4 c' hc'

/-- A call that returns is quiet. -/
theorem quiet_finish (s : System) (call : Call) (result : Int) (env : Env) :
    Quiet s (s.finish call result env) :=
  (quiet_dropBinder _ _ env).after ⟨rfl, rfl, rfl,
    ⟨[.returned call.id result], rfl, by simp [Event.quiet]⟩,
      fun h => ⟨h.1, h.2, h.3, fun c hc => h.4 c (List.mem_filter.1 hc).1, h.5⟩⟩

/-- A descriptor of one kind is installed quietly. -/
theorem quiet_install (s : System) {d : Descriptor}
    (hd : (d.binder.isSome → d.eventfd = none ∧ d.timerfd = none) ∧ (d.eventfd.isSome → d.timerfd = none)) :
    Quiet s (s.install d) := by
  unfold install
  split
  · exact quiet_reply s _
  · refine (quiet_reply _ _).after ⟨rfl, rfl, rfl, ⟨[], rfl, List.forall_mem_nil _⟩, fun h =>
      ⟨fun x hx => ?_, h.2, h.3, h.4, h.5⟩⟩
    rcases List.mem_or_eq_of_mem_set hx with hx | rfl
    · exact h.1 x hx
    · exact hd

/-- A timer that is set is quiet. -/
theorem quiet_setTimerfd (s : System) (t : Nat) (timer : Timerfd) : Quiet s (s.setTimerfd t timer) :=
  ⟨rfl, rfl, rfl, ⟨[], rfl, List.forall_mem_nil _⟩, fun h => ⟨h.1, h.2, h.3, h.4, h.5⟩⟩

/-- A look at an interest is quiet. -/
theorem quiet_interestEvents (s : System) (target : Target) (caller : Caller) (env : Env) :
    Quiet s (s.interestEvents target caller env).2 := by
  unfold interestEvents
  repeat' split
  all_goals first
    | exact .refl s
    | exact quiet_setTimerfd s _ _

/-- The end of a scan is quiet. -/
theorem quiet_endScan (s : System) (call : Call) (timeout result : Int) (env : Env) :
    Quiet s (s.endScan call timeout result env) := by
  unfold endScan
  split
  · exact quiet_finish s call result env
  · exact (quiet_record s (by simp [Event.quiet])).trans (quiet_setPhase _ _ _)

/-- The registration of a waiter is quiet. -/
theorem quiet_register (s : System) (call : Call) (env : Env) : Quiet s (s.register call env) := by
  unfold register
  split
  · split
    · exact quiet_finish s call _ env
    · dsimp only
      exact (quiet_setPhase _ _ _).after
        ⟨rfl, rfl, rfl, ⟨[], rfl, List.forall_mem_nil _⟩, fun h => ⟨h.1, h.2, h.3, h.4, h.5⟩⟩
  · split
    · exact quiet_finish s call _ env
    · exact quiet_setPhase s _ _

/-- The preparation of a wait is quiet. -/
theorem quiet_prepare (s : System) (call : Call) (env : Env) : Quiet s (s.prepare call env) := by
  unfold prepare
  split
  · exact quiet_finish s call _ env
  · split
    · split
      · split
        · exact quiet_finish s call _ env
        · split
          · exact quiet_finish s call _ env
          · exact quiet_register s call env
      · exact quiet_register s call env
    · exact quiet_register s call env

/-- The creation of a wake object is quiet. -/
theorem quiet_create (s : System) (call : Call) (env : Env) : Quiet s (s.create call env) := by
  unfold create
  split
  · exact quiet_finish s call _ env
  · split
    · exact quiet_finish s call _ env
    · exact quiet_setPhase s _ _

/-- The publication of a wake object is quiet. -/
theorem quiet_publish (s : System) (call : Call) : Quiet s (s.publish call) := by
  unfold publish
  dsimp only
  exact (quiet_setPhase _ _ _).after
    ⟨rfl, rfl, rfl, ⟨[.published call.id], rfl, by simp [Event.quiet]⟩,
      fun h => ⟨h.1, h.2, h.3, h.4, h.5⟩⟩

/-- A wake is quiet. -/
theorem quiet_wake (s : System) (call : Call) (env : Env) : Quiet s (s.wake call env) := by
  unfold wake
  split
  · exact quiet_finish s call _ env
  · split
    · exact quiet_finish s call _ env
    · split
      · dsimp only
        split
        · exact (quiet_setPhase _ _ _).after
            ⟨rfl, rfl, rfl, ⟨[], rfl, List.forall_mem_nil _⟩, fun h => ⟨h.1, h.2, h.3, h.4, h.5⟩⟩
        · exact .refl s
      · exact quiet_setPhase s _ _

/-- A look at a timer is quiet. -/
theorem quiet_checkRead (s : System) (call : Call) (t : Nat) (env : Env) :
    Quiet s (s.checkRead call t env) := by
  have hrecord : ∀ {e : Event} (s : System), e.quiet = true → Quiet s (s.record [e]) := fun s he =>
    quiet_record s fun x hx => by rw [List.mem_singleton.1 hx]; exact he
  unfold checkRead
  split
  · exact .refl s
  · dsimp only
    have hset := (hrecord (e := .checking call.id) s rfl).trans (quiet_setTimerfd _ t
      (timerfdEvents ‹Timerfd› call.caller env).2)
    split
    · exact hset.trans (quiet_finish _ _ _ _)
    · split
      · exact (hset.trans (quiet_setTimerfd _ _ _)).trans (quiet_setPhase _ _ _)
      · split
        · exact hset.trans (quiet_finish _ _ _ _)
        · exact (hset.trans (hrecord _ rfl)).trans (quiet_setPhase _ _ _)

/-! ## Calls that begin -/

/-- A query of a timer is quiet. -/
theorem quiet_timerfdGettime (s : System) (caller : Caller) (fd : Int) (env : Env) :
    Quiet s (s.timerfdGettime caller fd env) := by
  unfold timerfdGettime
  split
  · exact quiet_reply s _
  · exact (quiet_setTimerfd s _ _).trans (quiet_start _ _ _ nofun)

/-- A timer is set quietly. -/
theorem quiet_timerfdSettime (s : System) (caller : Caller) (fd : Int) (flags : BitVec 32) (out : Bool)
    (env : Env) : Quiet s (s.timerfdSettime caller fd flags out env) := by
  unfold timerfdSettime
  split
  · exact quiet_reply s _
  · split
    · exact quiet_reply s _
    · dsimp only
      split
      · exact ((quiet_setTimerfd s _ _).trans (quiet_pollNotify _ env)).trans (quiet_start _ _ _ nofun)
      · exact ((quiet_setTimerfd s _ _).trans (quiet_pollNotify _ env)).trans (quiet_reply _ _)

/-- A read or write begins quietly. -/
theorem quiet_transfer (s : System) (caller : Caller) (fd : Int) (address count : Nat) (writing : Bool)
    (env : Env) : Quiet s (s.transfer caller fd address count writing env) := by
  unfold transfer timerfdRead eventfdTransfer
  repeat' split
  all_goals first
    | exact quiet_reply s _
    | exact quiet_start s _ _ nofun
    | skip
  dsimp only
  split
  · exact quiet_reply s _
  · exact quiet_start s _ _ nofun

/-- An ioctl begins quietly. -/
theorem quiet_ioctl (s : System) (caller : Caller) (fd : Int) : Quiet s (s.ioctl caller fd) := by
  unfold ioctl
  split
  · exact quiet_reply s _
  · split
    · exact quiet_reply s _
    · split
      · exact quiet_reply s _
      · exact quiet_start s _ _ nofun

/-- What a descriptor names is one target. -/
theorem target_wellFormed {d : Descriptor} {fd : Int} {vm : Nat} (hg : s.Grounded)
    (hd : s.get fd = some d) (hvm : s.targetVm d = some vm) : (s.target d).WellFormed := by
  have hmem : d ∈ s.descriptors := by
    unfold get at hd
    split at hd
    · cases hd
    · split at hd
      · cases hd
      next hget =>
        split at hd
        · cases hd
        · exact Option.some.inj hd ▸ List.mem_of_getElem? hget
  obtain ⟨hbinder, hevent⟩ := hg.descriptors d hmem
  unfold targetVm at hvm
  unfold target Target.WellFormed
  cases hb : d.binder with
  | some b =>
    obtain ⟨he, ht⟩ := hbinder (by rw [hb]; rfl)
    rw [hb] at hvm
    obtain ⟨binder, hget, _⟩ := Option.map_eq_some_iff.1 hvm
    refine .inl ⟨?_, he, ht⟩
    simpa [hget] using hg.tokens binder (List.mem_of_getElem? hget)
  | none =>
    cases he : d.eventfd with
    | some e => exact .inr (.inl ⟨rfl, rfl, hevent (by rw [he]; rfl)⟩)
    | none =>
      cases ht : d.timerfd with
      | some t => exact .inr (.inr ⟨rfl, rfl, rfl⟩)
      | none =>
        rw [hb, he, ht] at hvm
        cases hvm

/-- A change of interests begins quietly: the interest it brings is well formed. -/
theorem quiet_epollCtl (s : System) (caller : Caller) (epfd operation fd : Int) (env : Env) :
    Quiet s (s.epollCtl caller epfd operation fd env) := by
  unfold epollCtl
  split
  · exact quiet_reply s _
  · split
    · exact quiet_reply s _
    · split
      · exact quiet_reply s _
      · split
        · exact quiet_reply s _
        next d hd =>
          split
          · exact quiet_reply s _
          · split
            · exact quiet_reply s _
            next vm hvm =>
              split
              · exact quiet_reply s _
              · split
                · exact quiet_reply s _
                · generalize (if operation = 2 then [] else env.read.2) = bytes
                  dsimp only
                  split
                  · exact quiet_reply s _
                  · refine quiet_start s _ _ fun ep operation interest heq hg => ?_
                    cases heq
                    exact target_wellFormed hg hd hvm

/-- A wait for events begins quietly. -/
theorem quiet_epollPwait (s : System) (caller : Caller) (epfd : Int) (address : Nat)
    (maximum timeout : Int) (mask : Bool) (size : Nat) (env : Env) :
    Quiet s (s.epollPwait caller epfd address maximum timeout mask size env) := by
  unfold epollPwait
  repeat' split
  all_goals first
    | exact quiet_reply s _
    | exact quiet_start s _ _ nofun

/-- The close of a descriptor is quiet. -/
theorem quiet_close (s : System) (fd : Int) (env : Env) : Quiet s (s.close fd env) := by
  unfold close
  split
  · exact quiet_reply s _
  · dsimp only
    have hset : Quiet s { s with descriptors := s.descriptors.set (fd - 3).toNat {} } := by
      refine ⟨rfl, rfl, rfl, ⟨[], rfl, List.forall_mem_nil _⟩, fun h => ⟨fun x hx => ?_, h.2, h.3, h.4, h.5⟩⟩
      rcases List.mem_or_eq_of_mem_set hx with hx | rfl
      · exact h.1 x hx
      · exact ⟨nofun, nofun⟩
    have hdrop := hset.trans (quiet_dropBinder _ (Descriptor.binder ‹Descriptor›) env)
    refine Quiet.trans ?_ (quiet_reply _ _)
    split
    · exact hdrop.trans (quiet_pollNotify _ env)
    · exact hdrop

/-! ## The others -/

/-- The target is there and somebody owns it. -/
def alive (s : System) (target : Target) : Bool :=
  if target.token ≠ 0 then s.endpoints.any fun e => e.token == target.token
  else
    match s.lockEventfd target.eventfd with
    | some e => s.eventfds[e]?.isSome
    | none =>
      match s.lockTimerfd target.timerfd with
      | some t => s.timerfds[t]?.isSome
      | none => false

/-- One change to the counters or the interests. -/
inductive Edit (living : Target → Bool) (s : System) : System → Prop
  | opened (vm : Nat) (initial flags : BitVec 32) : Edit living s
      ({ s with eventfds := s.eventfds ++ [(⟨vm, initial.setWidth 64, flags⟩ : Eventfd)] }.record
        [.opened s.eventfds.length initial])
  | wrote {e : Nat} {event event' : Eventfd} {value value' : BitVec 64} : s.eventfds[e]? = some event →
      attempt event true value = .done event' value' →
      Edit living s ({ s with eventfds := s.eventfds.set e event' }.record [.wrote e value'])
  | consumed {e : Nat} {event event' : Eventfd} {value value' : BitVec 64} : s.eventfds[e]? = some event →
      attempt event false value = .done event' value' →
      Edit living s ({ s with eventfds := s.eventfds.set e event' }.record [.consumed e value'])
  | created (vm : Nat) : Edit living s { s with epolls := s.epolls ++ [({ vm } : Epoll)] }
  | cursor {ep : Nat} {epoll : Epoll} (cursor : Nat) : s.epolls[ep]? = some epoll →
      Edit living s (s.setEpoll ep { epoll with cursor })
  /-- The target of an interest is gone, or the interest is deleted. -/
  | erased {ep : Nat} {epoll : Epoll} (index : Nat) : s.epolls[ep]? = some epoll →
      Edit living s (s.setEpoll ep { epoll with interests := epoll.interests.eraseIdx index })
  | modified {ep index : Nat} {epoll : Epoll} {old interest : Interest} : s.epolls[ep]? = some epoll →
      epoll.interests[index]? = some old → old.fd = interest.fd → old.target = interest.target →
      Edit living s ((s.setEpoll ep { epoll with interests := epoll.interests.set index interest }).record
        [.set ep interest])
  | added {ep : Nat} {epoll : Epoll} {interest : Interest} : s.epolls[ep]? = some epoll →
      interest.target.WellFormed →
      (∀ i ∈ epoll.interests, i.fd = interest.fd → i.target ≠ interest.target) →
      epoll.interests.length ≠ s.interests →
      Edit living s ((s.setEpoll ep { epoll with interests := epoll.interests ++ [interest] }).record
        [.set ep interest])
  | reported {ep index : Nat} {epoll : Epoll} {interest : Interest} {events : BitVec 32} :
      s.epolls[ep]? = some epoll → epoll.interests[index]? = some interest →
      living interest.target = true → events &&& ~~~(interest.events ||| 0x18) = 0 →
      Edit living s (s.record [.reported ep interest events])

/-- What a step can do: at most one such change. -/
inductive Change (s : System) : System → Prop
  | quiet {s' : System} : Quiet s s' → Change s s'
  | edit {s₁ s₂ s' : System} : Quiet s s₁ → Edit s.alive s₁ s₂ → Quiet s₂ s' → Change s s'

/-! ## Who is alive -/

/-- What answers is alive. -/
theorem alive_of_interestEvents {target : Target} {caller : Caller}
    (h : 0 ≤ (s.interestEvents target caller env).1) : s.alive target = true := by
  unfold interestEvents at h
  unfold alive
  by_cases htoken : target.token = 0
  · rw [if_neg (not_not.2 htoken)] at h
    rw [if_neg (not_not.2 htoken)]
    cases hlock : s.lockEventfd target.eventfd with
    | some e =>
      rw [hlock] at h
      dsimp only at h ⊢
      cases hget : s.eventfds[e]? with
      | none =>
        rw [hget] at h
        simp at h
      | some event => rfl
    | none =>
      rw [hlock] at h
      dsimp only at h ⊢
      cases htimer : s.lockTimerfd target.timerfd with
      | none =>
        rw [htimer] at h
        simp at h
      | some t =>
        rw [htimer] at h
        dsimp only at h ⊢
        cases hget : s.timerfds[t]? with
        | none =>
          rw [hget] at h
          simp at h
        | some timer => rfl
  · rw [if_pos htoken] at h
    rw [if_pos htoken]
    split at h
    next hreap =>
      have : 0 < env.reap := Nat.pos_of_ne_zero hreap
      simp at h
      omega
    · split at h
      next hany => exact hany
      · simp at h

/-- The target of a call in progress is locked by its weak pointers. -/
theorem lock_of_call {call : Call} (hc : call ∈ s.calls) {ep : Nat} {operation : Int}
    {interest : Interest} (hop : call.op = .control ep operation interest) :
    s.lockEventfd interest.target.eventfd = interest.target.eventfd ∧
      s.lockTimerfd interest.target.timerfd = interest.target.timerfd := by
  constructor
  · cases he : interest.target.eventfd with
    | none => rfl
    | some e =>
      have howns : s.ownsEventfd e = true := by
        unfold ownsEventfd
        rw [Bool.or_eq_true, List.any_eq_true, List.any_eq_true]
        exact .inr ⟨call, hc, by rw [hop]; simp [Op.eventfd, he]⟩
      simp [lockEventfd, howns]
  · cases ht : interest.target.timerfd with
    | none => rfl
    | some t =>
      have howns : s.ownsTimerfd t = true := by
        unfold ownsTimerfd
        rw [Bool.or_eq_true, List.any_eq_true, List.any_eq_true]
        exact .inr ⟨call, hc, by rw [hop]; simp [Op.timerfd, ht]⟩
      simp [lockTimerfd, howns]

/-- A weak reference that is locked names the eventfd. -/
theorem eq_of_lockEventfd {w : Option Nat} {e : Nat} (h : s.lockEventfd w = some e) : w = some e := by
  unfold lockEventfd at h
  exact (Option.filter_eq_some_iff.1 h).1

/-- A weak reference that is locked names the timer. -/
theorem eq_of_lockTimerfd {w : Option Nat} {t : Nat} (h : s.lockTimerfd w = some t) : w = some t := by
  unfold lockTimerfd at h
  exact (Option.filter_eq_some_iff.1 h).1

/-- epoll_ctl finds the interest with the descriptor and the target. -/
theorem names_iff {fd : Int} {target : Target} {i : Interest} (hi : i.target.WellFormed)
    (ht : target.WellFormed) (hlock : s.lockEventfd target.eventfd = target.eventfd ∧
      s.lockTimerfd target.timerfd = target.timerfd) :
    Interest.names s fd target i = true ↔ i.fd = fd ∧ i.target = target := by
  constructor
  · intro h
    unfold Interest.names at h
    simp only [Bool.and_eq_true, beq_iff_eq] at h
    obtain ⟨⟨hfd, htoken⟩, hrest⟩ := h
    refine ⟨hfd, ?_⟩
    obtain ⟨token, eventfd, timerfd⟩ := target
    obtain ⟨_, _, _, token', eventfd', timerfd'⟩ := i
    dsimp only at *
    subst htoken
    rcases ht with ⟨hne, he, ht⟩ | ⟨h0, he, ht⟩ | ⟨h0, he, ht⟩
    · dsimp only at hne he ht
      rcases hi with ⟨_, he', ht'⟩ | ⟨h0, _⟩ | ⟨h0, _⟩
      · dsimp only at he' ht'
        rw [he, ht, he', ht']
      · exact absurd h0 hne
      · exact absurd h0 hne
    · dsimp only at h0 he ht
      obtain ⟨e, rfl⟩ := Option.isSome_iff_exists.1 he
      rw [h0] at hrest
      simp at hrest
      obtain rfl := eq_of_lockEventfd hrest
      rcases hi with ⟨hne, _⟩ | ⟨_, _, ht'⟩ | ⟨_, he', _⟩
      · exact absurd h0 hne
      · dsimp only at ht'
        rw [ht, ht']
      · cases he'
    · dsimp only at h0 he ht
      obtain ⟨t, rfl⟩ := Option.isSome_iff_exists.1 ht
      rw [h0, he] at hrest
      simp at hrest
      obtain rfl := eq_of_lockTimerfd hrest
      rcases hi with ⟨hne, _⟩ | ⟨_, _, ht'⟩ | ⟨_, he', _⟩
      · exact absurd h0 hne
      · cases ht'
      · dsimp only at he'
        rw [he, he']
  · rintro ⟨hfd, htarget⟩
    unfold Interest.names
    rw [hfd, htarget, hlock.1, hlock.2]
    simp

/-! ## The step lemma -/

/-- An edit with a quiet step behind it is a change. -/
theorem Edit.then (h : Edit s.alive s s') (h' : Quiet s' s'') : Change s s'' := .edit (.refl s) h h'

/-- A look of an eventfd call changes at most its eventfd. -/
theorem change_checkTransfer (s : System) (call : Call) (e : Nat) (writing : Bool) (value : BitVec 64)
    (env : Env) : Change s (s.checkTransfer call e writing value env) := by
  have hrecord : ∀ {e : Event} (s : System), e.quiet = true → Quiet s (s.record [e]) := fun s he =>
    quiet_record s fun x hx => by rw [List.mem_singleton.1 hx]; exact he
  unfold checkTransfer
  split
  · exact .quiet (.refl s)
  next event hevent =>
    dsimp only
    have hchecking := hrecord (e := .checking call.id) s rfl
    split
    · exact .quiet (hchecking.trans (quiet_finish _ _ _ _))
    · exact .quiet ((hchecking.trans (hrecord _ rfl)).trans (quiet_setPhase _ _ _))
    next event' value' hattempt =>
      cases writing with
      | true =>
        exact .edit hchecking (.wrote (s := s.record [.checking call.id]) hevent hattempt)
          ((quiet_pollNotify _ env).trans (quiet_finish _ _ _ _))
      | false =>
        exact .edit hchecking (.consumed (s := s.record [.checking call.id]) hevent hattempt)
          ((quiet_pollNotify _ env).trans (quiet_setPhase _ _ _))

/-- What is reported is within the mask of the interest. -/
theorem masked (ready mask : BitVec 32) : ready &&& mask &&& ~~~mask = 0 := by
  refine BitVec.eq_of_getLsbD_eq fun i _ => ?_
  rw [BitVec.getLsbD_and, BitVec.getLsbD_and, BitVec.getLsbD_not]
  cases mask.getLsbD i <;> simp

/-- A look at an interest leaves the interests. -/
theorem epolls_interestEvents (s : System) (target : Target) (caller : Caller) (env : Env) :
    (s.interestEvents target caller env).2.epolls = s.epolls :=
  (quiet_interestEvents s target caller env).epolls

/-- A step of a scan changes at most one interest and the cursor. -/
theorem change_scan (s : System) (call : Call) (ep maximum : Nat) (timeout : Int)
    (index remaining copied : Nat) (env : Env) :
    Change s (s.scan call ep maximum timeout index remaining copied env) := by
  unfold scan
  split
  · exact .quiet (.refl s)
  next epoll hepoll =>
    split
    · exact (Edit.cursor _ hepoll).then (quiet_endScan _ _ _ _ _)
    · dsimp only
      split
      · exact .quiet (.refl s)
      next interest hinterest =>
        have hquiet := quiet_interestEvents s interest.target call.caller env
        have hepoll' : (s.interestEvents interest.target call.caller env).2.epolls[ep]? = some epoll := by
          rw [epolls_interestEvents, hepoll]
        split
        · exact .edit hquiet (.erased _ hepoll') (quiet_setPhase _ _ _)
        · split
          · exact .quiet (hquiet.trans (quiet_endScan _ _ _ _ _))
          next hready =>
            split
            · split
              · exact .quiet (hquiet.trans (quiet_endScan _ _ _ _ _))
              · exact .edit hquiet (.reported hepoll' hinterest
                  (alive_of_interestEvents (Int.not_lt.1 hready)) (masked _ _)) (quiet_setPhase _ _ _)
            · exact .quiet (hquiet.trans (quiet_setPhase _ _ _))

/-- The modified interest is the new one. -/
theorem modify_eq_set {l : List Interest} {index : Nat} {old interest : Interest}
    (h : l[index]? = some old) (hfd : old.fd = interest.fd) (ht : old.target = interest.target) :
    l.modify index (fun i => { i with events := interest.events, data := interest.data }) =
      l.set index interest := by
  rw [List.modify_eq_set_getElem?, h]
  obtain ⟨fd, events, data, target⟩ := interest
  obtain ⟨fd', events', data', target'⟩ := old
  dsimp only at hfd ht
  subst hfd ht
  rfl

/-- epoll_ctl adds, modifies or deletes one interest. -/
theorem change_applyControl {call : Call} {ep : Nat} {epoll : Epoll} {operation : Int}
    {interest : Interest} (hg : s.Grounded) (hc : call ∈ s.calls)
    (hop : call.op = .control ep operation interest) (hepoll : s.epolls[ep]? = some epoll) :
    Change s (s.applyControl call.caller ep epoll operation interest env).2 := by
  have hwell := hg.calls call hc ep operation interest hop
  have hnames : ∀ i ∈ epoll.interests, Interest.names s interest.fd interest.target i = true ↔
      i.fd = interest.fd ∧ i.target = interest.target := fun i hi =>
    names_iff (hg.interests epoll (List.mem_of_getElem? hepoll) i hi) hwell (lock_of_call hc hop)
  unfold applyControl
  split
  next index hfind =>
    split
    · exact .quiet (.refl s)
    · split
      · exact (Edit.erased index hepoll).then (quiet_pollNotify _ env)
      · obtain ⟨hlt, hname, _⟩ := List.findIdx?_eq_some_iff_getElem.1 hfind
        have hold : epoll.interests[index]? = some epoll.interests[index] := List.getElem?_eq_getElem hlt
        obtain ⟨hfd, htarget⟩ := (hnames _ (List.getElem_mem hlt)).1 hname
        dsimp only
        rw [modify_eq_set hold hfd htarget]
        exact (Edit.modified hepoll hold hfd htarget).then (quiet_pollNotify _ env)
  next hfind =>
    split
    · exact .quiet (.refl s)
    · split
      · exact .quiet (.refl s)
      next hcap =>
        have hquiet := quiet_interestEvents s interest.target call.caller env
        dsimp only
        split
        · exact .quiet hquiet
        · refine .edit hquiet (.added ?_ hwell (fun i hi hfd htarget => ?_) ?_) (quiet_pollNotify _ env)
          · rw [epolls_interestEvents, hepoll]
          · have hnone := List.findIdx?_eq_none_iff.1 hfind i hi
            rw [(hnames i hi).2 ⟨hfd, htarget⟩] at hnone
            cases hnone
          · rw [hquiet.cap]
            exact hcap

/-- A quiet step behind a change does not matter. -/
theorem Change.trans_quiet (h : Change s s') (h' : Quiet s' s'') : Change s s'' := by
  cases h with
  | quiet h => exact .quiet (h.trans h')
  | edit h₁ h₂ h₃ => exact .edit h₁ h₂ (h₃.trans h')

/-- A step of the reaping drops one interest or applies the change. -/
theorem change_reap {call : Call} {ep : Nat} {operation : Int} {interest : Interest} (hg : s.Grounded)
    (hc : call ∈ s.calls) (hop : call.op = .control ep operation interest) (index : Nat) :
    Change s (s.reap call ep operation interest index env) := by
  unfold reap
  split
  · exact .quiet (.refl s)
  next epoll hepoll =>
    split
    · exact (change_applyControl hg hc hop hepoll).trans_quiet (quiet_finish _ _ _ _)
    next other _ =>
      have hquiet := quiet_interestEvents s other.target call.caller env
      dsimp only
      split
      · refine .edit hquiet (.erased index ?_) (quiet_setPhase _ _ _)
        rw [epolls_interestEvents, hepoll]
      · exact .quiet (hquiet.trans (quiet_setPhase _ _ _))

/-- A look changes at most one eventfd. -/
theorem change_check (s : System) (call : Call) (env : Env) : Change s (s.check call env) := by
  unfold check
  split
  · exact change_checkTransfer s call _ _ _ env
  · exact .quiet (quiet_checkRead s call _ env)
  · split
    · exact .quiet (.refl s)
    · exact .quiet ((quiet_record s (by simp [Event.quiet])).trans (quiet_setPhase _ _ _))
  · exact .quiet (.refl s)

/-- A step of a call is a change. -/
theorem change_advance {call : Call} (hg : s.Grounded) (hc : call ∈ s.calls) (env : Env) :
    Change s (s.advance call env) := by
  unfold advance
  split
  · split
    · exact change_check s call env
    · exact .quiet (.refl s)
  · split
    · exact change_scan s call _ _ _ _ _ _ env
    · exact .quiet (.refl s)
  · split
    next hop => exact change_reap hg hc hop _
    · exact .quiet (.refl s)
  · exact .quiet (quiet_prepare s call env)
  · exact .quiet (quiet_create s call env)
  · exact .quiet (quiet_publish s call)
  · exact .quiet (quiet_wake s call env)
  · exact .quiet (quiet_finish s call _ env)

/-- A new eventfd is a change. -/
theorem change_eventfd2 (s : System) (caller : Caller) (initial flags : BitVec 32) :
    Change s (s.eventfd2 caller initial flags) := by
  unfold eventfd2
  split
  · exact .quiet (quiet_reply s _)
  · split
    · exact .quiet (quiet_reply s _)
    · exact (Edit.opened caller.vm initial flags).then (quiet_install _ ⟨nofun, fun _ => rfl⟩)

/-- A new timer is quiet. -/
theorem quiet_timerfdCreate (s : System) (caller : Caller) (clock flags : BitVec 32) :
    Quiet s (s.timerfdCreate caller clock flags) := by
  unfold timerfdCreate
  split
  · exact quiet_reply s _
  · split
    · exact quiet_reply s _
    · split
      · exact quiet_reply s _
      · dsimp only
        exact (quiet_install _ ⟨by simp, by simp⟩).after
          ⟨rfl, rfl, rfl, ⟨[], rfl, List.forall_mem_nil _⟩, fun h => ⟨h.1, h.2, h.3, h.4, h.5⟩⟩

/-- A new epoll instance is a change. -/
theorem change_epollCreate (s : System) (caller : Caller) (flags : BitVec 32) :
    Change s (s.epollCreate caller flags) := by
  unfold epollCreate
  split
  · exact .quiet (quiet_reply s _)
  · split
    · exact .quiet (quiet_reply s _)
    · split
      · exact .quiet (quiet_reply s _)
      · exact (Edit.created caller.vm).then (quiet_install _ ⟨nofun, nofun⟩)

/-- A new Binder endpoint is quiet. -/
theorem quiet_openBinder (s : System) (caller : Caller) (env : Env) :
    Quiet s (s.openBinder caller env) := by
  unfold openBinder
  split
  · exact quiet_reply s _
  · split
    · exact quiet_reply s _
    · split
      · exact quiet_reply s _
      · dsimp only
        refine (quiet_install _ ⟨fun _ => ⟨rfl, rfl⟩, by simp⟩).after ⟨rfl, rfl, rfl, ⟨[], rfl, List.forall_mem_nil _⟩,
          fun h => ⟨h.1, fun b hb => ?_, Nat.succ_ne_zero _, h.4, h.5⟩⟩
        rcases List.mem_append.1 hb with hb | hb
        · exact h.2 b hb
        · rw [List.mem_singleton.1 hb]
          exact h.3

/-- An action that waits for the mutex of the table. -/
theorem Change.locked (h : Change s s') : Change s (if s.unlocked then s' else s) := by
  split
  · exact h
  · exact .quiet (.refl s)

/-- The step lemma: what a step does to counters and interests. -/
theorem perform_change (hg : s.Grounded) (a : Action) (env : Env) : Change s (perform s a env) := by
  cases a with
  | advance id =>
    unfold perform
    dsimp only
    split
    · exact .quiet (.refl s)
    next call hcall => exact change_advance hg (List.mem_of_find?_eq_some hcall) env
  | binderChanged => exact .quiet (quiet_pollNotify s env)
  | reapClosed token =>
    unfold perform
    dsimp only
    split
    · exact .quiet ((quiet_pollNotify _ env).after
        ⟨rfl, rfl, rfl, ⟨[], rfl, List.forall_mem_nil _⟩, fun h => ⟨h.1, h.2, h.3, h.4, h.5⟩⟩)
    · exact .quiet (.refl s)
  | eventfd2 caller initial flags => exact .locked (change_eventfd2 s caller initial flags)
  | timerfdCreate caller clock flags => exact .locked (.quiet (quiet_timerfdCreate s caller clock flags))
  | epollCreate caller flags => exact .locked (change_epollCreate s caller flags)
  | openBinder caller => exact .locked (.quiet (quiet_openBinder s caller env))
  | openOther kind =>
    refine .locked ?_
    split
    · exact .quiet (.refl s)
    · exact .quiet (quiet_install s ⟨by simp, by simp⟩)
  | close fd => exact .locked (.quiet (quiet_close s fd env))
  | timerfdSettime caller fd flags out =>
    exact .locked (.quiet (quiet_timerfdSettime s caller fd flags out env))
  | timerfdGettime caller fd => exact .locked (.quiet (quiet_timerfdGettime s caller fd env))
  | transfer caller fd address count writing =>
    exact .locked (.quiet (quiet_transfer s caller fd address count writing env))
  | epollCtl caller epfd operation fd =>
    exact .locked (.quiet (quiet_epollCtl s caller epfd operation fd env))
  | epollPwait caller epfd address maximum timeout mask size =>
    exact .locked (.quiet (quiet_epollPwait s caller epfd address maximum timeout mask size env))
  | ioctl caller fd => exact .locked (.quiet (quiet_ioctl s caller fd))

/-- An edit of the interests keeps the state grounded. -/
theorem Edit.grounded {living : Target → Bool} (h : Edit living s s') (hg : s.Grounded) : s'.Grounded := by
  have hset : ∀ {ep : Nat} {epoll epoll' : Epoll}, s.epolls[ep]? = some epoll →
      (∀ i ∈ epoll'.interests, i ∈ epoll.interests ∨ i.target.WellFormed) →
      (s.setEpoll ep epoll').Grounded := by
    intro ep epoll epoll' hepoll hi
    refine ⟨hg.1, hg.2, hg.3, hg.4, fun x hx i hix => ?_⟩
    rcases List.mem_or_eq_of_mem_set hx with hx | rfl
    · exact hg.5 x hx i hix
    · rcases hi i hix with hold | hwell
      · exact hg.5 epoll (List.mem_of_getElem? hepoll) i hold
      · exact hwell
  have hrecord : ∀ {s : System} {l : List Event}, s.Grounded → (s.record l).Grounded :=
    fun h => ⟨h.1, h.2, h.3, h.4, h.5⟩
  cases h with
  | opened | wrote | consumed | reported => exact ⟨hg.1, hg.2, hg.3, hg.4, hg.5⟩
  | created vm =>
    refine ⟨hg.1, hg.2, hg.3, hg.4, fun x hx i hix => ?_⟩
    rcases List.mem_append.1 hx with hx | hx
    · exact hg.5 x hx i hix
    · rw [List.mem_singleton.1 hx] at hix
      cases hix
  | cursor _ hepoll => exact hset hepoll fun i hi => .inl hi
  | erased index hepoll => exact hset hepoll fun i hi => .inl (List.mem_of_mem_eraseIdx hi)
  | @modified ep index epoll old interest hepoll hold _ htarget =>
    refine hrecord (hset hepoll fun i hi => ?_)
    rcases List.mem_or_eq_of_mem_set hi with hi | rfl
    · exact .inl hi
    · right
      rw [← htarget]
      exact hg.5 epoll (List.mem_of_getElem? hepoll) old (List.mem_of_getElem? hold)
  | added hepoll hwell _ _ =>
    refine hrecord (hset hepoll fun i hi => ?_)
    rcases List.mem_append.1 hi with hi | hi
    · exact .inl hi
    · rw [List.mem_singleton.1 hi]
      exact .inr hwell

/-- A change keeps the state grounded. -/
theorem Change.grounded (h : Change s s') (hg : s.Grounded) : s'.Grounded := by
  cases h with
  | quiet h => exact h.grounded hg
  | edit h₁ h₂ h₃ => exact h₃.grounded (h₂.grounded (h₁.grounded hg))

/-- Every reachable state is grounded. -/
theorem grounded (h : machine.Reachable s) : s.Grounded := by
  refine h.inv (fun s hs => ?_) fun s s' hg hstep => ?_
  · obtain ⟨attached, interests, limit, size, rfl⟩ := hs
    refine ⟨fun d hd => ?_, List.forall_mem_nil _, Nat.one_ne_zero, List.forall_mem_nil _, List.forall_mem_nil _⟩
    rw [List.eq_of_mem_replicate hd]
    exact ⟨nofun, nofun⟩
  · obtain ⟨a, env, rfl⟩ := hstep
    exact (perform_change hg a env).grounded hg

/-- What the start has and every such change keeps holds of every reachable state. -/
theorem reachable_change {P : System → Prop} (h : machine.Reachable s)
    (h0 : ∀ s, machine.init s → P s) (hquiet : ∀ s s', P s → Quiet s s' → P s')
    (hedit : ∀ living s s', P s → Edit living s s' → P s') : P s := by
  refine h.inv_of (J := Grounded) (fun s hs => grounded hs) h0 fun s s' hg hs hstep => ?_
  obtain ⟨a, env, rfl⟩ := hstep
  cases perform_change hg a env with
  | quiet hq => exact hquiet _ _ hs hq
  | edit h₁ h₂ h₃ => exact hquiet _ _ (hedit _ _ _ (hquiet _ _ hs h₁) h₂) h₃

end System

end Artbox.Vfs
