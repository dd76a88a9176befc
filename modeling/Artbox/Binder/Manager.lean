import Artbox.Binder.References

/-!
# Tokens and the context manager

Who an endpoint token and the device's manager are, over whole runs: a token belongs to
one endpoint and to none after it, the manager is a present endpoint with the one live
manager node, its user is the first user that ever registered, and only a reap that finds
the receive mapping gone takes a closed endpoint away.
-/

namespace Artbox.Binder

open Slots

/-! ## Tokens -/

/-- A new endpoint takes the next token. -/
theorem Device.openEndpoint_nextToken {d d' : Device} {vm uid : Nat} {pid : Int}
    (ho : d.openEndpoint vm pid uid = some d') :
    d.nextToken ≠ 0 ∧ d'.nextToken = succ64 d.nextToken := by
  unfold openEndpoint at ho
  split at ho
  · cases ho
  next h0 =>
    obtain ⟨l, _, rfl⟩ := Option.map_eq_some_iff.1 ho
    exact ⟨h0, rfl⟩

/-- What becomes of the endpoint of a token in one step: it stays with its user, or it is
gone and its token is handed out to no other. -/
theorem Step.endpoint {d d' : Device} (hi : EndpointIds d) (hs : Step d d') {k : Nat}
    (hk : Issued d.nextToken k) : Issued d'.nextToken k ∧ (d'.endpointFor k = none ∨
      ∃ e e', d.endpointFor k = some e ∧ d'.endpointFor k = some e' ∧ e'.uid = e.uid) := by
  -- a lookup that an update of the slots keeps
  have hmap : ∀ g : Endpoint → Endpoint, (∀ e, (g e).uid = e.uid) →
      d'.endpointFor k = (d.endpointFor k).map g → d'.endpointFor k = none ∨
        ∃ e e', d.endpointFor k = some e ∧ d'.endpointFor k = some e' ∧ e'.uid = e.uid := by
    intro g hg h
    cases he : d.endpointFor k with
    | none => exact .inl (by rw [h, he, Option.map_none])
    | some e => exact .inr ⟨e, g e, rfl, by rw [h, he, Option.map_some], hg e⟩
  cases hs.endpoints with
  | same hs =>
    obtain ⟨g, hg, hfor⟩ := hs.endpointFor
    refine ⟨hs.1 ▸ hk, hmap g (fun e => (hg e).2.2.2) (hfor k)⟩
  | openEndpoint ho =>
    obtain ⟨h0, hnext⟩ := Device.openEndpoint_nextToken ho
    refine ⟨?_, hmap id (fun _ => rfl) ?_⟩
    · rw [hnext]
      exact Issued.succ hi.bounded h0 (.inl hk)
    · rw [Device.endpointFor_openEndpoint ho (hk.ne h0), Option.map_id_fun, id]
  | @admission e tid _ _ ha =>
    unfold Device.admitThread at ha
    split at ha
    · cases ha
      exact ⟨hk, hmap id (fun _ => rfl) (by rw [Option.map_id_fun, id])⟩
    · split at ha
      · cases ha
      · cases ha
        refine ⟨hk, hmap _ (fun e => ?_) (Device.endpointFor_updateEndpoint fun _ => rfl)⟩
        split <;> rfl
  | erase heq =>
    subst heq
    refine ⟨hk, hmap _ (fun e => ?_) (Device.endpointFor_updateEndpoint fun _ => rfl)⟩
    split <;> rfl
  | @retire token heq =>
    subst heq
    rw [retire_nextToken, Device.endpointFor_retire]
    split
    · exact ⟨hk, .inl rfl⟩
    · refine ⟨hk, ?_⟩
      cases he : d.endpointFor k with
      | none => exact .inl rfl
      | some e => exact .inr ⟨e, e, rfl, rfl, rfl⟩

/-- Issued tokens stay issued. -/
theorem issued_of_steps {d d' : Device} (h : d.Reachable) (hs : machine.Steps d d') {k : Nat}
    (hk : Issued d.nextToken k) : Issued d'.nextToken k := by
  induction hs with
  | refl => exact hk
  | @tail d₁ d₂ hs₁ hstep ih =>
    have h₁ : d₁.Reachable := h.steps hs₁
    exact (Step.endpoint h₁.endpointIds hstep ih).1

/-- The token handed out next was never in use. -/
theorem nextToken_unused {d d' : Device} (h : d.Reachable) (hs : machine.Steps d d') :
    d.endpointFor d'.nextToken = none := by
  by_contra hne
  obtain ⟨e, he⟩ := Option.ne_none_iff_exists'.1 hne
  obtain ⟨hmem, htok, h0⟩ := Device.endpointFor_spec he
  have hissued : Issued d.nextToken d'.nextToken :=
    htok ▸ h.endpointIds.issued e hmem (htok ▸ h0)
  exact (issued_of_steps h hs hissued).ne h0 rfl

/-- A token whose endpoint is gone stays without one. -/
theorem gone_of_steps {d d' : Device} (h : d.Reachable) (hs : machine.Steps d d') {k : Nat}
    (hk : Issued d.nextToken k) (hgone : d.endpointFor k = none) : d'.endpointFor k = none := by
  induction hs with
  | refl => exact hgone
  | @tail d₁ d₂ hs₁ hstep ih =>
    have h₁ : d₁.Reachable := h.steps hs₁
    obtain ⟨_, hgone₂ | ⟨e, _, he, _⟩⟩ :=
      Step.endpoint h₁.endpointIds hstep (issued_of_steps h hs₁ hk)
    · exact hgone₂
    · rw [ih] at he
      cases he

/-! ## The user of the context manager -/

/-- Nothing about the registration changed. -/
structure SameManager (d d' : Device) : Prop where
  manager : d'.manager = d.manager
  uidSet : d'.uidSet = d.uidSet
  managerUid : d'.managerUid = d.managerUid

namespace SameManager

variable {d d' d'' : Device}

theorem refl (d : Device) : SameManager d d := ⟨rfl, rfl, rfl⟩

theorem trans (h : SameManager d d') (h' : SameManager d' d'') : SameManager d d'' :=
  ⟨h'.manager.trans h.manager, h'.uidSet.trans h.uidSet, h'.managerUid.trans h.managerUid⟩

theorem dropWorks {token : Nat} {tid : Int} {p : Work → Bool} :
    SameManager d (d.dropWorks token tid p) := by
  unfold Device.dropWorks
  generalize d.work.filter p = l
  induction l generalizing d with
  | nil => exact refl d
  | cons w ws ih =>
    have hone : SameManager d (Device.dropWork token tid d w) := ⟨rfl, rfl, rfl⟩
    exact hone.trans ih

theorem cancelTransaction {token : Nat} {tid : Int} {t : Transaction} :
    SameManager d (Device.cancelTransaction token tid d t) := by
  have hc : SameManager d (d.cancelCaller t) := by
    unfold Device.cancelCaller
    split
    · exact refl d
    · split
      · exact ⟨rfl, rfl, rfl⟩
      · exact refl d
  have hs : SameManager (d.cancelCaller t) ((d.cancelCaller t).cancelServer t) := by
    unfold Device.cancelServer
    split
    · exact refl _
    · split
      · exact ⟨rfl, rfl, rfl⟩
      · exact refl _
  exact ((hc.trans hs).trans dropWorks).trans ⟨rfl, rfl, rfl⟩

theorem cancelTransactions {token : Nat} {tid : Int} :
    SameManager d (d.cancelTransactions token tid) := by
  unfold Device.cancelTransactions
  refine trans ?_ dropWorks
  generalize d.transactions.filter (Device.cancelMatches token tid) = l
  induction l generalizing d with
  | nil => exact refl d
  | cons t ts ih => exact cancelTransaction.trans ih

end SameManager

/-- What a step does to the registration. -/
inductive ManagerStep (d d' : Device) : Prop
  | same : SameManager d d' → ManagerStep d d'
  | register {e : Endpoint} : d.endpointFor e.token = some e →
    (d.uidSet = true → d.managerUid = e.uid) → d'.endpoints = d.endpoints →
      d'.manager = e.token → d'.uidSet = true → d'.managerUid = e.uid → ManagerStep d d'
  | retire {token : Nat} : d' = d.retire token → ManagerStep d d'

/-- Every step keeps the manager, registers one or lets it go. -/
theorem Step.manager {d d' : Device} (hs : Step d d') : ManagerStep d d' := by
  cases hs with
  | openEndpoint ho =>
    unfold Device.openEndpoint at ho
    split at ho
    · cases ho
    · obtain ⟨l, _, rfl⟩ := Option.map_eq_some_iff.1 ho
      exact .same ⟨rfl, rfl, rfl⟩
  | admission _ _ ha =>
    unfold Device.admitThread at ha
    split at ha
    · cases ha
      exact .same ⟨rfl, rfl, rfl⟩
    · split at ha
      · cases ha
      · cases ha
        exact .same ⟨rfl, rfl, rfl⟩
  | @setContextMgr e flags pointer cookie he =>
    unfold Device.setContextMgr
    split
    · exact .same ⟨rfl, rfl, rfl⟩
    split
    · exact .same ⟨rfl, rfl, rfl⟩
    next huid =>
    split
    · exact .same ⟨rfl, rfl, rfl⟩
    split
    · exact .same ⟨rfl, rfl, rfl⟩
    · refine .register he (fun hset => ?_) rfl rfl rfl rfl
      by_contra hne
      exact huid ⟨hset, hne⟩
  | requestDeath | clearDeath | doneDeath =>
    simp only [Device.requestDeath, Device.clearDeath, Device.doneDeath, Device.recordSlot]
    split <;> exact .same ⟨rfl, rfl, rfl⟩
  | free =>
    unfold Device.freePacket
    split
    · exact .same ⟨rfl, rfl, rfl⟩
    · split <;> exact .same ⟨rfl, rfl, rfl⟩
  | @deliver e th record =>
    cases record with
    | work index w =>
      simp only [Device.deliver, Device.deliverWork]
      split
      · exact .same ⟨rfl, rfl, rfl⟩
      · split
        · exact .same ⟨rfl, rfl, rfl⟩
        · unfold Device.serve
          split <;> exact .same ⟨rfl, rfl, rfl⟩
    | _ => exact .same ⟨rfl, rfl, rfl⟩
  | cancel => exact .same .cancelTransaction
  | retire => exact .retire rfl
  | _ => exact .same ⟨rfl, rfl, rfl⟩

/-- The manager is an endpoint of the user that registered. -/
structure UserKept (d : Device) : Prop where
  set : d.manager ≠ 0 → d.uidSet = true
  user : ∀ e, d.endpointFor d.manager = some e → e.uid = d.managerUid

/-- Once the manager's user is set, every step keeps it. -/
theorem UserKept.step {d d' : Device} (h : UserKept d) (hi : EndpointIds d) (hr : Registered d)
    (hs : Step d d') : UserKept d' ∧ (d.uidSet = true → d'.uidSet = true ∧ d'.managerUid = d.managerUid) := by
  cases hs.manager with
  | same hm =>
    refine ⟨⟨fun h0 => ?_, fun e' he' => ?_⟩, fun hset => ⟨hm.uidSet.trans hset, hm.managerUid⟩⟩
    · rw [hm.uidSet]
      exact h.set (hm.manager ▸ h0)
    · rw [hm.manager] at he'
      obtain ⟨_, _, hm0⟩ := Device.endpointFor_spec he'
      -- the manager was there before the step
      obtain ⟨e₀, he₀⟩ := Option.isSome_iff_exists.1 (hr.present hm0)
      obtain ⟨hmem, htok, _⟩ := Device.endpointFor_spec he₀
      have hissued : Issued d.nextToken d.manager := htok ▸ hi.issued e₀ hmem (htok ▸ hm0)
      obtain ⟨_, hnone | ⟨e, e'', he, he'', huid⟩⟩ := hs.endpoint hi hissued
      · rw [hnone] at he'
        cases he'
      · rw [he'] at he''
        cases he''
        rw [huid, hm.managerUid, h.user e he]
  | @register e he hsame heq hm hset huid =>
    refine ⟨⟨fun _ => hset, fun e' he' => ?_⟩, fun h1 => ⟨hset, huid.trans (hsame h1).symm⟩⟩
    rw [hm, Device.endpointFor_congr heq, he] at he'
    cases he'
    exact huid.symm
  | @retire token heq =>
    subst heq
    have hrest : (d.retire token).uidSet = d.uidSet ∧ (d.retire token).managerUid = d.managerUid := by
      unfold Device.retire
      by_cases hk : d.manager = token <;> simp [hk, Device.record, Device.updateEndpoint, Device.updateArena]
    obtain ⟨hset, huid⟩ := hrest
    obtain ⟨_, hm⟩ := d.retire_objects token
    refine ⟨⟨fun h0 => ?_, fun e he => ?_⟩, fun h1 => ⟨hset.trans h1, huid⟩⟩
    · rw [hset]
      refine h.set fun hm0 => h0 ?_
      rw [hm, hm0]
      split <;> rfl
    · rw [huid]
      rw [hm, Device.endpointFor_retire] at he
      by_cases hk : d.manager = token
      · rw [if_pos hk] at he
        split at he
        · cases he
        · exact absurd rfl (Device.endpointFor_spec he).2.2
      · rw [if_neg hk, if_neg hk] at he
        exact h.user e he

/-- In every reachable device a manager has its user set. -/
theorem Device.Reachable.userKept {d : Device} (h : d.Reachable) : UserKept d := by
  refine h.inv_of (J := fun d => d.Reachable) (fun _ h => h) (fun d hi => ?_) fun _ _ hr hu hs =>
    (hu.step hr.endpointIds hr.accounts.registered hs).1
  have hm : d.manager = 0 := (machine_init hi).2.2.2.2.2.2.2
  refine ⟨fun h0 => absurd hm h0, fun e he => ?_⟩
  exact absurd hm (Device.endpointFor_spec he).2.2

/-- Whoever is the manager later has the user of whoever is the manager now. -/
theorem manager_user {d d' : Device} (h : d.Reachable) (hs : machine.Steps d d') {e e' : Endpoint}
    (he : d.endpointFor d.manager = some e) (he' : d'.endpointFor d'.manager = some e') :
    e'.uid = e.uid := by
  have hset : d.uidSet = true := h.userKept.set (Device.endpointFor_spec he).2.2
  have hkept : d'.uidSet = true ∧ d'.managerUid = d.managerUid := by
    clear he'
    induction hs with
    | refl => exact ⟨hset, rfl⟩
    | @tail d₁ d₂ hs₁ hstep ih =>
      have h₁ : d₁.Reachable := h.steps hs₁
      obtain ⟨h2, h3⟩ := (h₁.userKept.step h₁.endpointIds h₁.accounts.registered hstep).2 ih.1
      exact ⟨h2, h3.trans ih.2⟩
  have h' : d'.Reachable := h.steps hs
  rw [h'.userKept.user e' he', h.userKept.user e he, hkept.2]

/-! ## Calls to handle zero -/

/-- A call to handle `0` is sent to the manager's endpoint. -/
theorem callTarget_zero {d : Device} (hr : Registered d) {source target : Endpoint} {th : Thread}
    {input : TransactionData} {oneway : Bool} {node : Node} (hzero : input.target % 2 ^ 32 = 0)
    (h : d.callTarget source th input oneway = .send target node) :
    d.manager ≠ 0 ∧ target.token = d.manager ∧ d.objects.nodeFor d.objects.managerNode = some node := by
  have howner := (callTarget_spec h).2.2.1
  have hnode : d.objects.nodeFor d.objects.managerNode = some node := by
    simp only [Device.callTarget, hzero, if_true] at h
    split at h
    · cases h
    split at h
    · cases h
    next n hn =>
    split at h
    · cases h
    split at h
    · cases h
    split at h
    · cases h
      exact hn
    split at h
    · cases h
    · cases h
      exact hn
  have hm0 : d.manager ≠ 0 := by
    intro h0
    rw [hr.zero.1 h0] at hnode
    exact (Objects.nodeFor_spec hnode).2.2 rfl
  obtain ⟨n, hn, how, _⟩ := hr.node hm0
  rw [hnode] at hn
  cases hn
  exact ⟨hm0, howner.symm.trans how, hnode⟩

/-- The call fails and leaves the queue alone: it is not consumed, or consumed with an error
return. -/
def CallFails (d d' : Device) (e : Endpoint) (th : Thread) (call : Bool) (result : Int) : Prop :=
  d'.work = d.work ∧
    (result ≠ 0 ∨ ∃ word, d'.history = .refused e.token th.tid call word :: d.history)

/-- The call is queued for the manager. -/
def ReachesManager (d d' : Device) : Prop :=
  d.manager ≠ 0 ∧ ∃ w, d'.work = d.work ++ [w] ∧ w.endpoint = d.manager

/-- A call to handle zero fails without a manager. -/
theorem transferCall_zero {ω : Type} (host : Host ω) (w : ω) {d : Device} (hr : Registered d)
    (e : Endpoint) (th : Thread) {input : TransactionData} (hzero : input.target % 2 ^ 32 = 0) :
    CallFails d (transferCall host w d e th input).2.1 e th (!(input.flags % 2 == 1))
        (transferCall host w d e th input).1 ∨
      ReachesManager d (transferCall host w d e th input).2.1 := by
  simp only [transferCall]
  split
  next r htarget =>
    -- selection refuses with one of two error codes
    refine .inl ⟨rfl, .inl ?_⟩
    show r ≠ 0
    simp only [Device.callTarget, hzero, if_true] at htarget
    repeat' split at htarget
    all_goals first | cases htarget; decide | cases htarget
  next word htarget => exact .inl ⟨rfl, .inr ⟨word, rfl⟩⟩
  next target node htarget =>
    obtain ⟨hm0, htok, _⟩ := callTarget_zero hr hzero htarget
    split
    next hres =>
      left
      unfold Device.refusePayload
      split
      · exact ⟨rfl, .inr ⟨_, rfl⟩⟩
      · exact ⟨rfl, .inl hres⟩
    next hres =>
      right
      split
      · exact ⟨hm0, _, rfl, htok⟩
      · exact ⟨hm0, _, rfl, htok⟩

/-! ## Reaping -/

/-- A release takes away one endpoint. -/
theorem Device.isSome_endpointFor_releaseEndpoint (d : Device) (token k : Nat) :
    ((d.releaseEndpoint token).endpointFor k).isSome = true ↔
      (d.endpointFor k).isSome = true ∧ k ≠ token := by
  have hsame : SameIds (d.record (.teardown token 0))
      ((d.record (.teardown token 0)).cancelTransactions token) := .cancelTransactions
  rw [releaseEndpoint, Device.endpointFor_retire]
  by_cases hk : k = token
  · simp [hk]
  · rw [if_neg hk, hsame.present, Device.endpointFor_record]
    simp [hk]

/-- The manager is gone exactly with its endpoint. -/
theorem Device.releaseEndpoint_manager (d : Device) (token : Nat) :
    (d.releaseEndpoint token).manager = if d.manager = token then 0 else d.manager := by
  have hsame : SameManager (d.record (.teardown token 0))
      ((d.record (.teardown token 0)).cancelTransactions token) := .cancelTransactions
  rw [releaseEndpoint, (Device.retire_objects _ token).2, hsame.manager, Device.record_manager]

section Reap

variable {ω : Type} {host : Host ω} {w : ω} {d : Device}

/-- What a reap does at one slot. -/
def reapOne (host : Host ω) (s : Device × ω) (e : Endpoint) : Device × ω :=
  if e.token = 0 ∨ e.opened then s
  else
    let bits := host.watchBits s.2 e.receiveWatch
    if mappingLive bits.1 then (s.1, bits.2)
    else
      (s.1.releaseEndpoint e.token,
        (if e.receiveOwner = 0 then (0, bits.2) else host.destroy bits.2 e.receiveOwner).2)

/-- The loop reaps endpoint by endpoint. -/
theorem reapFrom_eq (l : List Endpoint) :
    (reapFrom host l d w).2 = l.foldl (reapOne host) (d, w) := by
  induction l generalizing d w with
  | nil => rfl
  | cons e rest ih =>
    rw [List.foldl_cons]
    by_cases hskip : e.token = 0 ∨ e.opened = true
    · simp only [reapFrom, reapOne, if_pos hskip]
      exact ih
    · by_cases hlive : mappingLive (host.watchBits w e.receiveWatch).1 = true
      · simp only [reapFrom, reapOne, if_neg hskip, if_pos hlive]
        exact ih
      · simp only [reapFrom, reapOne, if_neg hskip, if_neg hlive]
        exact ih

/-- An endpoint is reaped only when it is closed and its mapping is gone. -/
theorem reapOne_cases (s : Device × ω) (e : Endpoint) :
    ((reapOne host s e).1 = s.1 ∧ (e.token = 0 ∨ e.opened = true ∨
        mappingLive (host.watchBits s.2 e.receiveWatch).1 = true)) ∨
      ((reapOne host s e).1 = s.1.releaseEndpoint e.token ∧ e.opened = false ∧
        mappingLive (host.watchBits s.2 e.receiveWatch).1 = false) := by
  by_cases hskip : e.token = 0 ∨ e.opened = true
  · rw [reapOne, if_pos hskip]
    exact .inl ⟨rfl, hskip.imp_right .inl⟩
  · have hopen : e.opened = false := by
      rw [← Bool.not_eq_true]
      exact fun h => hskip (.inr h)
    by_cases hlive : mappingLive (host.watchBits s.2 e.receiveWatch).1 = true
    · unfold reapOne
      rw [if_neg hskip]
      dsimp only
      rw [if_pos hlive]
      exact .inl ⟨rfl, .inr (.inr hlive)⟩
    · unfold reapOne
      rw [if_neg hskip]
      dsimp only
      rw [if_neg hlive]
      exact .inr ⟨rfl, hopen, by simpa using hlive⟩

variable (host) in
/-- A reap only takes endpoints away, and only listed ones. -/
theorem reap_present (l : List Endpoint) {s : Device × ω} {k : Nat} :
    (((l.foldl (reapOne host) s).1.endpointFor k).isSome = true →
        (s.1.endpointFor k).isSome = true) ∧
      ((∀ e ∈ l, e.token ≠ k) → (s.1.endpointFor k).isSome = true →
        ((l.foldl (reapOne host) s).1.endpointFor k).isSome = true) := by
  induction l generalizing s with
  | nil => exact ⟨id, fun _ => id⟩
  | cons e rest ih =>
    rw [List.foldl_cons]
    obtain ⟨ih1, ih2⟩ := @ih (reapOne host s e)
    have hrest : (∀ x ∈ e :: rest, x.token ≠ k) → ∀ x ∈ rest, x.token ≠ k :=
      fun hl x hx => hl x (List.mem_cons_of_mem _ hx)
    rcases reapOne_cases s e with ⟨heq, _⟩ | ⟨heq, _⟩
    · rw [heq] at ih1 ih2
      exact ⟨ih1, fun hl => ih2 (hrest hl)⟩
    · rw [heq, Device.isSome_endpointFor_releaseEndpoint] at ih1 ih2
      exact ⟨fun h => (ih1 h).1, fun hl h => ih2 (hrest hl) ⟨h, (hl e List.mem_cons_self).symm⟩⟩

/-- A manager that survives a reap stays the manager. -/
theorem reap_manager (l : List Endpoint) {s : Device × ω}
    (h : ((l.foldl (reapOne host) s).1.endpointFor s.1.manager).isSome = true) :
    (l.foldl (reapOne host) s).1.manager = s.1.manager := by
  induction l generalizing s with
  | nil => rfl
  | cons e rest ih =>
    rw [List.foldl_cons] at h ⊢
    have hm : (reapOne host s e).1.manager = s.1.manager := by
      rcases reapOne_cases s e with ⟨heq, _⟩ | ⟨heq, _⟩
      · rw [heq]
      · have hpres := (reap_present host rest).1 h
        rw [heq, Device.isSome_endpointFor_releaseEndpoint] at hpres
        rw [heq, Device.releaseEndpoint_manager, if_neg hpres.2]
    rw [← hm] at h ⊢
    exact ih h

/-- The world after a reap does not depend on the device. -/
theorem reap_world (l : List Endpoint) (s s' : Device × ω) (h : s'.2 = s.2) :
    (l.foldl (reapOne host) s').2 = (l.foldl (reapOne host) s).2 := by
  induction l generalizing s s' with
  | nil => exact h
  | cons e rest ih =>
    refine ih _ _ ?_
    unfold reapOne
    rw [h]
    split
    · exact h
    · dsimp only
      split <;> rfl

/-- The other slots have other tokens. -/
theorem EndpointIds.others (hi : EndpointIds d) {e : Endpoint} {pre post : List Endpoint}
    (hsplit : d.endpoints = pre ++ e :: post) (h0 : e.token ≠ 0) :
    (∀ x ∈ pre, x.token ≠ e.token) ∧ ∀ x ∈ post, x.token ≠ e.token := by
  have htokens := hi.tokens
  rw [hsplit] at htokens
  obtain ⟨_, hpost, hcross⟩ := List.pairwise_append.1 htokens
  refine ⟨fun x hx hk => ?_, fun x hx hk => ?_⟩
  · exact hcross x hx e List.mem_cons_self (show x.token ≠ 0 from hk ▸ h0) h0 hk
  · exact (List.pairwise_cons.1 hpost).1 x hx h0 (show x.token ≠ 0 from hk ▸ h0) hk.symm

variable (host) in
/-- A reap releases a listed endpoint exactly if it is closed and its mapping, asked about
when the reap gets to it, is absent or not live. -/
theorem reapFrom_endpoint (hi : EndpointIds d) {e : Endpoint} {pre post : List Endpoint}
    (hsplit : d.endpoints = pre ++ e :: post) (h0 : e.token ≠ 0) :
    (reapFrom host d.endpoints d w).2.1.endpointFor e.token = none ↔ e.opened = false ∧
      mappingLive (host.watchBits (reapFrom host pre d w).2.2 e.receiveWatch).1 = false := by
  obtain ⟨hpre, hpost⟩ := hi.others hsplit h0
  have hthere : (d.endpointFor e.token).isSome = true := by
    rw [hi.endpointFor (by simp [hsplit]) h0]
    rfl
  -- it is still there when the reap gets to it
  have hreached := (reap_present host (s := (d, w)) pre).2 hpre hthere
  rw [reapFrom_eq, reapFrom_eq, hsplit, List.foldl_append, List.foldl_cons]
  generalize pre.foldl (reapOne host) (d, w) = s at hreached ⊢
  obtain ⟨hback, hkept⟩ := reap_present host (s := reapOne host s e) (k := e.token) post
  rcases reapOne_cases s e with ⟨heq, hstays⟩ | ⟨heq, hopen, hlive⟩
  · rw [heq] at hkept
    have hsome := hkept hpost hreached
    refine iff_of_false (fun hnone => ?_) ?_
    · rw [hnone] at hsome
      cases hsome
    · rintro ⟨hopen, hlive⟩
      rw [hopen, hlive] at hstays
      simp [h0] at hstays
  · refine iff_of_true ?_ ⟨hopen, hlive⟩
    rw [← Option.not_isSome_iff_eq_none]
    intro hsome
    have hgone := hback hsome
    rw [heq, Device.isSome_endpointFor_releaseEndpoint] at hgone
    exact hgone.2 rfl

/-- The slot of a closed endpoint. -/
def Endpoint.shut (e : Endpoint) : Endpoint := { e with opened := false, vm := 0 }

/-- A manager whose mapping is live is the manager after its close. -/
theorem close_manager (h : d.Reachable) {e : Endpoint} {pre post : List Endpoint}
    (hsplit : d.endpoints = pre ++ e :: post) (h0 : d.manager ≠ 0) (hm : e.token = d.manager)
    (hlive : mappingLive (host.watchBits (reapFrom host pre d w).2.2 e.receiveWatch).1 = true) :
    (close host w d e.token).2.1.manager = d.manager := by
  have hk : e.token ≠ 0 := hm ▸ h0
  unfold close
  split
  · rfl
  split
  · rfl
  · show (reapClosed host w (d.updateEndpoint e.token Endpoint.shut)).2.1.manager = d.manager
    have hclosed : (d.updateEndpoint e.token Endpoint.shut).Reachable :=
      h.then (.tune e.token (.of_eq (fun _ => rfl) (fun _ => rfl) (fun _ => rfl) fun _ => rfl))
    -- only its own slot changes before the reap
    obtain ⟨hpre, hpost⟩ := h.endpointIds.others hsplit hk
    have hsplit' : (d.updateEndpoint e.token Endpoint.shut).endpoints = pre ++ e.shut :: post := by
      have hkeep : ∀ l : List Endpoint, (∀ x ∈ l, x.token ≠ e.token) →
          update (fun x => x.token == e.token) Endpoint.shut l = l := by
        intro l hl
        refine update_eq_self fun x hx hp => absurd ?_ (hl x hx)
        simpa using hp
      rw [Device.updateEndpoint, hsplit, update, List.map_append, List.map_cons]
      rw [show pre.map _ = _ from hkeep pre hpre, show post.map _ = _ from hkeep post hpost]
      simp
    have hreap := reapFrom_endpoint host (w := w) hclosed.endpointIds hsplit' hk
    have hworld : (reapFrom host pre (d.updateEndpoint e.token Endpoint.shut) w).2.2 =
        (reapFrom host pre d w).2.2 := by
      rw [reapFrom_eq, reapFrom_eq]
      exact reap_world pre _ _ rfl
    rw [hworld] at hreap
    have hthere : ((reapClosed host w (d.updateEndpoint e.token Endpoint.shut)).2.1.endpointFor
        d.manager).isSome = true := by
      rw [← hm, ← Option.ne_none_iff_isSome]
      intro hnone
      have hgone := (hreap.1 hnone).2
      rw [show e.shut.receiveWatch = e.receiveWatch from rfl, hlive] at hgone
      cases hgone
    rw [reapClosed, reapFrom_eq] at hthere ⊢
    exact reap_manager _ hthere

end Reap

/-! ## The statement -/

/-- In every reachable state a token belongs to at most one slot, and neither is the token of
a released endpoint found again nor was the next token ever in use. A manager is registered
exactly if its node is, it is present and owns the one live manager node, and a call to
handle `0` fails or is queued for it; every later manager has its user. A reap releases
exactly the closed endpoints whose mapping is absent or not live, so the close of a manager
whose mapping is live leaves it the manager. -/
theorem manager_holds {d : Device} (h : d.Reachable) :
    Unique (fun e : Endpoint => e.token ≠ 0) (·.token) d.endpoints ∧
      (∀ d₁ d₂ k, machine.Steps d d₁ → machine.Steps d₁ d₂ → (d.endpointFor k).isSome = true →
        d₁.endpointFor k = none → d₂.endpointFor k = none) ∧
      (∀ d', machine.Steps d d' → d.endpointFor d'.nextToken = none) ∧
      (d.manager ≠ 0 ↔ d.objects.managerNode ≠ 0) ∧
      (d.manager ≠ 0 → (d.endpointFor d.manager).isSome = true ∧
        ∃ n, d.objects.nodeFor d.objects.managerNode = some n ∧ n.owner = d.manager ∧
          n.manager = true ∧ n.dead = false ∧
          ∀ n' ∈ d.objects.nodes, n'.id ≠ 0 → n'.manager = true → n'.dead = false → n' = n) ∧
      (∀ (ω : Type) (host : Host ω) w e th (input : TransactionData), input.target % 2 ^ 32 = 0 →
        CallFails d (transferCall host w d e th input).2.1 e th (!(input.flags % 2 == 1))
            (transferCall host w d e th input).1 ∨
          ReachesManager d (transferCall host w d e th input).2.1) ∧
      (∀ d' e e', machine.Steps d d' → d.endpointFor d.manager = some e →
        d'.endpointFor d'.manager = some e' → e'.uid = e.uid) ∧
      ∀ (ω : Type) (host : Host ω) w pre e post, d.endpoints = pre ++ e :: post → e.token ≠ 0 →
        ((reapClosed host w d).2.1.endpointFor e.token = none ↔ e.opened = false ∧
          mappingLive (host.watchBits (reapFrom host pre d w).2.2 e.receiveWatch).1 = false) ∧
        (e.token = d.manager →
          mappingLive (host.watchBits (reapFrom host pre d w).2.2 e.receiveWatch).1 = true →
            (close host w d e.token).2.1.manager = d.manager) := by
  have hi := h.endpointIds
  have hr := h.accounts.registered
  refine ⟨hi.tokens, fun d₁ d₂ k hs hs' hk hgone => ?_, fun d' hs => nextToken_unused h hs,
    not_congr hr.zero, fun h0 => ⟨hr.present h0, ?_⟩,
    fun _ host w e th _ hzero => transferCall_zero host w hr e th hzero,
    fun d' e e' hs he he' => manager_user h hs he he',
    fun _ host w pre e post hsplit h0 => ⟨reapFrom_endpoint host hi hsplit h0, fun hm hlive => ?_⟩⟩
  · obtain ⟨e, he⟩ := Option.isSome_iff_exists.1 hk
    obtain ⟨hmem, htok, h0⟩ := Device.endpointFor_spec he
    have hissued : Issued d.nextToken k := htok ▸ hi.issued e hmem (htok ▸ h0)
    have h₁ : d₁.Reachable := h.steps hs
    exact gone_of_steps h₁ hs' (issued_of_steps h hs hissued) hgone
  · obtain ⟨n, hn, how, hman, hdead⟩ := hr.node h0
    refine ⟨n, hn, how, hman, hdead, fun n' hmem hid hman' hdead' => ?_⟩
    have hn' := h.accounts.objects.nodes.nodeFor hmem hid
    have heq := hr.unique _ n' hn' hman' hdead'
    rw [heq, hn] at hn'
    cases hn'
    rfl
  · exact close_manager h hsplit (hm ▸ h0) hm hlive

/-- The mappings of the script host stay live: a closed manager is still registered. -/
theorem close_keeps_manager : (replay [] [.close 1]).manager = 1 ∧
    ((replay [] [.close 1]).manager ≠ 0 ↔ (replay [] [.close 1]).objects.managerNode ≠ 0) :=
  ⟨by decide +kernel, (manager_holds (replay_reachable [] [.close 1])).2.2.2.1⟩

end Artbox.Binder
