import Artbox.Binder.Steps

/-!
# Identities

Tokens, tids and transaction ids name what they name: a live token belongs to one
endpoint slot, a tid to one thread of its endpoint, a transaction id to one call,
and the counters that hand out tokens and ids are ahead of everything handed out
(`Ident`). Most steps keep the endpoints slot by slot (`SameIds`); the four that do
not are `open`, the admission of a thread, its exit and the release of an endpoint.
-/

namespace Artbox.Binder

open Slots

/-- The counter has passed this identity; at zero it has passed all of them. -/
def Issued (next id : Nat) : Prop := next = 0 ∨ id < next

/-- What was issued stays so when the next ID is taken. -/
theorem Issued.succ {next id : Nat} (hb : next < 2 ^ 64) (h0 : next ≠ 0)
    (h : Issued next id ∨ id = next) : Issued (succ64 next) id := by
  unfold Issued succ64 at *
  omega

/-- An issued ID is not the next one. -/
theorem Issued.ne {next id : Nat} (h0 : next ≠ 0) (h : Issued next id) : id ≠ next := by
  unfold Issued at h
  omega

/-- The counter stays a 64-bit word. -/
theorem succ64_lt (n : Nat) : succ64 n < 2 ^ 64 := Nat.mod_lt _ (by decide)

/-! ## Endpoints and threads -/

/-- Tokens and tids are unique and issued, free slots are empty. -/
structure EndpointIds (d : Device) : Prop where
  tokens : Unique (fun e : Endpoint => e.token ≠ 0) (·.token) d.endpoints
  issued : ∀ e ∈ d.endpoints, e.token ≠ 0 → Issued d.nextToken e.token
  bounded : d.nextToken < 2 ^ 64
  vacant : ∀ e ∈ d.endpoints, e.token = 0 → e.threads = [] ∧ e.arena = none
  tids : ∀ e ∈ d.endpoints, Unique (fun _ => True) (·.tid) e.threads
  positive : ∀ e ∈ d.endpoints, ∀ th ∈ e.threads, 0 < th.tid

/-- The slot keeps its token, its user and its threads' tids, and stays empty if it is
free. -/
def Endpoint.Same (e e' : Endpoint) : Prop :=
  e'.token = e.token ∧
    (∃ h : Thread → Thread, (∀ th, (h th).tid = th.tid) ∧ e'.threads = e.threads.map h) ∧
    (e.token = 0 → e.arena = none → e'.arena = none) ∧ e'.uid = e.uid

/-- An endpoint is the same as itself. -/
theorem Endpoint.Same.refl (e : Endpoint) : e.Same e :=
  ⟨rfl, ⟨id, fun _ => rfl, by simp⟩, fun _ h => h, rfl⟩

/-- The device keeps its endpoints slot by slot. -/
def SameIds (d d' : Device) : Prop :=
  d'.nextToken = d.nextToken ∧
    ∃ g : Endpoint → Endpoint, (∀ e : Endpoint, e.Same (g e)) ∧ d'.endpoints = d.endpoints.map g

namespace SameIds

variable {d d' d'' : Device}

/-- A step that leaves the endpoints and the counter leaves the identities. -/
theorem of_eq (hn : d'.nextToken = d.nextToken) (he : d'.endpoints = d.endpoints) : SameIds d d' :=
  ⟨hn, id, Endpoint.Same.refl, by simp [he]⟩

theorem refl (d : Device) : SameIds d d := of_eq rfl rfl

/-- Identities that two steps leave, both leave. -/
theorem trans (h : SameIds d d') (h' : SameIds d' d'') : SameIds d d'' := by
  obtain ⟨hn, g, hg, he⟩ := h
  obtain ⟨hn', g', hg', he'⟩ := h'
  refine ⟨hn'.trans hn, g' ∘ g, fun e => ?_, by rw [he', he, List.map_map]⟩
  obtain ⟨ht, ⟨k, hk, hks⟩, ha, hu⟩ := hg e
  obtain ⟨ht', ⟨k', hk', hks'⟩, ha', hu'⟩ := hg' (g e)
  refine ⟨ht'.trans ht, ⟨k' ∘ k, fun th => (hk' _).trans (hk th), ?_⟩, fun h0 h1 => ?_, hu'.trans hu⟩
  · rw [Function.comp, hks', hks, List.map_map]
  · exact ha' (ht.trans h0) (ha h0 h1)

/-- A note in the history leaves the identities. -/
theorem recorded {e : Event} (h : SameIds d d') : SameIds d (d'.record e) := h

/-- An update that keeps the token and the threads' TIDs leaves the identities. -/
theorem updateEndpoint {k : Nat} {f : Endpoint → Endpoint}
    (hf : ∀ e : Endpoint, e.token = k → e.Same (f e)) : SameIds d (d.updateEndpoint k f) := by
  refine ⟨rfl, fun e => if e.token == k then f e else e, fun e => ?_, rfl⟩
  by_cases hk : e.token = k
  · simp only [hk, beq_self_eq_true, if_true]
    exact hf e hk
  · simp only [beq_iff_eq, hk, if_false]
    exact .refl e

/-- An update of a thread that keeps its TID leaves the identities. -/
theorem updateThread {k : Nat} {i : Int} {f : Thread → Thread}
    (hf : ∀ th : Thread, (f th).tid = th.tid) : SameIds d (d.updateThread k i f) := by
  refine updateEndpoint fun e _ => ⟨rfl, ⟨_, fun th => ?_, rfl⟩, fun _ h => h, rfl⟩
  split
  · exact hf th
  · rfl

/-- The device whose endpoints went through a thread update. -/
theorem of_updateThread {k : Nat} {i : Int} {f : Thread → Thread}
    (he : d'.endpoints = (d.updateThread k i f).endpoints) (hn : d'.nextToken = d.nextToken)
    (hf : ∀ th : Thread, (f th).tid = th.tid) : SameIds d d' :=
  (updateThread hf).trans (of_eq hn he)

/-- An update of an arena leaves the identities. -/
theorem updateArena {k : Nat} {f : Arena → Arena} : SameIds d (d.updateArena k f) := by
  refine updateEndpoint fun e _ => ⟨rfl, ⟨id, fun _ => rfl, by simp⟩, fun _ h => ?_, rfl⟩
  simp [h]

/-- A dropped record leaves the identities. -/
theorem dropWork {token : Nat} {tid : Int} {w : Work} :
    SameIds d (Device.dropWork token tid d w) :=
  updateArena.trans (of_eq rfl rfl)

/-- Dropped records leave the identities. -/
theorem dropWorks {token : Nat} {tid : Int} {p : Work → Bool} :
    SameIds d (d.dropWorks token tid p) := by
  unfold Device.dropWorks
  generalize d.work.filter p = l
  induction l generalizing d with
  | nil => exact refl d
  | cons w ws ih => exact dropWork.trans ih

/-- The cancellation of a transaction leaves the identities. -/
theorem cancelTransaction {token : Nat} {tid : Int} {t : Transaction} :
    SameIds d (Device.cancelTransaction token tid d t) := by
  have hc : SameIds d (d.cancelCaller t) := by
    unfold Device.cancelCaller
    split
    · exact refl d
    · split
      · exact of_updateThread rfl rfl fun _ => rfl
      · exact refl d
  have hs : SameIds (d.cancelCaller t) ((d.cancelCaller t).cancelServer t) := by
    unfold Device.cancelServer
    split
    · exact refl _
    · split
      · exact of_updateThread rfl rfl fun _ => rfl
      · exact refl _
  exact ((hc.trans hs).trans dropWorks).trans (of_eq rfl rfl)

/-- An error that is left for a thread leaves the identities. -/
theorem failThread {token : Nat} {tid : Int} {call : Bool} {word : BR} :
    SameIds d (d.failThread token tid call word) :=
  of_updateThread rfl rfl fun _ => rfl

/-- A reservation leaves the identities, as its target is an endpoint. -/
theorem storeReservation {target : Nat} {r : Reservation} (h : target ≠ 0) :
    SameIds d (d.storeReservation target r) := by
  have hs : SameIds d (d.updateEndpoint target fun e => { e with arena := r.arena }) :=
    updateEndpoint fun e he =>
      ⟨rfl, ⟨id, fun _ => rfl, by simp⟩, fun h0 => absurd (he.symm.trans h0) h, rfl⟩
  exact hs.trans (of_eq rfl rfl)

/-- An accepted parcel leaves the identities. -/
theorem acceptParcel {source : Endpoint} {tid : Int} {answers : Nat} {work : Work}
    {r : Reservation} : SameIds d (d.acceptParcel source tid answers work r) :=
  of_updateThread rfl rfl fun _ => rfl

/-- A reply leaves the identities. -/
theorem sendReply {e : Endpoint} {th : Thread} {t : Transaction} {input : TransactionData}
    {r : Reservation} : SameIds d (d.sendReply e th t input r) := by
  refine trans ?_ acceptParcel
  have hin : SameIds d (d.updateThread e.token th.tid fun th => { th with incoming := 0 }) :=
    updateThread fun _ => rfl
  unfold Device.finishCall
  exact hin.trans (of_updateThread rfl rfl fun _ => rfl)

/-- A one-way call leaves the identities. -/
theorem sendOneway {e : Endpoint} {th : Thread} {target : Nat} {node : Node}
    {input : TransactionData} {r : Reservation} :
    SameIds d (d.sendOneway e th target node input r) :=
  trans (of_eq rfl rfl) acceptParcel

/-- A call leaves the identities. -/
theorem sendCall {e : Endpoint} {th : Thread} {target : Nat} {node : Node}
    {input : TransactionData} {r : Reservation} :
    SameIds d (d.sendCall e th target node input r) := by
  refine trans ?_ acceptParcel
  unfold Device.startCall
  exact of_updateThread rfl rfl fun _ => rfl

/-- The release of a buffer leaves the identities. -/
theorem freePacket {e : Endpoint} {buffer : Nat} : SameIds d (d.freePacket e buffer).2 := by
  unfold Device.freePacket
  split
  · exact refl d
  · split
    · exact refl d
    · exact updateArena.trans (of_eq rfl rfl)

/-- Serving a transaction leaves the identities. -/
theorem serve {k : Nat} {i : Int} {id : Nat} : SameIds d (d.serve k i id) := by
  unfold Device.serve
  split
  · exact refl d
  · exact of_updateThread rfl rfl fun _ => rfl

/-- A delivered record leaves the identities. -/
theorem deliver {e : Endpoint} {th : Thread} {record : Record} :
    SameIds d (d.deliver e th record).2 := by
  cases record with
  | error word => exact of_updateThread rfl rfl fun _ => rfl
  | node n c => exact of_eq rfl rfl
  | completion => exact of_updateThread rfl rfl fun _ => rfl
  | notification slot death => exact of_eq rfl rfl
  | work index w =>
    simp only [Device.deliver, Device.deliverWork]
    split
    · exact refl d
    · split
      · exact updateArena
      · exact updateArena.trans (serve.trans (of_eq rfl rfl))

end SameIds

/-- Keeping the slots keeps the identities. -/
theorem EndpointIds.same {d d' : Device} (h : EndpointIds d) (hs : SameIds d d') :
    EndpointIds d' := by
  obtain ⟨hn, g, hg, he⟩ := hs
  refine ⟨?_, ?_, ?_, ?_, ?_, ?_⟩
  · have hmap : d.endpoints.map g = update (fun _ => true) g d.endpoints := by simp [update]
    rw [he, hmap]
    exact h.tokens.update fun e _ _ hl => ⟨(hg e).1 ▸ hl, (hg e).1⟩
  all_goals simp only [he, hn, List.mem_map, forall_exists_index, and_imp,
    forall_apply_eq_imp_iff₂]
  · intro e hmem h0
    rw [(hg e).1] at h0 ⊢
    exact h.issued e hmem h0
  · exact h.bounded
  · intro e hmem h0
    obtain ⟨ht, ⟨k, _, hks⟩, ha, _⟩ := hg e
    rw [ht] at h0
    obtain ⟨hth, har⟩ := h.vacant e hmem h0
    exact ⟨by rw [hks, hth]; rfl, ha h0 har⟩
  · intro e hmem
    obtain ⟨_, ⟨k, hk, hks⟩, _⟩ := hg e
    have hmap : e.threads.map k = update (fun _ => true) k e.threads := by simp [update]
    rw [hks, hmap]
    exact (h.tids e hmem).update fun th _ _ _ => ⟨trivial, hk th⟩
  · intro e hmem
    obtain ⟨_, ⟨k, hk, hks⟩, _⟩ := hg e
    rw [hks]
    intro th hth
    obtain ⟨th', hth', rfl⟩ := List.mem_map.1 hth
    rw [hk]
    exact h.positive e hmem th' hth'

/-- Rewriting one endpoint keeps the identities if its tids stay in order and a slot
that becomes free is empty. -/
theorem EndpointIds.update {d : Device} (h : EndpointIds d) {k : Nat} {f : Endpoint → Endpoint}
    (htok : ∀ e ∈ d.endpoints, e.token = k → (f e).token = e.token ∨ (f e).token = 0)
    (htid : ∀ e ∈ d.endpoints, e.token = k → Unique (fun _ => True) (·.tid) (f e).threads)
    (hpos : ∀ e ∈ d.endpoints, e.token = k → ∀ th ∈ (f e).threads, 0 < th.tid)
    (hvac : ∀ e ∈ d.endpoints, e.token = k → (f e).token = 0 →
      (f e).threads = [] ∧ (f e).arena = none) : EndpointIds (d.updateEndpoint k f) := by
  have hmem : ∀ e' ∈ (d.updateEndpoint k f).endpoints,
      e' ∈ d.endpoints ∨ ∃ e ∈ d.endpoints, e.token = k ∧ e' = f e := by
    intro e' he'
    obtain ⟨e, he, rfl⟩ := mem_update.1 he'
    by_cases hk : e.token = k
    · exact .inr ⟨e, he, hk, by simp [hk]⟩
    · exact .inl (by simpa [hk] using he)
  refine ⟨?_, ?_, h.bounded, ?_, ?_, ?_⟩
  · refine h.tokens.update fun e he hk hl => ?_
    rcases htok e he (by simpa using hk) with ht | ht
    · exact ⟨ht ▸ hl, ht⟩
    · exact absurd ht hl
  · intro e' he' h0
    rcases hmem e' he' with he | ⟨e, he, hk, rfl⟩
    · exact h.issued e' he h0
    · rcases htok e he hk with ht | ht
      · rw [ht] at h0 ⊢
        exact h.issued e he h0
      · exact absurd ht h0
  · intro e' he' h0
    rcases hmem e' he' with he | ⟨e, he, hk, rfl⟩
    · exact h.vacant e' he h0
    · exact hvac e he hk h0
  · intro e' he'
    rcases hmem e' he' with he | ⟨e, he, hk, rfl⟩
    · exact h.tids e' he
    · exact htid e he hk
  · intro e' he'
    rcases hmem e' he' with he | ⟨e, he, hk, rfl⟩
    · exact h.positive e' he
    · exact hpos e he hk

/-- A new token is ahead of all others. -/
theorem EndpointIds.openEndpoint {d d' : Device} (h : EndpointIds d) {vm uid : Nat} {pid : Int}
    (ho : d.openEndpoint vm pid uid = some d') : EndpointIds d' := by
  unfold Device.openEndpoint at ho
  split at ho
  · cases ho
  next h0 =>
    obtain ⟨l, hl, rfl⟩ := Option.map_eq_some_iff.1 ho
    obtain ⟨pre, e, post, hsplit, hfree, rfl⟩ := modifyFirst_some hl
    have hfree : e.token = 0 := by simpa using hfree
    have hold : ∀ x, x ∈ pre ∨ x ∈ post → x ∈ d.endpoints := by
      intro x hx
      rw [hsplit]
      simp only [List.mem_append, List.mem_cons]
      tauto
    have hnew : ∀ x, x ∈ pre ++ Endpoint.occupy d.nextToken vm pid uid e :: post →
        x ∈ d.endpoints ∨ x = Endpoint.occupy d.nextToken vm pid uid e := by
      intro x hx
      simp only [List.mem_append, List.mem_cons] at hx
      rcases hx with hx | hx | hx
      · exact .inl (hold x (.inl hx))
      · exact .inr hx
      · exact .inl (hold x (.inr hx))
    -- the token was never given to an endpoint that still stands
    have hfresh : ∀ x, x ∈ pre ∨ x ∈ post → x.token ≠ 0 → x.token ≠ d.nextToken :=
      fun x hx hx0 => (h.issued x (hold x hx) hx0).ne h0
    refine ⟨?_, ?_, succ64_lt _, ?_, ?_, ?_⟩
    · have hu := h.tokens
      rw [hsplit] at hu
      obtain ⟨hpre, hpost, hcross⟩ := List.pairwise_append.1 hu
      refine List.pairwise_append.2 ⟨hpre, List.pairwise_cons.2 ⟨?_, (List.pairwise_cons.1 hpost).2⟩,
        ?_⟩
      · intro x hx _ lx
        exact fun hk => hfresh x (.inr hx) lx hk.symm
      · intro x hx y hy lx ly
        rcases List.mem_cons.1 hy with rfl | hy
        · exact hfresh x (.inl hx) lx
        · exact hcross x hx y (List.mem_cons_of_mem _ hy) lx ly
    · intro x hx hx0
      refine Issued.succ h.bounded h0 ?_
      rcases hnew x hx with hx | rfl
      · exact .inl (h.issued x hx hx0)
      · exact .inr rfl
    · intro x hx hx0
      rcases hnew x hx with hx | rfl
      · exact h.vacant x hx hx0
      · exact absurd hx0 h0
    · intro x hx
      rcases hnew x hx with hx | rfl
      · exact h.tids x hx
      · exact Unique.nil
    · intro x hx th hth
      rcases hnew x hx with hx | rfl
      · exact h.positive x hx th hth
      · cases hth

/-- A thread that is admitted has a positive TID of its own. -/
theorem EndpointIds.admitThread {d d' : Device} (h : EndpointIds d) {e : Endpoint} {tid : Int}
    (he : d.endpointFor e.token = some e) (hpos : 0 < tid) (ha : d.admitThread e tid = some d') :
    EndpointIds d' := by
  unfold Device.admitThread at ha
  split at ha
  · cases ha
    exact h
  next hnone =>
    split at ha
    · cases ha
    next =>
      cases ha
      obtain ⟨hmem, _, h0⟩ := Device.endpointFor_spec he
      have heq : ∀ x ∈ d.endpoints, x.token = e.token → x = e := fun x hx hk =>
        h.tokens.eq_of_mem hx hmem (fun hx0 => h0 (hk ▸ hx0)) h0 hk
      refine h.update (fun _ _ _ => .inl rfl) ?_ ?_ fun x _ hk hx0 => absurd (hk.symm.trans hx0) h0
      · intro x hx hk
        rw [heq x hx hk]
        refine (h.tids e hmem).append_singleton fun th hth _ _ hk => hnone ?_
        rw [Endpoint.threadFor, List.find?_isSome]
        exact ⟨th, hth, by simpa using hk⟩
      · intro x hx hk th hth
        rcases List.mem_append.1 hth with hth | hth
        · exact h.positive x hx th hth
        · rw [List.mem_singleton.1 hth]
          exact hpos

/-- A thread that is erased leaves the others' identities. -/
theorem EndpointIds.eraseThread {d : Device} (h : EndpointIds d) (token : Nat) (tid : Int) :
    EndpointIds (d.eraseThread token tid) := by
  have hu : EndpointIds (d.updateEndpoint token fun e =>
      { e with threads := e.threads.filter fun t => t.tid != tid }) := by
    refine h.update (fun _ _ _ => .inl rfl) (fun e he _ => (h.tids e he).filter _) ?_ ?_
    · exact fun e he _ th hth => h.positive e he th (List.mem_of_mem_filter hth)
    · intro e he _ h0
      obtain ⟨hth, ha⟩ := h.vacant e he h0
      exact ⟨by simp [hth], ha⟩
  exact hu.same (.of_eq rfl rfl)

/-- What `retire` does to the endpoints. -/
theorem retire_endpoints (d : Device) (token : Nat) : (d.retire token).endpoints =
    ((d.updateArena token Arena.discardAll).updateEndpoint token Endpoint.vacate).endpoints := by
  unfold Device.retire
  simp only [Device.record_endpoints]
  split <;> rfl

/-- The end of an endpoint leaves the counter of tokens. -/
theorem retire_nextToken (d : Device) (token : Nat) : (d.retire token).nextToken = d.nextToken := by
  unfold Device.retire
  simp only [Device.record_nextToken, Device.updateEndpoint_nextToken]
  split <;> rfl

/-- An endpoint that ends leaves the others' identities. -/
theorem EndpointIds.retire {d : Device} (h : EndpointIds d) (token : Nat) :
    EndpointIds (d.retire token) := by
  have ha := h.same (SameIds.updateArena (d := d) (k := token) (f := Arena.discardAll))
  have hu := ha.update (k := token) (f := Endpoint.vacate) (fun _ _ _ => .inr rfl)
    (fun _ _ _ => Unique.nil) (fun _ _ _ th hth => by cases hth) fun _ _ _ _ => ⟨rfl, rfl⟩
  exact hu.same (.of_eq (retire_nextToken d token) (retire_endpoints d token))

/-- What a step does to the endpoint slots. -/
inductive EndpointStep (d d' : Device) : Prop
  | same : SameIds d d' → EndpointStep d d'
  | openEndpoint {vm uid : Nat} {pid : Int} : d.openEndpoint vm pid uid = some d' → EndpointStep d d'
  | admission {e : Endpoint} {tid : Int} : d.endpointFor e.token = some e → 0 < tid →
    d.admitThread e tid = some d' → EndpointStep d d'
  | erase {token : Nat} {tid : Int} : d' = d.eraseThread token tid → EndpointStep d d'
  | retire {token : Nat} : d' = d.retire token → EndpointStep d d'

/-- Every step opens one endpoint, admits one thread, takes some away, or leaves the identities. -/
theorem Step.endpoints {d d' : Device} (hs : Step d d') : EndpointStep d d' := by
  cases hs with
  | configure => exact .same (.of_eq rfl rfl)
  | openEndpoint ho => exact .openEndpoint ho
  | tune token hf =>
    obtain ⟨g, hg, hgs⟩ := hf.threads
    refine .same (.updateEndpoint fun e _ => ⟨hf.token e, ⟨g, fun th => (hg th).tid, hgs e⟩, ?_, hf.uid e⟩)
    exact fun _ ha => (hf.arena e).trans ha
  | admission he hpos ha => exact .admission he hpos ha
  | setContextMgr flags pointer cookie he =>
    refine .same ?_
    unfold Device.setContextMgr
    repeat' split
    all_goals exact .of_eq rfl rfl
  | refer | nodeDone => exact .same (.of_eq rfl rfl)
  | requestDeath | clearDeath | doneDeath =>
    refine .same ?_
    simp only [Device.requestDeath, Device.clearDeath, Device.doneDeath, Device.recordSlot]
    split <;> exact .of_eq rfl rfl
  | free => exact .same .freePacket
  | refuse => exact .same (.recorded .failThread)
  | bounce =>
    refine .same (.recorded (.trans ?_ .failThread))
    exact .updateThread fun _ => rfl
  | reserve hr =>
    exact .same (.storeReservation (Device.endpointFor_spec hr.targetFound).2.2)
  | reply hr =>
    have h0 := (Device.endpointFor_spec hr.targetFound).2.2
    exact .same (.recorded (.trans (.storeReservation h0) .sendReply))
  | oneway hr =>
    have h0 := (Device.endpointFor_spec hr.targetFound).2.2
    exact .same (.recorded (.trans (.storeReservation h0) .sendOneway))
  | call hr =>
    have h0 := (Device.endpointFor_spec hr.targetFound).2.2
    exact .same (.recorded (.trans (.storeReservation h0) .sendCall))
  | deliver => exact .same .deliver
  | teardown => exact .same (.of_eq rfl rfl)
  | cancel => exact .same .cancelTransaction
  | drop => exact .same .dropWork
  | erase => exact .erase rfl
  | retire => exact .retire rfl

/-- Every step keeps the endpoint identities. -/
theorem EndpointIds.step {d d' : Device} (h : EndpointIds d) (hs : Step d d') : EndpointIds d' := by
  cases hs.endpoints with
  | same hs => exact h.same hs
  | openEndpoint ho => exact h.openEndpoint ho
  | admission he hpos ha => exact h.admitThread he hpos ha
  | erase heq => exact heq ▸ h.eraseThread _ _
  | retire heq => exact heq ▸ h.retire _

/-- A new device has no endpoint, so the identities are in order. -/
theorem EndpointIds.init {d : Device} (h : machine.init d) : EndpointIds d := by
  obtain ⟨he, _, _, _, _, hn, _⟩ := machine_init h
  refine ⟨?_, fun e hmem h0 => ?_, by omega, fun e hmem _ => ?_, fun e hmem => ?_,
    fun e hmem th hth => ?_⟩
  · refine List.pairwise_of_forall_mem_list fun e hmem e' _ h0 => ?_
    rw [he e hmem] at h0
    exact absurd rfl h0
  · rw [he e hmem] at h0
    exact absurd rfl h0
  · rw [he e hmem]
    exact ⟨rfl, rfl⟩
  · rw [he e hmem]
    exact Unique.nil
  · rw [he e hmem] at hth
    cases hth

/-- The identities are in order in every reachable state. -/
theorem Device.Reachable.endpointIds {d : Device} (h : d.Reachable) : EndpointIds d :=
  h.inv (fun _ => EndpointIds.init) fun _ _ => EndpointIds.step

/-! ## Lookups after the four steps that change the slots -/

/-- Keeping the slots keeps who is found by a token. -/
theorem SameIds.endpointFor {d d' : Device} (h : SameIds d d') :
    ∃ g : Endpoint → Endpoint, (∀ e : Endpoint, e.Same (g e)) ∧
      ∀ k, d'.endpointFor k = (d.endpointFor k).map g := by
  obtain ⟨_, g, hg, he⟩ := h
  refine ⟨g, hg, fun k => ?_⟩
  have hsearch : (fun e : Endpoint => e.token == k && k != 0) ∘ g =
      fun e => e.token == k && k != 0 := by
    funext e
    simp [(hg e).1]
  rw [Device.endpointFor, he, List.find?_map, hsearch]
  rfl

/-- `open` leaves the other endpoints as they are. -/
theorem Device.endpointFor_openEndpoint {d d' : Device} {k vm uid : Nat} {pid : Int}
    (ho : d.openEndpoint vm pid uid = some d') (hk : k ≠ d.nextToken) :
    d'.endpointFor k = d.endpointFor k := by
  unfold Device.openEndpoint at ho
  split at ho
  · cases ho
  next h0 =>
    obtain ⟨l, hl, rfl⟩ := Option.map_eq_some_iff.1 ho
    obtain ⟨pre, e, post, hsplit, hfree, rfl⟩ := modifyFirst_some hl
    have hfree : e.token = 0 := by simpa using hfree
    rw [Device.endpointFor, Device.endpointFor, hsplit, List.find?_append, List.find?_append,
      List.find?_cons, List.find?_cons]
    have h1 : ((Endpoint.occupy d.nextToken vm pid uid e).token == k && k != 0) = false := by
      simp [Endpoint.occupy, Ne.symm hk]
    have h2 : (e.token == k && k != 0) = false := by
      simp only [hfree, Bool.and_eq_false_iff, beq_eq_false_iff_ne, bne_eq_false_iff_eq]
      omega
    rw [h1, h2]

namespace EndpointIds

variable {d d' : Device} {k token : Nat} {i tid : Int}

/-- A listed endpoint is found by its token. -/
theorem endpointFor (h : EndpointIds d) {e : Endpoint} (he : e ∈ d.endpoints)
    (h0 : e.token ≠ 0) : d.endpointFor e.token = some e :=
  h.tokens.find? he h0 fun x => by
    simp only [Bool.and_eq_true, beq_iff_eq, bne_iff_ne]
    exact ⟨fun hx => ⟨hx.1 ▸ h0, hx.1⟩, fun hx => ⟨hx.2, h0⟩⟩

/-- A listed thread is found by its endpoint's token and its tid. -/
theorem threadFor (h : EndpointIds d) {e : Endpoint} {th : Thread} (he : e ∈ d.endpoints)
    (hth : th ∈ e.threads) : d.threadFor e.token th.tid = some th := by
  have h0 : e.token ≠ 0 := fun h0 => by
    rw [(h.vacant e he h0).1] at hth
    cases hth
  rw [Device.threadFor_of (h.endpointFor he h0)]
  exact (h.tids e he).find? hth trivial fun x => by simp

/-- A thread that exists has a positive TID. -/
theorem tid_pos (h : EndpointIds d) {th : Thread} (hth : d.threadFor k i = some th) : 0 < i := by
  obtain ⟨e, he, ht⟩ := Device.threadFor_eq_some.1 hth
  obtain ⟨hmem, rfl⟩ := Endpoint.threadFor_spec ht
  exact h.positive e (Device.endpointFor_spec he).1 th hmem

/-- The next token is nobody's. -/
theorem endpointFor_nextToken (h : EndpointIds d) : d.endpointFor d.nextToken = none := by
  rw [Device.endpointFor, List.find?_eq_none]
  intro x hx
  simp only [Bool.and_eq_true, beq_iff_eq, bne_iff_ne, not_and, not_not]
  intro hxk
  by_contra hk0
  exact (h.issued x hx (hxk ▸ hk0)).ne hk0 hxk

/-- The new endpoint of `open` has neither thread nor arena, the others are as before. -/
theorem lookups_openEndpoint (h : EndpointIds d) {vm uid : Nat} {pid : Int}
    (ho : d.openEndpoint vm pid uid = some d') :
    d'.threadFor k i = d.threadFor k i ∧ d'.arenaFor k = d.arenaFor k := by
  by_cases hk : k = d.nextToken
  · have hids := h.openEndpoint ho
    have hold := h.endpointFor_nextToken
    unfold Device.openEndpoint at ho
    split at ho
    · cases ho
    next h0 =>
      obtain ⟨l, hl, rfl⟩ := Option.map_eq_some_iff.1 ho
      obtain ⟨pre, e, post, hsplit, hfree, rfl⟩ := modifyFirst_some hl
      have hfree : e.token = 0 := by simpa using hfree
      have hnew := hids.endpointFor (e := Endpoint.occupy d.nextToken vm pid uid e)
        (by simp) h0
      have hvac := h.vacant e (by simp [hsplit]) hfree
      rw [hk]
      have hnew' : Device.endpointFor _ d.nextToken = _ := hnew
      rw [Device.threadFor_of hnew', Device.arenaFor_of hnew', Device.threadFor, Device.arenaFor,
        hold]
      exact ⟨rfl, hvac.2⟩
  · rw [Device.threadFor, Device.arenaFor, Device.endpointFor_openEndpoint ho hk]
    exact ⟨rfl, rfl⟩

end EndpointIds

namespace Device

variable {d d' : Device} {k token : Nat} {i tid : Int}

/-- An admitted thread is new only if there was none with its TID. -/
theorem threadFor_admitThread {e : Endpoint} (he : d.endpointFor e.token = some e)
    (ha : d.admitThread e tid = some d') :
    d'.threadFor k i =
      if k = e.token ∧ i = tid ∧ d.threadFor k i = none then some { tid } else d.threadFor k i := by
  unfold admitThread at ha
  split at ha
  next hsome =>
    cases ha
    split
    next h =>
      rw [h.1, h.2.1, threadFor_of he] at h
      rw [Option.isSome_iff_exists] at hsome
      obtain ⟨th, hth⟩ := hsome
      exact absurd h.2.2 (by simp [hth])
    next => rfl
  next hnone =>
    split at ha
    · cases ha
    next =>
      cases ha
      have htok : ∀ x : Endpoint, ({ x with
          threads := x.threads ++ [{ tid }] } : Endpoint).token = x.token := fun _ => rfl
      rw [threadFor, endpointFor_updateEndpoint htok, threadFor]
      by_cases hk : k = e.token
      · rw [hk, he]
        simp only [Option.map_some, if_true, Option.bind_some, true_and, Endpoint.threadFor,
          List.find?_append]
        have hnone : e.threadFor tid = none := by simpa using hnone
        by_cases hi : i = tid
        · rw [hi]
          simp only [Endpoint.threadFor] at hnone
          simp [hnone]
        · simp [hi, Ne.symm hi]
      · simp only [hk, false_and, if_false]
        cases d.endpointFor k <;> rfl

/-- The admission of a thread leaves every arena. -/
theorem arenaFor_admitThread {e : Endpoint} (ha : d.admitThread e tid = some d') :
    d'.arenaFor k = d.arenaFor k := by
  unfold admitThread at ha
  split at ha
  · cases ha
    rfl
  next =>
    split at ha
    · cases ha
    · cases ha
      exact arenaFor_updateEndpoint (fun _ => rfl) fun _ => rfl

/-- Admission changes nothing but the endpoints. -/
theorem admitThread_frame {e : Endpoint} (ha : d.admitThread e tid = some d') :
    d'.transactions = d.transactions ∧ d'.work = d.work ∧ d'.objects = d.objects ∧
      d'.history = d.history ∧ d'.nextTransaction = d.nextTransaction := by
  unfold admitThread at ha
  split at ha
  · cases ha
    simp
  next =>
    split at ha
    · cases ha
    · cases ha
      simp

/-- So does opening. -/
theorem openEndpoint_frame {vm uid : Nat} {pid : Int} (ho : d.openEndpoint vm pid uid = some d') :
    d'.transactions = d.transactions ∧ d'.work = d.work ∧ d'.objects = d.objects ∧
      d'.history = d.history ∧ d'.nextTransaction = d.nextTransaction := by
  unfold openEndpoint at ho
  split at ho
  · cases ho
  · obtain ⟨l, _, rfl⟩ := Option.map_eq_some_iff.1 ho
    simp

/-- Settings of an endpoint tune its threads and no others. -/
theorem threadFor_tune {f : Endpoint → Endpoint} (hf : Endpoint.Tuned f) :
    ∃ g : Thread → Thread, (∀ th : Thread, th.Tuned (g th)) ∧ ∀ k' i,
      (d.updateEndpoint k f).threadFor k' i =
        if k' = k then (d.threadFor k' i).map g else d.threadFor k' i := by
  obtain ⟨g, hg, hgs⟩ := hf.threads
  refine ⟨g, hg, fun k' i => ?_⟩
  rw [threadFor, endpointFor_updateEndpoint hf.token, threadFor]
  cases d.endpointFor k' with
  | none => simp
  | some e =>
    simp only [Option.map_some, Option.bind_some]
    split
    · have hfind : ((fun th => th.tid == i) ∘ g) = fun th : Thread => th.tid == i :=
        funext fun th => by simp [(hg th).tid]
      rw [Endpoint.threadFor, hgs, List.find?_map, hfind]
      rfl
    · rfl

/-- Settings of an endpoint leave every arena. -/
theorem arenaFor_tune {f : Endpoint → Endpoint} (hf : Endpoint.Tuned f) :
    (d.updateEndpoint token f).arenaFor k = d.arenaFor k :=
  arenaFor_updateEndpoint hf.token hf.arena

/-- An erased thread is not found any more, and the others are. -/
theorem threadFor_eraseThread :
    (d.eraseThread token tid).threadFor k i =
      if k = token ∧ i = tid then none else d.threadFor k i := by
  have htok : ∀ e : Endpoint, ({ e with
      threads := e.threads.filter fun t => t.tid != tid } : Endpoint).token = e.token := fun _ => rfl
  rw [eraseThread, threadFor_record, threadFor, endpointFor_updateEndpoint htok, threadFor]
  change (Option.map _ (d.endpointFor k)).bind _ = _
  cases d.endpointFor k with
  | none => simp
  | some e =>
    simp only [Option.map_some, Option.bind_some]
    by_cases hk : k = token
    · simp only [hk, if_true, true_and, Endpoint.threadFor, List.find?_filter]
      split
      next hi =>
        rw [List.find?_eq_none]
        intro th _
        simp [hi]
      next hi =>
        congr 1
        funext th
        by_cases hth : th.tid = i
        · simp [hth, hi]
        · simp [hth]
    · simp [hk]

/-- An erased thread leaves every arena. -/
theorem arenaFor_eraseThread : (d.eraseThread token tid).arenaFor k = d.arenaFor k :=
  arenaFor_updateEndpoint (fun _ => rfl) fun _ => rfl

/-- An endpoint that ended is not found any more, and the others are. -/
theorem endpointFor_retire :
    (d.retire token).endpointFor k = if k = token then none else d.endpointFor k := by
  rw [endpointFor_congr (retire_endpoints d token), endpointFor, updateEndpoint,
    find?_update_of_blank]
  · split
    next hk =>
      rw [List.find?_eq_none]
      intro e _
      rw [hk]
      simp +contextual
    next hk =>
      have hsearch : (fun e : Endpoint => !(e.token == token) && (e.token == k && k != 0)) =
          fun e => e.token == k && k != 0 := by
        funext e
        by_cases he : e.token = k
        · simp [he, hk]
        · simp [he]
      have hfind : (d.updateArena token Arena.discardAll).endpointFor k = d.endpointFor k := by
        have htok : ∀ e : Endpoint,
            ({ e with arena := e.arena.map Arena.discardAll } : Endpoint).token = e.token :=
          fun _ => rfl
        rw [updateArena, endpointFor_updateEndpoint htok]
        simp [hk]
      rw [hsearch]
      exact hfind
  · intro e _
    simp only [Endpoint.vacate, Bool.and_eq_false_iff, bne_eq_false_iff_eq, beq_eq_false_iff_ne]
    omega

/-- The threads of an endpoint that ended are not found any more. -/
theorem threadFor_retire :
    (d.retire token).threadFor k i = if k = token then none else d.threadFor k i := by
  rw [threadFor, endpointFor_retire]
  split <;> rfl

/-- The arena of an endpoint that ended is not found any more. -/
theorem arenaFor_retire :
    (d.retire token).arenaFor k = if k = token then none else d.arenaFor k := by
  rw [arenaFor, endpointFor_retire]
  split <;> rfl

/-- The rest of the device after a thread's exit. -/
theorem eraseThread_frame : (d.eraseThread token tid).transactions = d.transactions ∧
    (d.eraseThread token tid).work = d.work ∧
    (d.eraseThread token tid).history = .exited token tid :: d.history ∧
    (d.eraseThread token tid).nextTransaction = d.nextTransaction :=
  ⟨rfl, rfl, rfl, rfl⟩

/-- The rest of the device after an endpoint's release. -/
theorem retire_frame {n : Nat} : (d.retire n).transactions = d.transactions ∧
    (d.retire n).work = d.work ∧
    (d.retire n).history = .released n :: d.history ∧
    (d.retire n).nextTransaction = d.nextTransaction := by
  unfold retire
  simp only [record_transactions, record_work, record_history, record_nextTransaction,
    updateEndpoint_transactions, updateEndpoint_work, updateEndpoint_history,
    updateEndpoint_nextTransaction]
  split <;> exact ⟨rfl, rfl, rfl, rfl⟩

end Device

end Artbox.Binder
