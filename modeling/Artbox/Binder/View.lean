import Artbox.Binder.System

/-!
# What the tables of a device say

Invariants speak about the device through three lookups: which thread a token and a
tid name (`threadFor`), which call an id names (`transactionFor`) and which arena an
endpoint receives into (`arenaFor`). Here is what each update of the tables does to
each lookup, so that no later proof looks at the slots themselves.
-/

namespace Artbox.Binder

open Slots

/-- The receive arena of an endpoint. -/
def Device.arenaFor (d : Device) (token : Nat) : Option Arena :=
  (d.endpointFor token).bind fun e => e.arena

/-- A thread that is found is one of the endpoint's, with the TID it was looked for by. -/
theorem Endpoint.threadFor_spec {e : Endpoint} {tid : Int} {th : Thread}
    (h : e.threadFor tid = some th) : th ∈ e.threads ∧ th.tid = tid := by
  have := List.find?_some h
  exact ⟨List.mem_of_find?_eq_some h, by simpa using this⟩

namespace Device

variable {d d' : Device} {token k : Nat} {tid i : Int}

/-! ## Members of the tables -/

/-- An endpoint that is found is in the list and has the token; nothing is found under token zero. -/
theorem endpointFor_spec {e : Endpoint} (h : d.endpointFor token = some e) :
    e ∈ d.endpoints ∧ e.token = token ∧ token ≠ 0 := by
  have := List.find?_some h
  simp only [Bool.and_eq_true, beq_iff_eq, bne_iff_ne] at this
  exact ⟨List.mem_of_find?_eq_some h, this.1, this.2⟩

/-- A transaction that is found is in the list and has the ID; nothing is found under ID zero. -/
theorem transactionFor_spec {id : Nat} {t : Transaction} (h : d.transactionFor id = some t) :
    t ∈ d.transactions ∧ t.id = id ∧ id ≠ 0 := by
  have := List.find?_some h
  simp only [Bool.and_eq_true, beq_iff_eq, bne_iff_ne] at this
  exact ⟨List.mem_of_find?_eq_some h, this.2, this.1⟩

/-- ID zero stands for no transaction. -/
@[simp] theorem transactionFor_zero : d.transactionFor 0 = none := by
  rw [transactionFor, List.find?_eq_none]
  simp

/-- A thread is found by the token of its endpoint and then by its TID. -/
theorem threadFor_eq_some {th : Thread} :
    d.threadFor token tid = some th ↔
      ∃ e, d.endpointFor token = some e ∧ e.threadFor tid = some th :=
  Option.bind_eq_some_iff

/-- A thread has the TID that it was found by. -/
theorem threadFor_tid {th : Thread} (h : d.threadFor token tid = some th) : th.tid = tid := by
  obtain ⟨e, _, hth⟩ := threadFor_eq_some.1 h
  exact (Endpoint.threadFor_spec hth).2

/-- Where the endpoint is known, its own list says which thread there is. -/
theorem threadFor_of {e : Endpoint} (he : d.endpointFor token = some e) (tid : Int) :
    d.threadFor token tid = e.threadFor tid := by
  rw [threadFor, he]
  rfl

/-- Where the endpoint is known, the arena is its own. -/
theorem arenaFor_of {e : Endpoint} (he : d.endpointFor token = some e) :
    d.arenaFor token = e.arena := by
  rw [arenaFor, he]
  rfl

/-! ## Updates elsewhere -/

/-- Which endpoint a token stands for depends on the list of endpoints only. -/
theorem endpointFor_congr (h : d'.endpoints = d.endpoints) (token : Nat) :
    d'.endpointFor token = d.endpointFor token := by
  rw [endpointFor, h]
  rfl

/-- Which thread a TID stands for depends on the list of endpoints only. -/
theorem threadFor_congr (h : d'.endpoints = d.endpoints) (token : Nat) (tid : Int) :
    d'.threadFor token tid = d.threadFor token tid := by
  rw [threadFor, endpointFor_congr h]
  rfl

/-- Which arena a token stands for depends on the list of endpoints only. -/
theorem arenaFor_congr (h : d'.endpoints = d.endpoints) (token : Nat) :
    d'.arenaFor token = d.arenaFor token := by
  rw [arenaFor, endpointFor_congr h]
  rfl

/-- Which transaction an ID stands for depends on the list of transactions only. -/
theorem transactionFor_congr (h : d'.transactions = d.transactions) (id : Nat) :
    d'.transactionFor id = d.transactionFor id := by
  rw [transactionFor, h]
  rfl

section Record

variable (d : Device) (e : Event)

@[simp] theorem record_endpoints : (d.record e).endpoints = d.endpoints := rfl
@[simp] theorem record_transactions : (d.record e).transactions = d.transactions := rfl
@[simp] theorem record_work : (d.record e).work = d.work := rfl
@[simp] theorem record_objects : (d.record e).objects = d.objects := rfl
@[simp] theorem record_history : (d.record e).history = e :: d.history := rfl
@[simp] theorem record_nextToken : (d.record e).nextToken = d.nextToken := rfl
@[simp] theorem record_nextTransaction : (d.record e).nextTransaction = d.nextTransaction := rfl
@[simp] theorem record_manager : (d.record e).manager = d.manager := rfl

@[simp] theorem endpointFor_record : (d.record e).endpointFor token = d.endpointFor token := rfl
@[simp] theorem threadFor_record : (d.record e).threadFor token tid = d.threadFor token tid := rfl
@[simp] theorem arenaFor_record : (d.record e).arenaFor token = d.arenaFor token := rfl
@[simp] theorem transactionFor_record (id : Nat) :
    (d.record e).transactionFor id = d.transactionFor id := rfl

end Record

/-! ## Endpoint updates -/

section UpdateEndpoint

variable (d : Device) (k : Nat) (f : Endpoint → Endpoint)

@[simp] theorem updateEndpoint_transactions :
    (d.updateEndpoint k f).transactions = d.transactions := rfl
@[simp] theorem updateEndpoint_work : (d.updateEndpoint k f).work = d.work := rfl
@[simp] theorem updateEndpoint_objects : (d.updateEndpoint k f).objects = d.objects := rfl
@[simp] theorem updateEndpoint_history : (d.updateEndpoint k f).history = d.history := rfl
@[simp] theorem updateEndpoint_nextToken : (d.updateEndpoint k f).nextToken = d.nextToken := rfl
@[simp] theorem updateEndpoint_nextTransaction :
    (d.updateEndpoint k f).nextTransaction = d.nextTransaction := rfl
@[simp] theorem updateEndpoint_manager : (d.updateEndpoint k f).manager = d.manager := rfl
@[simp] theorem transactionFor_updateEndpoint (id : Nat) :
    (d.updateEndpoint k f).transactionFor id = d.transactionFor id := rfl

end UpdateEndpoint

section UpdateThread

variable (d : Device) (k : Nat) (i : Int) (f : Thread → Thread)

@[simp] theorem updateThread_transactions :
    (d.updateThread k i f).transactions = d.transactions := rfl
@[simp] theorem updateThread_work : (d.updateThread k i f).work = d.work := rfl
@[simp] theorem updateThread_objects : (d.updateThread k i f).objects = d.objects := rfl
@[simp] theorem updateThread_history : (d.updateThread k i f).history = d.history := rfl
@[simp] theorem updateThread_nextToken : (d.updateThread k i f).nextToken = d.nextToken := rfl
@[simp] theorem updateThread_nextTransaction :
    (d.updateThread k i f).nextTransaction = d.nextTransaction := rfl
@[simp] theorem updateThread_manager : (d.updateThread k i f).manager = d.manager := rfl
@[simp] theorem transactionFor_updateThread (id : Nat) :
    (d.updateThread k i f).transactionFor id = d.transactionFor id := rfl

end UpdateThread

section UpdateArena

variable (d : Device) (k : Nat) (f : Arena → Arena)

@[simp] theorem updateArena_transactions :
    (d.updateArena k f).transactions = d.transactions := rfl
@[simp] theorem updateArena_work : (d.updateArena k f).work = d.work := rfl
@[simp] theorem updateArena_objects : (d.updateArena k f).objects = d.objects := rfl
@[simp] theorem updateArena_history : (d.updateArena k f).history = d.history := rfl
@[simp] theorem updateArena_nextToken : (d.updateArena k f).nextToken = d.nextToken := rfl
@[simp] theorem updateArena_nextTransaction :
    (d.updateArena k f).nextTransaction = d.nextTransaction := rfl
@[simp] theorem updateArena_manager : (d.updateArena k f).manager = d.manager := rfl
@[simp] theorem transactionFor_updateArena (id : Nat) :
    (d.updateArena k f).transactionFor id = d.transactionFor id := rfl

end UpdateArena

/-- An update of one endpoint that keeps its token is seen under that token alone. -/
theorem endpointFor_updateEndpoint {f : Endpoint → Endpoint}
    (hf : ∀ e : Endpoint, (f e).token = e.token) :
    (d.updateEndpoint k f).endpointFor token =
      (d.endpointFor token).map fun e => if token = k then f e else e := by
  rw [endpointFor, updateEndpoint, find?_update fun e _ => by rw [hf e]]
  cases h : d.endpoints.find? fun e => e.token == token && token != 0 with
  | none => simp [endpointFor, h]
  | some e =>
    have := (endpointFor_spec (d := d) h).2.1
    simp [endpointFor, h, this]

/-- An endpoint update that keeps token and threads. -/
theorem threadFor_updateEndpoint {f : Endpoint → Endpoint}
    (hf : ∀ e : Endpoint, (f e).token = e.token) (ht : ∀ e : Endpoint, (f e).threads = e.threads) :
    (d.updateEndpoint k f).threadFor token tid = d.threadFor token tid := by
  rw [threadFor, endpointFor_updateEndpoint hf, threadFor]
  cases d.endpointFor token with
  | none => rfl
  | some e =>
    simp only [Option.map_some, Option.bind_some, Endpoint.threadFor]
    split <;> simp [ht]

/-- An endpoint update that keeps token and arena. -/
theorem arenaFor_updateEndpoint {f : Endpoint → Endpoint}
    (hf : ∀ e : Endpoint, (f e).token = e.token) (ha : ∀ e : Endpoint, (f e).arena = e.arena) :
    (d.updateEndpoint k f).arenaFor token = d.arenaFor token := by
  rw [arenaFor, endpointFor_updateEndpoint hf, arenaFor]
  cases d.endpointFor token with
  | none => rfl
  | some e =>
    simp only [Option.map_some, Option.bind_some]
    split <;> simp [ha]

/-- An update of one thread that keeps its TID is seen under its token and TID alone. -/
theorem threadFor_updateThread {f : Thread → Thread} (hf : ∀ th : Thread, (f th).tid = th.tid) :
    (d.updateThread k i f).threadFor token tid =
      if token = k ∧ tid = i then (d.threadFor token tid).map f else d.threadFor token tid := by
  have htok : ∀ e : Endpoint, ({ e with
      threads := update (fun t => t.tid == i) f e.threads } : Endpoint).token = e.token :=
    fun _ => rfl
  rw [threadFor, updateThread, endpointFor_updateEndpoint htok, threadFor]
  cases d.endpointFor token with
  | none => simp
  | some e =>
    simp only [Option.map_some, Option.bind_some]
    by_cases hk : token = k
    · simp only [hk, true_and, if_true, Endpoint.threadFor]
      rw [find?_update fun th _ => by rw [hf th]]
      cases h : e.threads.find? fun t => t.tid == tid with
      | none => simp
      | some th =>
        have := List.find?_some h
        simp only [beq_iff_eq] at this
        simp only [this, Option.map_some, beq_iff_eq]
        split <;> rfl
    · simp [hk]

/-- An update of a thread leaves every arena. -/
@[simp] theorem arenaFor_updateThread (f : Thread → Thread) :
    (d.updateThread k i f).arenaFor token = d.arenaFor token :=
  arenaFor_updateEndpoint (fun _ => rfl) fun _ => rfl

/-- An update of an arena leaves every thread. -/
@[simp] theorem threadFor_updateArena (f : Arena → Arena) :
    (d.updateArena k f).threadFor token tid = d.threadFor token tid :=
  threadFor_updateEndpoint (fun _ => rfl) fun _ => rfl

/-- An update of one arena is seen under its token alone. -/
theorem arenaFor_updateArena (f : Arena → Arena) :
    (d.updateArena k f).arenaFor token =
      if token = k then (d.arenaFor token).map f else d.arenaFor token := by
  have htok : ∀ e : Endpoint, ({ e with arena := e.arena.map f } : Endpoint).token = e.token :=
    fun _ => rfl
  rw [arenaFor, updateArena, endpointFor_updateEndpoint htok, arenaFor]
  cases d.endpointFor token with
  | none => simp
  | some e =>
    simp only [Option.map_some, Option.bind_some]
    split <;> rfl

/-- Whether an endpoint exists does not depend on what is in it. -/
theorem isSome_endpointFor_updateEndpoint {f : Endpoint → Endpoint}
    (hf : ∀ e : Endpoint, (f e).token = e.token) :
    ((d.updateEndpoint k f).endpointFor token).isSome = (d.endpointFor token).isSome := by
  rw [endpointFor_updateEndpoint hf, Option.isSome_map]

/-! ## Calls -/

section EndTransaction

variable (d : Device) (id : Nat)

@[simp] theorem endTransaction_endpoints : (d.endTransaction id).endpoints = d.endpoints := rfl
@[simp] theorem endTransaction_work : (d.endTransaction id).work = d.work := rfl
@[simp] theorem endTransaction_objects : (d.endTransaction id).objects = d.objects := rfl
@[simp] theorem endTransaction_history : (d.endTransaction id).history = d.history := rfl
@[simp] theorem endTransaction_nextToken : (d.endTransaction id).nextToken = d.nextToken := rfl
@[simp] theorem endTransaction_nextTransaction :
    (d.endTransaction id).nextTransaction = d.nextTransaction := rfl
@[simp] theorem endTransaction_manager : (d.endTransaction id).manager = d.manager := rfl
@[simp] theorem threadFor_endTransaction :
    (d.endTransaction id).threadFor token tid = d.threadFor token tid := rfl
@[simp] theorem arenaFor_endTransaction :
    (d.endTransaction id).arenaFor token = d.arenaFor token := rfl

end EndTransaction

/-- A transaction that ended is not found any more, and the others are. -/
theorem transactionFor_endTransaction (id x : Nat) :
    (d.endTransaction id).transactionFor x = if x = id then none else d.transactionFor x := by
  rw [transactionFor, endTransaction, find?_update_of_blank]
  · by_cases hx : x = id
    · subst hx
      rw [if_pos rfl, List.find?_eq_none]
      intro t _
      simp +contextual
    · rw [if_neg hx, transactionFor]
      congr 1
      funext t
      by_cases ht : t.id = x
      · simp [ht, hx]
      · simp [ht]
  · intro t _
    by_cases hx : x = 0
    · simp [hx]
    · simp [show ¬ (0 = x) from fun h => hx h.symm]

section Serve

variable (d : Device) (k : Nat) (i : Int) (id : Nat)

@[simp] theorem serve_work : (d.serve k i id).work = d.work := by unfold serve; split <;> rfl
@[simp] theorem serve_objects : (d.serve k i id).objects = d.objects := by
  unfold serve; split <;> rfl
@[simp] theorem serve_history : (d.serve k i id).history = d.history := by
  unfold serve; split <;> rfl
@[simp] theorem serve_nextToken : (d.serve k i id).nextToken = d.nextToken := by
  unfold serve; split <;> rfl
@[simp] theorem serve_nextTransaction : (d.serve k i id).nextTransaction = d.nextTransaction := by
  unfold serve; split <;> rfl
@[simp] theorem serve_manager : (d.serve k i id).manager = d.manager := by
  unfold serve; split <;> rfl

@[simp] theorem arenaFor_serve : (d.serve k i id).arenaFor token = d.arenaFor token := by
  unfold serve
  split
  · rfl
  · exact arenaFor_updateThread _

end Serve

/-- Serving a transaction is seen at the thread that serves it alone. -/
theorem threadFor_serve (d : Device) (k : Nat) (i : Int) {id : Nat} (h0 : id ≠ 0) :
    (d.serve k i id).threadFor token tid =
      if token = k ∧ tid = i then (d.threadFor token tid).map fun th => { th with incoming := id }
      else d.threadFor token tid := by
  have h : (d.serve k i id).endpoints =
      (d.updateThread k i fun th => { th with incoming := id }).endpoints := by
    rw [serve, if_neg h0]
  rw [threadFor_congr h, threadFor_updateThread]
  exact fun _ => rfl

/-- Serving a transaction names the thread as its target. -/
theorem transactionFor_serve (d : Device) (k : Nat) (i : Int) (id x : Nat) :
    (d.serve k i id).transactionFor x =
      if x = id then (d.transactionFor x).map fun t => { t with targetTid := i }
      else d.transactionFor x := by
  unfold serve
  split
  next h0 =>
    split
    next hx =>
      rw [hx, h0, transactionFor_zero]
      rfl
    next => rfl
  next h0 =>
    rw [transactionFor, find?_update, transactionFor]
    rotate_left
    · exact fun _ _ => rfl
    cases h : d.transactions.find? fun t => x != 0 && t.id == x with
    | none => simp
    | some t =>
      have ht : t.id = x := by
        have := List.find?_some h
        simp only [Bool.and_eq_true, beq_iff_eq] at this
        exact this.2
      simp only [Option.map_some, ht, beq_iff_eq]
      split <;> rfl

/-! ## Teardown -/

section DropWork

variable (d : Device) (token : Nat) (tid : Int) (w : Work)

@[simp] theorem dropWork_transactions :
    (dropWork token tid d w).transactions = d.transactions := rfl
/-- A dropped record leaves the queue once. -/
@[simp] theorem dropWork_work : (dropWork token tid d w).work = d.work.erase w := rfl
/-- The drop of a record is noted. -/
@[simp] theorem dropWork_history :
    (dropWork token tid d w).history = .dropped token tid w :: d.history := rfl
/-- A dropped record gives back what it claimed of the objects. -/
@[simp] theorem dropWork_objects : (dropWork token tid d w).objects =
    d.objects.releaseClaims w.endpoint w.value.dataBuffer := rfl
@[simp] theorem dropWork_nextToken : (dropWork token tid d w).nextToken = d.nextToken := rfl
@[simp] theorem dropWork_nextTransaction :
    (dropWork token tid d w).nextTransaction = d.nextTransaction := rfl
@[simp] theorem dropWork_manager : (dropWork token tid d w).manager = d.manager := rfl
@[simp] theorem transactionFor_dropWork (id : Nat) :
    (dropWork token tid d w).transactionFor id = d.transactionFor id := rfl

@[simp] theorem threadFor_dropWork (k : Nat) (i : Int) :
    (dropWork token tid d w).threadFor k i = d.threadFor k i :=
  threadFor_updateArena _

/-- A dropped record gives back its buffer in the arena of its endpoint. -/
theorem arenaFor_dropWork (k : Nat) :
    (dropWork token tid d w).arenaFor k =
      if k = w.endpoint then (d.arenaFor k).map fun a => (a.cancel w.value.dataBuffer).2
      else d.arenaFor k :=
  arenaFor_updateArena _

end DropWork

/-- What ending its call does to the caller's thread. -/
def endCaller (id : Nat) (th : Thread) : Thread :=
  if th.outgoing = id then { th with outgoing := 0, error := some .deadReply } else th

/-- What ending its call does to the server's thread. -/
def endServer (id : Nat) (th : Thread) : Thread :=
  if th.incoming = id then { th with incoming := 0, deadReply := true } else th

/-- The cancellation of a call is seen at its caller alone. -/
theorem threadFor_cancelCaller (d : Device) (t : Transaction) (k : Nat) (i : Int) :
    (d.cancelCaller t).threadFor k i =
      if k = t.source ∧ i = t.sourceTid then (d.threadFor k i).map (endCaller t.id)
      else d.threadFor k i := by
  unfold cancelCaller
  split
  next hnone =>
    split
    next h => rw [h.1, h.2, hnone]; rfl
    next => rfl
  next source hsource =>
    split
    next hout =>
      rw [threadFor_record, threadFor_updateThread]
      · split
        next h =>
          rw [h.1, h.2, hsource]
          simp [endCaller, hout]
        next => rfl
      · exact fun _ => rfl
    next hout =>
      split
      next h =>
        rw [h.1, h.2, hsource]
        simp [endCaller, hout]
      next => rfl

/-- The cancellation of a call is seen at the thread that serves it alone. -/
theorem threadFor_cancelServer (d : Device) (t : Transaction) (k : Nat) (i : Int) :
    (d.cancelServer t).threadFor k i =
      if k = t.target ∧ i = t.targetTid then (d.threadFor k i).map (endServer t.id)
      else d.threadFor k i := by
  unfold cancelServer
  split
  next hnone =>
    split
    next h => rw [h.1, h.2, hnone]; rfl
    next => rfl
  next target htarget =>
    split
    next hin =>
      rw [threadFor_updateThread]
      · split
        next h =>
          rw [h.1, h.2, htarget]
          simp [endServer, hin]
        next => rfl
      · exact fun _ => rfl
    next hin =>
      split
      next h =>
        rw [h.1, h.2, htarget]
        simp [endServer, hin]
      next => rfl

/-- The two ends of a call are all that `cancelCaller` and `cancelServer` touch. -/
theorem cancelEnds_frame (d : Device) (t : Transaction) :
    ((d.cancelCaller t).cancelServer t).work = d.work ∧
      ((d.cancelCaller t).cancelServer t).transactions = d.transactions ∧
      ((d.cancelCaller t).cancelServer t).objects = d.objects ∧
      ((d.cancelCaller t).cancelServer t).nextToken = d.nextToken ∧
      ((d.cancelCaller t).cancelServer t).nextTransaction = d.nextTransaction ∧
      ((d.cancelCaller t).cancelServer t).manager = d.manager ∧
      ∀ k, ((d.cancelCaller t).cancelServer t).arenaFor k = d.arenaFor k := by
  have hs : ∀ d : Device, (d.cancelServer t).work = d.work ∧
      (d.cancelServer t).transactions = d.transactions ∧ (d.cancelServer t).objects = d.objects ∧
      (d.cancelServer t).nextToken = d.nextToken ∧
      (d.cancelServer t).nextTransaction = d.nextTransaction ∧
      (d.cancelServer t).manager = d.manager ∧
      ∀ k, (d.cancelServer t).arenaFor k = d.arenaFor k := by
    intro d
    unfold cancelServer
    split
    · simp
    · split <;> simp
  have hc : (d.cancelCaller t).work = d.work ∧
      (d.cancelCaller t).transactions = d.transactions ∧ (d.cancelCaller t).objects = d.objects ∧
      (d.cancelCaller t).nextToken = d.nextToken ∧
      (d.cancelCaller t).nextTransaction = d.nextTransaction ∧
      (d.cancelCaller t).manager = d.manager ∧
      ∀ k, (d.cancelCaller t).arenaFor k = d.arenaFor k := by
    unfold cancelCaller
    split
    · simp
    · split <;> simp
  obtain ⟨h1, h2, h3, h4, h5, h6, h7⟩ := hs (d.cancelCaller t)
  obtain ⟨g1, g2, g3, g4, g5, g6, g7⟩ := hc
  exact ⟨h1.trans g1, h2.trans g2, h3.trans g3, h4.trans g4, h5.trans g5, h6.trans g6,
    fun k => (h7 k).trans (g7 k)⟩

end Device

end Artbox.Binder
