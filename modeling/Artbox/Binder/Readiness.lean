import Artbox.Binder.Manager
import Artbox.Binder.Reading

/-!
# Readiness and reading

A poll and a read ask for the same pending state in two places: `events` asks `read_ready`
with a wider idea of which threads take process work, `read_work` asks `read_ready` and then
chooses a record. What the poll does not report a read does not find
(`read_of_events_zero`), and what is ready beyond a thread's first return a read finds
(`readWork_progress`).

A poll also runs `reap_closed`, as every entry point does; apart from that it leaves the
device as it was (`events_frame`).
-/

namespace Artbox.Binder

open Slots Bytes

variable {ω : Type} {host : Host ω} {w : ω} {d d' : Device} {token : Nat} {tid : Int} {th : Thread}

/-! ## Polling -/

/-- Polling takes process work for more threads. -/
theorem acceptsProcessWork_polling (h : acceptsProcessWork th = true) :
    acceptsProcessWork th true = true := by
  simp only [acceptsProcessWork, Bool.and_eq_true] at h ⊢
  exact ⟨h.1, rfl⟩

/-- For a looper at work it makes no difference. -/
theorem acceptsProcessWork_looper (hentered : th.looper.entered = true)
    (hinvalid : th.looper.invalid = false) (hexited : th.looper.exited = false) :
    acceptsProcessWork th true = acceptsProcessWork th := by
  simp [acceptsProcessWork, hentered, hinvalid, hexited]

/-- A parcel that a read takes is seen by a poll. -/
theorem workFor_polling (h : (d.workFor token th).isSome = true) :
    (d.workFor token th true).isSome = true := by
  unfold Device.workFor at h ⊢
  rw [List.findIdx?_isSome, List.any_eq_true] at h ⊢
  obtain ⟨x, hx, hready⟩ := h
  refine ⟨x, hx, ?_⟩
  simp only [Device.workReady, Bool.and_eq_true, Bool.or_eq_true] at hready ⊢
  exact ⟨hready.1, hready.2.imp_right fun ht => ⟨ht.1, acceptsProcessWork_polling ht.2⟩⟩

/-- A notification that a read takes is seen by a poll. -/
theorem deathFor_polling (h : (d.deathFor token th).isSome = true) :
    (d.deathFor token th true).isSome = true := by
  unfold Device.deathFor at h ⊢
  rw [List.findIdx?_isSome, List.any_eq_true] at h ⊢
  obtain ⟨x, hx, hready⟩ := h
  refine ⟨x, hx, ?_⟩
  simp only [Bool.and_eq_true, Bool.or_eq_true] at hready ⊢
  exact ⟨hready.1, hready.2.imp_right fun ht => ⟨ht.1, acceptsProcessWork_polling ht.2⟩⟩

/-- A command that a read takes is seen by a poll. -/
theorem nodeEventFor_polling (h : (d.nodeEventFor token th).isSome = true) :
    (d.nodeEventFor token th true).isSome = true := by
  unfold Device.nodeEventFor at h ⊢
  rw [List.findSome?_isSome_iff] at h ⊢
  obtain ⟨n, hn, hready⟩ := h
  refine ⟨n, hn, ?_⟩
  split at hready
  next hc =>
    rw [if_pos]
    · exact hready
    · simp only [Bool.and_eq_true, Bool.or_eq_true] at hc ⊢
      exact ⟨hc.1, hc.2.imp_right fun ht => ⟨ht.1, acceptsProcessWork_polling ht.2⟩⟩
  next => cases hready

/-- A thread that may read is reported to a poll. -/
theorem readReady_polling (h : d.readReady token th = true) : d.readReady token th true = true := by
  simp only [Device.readReady, Bool.or_eq_true] at h ⊢
  rcases h with ((h | h) | h) | h
  · exact .inl (.inl (.inl h))
  · exact .inl (.inl (.inr (workFor_polling h)))
  · exact .inl (.inr (deathFor_polling h))
  · exact .inr (nodeEventFor_polling h)

/-- Readiness depends on polling only through the process work. -/
theorem readReady_looper (hentered : th.looper.entered = true)
    (hinvalid : th.looper.invalid = false) (hexited : th.looper.exited = false) :
    d.readReady token th true = d.readReady token th := by
  have haccepts := acceptsProcessWork_looper hentered hinvalid hexited
  have hready : d.workReady token th true = d.workReady token th false := by
    funext x
    rw [Device.workReady, Device.workReady, haccepts]
  simp only [Device.readReady, Device.workFor, Device.deathFor, Device.nodeEventFor, hready,
    haccepts]

/-! ## Reading what is ready -/

/-- Something is pending other than the first return of a new thread. -/
def Device.readable (d : Device) (token : Nat) (th : Thread) : Bool :=
  d.readReady token { th with initialReturn := false }

/-- The first return is one more reason to be ready. -/
theorem readReady_of_readable (h : d.readable token th = true) : d.readReady token th = true := by
  unfold Device.readable Device.readReady at h
  unfold Device.readReady
  simp only [Bool.false_or, Bool.or_assoc, Bool.or_eq_true] at h ⊢
  exact .inr h

/-- What is readable is a record. -/
theorem nextRecord_isSome (h : d.readable token th = true) : (d.nextRecord token th).isSome = true := by
  have hcases : th.error.isSome = true ∨ th.completions ≠ 0 ∨ (d.workFor token th).isSome = true ∨
      (d.deathFor token th).isSome = true ∨ (d.nodeEventFor token th).isSome = true := by
    unfold Device.readable Device.readReady at h
    simp only [Bool.false_or, Bool.or_eq_true, bne_iff_ne] at h
    rcases h with (((h | h) | h) | h) | h
    · exact .inl h
    · exact .inr (.inl h)
    · exact .inr (.inr (.inl h))
    · exact .inr (.inr (.inr (.inl h)))
    · exact .inr (.inr (.inr (.inr h)))
  unfold Device.nextRecord
  cases herr : th.error with
  | some word => rfl
  | none =>
    cases hnode : d.nodeEventFor token th with
    | some found => rfl
    | none =>
      dsimp only
      by_cases hcomp : th.completions ≠ 0
      · rw [if_pos hcomp]
        rfl
      rw [if_neg hcomp]
      cases hrec : d.workRecord token th with
      | some r => rfl
      | none =>
        -- a parcel that was found is there, so the death return is all that is left
        have hwork : d.workFor token th = none := by
          cases hfor : d.workFor token th with
          | none => rfl
          | some index =>
            obtain ⟨x, hx, _⟩ := Device.workFor_spec hfor
            rw [Device.workRecord, hfor, Option.bind_some, hx] at hrec
            cases hrec
        rw [herr, hwork, hnode] at hcases
        obtain ⟨slot, hfor⟩ := Option.isSome_iff_exists.1 (show (d.deathFor token th).isSome = true by
          simpa [hcomp] using hcases)
        obtain ⟨death, hdeath, _⟩ := deathFor_spec hfor
        simp only [Device.deathRecord, hfor, Option.bind_some, hdeath, Option.map_some,
          Option.isSome_some]

/-- No record is longer than a parcel's. -/
theorem Record.length_le (r : Record) : r.bytes.length ≤ 68 := by
  cases r <;> simp [bytes]

/-- Writes into the range succeed. -/
def Host.Writable (host : Host ω) (w : ω) (vm address size : Nat) : Prop :=
  ∀ at' bs, address ≤ at' → at' + bs.length ≤ address + size → (host.write w vm at' bs).1 = true

/-- The loop does not take back what it has written. -/
theorem le_readLoop (host : Host ω) (w : ω) (h : d.Reachable) {e : Endpoint}
    (he : d.endpointFor token = some e) (tid : Int) (address : Nat) {size rounds consumed : Nat}
    (hroom : consumed ≤ size) :
    consumed ≤ (readLoop host token tid address size rounds consumed d w).consumed := by
  have hvm : (d.endpointFor token).map (Prod.fst ∘ Endpoint.post) = some e.vm := by
    rw [he]
    rfl
  obtain ⟨rs, hdrained⟩ := readLoop_drained host tid address rounds consumed d w [] h hvm hroom
  rw [← readLoop_plain host token tid address size rounds consumed d w []]
  show _ ≤ (readLoop host.logged token tid address size rounds consumed d (w, [])).consumed
  rw [hdrained.total]
  exact Nat.le_add_right _ _

/-- What is ready for a reason that lasts is read: a buffer with room for a parcel gets more
than `NOOP`. -/
theorem readWork_progress (host : Host ω) (w : ω) (h : d.Reachable) {e : Endpoint} (hf : Found d e th)
    {header : Header} (ha : d.acceptsRead header) (hsize : 72 ≤ header.readSize)
    (hready : d.readable e.token th = true)
    (hw : host.Writable w e.vm header.readBuffer header.readSize)
    (hw' : host.Writable (host.write w e.vm header.readBuffer noopFrame.encode).2 e.vm
      header.readBuffer header.readSize) :
    4 < (readWork host w d e th header).consumed := by
  obtain ⟨r, hrec⟩ := Option.isSome_iff_exists.1 (nextRecord_isSome hready)
  have hshort := r.length_le
  have hlong := r.four_le
  have hnoop : (host.write w e.vm header.readBuffer noopFrame.encode).1 = true :=
    hw _ _ (Nat.le_refl _) (by
      rw [noopFrame.length_encode]
      show _ + 4 ≤ _
      omega)
  have hfirst := hw' (header.readBuffer + 4) r.bytes (Nat.le_add_right _ _) (by omega)
  have hready' := readReady_of_readable hready
  rw [readWork_of_accepts ha]
  generalize host.write w e.vm header.readBuffer noopFrame.encode = noop at hnoop hfirst
  obtain ⟨ok, w'⟩ := noop
  cases hnoop
  dsimp only at hfirst ⊢
  rw [hready', Bool.not_true, if_neg (by decide)]
  obtain ⟨rounds, hrounds⟩ : ∃ rounds, header.readSize = rounds + 1 := ⟨header.readSize - 1, by omega⟩
  rw [hrounds] at hsize ⊢
  unfold readLoop
  rw [hf.endpoint, Device.threadFor_of hf.endpoint, hf.thread]
  dsimp only
  rw [if_neg (by omega), hrec]
  dsimp only
  rw [if_neg (by omega)]
  generalize host.write w' e.vm (header.readBuffer + 4) r.bytes = written at hfirst
  obtain ⟨ok, w''⟩ := written
  cases hfirst
  dsimp only
  rw [if_neg (not_not.2 (deliver_ok h hf hrec))]
  cases r.endsRead with
  | true =>
    show 4 < 4 + r.bytes.length
    omega
  | false =>
    have hposts : SamePosts d (d.deliver e th r).2 := .deliver
    obtain ⟨e', he', _⟩ := Option.map_eq_some_iff.1
      ((hposts e.token).trans (by rw [hf.endpoint]; rfl))
    have hroom : 4 + r.bytes.length ≤ rounds + 1 := by omega
    exact Nat.lt_of_lt_of_le (by omega) (le_readLoop host w''
      (h.then (.deliver hf.endpoint hf.thread hrec)) he' th.tid header.readBuffer hroom)

/-! ## Reaping -/

namespace SamePosts

theorem dropWorks {p : Work → Bool} : SamePosts d (d.dropWorks token tid p) := by
  unfold Device.dropWorks
  generalize d.work.filter p = l
  induction l generalizing d with
  | nil => exact refl d
  | cons x xs ih =>
    have hdrop : SamePosts d (Device.dropWork token tid d x) :=
      (updateArena : SamePosts d (d.updateArena x.endpoint fun a => (a.cancel x.value.dataBuffer).2))
    exact hdrop.trans ih

theorem cancelTransaction {t : Transaction} :
    SamePosts d (Device.cancelTransaction token tid d t) := by
  have hcaller : SamePosts d (d.cancelCaller t) := by
    unfold Device.cancelCaller
    split
    · exact refl d
    · split
      · exact (updateThread : SamePosts d (d.updateThread t.source t.sourceTid fun th =>
          { th with outgoing := 0, error := some .deadReply }))
      · exact refl d
  have hserver : SamePosts (d.cancelCaller t) ((d.cancelCaller t).cancelServer t) := by
    unfold Device.cancelServer
    split
    · exact refl _
    · split
      · exact updateThread
      · exact refl _
  have hdrop : SamePosts ((d.cancelCaller t).cancelServer t)
      (((d.cancelCaller t).cancelServer t).dropWorks token tid fun w => w.transaction == t.id) :=
    dropWorks
  exact (hcaller.trans hserver).trans hdrop

theorem cancelTransactions : SamePosts d (d.cancelTransactions token tid) := by
  unfold Device.cancelTransactions
  refine trans ?_ dropWorks
  generalize d.transactions.filter (Device.cancelMatches token tid) = l
  induction l generalizing d with
  | nil => exact refl d
  | cons t ts ih => exact cancelTransaction.trans ih

end SamePosts

/-- A release leaves the other endpoints where they were. -/
theorem post_releaseEndpoint {k : Nat} (hk : k ≠ token) :
    ((d.releaseEndpoint token).endpointFor k).map Endpoint.post =
      (d.endpointFor k).map Endpoint.post := by
  have hcancel : SamePosts (d.record (.teardown token 0))
      ((d.record (.teardown token 0)).cancelTransactions token) := .cancelTransactions
  rw [Device.releaseEndpoint, Device.endpointFor_retire, if_neg hk]
  exact hcancel k

variable (host) in
/-- So does a reap with the open ones. -/
theorem reap_post (l : List Endpoint) {s : Device × ω} {k : Nat}
    (hl : ∀ e ∈ l, e.token = k → e.opened = true) :
    ((l.foldl (reapOne host) s).1.endpointFor k).map Endpoint.post =
      (s.1.endpointFor k).map Endpoint.post := by
  induction l generalizing s with
  | nil => rfl
  | cons e rest ih =>
    rw [List.foldl_cons, ih fun x hx => hl x (List.mem_cons_of_mem _ hx)]
    rcases reapOne_cases s e with ⟨heq, _⟩ | ⟨heq, hclosed, _⟩
    · rw [heq]
    · rw [heq]
      refine post_releaseEndpoint fun hk => ?_
      rw [hl e List.mem_cons_self hk.symm] at hclosed
      cases hclosed

variable (host) in
/-- A reap that takes no endpoint away does nothing. -/
theorem reap_idle (l : List Endpoint) {s : Device × ω}
    (hl : ∀ e ∈ l, e.token ≠ 0 → (s.1.endpointFor e.token).isSome = true)
    (hall : ∀ k, (s.1.endpointFor k).isSome = true →
      ((l.foldl (reapOne host) s).1.endpointFor k).isSome = true) :
    (l.foldl (reapOne host) s).1 = s.1 := by
  induction l generalizing s with
  | nil => rfl
  | cons e rest ih =>
    rw [List.foldl_cons] at hall ⊢
    have hkept : (reapOne host s e).1 = s.1 := by
      by_cases h0 : e.token = 0
      · rw [reapOne, if_pos (.inl h0)]
      rcases reapOne_cases s e with ⟨heq, _⟩ | ⟨heq, _⟩
      · exact heq
      · -- a released endpoint does not come back
        have hback := (reap_present host rest).1 (hall e.token (hl e List.mem_cons_self h0))
        rw [heq, Device.isSome_endpointFor_releaseEndpoint] at hback
        exact absurd rfl hback.2
    rw [ih, hkept]
    · intro x hx h0
      rw [hkept]
      exact hl x (List.mem_cons_of_mem _ hx) h0
    · intro k hk
      rw [hkept] at hk
      exact hall k hk

/-- What `reap_closed` does to an open endpoint and, when no endpoint goes, to the device. -/
theorem reapClosed_open (host : Host ω) (w : ω) (h : d.Reachable) :
    (∀ k e, d.endpointFor k = some e → e.opened = true →
      ∃ e', (reapClosed host w d).2.1.endpointFor k = some e' ∧ e'.post = e.post) ∧
      ((∀ k, (d.endpointFor k).isSome = true →
        ((reapClosed host w d).2.1.endpointFor k).isSome = true) →
          (reapClosed host w d).2.1 = d) := by
  have hi := h.endpointIds
  constructor
  · intro k e he hopen
    obtain ⟨hmem, htok, h0⟩ := Device.endpointFor_spec he
    have hpost := reap_post host d.endpoints (s := (d, w)) (k := k) fun x hx hk => by
      have hxe := hi.endpointFor hx (by rw [hk]; exact h0)
      rw [hk, he] at hxe
      cases hxe
      exact hopen
    rw [← reapFrom_eq, he] at hpost
    exact Option.map_eq_some_iff.1 hpost
  · intro hall
    unfold reapClosed at hall ⊢
    rw [reapFrom_eq] at hall ⊢
    refine reap_idle host d.endpoints (fun e hmem h0 => ?_) hall
    rw [hi.endpointFor hmem h0]
    rfl

/-! ## The poll -/

/-- The state a poll looks at: the thread it found idle, on the reaped device. -/
structure Idle (host : Host ω) (w : ω) (d : Device) (token : Nat) (tid : Int) (e : Endpoint)
    (d₁ : Device) (th : Thread) : Prop where
  positive : 0 < tid
  reaped : (reapClosed host w d).1 = 0
  endpoint : (reapClosed host w d).2.1.endpointFor token = some e
  configured : (reapClosed host w d).2.1.receiveLimit ≠ 0
  admitted : (reapClosed host w d).2.1.admitThread e tid = some d₁
  thread : d₁.threadFor token tid = some th
  inactive : th.active = false
  unready : d₁.readReady token th true = false

/-- Without events the thread has nothing to read. -/
theorem events_zero (h : (events host w d token tid).1 = 0) :
    ∃ e d₁ th, Idle host w d token tid e d₁ th := by
  unfold events at h
  by_cases hpos : tid ≤ 0
  · rw [if_pos hpos] at h
    cases h
  rw [if_neg hpos] at h
  dsimp only at h
  by_cases hreap : (reapClosed host w d).1 ≠ 0
  · rw [if_pos hreap] at h
    exact absurd h hreap
  rw [if_neg hreap] at h
  cases he : (reapClosed host w d).2.1.endpointFor token with
  | none =>
    rw [he] at h
    cases h
  | some e =>
    rw [he] at h
    dsimp only at h
    by_cases hlimit : (reapClosed host w d).2.1.receiveLimit = 0
    · rw [if_pos hlimit] at h
      cases h
    rw [if_neg hlimit] at h
    cases ha : (reapClosed host w d).2.1.admitThread e tid with
    | none =>
      rw [ha] at h
      cases h
    | some d₁ =>
      rw [ha] at h
      dsimp only at h
      cases hth : d₁.threadFor token tid with
      | none =>
        rw [hth] at h
        cases h
      | some th =>
        rw [hth] at h
        dsimp only at h
        cases hactive : th.active with
        | true =>
          rw [if_pos hactive] at h
          cases h
        | false =>
          rw [if_neg (by simp [hactive])] at h
          cases hready : d₁.readReady token th true with
          | true =>
            rw [hready] at h
            cases h
          | false =>
            exact ⟨e, d₁, th, by omega, by simpa using hreap, he, hlimit, ha, hth, hactive, hready⟩

/-- Nothing pending is gone or new, and the threads there were are as they were. -/
structure Unmoved (d d' : Device) : Prop where
  pending : ∀ p, d'.pending p = d.pending p
  threads : ∀ k i th, d.threadFor k i = some th → d'.threadFor k i = some th

namespace Unmoved

theorem refl (d : Device) : Unmoved d d := ⟨fun _ => rfl, fun _ _ _ h => h⟩

/-- A new thread is owed nothing. -/
theorem admitThread {e : Endpoint} (he : d.endpointFor e.token = some e)
    (ha : d.admitThread e tid = some d') : Unmoved d d' := by
  obtain ⟨_, hwork, hobjects, _, _⟩ := Device.admitThread_frame ha
  have hthreads := fun k i => Device.threadFor_admitThread (k := k) (i := i) he ha
  have hacc : ∀ k i, (d'.accountFor k i).bind Prod.snd = (d.accountFor k i).bind Prod.snd ∧
      ((d'.accountFor k i).map Prod.fst).getD 0 = ((d.accountFor k i).map Prod.fst).getD 0 := by
    intro k i
    rw [Device.accountFor, Device.accountFor, hthreads]
    split
    next h =>
      rw [h.2.2]
      exact ⟨rfl, rfl⟩
    next => exact ⟨rfl, rfl⟩
  refine ⟨fun p => ?_, fun k i th hth => ?_⟩
  · cases p with
    | error k i word => simp only [Device.pending, (hacc k i).1]
    | completion k i => exact (hacc k i).2
    | node | notification => simp only [Device.pending, hobjects]
    | work => simp only [Device.pending, hwork]
  · rw [hthreads, if_neg]
    · exact hth
    · rintro ⟨rfl, rfl, hnone⟩
      rw [hnone] at hth
      cases hth

end Unmoved

/-- Beyond the reap a poll leaves what is pending. -/
theorem events_unmoved (host : Host ω) (w : ω) (d : Device) (token : Nat) (tid : Int) :
    Unmoved d (events host w d token tid).2.1 ∨
      Unmoved (reapClosed host w d).2.1 (events host w d token tid).2.1 := by
  unfold events
  by_cases hpos : tid ≤ 0
  · rw [if_pos hpos]
    exact .inl (.refl d)
  right
  rw [if_neg hpos]
  dsimp only
  by_cases hreap : (reapClosed host w d).1 ≠ 0
  · rw [if_pos hreap]
    exact .refl _
  rw [if_neg hreap]
  cases he : (reapClosed host w d).2.1.endpointFor token with
  | none => exact .refl _
  | some e =>
    dsimp only
    by_cases hlimit : (reapClosed host w d).2.1.receiveLimit = 0
    · rw [if_pos hlimit]
      exact .refl _
    rw [if_neg hlimit]
    cases ha : (reapClosed host w d).2.1.admitThread e tid with
    | none => exact .refl _
    | some d₁ =>
      have hfound : (reapClosed host w d).2.1.endpointFor e.token = some e := by
        rw [(Device.endpointFor_spec he).2.1, he]
      have hadmit := Unmoved.admitThread hfound ha
      dsimp only
      cases d₁.threadFor token tid with
      | none => exact hadmit
      | some th =>
        dsimp only
        cases th.active <;> exact hadmit

/-! ## The read that follows a poll -/

/-- A read-only transfer whose buffers can be used: the header at `argument` asks for no
write and for a read that is accepted, and the copies out succeed. -/
structure ReadOnly (host : Host ω) (w : ω) (d : Device) (vm argument : Nat) (header : Header) :
    Prop where
  asked : ((host.read w vm argument 48).1.map fun bytes => Header.ofBytes bytes.1) = some header
  nothing : header.writeSize = 0
  accepts : d.acceptsRead header
  buffer : (host.write (host.read w vm argument 48).2 vm header.readBuffer
    noopFrame.encode).1 = true
  argument : (host.write (host.write (host.read w vm argument 48).2 vm header.readBuffer
    noopFrame.encode).2 vm argument header.bytes).1 = true

/-- Entering makes the thread active. -/
theorem threadFor_enter (h : d.threadFor token tid = some th) :
    (d.enter token tid).threadFor token tid = some { th with active := true } := by
  have hmark : ∀ th : Thread, ({ th with active := true } : Thread).tid = th.tid := fun _ => rfl
  have hcount : (d.enter token tid).threadFor token tid =
      (d.updateThread token tid fun t => { t with active := true }).threadFor token tid :=
    Device.threadFor_updateEndpoint (fun _ => rfl) fun _ => rfl
  rw [hcount, Device.threadFor_updateThread hmark, if_pos ⟨rfl, rfl⟩, h]
  rfl

/-- Entering a call changes nothing that is read. -/
theorem readReady_enter : (d.enter token tid).readReady token { th with active := true } =
    d.readReady token th := rfl

theorem admitThread_limit {e : Endpoint} (ha : d.admitThread e tid = some d') :
    d'.receiveLimit = d.receiveLimit := by
  unfold Device.admitThread at ha
  split at ha
  · cases ha
    rfl
  · split at ha
    · cases ha
    · cases ha
      rfl

/-- A read-only transfer on a thread for which nothing is ready. -/
theorem writeRead_unready (host : Host ω) (w : ω) {e : Endpoint} (hnon : e.nonblocking = true)
    {argument : Nat} {header : Header} (hth : d.threadFor e.token tid = some th)
    (hunready : d.readReady e.token th = false) (hread : ReadOnly host w d e.vm argument header)
    (interruptible interrupted : Bool) :
    ∃ d' w', writeRead host w d e tid argument interruptible interrupted = .done (-11) d' w' := by
  obtain ⟨hasked, hnothing, haccepts, hbuffer, hargument⟩ := hread
  obtain ⟨bytes, hbytes, hheader⟩ := Option.map_eq_some_iff.1 hasked
  unfold writeRead
  generalize host.read w e.vm argument 48 = asked at hbytes hbuffer hargument
  obtain ⟨got, w₁⟩ := asked
  cases hbytes
  dsimp only at hbuffer hargument ⊢
  rw [hheader]
  have hwritten : (if 65536 < header.writeSize then
      (⟨-7, header.writeConsumed, d, w₁⟩ : CommandResult ω)
    else writeLoop host e.token tid header.writeBuffer header.writeSize header.writeSize
      header.writeConsumed d w₁) = ⟨0, header.writeConsumed, d, w₁⟩ := by
    rw [if_neg (by omega), hnothing]
    rfl
  have hsize : header.readSize ≠ 0 := by
    have hfour := haccepts.2.1
    omega
  have hfresh : ({ header with readConsumed := 0 } : Header) = header := by
    rw [← haccepts.2.2.1]
  obtain ⟨w₂, hwork, hcopied⟩ : ∃ w₂, readWork host w₁ d e th header = ⟨-11, 0, d, w₂⟩ ∧
      (host.write w₂ e.vm argument header.bytes).1 = true := by
    rw [readWork_of_accepts haccepts]
    generalize host.write w₁ e.vm header.readBuffer noopFrame.encode = noop at hbuffer hargument
    obtain ⟨ok, w₂⟩ := noop
    cases hbuffer
    exact ⟨w₂, by rw [hunready]; rfl, hargument⟩
  rw [hwritten, if_neg (fun h => h rfl), if_pos hsize]
  unfold readWait
  dsimp only
  rw [hth]
  dsimp only
  rw [hwork, if_pos (.inr hnon)]
  unfold finishRead finishWriteRead
  dsimp only
  rw [hfresh]
  generalize host.write w₂ e.vm argument header.bytes = copied at hcopied
  obtain ⟨ok, w₃⟩ := copied
  cases hcopied
  exact ⟨_, _, rfl⟩

/-- What a poll does not report, a read does not find. -/
theorem read_of_events_zero (h : d.Reachable) (hzero : (events host w d token tid).1 = 0)
    {e : Endpoint} (he : d.endpointFor token = some e) (hopen : e.opened = true)
    (hnon : e.nonblocking = true) {argument : Nat} {header : Header}
    (hread : ReadOnly host (reapClosed host w d).2.2 d e.vm argument header) {ownerVm : Option Nat}
    (howner : ∀ vm, ownerVm = some vm → vm = e.vm) (interrupted : Bool) :
    ∃ d' w', ioctl host w d token tid Request.writeRead.word argument ownerVm interrupted =
      .done (-11) d' w' := by
  obtain ⟨e', d₁, th, hidle⟩ := events_zero hzero
  obtain ⟨e'', he'', hpost⟩ := (reapClosed_open host w h).1 token e he hopen
  obtain rfl : e' = e'' := Option.some.inj (hidle.endpoint.symm.trans he'')
  obtain ⟨hvm, hopen', hnon'⟩ : e'.vm = e.vm ∧ e'.opened = e.opened ∧ e'.nonblocking = e.nonblocking := by
    simpa [Endpoint.post] using hpost
  obtain ⟨_, htok, h0⟩ := Device.endpointFor_spec he''
  have hth : (d₁.enter token tid).threadFor e'.token tid = some { th with active := true } := by
    rw [htok]
    exact threadFor_enter hidle.thread
  have hunready : (d₁.enter token tid).readReady e'.token { th with active := true } = false := by
    rw [htok, readReady_enter, ← Bool.not_eq_true]
    intro hready
    have hpolled := readReady_polling hready
    rw [hidle.unready] at hpolled
    cases hpolled
  have hconfigured : (d₁.enter token tid).receiveLimit ≠ 0 := by
    show d₁.receiveLimit ≠ 0
    rw [admitThread_limit hidle.admitted]
    exact hidle.configured
  have hread' : ReadOnly host (reapClosed host w d).2.2 (d₁.enter token tid) e'.vm argument header := by
    rw [hvm]
    exact ⟨hread.asked, hread.nothing, ⟨hconfigured, hread.accepts.2⟩, hread.buffer, hread.argument⟩
  have hpos := hidle.positive
  have hsame : (ownerVm.map fun vm => decide (vm ≠ e'.vm)).getD false = false := by
    cases howned : ownerVm with
    | none => rfl
    | some vm =>
      rw [hvm]
      simp [howner vm howned]
  unfold ioctl
  rw [if_neg (by omega), if_neg h0]
  dsimp only
  rw [if_neg (not_not.2 hidle.reaped), he'', Option.filter_some, if_pos (hopen'.trans hopen)]
  dsimp only
  rw [if_neg (by rw [hsame]; decide), hidle.admitted]
  dsimp only
  rw [hidle.thread]
  dsimp only
  rw [if_neg (by rw [hidle.inactive]; decide)]
  exact writeRead_unready host _ (hnon'.trans hnon) hth hunready hread' _ _

/-! ## Readiness agrees with reading -/

/-- Readiness agrees with reading. What a poll does not report, a non-blocking read by the
thread on the open endpoint does not find; what is ready beyond the first return is read; for
a looper at work polling and reading have one idea of readiness; and a poll takes nothing but
what goes with an endpoint that `reap_closed` releases. -/
theorem readiness_agrees (host : Host ω) (w : ω) (h : d.Reachable) :
    (∀ token tid e, (events host w d token tid).1 = 0 → d.endpointFor token = some e →
      e.opened = true → e.nonblocking = true →
        ∀ argument header, ReadOnly host (reapClosed host w d).2.2 d e.vm argument header →
          ∀ ownerVm, (∀ vm, ownerVm = some vm → vm = e.vm) → ∀ interrupted, ∃ d' w',
            ioctl host w d token tid Request.writeRead.word argument ownerVm interrupted =
              .done (-11) d' w') ∧
    (∀ e th, Found d e th → d.readable e.token th = true →
      ∀ header : Header, d.acceptsRead header → 72 ≤ header.readSize →
        host.Writable w e.vm header.readBuffer header.readSize →
          host.Writable (host.write w e.vm header.readBuffer noopFrame.encode).2 e.vm
            header.readBuffer header.readSize →
              4 < (readWork host w d e th header).consumed) ∧
    (∀ token th, th.looper.entered = true → th.looper.invalid = false → th.looper.exited = false →
      d.readReady token th true = d.readReady token th) ∧
    ∀ token tid, (Unmoved d (events host w d token tid).2.1 ∨
        Unmoved (reapClosed host w d).2.1 (events host w d token tid).2.1) ∧
      ((∀ k, (d.endpointFor k).isSome = true →
        ((reapClosed host w d).2.1.endpointFor k).isSome = true) →
          Unmoved d (events host w d token tid).2.1) := by
  refine ⟨fun token tid e hzero he hopen hnon argument header hread ownerVm howner interrupted => ?_,
    fun e th hf hready header ha hsize hw hw' => ?_, fun token th hentered hinvalid hexited => ?_,
    fun token tid => ?_⟩
  · exact read_of_events_zero h hzero he hopen hnon hread howner interrupted
  · exact readWork_progress host w h hf ha hsize hready hw hw'
  · exact readReady_looper hentered hinvalid hexited
  · have hunmoved := events_unmoved host w d token tid
    refine ⟨hunmoved, fun hall => ?_⟩
    rw [(reapClosed_open host w h).2 hall] at hunmoved
    exact hunmoved.elim id id

/-- The client's thread asks for the version, and then its endpoint does not block. -/
def idleScript : Script := [(2, 256, Header.bytes ⟨0, 0, 0, 256, 0, 8192⟩)]

def idleCalls : List Call := [.ioctl 2 2 Request.version.word 512 none false, .setNonblocking 2 true]

/-- Guests that hold a script and whose mappings live as long as the world says so. -/
def mortalHost : Host (Script × Bool) where
  read w vm address size :=
    let r := scriptHost.read w.1 vm address size
    (r.1, r.2, w.2)
  write w _ _ _ := (true, w)
  watchState w _ := (if w.2 then 3 else 0, w)
  allocate w _ := (true, w)
  destroy w _ := (0, w)
  vmPageSize _ _ := 4096
  mapReceive w vm address _ _ := (.ok (vm, vm, vm, address), w)

/-- The client called the manager and closed its endpoint. -/
def abandonedSystem : System (Script × Bool) :=
  System.run mortalHost ⟨{ endpoints := List.replicate 2 {}, threadLimit := 4 }, (callScript, true), []⟩
    (pairCalls ++ [.writeRead 2 2 256, .close 2])

/-- The abandoned system is reachable. -/
theorem abandoned_reachable (w : Script × Bool) :
    (System.machine mortalHost).Reachable { abandonedSystem with world := w } := by
  have hstart : System.start 2 4 (callScript, true) = some _ := rfl
  have hrun : (System.machine mortalHost).Reachable abandonedSystem := run_system hstart _
  exact hrun.step (.inr ⟨w, rfl⟩)

/-- A closed endpoint whose mapping lives can be polled and not be read, and a poll takes the
completion of a client that closed its endpoint and lost its mapping. -/
theorem readiness_limits :
    (∃ d : Device, d.Reachable ∧ (events scriptHost idleScript d 2 2).1 = 0 ∧
      (System.settle [] (ioctl scriptHost idleScript d 2 2 Request.writeRead.word 256 none
        false)).1 = some (-9)) ∧
    ∃ s, (System.machine mortalHost).Reachable s ∧
      (events mortalHost s.world s.device 1 1).2.1.pending (.completion 2 2) <
        s.device.pending (.completion 2 2) :=
  ⟨⟨_, replay_reachable idleScript (idleCalls ++ [.close 2]), by decide, by decide⟩,
    _, abandoned_reachable (callScript, false), by decide⟩

/-- The client's endpoint after those calls. -/
def idleClient : Option Endpoint := (replay idleScript idleCalls).endpointFor 2

theorem idleClient_isSome : idleClient.isSome = true := by decide

/-- The poll of the idle client reports nothing, and so does its read; the manager that has a
call before it reads it. -/
theorem readiness_idle_and_called :
    (∃ d' w', ioctl scriptHost idleScript (replay idleScript idleCalls) 2 2 Request.writeRead.word 256
      none false = .done (-11) d' w') ∧
    ∃ e th, managerThread pendingScript pendingCalls = some (e, th) ∧
      4 < (readWork scriptHost pendingScript (replay pendingScript pendingCalls) e th
        ⟨0, 0, 0, 256, 0, 8192⟩).consumed := by
  constructor
  · obtain ⟨e, he⟩ := Option.isSome_iff_exists.1 idleClient_isSome
    have hget : idleClient.get idleClient_isSome = e := Option.get_of_eq_some idleClient_isSome he
    have hfields : ∀ x, idleClient.get idleClient_isSome = x →
        x.vm = 2 ∧ x.opened = true ∧ x.nonblocking = true := by
      rintro x rfl
      decide
    obtain ⟨hvm, hopen, hnon⟩ := hfields e hget
    refine (readiness_agrees scriptHost idleScript (replay_reachable idleScript idleCalls)).1 2 2 e
      (by decide) he hopen hnon 256 ⟨0, 0, 0, 256, 0, 8192⟩ ?_ none (by simp) false
    rw [hvm]
    exact ⟨by decide, rfl, by decide, rfl, rfl⟩
  · obtain ⟨⟨e, th⟩, hthread⟩ := Option.isSome_iff_exists.1 pendingManager_isSome
    have hget : (managerThread pendingScript pendingCalls).get pendingManager_isSome = (e, th) :=
      Option.get_of_eq_some pendingManager_isSome hthread
    have hreadable : ∀ x, (managerThread pendingScript pendingCalls).get pendingManager_isSome = x →
        (replay pendingScript pendingCalls).readable x.1.token x.2 = true := by
      rintro x rfl
      decide
    exact ⟨e, th, hthread, (readiness_agrees scriptHost pendingScript
      (replay_reachable pendingScript pendingCalls)).2.1 e th (managerThread_found hthread)
      (hreadable _ hget) ⟨0, 0, 0, 256, 0, 8192⟩ (by decide) (by decide) (fun _ _ _ _ => rfl)
      fun _ _ _ _ => rfl⟩

end Artbox.Binder
