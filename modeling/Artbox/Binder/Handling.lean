import Artbox.Binder.Commands
import Artbox.Binder.Buffers

/-!
# What each step does to objects and buffers

Every step of the device is of one of ten kinds as far as nodes, references, claims and
receive buffers go (`Handling`), and each kind keeps their accounts (`Accounts`): the
tables agree, claims name buffers that are there, and the context manager has its node.
-/

namespace Artbox.Binder

open Slots Objects

/-! ## Endpoints come and go -/

/-- Devices with the same ids have the same live endpoints. -/
theorem SameIds.present {d d' : Device} (h : SameIds d d') (k : Nat) :
    (d'.endpointFor k).isSome = (d.endpointFor k).isSome := by
  obtain ⟨g, _, hg⟩ := h.endpointFor
  rw [hg, Option.isSome_map]

/-- An endpoint stays until it is released. -/
theorem Step.present {d d' : Device} (hi : EndpointIds d) (hs : Step d d') {l : List Event}
    (hh : d'.history = l ++ d.history) {k : Nat} (hk : .released k ∉ l)
    (h : (d.endpointFor k).isSome = true) : (d'.endpointFor k).isSome = true := by
  cases hs.endpoints with
  | same hs => exact (hs.present k).trans h
  | openEndpoint ho =>
    rw [Device.endpointFor_openEndpoint ho]
    · exact h
    · rintro rfl
      rw [hi.endpointFor_nextToken] at h
      cases h
  | admission _ _ ha =>
    unfold Device.admitThread at ha
    split at ha
    · cases ha
      exact h
    · split at ha
      · cases ha
      · cases ha
        rw [Device.isSome_endpointFor_updateEndpoint]
        · exact h
        · intro e
          rfl
  | erase heq =>
    rw [heq, Device.eraseThread, Device.endpointFor_record, Device.isSome_endpointFor_updateEndpoint]
    · exact h
    · intro e
      rfl
  | @retire token heq =>
    obtain ⟨_, _, hret, _⟩ : _ ∧ _ ∧ (d.retire token).history = _ ∧ _ := Device.retire_frame
    have hl : l = [.released token] := by
      rw [heq, hret] at hh
      exact (List.append_cancel_right (hh.symm.trans (List.singleton_append).symm))
    rw [heq, Device.endpointFor_retire, if_neg]
    · exact h
    · intro heq
      exact hk (by rw [hl, heq]; exact List.mem_singleton_self _)

/-! ## Accounts -/

/-- The context manager and its node. -/
structure Registered (d : Device) : Prop where
  zero : d.manager = 0 ↔ d.objects.managerNode = 0
  present : d.manager ≠ 0 → (d.endpointFor d.manager).isSome = true
  node : d.manager ≠ 0 → ∃ n, d.objects.nodeFor d.objects.managerNode = some n ∧
    n.owner = d.manager ∧ n.manager = true ∧ n.dead = false
  unique : ∀ id n, d.objects.nodeFor id = some n → n.manager = true → n.dead = false →
    id = d.objects.managerNode

/-- The tables agree, claims are held by buffers, and the manager is who it says. -/
structure Accounts (d : Device) : Prop where
  objects : d.objects.Inv
  buffers : ∀ c ∈ d.objects.claims, c.endpoint ≠ 0 → d.bufferState c.endpoint c.buffer ≠ none
  registered : Registered d

/-! ## Kinds of steps -/

/-- An event that is not about nodes or buffers. -/
def Event.Mute : Event → Prop
  | accepted _ | delivered _ _ _ _ | dropped _ _ _ | nodeCommand _ _ _ _ | nodeDone _ _ _
  | freed _ _ | released _ => False
  | _ => True

/-- The same claims are held. -/
def SameClaims (o o' : Objects) : Prop := ∀ c : Claim, c.endpoint ≠ 0 → (c ∈ o'.claims ↔ c ∈ o.claims)

/-- The claim is held by the buffer at `x` of endpoint `k`. -/
def Claim.At (c : Claim) (k x : Nat) : Prop := c.endpoint = k ∧ c.buffer = x

/-- The one-way parcel `w` becomes its node's active one if there is none. -/
def gate (w : Work) (n : Node) : Node :=
  if w.asyncNode ≠ 0 ∧ n.id = w.asyncNode ∧ n.asyncBuffer = 0 then
    { n with asyncBuffer := w.value.dataBuffer }
  else n

/-- The parcel `p` is made of the reservation `r`. -/
structure Parcel.Of (p : Parcel) (e : Endpoint) (th : Thread) (target : Endpoint) (r : Reservation) :
    Prop where
  source : p.source = e.token
  sourceTid : p.sourceTid = th.tid
  endpoint : p.work.endpoint = target.token
  buffer : p.work.value.dataBuffer = r.buffer.address
  sent : p.sent = r.sent
  data : p.data = r.data
  offsets : p.offsets = r.offsets
  nodes : p.nodes = r.nodes

/-- What the kinds of steps below have in common unless they say otherwise. -/
structure Beside (d d' : Device) : Prop where
  manager : d'.manager = d.manager
  present : ∀ k, (d.endpointFor k).isSome = true → (d'.endpointFor k).isSome = true

/-- What a step does to objects, buffers, queue and history. -/
inductive Handling (d d' : Device) : Prop
  | quiet {l : List Event} : Beside d d' → Quiet d.objects d'.objects →
    SameClaims d.objects d'.objects → (∀ k x, d'.bufferState k x = d.bufferState k x) →
      d'.work = d.work → d'.history = l ++ d.history → (∀ e ∈ l, e.Mute) → Handling d d'
  /-- A parcel is translated into a fresh buffer and queued. -/
  | accept {e target : Endpoint} {th : Thread} {node : Option Node} {input : TransactionData}
      {r : Reservation} {p : Parcel} {c : BC} : Beside d d' →
    Reserved d e th target node input r → r.result = 0 → p.Of e th target r →
      (∀ n, node = some n → p.work.command = .transaction ∧
        (p.work.asyncNode = 0 ∨ p.work.asyncNode = n.id)) →
      (node = none → p.work.asyncNode = 0) →
      Moves (gate p.work) d.objects d'.objects → d'.objects.references = r.objects.references →
      d'.objects.claims = r.objects.claims →
      Loaded d.objects r.objects target.token r.buffer.address →
      d.bufferState target.token r.buffer.address = none →
      (∀ k x, d'.bufferState k x =
        if k = target.token ∧ x = r.buffer.address then some false else d.bufferState k x) →
      d'.work = d.work ++ [p.work] →
      d'.history = .consumed p.source p.sourceTid c :: .accepted p :: d.history → Handling d d'
  | deliver {e : Endpoint} {th : Thread} {index : Nat} {w : Work} : Beside d d' →
    d.endpointFor e.token = some e → d.workFor e.token th = some index →
      d.work[index]? = some w → w.endpoint = e.token → d'.objects = d.objects →
      d.bufferState e.token w.value.dataBuffer = some false →
      (∀ k x, d'.bufferState k x =
        if k = e.token ∧ x = w.value.dataBuffer then some true else d.bufferState k x) →
      d'.work = d.work.eraseIdx index →
      d'.history = .delivered e.token th.tid d.work w :: d.history → Handling d d'
  | free {k x : Nat} : Beside d d' → k ≠ 0 → d.bufferState k x = some true →
    Moves (advance d.work k x d.objects.nodes) d.objects d'.objects →
      (∀ c : Claim, c.endpoint ≠ 0 → (c ∈ d'.objects.claims ↔ c ∈ d.objects.claims ∧ ¬ c.At k x)) →
      (∀ k' x', d'.bufferState k' x' = if k' = k ∧ x' = x then none else d.bufferState k' x') →
      d'.work = d.work → d'.history = .freed k x :: d.history → Handling d d'
  /-- Teardown takes parcels off the queue. -/
  | drop {token : Nat} {tid : Int} {ws : List Work} {l : List Event} : Beside d d' →
    InTeardown token tid d.history → (∀ w ∈ ws, w ∈ d.work) →
      (∀ w ∈ ws, d.bufferState w.endpoint w.value.dataBuffer = some false) →
      Quiet d.objects d'.objects →
      (∀ c : Claim, c.endpoint ≠ 0 → (c ∈ d'.objects.claims ↔ c ∈ d.objects.claims ∧
        ∀ w ∈ ws, ¬ c.At w.endpoint w.value.dataBuffer)) →
      (∀ k x, d'.bufferState k x = if ∃ w ∈ ws, w.endpoint = k ∧ w.value.dataBuffer = x then none
        else d.bufferState k x) →
      d'.work = ws.foldl List.erase d.work →
      d'.history = (ws.map (Event.dropped token tid)).reverse ++ (l ++ d.history) →
      (∀ e ∈ l, e.Mute) → Handling d d'
  /-- An endpoint becomes the context manager. -/
  | register {e : Endpoint} {n : Node} : (∀ k, (d.endpointFor k).isSome = true →
    (d'.endpointFor k).isSome = true) → d.endpointFor e.token = some e → d.manager = 0 →
      d'.manager = e.token → n.owner = e.token → n.manager = true → n.Fresh →
      ¬ Issued d.objects.nextNode n.id → n.id ≠ 0 →
      (∀ id, Issued d.objects.nextNode id → Issued d'.objects.nextNode id) →
      d'.objects.managerNode = n.id → d'.objects.Inv →
      d'.objects.references = d.objects.references → d'.objects.claims = d.objects.claims →
      (∀ id, d'.objects.nodeFor id = if id = n.id then some n else d.objects.nodeFor id) →
      (∀ k x, d'.bufferState k x = d.bufferState k x) → d'.work = d.work →
      d'.history = d.history → Handling d d'
  /-- The owner acknowledges a node command. -/
  | done {e : Endpoint} {n : Node} {increfs : Bool} : Beside d d' →
    d.endpointFor e.token = some e → d.objects.nodeFor n.id = some n → n.dead = false →
      n.owner = e.token → Moves (acked n.id increfs) d.objects d'.objects →
      SameClaims d.objects d'.objects → (∀ k x, d'.bufferState k x = d.bufferState k x) →
      d'.work = d.work → d'.history = .nodeDone e.token n.id
        (if increfs then .increfsDone else .acquireDone) :: d.history → Handling d d'
  /-- The owner is told about its node. -/
  | command {e : Endpoint} {th : Thread} {n : Node} {c : BR} : Beside d d' →
    d.endpointFor e.token = some e → d.objects.nodeFor n.id = some n → n.dead = false →
      n.owner = e.token → n.manager = false → d.objects.nodeCommand n = some c →
      Moves (told n.id c) d.objects d'.objects → SameClaims d.objects d'.objects →
      (∀ k x, d'.bufferState k x = d.bufferState k x) → d'.work = d.work →
      d'.history = .nodeCommand e.token th.tid n.id c :: d.history → Handling d d'
  /-- An endpoint is gone. -/
  | retire {token : Nat} {o : Objects} : token ≠ 0 → Retired d.objects o token →
    d'.objects = (if d.manager = token then { o with managerNode := 0 } else o) →
      d'.manager = (if d.manager = token then 0 else d.manager) →
      (∀ k, (d'.endpointFor k).isSome = true ↔ (d.endpointFor k).isSome = true ∧ k ≠ token) →
      (∀ k x, d'.bufferState k x = if k = token then none else d.bufferState k x) →
      (∀ w ∈ d.work, w.endpoint ≠ token) → d'.work = d.work →
      d'.history = .released token :: d.history → Handling d d'

/-! ## Each kind keeps the accounts -/

namespace Registered

variable {d d' : Device} {g : Node → Node}

/-- An edit that leaves alone who is a manager and who is dead. -/
theorem moves (h : Registered d) (hm : Moves g d.objects d'.objects)
    (hg : ∀ n, (g n).owner = n.owner ∧ (g n).manager = n.manager ∧ (g n).dead = n.dead)
    (hb : Beside d d') : Registered d' := by
  refine ⟨?_, ?_, ?_, ?_⟩
  · rw [hb.manager, hm.managerNode]
    exact h.zero
  · intro h0
    rw [hb.manager] at h0 ⊢
    exact hb.present _ (h.present h0)
  · intro h0
    rw [hb.manager] at h0 ⊢
    rw [hm.managerNode]
    obtain ⟨n, hn, how, hman, hdead⟩ := h.node h0
    obtain ⟨h1, h2, h3⟩ := hg n
    obtain ⟨n', hn', hs⟩ := hm.kept.stays _ n hn (h2.trans hman) (h3.trans hdead)
    exact ⟨n', hn', hs.owner.trans (h1.trans how), hs.manager.trans (h2.trans hman),
      hs.dead.trans (h3.trans hdead)⟩
  · intro id n' hn' hman hdead
    rw [hm.managerNode]
    rcases hm.kept.nodes id n' hn' with ⟨n, hn, hs⟩ | ⟨_, _, hman'⟩
    · obtain ⟨_, h2, h3⟩ := hg n
      exact h.unique id n hn (h2.symm.trans (hs.manager.symm.trans hman))
        (h3.symm.trans (hs.dead.symm.trans hdead))
    · rw [hman'] at hman
      cases hman

/-- A device without a manager may register one with a fresh node of its own. -/
theorem register (h : Registered d) (hpres : ∀ k, (d.endpointFor k).isSome = true →
    (d'.endpointFor k).isSome = true) {e : Endpoint} {n : Node} (he : d.endpointFor e.token = some e)
    (h0 : d.manager = 0) (hm : d'.manager = e.token) (how : n.owner = e.token)
    (hman : n.manager = true) (hf : n.Fresh) (hid : n.id ≠ 0) (hmn : d'.objects.managerNode = n.id)
    (hfor : ∀ id, d'.objects.nodeFor id = if id = n.id then some n else d.objects.nodeFor id) :
    Registered d' := by
  have hk0 : e.token ≠ 0 := (Device.endpointFor_spec he).2.2
  refine ⟨?_, fun _ => ?_, fun _ => ⟨n, ?_, how.trans hm.symm, hman, hf.dead⟩, fun id x hx hxm hxd => ?_⟩
  · rw [hm, hmn]
    exact iff_of_false hk0 hid
  · rw [hm]
    exact hpres _ (by rw [he]; rfl)
  · rw [hmn, hfor, if_pos rfl]
  · rw [hmn]
    rw [hfor] at hx
    split at hx
    next heq => exact heq
    next =>
      -- there was no live manager before
      have := h.unique id x hx hxm hxd
      rw [h.zero.1 h0] at this
      exact absurd this (nodeFor_spec hx).2.2

/-- An endpoint retires without leaving a manager behind that is gone. -/
theorem retire (h : Registered d) {token : Nat} {o : Objects} (hr : Retired d.objects o token)
    (ho : d'.objects = if d.manager = token then { o with managerNode := 0 } else o)
    (hm : d'.manager = if d.manager = token then 0 else d.manager)
    (hpres : ∀ k, (d'.endpointFor k).isSome = true ↔ (d.endpointFor k).isSome = true ∧ k ≠ token) :
    Registered d' := by
  have hfor : ∀ id, d'.objects.nodeFor id = o.nodeFor id := by
    intro id
    rw [ho]
    split <;> rfl
  -- a node that is left as manager and alive was that before, and of another endpoint
  have hold : ∀ id n', o.nodeFor id = some n' → n'.manager = true → n'.dead = false →
      ∃ n, d.objects.nodeFor id = some n ∧ n.owner ≠ token ∧ n.manager = true ∧ n.dead = false := by
    intro id n' hn' hman hdead
    rw [hr.nodes, Option.filter_eq_some_iff] at hn'
    obtain ⟨n, hn, rfl⟩ := Option.map_eq_some_iff.1 hn'.1
    obtain ⟨_, hid, h0⟩ := nodeFor_spec hn
    unfold orphan at hman hdead
    split at hdead
    · cases hdead
    next hne =>
      rw [if_neg hne] at hman
      exact ⟨n, hn, fun how => hne (by simp [hid, h0, how]), hman, hdead⟩
  by_cases hk : d.manager = token
  · rw [if_pos hk] at ho hm
    refine ⟨by rw [hm, ho], fun h0 => absurd hm h0, fun h0 => absurd hm h0, fun id n' hn' hman hdead => ?_⟩
    rw [hfor] at hn'
    obtain ⟨n, hn, hne, hman, hdead⟩ := hold id n' hn' hman hdead
    have hid := h.unique id n hn hman hdead
    have hm0 : d.manager ≠ 0 := fun h0 => (nodeFor_spec hn).2.2 (hid.trans (h.zero.1 h0))
    obtain ⟨n₀, hn₀, how, _⟩ := h.node hm0
    rw [← hid, hn] at hn₀
    cases hn₀
    exact absurd (how.trans hk) hne
  · rw [if_neg hk] at ho hm
    have hmn : d'.objects.managerNode = d.objects.managerNode := by rw [ho, hr.managerNode]
    refine ⟨?_, fun h0 => ?_, fun h0 => ?_, fun id n' hn' hman hdead => ?_⟩
    · rw [hm, hmn]
      exact h.zero
    · rw [hm] at h0 ⊢
      exact (hpres _).2 ⟨h.present h0, hk⟩
    · rw [hm] at h0 ⊢
      obtain ⟨n, hn, how, hman, hdead⟩ := h.node h0
      have horphan : orphan token n = n := by
        unfold orphan
        rw [if_neg]
        simp [how, hk]
      obtain ⟨n', hn', hs⟩ := hr.moves.kept.stays _ n hn (by rw [horphan, hman])
        (by rw [horphan, hdead])
      rw [horphan] at hs
      exact ⟨n', by rw [hfor, hmn, hn'], hs.owner.trans how, hs.manager.trans hman, hs.dead.trans hdead⟩
    · rw [hmn]
      rw [hfor] at hn'
      obtain ⟨n, hn, _, hman, hdead⟩ := hold id n' hn' hman hdead
      exact h.unique id n hn hman hdead

end Registered

/-! The edits leave alone whose node it is. -/

/-- A parcel that is not one-way opens no gate. -/
theorem gate_of_zero {w : Work} (h : w.asyncNode = 0) : gate w = id := by
  funext n
  unfold gate
  rw [if_neg fun hg => hg.1 h]
  rfl

/-- Activating a one-way parcel is `gate` on every node. -/
theorem update_gate {w : Work} (h : w.asyncNode ≠ 0) (nodes : List Node) :
    update (fun n => n.id == w.asyncNode && n.asyncBuffer == 0)
      (fun n => { n with asyncBuffer := w.value.dataBuffer }) nodes = nodes.map (gate w) := by
  unfold update gate
  refine List.map_congr_left fun n _ => ?_
  by_cases hn : n.id = w.asyncNode ∧ n.asyncBuffer = 0
  · rw [if_pos (by simpa using hn), if_pos ⟨h, hn⟩]
  · rw [if_neg (by simpa using hn), if_neg fun hg => hn hg.2]

/-- A gate changes nothing that the owner of a node was told. -/
theorem gate_like (w : Work) (n : Node) : n.Like (gate w n) := by
  unfold gate
  split <;> exact ⟨rfl, rfl, rfl, rfl, rfl, rfl, rfl, rfl, rfl, rfl⟩

/-- An edit between alike nodes keeps the owner and whether the node is the manager's or dead. -/
theorem like_frame {g : Node → Node} (hg : ∀ n : Node, n.Like (g n)) (n : Node) :
    (g n).owner = n.owner ∧ (g n).manager = n.manager ∧ (g n).dead = n.dead :=
  ⟨(hg n).owner, (hg n).manager, (hg n).dead⟩

theorem id_frame (n : Node) :
    (id n).owner = n.owner ∧ (id n).manager = n.manager ∧ (id n).dead = n.dead :=
  like_frame (g := id) .refl n

/-- An acknowledged count keeps the owner and whether the node is the manager's or dead. -/
theorem acked_frame (id : Nat) (increfs : Bool) (n : Node) : (acked id increfs n).owner = n.owner ∧
    (acked id increfs n).manager = n.manager ∧ (acked id increfs n).dead = n.dead := by
  unfold acked
  split
  · split <;> exact ⟨rfl, rfl, rfl⟩
  · exact ⟨rfl, rfl, rfl⟩

/-- A count that the owner is told of keeps the owner and whether the node is the manager's or dead. -/
theorem told_frame (id : Nat) (c : BR) (n : Node) : (told id c n).owner = n.owner ∧
    (told id c n).manager = n.manager ∧ (told id c n).dead = n.dead := by
  unfold told
  split
  · cases c <;> exact ⟨rfl, rfl, rfl⟩
  · exact ⟨rfl, rfl, rfl⟩

/-- Every kind of step keeps the accounts. -/
theorem Accounts.handled {d d' : Device} (h : Accounts d) (hd : Handling d d') : Accounts d' := by
  cases hd with
  | quiet hb hq hc hs =>
    refine ⟨hq.inv, fun c hmem h0 => ?_, h.registered.moves hq (fun _ => ⟨rfl, rfl, rfl⟩) hb⟩
    rw [hs]
    exact h.buffers c ((hc c h0).1 hmem) h0
  | accept hb hr h0 hp _ _ hm hrefs hc hl hnone hs =>
    refine ⟨hm.inv, fun c hmem h0 => ?_, h.registered.moves hm (fun n => ?_) hb⟩
    · rw [hs]
      split
      · exact fun h => nomatch h
      next hne =>
        rw [hc] at hmem
        exact h.buffers c ((hl.claims c hmem h0).resolve_right hne) h0
    · exact ⟨(gate_like _ n).owner, (gate_like _ n).manager, (gate_like _ n).dead⟩
  | deliver hb _ _ _ _ ho _ hs =>
    refine ⟨ho ▸ h.objects, fun c hmem h0 => ?_, ?_⟩
    · rw [hs]
      split
      · exact fun h => nomatch h
      · rw [ho] at hmem
        exact h.buffers c hmem h0
    · have hq : Quiet d.objects d'.objects := ho.symm ▸ h.objects.quiet
      exact h.registered.moves hq (fun _ => ⟨rfl, rfl, rfl⟩) hb
  | @free k x hb _ _ hm hc hs =>
    refine ⟨hm.inv, fun c hmem h0 => ?_, h.registered.moves hm (fun n => ?_) hb⟩
    · obtain ⟨hmem, hne⟩ := (hc c h0).1 hmem
      rw [hs, if_neg]
      · exact h.buffers c hmem h0
      · exact hne
    · have hl := advance_like d.work k x d.objects.nodes n
      exact ⟨hl.owner, hl.manager, hl.dead⟩
  | drop hb _ _ _ hq hc hs =>
    refine ⟨hq.inv, fun c hmem h0 => ?_, h.registered.moves hq (fun _ => ⟨rfl, rfl, rfl⟩) hb⟩
    obtain ⟨hmem, hne⟩ := (hc c h0).1 hmem
    rw [hs, if_neg]
    · exact h.buffers c hmem h0
    · rintro ⟨w, hw, he, hx⟩
      exact hne w hw ⟨he.symm, hx.symm⟩
  | register hpres he h0 hm how hman hf _ hid _ hmn hinv _ hc hfor hs =>
    refine ⟨hinv, fun c hmem h0 => ?_, h.registered.register hpres he h0 hm how hman hf hid hmn hfor⟩
    rw [hs]
    rw [hc] at hmem
    exact h.buffers c hmem h0
  | done hb _ _ _ _ hm hc hs =>
    refine ⟨hm.inv, fun c hmem h0 => ?_, h.registered.moves hm (acked_frame _ _) hb⟩
    rw [hs]
    exact h.buffers c ((hc c h0).1 hmem) h0
  | command hb _ _ _ _ _ _ hm hc hs =>
    refine ⟨hm.inv, fun c hmem h0 => ?_, h.registered.moves hm (told_frame _ _) hb⟩
    rw [hs]
    exact h.buffers c ((hc c h0).1 hmem) h0
  | @retire token o _ hr ho hm hpres hs =>
    have hinv : d'.objects.Inv ∧ d'.objects.claims = o.claims := by
      rw [ho]
      split
      · exact ⟨hr.inv.congr rfl rfl rfl rfl, rfl⟩
      · exact ⟨hr.inv, rfl⟩
    refine ⟨hinv.1, fun c hmem h0 => ?_, h.registered.retire hr ho hm hpres⟩
    rw [hinv.2, hr.claims] at hmem
    rcases mem_update_const.1 hmem with ⟨rfl, _⟩ | ⟨hmem, hp⟩
    · exact absurd rfl h0
    · have hne : c.endpoint ≠ token := by simpa [claimMatches] using hp
      rw [hs, if_neg hne]
      exact h.buffers c hmem h0

/-! ## Reservations -/

section Reservations

variable {o o' : Objects} {target buffer : Nat}

/-- The hold on the node that a call is addressed to. -/
theorem Objects.Inv.claimTarget {b : Nat} (h : o.Inv) (hk : target ≠ 0) {node : Option Node}
    (hnode : ∀ n, node = some n → o.nodeFor n.id = some n ∧ n.owner = target) :
    Loaded o (claimTarget o target b node).2 target b ∧
      ((claimTarget o target b node).1 = 0 → (claimTarget o target b node).2.Inv) := by
  cases node with
  | none => exact ⟨.refl h.toSound, fun _ => h⟩
  | some n =>
    obtain ⟨hn, how⟩ := hnode n rfl
    unfold Binder.claimTarget
    simp only
    split
    · exact ⟨.refl h.toSound, fun _ => h⟩
    · have hrem : false = (n.owner != target) := by simp [how]
      split
      next o₁ heq =>
        obtain ⟨_, rfl⟩ | ⟨_, hno, _⟩ := h.toSound.addClaim hk hn hrem heq
        · exact ⟨.refl h.toSound, fun _ => h⟩
        · cases hno
      next handle o₁ heq =>
        obtain ⟨hno, _⟩ | ⟨_, _, hadd⟩ := h.toSound.addClaim hk hn hrem heq
        · cases hno
        · refine ⟨hadd.loaded, fun _ => ⟨hadd.sound, fun x hx h0 => ?_⟩⟩
          rw [hadd.nodes] at hx
          exact hadd.counts.inUse (h.collected x hx h0)

/-- Claims that are taken back leave the tables as they were, but for new nodes. -/
theorem Objects.Loaded.takenBack (hl : Loaded o o' target buffer) (hk : target ≠ 0)
    (hb : buffer ≠ 0) (hfresh : ∀ c ∈ o.claims, c.endpoint ≠ 0 → ¬ c.At target buffer) :
    Quiet o (o'.releaseClaims target buffer) ∧ SameClaims o (o'.releaseClaims target buffer) := by
  obtain ⟨hinv, hkept, hshr, hman, hclaims⟩ := hl.sound.releaseClaims (b := buffer) hk
  refine ⟨⟨hinv, hl.kept.trans hkept, hl.grows.stable hl.sound.tables hshr,
    hman.trans hl.managerNode⟩, fun c h0 => ?_⟩
  rw [hclaims, mem_update_const]
  have hmatch : claimMatches target buffer c = false ↔ ¬ c.At target buffer := by
    simp [claimMatches, Claim.At, hb]
  constructor
  · rintro (⟨rfl, _⟩ | ⟨hc, hp⟩)
    · exact absurd rfl h0
    · exact (hl.claims c hc h0).resolve_right (hmatch.1 hp)
  · intro hc
    exact .inr ⟨hl.counts.claims c hc h0, hmatch.2 (hfresh c hc h0)⟩

end Reservations

section Reserved

variable {d : Device} {e target : Endpoint} {th : Thread} {node : Option Node}
  {input : TransactionData} {r : Reservation}

/-- Claim and translation of a parcel, failed or not. -/
theorem loaded_translate {o : Objects} (h : o.Inv) (hk : target.token ≠ 0)
    (hnode : ∀ n, node = some n → o.nodeFor n.id = some n ∧ n.owner = target.token)
    {held : Int × Objects} {t : Translation} {data : List UInt8} {offsets : List Nat} {source : Nat}
    {tid : Int} {buffer : Nat} (hheld : claimTarget o target.token buffer node = held)
    (ht : t = if held.1 = 0 then
      Objects.translate source tid target.token buffer offsets held.2 data
        else ⟨held.1, held.2, data, []⟩) :
    Loaded o t.objects target.token buffer ∧ (t.result = 0 → t.objects.Inv) := by
  obtain ⟨hl, hinv⟩ := h.claimTarget (b := buffer) hk hnode
  rw [hheld] at hl hinv
  split at ht
  next h0 =>
    obtain ⟨hl', hinv'⟩ := (hinv h0).translate (k := source) (i := tid) (b := buffer) hk
      offsets data
    rw [ht]
    exact ⟨hl.trans hl', hinv'⟩
  next h0 =>
    rw [ht]
    exact ⟨hl, fun h => absurd h h0⟩

/-- A reservation that failed. -/
theorem Reserved.failed (ha : Accounts d) (hr : Reserved d e th target node input r)
    (h0 : r.result ≠ 0) : Quiet d.objects r.objects ∧ SameClaims d.objects r.objects := by
  obtain ⟨ω, host, w, w', hres⟩ := hr.result
  have hk := (Device.endpointFor_spec hr.targetFound).2.2
  have hsame : Quiet d.objects d.objects ∧ SameClaims d.objects d.objects :=
    ⟨ha.objects.quiet, fun _ _ => .rfl⟩
  rcases reservePayload_cases hres with ⟨_, ho, _⟩ | ⟨arena, data, offsets, harena, hd, ho, hc, rfl⟩
  · rw [ho]
    exact hsame
  · rcases storePayload_cases d.objects e th.tid target arena input node hd ho hc with
      ⟨c, _, hr'⟩ | ⟨b, reserved, held, t, hres', hheld, ht, ⟨_, hr'⟩ | ⟨_, hr'⟩⟩
    · rw [hr']
      exact hsame
    · rw [hr']
      obtain ⟨hl, _⟩ := loaded_translate ha.objects hk hr.nodeFound hheld ht
      obtain ⟨_, _, _, _, hpos, _⟩ := Arena.reserve_spec hres'
      refine hl.takenBack hk (Nat.ne_of_gt hpos) fun c hmem hc0 hat => ?_
      -- no claim is held by a buffer that was not there
      have hbuf := ha.buffers c hmem hc0
      rw [hat.1, hat.2] at hbuf
      refine hbuf ?_
      rw [Device.bufferState, Device.arenaFor_of hr.targetFound]
      cases harena' : target.arena with
      | none => rfl
      | some a =>
        have : receiveArena target = some a := by simp [receiveArena, harena']
        rw [harena] at this
        cases this
        exact (Arena.stateAt_reserve hres').1
    · rw [hr'] at h0
      exact absurd rfl h0

/-- A reservation that succeeded. -/
theorem Reserved.succeeded (ha : Accounts d) (hr : Reserved d e th target node input r)
    (h0 : r.result = 0) :
    r.objects.Inv ∧ Loaded d.objects r.objects target.token r.buffer.address := by
  obtain ⟨ω, host, w, w', hres⟩ := hr.result
  have hk := (Device.endpointFor_spec hr.targetFound).2.2
  obtain ⟨arena, held, hacc⟩ := reservePayload_ok hres h0
  have ht : (⟨0, r.objects, r.data, r.nodes⟩ : Translation) = if (0 : Int) = 0 then
      Objects.translate e.token th.tid target.token r.buffer.address (offsetTable r.offsets) held
        r.sent else ⟨0, held, r.sent, []⟩ := by
    rw [if_pos rfl, hacc.translated]
  obtain ⟨hl, hinv⟩ := loaded_translate ha.objects hk hr.nodeFound hacc.claimed ht
  exact ⟨hinv rfl, hl⟩

end Reserved

/-! ## Each step is of one kind -/

section Kinds

variable {d d' : Device} {e : Endpoint} {th : Thread}

theorem SameClaims.refl (o : Objects) : SameClaims o o := fun _ _ => .rfl

/-- A step that touches no table and no arena. -/
theorem Handling.aside (ha : Accounts d) (hb : Beside d d') (ho : d'.objects = d.objects)
    (hs : ∀ k, d'.arenaFor k = d.arenaFor k) (hw : d'.work = d.work) {l : List Event}
    (hh : d'.history = l ++ d.history) (hl : ∀ e ∈ l, e.Mute) : Handling d d' :=
  .quiet hb (ho ▸ ha.objects.quiet) (ho ▸ .refl _) (fun k => Device.bufferState_congr (hs k)) hw hh hl

/-- A node edit that concerns the one-way buffer of the parcel's node. -/
theorem Reserved.moves {target : Endpoint} {node : Option Node} {input : TransactionData}
    {r : Reservation} (ha : Accounts d) (hr : Reserved d e th target node input r)
    (h0 : r.result = 0) {w : Work}
    (hw : w.asyncNode ≠ 0 → ∃ n, node = some n ∧ w.asyncNode = n.id) :
    Moves (gate w) d.objects { r.objects with nodes := r.objects.nodes.map (gate w) } := by
  obtain ⟨hinv, hl⟩ := hr.succeeded ha h0
  have hblank : gate w {} = {} := by
    unfold gate
    rw [if_neg]
    rintro ⟨h1, h2, _⟩
    exact h1 h2.symm
  have hm := hinv.schedule (fun n _ => gate_like w n) hblank
  refine ⟨hm.inv, hl.kept.edit hm.kept (fun n hn => ?_) (fun n n' hs => ?_) (gate_like w),
    hl.grows.stable hinv.tables (.refl _), hl.managerNode⟩
  · unfold gate
    rw [if_neg]
    rintro ⟨h1, h2, _⟩
    -- the addressed node is not new
    obtain ⟨x, hx, hwx⟩ := hw h1
    obtain ⟨hmem, _, hx0⟩ := nodeFor_spec (hr.nodeFound x hx).1
    exact hn (by rw [h2, hwx]; exact ha.objects.nodes.issued x hmem hx0)
  · unfold gate
    by_cases hg : w.asyncNode ≠ 0 ∧ n.id = w.asyncNode ∧ n.asyncBuffer = 0
    · rw [if_pos hg, if_pos ⟨hg.1, hs.id.trans hg.2.1, hs.asyncBuffer.trans hg.2.2⟩]
      exact ⟨⟨hs.id, hs.owner, hs.pointer, hs.cookie, hs.manager, hs.dead, hs.hasStrong, hs.hasWeak,
        hs.pendingStrong, hs.pendingWeak⟩, rfl⟩
    · rw [if_neg hg, if_neg]
      · exact hs
      · rw [hs.id, hs.asyncBuffer]
        exact hg

/-- An accepted parcel. -/
theorem Handling.of_accept {target : Endpoint} {node : Option Node} {input : TransactionData}
    {r : Reservation} {p : Parcel} {c : BC} (ha : Accounts d)
    (hr : Reserved d e th target node input r) (h0 : r.result = 0) (hb : Beside d d')
    (hp : p.Of e th target r)
    (hw : p.work.asyncNode ≠ 0 → ∃ n, node = some n ∧ p.work.asyncNode = n.id)
    (hc : ∀ n, node = some n → p.work.command = .transaction)
    (ho : d'.objects = { r.objects with nodes := r.objects.nodes.map (gate p.work) })
    (hs : ∀ k, d'.arenaFor k = (d.storeReservation target.token r).arenaFor k)
    (hwork : d'.work = d.work ++ [p.work])
    (hh : d'.history = .consumed p.source p.sourceTid c :: .accepted p :: d.history) :
    Handling d d' := by
  obtain ⟨ω, host, w, w', hres⟩ := hr.result
  obtain ⟨arena, held, hacc⟩ := reservePayload_ok hres h0
  obtain ⟨hnone, hbuf⟩ := Device.bufferState_reserve hr.targetFound hacc
  have hm := hr.moves ha h0 hw
  refine .accept hb hr h0 hp (fun n hn => ⟨hc n hn, ?_⟩) (fun hn => ?_) (ho ▸ hm) (by rw [ho])
    (by rw [ho]) (hr.succeeded ha h0).2 hnone (fun k x => ?_) hwork hh
  · by_cases hz : p.work.asyncNode = 0
    · exact .inl hz
    · obtain ⟨x, hx, heq⟩ := hw hz
      rw [hn] at hx
      cases hx
      exact .inr heq
  · by_contra hz
    obtain ⟨x, hx, _⟩ := hw hz
    rw [hn] at hx
    cases hx
  · rw [Device.bufferState_congr (hs k), hbuf]

/-- A node command goes to the owner of a live node of its own. -/
theorem Device.nodeEventFor_spec {token : Nat} {polling : Bool} {n : Node} {c : BR}
    (h : d.nodeEventFor token th polling = some (n, c)) :
    n ∈ d.objects.nodes ∧ n.id ≠ 0 ∧ n.owner = token ∧ n.dead = false ∧ n.manager = false ∧
      d.objects.nodeCommand n = some c := by
  obtain ⟨x, hx, heq⟩ := List.exists_of_findSome?_eq_some h
  split at heq
  next hq =>
    obtain ⟨c', hc', hpair⟩ := Option.map_eq_some_iff.1 heq
    cases hpair
    simp only [Bool.and_eq_true, bne_iff_ne, beq_iff_eq, Bool.not_eq_true'] at hq
    exact ⟨hx, hq.1.1.1.1, hq.1.1.1.2, hq.1.1.2, hq.1.2, hc'⟩
  next => cases heq

/-- A delivery accounts for the record it hands out. -/
theorem Handling.of_deliver (ha : Accounts d) (hp : ParcelInv d) (hc : CallInv d)
    (he : d.endpointFor e.token = some e) {record : Record}
    (hr : d.nextRecord e.token th = some record)
    (hpres : ∀ k, (d.endpointFor k).isSome = true →
      ((d.deliver e th record).2.endpointFor k).isSome = true) :
    Handling d (d.deliver e th record).2 := by
  rcases Device.nextRecord_cases hr with ⟨word, herr, rfl⟩ | ⟨_, n, c, hn, rfl⟩ | ⟨herr, hcomp, rfl⟩ |
    ⟨_, _, index, w, hfor, hw, rfl⟩ | ⟨_, slot, death, _, _, rfl⟩
  · refine .aside (l := [.returned e.token th.tid word]) ha ⟨rfl, hpres⟩ rfl (fun k => ?_) rfl rfl
      (by simp [Event.Mute])
    exact Device.arenaFor_updateThread _
  · obtain ⟨hmem, h0, how, hdead, hman, hcmd⟩ := Device.nodeEventFor_spec hn
    have hfor := ha.objects.nodes.nodeFor hmem h0
    exact .command ⟨rfl, hpres⟩ he hfor hdead how hman hcmd (ha.objects.moves_commanded hfor c)
      (.refl _) (fun _ _ => rfl) rfl rfl
  · refine .aside (l := [.returned e.token th.tid .transactionComplete]) ha ⟨rfl, hpres⟩ rfl
      (fun k => ?_) rfl rfl (by simp [Event.Mute])
    exact Device.arenaFor_updateThread _
  · obtain ⟨hmem, hready, hdel⟩ := hp.delivered hc he hfor hw
    have hwe := (CallInv.ready_thread hready).1
    obtain ⟨_, _, _, hst⟩ := hp.stored w hmem
    have hbuf := hst.bufferState
    rw [hwe] at hbuf
    simp only [Device.deliver] at hpres ⊢
    rw [hdel] at hpres ⊢
    refine .deliver ⟨by simp, hpres⟩ he hfor hw hwe (by simp) hbuf (fun k x => ?_) rfl (by simp)
    have hcongr := Device.bufferState_updateArena (d := d) (j := e.token)
      (f := fun a => (a.publish w.value.dataBuffer).2) (y := w.value.dataBuffer) (b := some true)
      (fun a harena x => Arena.stateAt_publish (by
        rw [Device.bufferState, harena] at hbuf
        exact hbuf) x) (.inl (by rw [hbuf]; simp)) k x
    rw [← hcongr]
    exact Device.bufferState_congr (Device.arenaFor_serve _ _ _ _) x
  · exact .quiet (l := [.deathReturned e.token th.tid slot death.returnWord death.cookie]) ⟨rfl, hpres⟩
      (ha.objects.quiet.setDeaths _) (.refl _) (fun _ _ => rfl) rfl rfl (by simp [Event.Mute])

/-- A freed buffer takes its claims along and nothing else. -/
theorem Handling.of_free (ha : Accounts d) (he : d.endpointFor e.token = some e) (buffer : Nat)
    (hpres : ∀ k, (d.endpointFor k).isSome = true →
      ((d.freePacket e buffer).2.endpointFor k).isSome = true) :
    Handling d (d.freePacket e buffer).2 := by
  have hk := (Device.endpointFor_spec he).2.2
  have hself : Handling d d := .aside (l := []) ha ⟨rfl, fun _ h => h⟩ rfl (fun _ => rfl) rfl rfl
    (by simp)
  unfold Device.freePacket at hpres ⊢
  split at hpres
  · exact hself
  next arena harena =>
    split at hpres
    next hfail =>
      rw [if_pos hfail]
      exact hself
    next hok =>
      rw [if_neg hok]
      have hrel : (arena.removeBuffer buffer true).1 = 0 := by
        have : (arena.release buffer).1 = 0 := by omega
        exact this
      have hbuf : d.bufferState e.token buffer = some true := by
        rw [Device.bufferState, Device.arenaFor_of he, harena]
        rcases Arena.removeBuffer_cases arena buffer true with ⟨_, h⟩ | ⟨h, _⟩
        · exact h
        · exact absurd hrel h
      have hpos := Nat.ne_of_gt (Device.pos_of_bufferState hbuf)
      have hm := ha.objects.advanceAsync d.work buffer hk
      obtain ⟨hinv, hkept, hshr, hman, hclaims⟩ := hm.inv.toSound.releaseClaims (b := buffer) hk
      have hstable : Stable d.objects _ :=
        Shrinks.stable (o := d.objects) ha.objects.tables hshr
      refine .free ⟨rfl, hpres⟩ hk hbuf ⟨hinv, hm.kept.trans hkept, hstable, hman⟩ (fun c h0 => ?_)
        (fun k' x' => ?_) rfl rfl
      · have hmem : c ∈ update (claimMatches e.token buffer) (fun _ => {}) d.objects.claims ↔
            c ∈ d.objects.claims ∧ ¬ c.At e.token buffer := by
          have hmatch : claimMatches e.token buffer c = false ↔ ¬ c.At e.token buffer := by
            simp [claimMatches, Claim.At, hpos]
          rw [mem_update_const, hmatch]
          refine or_iff_right ?_
          rintro ⟨rfl, _⟩
          exact h0 rfl
        exact (iff_of_eq (congrArg (c ∈ ·) hclaims)).trans hmem
      · have hcongr := Device.bufferState_updateArena (d := d) (j := e.token)
          (f := fun a => (a.release buffer).2) (y := buffer) (b := none) (fun a harena' x => by
            rw [Device.arenaFor_of he, harena] at harena'
            cases harena'
            refine Arena.stateAt_removeBuffer ?_ x
            rw [Device.bufferState, Device.arenaFor_of he, harena] at hbuf
            exact hbuf) (.inr rfl) k' x'
        rw [← hcongr]
        rfl

/-- What dropping parcels does to objects and buffers. -/
structure Dropped (d d' : Device) (ws : List Work) : Prop where
  inv : d'.objects.Inv
  kept : Kept d.objects d'.objects
  shrinks : Shrinks d.objects d'.objects
  managerNode : d'.objects.managerNode = d.objects.managerNode
  manager : d'.manager = d.manager
  claims : ∀ c : Claim, c.endpoint ≠ 0 → (c ∈ d'.objects.claims ↔ c ∈ d.objects.claims ∧
    ∀ w ∈ ws, ¬ c.At w.endpoint w.value.dataBuffer)
  buffers : ∀ k x, d'.bufferState k x =
    if ∃ w ∈ ws, w.endpoint = k ∧ w.value.dataBuffer = x then none else d.bufferState k x

/-- A buffer belongs to a live endpoint. -/
theorem Device.bufferState_endpoint {k x : Nat} {b : Bool} (h : d.bufferState k x = some b) : k ≠ 0 := by
  obtain ⟨a, ha, _⟩ := Option.bind_eq_some_iff.1 h
  obtain ⟨e, he, _⟩ := Option.bind_eq_some_iff.1 ha
  exact (Device.endpointFor_spec he).2.2

/-- Dropping one parcel gives its buffer and its claims back. -/
theorem Dropped.one {n : Nat} {i : Int} {w : Work} (h : d.objects.Inv)
    (hw : d.bufferState w.endpoint w.value.dataBuffer = some false) :
    Dropped d (Device.dropWork n i d w) [w] := by
  have hk := Device.bufferState_endpoint hw
  have hpos := Nat.ne_of_gt (Device.pos_of_bufferState hw)
  obtain ⟨hinv, hkept, hshr, hman, hclaims⟩ :=
    h.toSound.releaseClaims (b := w.value.dataBuffer) hk
  refine ⟨hinv, hkept, hshr, hman, rfl, fun c h0 => ?_, fun k x => ?_⟩
  · rw [Device.dropWork_objects, hclaims, mem_update_const]
    have hmatch : claimMatches w.endpoint w.value.dataBuffer c = false ↔
        ¬ c.At w.endpoint w.value.dataBuffer := by
      simp [claimMatches, Claim.At, hpos]
    rw [hmatch]
    simp only [List.mem_singleton, forall_eq]
    refine or_iff_right ?_
    rintro ⟨rfl, _⟩
    exact h0 rfl
  · rw [Device.bufferState_dropWork hw]
    simp only [List.mem_singleton, exists_eq_left]
    exact if_congr ⟨fun h => ⟨h.1.symm, h.2.symm⟩, fun h => ⟨h.1.symm, h.2.symm⟩⟩ rfl rfl

/-- Dropping parcels with different buffers gives all of them back. -/
theorem Dropped.fold {token : Nat} {tid : Int} {ws : List Work} (h : d.objects.Inv)
    (hbuf : ∀ w ∈ ws, d.bufferState w.endpoint w.value.dataBuffer = some false)
    (hne : ws.Pairwise fun w w' =>
      ¬ (w.endpoint = w'.endpoint ∧ w.value.dataBuffer = w'.value.dataBuffer)) :
    Dropped d (ws.foldl (Device.dropWork token tid) d) ws := by
  induction ws generalizing d with
  | nil =>
    exact ⟨h, .of_nodes rfl rfl, .refl _, rfl, rfl, fun c _ => by simp, fun k x => by simp⟩
  | cons w ws ih =>
    obtain ⟨hw, hne⟩ := List.pairwise_cons.1 hne
    have h1 := Dropped.one (n := token) (i := tid) h (hbuf w List.mem_cons_self)
    have h2 := ih h1.inv (fun w' hw' => by
      rw [h1.buffers, if_neg]
      · exact hbuf w' (List.mem_cons_of_mem _ hw')
      · simpa using hw w' hw') hne
    refine ⟨h2.inv, h1.kept.trans h2.kept, h1.shrinks.trans h2.shrinks,
      h2.managerNode.trans h1.managerNode, h2.manager.trans h1.manager, fun c h0 => ?_, fun k x => ?_⟩
    · rw [List.foldl_cons, h2.claims c h0, h1.claims c h0, and_assoc, List.forall_mem_cons]
      simp
    · rw [List.foldl_cons, h2.buffers, h1.buffers]
      by_cases hk : ∃ w ∈ ws, w.endpoint = k ∧ w.value.dataBuffer = x
      · rw [if_pos hk, if_pos]
        obtain ⟨w', hw', heq⟩ := hk
        exact ⟨w', List.mem_cons_of_mem _ hw', heq⟩
      · rw [if_neg hk]
        refine if_congr ?_ rfl rfl
        simp [hk]

/-- Registering the context manager adds at most its node. -/
theorem Handling.of_setContextMgr (ha : Accounts d) (he : d.endpointFor e.token = some e)
    (flags pointer cookie : Nat) (hpres : ∀ k, (d.endpointFor k).isSome = true →
      ((d.setContextMgr e flags pointer cookie).2.endpointFor k).isSome = true) :
    Handling d (d.setContextMgr e flags pointer cookie).2 := by
  have hself : Handling d d := .aside (l := []) ha ⟨rfl, fun _ h => h⟩ rfl (fun _ => rfl) rfl rfl
    (by simp)
  unfold Device.setContextMgr at hpres ⊢
  split
  · exact hself
  next h0 =>
    rw [if_neg h0] at hpres
    split
    · exact hself
    next hu =>
      rw [if_neg hu] at hpres
      split
      · exact hself
      next hown =>
        rw [if_neg hown] at hpres
        split
        · exact hself
        next n o hc =>
          rw [hc] at hpres
          obtain ⟨hid, hn0, how, _, _, hman, hf, nodes, _, heq⟩ := createNode_spec hc
          obtain ⟨hinv, hrefs, hclaims, hfor⟩ := ha.objects.createManager hc
          refine .register hpres he (by omega) rfl how hman hf (fun hi => hi.ne hn0 hid) (hid ▸ hn0)
            (fun id hi => ?_) rfl hinv hrefs hclaims hfor (fun _ _ => rfl) rfl rfl
          rw [heq]
          exact Issued.succ ha.objects.nodes.bounded hn0 (.inl hi)

/-- What the retirement of an endpoint leaves of the objects. -/
theorem Device.retire_objects (d : Device) (token : Nat) : (d.retire token).objects =
    (if d.manager = token then
      { (d.objects.releaseReferences token).releaseClaims token with managerNode := 0 }
    else (d.objects.releaseReferences token).releaseClaims token) ∧
      (d.retire token).manager = if d.manager = token then 0 else d.manager := by
  unfold Device.retire
  by_cases hk : d.manager = token
  · simp [hk]
  · simp [hk]

/-- An endpoint without parcels retires with its references and claims. -/
theorem Handling.of_retire {token : Nat} (ha : Accounts d) (h0 : token ≠ 0)
    (hw : ∀ w ∈ d.work, Device.workMatches token 0 w = false) : Handling d (d.retire token) := by
  obtain ⟨ho, hm⟩ := d.retire_objects token
  obtain ⟨_, hwork, hh, _⟩ : _ ∧ (d.retire token).work = d.work ∧
    (d.retire token).history = .released token :: d.history ∧ _ := Device.retire_frame
  refine .retire h0 (ha.objects.retire h0) ho hm (fun k => ?_) (fun k x => ?_) (fun w hmem he => ?_)
    hwork hh
  · rw [Device.endpointFor_retire]
    by_cases hk : k = token <;> simp [hk]
  · rw [Device.bufferState, Device.arenaFor_retire]
    split
    · rfl
    · rfl
  · have := hw w hmem
    simp [Device.workMatches, he] at this

/-- Erasing a thread touches no object and no buffer. -/
theorem Handling.of_erase {token : Nat} {tid : Int} (ha : Accounts d)
    (hpres : ∀ k, (d.endpointFor k).isSome = true →
      ((d.eraseThread token tid).endpointFor k).isSome = true) :
    Handling d (d.eraseThread token tid) := by
  have hm := ha.objects.schedule (g := fun n => if n.id != 0 && n.owner == token &&
    n.notificationTid == tid then { n with notificationTid := 0 } else n) (fun n _ => by
      split <;> exact ⟨rfl, rfl, rfl, rfl, rfl, rfl, rfl, rfl, rfl, rfl⟩) (by simp)
  have hq : Quiet d.objects { d.objects with nodes := _ } :=
    ⟨hm.inv, hm.kept.kept fun n _ => ?_, hm.stable, hm.managerNode⟩
  · exact .quiet (l := [.exited token tid]) ⟨rfl, hpres⟩ (hq.setDeaths _) (.refl _)
      (fun k => Device.bufferState_congr Device.arenaFor_eraseThread) rfl rfl (by simp [Event.Mute])
  · split <;> exact ⟨⟨rfl, rfl, rfl, rfl, rfl, rfl, rfl, rfl, rfl, rfl⟩, rfl⟩

end Kinds

/-- Opening and admission do not concern the manager. -/
theorem Device.openEndpoint_manager {d d' : Device} {vm uid : Nat} {pid : Int}
    (ho : d.openEndpoint vm pid uid = some d') : d'.manager = d.manager := by
  unfold openEndpoint at ho
  split at ho
  · cases ho
  · obtain ⟨l, _, rfl⟩ := Option.map_eq_some_iff.1 ho
    rfl

/-- A new thread does not change who the manager is. -/
theorem Device.admitThread_manager {d d' : Device} {e : Endpoint} {tid : Int}
    (ha : d.admitThread e tid = some d') : d'.manager = d.manager := by
  unfold admitThread at ha
  split at ha
  · cases ha
    rfl
  · split at ha
    · cases ha
    · cases ha
      rfl

/-- A change of the tables that claims nothing is a step of its own. -/
theorem Handling.of_slot {d : Device} {o : Objects} (slot : Option Nat) {event : Nat → Event}
    (hq : Quiet d.objects o) (hc : o.claims = d.objects.claims) (he : ∀ i, (event i).Mute) :
    Handling d ({ d with objects := o }.recordSlot slot event) := by
  have hclaims : SameClaims d.objects o := fun c _ => by rw [hc]
  cases slot with
  | none =>
    exact .quiet (l := []) ⟨rfl, fun _ h => h⟩ hq hclaims (fun _ _ => rfl) rfl rfl (by simp)
  | some i =>
    exact .quiet (l := [event i]) ⟨rfl, fun _ h => h⟩ hq hclaims (fun _ _ => rfl) rfl rfl
      (by simpa using he i)

/-! Commands on references and subscriptions leave the claims alone. -/

/-- A count of a reference changes no claim. -/
theorem Objects.adjustReference_claims (o : Objects) (r : Reference) (increment strong : Bool) :
    (o.adjustReference r increment strong).2.claims = o.claims := by
  rcases adjustReference_cases o r increment strong with ⟨_, heq⟩ | ⟨ref, _, _, _, _, _, heq⟩
  · rw [heq]
  · rw [heq, collectNodes_claims, (dropIfUnused_frame (o := o.setReference ref)).2.1,
      setReference_claims]

/-- A command about a handle changes no claim. -/
theorem Objects.referenceCommand_claims (o : Objects) (manager endpoint handle : Nat)
    (increment strong : Bool) :
    (o.referenceCommand manager endpoint handle increment strong).2.claims = o.claims := by
  unfold Objects.referenceCommand
  split
  · split
    · rfl
    · split
      · rfl
      · split
        · rfl
        next ref o₁ he => rw [adjustReference_claims, (ensureReference_frame he).2.1]
  · split
    · rfl
    · exact adjustReference_claims ..

/-- Nothing about death notifications changes a claim. -/
theorem Objects.deaths_claims (o : Objects) (r : Reference) (cookie endpoint : Nat) (alive : Bool)
    (th : Thread) : (o.requestDeath r cookie alive).2.2.claims = o.claims ∧
      (o.clearDeath r cookie th).2.claims = o.claims ∧
      (o.doneDeath endpoint cookie th).2.claims = o.claims := by
  refine ⟨?_, ?_, ?_⟩
  · unfold Objects.requestDeath
    split
    · rfl
    · simp only
      split <;> rfl
  · unfold Objects.clearDeath
    split
    · rfl
    · split
      · rfl
      · split <;> rfl
  · unfold Objects.doneDeath
    split
    · rfl
    · split <;> rfl

/-- The parcels dropped together have buffers of their own. -/
theorem ParcelInv.apart {d : Device} (h : ParcelInv d) {ws : List Work} (hn : ws.Nodup)
    (hw : ∀ w ∈ ws, w ∈ d.work) : ws.Pairwise fun w w' =>
      ¬ (w.endpoint = w'.endpoint ∧ w.value.dataBuffer = w'.value.dataBuffer) := by
  refine hn.imp_of_mem fun {w w'} hmem hmem' hne heq => ?_
  exact hne (h.distinct w (hw w hmem) w' (hw w' hmem') heq.1 heq.2)

/-- The buffer of a queued parcel is there and is not published. -/
theorem ParcelInv.bufferState {d : Device} (h : ParcelInv d) {w : Work} (hw : w ∈ d.work) :
    d.bufferState w.endpoint w.value.dataBuffer = some false := by
  obtain ⟨_, _, _, hst⟩ := h.stored w hw
  exact hst.bufferState

open Device in
/-- A cancelled call drops its parcel with the buffer. -/
theorem Handling.of_cancel {d : Device} {token : Nat} {tid : Int} {t : Transaction} (ha : Accounts d)
    (hq : QueueIds d) (hp : ParcelInv d) (ht : InTeardown token tid d.history)
    (hpres : ∀ l : List Event, (cancelTransaction token tid d t).history = l ++ d.history →
      (∀ k, .released k ∉ l) → ∀ k, (d.endpointFor k).isSome = true →
        ((cancelTransaction token tid d t).endpointFor k).isSome = true) :
    Handling d (cancelTransaction token tid d t) := by
  obtain ⟨_, _, _, _, _, new, hh, hnew⟩ := cancelTransaction_frame d token tid t
  obtain ⟨hw, _, ho, _, _, hm, harena⟩ := cancelEnds_frame d t
  have hws : ∀ w ∈ d.work.filter fun w => w.transaction == t.id, w ∈ d.work := fun w hw =>
    (List.mem_filter.1 hw).1
  have hbuf : ∀ k x, ((d.cancelCaller t).cancelServer t).bufferState k x = d.bufferState k x :=
    fun k => bufferState_congr (harena k)
  have hdrop : Dropped ((d.cancelCaller t).cancelServer t) (cancelTransaction token tid d t)
      (d.work.filter fun w => w.transaction == t.id) := by
    rw [cancelTransaction, dropWorks, hw]
    have hfold : Dropped ((d.cancelCaller t).cancelServer t)
        ((d.work.filter fun w => w.transaction == t.id).foldl (Device.dropWork token tid)
          ((d.cancelCaller t).cancelServer t)) (d.work.filter fun w => w.transaction == t.id) :=
      .fold (ho ▸ ha.objects) (fun w hmem => (hbuf _ _).trans (hp.bufferState (hws w hmem)))
        (hp.apart (hq.nodup.filter _) hws)
    exact ⟨hfold.inv, hfold.kept, hfold.shrinks, hfold.managerNode, hfold.manager, hfold.claims,
      hfold.buffers⟩
  have hstable : Stable d.objects (cancelTransaction token tid d t).objects :=
    Shrinks.stable ha.objects.tables (ho ▸ hdrop.shrinks)
  refine .drop ⟨hdrop.manager.trans hm, hpres _ (hh.trans (List.append_assoc ..).symm) ?_⟩ ht hws
    (fun w hmem => hp.bufferState (hws w hmem))
    ⟨hdrop.inv, ho ▸ hdrop.kept, hstable, hdrop.managerNode.trans (by rw [ho])⟩
    (fun c h0 => ho ▸ hdrop.claims c h0) (fun k x => by rw [hdrop.buffers, hbuf]) ?_ hh ?_
  · intro k hk
    rcases List.mem_append.1 hk with hk | hk
    · simp at hk
    · obtain ⟨_, heq⟩ := hnew _ hk
      cases heq
  · rw [cancelTransaction, endTransaction_work, dropWorks, (foldl_dropWork_frame _ _).2.2.1, hw]
  · intro x hx
    obtain ⟨_, rfl⟩ := hnew x hx
    trivial

open Device in
/-- Every step is of one kind. -/
theorem Step.handling {d d' : Device} (ha : Accounts d) (hi : EndpointIds d) (hq : QueueIds d)
    (hc : CallInv d) (hp : ParcelInv d) (hs : Step d d') : Handling d d' := by
  -- only a release takes an endpoint away
  have hpres : ∀ l : List Event, d'.history = l ++ d.history → (∀ k, .released k ∉ l) →
      ∀ k, (d.endpointFor k).isSome = true → (d'.endpointFor k).isSome = true :=
    fun l hh hl k => hs.present hi hh (hl k)
  cases hs with
  | configure =>
    exact .aside (l := []) ha ⟨rfl, hpres [] rfl (by simp)⟩ rfl (fun _ => rfl) rfl rfl (by simp)
  | openEndpoint ho =>
    obtain ⟨_, hw, hobj, hh, _⟩ := openEndpoint_frame ho
    exact .aside (l := []) ha ⟨openEndpoint_manager ho, hpres [] hh (by simp)⟩ hobj
      (fun _ => (hi.lookups_openEndpoint (i := 0) ho).2) hw hh (by simp)
  | tune _ hf =>
    exact .aside (l := []) ha ⟨rfl, hpres [] rfl (by simp)⟩ rfl (fun _ => arenaFor_tune hf) rfl rfl
      (by simp)
  | admission _ _ hadm =>
    obtain ⟨_, hw, hobj, hh, _⟩ := admitThread_frame hadm
    exact .aside (l := []) ha ⟨admitThread_manager hadm, hpres [] hh (by simp)⟩ hobj
      (fun _ => arenaFor_admitThread hadm) hw hh (by simp)
  | setContextMgr flags pointer cookie he =>
    obtain ⟨_, _, _, _, hh⟩ := setContextMgr_frame d _ flags pointer cookie
    exact .of_setContextMgr ha he flags pointer cookie (hpres [] hh (by simp))
  | refer handle increment strong he =>
    have hk := (endpointFor_spec he).2.2
    have hquiet := ha.objects.referenceCommand (i := handle) increment strong hk
      fun h0 n hn => by
        obtain ⟨n', hn', how, _⟩ := ha.registered.node h0
        rw [hn] at hn'
        cases hn'
        exact how
    refine .quiet (l := []) ⟨rfl, hpres [] rfl (by simp)⟩ hquiet (fun c h0 => ?_) (fun _ _ => rfl) rfl
      rfl (by simp)
    rw [referenceCommand_claims]
  | nodeDone increfs he hn =>
    obtain ⟨hmem, h0, hdead, how, _⟩ := doneNode_spec hn
    have hfor := ha.objects.nodes.nodeFor hmem h0
    refine .done ⟨rfl, hpres [_] rfl (by simp)⟩ he hfor hdead how
      (ha.objects.moves_nodeDone hfor increfs) (fun c _ => ?_) (fun _ _ => rfl) rfl rfl
    rw [record_objects, (ha.objects.nodeDone hfor increfs).2.2.2.2.1]
  | requestDeath cookie he href =>
    obtain ⟨hmem, hre, _⟩ := referenceFor_spec href
    have h0 : _ ≠ 0 := hre ▸ (endpointFor_spec he).2.2
    exact .of_slot _ (ha.objects.requestDeath hmem h0 cookie _)
      (deaths_claims _ _ _ 0 _ { tid := 0 }).1 fun _ => trivial
  | clearDeath cookie he href =>
    obtain ⟨hmem, hre, _⟩ := referenceFor_spec href
    have h0 : _ ≠ 0 := hre ▸ (endpointFor_spec he).2.2
    exact .of_slot _ (ha.objects.clearDeath hmem h0 cookie _) (deaths_claims _ _ _ 0 true _).2.1
      fun _ => trivial
  | doneDeath cookie he =>
    exact .of_slot _ (ha.objects.doneDeath _ cookie _) (deaths_claims _ {} _ _ true _).2.2
      fun _ => trivial
  | free buffer he =>
    obtain ⟨_, _, _, ⟨new, hh, hnew⟩, _⟩ := freePacket_frame d _ buffer
    exact .of_free ha he buffer (hpres new hh fun k hk => nomatch hnew _ hk)
  | refuse =>
    exact .aside (l := [_, _]) ha ⟨rfl, hpres [_, _] rfl (by simp)⟩ rfl
      (fun _ => arenaFor_updateThread _) rfl rfl (by simp [Event.Mute])
  | bounce =>
    exact .aside (l := [_, _]) ha ⟨rfl, hpres [_, _] rfl (by simp)⟩ rfl
      (fun _ => (arenaFor_updateThread _).trans (arenaFor_updateThread _)) rfl rfl
      (by simp [Event.Mute])
  | reserve hr h0 =>
    obtain ⟨hquiet, hclaims⟩ := hr.failed ha h0
    obtain ⟨ω, host, w, w', hres⟩ := hr.result
    exact .quiet (l := []) ⟨rfl, hpres [] rfl (by simp)⟩ hquiet hclaims
      (bufferState_reserve_failed hr.targetFound hres h0) rfl rfl (by simp)
  | @reply e th target t input r hr h0 _ ht =>
    obtain ⟨_, _, htarget, _⟩ := replyTarget_spec ht
    refine .of_accept (p := ⟨e.token, th.tid, t.id, replyWork d.history.length e t input r,
      r.sent, r.data, r.offsets, r.nodes⟩) ha hr h0 ⟨rfl, hpres [_, _] rfl (by simp)⟩
      ⟨rfl, rfl, (endpointFor_spec htarget).2.1.symm, rfl, rfl, rfl, rfl, rfl⟩
      (fun h => absurd rfl h) (fun n hn => nomatch hn) ?_ (fun k => ?_) rfl rfl
    · -- a reply is never one-way
      rw [gate_of_zero rfl, List.map_id]
      rfl
    · exact (arenaFor_updateThread _).trans
        ((arenaFor_updateThread _).trans (arenaFor_updateThread _))
  | @oneway e th target node input r hr h0 =>
    refine .of_accept (p := ⟨e.token, th.tid, 0, onewayWork d.history.length e target.token node
      input r, r.sent, r.data, r.offsets, r.nodes⟩) ha hr h0 ⟨rfl, hpres [_, _] rfl (by simp)⟩
      ⟨rfl, rfl, rfl, rfl, rfl, rfl, rfl, rfl⟩ (fun _ => ⟨node, rfl, rfl⟩) (fun _ _ => rfl) ?_
      (fun k => ?_) rfl rfl
    · obtain ⟨_, _, h0⟩ := nodeFor_spec (hr.nodeFound node rfl).1
      rw [← update_gate (by exact h0)]
      rfl
    · exact arenaFor_updateThread _
  | @call e th target node input r hr h0 =>
    refine .of_accept (p := ⟨e.token, th.tid, 0, callWork d.history.length e d.nextTransaction
      target.token node input r, r.sent, r.data, r.offsets, r.nodes⟩) ha hr h0
      ⟨rfl, hpres [_, _] rfl (by simp)⟩ ⟨rfl, rfl, rfl, rfl, rfl, rfl, rfl, rfl⟩
      (fun h => absurd rfl h) (fun _ _ => rfl) ?_ (fun k => ?_) rfl rfl
    · rw [gate_of_zero rfl, List.map_id]
      rfl
    · exact (arenaFor_updateThread _).trans (arenaFor_updateThread _)
  | @deliver e th record he _ hr =>
    -- no delivery records a release
    have hl : ∃ l, (d.deliver e th record).2.history = l ++ d.history ∧ ∀ k, .released k ∉ l := by
      rcases nextRecord_cases hr with ⟨word, _, rfl⟩ | ⟨_, n, c, _, rfl⟩ | ⟨_, _, rfl⟩ |
        ⟨_, _, index, w, hfor, hw, rfl⟩ | ⟨_, slot, death, _, _, rfl⟩
      · exact ⟨[_], rfl, by simp⟩
      · exact ⟨[_], rfl, by simp⟩
      · exact ⟨[_], rfl, by simp⟩
      · obtain ⟨_, _, hdel⟩ := hp.delivered hc he hfor hw
        refine ⟨[.delivered e.token th.tid d.work w], ?_, by simp⟩
        simp only [Device.deliver]
        rw [hdel]
        simp
      · exact ⟨[_], rfl, by simp⟩
    obtain ⟨l, hh, hl⟩ := hl
    exact .of_deliver ha hp hc he hr (hpres l hh hl)
  | teardown =>
    exact .aside (l := [_]) ha ⟨rfl, hpres [_] rfl (by simp)⟩ rfl (fun _ => rfl) rfl rfl
      (by simp [Event.Mute])
  | cancel ht => exact .of_cancel ha hq hp ht hpres
  | @drop token tid w ht _ hw =>
    have hdrop := Dropped.one (n := token) (i := tid) ha.objects (hp.bufferState hw)
    have hqueued : ∀ x ∈ [w], x ∈ d.work := by simpa using hw
    refine .drop (l := []) ⟨rfl, hpres [_] rfl (by simp)⟩ ht hqueued ?_
      ⟨hdrop.inv, hdrop.kept, hdrop.shrinks.stable ha.objects.tables, hdrop.managerNode⟩
      hdrop.claims hdrop.buffers rfl rfl (by simp)
    simpa using hp.bufferState hw
  | erase => exact .of_erase ha (hpres [_] rfl (by simp))
  | retire _ h0 _ hw => exact .of_retire ha h0 hw

end Artbox.Binder
