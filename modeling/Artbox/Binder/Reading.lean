import Mathlib.Data.List.Perm.Basic
import Artbox.Binder.References
import Artbox.Binder.Delivery
import Artbox.Binder.Returns
import Artbox.Binder.Framing

/-!
# What a read writes and what it takes

The read half of a transfer, from both of its ends. On the guest's side it writes a
stream of return records into the buffer; on the device's side it takes pending events
away. `Device.pending` counts the events of a device, `Delivers` is the device's side of
writing a list of records, and `Host.logged` keeps the writes of the guest's side. One list
of records describes both (`readLoop_exact`): an event is gone if and only if its record
was written as a whole.

The loop is an induction on its rounds; what a round takes is `deliver_pending`.
-/

namespace Artbox.Binder

open Slots Bytes

variable {ω : Type} {host : Host ω} {d d' : Device}

/-! ## The writes of a host -/

/-- A write that succeeded: address space, address and bytes. -/
abbrev Written := Nat × Nat × List UInt8

/-- The host with a log of the writes that succeeded. -/
def Host.logged (host : Host ω) : Host (ω × List Written) where
  read w vm address size :=
    let r := host.read w.1 vm address size
    (r.1, r.2, w.2)
  write w vm address bs :=
    let r := host.write w.1 vm address bs
    (r.1, r.2, if r.1 then w.2 ++ [(vm, address, bs)] else w.2)
  watchState w watch :=
    let r := host.watchState w.1 watch
    (r.1, r.2, w.2)
  allocate w size :=
    let r := host.allocate w.1 size
    (r.1, r.2, w.2)
  destroy w vm :=
    let r := host.destroy w.1 vm
    (r.1, r.2, w.2)
  vmPageSize w vm := host.vmPageSize w.1 vm
  mapReceive w vm address size prot :=
    let r := host.mapReceive w.1 vm address size prot
    (r.1, r.2, w.2)

/-- Pieces written one behind the other from an address on. -/
def backToBack (vm : Nat) : Nat → List (List UInt8) → List Written
  | _, [] => []
  | address, bs :: rest => (vm, address, bs) :: backToBack vm (address + bs.length) rest

/-! ## Records as frames -/

/-- The return a record carries. -/
def Record.word : Record → BR
  | .error word => word
  | .node _ command => command
  | .completion => .transactionComplete
  | .notification _ death => death.returnWord
  | .work _ w => w.command

/-- A record as a frame of the return stream. -/
def Record.frame (r : Record) : Frame := ⟨r.word.word, r.bytes.drop 4⟩

/-- The frame in front of every return stream. -/
def noopFrame : Frame := ⟨BR.noop.word, []⟩

/-- The payload has the length the parser expects behind the word. -/
def Record.Proper (r : Record) : Prop := r.bytes.length = 4 + r.word.readLength

/-- A record begins with its word. -/
theorem Record.bytes_eq (r : Record) : r.bytes = writeLE 4 r.word.word ++ r.bytes.drop 4 := by
  cases r <;> simp [bytes, word]

/-- A record's frame is encoded by the record's bytes. -/
theorem Record.encode_frame (r : Record) : r.frame.encode = r.bytes := by
  rw [Frame.encode, frame]
  exact r.bytes_eq.symm

/-- A record is at least a word long. -/
theorem Record.four_le (r : Record) : 4 ≤ r.bytes.length := by
  rw [r.bytes_eq, List.length_append, length_writeLE]
  exact Nat.le_add_right _ _

/-- The frame of a proper record is one the parser accepts. -/
theorem Record.Proper.wellFormed {r : Record} (h : r.Proper) : r.frame.WellFormed .read := by
  have hlen : (r.bytes.drop 4).length = r.word.readLength := by
    rw [List.length_drop, h]
    omega
  rw [Frame.WellFormed, frame, hlen]
  show (BR.ofWord r.word.word).map BR.readLength = _
  rw [BR.ofWord_word, Option.map_some]

/-- The `NOOP` in front is one the parser accepts. -/
theorem noopFrame_wellFormed : noopFrame.WellFormed .read := by decide

/-- A transaction as the fields of its C record hold it. -/
def TransactionData.wrapped (t : TransactionData) : TransactionData where
  target := t.target % 2 ^ 64
  cookie := t.cookie % 2 ^ 64
  code := t.code % 2 ^ 32
  flags := t.flags % 2 ^ 32
  senderPid := t.senderPid % 2 ^ 32
  senderEuid := t.senderEuid % 2 ^ 32
  dataSize := t.dataSize % 2 ^ 64
  offsetsSize := t.offsetsSize % 2 ^ 64
  dataBuffer := t.dataBuffer % 2 ^ 64
  offsetsBuffer := t.offsetsBuffer % 2 ^ 64

/-- Decoding the record of a parcel gives back the queued fields. -/
theorem decode_frame (index : Nat) {w : Work} (h : w.command = .transaction ∨ w.command = .reply) :
    decodeTransaction (Record.work index w).frame = .ok w.value.wrapped := by
  have hpayload : (Record.work index w).frame.payload = writeLE 8 w.value.target ++
      (writeLE 8 w.value.cookie ++ (writeLE 4 w.value.code ++ (writeLE 4 w.value.flags ++
        (writeLE 4 w.value.senderPid ++ (writeLE 4 w.value.senderEuid ++
          (writeLE 8 w.value.dataSize ++ (writeLE 8 w.value.offsetsSize ++
            (writeLE 8 w.value.dataBuffer ++ writeLE 8 w.value.offsetsBuffer)))))))) := by
    simp [Record.frame, Record.bytes, List.append_assoc]
  have hlen : transactionLength w.command.word = some 64 := by
    rcases h with h | h <;> rw [h] <;> rfl
  have hsec : w.command.word ≠ BR.transactionSecCtx.word := by
    rcases h with h | h <;> rw [h] <;> decide
  unfold decodeTransaction
  rw [show (Record.work index w).frame.command = w.command.word from rfl, hlen]
  dsimp only
  rw [if_neg (by rw [hpayload]; simp)]
  simp only [if_neg hsec, hpayload, TransactionData.wrapped]
  simp (disch := simp) [field_writeLE_append, field_writeLE, field_append_of_le]

/-! ## Error words -/

/-- Error returns are one of two. -/
theorem Device.Reachable.error_word (h : d.Reachable) {k : Nat} {i : Int} {n : Nat} {word : BR}
    (ha : d.accountFor k i = some (n, some word)) : word = .failedReply ∨ word = .deadReply := by
  have hinv : ∀ k i n word, d.accountFor k i = some (n, some word) →
      word = .failedReply ∨ word = .deadReply := by
    refine h.inv_turn (I := fun d => ∀ k i n word, d.accountFor k i = some (n, some word) →
      word = .failedReply ∨ word = .deadReply) (fun d hnone _ => ?_) fun d d' _ hi ht => ?_
    · intro k i n word ha
      rw [hnone] at ha
      cases ha
    · intro k i n word ha
      cases ht with
      | quiet hd =>
        rw [hd] at ha
        exact hi k i n word ha
      | admission _ hd | send _ hd | error _ hd | completion _ hd | erase hd =>
        rw [hd] at ha
        split at ha
        · cases ha
        · exact hi k i n word ha
      | fail _ hw hd =>
        rw [hd] at ha
        split at ha
        · cases ha
          exact hw
        · exact hi k i n word ha
      | cancel _ hd =>
        rw [hd] at ha
        split at ha
        · cases ha
          exact .inr rfl
        · exact hi k i n word ha
      | retire hd =>
        rw [hd] at ha
        split at ha
        · cases ha
        · exact hi k i n word ha
  exact hinv k i n word ha

/-- A node is told one of four commands. -/
theorem nodeCommand_word {o : Objects} {n : Node} {c : BR} (h : o.nodeCommand n = some c) :
    c = .increfs ∨ c = .acquire ∨ c = .release ∨ c = .decrefs := by
  unfold Objects.nodeCommand at h
  repeat' split at h
  all_goals cases h
  all_goals simp

/-- What `death_for` finds. -/
theorem deathFor_spec {token : Nat} {th : Thread} {polling : Bool} {slot : Nat}
    (h : d.deathFor token th polling = some slot) : ∃ death, d.objects.deaths[slot]? = some death ∧
      death.endpoint = token ∧ (death.state = .deathQueued ∨ death.state = .clearQueued) := by
  obtain ⟨hlt, hready, _⟩ := List.findIdx?_eq_some_iff_getElem.1 h
  refine ⟨_, List.getElem?_eq_getElem hlt, ?_⟩
  simp only [Bool.and_eq_true, Bool.or_eq_true, beq_iff_eq] at hready
  exact hready.1

/-- The records of a reachable device are proper. -/
theorem Device.Reachable.proper (h : d.Reachable) {e : Endpoint} {th : Thread} (hf : Found d e th)
    {r : Record} (hr : d.nextRecord e.token th = some r) : r.Proper := by
  unfold Record.Proper
  rcases nextRecord_cases hr with ⟨word, herr, rfl⟩ | ⟨_, n, c, hn, rfl⟩ | ⟨_, _, rfl⟩ |
    ⟨_, _, index, w, _, hw, rfl⟩ | ⟨_, slot, death, _, _, rfl⟩
  · have hacc : d.accountFor e.token th.tid = some (th.completions, some word) := by
      rw [Turn.account_of_found hf, Thread.account, herr]
    rcases h.error_word hacc with rfl | rfl <;> simp [Record.bytes, Record.word, BR.readLength]
  · obtain ⟨_, _, _, _, _, hc⟩ := nodeEventFor_spec hn
    rcases nodeCommand_word hc with rfl | rfl | rfl | rfl <;>
      simp [Record.bytes, Record.word, BR.readLength]
  · simp [Record.bytes, Record.word, BR.readLength]
  · have hshape := h.callInv.shaped w (List.mem_of_getElem? hw)
    cases hshape with
    | reply hc => rw [Record.word, hc]; simp [Record.bytes, BR.readLength]
    | call hc | oneway hc => rw [Record.word, hc]; simp [Record.bytes, BR.readLength]
  · simp only [Record.bytes, Record.word, Death.returnWord, List.length_append, length_writeLE]
    split <;> rfl

/-! ## Pending events -/

/-- What a device has yet to tell its guests. -/
inductive Pending
  | error (token : Nat) (tid : Int) (word : BR)
  | node (id : Nat) (command : BR)
  | completion (token : Nat) (tid : Int)
  | notification (slot : Nat) (death : Death)
  | work (w : Work)
deriving DecidableEq

/-- The node's owner is owed the command. `node_command` picks the first of these. -/
def Objects.owes (o : Objects) (n : Node) : BR → Bool
  | .increfs => o.weakUse n && !n.hasWeak
  | .acquire => o.strongUse n && !n.hasStrong
  | .release => !o.strongUse n && n.hasStrong
  | .decrefs => !o.weakUse n && n.hasWeak
  | _ => false

/-- Owed to the owner of a node that is alive and has one. -/
def Objects.tells (o : Objects) (command : BR) (n : Node) : Bool :=
  !n.dead && !n.manager && o.owes n command

/-- The subscriber is owed a return. -/
def Death.Queued (death : Death) : Prop := death.state = .deathQueued ∨ death.state = .clearQueued

instance (death : Death) : Decidable death.Queued := inferInstanceAs (Decidable (_ ∨ _))

/-- How often an event is pending. -/
def Device.pending (d : Device) : Pending → Nat
  | .error token tid word =>
    if ((d.accountFor token tid).bind Prod.snd) = some word then 1 else 0
  | .node id command => ((d.objects.nodeFor id).any (d.objects.tells command)).toNat
  | .completion token tid => ((d.accountFor token tid).map Prod.fst).getD 0
  | .notification slot death =>
    if d.objects.deaths[slot]? = some death ∧ death.Queued then 1 else 0
  | .work w => d.work.count w

/-- The event a record of the thread tells. -/
def Record.event (token : Nat) (tid : Int) : Record → Pending
  | .error word => .error token tid word
  | .node n command => .node n.id command
  | .completion => .completion token tid
  | .notification slot death => .notification slot death
  | .work _ w => .work w

/-- One event `x` less is pending. -/
def Takes (x : Pending) (d d' : Device) : Prop :=
  ∀ p, d.pending p = d'.pending p + if x = p then 1 else 0

namespace Takes

/-- An account is written, the rest is as before. -/
theorem of_account {k : Nat} {i : Int} {a a' : Nat × Option BR} {x : Pending}
    (ha : d.accountFor k i = some a)
    (ha' : ∀ k' i', d'.accountFor k' i' = if k' = k ∧ i' = i then some a' else d.accountFor k' i')
    (ho : d'.objects = d.objects) (hw : d'.work = d.work)
    (herr : ∀ word, (if a.2 = some word then 1 else 0) =
      (if a'.2 = some word then 1 else 0) + if x = .error k i word then 1 else 0)
    (hcomp : a.1 = a'.1 + if x = .completion k i then 1 else 0)
    (hx : (∃ word, x = .error k i word) ∨ x = .completion k i) : Takes x d d' := by
  intro p
  have hother : ∀ p, (∀ word, p ≠ .error k i word) → p ≠ .completion k i →
      (if x = p then 1 else 0) = 0 := by
    intro p h1 h2
    rw [if_neg]
    rintro rfl
    rcases hx with ⟨word, hx⟩ | hx
    · exact h1 word hx
    · exact h2 hx
  cases p with
  | error k' i' word =>
    by_cases hk : k' = k ∧ i' = i
    · obtain ⟨rfl, rfl⟩ := hk
      simp only [Device.pending, ha', ha, and_self, if_true, Option.bind_some]
      exact herr word
    · rw [hother _ (fun _ h => hk (by cases h; exact ⟨rfl, rfl⟩)) (by simp)]
      simp only [Device.pending, ha', if_neg hk, Nat.add_zero]
  | completion k' i' =>
    by_cases hk : k' = k ∧ i' = i
    · obtain ⟨rfl, rfl⟩ := hk
      simp only [Device.pending, ha', ha, and_self, if_true, Option.map_some, Option.getD_some]
      exact hcomp
    · rw [hother _ (by simp) (fun h => hk (by cases h; exact ⟨rfl, rfl⟩))]
      simp only [Device.pending, ha', if_neg hk, Nat.add_zero]
  | node | notification | work =>
    rw [hother _ (by simp) (by simp)]
    simp only [Device.pending, ho, hw, Nat.add_zero]

/-- The accounts are as before. -/
theorem of_tables {x : Pending} (ha : ∀ k i, d'.accountFor k i = d.accountFor k i)
    (hnode : ∀ id c, d.pending (.node id c) =
      d'.pending (.node id c) + if x = .node id c then 1 else 0)
    (hdeath : ∀ slot death, d.pending (.notification slot death) =
      d'.pending (.notification slot death) + if x = .notification slot death then 1 else 0)
    (hwork : ∀ w, d.pending (.work w) = d'.pending (.work w) + if x = .work w then 1 else 0)
    (hx : (∀ k i word, x ≠ .error k i word) ∧ ∀ k i, x ≠ .completion k i) : Takes x d d' := by
  intro p
  cases p with
  | error k i word =>
    rw [if_neg (hx.1 k i word)]
    simp only [Device.pending, ha, Nat.add_zero]
  | completion k i =>
    rw [if_neg (hx.2 k i)]
    simp only [Device.pending, ha, Nat.add_zero]
  | node id c => exact hnode id c
  | notification slot death => exact hdeath slot death
  | work w => exact hwork w

end Takes

section NodeCommands

variable {o : Objects} {n : Node} {c : BR}

/-- The command that is picked for a node is owed. -/
theorem Objects.owes_of_nodeCommand (h : o.nodeCommand n = some c) : o.owes n c = true := by
  unfold nodeCommand at h
  split at h
  next hc => cases h; exact hc
  split at h
  next hc => cases h; exact hc
  split at h
  next hc => cases h; exact hc
  split at h
  next hc => cases h; exact hc
  cases h

/-- A node that nobody uses and whose owner was told so is owed nothing. -/
theorem Objects.inUse_of_owes (h : o.owes n c = true) : o.inUse n = true := by
  unfold inUse
  cases c <;> simp_all [owes]

/-- Delivering a command leaves the uses of the node as they were: marking it pending
keeps up a use that there is. -/
theorem Objects.uses_commanded (h : o.nodeCommand n = some c) :
    o.strongUse (n.commanded c) = o.strongUse n ∧ o.weakUse (n.commanded c) = o.weakUse n := by
  have howes := owes_of_nodeCommand h
  rcases nodeCommand_word h with rfl | rfl | rfl | rfl
  · simp only [owes, Bool.and_eq_true] at howes
    exact ⟨rfl, by rw [howes.1]; simp [weakUse, Node.commanded]⟩
  · simp only [owes, Bool.and_eq_true] at howes
    have hstrong : o.strongUse (n.commanded .acquire) = true := by
      simp [strongUse, Node.commanded]
    refine ⟨by rw [hstrong, howes.1], ?_⟩
    rw [weakUse, weakUse, hstrong, howes.1, Bool.or_true, Bool.or_true]
  · exact ⟨rfl, rfl⟩
  · exact ⟨rfl, rfl⟩

/-- Delivering a command settles this one and no other. -/
theorem Objects.owes_commanded (h : o.nodeCommand n = some c) (c' : BR) :
    o.owes (n.commanded c) c' = (o.owes n c' && !(c' == c)) := by
  obtain ⟨hs, hw⟩ := uses_commanded h
  have howes := owes_of_nodeCommand h
  rcases nodeCommand_word h with rfl | rfl | rfl | rfl <;> cases c' <;>
    simp_all [owes, Node.commanded]

/-- The commands owed after a delivery. -/
theorem Objects.any_commanded (ho : o.Inv) (hn : o.nodeFor n.id = some n) (hdead : n.dead = false)
    (hman : n.manager = false) (h : o.nodeCommand n = some c) (id : Nat) (c' : BR) :
    ((((o.setNode (n.commanded c)).collectNodes).nodeFor id).any
      (((o.setNode (n.commanded c)).collectNodes).tells c')) =
      ((o.nodeFor id).any (o.tells c') && !(id == n.id && c' == c)) := by
  have hsame : ((o.setNode (n.commanded c)).collectNodes).tells c' = o.tells c' := by
    funext x
    unfold tells
    cases c' <;> rfl
  -- a node that is collected is owed nothing
  have hfilter : ∀ x : Option Node, (x.filter o.inUse).any (o.tells c') = x.any (o.tells c') := by
    intro x
    cases x with
    | none => rfl
    | some x =>
      rw [Option.filter_some]
      split
      · rfl
      next hu =>
        rw [Option.any_none, Option.any_some, tells]
        cases how : o.owes x c' with
        | false => rw [Bool.and_false]
        | true => exact absurd (inUse_of_owes how) hu
  rw [hsame, (ho.commanded hn c).2, hfilter]
  by_cases hid : id = n.id
  · have hflags : (n.commanded c).dead = n.dead ∧ (n.commanded c).manager = n.manager := by
      cases c <;> exact ⟨rfl, rfl⟩
    rw [if_pos hid, hid, hn, Option.any_some, Option.any_some, tells, tells, owes_commanded h,
      hflags.1, hflags.2, hdead, hman]
    simp
  · rw [if_neg hid]
    simp [hid]

end NodeCommands

/-! ## One delivery -/

/-- A queued subscription is overwritten with one that is not. -/
theorem queued_set {l : List Death} {slot : Nat} {death after : Death} (h : l[slot]? = some death)
    (hq : death.Queued) (ha : ¬ after.Queued) (i : Nat) (x : Death) :
    (if l[i]? = some x ∧ x.Queued then 1 else 0) =
      (if (l.set slot after)[i]? = some x ∧ x.Queued then 1 else 0) +
        if slot = i ∧ death = x then 1 else 0 := by
  obtain ⟨hlt, _⟩ := List.getElem?_eq_some_iff.1 h
  rw [List.getElem?_set]
  by_cases hs : slot = i
  · subst hs
    have hgone : ¬ (some after = some x ∧ x.Queued) := by
      rintro ⟨heq, hx⟩
      cases heq
      exact ha hx
    rw [if_pos rfl, if_pos hlt, h, if_neg hgone, Nat.zero_add]
    by_cases hd : death = x
    · subst hd
      rw [if_pos ⟨rfl, hq⟩, if_pos ⟨rfl, rfl⟩]
    · rw [if_neg fun hx => hd (Option.some.inj hx.1), if_neg fun hx => hd hx.2]
  · have hother : ¬ (slot = i ∧ death = x) := fun hx => hs hx.1
    rw [if_neg hs, if_neg hother, Nat.add_zero]

/-- A delivery takes the event of its record and no other. -/
theorem Device.Reachable.deliver_takes (h : d.Reachable) {e : Endpoint} {th : Thread}
    (hf : Found d e th) {r : Record} (hr : d.nextRecord e.token th = some r) :
    Takes (r.event e.token th.tid) d (d.deliver e th r).2 := by
  have hacc := Turn.account_of_found hf
  rcases nextRecord_cases hr with ⟨word, herr, rfl⟩ | ⟨_, n, c, hn, rfl⟩ | ⟨herr, hcomp, rfl⟩ |
    ⟨_, _, index, w, hfor, hw, rfl⟩ | ⟨_, slot, death, hfor, hdeath, rfl⟩
  · show Takes (.error e.token th.tid word) d _
    have hedit : ∀ k i, (d.deliver e th (.error word)).2.accountFor k i = _ := fun k i =>
      Turn.of_edit hf (f := fun th => { th with error := none })
        (fun k i => threadFor_updateThread fun _ => rfl) k i
    refine .of_account hacc hedit rfl rfl (fun word' => ?_) (by simp; rfl) (.inl ⟨word, rfl⟩)
    simp [Thread.account, herr]
  · show Takes (.node n.id c) d _
    obtain ⟨hmem, h0, _, hdead, hman, hc⟩ := nodeEventFor_spec hn
    have hinv := h.accounts.objects
    have hfor := hinv.nodes.nodeFor hmem h0
    refine .of_tables (fun _ _ => rfl) (fun id c' => ?_) (fun _ _ => by simp; rfl)
      (fun _ => by simp; rfl) (by simp)
    have hafter : (d.deliver e th (.node n c)).2.pending (.node id c') =
        ((d.objects.nodeFor id).any (d.objects.tells c') && !(id == n.id && c' == c)).toNat :=
      congrArg Bool.toNat (Objects.any_commanded hinv hfor hdead hman hc id c')
    rw [hafter, Device.pending]
    -- only this command is not owed any more
    by_cases hx : Pending.node n.id c = .node id c'
    · obtain ⟨rfl, rfl⟩ : n.id = id ∧ c = c' := by simpa using hx
      simp [hfor, Objects.tells, hdead, hman, Objects.owes_of_nodeCommand hc]
    · have hne : (id == n.id && c' == c) = false := by
        rw [Bool.eq_false_iff]
        intro heq
        simp only [Bool.and_eq_true, beq_iff_eq] at heq
        exact hx (by rw [heq.1, heq.2])
      rw [if_neg hx, hne, Bool.not_false, Bool.and_true, Nat.add_zero]
  · show Takes (.completion e.token th.tid) d _
    have hedit : ∀ k i, (d.deliver e th .completion).2.accountFor k i = _ := fun k i =>
      Turn.of_edit hf (f := fun th => { th with completions := th.completions - 1 })
        (fun k i => threadFor_updateThread fun _ => rfl) k i
    refine .of_account hacc hedit rfl rfl (fun word' => by simp; rfl) ?_ (.inr rfl)
    simp only [Thread.account, if_true]
    omega
  · show Takes (.work w) d _
    obtain ⟨_, _, hdel⟩ := h.parcelInv.delivered h.callInv hf.endpoint hfor hw
    have hobj : (d.deliver e th (.work index w)).2.objects = d.objects := by
      simp only [Device.deliver]
      rw [hdel]
      simp
    have hqueue : (d.deliver e th (.work index w)).2.work = d.work.eraseIdx index := by
      simp only [Device.deliver]
      rw [hdel]
      rfl
    refine .of_tables (fun k i => ?_) (fun _ _ => ?_) (fun _ _ => ?_) (fun x => ?_) (by simp)
    · simp only [Device.deliver]
      rw [hdel]
      exact Turn.account_serve _ k i
    · rw [if_neg (by simp), Device.pending, Device.pending, hobj, Nat.add_zero]
    · rw [if_neg (by simp), Device.pending, Device.pending, hobj, Nat.add_zero]
    · obtain ⟨hlt, rfl⟩ := List.getElem?_eq_some_iff.1 hw
      rw [Device.pending, Device.pending, hqueue, ← (List.getElem_cons_eraseIdx_perm hlt).count_eq,
        List.count_cons]
      simp
  · show Takes (.notification slot death) d _
    obtain ⟨death', hdeath', _, hstate⟩ := deathFor_spec hfor
    rw [hdeath] at hdeath'
    cases hdeath'
    refine .of_tables (fun _ _ => rfl) (fun _ _ => by simp; rfl) (fun slot' death' => ?_)
      (fun _ => by simp; rfl) (by simp)
    have hdeaths : (d.deliver e th (.notification slot death)).2.objects.deaths =
        d.objects.deaths.set slot
          (if death.state = .clearQueued then {} else { death with state := .deathDelivered }) := rfl
    simp only [Device.pending, Pending.notification.injEq, hdeaths]
    exact queued_set hdeath hstate (by split <;> simp [Death.Queued]) slot' death'

/-! ## A sequence of deliveries -/

/-- The device's side of a stream: each record is the one the device would write next to
the thread, and is delivered. -/
inductive Delivers (token : Nat) (tid : Int) : Device → List Record → Device → Prop
  | nil (d : Device) : Delivers token tid d [] d
  | cons {d d' : Device} {e : Endpoint} {th : Thread} {r : Record} {rs : List Record} :
    d.endpointFor token = some e → d.threadFor token tid = some th →
      d.nextRecord token th = some r → (d.deliver e th r).1 = 0 →
        Delivers token tid (d.deliver e th r).2 rs d' → Delivers token tid d (r :: rs) d'

namespace Delivers

variable {token : Nat} {tid : Int} {rs : List Record}

/-- Deliveries lead from reachable devices to reachable devices. -/
theorem reachable (h : Delivers token tid d rs d') (hr : d.Reachable) : d'.Reachable := by
  induction h with
  | nil => exact hr
  | cons he hth hrec _ _ ih =>
    have hf := Found.of_threadFor he hth
    rw [← (Device.endpointFor_spec he).2.1] at hrec
    exact ih (hr.then (.deliver hf.endpoint hf.thread hrec))

/-- The events of the records are gone, and only these. -/
theorem pending (h : Delivers token tid d rs d') (hr : d.Reachable) (p : Pending) :
    d.pending p = d'.pending p + (rs.map (Record.event token tid)).count p := by
  induction h with
  | nil => simp
  | @cons d d' e th r rs he hth hrec _ _ ih =>
    have hf := Found.of_threadFor he hth
    have htok := (Device.endpointFor_spec he).2.1
    have htid := Device.threadFor_tid hth
    rw [← htok] at hrec
    have htakes := hr.deliver_takes hf hrec p
    have hrest := ih (hr.then (.deliver hf.endpoint hf.thread hrec))
    rw [htok, htid] at htakes
    rw [htakes, hrest, List.map_cons, List.count_cons, Nat.add_assoc]
    simp only [beq_iff_eq]

/-- On a reachable device every delivered record is proper. -/
theorem proper (h : Delivers token tid d rs d') (hr : d.Reachable) : ∀ r ∈ rs, r.Proper := by
  induction h with
  | nil => simp
  | cons he hth hrec _ _ ih =>
    have hf := Found.of_threadFor he hth
    rw [← (Device.endpointFor_spec he).2.1] at hrec
    intro r hmem
    rcases List.mem_cons.1 hmem with rfl | hmem
    · exact hr.proper hf hrec
    · exact ih (hr.then (.deliver hf.endpoint hf.thread hrec)) r hmem

/-- The parcels among the records were queued, as calls or as replies. -/
theorem commands (h : Delivers token tid d rs d') (hr : d.Reachable) {index : Nat} {w : Work}
    (hmem : Record.work index w ∈ rs) :
    w ∈ d.work ∧ (w.command = .transaction ∨ w.command = .reply) := by
  have hcount : 0 < (rs.map (Record.event token tid)).count (.work w) :=
    List.count_pos_iff.2 (List.mem_map.2 ⟨_, hmem, rfl⟩)
  have hpending := h.pending hr (.work w)
  have hqueued : w ∈ d.work := List.count_pos_iff.1 (by
    show 0 < d.pending (.work w)
    omega)
  refine ⟨hqueued, ?_⟩
  cases hr.callInv.shaped w hqueued with
  | reply hc => exact .inr hc
  | call hc | oneway hc => exact .inl hc

end Delivers

/-! ## The read loop -/

/-- The address space, and the flags of `open`, `close` and `set_nonblocking`. -/
def Endpoint.post (e : Endpoint) : Nat × Bool × Bool := (e.vm, e.opened, e.nonblocking)

/-- The endpoints are where they were. -/
def SamePosts (d d' : Device) : Prop :=
  ∀ k, (d'.endpointFor k).map Endpoint.post = (d.endpointFor k).map Endpoint.post

namespace SamePosts

variable {token : Nat} {tid : Int}

theorem refl (d : Device) : SamePosts d d := fun _ => rfl

theorem trans {d'' : Device} (h : SamePosts d d') (h' : SamePosts d' d'') : SamePosts d d'' :=
  fun k => (h' k).trans (h k)

/-- An edit that keeps token and post keeps all posts. -/
theorem updateEndpoint {f : Endpoint → Endpoint} (htok : ∀ e : Endpoint, (f e).token = e.token)
    (hpost : ∀ e : Endpoint, (f e).post = e.post) : SamePosts d (d.updateEndpoint token f) := by
  intro k
  rw [Device.endpointFor_updateEndpoint htok, Option.map_map]
  congr 1
  funext x
  show (if k = token then f x else x).post = x.post
  split
  · exact hpost x
  · rfl

theorem updateArena {f : Arena → Arena} : SamePosts d (d.updateArena token f) := by
  unfold Device.updateArena
  apply updateEndpoint <;> intro <;> rfl

theorem updateThread {f : Thread → Thread} : SamePosts d (d.updateThread token tid f) := by
  unfold Device.updateThread
  apply updateEndpoint <;> intro <;> rfl

/-- Serving a call keeps all posts. -/
theorem serve (token : Nat) (tid : Int) (id : Nat) : SamePosts d (d.serve token tid id) := by
  unfold Device.serve
  split
  · exact refl d
  · exact (updateThread : SamePosts d (d.updateThread token tid fun th => { th with incoming := id }))

/-- A delivery keeps all posts. -/
theorem deliver {e : Endpoint} {th : Thread} {r : Record} : SamePosts d (d.deliver e th r).2 := by
  cases r with
  | error word =>
    exact (updateThread : SamePosts d (d.updateThread e.token th.tid fun th => { th with error := none }))
  | completion =>
    exact (updateThread : SamePosts d
      (d.updateThread e.token th.tid fun th => { th with completions := th.completions - 1 }))
  | node | notification => exact refl d
  | work index w =>
    rw [Device.deliver]
    rcases Device.deliverWork_cases d e th index w with ⟨_, heq | heq⟩ | ⟨_, _, heq⟩
    · rw [heq]
      exact refl d
    · rw [heq]
      exact updateArena
    · rw [heq]
      have hpublish : SamePosts d (d.updateArena e.token fun a => (a.publish w.value.dataBuffer).2) :=
        updateArena
      exact hpublish.trans (serve e.token th.tid w.transaction)

end SamePosts

/-- A read result without its log. -/
def ReadResult.plain (r : ReadResult (ω × List Written)) : ReadResult ω :=
  ⟨r.result, r.consumed, r.device, r.world.1⟩

/-- What the loop has done when it stops: `rs` is what it wrote and what it took. -/
structure Drained (token : Nat) (tid : Int) (vm address size consumed : Nat) (d : Device)
    (log : List Written) (r : ReadResult (ω × List Written)) (rs : List Record) : Prop where
  result : r.result = 0 ∨ r.result = -14
  total : r.consumed = consumed + (rs.map fun r => r.bytes.length).sum
  room : r.consumed ≤ size
  written : r.world.2 = log ++ backToBack vm (address + consumed) (rs.map Record.bytes)
  delivered : Delivers token tid d rs r.device

namespace Drained

variable {token : Nat} {tid : Int} {vm address size consumed : Nat} {log : List Written}

/-- Stopping before a record was written. -/
theorem stop (hroom : consumed ≤ size) {result : Int} (hres : result = 0 ∨ result = -14) (d : Device)
    (w : ω) : Drained token tid vm address size consumed d log ⟨result, consumed, d, (w, log)⟩ [] :=
  ⟨hres, rfl, hroom, by simp [backToBack], .nil d⟩

/-- A record is written and delivered before the rest. -/
theorem cons {e : Endpoint} {th : Thread} {r : Record} {rs : List Record}
    {result : ReadResult (ω × List Written)} (he : d.endpointFor token = some e)
    (hth : d.threadFor token tid = some th) (hrec : d.nextRecord token th = some r)
    (hok : (d.deliver e th r).1 = 0)
    (hrest : Drained token tid vm address size (consumed + r.bytes.length) (d.deliver e th r).2
      (log ++ [(vm, address + consumed, r.bytes)]) result rs) :
    Drained token tid vm address size consumed d log result (r :: rs) where
  result := hrest.result
  total := by
    rw [hrest.total, List.map_cons, List.sum_cons, Nat.add_assoc]
  room := hrest.room
  written := by
    rw [hrest.written, List.map_cons, backToBack, List.append_assoc, Nat.add_assoc]
    rfl
  delivered := .cons he hth hrec hok hrest.delivered

end Drained

/-- The loop writes the records it takes. -/
theorem readLoop_drained (host : Host ω) {token : Nat} (tid : Int) {vm size : Nat} (address : Nat)
    (rounds consumed : Nat) (d : Device) (w : ω) (log : List Written) (hr : d.Reachable)
    (hvm : (d.endpointFor token).map (Prod.fst ∘ Endpoint.post) = some vm) (hroom : consumed ≤ size) :
    ∃ rs, Drained token tid vm address size consumed d log
      (readLoop host.logged token tid address size rounds consumed d (w, log)) rs := by
  induction rounds generalizing consumed d w log with
  | zero => exact ⟨[], .stop hroom (.inl rfl) d w⟩
  | succ rounds ih =>
    unfold readLoop
    cases he : d.endpointFor token with
    | none => exact ⟨[], .stop hroom (.inl rfl) d w⟩
    | some e =>
      cases hth : d.threadFor token tid with
      | none => exact ⟨[], .stop hroom (.inl rfl) d w⟩
      | some th =>
        dsimp only
        by_cases hword : size - consumed < 4
        · rw [if_pos hword]
          exact ⟨[], .stop hroom (.inl rfl) d w⟩
        rw [if_neg hword]
        cases hrec : d.nextRecord token th with
        | none => exact ⟨[], .stop hroom (.inl rfl) d w⟩
        | some r =>
          dsimp only
          by_cases hfit : size - consumed < r.bytes.length
          · rw [if_pos hfit]
            exact ⟨[], .stop hroom (.inl rfl) d w⟩
          rw [if_neg hfit]
          obtain rfl : e.vm = vm := by
            rw [he] at hvm
            exact Option.some.inj hvm
          have hf := Found.of_threadFor he hth
          have hrec' := hrec
          rw [← (Device.endpointFor_spec he).2.1] at hrec'
          have hok := deliver_ok hr hf hrec'
          have hpost : ((d.deliver e th r).2.endpointFor token).map (Prod.fst ∘ Endpoint.post) =
              (d.endpointFor token).map (Prod.fst ∘ Endpoint.post) := by
            rw [← Option.map_map, SamePosts.deliver token, Option.map_map]
          simp only [Host.logged]
          generalize host.write w e.vm (address + consumed) r.bytes = written
          obtain ⟨ok, w'⟩ := written
          cases ok with
          | false => exact ⟨[], .stop hroom (.inr rfl) d w'⟩
          | true =>
            dsimp only
            rw [if_neg (by omega)]
            have hdone : Drained token tid e.vm address size (consumed + r.bytes.length)
                (d.deliver e th r).2 (log ++ [(e.vm, address + consumed, r.bytes)])
                ⟨0, consumed + r.bytes.length, (d.deliver e th r).2,
                  (w', log ++ [(e.vm, address + consumed, r.bytes)])⟩ [] :=
              .stop (by omega) (.inl rfl) _ _
            cases hend : r.endsRead with
            | true => exact ⟨[r], .cons he hth hrec hok hdone⟩
            | false =>
              obtain ⟨rs, hrest⟩ := ih (consumed + r.bytes.length) (d.deliver e th r).2 w'
                (log ++ [(e.vm, address + consumed, r.bytes)])
                (hr.then (.deliver hf.endpoint hf.thread hrec')) (hpost.trans hvm) (by omega)
              exact ⟨r :: rs, .cons he hth hrec hok hrest⟩

/-- The log changes nothing. -/
theorem readLoop_plain (host : Host ω) (token : Nat) (tid : Int) (address size rounds consumed : Nat)
    (d : Device) (w : ω) (log : List Written) :
    (readLoop host.logged token tid address size rounds consumed d (w, log)).plain =
      readLoop host token tid address size rounds consumed d w := by
  induction rounds generalizing consumed d w log with
  | zero => rfl
  | succ rounds ih =>
    unfold readLoop
    cases d.endpointFor token with
    | none => rfl
    | some e =>
      cases d.threadFor token tid with
      | none => rfl
      | some th =>
        dsimp only
        by_cases hword : size - consumed < 4
        · rw [if_pos hword, if_pos hword]
          rfl
        rw [if_neg hword, if_neg hword]
        cases d.nextRecord token th with
        | none => rfl
        | some r =>
          dsimp only
          by_cases hfit : size - consumed < r.bytes.length
          · rw [if_pos hfit, if_pos hfit]
            rfl
          rw [if_neg hfit, if_neg hfit]
          simp only [Host.logged]
          generalize host.write w e.vm (address + consumed) r.bytes = written
          obtain ⟨ok, w'⟩ := written
          cases ok with
          | false => rfl
          | true =>
            dsimp only
            by_cases hok : (d.deliver e th r).1 ≠ 0
            · rw [if_pos hok, if_pos hok]
              rfl
            rw [if_neg hok, if_neg hok]
            cases r.endsRead with
            | true => rfl
            | false => exact ih _ _ _ _

/-! ## The read half -/

/-- The arguments `read_work` takes: a configured device, and a fresh header whose buffer has
room for a word, is not too long and does not wrap around. -/
def Device.acceptsRead (d : Device) (header : Header) : Prop :=
  d.receiveLimit ≠ 0 ∧ 4 ≤ header.readSize ∧ header.readConsumed = 0 ∧ header.readSize ≤ 65536 ∧
    header.readBuffer ≤ uint64Max - header.readSize

instance (d : Device) (header : Header) : Decidable (d.acceptsRead header) :=
  inferInstanceAs (Decidable (_ ∧ _ ∧ _ ∧ _ ∧ _))

/-- Arguments that are not taken are refused at once. -/
theorem readWork_of_not_accepts {header : Header} (h : ¬ d.acceptsRead header) (e : Endpoint)
    (th : Thread) : ∃ result : Int, (result = -95 ∨ result = -7 ∨ result = -14) ∧
      ∀ (ω : Type) (host : Host ω) (w : ω),
        readWork host w d e th header = ⟨result, header.readConsumed, d, w⟩ := by
  by_cases hlimit : d.receiveLimit = 0
  · exact ⟨-95, .inl rfl, fun _ _ _ => by rw [readWork, if_pos hlimit]⟩
  by_cases hfresh : header.readSize < 4 ∨ header.readConsumed ≠ 0
  · exact ⟨-95, .inl rfl, fun _ _ _ => by rw [readWork, if_neg hlimit, if_pos hfresh]⟩
  by_cases hlong : 65536 < header.readSize
  · exact ⟨-7, .inr (.inl rfl), fun _ _ _ => by
      rw [readWork, if_neg hlimit, if_neg hfresh, if_pos hlong]⟩
  by_cases hwrap : uint64Max - header.readSize < header.readBuffer
  · exact ⟨-14, .inr (.inr rfl), fun _ _ _ => by
      rw [readWork, if_neg hlimit, if_neg hfresh, if_neg hlong, if_pos hwrap]⟩
  · exact absurd ⟨hlimit, by omega, by omega, by omega, by omega⟩ h

/-- The read half on arguments that are taken. -/
theorem readWork_of_accepts {header : Header} (h : d.acceptsRead header) (host : Host ω) (w : ω)
    (e : Endpoint) (th : Thread) : readWork host w d e th header =
      match host.write w e.vm header.readBuffer noopFrame.encode with
      | (false, w) => ⟨-14, header.readConsumed, d, w⟩
      | (true, w) =>
        if !d.readReady e.token th then ⟨-11, 0, d, w⟩
        else readLoop host e.token th.tid header.readBuffer header.readSize
          header.readSize 4 d w := by
  obtain ⟨hlimit, hsize, hfresh, hlong, hwrap⟩ := h
  rw [readWork, if_neg hlimit, if_neg (by omega), if_neg (by omega), if_neg (by omega)]
  rfl

/-- A read that changes nothing and reports what the header said before. -/
structure ReadRefused (d : Device) (header : Header) (r : ReadResult (ω × List Written)) : Prop where
  result : r.result = -95 ∨ r.result = -7 ∨ r.result = -14
  consumed : r.consumed = header.readConsumed
  device : r.device = d
  written : r.world.2 = []

/-- A read that finds nothing pending. -/
structure ReadIdle (d : Device) (e : Endpoint) (header : Header) (r : ReadResult (ω × List Written)) :
    Prop where
  result : r.result = -11
  consumed : r.consumed = 0
  device : r.device = d
  written : r.world.2 = [(e.vm, header.readBuffer, noopFrame.encode)]

/-- The return stream: `NOOP` and the records. -/
def returnFrames (rs : List Record) : List Frame := noopFrame :: rs.map Record.frame

/-- A read that writes the records `rs`. -/
structure ReadExact (d : Device) (e : Endpoint) (th : Thread) (header : Header)
    (r : ReadResult (ω × List Written)) (rs : List Record) : Prop where
  result : r.result = 0 ∨ r.result = -14
  /-- The buffer holds the stream, from its start on. -/
  written : r.world.2 =
    backToBack e.vm header.readBuffer ((returnFrames rs).map Frame.encode)
  /-- The consumed bytes are cut into the stream's frames without a rest. -/
  parsed : nextAll .read (encodeAll (returnFrames rs)) 0 = (returnFrames rs, .endOfStream, r.consumed)
  room : r.consumed ≤ header.readSize
  /-- The records were taken one after the other, -/
  delivered : Delivers e.token th.tid d rs r.device
  /-- and what is not pending any more is what they say. -/
  removed : ∀ p, d.pending p = r.device.pending p + (rs.map (Record.event e.token th.tid)).count p
  decoded : ∀ index w, Record.work index w ∈ rs → w ∈ d.work ∧
    decodeTransaction (Record.work index w).frame = .ok w.value.wrapped

/-- The frames of records are encoded by the records' bytes. -/
theorem map_encode_frame (rs : List Record) :
    (rs.map Record.frame).map Frame.encode = rs.map Record.bytes := by
  rw [List.map_map]
  exact List.map_congr_left fun r _ => r.encode_frame

/-- A stream is as long as its records are together. -/
theorem length_encodeAll_frames (rs : List Record) :
    (encodeAll (rs.map Record.frame)).length = (rs.map fun r => r.bytes.length).sum := by
  rw [encodeAll, List.flatMap_def, map_encode_frame, List.length_flatten, List.map_map]
  rfl

/-- The read half is exact. It refuses arguments and unwritable buffers without a trace; when
nothing is pending it only writes `NOOP`; else the bytes it reports are the stream of what it
took. -/
theorem read_exact (host : Host ω) (w : ω) (h : d.Reachable) {e : Endpoint} {th : Thread}
    (hf : Found d e th) (header : Header) :
    let r := readWork host.logged (w, []) d e th header
    let noop := host.write w e.vm header.readBuffer noopFrame.encode
    r.plain = readWork host w d e th header ∧
      (¬ (d.acceptsRead header ∧ noop.1 = true) → ReadRefused d header r) ∧
      (d.acceptsRead header ∧ noop.1 = true → d.readReady e.token th = false →
        ReadIdle d e header r) ∧
      (d.acceptsRead header ∧ noop.1 = true → d.readReady e.token th = true →
        ∃ rs, ReadExact d e th header r rs) := by
  by_cases ha : d.acceptsRead header
  swap
  · obtain ⟨result, hres, heq⟩ := readWork_of_not_accepts ha e th
    intro r noop
    have hr : r = ⟨result, header.readConsumed, d, (w, [])⟩ := heq _ host.logged (w, [])
    refine ⟨?_, fun _ => ?_, fun hok => absurd hok.1 ha, fun hok => absurd hok.1 ha⟩
    · rw [hr, heq _ host w]
      rfl
    · rw [hr]
      exact ⟨hres, rfl, rfl, rfl⟩
  rw [readWork_of_accepts ha, readWork_of_accepts ha]
  simp only [Host.logged, List.nil_append]
  generalize host.write w e.vm header.readBuffer noopFrame.encode = noop
  obtain ⟨ok, w'⟩ := noop
  cases ok with
  | false =>
    exact ⟨rfl, fun _ => ⟨.inr (.inr rfl), rfl, rfl, rfl⟩, fun hok => absurd hok.2 (by simp),
      fun hok => absurd hok.2 (by simp)⟩
  | true =>
    cases hready : d.readReady e.token th with
    | false =>
      exact ⟨rfl, fun hno => absurd ⟨ha, rfl⟩ hno, fun _ _ => ⟨rfl, rfl, rfl, rfl⟩,
        fun _ hno => by cases hno⟩
    | true =>
      refine ⟨readLoop_plain host _ _ _ _ _ _ _ _ _, fun hno => absurd ⟨ha, rfl⟩ hno,
        fun _ hno => (by cases hno), fun _ _ => ?_⟩
      have hvm : (d.endpointFor e.token).map (Prod.fst ∘ Endpoint.post) = some e.vm := by
        rw [hf.endpoint]
        rfl
      obtain ⟨rs, hdrained⟩ := readLoop_drained host th.tid header.readBuffer header.readSize 4 d w'
        [(e.vm, header.readBuffer, noopFrame.encode)] h hvm ha.2.1
      -- all that was written are whole frames, so that the reader finds their ends
      have hframes : ∀ f ∈ returnFrames rs, f.WellFormed .read := by
        intro f hmem
        rcases List.mem_cons.1 hmem with rfl | hmem
        · exact noopFrame_wellFormed
        · obtain ⟨r, hr, rfl⟩ := List.mem_map.1 hmem
          exact (hdrained.delivered.proper h r hr).wellFormed
      refine ⟨rs, hdrained.result, ?_, ?_, hdrained.room, hdrained.delivered,
        hdrained.delivered.pending h, fun index x hx => ?_⟩
      · refine hdrained.written.trans ?_
        rw [returnFrames, List.map_cons, map_encode_frame]
        rfl
      · rw [nextAll_encodeAll hframes, returnFrames, length_encodeAll_cons, length_encodeAll_frames]
        refine Prod.ext rfl (Prod.ext rfl ?_)
        exact hdrained.total.symm
      · obtain ⟨hqueued, hc⟩ := hdrained.delivered.commands h hx
        exact ⟨hqueued, decode_frame index hc⟩

/-- The manager's thread is there before anything happens. -/
theorem managerThread_isSome : (managerThread [] []).isSome = true := by decide

/-- A refused header keeps the count the guest wrote into it, which may lie outside of the
buffer, and an idle read reports no bytes although it wrote `NOOP`. -/
theorem read_inexact :
    (¬ ∀ d : Device, d.Reachable → ∀ e th, Found d e th → ∀ header : Header,
      (readWork scriptHost [] d e th header).consumed ≤ header.readSize) ∧
    ¬ ∀ d : Device, d.Reachable → ∀ e th, Found d e th → ∀ header : Header, d.acceptsRead header →
      ∃ rs, nextAll .read (encodeAll (returnFrames rs)) 0 =
        (returnFrames rs, .endOfStream, (readWork scriptHost [] d e th header).consumed) := by
  obtain ⟨⟨e, th⟩, hthread⟩ := Option.isSome_iff_exists.1 managerThread_isSome
  have hf := managerThread_found hthread
  have hget : (managerThread [] []).get managerThread_isSome = (e, th) :=
    Option.get_of_eq_some managerThread_isSome hthread
  constructor
  · intro h
    have hle := h _ (replay_reachable [] []) e th hf ⟨0, 0, 0, 8, 100, 8192⟩
    have hout : (readWork scriptHost [] (replay [] [])
        ((managerThread [] []).get managerThread_isSome).1
        ((managerThread [] []).get managerThread_isSome).2 ⟨0, 0, 0, 8, 100, 8192⟩).consumed = 100 := by
      decide
    rw [hget] at hout
    rw [hout] at hle
    exact absurd hle (by decide)
  · intro h
    obtain ⟨rs, hparsed⟩ := h _ (replay_reachable [] []) e th hf ⟨0, 0, 0, 256, 0, 8192⟩
      (by decide)
    have hout : (readWork scriptHost [] (replay [] [])
        ((managerThread [] []).get managerThread_isSome).1
        ((managerThread [] []).get managerThread_isSome).2 ⟨0, 0, 0, 256, 0, 8192⟩).consumed = 0 := by
      decide
    rw [hget] at hout
    obtain ⟨_, _, hbytes, _⟩ := nextAll_segments .read (encodeAll (returnFrames rs)) 0 (Nat.zero_le _)
    rw [hparsed, hout] at hbytes
    have hlen := congrArg List.length hbytes
    rw [returnFrames, length_encodeAll_cons] at hlen
    simp at hlen

/-- The manager's looper with a call of the client before it. -/
def pendingScript : Script :=
  (1, 768, Header.bytes ⟨4, 0, 512, 0, 0, 0⟩) :: callScript

def pendingCalls : List Call := [.writeRead 1 1 768, .writeRead 2 2 256]

/-- The manager's thread is there when the client's call is pending. -/
theorem pendingManager_isSome : (managerThread pendingScript pendingCalls).isSome = true := by
  decide

/-- The manager reads the call: `NOOP` and one parcel. -/
theorem read_exact_call : ∃ e th rs, managerThread pendingScript pendingCalls = some (e, th) ∧
    (readWork scriptHost.logged (pendingScript, []) (replay pendingScript pendingCalls) e th
      ⟨0, 0, 0, 256, 0, 8192⟩).consumed = 72 ∧
    ReadExact (replay pendingScript pendingCalls) e th ⟨0, 0, 0, 256, 0, 8192⟩
      (readWork scriptHost.logged (pendingScript, []) (replay pendingScript pendingCalls) e th
        ⟨0, 0, 0, 256, 0, 8192⟩) rs := by
  obtain ⟨⟨e, th⟩, hthread⟩ := Option.isSome_iff_exists.1 pendingManager_isSome
  have hget : (managerThread pendingScript pendingCalls).get pendingManager_isSome = (e, th) :=
    Option.get_of_eq_some pendingManager_isSome hthread
  have hf := managerThread_found hthread
  have hready : ∀ x, (managerThread pendingScript pendingCalls).get pendingManager_isSome = x →
      (replay pendingScript pendingCalls).readReady x.1.token x.2 = true ∧
        (readWork scriptHost.logged (pendingScript, []) (replay pendingScript pendingCalls) x.1 x.2
          ⟨0, 0, 0, 256, 0, 8192⟩).consumed = 72 := by
    rintro x rfl
    decide
  obtain ⟨hready, hout⟩ := hready _ hget
  obtain ⟨rs, hexact⟩ := (read_exact scriptHost pendingScript (replay_reachable pendingScript pendingCalls)
    hf ⟨0, 0, 0, 256, 0, 8192⟩).2.2.2 ⟨by decide, rfl⟩ hready
  exact ⟨e, th, rs, hthread, hout, hexact⟩

end Artbox.Binder
