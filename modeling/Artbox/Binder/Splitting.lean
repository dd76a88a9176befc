import Artbox.Binder.Framing
import Artbox.Binder.Reading
import Artbox.Binder.Refusals

/-!
# The write half and the wire parser

How long a command is and where its arguments stand is written down twice: in the
parser's table (`binderNext`) and in the dispatcher, which reads guest memory at
offsets of its own and moves on by numbers of its own (`command`). Here the two are
brought together. `Frame.execute` tells what a command does from its parsed frame
alone, and the write loop on a buffer that splits into frames executes the frames,
one after the other, up to the first that fails or to an error pending on the
thread (`WriteHalf`).

What guest memory is meanwhile is left to the host. All that is asked of it is that
the buffer can be read and keeps its bytes while the device reads memory (`Steady`).
-/

namespace Artbox.Binder

open Bytes Slots

variable {ω : Type}

/-! ## What a frame means -/

/-- The commands that need receive memory are refused until it is set up. -/
def gated (d : Device) (w : ω) (out : Int × Device × ω) : Int × Device × ω :=
  if d.receiveLimit = 0 then (-95, d, w) else out

/-- A packet, from its decoded record on. -/
def transferRecord (host : Host ω) (w : ω) (d : Device) (e : Endpoint) (th : Thread)
    (input : TransactionData) (reply : Bool) : Int × Device × ω :=
  if !flagsAllowed reply input.flags then (-95, d, w)
  else if th.error.isSome ∨ th.completions = packetLimit ∨ d.work.length = packetLimit then
    (-12, d, w)
  else if reply then transferReply host w d e th input
  else transferCall host w d e th input

namespace Frame

/-- `BC_TRANSACTION` and `BC_REPLY`. -/
def packet (host : Host ω) (w : ω) (d : Device) (e : Endpoint) (th : Thread) (f : Frame)
    (reply : Bool) : Int × Device × ω :=
  match decodeTransaction f with
  | .error _ => (-22, d, w)
  | .ok input =>
    let r := transferRecord host w d e th input reply
    if r.1 = 0 then
      (0, r.2.1.record (.consumed e.token th.tid (if reply then .reply else .transaction)), r.2.2)
    else r

/-- `BC_INCREFS`, `BC_ACQUIRE`, `BC_RELEASE` and `BC_DECREFS`: a handle. -/
def refer (d : Device) (e : Endpoint) (f : Frame) (increment strong : Bool) : Int × Device :=
  let r := d.objects.referenceCommand d.manager e.token (read32 f.payload 0) increment strong
  (r.1, { d with objects := r.2 })

/-- `BC_INCREFS_DONE` and `BC_ACQUIRE_DONE`: pointer and cookie. -/
def acknowledge (d : Device) (e : Endpoint) (f : Frame) (increfs : Bool) : Int × Device :=
  match d.objects.doneNode e.token (read64 f.payload 0) (read64 f.payload 8) with
  | none => (0, d)
  | some node =>
    (0, { d with objects := d.objects.nodeDone node increfs }.record
      (.nodeDone e.token node.id (if increfs then .increfsDone else .acquireDone)))

/-- `BC_REQUEST_DEATH_NOTIFICATION` and `BC_CLEAR_DEATH_NOTIFICATION`: a handle and a
cookie. -/
def subscribe (d : Device) (e : Endpoint) (th : Thread) (f : Frame) (request : Bool) : Int × Device :=
  match d.objects.referenceFor e.token (read32 f.payload 0) with
  | none => (0, d)
  | some ref =>
    if request then d.requestDeath ref (read64 f.payload 4)
    else (0, d.clearDeath th ref (read64 f.payload 4))

/-- The commands that neither send a packet nor set a looper flag. -/
def handle (d : Device) (e : Endpoint) (th : Thread) (f : Frame) : BC → Int × Device
  | .freeBuffer => d.freePacket e (read64 f.payload 0)
  | .increfs => refer d e f true false
  | .acquire => refer d e f true true
  | .release => refer d e f false true
  | .decrefs => refer d e f false false
  | .increfsDone => acknowledge d e f true
  | .acquireDone => acknowledge d e f false
  | .requestDeathNotification => subscribe d e th f true
  | .clearDeathNotification => subscribe d e th f false
  | .deadBinderDone => (0, d.doneDeath e.token th (read64 f.payload 0))
  | _ => (-95, d)

/-- What a command does, told from its frame. -/
def execute (host : Host ω) (w : ω) (d : Device) (e : Endpoint) (th : Thread) (f : Frame) :
    Int × Device × ω :=
  match BC.ofWord f.command with
  | none => (-22, d, w)
  | some .enterLooper => (0, d.updateThread e.token th.tid Thread.enterLooper, w)
  | some .registerLooper => (0, d.updateThread e.token th.tid Thread.registerLooper, w)
  | some .exitLooper => (0, d.updateThread e.token th.tid Thread.exitLooper, w)
  | some .transaction => gated d w (f.packet host w d e th false)
  | some .reply => gated d w (f.packet host w d e th true)
  | some c => gated d w ((f.handle d e th c).1, (f.handle d e th c).2, w)

end Frame

/-! ## A buffer that stands -/

/-- More reads of guest memory. -/
def Reads (host : Host ω) : ω → ω → Prop :=
  Relation.ReflTransGen fun w w' => ∃ vm address size, w' = (host.read w vm address size).2

/-- In the worlds of `P` the bytes can be read at `base`, and what the write half asks of
the host leads from such a world to such a world. -/
structure Steady (host : Host ω) (vm base : Nat) (bytes : List UInt8) (P : ω → Prop) : Prop where
  stands : ∀ {w} address size, P w → base ≤ address → address + size ≤ base + bytes.length →
    (host.read w vm address size).1.map (·.1) = some ((bytes.drop (address - base)).take size)
  read : ∀ {w} vm address size, P w → P (host.read w vm address size).2
  watchState : ∀ {w} watch, P w → P (host.watchState w watch).2
  allocate : ∀ {w} size, P w → P (host.allocate w size).2

section Steady

variable {host : Host ω} {vm base : Nat} {bytes : List UInt8} {P : ω → Prop} {w : ω}

/-- A read inside the buffer. -/
theorem Steady.fetch (hs : Steady host vm base bytes P) (hw : P w) (cursor size : Nat)
    (h : cursor + size ≤ bytes.length) :
    ∃ (bs : { bs : List UInt8 // bs.length = size }) (w' : ω),
      host.read w vm (base + cursor) size = (some bs, w') ∧
        bs.1 = (bytes.drop cursor).take size ∧ P w' ∧ Reads host w w' := by
  have hstands := hs.stands (base + cursor) size hw (by omega) (by omega)
  obtain ⟨bs, hbs, hval⟩ := Option.map_eq_some_iff.1 hstands
  rw [Nat.add_sub_cancel_left] at hval
  exact ⟨bs, _, Prod.ext hbs rfl, hval, hs.read _ _ _ hw, .single ⟨_, _, _, rfl⟩⟩

/-- Reading a watch stays in the steady worlds. -/
theorem Steady.watchBits (hs : Steady host vm base bytes P) (hw : P w) (watch : Nat) :
    P (host.watchBits w watch).2 := by
  unfold Host.watchBits
  split
  · exact hw
  · exact hs.watchState watch hw

/-- Reading a payload and its offsets stays in the steady worlds. -/
theorem Steady.readPayload (hs : Steady host vm base bytes P) (hw : P w) (e : Endpoint)
    (input : TransactionData) : P (readPayload host w e input).2 := by
  have halloc := hs.allocate (input.dataSize + input.offsetsSize) hw
  unfold Binder.readPayload
  generalize host.allocate w (input.dataSize + input.offsetsSize) = allocated at halloc
  obtain ⟨room, w₁⟩ := allocated
  cases room with
  | false => exact halloc
  | true =>
    dsimp only
    have hdata := hs.read e.vm input.dataBuffer input.dataSize halloc
    generalize host.read w₁ e.vm input.dataBuffer input.dataSize = data at hdata
    obtain ⟨data, w₂⟩ := data
    cases data with
    | none => exact hdata
    | some data =>
      dsimp only
      have hoffsets := hs.read e.vm input.offsetsBuffer input.offsetsSize hdata
      generalize host.read w₂ e.vm input.offsetsBuffer input.offsetsSize = offsets at hoffsets
      obtain ⟨offsets, w₃⟩ := offsets
      cases offsets with
      | none => exact hoffsets
      | some offsets => exact hoffsets

/-- Reserving a buffer and copying a payload there stays in the steady worlds. -/
theorem Steady.reservePayload (hs : Steady host vm base bytes P) (hw : P w) (o : Objects) (e : Endpoint)
    (tid : Int) (target : Endpoint) (input : TransactionData) (node : Option Node) :
    P (reservePayload host w o e tid target input node).2 := by
  have hbits := hs.watchBits hw target.receiveWatch
  unfold Binder.reservePayload
  dsimp only
  split
  · exact hbits
  · split
    · exact hbits
    · have hread := hs.readPayload hbits e input
      split
      next heq => rw [heq] at hread; exact hread
      next heq =>
        rw [heq] at hread
        split
        · exact hread
        · exact hread

/-- A whole packet stays in the steady worlds. -/
theorem Steady.transferRecord (hs : Steady host vm base bytes P) (hw : P w) (d : Device) (e : Endpoint)
    (th : Thread) (input : TransactionData) (reply : Bool) :
    P (transferRecord host w d e th input reply).2.2 := by
  unfold Binder.transferRecord
  split; · exact hw
  split; · exact hw
  split
  · unfold transferReply
    split; · exact hw
    split; · exact hw
    dsimp only
    split
    · exact hs.reservePayload hw _ _ _ _ _ _
    · exact hs.reservePayload hw _ _ _ _ _ _
  · unfold transferCall
    dsimp only
    split; · exact hw
    · exact hw
    · split
      · exact hs.reservePayload hw _ _ _ _ _ _
      · split
        · exact hs.reservePayload hw _ _ _ _ _ _
        · exact hs.reservePayload hw _ _ _ _ _ _

/-- A command leads from a steady world to a steady world. -/
theorem Steady.execute (hs : Steady host vm base bytes P) (hw : P w) (d : Device) (e : Endpoint)
    (th : Thread) (f : Frame) : P (f.execute host w d e th).2.2 := by
  have hgated : ∀ out : Int × Device × ω, P out.2.2 → P (gated d w out).2.2 := by
    intro out hout
    unfold gated
    split
    · exact hw
    · exact hout
  have hpacket : ∀ reply : Bool, P (f.packet host w d e th reply).2.2 := by
    intro reply
    unfold Frame.packet
    split
    · exact hw
    next input _ =>
      have hrecord := hs.transferRecord hw d e th input reply
      dsimp only
      split
      · exact hrecord
      · exact hrecord
  unfold Frame.execute
  split
  · exact hw
  · exact hw
  · exact hw
  · exact hw
  · exact hgated _ (hpacket false)
  · exact hgated _ (hpacket true)
  · exact hgated _ hw

end Steady

/-! ## The slots stay -/

/-- The endpoint keeps its token, its address space and its threads' ids. -/
def Endpoint.Lodged (e e' : Endpoint) : Prop :=
  e'.token = e.token ∧ e'.vm = e.vm ∧
    ∃ g : Thread → Thread, (∀ th, (g th).tid = th.tid) ∧ e'.threads = e.threads.map g

/-- Every endpoint does. -/
def Device.Lodged (d d' : Device) : Prop :=
  ∃ g : Endpoint → Endpoint, (∀ e : Endpoint, e.Lodged (g e)) ∧ d'.endpoints = d.endpoints.map g

theorem Endpoint.Lodged.refl (e : Endpoint) : e.Lodged e := ⟨rfl, rfl, id, fun _ => rfl, by simp⟩

namespace Device.Lodged

variable {d d' d'' : Device}

theorem of_eq (h : d'.endpoints = d.endpoints) : d.Lodged d' := ⟨id, .refl, by simp [h]⟩

theorem trans (h : d.Lodged d') (h' : d'.Lodged d'') : d.Lodged d'' := by
  obtain ⟨g, hg, he⟩ := h
  obtain ⟨g', hg', he'⟩ := h'
  refine ⟨g' ∘ g, fun e => ?_, by rw [he', he, List.map_map]⟩
  obtain ⟨ht, hv, k, hk, hks⟩ := hg e
  obtain ⟨ht', hv', k', hk', hks'⟩ := hg' (g e)
  refine ⟨ht'.trans ht, hv'.trans hv, k' ∘ k, fun th => (hk' _).trans (hk th), ?_⟩
  rw [Function.comp, hks', hks, List.map_map]

/-- An edit of one endpoint that lodges it lodges the device. -/
theorem edit {k : Nat} {f : Endpoint → Endpoint} (hf : ∀ e : Endpoint, e.Lodged (f e)) :
    d.Lodged (d.updateEndpoint k f) := by
  refine ⟨fun e => if e.token == k then f e else e, fun e => ?_, rfl⟩
  dsimp only
  split
  · exact hf e
  · exact .refl e

/-- An edit of a thread that keeps its id lodges the device. -/
theorem thread {k : Nat} {i : Int} {f : Thread → Thread} (hf : ∀ th, (f th).tid = th.tid) :
    d.Lodged (d.updateThread k i f) := by
  refine edit fun e => ⟨rfl, rfl, _, fun th => ?_, rfl⟩
  split
  · exact hf th
  · rfl

/-- The device whose endpoints went through a thread update. -/
theorem of_thread {k : Nat} {i : Int} {f : Thread → Thread}
    (h : d'.endpoints = (d.updateThread k i f).endpoints) (hf : ∀ th, (f th).tid = th.tid) :
    d.Lodged d' :=
  (thread hf).trans (of_eq h)

theorem arena {k : Nat} {f : Arena → Arena} : d.Lodged (d.updateArena k f) :=
  edit fun _ => ⟨rfl, rfl, id, fun _ => rfl, by simp⟩

theorem storeReservation {k : Nat} {r : Reservation} : d.Lodged (d.storeReservation k r) := by
  have hedit : d.Lodged (d.updateEndpoint k fun e => { e with arena := r.arena }) :=
    edit fun _ => ⟨rfl, rfl, id, fun _ => rfl, by simp⟩
  exact hedit.trans (of_eq rfl)

theorem acceptParcel {e : Endpoint} {tid : Int} {answers : Nat} {work : Work} {r : Reservation} :
    d.Lodged (d.acceptParcel e tid answers work r) :=
  of_thread rfl fun _ => rfl

theorem refusePayload {e : Endpoint} {th : Thread} {call : Bool} {result : Int} :
    d.Lodged (d.refusePayload e th call result).2 := by
  unfold Device.refusePayload
  split
  · exact of_thread rfl fun _ => rfl
  · exact of_eq rfl

theorem finishCall {k : Nat} {i : Int} {t : Transaction} : d.Lodged (d.finishCall k i t) := by
  have hin : d.Lodged (d.updateThread k i fun th => { th with incoming := 0 }) := thread fun _ => rfl
  unfold Device.finishCall
  exact hin.trans (of_thread rfl fun _ => rfl)

theorem startCall {k : Nat} {i : Int} {target : Nat} : d.Lodged (d.startCall k i target) :=
  of_thread rfl fun _ => rfl

theorem freePacket {e : Endpoint} {buffer : Nat} : d.Lodged (d.freePacket e buffer).2 := by
  unfold Device.freePacket
  split; · exact of_eq rfl
  split; · exact of_eq rfl
  exact arena.trans (of_eq rfl)

theorem recordSlot {o : Objects} {slot : Option Nat} {event : Nat → Event} :
    d.Lodged ({ d with objects := o }.recordSlot slot event) := by
  cases slot with
  | none => exact of_eq rfl
  | some slot => exact of_eq rfl

/-- A packet keeps every endpoint's token, address space and thread ids, whatever comes of it. -/
theorem transferRecord {ω : Type} {host : Host ω} {w : ω} {e : Endpoint} {th : Thread}
    {input : TransactionData} {reply : Bool} :
    d.Lodged (transferRecord host w d e th input reply).2.1 := by
  unfold Binder.transferRecord
  split; · exact of_eq rfl
  split; · exact of_eq rfl
  split
  · unfold transferReply
    split
    · have hdead : d.Lodged (d.updateThread e.token th.tid fun th => { th with deadReply := false }) :=
        thread fun _ => rfl
      exact hdead.trans (of_thread rfl fun _ => rfl)
    split; · exact of_eq rfl
    dsimp only
    split
    · exact storeReservation.trans refusePayload
    · exact (storeReservation.trans finishCall).trans acceptParcel
  · unfold transferCall
    dsimp only
    split
    · exact of_eq rfl
    · exact of_thread rfl fun _ => rfl
    · split
      · exact storeReservation.trans refusePayload
      · split
        · exact storeReservation.trans ((of_eq rfl).trans acceptParcel)
        · exact (storeReservation.trans startCall).trans acceptParcel

/-- No command moves an endpoint or a thread. -/
theorem execute {ω : Type} {host : Host ω} {w : ω} {e : Endpoint} {th : Thread} {f : Frame} :
    d.Lodged (f.execute host w d e th).2.1 := by
  have hgated : ∀ out : Int × Device × ω, d.Lodged out.2.1 → d.Lodged (gated d w out).2.1 := by
    intro out hout
    unfold gated
    split
    · exact of_eq rfl
    · exact hout
  have hpacket : ∀ reply : Bool, d.Lodged (f.packet host w d e th reply).2.1 := by
    intro reply
    unfold Frame.packet
    split
    · exact of_eq rfl
    · dsimp only
      split
      · exact transferRecord.trans (of_eq rfl)
      · exact transferRecord
  have hsubscribe : ∀ request : Bool, d.Lodged (f.subscribe d e th request).2 := by
    intro request
    unfold Frame.subscribe
    split
    · exact of_eq rfl
    · split
      · exact recordSlot
      · exact recordSlot
  have hacknowledge : ∀ increfs : Bool, d.Lodged (f.acknowledge d e increfs).2 := by
    intro increfs
    unfold Frame.acknowledge
    split
    · exact of_eq rfl
    · exact of_eq rfl
  unfold Frame.execute
  split
  · exact of_eq rfl
  · exact thread fun _ => rfl
  · exact thread fun _ => rfl
  · exact thread fun _ => rfl
  · exact hgated _ (hpacket false)
  · exact hgated _ (hpacket true)
  next c _ _ _ _ _ _ =>
    refine hgated _ ?_
    cases c
    case freeBuffer => exact freePacket
    case requestDeathNotification => exact hsubscribe true
    case clearDeathNotification => exact hsubscribe false
    case increfsDone => exact hacknowledge true
    case acquireDone => exact hacknowledge false
    case deadBinderDone => exact recordSlot
    all_goals exact of_eq rfl

/-- The endpoint and the thread are found again. -/
theorem found (h : d.Lodged d') {token : Nat} {tid : Int} {e : Endpoint} {th : Thread}
    (he : d.endpointFor token = some e) (hth : d.threadFor token tid = some th) :
    ∃ e' th', d'.endpointFor token = some e' ∧ e'.vm = e.vm ∧ d'.threadFor token tid = some th' := by
  obtain ⟨g, hg, hendpoints⟩ := h
  have hfind : d'.endpointFor token = (d.endpointFor token).map g := by
    unfold Device.endpointFor
    rw [hendpoints, List.find?_map]
    congr 1
    refine List.find?_congr fun x _ => ?_
    show ((g x).token == token && token != 0) = (x.token == token && token != 0)
    rw [(hg x).1]
  rw [he, Option.map_some] at hfind
  obtain ⟨_, hvm, k, hk, hthreads⟩ := hg e
  rw [Device.threadFor_of he] at hth
  refine ⟨g e, k th, hfind, hvm, ?_⟩
  rw [Device.threadFor_of hfind]
  unfold Endpoint.threadFor at hth ⊢
  rw [hthreads, List.find?_map]
  have hsame : ((fun t : Thread => t.tid == tid) ∘ k) = fun t => t.tid == tid := by
    funext t
    show ((k t).tid == tid) = (t.tid == tid)
    rw [hk]
  rw [hsame, hth]
  rfl

end Device.Lodged

/-! ## One command -/

section Command

variable {host : Host ω} {base : Nat} {bytes : List UInt8} {P : ω → Prop} {w : ω} {d : Device}
  {e : Endpoint} {th : Thread} {f : Frame} {cursor c : Nat}

/-- An argument of a frame, where the dispatcher looks for it. -/
theorem field_encode (f : Frame) (i n : Nat) : field f.encode (4 + i) n = field f.payload i n := by
  rw [field, field, ← List.drop_drop, Frame.encode, List.drop_left' (length_writeLE 4 f.command)]

/-- A frame's payload is what follows its command word. -/
theorem drop_encode (f : Frame) : f.encode.drop 4 = f.payload := by
  rw [Frame.encode, List.drop_left' (length_writeLE 4 f.command)]

/-- The word the dispatcher reads first is the frame's. -/
theorem read32_word (hnext : binderNext .write bytes cursor = .ok (f, c)) :
    read32 ((bytes.drop cursor).take 4) 0 = f.command := by
  obtain ⟨_, _, _, hcommand, _⟩ := binderNext_ok hnext
  rw [hcommand, read32, field_slice bytes (Nat.le_refl 4), Nat.add_zero]

/-- The parser knows every word it cut off, also in the dispatcher's short copy. -/
theorem binderNext_word (hnext : binderNext .write bytes cursor = .ok (f, c)) :
    ∃ r, binderNext .write ((bytes.drop cursor).take 4 ++ List.replicate 72 0) 0 = .ok r := by
  obtain ⟨hwf, hc, hle, _⟩ := binderNext_ok hnext
  have hsmall : f.payload.length ≤ 72 := by
    obtain ⟨word, _, hlen⟩ := Option.map_eq_some_iff.1 hwf
    rw [← hlen]
    cases word <;> decide
  -- the same word in front of zeros
  let blank : Frame := ⟨f.command, List.replicate f.payload.length 0⟩
  have hblank : blank.WellFormed .write := by
    show frameLength .write f.command = some (List.replicate f.payload.length 0).length
    rw [List.length_replicate]
    exact hwf
  have hword : (bytes.drop cursor).take 4 = writeLE 4 f.command := by
    have hhead := congrArg (List.take 4) (encode_of_next hnext)
    rw [List.take_take, Nat.min_eq_left (by omega), Frame.encode,
      List.take_append_of_le_length (by simp), List.take_of_length_le (by simp)] at hhead
    exact hhead.symm
  have hcopy : ((bytes.drop cursor).take 4 ++ List.replicate 72 0).drop 0 =
      blank.encode ++ List.replicate (72 - f.payload.length) 0 := by
    rw [List.drop_zero, hword, Frame.encode, List.append_assoc, ← List.replicate_add,
      Nat.add_sub_cancel' hsmall]
  exact ⟨_, binderNext_encode hblank hcopy⟩

/-- A second read of the command reads the whole frame. -/
theorem Steady.fetchFrame (hs : Steady host e.vm base bytes P) (hw : P w)
    (hnext : binderNext .write bytes cursor = .ok (f, c)) {size : Nat} (hsize : size = 4 + f.payload.length) :
    ∃ (bs : { bs : List UInt8 // bs.length = size }) (w' : ω),
      host.read w e.vm (base + cursor) size = (some bs, w') ∧ bs.1 = f.encode ∧ P w' ∧ Reads host w w' := by
  obtain ⟨_, hc, hle, _⟩ := binderNext_ok hnext
  obtain ⟨bs, w', hread, hval, hP, hreads⟩ := hs.fetch hw cursor size (by omega)
  exact ⟨bs, w', hread, by rw [hval, encode_of_next hnext, hsize], hP, hreads⟩

/-- A command that needs receive memory, behind the read of its word. -/
theorem Steady.behind (hs : Steady host e.vm base bytes P) (hw : P w)
    (hnext : binderNext .write bytes cursor = .ok (f, c)) {size : Nat} (hsize : size = 4 + f.payload.length)
    {out : Int × Device × ω} {m : ω → Int × Device × ω} (h0 : d.receiveLimit = 0 → out = (-95, d, w))
    (h1 : d.receiveLimit ≠ 0 → ∀ (bs : { bs : List UInt8 // bs.length = size }) (w' : ω),
      host.read w e.vm (base + cursor) size = (some bs, w') → bs.1 = f.encode → out = m w') :
    ∃ w', Reads host w w' ∧ P w' ∧ out = gated d w' (m w') := by
  by_cases hlimit : d.receiveLimit = 0
  · refine ⟨w, .refl, hw, ?_⟩
    rw [gated, if_pos hlimit]
    exact h0 hlimit
  · obtain ⟨bs, w', hread, hval, hP, hreads⟩ := hs.fetchFrame hw hnext hsize
    refine ⟨w', hreads, hP, ?_⟩
    rw [gated, if_neg hlimit]
    exact h1 hlimit bs w' hread hval

/-- What the device reads for a packet is the frame's payload. -/
theorem Steady.packetCommand (hs : Steady host e.vm base bytes P) (hw : P w)
    (hnext : binderNext .write bytes cursor = .ok (f, c)) (d : Device) (th : Thread) (reply : Bool)
    (hword : (if reply then BC.reply.word else BC.transaction.word) = f.command)
    (hsize : 68 = 4 + f.payload.length) :
    ∃ w', Reads host w w' ∧ P w' ∧ Binder.packetCommand host w d e th (base + cursor) reply =
      gated d w' (f.packet host w' d e th reply) := by
  refine hs.behind hw hnext hsize (fun h => ?_) fun h bs w' hread hval => ?_
  · simp [Binder.packetCommand, transferPacket, h]
  · have hframe : (⟨f.command, f.encode.drop 4⟩ : Frame) = f := by rw [drop_encode]
    unfold Binder.packetCommand transferPacket Frame.packet
    rw [if_neg h, hread]
    dsimp only
    rw [hval, hword, hframe]
    cases decodeTransaction f with
    | error _ => rfl
    | ok input => rfl

/-- What the device reads for `BC_FREE_BUFFER` is the address in the frame. -/
theorem Steady.freeCommand (hs : Steady host e.vm base bytes P) (hw : P w)
    (hnext : binderNext .write bytes cursor = .ok (f, c)) (d : Device) (hsize : 12 = 4 + f.payload.length) :
    ∃ w', Reads host w w' ∧ P w' ∧ Binder.freeCommand host w d e (base + cursor) =
      gated d w' ((d.freePacket e (read64 f.payload 0)).1, (d.freePacket e (read64 f.payload 0)).2, w') := by
  refine hs.behind hw hnext hsize (m := fun w' => (_, _, w')) (fun h => ?_) fun h bs w' hread hval => ?_
  · simp [Binder.freeCommand, h]
  · unfold Binder.freeCommand
    rw [if_neg h, hread]
    dsimp only
    rw [hval, read64, field_encode f 0]

/-- What the device reads for a count is the handle in the frame. -/
theorem Steady.referenceCommand (hs : Steady host e.vm base bytes P) (hw : P w)
    (hnext : binderNext .write bytes cursor = .ok (f, c)) (d : Device) (increment strong : Bool)
    (hsize : 8 = 4 + f.payload.length) :
    ∃ w', Reads host w w' ∧ P w' ∧ Binder.referenceCommand host w d e (base + cursor) increment strong =
      gated d w' ((f.refer d e increment strong).1, (f.refer d e increment strong).2, w') := by
  refine hs.behind hw hnext hsize (m := fun w' => (_, _, w')) (fun h => ?_) fun h bs w' hread hval => ?_
  · simp [Binder.referenceCommand, h]
  · unfold Binder.referenceCommand Frame.refer
    rw [if_neg h, hread]
    dsimp only
    rw [hval, read32, field_encode f 0]

/-- What the device reads for an acknowledged count is the frame's pointer and cookie. -/
theorem Steady.nodeDoneCommand (hs : Steady host e.vm base bytes P) (hw : P w)
    (hnext : binderNext .write bytes cursor = .ok (f, c)) (d : Device) (increfs : Bool)
    (hsize : 20 = 4 + f.payload.length) :
    ∃ w', Reads host w w' ∧ P w' ∧ Binder.nodeDoneCommand host w d e (base + cursor) increfs =
      gated d w' ((f.acknowledge d e increfs).1, (f.acknowledge d e increfs).2, w') := by
  refine hs.behind hw hnext hsize (m := fun w' => (_, _, w')) (fun h => ?_) fun h bs w' hread hval => ?_
  · simp [Binder.nodeDoneCommand, h]
  · unfold Binder.nodeDoneCommand Frame.acknowledge
    rw [if_neg h, hread]
    dsimp only
    rw [hval, read64, field_encode f 0, read64, field_encode f 8]
    cases d.objects.doneNode e.token (field f.payload 0 8) (field f.payload 8 8) with
    | none => rfl
    | some node => rfl

/-- What the device reads for an acknowledged death is the frame's cookie. -/
theorem Steady.doneDeathCommand (hs : Steady host e.vm base bytes P) (hw : P w)
    (hnext : binderNext .write bytes cursor = .ok (f, c)) (d : Device) (th : Thread)
    (hsize : 12 = 4 + f.payload.length) :
    ∃ w', Reads host w w' ∧ P w' ∧ Binder.doneDeathCommand host w d e th (base + cursor) =
      gated d w' (0, d.doneDeath e.token th (read64 f.payload 0), w') := by
  refine hs.behind hw hnext hsize (m := fun w' => (_, _, w')) (fun h => ?_) fun h bs w' hread hval => ?_
  · simp [Binder.doneDeathCommand, h]
  · unfold Binder.doneDeathCommand
    rw [if_neg h, hread]
    dsimp only
    rw [hval, read64, field_encode f 0]

/-- What the device reads for a subscription is the frame's handle and cookie. -/
theorem Steady.deathCommand (hs : Steady host e.vm base bytes P) (hw : P w)
    (hnext : binderNext .write bytes cursor = .ok (f, c)) (d : Device) (th : Thread) (request : Bool)
    (hsize : 16 = 4 + f.payload.length) :
    ∃ w', Reads host w w' ∧ P w' ∧ Binder.deathCommand host w d e th (base + cursor) request =
      gated d w' ((f.subscribe d e th request).1, (f.subscribe d e th request).2, w') := by
  refine hs.behind hw hnext hsize (m := fun w' => (_, _, w')) (fun h => ?_) fun h bs w' hread hval => ?_
  · simp [Binder.deathCommand, h]
  · unfold Binder.deathCommand Frame.subscribe
    rw [if_neg h, hread]
    dsimp only
    rw [hval, read32, field_encode f 0, read64, field_encode f 4]
    cases d.objects.referenceFor e.token (field f.payload 0 4) with
    | none => rfl
    | some ref => cases request <;> rfl

/-- The dispatcher does what the frame says, and moves on by the frame's length. -/
theorem Steady.command (hs : Steady host e.vm base bytes P) (hw : P w)
    (hnext : binderNext .write bytes cursor = .ok (f, c)) (d : Device) (th : Thread) :
    ∃ w' r n, Reads host w w' ∧ P w' ∧ f.execute host w' d e th = r ∧
      Binder.command host w d e th (base + cursor) = .of n r ∧ (r.1 = 0 → cursor + n = c) := by
  obtain ⟨hwf, hc, hle, _⟩ := binderNext_ok hnext
  obtain ⟨word, w₁, hread, hval, hP, hreads⟩ := hs.fetch hw cursor 4 (by omega)
  obtain ⟨bc, hbc, hlen⟩ := Option.map_eq_some_iff.1 hwf
  have hword : BC.ofWord (read32 word.1 0) = some bc := by
    rw [hval, read32_word hnext]
    exact hbc
  have hcommand := BC.word_of_ofWord hbc
  obtain ⟨parsed, hparsed⟩ := binderNext_word hnext
  rw [← hval] at hparsed
  -- a command `n` bytes long, `w'` being the world behind its reads
  have close : ∀ {w' : ω} {out x : Int × Device × ω} (n : Nat), Reads host w₁ w' → P w' → out = x →
      f.execute host w' d e th = x → (x.1 = 0 → n = 4 + bc.writeLength) →
        Binder.command host w d e th (base + cursor) = .of n out →
          ∃ w' r n, Reads host w w' ∧ P w' ∧ f.execute host w' d e th = r ∧
            Binder.command host w d e th (base + cursor) = .of n r ∧ (r.1 = 0 → cursor + n = c) := by
    intro w' out x n hmore hP' heq hexecute hn hout
    subst heq
    refine ⟨w', out, n, hreads.trans hmore, hP', hexecute, hout, fun h0 => ?_⟩
    have := hn h0
    omega
  have size : ∀ {n : Nat}, n = 4 + bc.writeLength → n = 4 + f.payload.length := by
    intro n hn
    omega
  cases bc
  case transaction =>
    obtain ⟨w', hmore, hP', heq⟩ := hs.packetCommand hP hnext d th false hcommand (size rfl)
    refine close 68 hmore hP' heq ?_ (fun _ => rfl) ?_
    · rw [Frame.execute, hbc]
    · simp only [Binder.command, hread, hword]
  case reply =>
    obtain ⟨w', hmore, hP', heq⟩ := hs.packetCommand hP hnext d th true hcommand (size rfl)
    refine close 68 hmore hP' heq ?_ (fun _ => rfl) ?_
    · rw [Frame.execute, hbc]
    · simp only [Binder.command, hread, hword]
  case freeBuffer =>
    obtain ⟨w', hmore, hP', heq⟩ := hs.freeCommand hP hnext d (size rfl)
    refine close 12 hmore hP' heq ?_ (fun _ => rfl) ?_
    · rw [Frame.execute, hbc]
      rfl
    · simp only [Binder.command, hread, hword]
  case increfs =>
    obtain ⟨w', hmore, hP', heq⟩ := hs.referenceCommand hP hnext d true false (size rfl)
    refine close 8 hmore hP' heq ?_ (fun _ => rfl) ?_
    · rw [Frame.execute, hbc]
      rfl
    · simp only [Binder.command, hread, hword]
  case acquire =>
    obtain ⟨w', hmore, hP', heq⟩ := hs.referenceCommand hP hnext d true true (size rfl)
    refine close 8 hmore hP' heq ?_ (fun _ => rfl) ?_
    · rw [Frame.execute, hbc]
      rfl
    · simp only [Binder.command, hread, hword]
  case release =>
    obtain ⟨w', hmore, hP', heq⟩ := hs.referenceCommand hP hnext d false true (size rfl)
    refine close 8 hmore hP' heq ?_ (fun _ => rfl) ?_
    · rw [Frame.execute, hbc]
      rfl
    · simp only [Binder.command, hread, hword]
  case decrefs =>
    obtain ⟨w', hmore, hP', heq⟩ := hs.referenceCommand hP hnext d false false (size rfl)
    refine close 8 hmore hP' heq ?_ (fun _ => rfl) ?_
    · rw [Frame.execute, hbc]
      rfl
    · simp only [Binder.command, hread, hword]
  case increfsDone =>
    obtain ⟨w', hmore, hP', heq⟩ := hs.nodeDoneCommand hP hnext d true (size rfl)
    refine close 20 hmore hP' heq ?_ (fun _ => rfl) ?_
    · rw [Frame.execute, hbc]
      rfl
    · simp only [Binder.command, hread, hword]
  case acquireDone =>
    obtain ⟨w', hmore, hP', heq⟩ := hs.nodeDoneCommand hP hnext d false (size rfl)
    refine close 20 hmore hP' heq ?_ (fun _ => rfl) ?_
    · rw [Frame.execute, hbc]
      rfl
    · simp only [Binder.command, hread, hword]
  case requestDeathNotification =>
    obtain ⟨w', hmore, hP', heq⟩ := hs.deathCommand hP hnext d th true (size rfl)
    refine close 16 hmore hP' heq ?_ (fun _ => rfl) ?_
    · rw [Frame.execute, hbc]
      rfl
    · simp only [Binder.command, hread, hword]
  case clearDeathNotification =>
    obtain ⟨w', hmore, hP', heq⟩ := hs.deathCommand hP hnext d th false (size rfl)
    refine close 16 hmore hP' heq ?_ (fun _ => rfl) ?_
    · rw [Frame.execute, hbc]
      rfl
    · simp only [Binder.command, hread, hword]
  case deadBinderDone =>
    obtain ⟨w', hmore, hP', heq⟩ := hs.doneDeathCommand hP hnext d th (size rfl)
    refine close 12 hmore hP' heq ?_ (fun _ => rfl) ?_
    · rw [Frame.execute, hbc]
      rfl
    · simp only [Binder.command, hread, hword]
  case enterLooper =>
    refine close 4 .refl hP rfl ?_ (fun _ => rfl) ?_ (x := (0, d.updateThread e.token th.tid Thread.enterLooper, w₁))
    · rw [Frame.execute, hbc]
    · simp only [Binder.command, hread, hword]
      rfl
  case registerLooper =>
    refine close 4 .refl hP rfl ?_ (fun _ => rfl) ?_ (x := (0, d.updateThread e.token th.tid Thread.registerLooper, w₁))
    · rw [Frame.execute, hbc]
    · simp only [Binder.command, hread, hword]
      rfl
  case exitLooper =>
    refine close 4 .refl hP rfl ?_ (fun _ => rfl) ?_ (x := (0, d.updateThread e.token th.tid Thread.exitLooper, w₁))
    · rw [Frame.execute, hbc]
    · simp only [Binder.command, hread, hword]
      rfl
  all_goals
    -- known to the parser, not to the device
    refine close 4 .refl hP rfl ?_ ?_ ?_ (x := (-95, d, w₁))
    · rw [Frame.execute, hbc]
      exact ite_self _
    · intro h0
      cases h0
    · simp only [Binder.command, hread, hword, hparsed]
      rfl

end Command

/-! ## A command that fails -/

section Failing

variable {host : Host ω} {w : ω} {d : Device} {e : Endpoint} {th : Thread} {f : Frame}

/-- A reference that was not counted was not made either. -/
theorem Objects.referenceCommand_failed (o : Objects) (manager k handle : Nat) (increment strong : Bool)
    (h : (o.referenceCommand manager k handle increment strong).1 ≠ 0) :
    (o.referenceCommand manager k handle increment strong).2 = o := by
  -- the count can only be full on a reference that was there
  have hadjust : ∀ (x : Objects) (ref : Reference), (x.adjustReference ref increment strong).1 ≠ 0 →
      (if strong then ref.strong else ref.weak) = uint32Max ∧
        (x.adjustReference ref increment strong).2 = x := by
    intro x ref hne
    unfold Objects.adjustReference at hne ⊢
    by_cases hfull : increment = true ∧ (if strong then ref.strong else ref.weak) = uint32Max
    · simp only [if_pos hfull]
      exact ⟨hfull.2, trivial⟩
    · simp only [if_neg hfull] at hne
      exact absurd rfl hne
  unfold Objects.referenceCommand at h ⊢
  split at h
  next hmanager =>
    rw [if_pos hmanager]
    split at h
    next hself => rw [if_pos hself]
    next hself =>
      rw [if_neg hself]
      cases hnode : o.nodeFor o.managerNode with
      | none => rfl
      | some node =>
        rw [hnode] at h
        dsimp only at h ⊢
        cases hensure : o.ensureReference k node with
        | none => rfl
        | some found =>
          obtain ⟨ref, x⟩ := found
          rw [hensure] at h
          dsimp only at h ⊢
          obtain ⟨hfull, hsame⟩ := hadjust x ref h
          rw [hsame]
          unfold Objects.ensureReference at hensure
          split at hensure
          · cases hensure
            rfl
          · split at hensure
            · cases hensure
            next handle _ =>
              obtain ⟨references, _, heq⟩ := Option.map_eq_some_iff.1 hensure
              cases heq
              cases strong <;> cases hfull
  next hmanager =>
    rw [if_neg hmanager]
    cases href : o.referenceFor k handle with
    | none => rfl
    | some ref =>
      rw [href] at h
      exact (hadjust o ref h).2

/-- A refused packet leaves the device untouched, apart from the sender's pending error. -/
theorem transferRecord_untouched (hi : EndpointIds d) (ha : Accounts d) (hf : Found d e th)
    {input : TransactionData} {reply : Bool} (h : (transferRecord host w d e th input reply).1 ≠ 0) :
    d.Untouched e.token th.tid (transferRecord host w d e th input reply).2.1 := by
  unfold transferRecord at h ⊢
  split at h
  next hflags =>
    rw [if_pos hflags]
    exact .refl _ _ d
  next hflags =>
    rw [if_neg hflags]
    split at h
    next hbusy =>
      rw [if_pos hbusy]
      exact .refl _ _ d
    next hbusy =>
      rw [if_neg hbusy]
      simp only [not_or, Option.not_isSome_iff_eq_none] at hbusy
      split at h
      next hreply =>
        rw [if_pos hreply]
        exact transferReply_traceless hi ha hf hbusy.1 hbusy.2.2 (.inl h)
      next hreply =>
        rw [if_neg hreply]
        exact transferCall_traceless hi ha hf hbusy.1 hbusy.2.2 (.inl h)

/-- A command that fails leaves the device untouched. -/
theorem handle_untouched {c : BC} (h : (f.handle d e th c).1 ≠ 0) :
    d.Untouched e.token th.tid (f.handle d e th c).2 := by
  have hrefer : ∀ increment strong : Bool, (f.refer d e increment strong).1 ≠ 0 →
      (f.refer d e increment strong).2 = d := by
    intro increment strong hne
    show { d with objects := _ } = d
    rw [Objects.referenceCommand_failed _ _ _ _ _ _ hne]
  have hacknowledge : ∀ increfs : Bool, (f.acknowledge d e increfs).1 = 0 := by
    intro increfs
    unfold Frame.acknowledge
    split <;> rfl
  have hsubscribe : ∀ request : Bool, (f.subscribe d e th request).1 ≠ 0 →
      (f.subscribe d e th request).2 = d := by
    intro request hne
    unfold Frame.subscribe at hne ⊢
    cases href : d.objects.referenceFor e.token (read32 f.payload 0) with
    | none => rfl
    | some ref =>
      rw [href] at hne
      dsimp only at hne ⊢
      cases request with
      | false => exact absurd rfl hne
      | true =>
        unfold Device.requestDeath Objects.requestDeath at hne ⊢
        rw [if_pos rfl] at hne ⊢
        dsimp only at hne ⊢
        split at hne
        next => exact absurd rfl hne
        next hdeath =>
          rw [if_neg hdeath]
          split at hne
          next => rfl
          next => exact absurd rfl hne
  have hsame : (f.handle d e th c).2 = d := by
    cases c
    case freeBuffer =>
      unfold Frame.handle Device.freePacket at h ⊢
      dsimp only at h ⊢
      split
      next => rfl
      next arena harena =>
        rw [harena] at h
        dsimp only at h
        split
        next => rfl
        next hrelease => rw [if_neg hrelease] at h; exact absurd rfl h
    case increfs => exact hrefer true false h
    case acquire => exact hrefer true true h
    case release => exact hrefer false true h
    case decrefs => exact hrefer false false h
    case increfsDone => exact absurd (hacknowledge true) h
    case acquireDone => exact absurd (hacknowledge false) h
    case requestDeathNotification => exact hsubscribe true h
    case clearDeathNotification => exact hsubscribe false h
    case deadBinderDone => exact absurd rfl h
    all_goals rfl
  rw [hsame]
  exact .refl _ _ d

/-- A command that fails has changed nothing, but for what a refused parcel may change. -/
theorem execute_untouched (hd : d.Reachable) (hf : Found d e th) (h : (f.execute host w d e th).1 ≠ 0) :
    d.Untouched e.token th.tid (f.execute host w d e th).2.1 := by
  have hgated : ∀ out : Int × Device × ω, (out.1 ≠ 0 → d.Untouched e.token th.tid out.2.1) →
      (gated d w out).1 ≠ 0 → d.Untouched e.token th.tid (gated d w out).2.1 := by
    intro out hout hne
    unfold gated at hne ⊢
    split at hne
    next hlimit =>
      rw [if_pos hlimit]
      exact .refl _ _ d
    next hlimit =>
      rw [if_neg hlimit]
      exact hout hne
  have hpacket : ∀ reply : Bool, (f.packet host w d e th reply).1 ≠ 0 →
      d.Untouched e.token th.tid (f.packet host w d e th reply).2.1 := by
    intro reply hne
    unfold Frame.packet at hne ⊢
    split at hne
    next => exact .refl _ _ d
    next input _ =>
      dsimp only at hne ⊢
      split at hne
      next => exact absurd rfl hne
      next hresult =>
        rw [if_neg hresult]
        exact transferRecord_untouched hd.endpointIds hd.accounts hf hne
  revert h
  unfold Frame.execute
  split
  · intro _
    exact .refl _ _ d
  · intro h
    exact absurd rfl h
  · intro h
    exact absurd rfl h
  · intro h
    exact absurd rfl h
  · exact hgated _ (hpacket false)
  · exact hgated _ (hpacket true)
  · exact hgated _ handle_untouched

end Failing

/-! ## The loop -/

section Loop

variable {host : Host ω} {token : Nat} {tid : Int} {vm base : Nat} {bytes : List UInt8} {P : ω → Prop}

/-- The frames are executed one after the other, each on the thread as the one before left
it, without an error pending. Between two of them the device only reads guest memory. -/
inductive Executes (host : Host ω) (token : Nat) (tid : Int) :
    List Frame → Device × ω → Device × ω → Prop
  | nil (s : Device × ω) : Executes host token tid [] s s
  | cons {f : Frame} {frames : List Frame} {d d' : Device} {w w₁ w' : ω} {s : Device × ω}
      {e : Endpoint} {th : Thread} :
    d.endpointFor token = some e → d.threadFor token tid = some th → th.error = none →
      Reads host w w₁ → f.execute host w₁ d e th = (0, d', w') →
        Executes host token tid frames (d', w') s → Executes host token tid (f :: frames) (d, w) s

/-- The thread is found, with or without an error. -/
def Device.Pending (d : Device) (token : Nat) (tid : Int) (pending : Bool) : Prop :=
  ∃ th, d.threadFor token tid = some th ∧ th.error.isSome = pending

/-- The command behind the last that succeeded fails, and leaves nothing behind. -/
structure FailsAt (host : Host ω) (token : Nat) (tid : Int) (f : Frame) (s : Device × ω) (result : Int)
    (s' : Device × ω) : Prop where
  fails : ∃ e th w, s.1.endpointFor token = some e ∧ s.1.threadFor token tid = some th ∧
    th.error = none ∧ Reads host s.2 w ∧ f.execute host w s.1 e th = (result, s'.1, s'.2)
  result : result ≠ 0
  untouched : s.1.Untouched token tid s'.1

/-- What the write half makes of a buffer that splits into `frames` from `cursor` on: the
first `k` are executed and `consumed` is where the last of them ends; then there are no
more, or an error is pending on the thread, or the next one has failed. -/
structure WriteHalf (host : Host ω) (token : Nat) (tid : Int) (frames : List Frame) (cursor : Nat)
    (s : Device × ω) (k : Nat) (r : CommandResult ω) (s' : Device × ω) : Prop where
  le : k ≤ frames.length
  executed : Executes host token tid (frames.take k) s s'
  consumed : r.consumed = cursor + (encodeAll (frames.take k)).length
  ends : (r.result = 0 ∧ (r.device, r.world) = s' ∧ (k = frames.length ∨ s'.1.Pending token tid true)) ∨
    ∃ f, frames[k]? = some f ∧ FailsAt host token tid f s' r.result (r.device, r.world)

/-- A buffer that is used up has no more frames. -/
theorem nextAll_end {frames : List Frame}
    (hsplit : nextAll .write bytes bytes.length = (frames, .endOfStream, bytes.length)) : frames = [] := by
  have hnext : binderNext .write bytes bytes.length = .error .endOfStream := by
    unfold binderNext
    rw [if_neg (Nat.lt_irrefl _), if_pos (Nat.sub_self _)]
  rw [nextAll_error hnext] at hsplit
  cases hsplit
  rfl

/-- Before its end it has one. -/
theorem nextAll_more {frames : List Frame} {cursor : Nat} (hlt : cursor < bytes.length)
    (hsplit : nextAll .write bytes cursor = (frames, .endOfStream, bytes.length)) :
    ∃ f c rest, binderNext .write bytes cursor = .ok (f, c) ∧ frames = f :: rest ∧
      nextAll .write bytes c = (rest, .endOfStream, bytes.length) := by
  cases hnext : binderNext .write bytes cursor with
  | error stop =>
    rw [nextAll_error hnext] at hsplit
    cases hsplit
    exact absurd hlt (Nat.lt_irrefl _)
  | ok r =>
    obtain ⟨f, c⟩ := r
    rw [nextAll_ok hnext] at hsplit
    obtain ⟨hframes, hrest⟩ := Prod.mk.inj hsplit
    exact ⟨f, c, _, rfl, hframes.symm, Prod.ext rfl hrest⟩

/-- Nothing is executed. -/
theorem WriteHalf.stop {frames : List Frame} {cursor : Nat} {d : Device} {w : ω}
    (h : frames = [] ∨ d.Pending token tid true) :
    WriteHalf host token tid frames cursor (d, w) 0 ⟨0, cursor, d, w⟩ (d, w) := by
  refine ⟨Nat.zero_le _, .nil _, rfl, .inl ⟨rfl, rfl, ?_⟩⟩
  rcases h with rfl | h
  · exact .inl rfl
  · exact .inr h

/-- The loop from a frame boundary on. -/
theorem writeLoop_frames {frames : List Frame} {rounds cursor : Nat} {d : Device} {w : ω} {e : Endpoint}
    {th : Thread} (hs : Steady host vm base bytes P) (hbase : base + bytes.length < 2 ^ 64) (hw : P w)
    (hd : d.Reachable) (he : d.endpointFor token = some e) (hvm : e.vm = vm)
    (hth : d.threadFor token tid = some th)
    (hsplit : nextAll .write bytes cursor = (frames, .endOfStream, bytes.length))
    (hcursor : cursor ≤ bytes.length) (hrounds : bytes.length ≤ cursor + rounds) :
    ∃ k s', WriteHalf host token tid frames cursor (d, w) k
      (writeLoop host token tid base bytes.length rounds cursor d w) s' := by
  induction rounds generalizing frames cursor d w e th with
  | zero =>
    have hend : cursor = bytes.length := by omega
    subst hend
    exact ⟨0, _, .stop (.inl (nextAll_end hsplit))⟩
  | succ rounds ih =>
    unfold writeLoop
    rw [he, hth]
    dsimp only
    by_cases herror : th.error.isSome = true
    · rw [if_pos (.inl herror)]
      exact ⟨0, _, .stop (.inr ⟨th, hth, herror⟩)⟩
    by_cases hend : bytes.length ≤ cursor
    · have hend' : cursor = bytes.length := by omega
      subst hend'
      rw [if_pos (.inr hend)]
      exact ⟨0, _, .stop (.inl (nextAll_end hsplit))⟩
    rw [if_neg (by rintro (h | h); exacts [herror h, hend h])]
    obtain ⟨f, c, rest, hnext, rfl, hrest⟩ := nextAll_more (by omega) hsplit
    obtain ⟨_, hc, hle, _⟩ := binderNext_ok hnext
    have hmax : uint64Max = 2 ^ 64 - 1 := rfl
    rw [if_neg (by omega)]
    subst hvm
    have hfound := Found.of_threadFor he hth
    have hnone : th.error = none := Option.not_isSome_iff_eq_none.1 herror
    obtain ⟨w', r, n, hreads, hP, hexecute, hcommand, hlen⟩ := hs.command hw hnext d th
    have hkept := command_kept closed_reachable host w hd hfound (base + cursor)
    rw [hcommand] at hkept ⊢
    by_cases hresult : r.1 = 0
    · -- the next round starts behind this frame
      rw [if_neg (by exact fun hne => hne hresult)]
      have hlodged : d.Lodged r.2.1 := hexecute ▸ Device.Lodged.execute
      obtain ⟨e', th', he', hvm', hth'⟩ := hlodged.found he hth
      have hsteady : P r.2.2 := hexecute ▸ hs.execute hP d e th f
      have hn : cursor + n = c := hlen hresult
      show ∃ k s', WriteHalf host token tid (f :: rest) cursor (d, w) k
        (writeLoop host token tid base bytes.length rounds (cursor + n) r.2.1 r.2.2) s'
      rw [hn]
      obtain ⟨k, s', hhalf⟩ := ih hsteady hkept he' hvm' hth' hrest hle (by omega)
      refine ⟨k + 1, s', Nat.succ_le_succ hhalf.le, ?_, ?_, ?_⟩
      · rw [List.take_succ_cons]
        exact .cons he hth hnone hreads (hexecute.trans (Prod.ext hresult rfl)) hhalf.executed
      · refine hhalf.consumed.trans ?_
        rw [List.take_succ_cons, length_encodeAll_cons]
        omega
      · rcases hhalf.ends with ⟨h0, hsame, hall | hpending⟩ | hfails
        · exact .inl ⟨h0, hsame, .inl (congrArg (· + 1) hall)⟩
        · exact .inl ⟨h0, hsame, .inr hpending⟩
        · exact .inr hfails
    · -- it fails, and the loop with it
      rw [if_pos (show (CommandResult.of n r).result ≠ 0 from hresult)]
      have htoken := (Device.endpointFor_spec he).2.1
      have htid := Device.threadFor_tid hth
      have huntouched : d.Untouched e.token th.tid (f.execute host w' d e th).2.1 :=
        execute_untouched hd hfound (by rw [hexecute]; exact hresult)
      rw [hexecute, htoken, htid] at huntouched
      exact ⟨0, (d, w), Nat.zero_le _, .nil _, rfl,
        .inr ⟨f, rfl, ⟨e, th, w', he, hth, hnone, hreads, hexecute⟩, hresult, huntouched⟩⟩

/-- The read half of `write_read`, behind a write half that did not fail. -/
def readHalf (host : Host ω) (s : Sleeper) (e : Endpoint) (interrupted : Bool) (d : Device) (w : ω) :
    Outcome ω :=
  if s.header.readSize ≠ 0 then readWait host s e interrupted d w
  else finishWriteRead host s e.vm s.header 0 d w

/-- The write half agrees with the wire parser. Where the buffer splits into frames from the
consumed bytes on, the call executes the first `k` of them in order, each as its frame tells, and
reports the end of the last one; it goes on to the read half because there are no more frames or an error is
pending, and otherwise the next frame has failed: then the call ends with that frame's error,
nothing read, and the device as that frame found it. -/
theorem write_executes_frames (host : Host ω) {d : Device} (w : ω) {w₀ : ω} {e : Endpoint} {th : Thread}
    (tid : Int) (argument : Nat) (head : { bs : List UInt8 // bs.length = 48 }) {frames : List Frame}
    (hd : d.Reachable) (he : d.endpointFor e.token = some e) (hth : d.threadFor e.token tid = some th)
    (hread : host.read w e.vm argument 48 = (some head, w₀))
    (hsize : (Header.ofBytes head.1).writeSize = bytes.length)
    (hs : Steady host e.vm (Header.ofBytes head.1).writeBuffer bytes P) (hw : P w₀)
    (hbase : (Header.ofBytes head.1).writeBuffer + bytes.length < 2 ^ 64) (hbound : bytes.length ≤ 65536)
    (hsplit : nextAll .write bytes (Header.ofBytes head.1).writeConsumed =
      (frames, .endOfStream, bytes.length))
    (interruptible interrupted : Bool) :
    ∃ k d' w' header, k ≤ frames.length ∧ Executes host e.token tid (frames.take k) (d, w₀) (d', w') ∧
      header = { Header.ofBytes head.1 with
        writeConsumed := (Header.ofBytes head.1).writeConsumed + (encodeAll (frames.take k)).length } ∧
      (((k = frames.length ∨ d'.Pending e.token tid true) ∧
        writeRead host w d e tid argument interruptible interrupted =
          readHalf host ⟨e.token, tid, argument, header, interruptible⟩ e interrupted d' w') ∨
      ∃ f result s, frames[k]? = some f ∧ FailsAt host e.token tid f (d', w') result s ∧
        writeRead host w d e tid argument interruptible interrupted =
          finishWriteRead host ⟨e.token, tid, argument, header, interruptible⟩ e.vm
            { header with readConsumed := 0 } result s.1 s.2) := by
  have hle : (Header.ofBytes head.1).writeConsumed ≤ bytes.length := by
    by_contra hover
    have hnext : binderNext .write bytes (Header.ofBytes head.1).writeConsumed = .error .invalid := by
      unfold binderNext
      rw [if_pos (by omega)]
    rw [nextAll_error hnext] at hsplit
    exact hover (Nat.le_of_eq (congrArg (·.2.2) hsplit))
  obtain ⟨k, s', hhalf⟩ := writeLoop_frames hs hbase hw hd he rfl hth hsplit hle (Nat.le_add_left _ _)
  refine ⟨k, s'.1, s'.2, _, hhalf.le, hhalf.executed, rfl, ?_⟩
  unfold writeRead
  rw [hread]
  dsimp only
  rw [hsize, if_neg (Nat.not_lt.2 hbound), hhalf.consumed]
  rcases hhalf.ends with ⟨h0, hsame, hwhy⟩ | ⟨f, hf, hfails⟩
  · refine .inl ⟨hwhy, ?_⟩
    rw [if_neg (by exact fun hne => hne h0), ← hsame]
    rfl
  · refine .inr ⟨f, _, _, hf, hfails, ?_⟩
    rw [if_pos hfails.result]

end Loop

/-! ## A sample -/

/-- A host whose guests have `image` at `base` and no other memory. -/
def imageHost (base : Nat) (image : List UInt8) : Host Unit where
  read _ _ address size :=
    if h : base ≤ address ∧ address + size ≤ base + image.length then
      (some ⟨(image.drop (address - base)).take size, by simp; omega⟩, ())
    else (none, ())
  write _ _ _ _ := (true, ())
  watchState _ _ := (3, ())
  allocate _ _ := (true, ())
  destroy _ _ := (0, ())
  vmPageSize _ _ := 4096
  mapReceive _ vm address _ _ := (.ok (vm, vm, vm, address), ())

/-- A host with a fixed image is steady on the bytes behind any part of it. -/
theorem imageHost_steady (base : Nat) (front bytes : List UInt8) (vm : Nat) :
    Steady (imageHost base (front ++ bytes)) vm (base + front.length) bytes fun _ => True := by
  refine ⟨fun address size _ hlow hhigh => ?_, fun _ _ _ _ => trivial, fun _ _ => trivial,
    fun _ _ => trivial⟩
  have hinside : base ≤ address ∧ address + size ≤ base + (front ++ bytes).length := by
    rw [List.length_append]
    omega
  show (if h : _ then _ else _ : Option { bs : List UInt8 // bs.length = size } × Unit).1.map (·.1) = _
  rw [dif_pos hinside]
  have hskip : address - base = front.length + (address - (base + front.length)) := by omega
  show some (((front ++ bytes).drop (address - base)).take size) = _
  rw [hskip, ← List.drop_drop, List.drop_left]

/-- A looper command, a count on a handle nobody has, a command the device does not
implement, and one more. -/
def mixedFrames : List Frame :=
  [⟨BC.enterLooper.word, []⟩, ⟨BC.release.word, [7, 0, 0, 0]⟩,
    ⟨BC.attemptAcquire.word, [1, 0, 0, 0, 2, 0, 0, 0]⟩, ⟨BC.exitLooper.word, []⟩]

def mixedHeader : Header := ⟨(encodeAll mixedFrames).length, 0, 304, 0, 0, 0⟩

/-- The manager's thread writes them. -/
theorem write_executes_mixed : ∃ e th, managerThread [] [] = some (e, th) ∧
    ∃ k d' w', k ≤ 4 ∧
      Executes (imageHost 256 (mixedHeader.bytes ++ encodeAll mixedFrames)) e.token th.tid
        (mixedFrames.take k) (replay [] [], ()) (d', w') := by
  obtain ⟨⟨e, th⟩, hthread⟩ := Option.isSome_iff_exists.1 managerThread_isSome
  have hf := managerThread_found hthread
  have hs := imageHost_steady 256 mixedHeader.bytes (encodeAll mixedFrames) e.vm
  obtain ⟨k, d', w', _, hk, hexecuted, _⟩ := write_executes_frames
    (imageHost 256 (mixedHeader.bytes ++ encodeAll mixedFrames)) () th.tid 256
    ⟨mixedHeader.bytes, by decide⟩ (replay_reachable [] []) hf.endpoint
    (by rw [Device.threadFor_of hf.endpoint]; exact hf.thread) rfl (by decide) hs
    trivial (by decide) (by decide) (nextAll_encodeAll (by decide)) false false
  exact ⟨e, th, hthread, k, d', w', hk, hexecuted⟩

end Artbox.Binder
