import Artbox.Lib.Checked
import Artbox.Binder.Wire

/-!
# Framing

What a reader gets out of a byte stream by calling `binderNext` until it stops
(`nextAll`), and how that relates to writing frames one behind the other (`encodeAll`).
The loop makes progress of at least a word per frame and never passes the end of the
stream; what it returns is the only way to cut the bytes it has passed into frames
(`nextAll_segments`). Writing frames and cutting any prefix of the result gives back the
frames that fit (`nextAll_take`).
-/

namespace Artbox.Binder

open Bytes

/-- A known command of the direction with a payload of its size. -/
def Frame.WellFormed (direction : Direction) (f : Frame) : Prop :=
  frameLength direction f.command = some f.payload.length

instance (direction : Direction) (f : Frame) : Decidable (f.WellFormed direction) :=
  inferInstanceAs (Decidable (_ = _))

/-- The bytes of a frame. -/
def Frame.encode (f : Frame) : List UInt8 := writeLE 4 f.command ++ f.payload

/-- The bytes of a list of frames. -/
def encodeAll (frames : List Frame) : List UInt8 := frames.flatMap Frame.encode

/-! ## One frame -/

theorem BC.word_lt (c : BC) : c.word < 2 ^ 32 := by
  cases c <;> decide

theorem BR.word_lt (c : BR) : c.word < 2 ^ 32 := by
  cases c <;> decide

/-- Words are 32-bit numbers. -/
theorem frameLength_lt {direction : Direction} {word n : Nat}
    (h : frameLength direction word = some n) : word < 2 ^ 32 := by
  cases direction with
  | write =>
    obtain ⟨c, hc, _⟩ := Option.map_eq_some_iff.1 h
    have hlt := c.word_lt
    rwa [BC.word_of_ofWord hc] at hlt
  | read =>
    obtain ⟨c, hc, _⟩ := Option.map_eq_some_iff.1 h
    have hword := List.find?_some hc
    rw [beq_iff_eq] at hword
    have hlt := c.word_lt
    rwa [hword] at hlt

theorem Frame.length_encode (f : Frame) : f.encode.length = 4 + f.payload.length := by
  rw [encode, List.length_append, length_writeLE]

theorem length_encodeAll_cons (f : Frame) (frames : List Frame) :
    (encodeAll (f :: frames)).length = 4 + f.payload.length + (encodeAll frames).length := by
  rw [encodeAll, List.flatMap_cons, List.length_append, f.length_encode]
  rfl

/-- The word of a frame that was written is read back. -/
theorem read32_encode {direction : Direction} {f : Frame} (hf : f.WellFormed direction)
    (rest : List UInt8) : read32 (f.encode ++ rest) 0 = f.command := by
  have hlt := frameLength_lt hf
  have hread := readLE_writeLE 4 f.command
  rw [Nat.mod_eq_of_lt (by omega)] at hread
  rw [read32, field, List.drop_zero, Frame.encode, List.append_assoc,
    List.take_append_of_le_length (by simp), List.take_of_length_le (by simp)]
  exact hread

/-- What a frame returned by `binderNext` was in the stream. -/
theorem binderNext_ok {direction : Direction} {bytes : List UInt8} {cursor : Nat} {f : Frame} {c : Nat}
    (h : binderNext direction bytes cursor = .ok (f, c)) :
    f.WellFormed direction ∧ c = cursor + 4 + f.payload.length ∧ c ≤ bytes.length ∧
      f.command = read32 bytes cursor ∧ f.payload = (bytes.drop (cursor + 4)).take f.payload.length := by
  unfold binderNext at h
  split at h; · cases h
  split at h; · cases h
  split at h; · cases h
  split at h
  · cases h
  next n hn =>
    split at h
    · cases h
    next hfit =>
      obtain ⟨rfl, rfl⟩ := Prod.mk.inj (Except.ok.inj h)
      have hlen : ((bytes.drop (cursor + 4)).take n).length = n := by
        rw [List.length_take, List.length_drop]
        omega
      refine ⟨?_, ?_, ?_, rfl, ?_⟩
      · show frameLength direction _ = some ((bytes.drop (cursor + 4)).take n).length
        rw [hlen]
        exact hn
      · rw [hlen]
      · omega
      · rw [hlen]

/-- The bytes a returned frame was read from are its encoding. -/
theorem encode_of_next {direction : Direction} {bytes : List UInt8} {cursor : Nat} {f : Frame} {c : Nat}
    (h : binderNext direction bytes cursor = .ok (f, c)) :
    f.encode = (bytes.drop cursor).take (4 + f.payload.length) := by
  obtain ⟨_, hc, hle, hcommand, hpayload⟩ := binderNext_ok h
  have hword : writeLE 4 f.command = (bytes.drop cursor).take 4 := by
    have hlen : ((bytes.drop cursor).take 4).length = 4 := by
      rw [List.length_take, List.length_drop]
      omega
    have hback := writeLE_readLE ((bytes.drop cursor).take 4)
    rw [hlen] at hback
    rw [hcommand]
    exact hback
  rw [Frame.encode, hword, List.take_add, List.drop_drop, ← hpayload]

/-- A whole frame is returned. -/
theorem binderNext_encode {direction : Direction} {bytes rest : List UInt8} {cursor : Nat} {f : Frame}
    (hf : f.WellFormed direction) (h : bytes.drop cursor = f.encode ++ rest) :
    binderNext direction bytes cursor = .ok (f, cursor + 4 + f.payload.length) := by
  have hlen : bytes.length - cursor = 4 + f.payload.length + rest.length := by
    rw [← List.length_drop, h, List.length_append, f.length_encode]
  have hword : read32 bytes cursor = f.command := by
    have hread := read32_encode hf rest
    rw [read32, field, List.drop_zero] at hread
    rw [read32, field, h, hread]
  have hpayload : (bytes.drop (cursor + 4)).take f.payload.length = f.payload := by
    rw [← List.drop_drop, h, Frame.encode, List.append_assoc,
      List.drop_append_of_le_length (by simp), List.drop_eq_nil_of_le (by simp), List.nil_append,
      List.take_append_of_le_length (Nat.le_refl _), List.take_length]
  unfold binderNext
  rw [if_neg (by omega), if_neg (by omega), if_neg (by omega), hword]
  unfold Frame.WellFormed at hf
  rw [hf]
  dsimp only
  rw [if_neg (by omega), hpayload]

/-- A part of a frame is recognized as one. -/
theorem binderNext_short {direction : Direction} {bytes : List UInt8} {cursor n : Nat} {f : Frame}
    (hf : f.WellFormed direction) (hn : n < 4 + f.payload.length) (h0 : n ≠ 0)
    (h : bytes.drop cursor = f.encode.take n) : binderNext direction bytes cursor = .error .truncated := by
  have hlen : bytes.length - cursor = n := by
    rw [← List.length_drop, h, List.length_take, f.length_encode]
    omega
  unfold binderNext
  rw [if_neg (by omega), if_neg (by omega)]
  by_cases h4 : n < 4
  · rw [if_pos (by omega)]
  · have hword : read32 bytes cursor = f.command := by
      have hread := read32_encode hf []
      rw [List.append_nil, read32, field, List.drop_zero] at hread
      rw [read32, field, h, List.take_take, Nat.min_eq_left (by omega), hread]
    unfold Frame.WellFormed at hf
    rw [if_neg (by omega), hword, hf]
    dsimp only
    rw [if_pos (by omega)]

/-! ## Streams -/

/-- The frames that repeated calls return, how they stop, and the cursor then. -/
def nextAll (direction : Direction) (bytes : List UInt8) (cursor : Nat) :
    List Frame × WireError × Nat :=
  match _h : binderNext direction bytes cursor with
  | .error e => ([], e, cursor)
  | .ok (f, c) =>
    let rest := nextAll direction bytes c
    (f :: rest.1, rest.2)
termination_by bytes.length - cursor
decreasing_by
  obtain ⟨_, hc, hle, _⟩ := binderNext_ok _h
  omega

theorem nextAll_error {direction : Direction} {bytes : List UInt8} {cursor : Nat} {e : WireError}
    (h : binderNext direction bytes cursor = .error e) :
    nextAll direction bytes cursor = ([], e, cursor) := by
  rw [nextAll]
  split
  next h' =>
    rw [h] at h'
    cases h'
    rfl
  next h' =>
    rw [h] at h'
    cases h'

theorem nextAll_ok {direction : Direction} {bytes : List UInt8} {cursor : Nat} {f : Frame} {c : Nat}
    (h : binderNext direction bytes cursor = .ok (f, c)) :
    nextAll direction bytes cursor =
      (f :: (nextAll direction bytes c).1, (nextAll direction bytes c).2) := by
  rw [nextAll]
  split
  next h' =>
    rw [h] at h'
    cases h'
  next h' =>
    rw [h] at h'
    cases h'
    rfl

/-- What was returned are the bytes that were passed. -/
theorem nextAll_segments (direction : Direction) (bytes : List UInt8) (cursor : Nat)
    (hc : cursor ≤ bytes.length) :
    cursor ≤ (nextAll direction bytes cursor).2.2 ∧ (nextAll direction bytes cursor).2.2 ≤ bytes.length ∧
      encodeAll (nextAll direction bytes cursor).1 =
        (bytes.drop cursor).take ((nextAll direction bytes cursor).2.2 - cursor) ∧
      ∀ f ∈ (nextAll direction bytes cursor).1, f.WellFormed direction := by
  fun_induction nextAll direction bytes cursor with
  | case1 cursor e h =>
    refine ⟨Nat.le_refl _, hc, ?_, fun f hf => by cases hf⟩
    show [] = _
    rw [Nat.sub_self, List.take_zero]
  | case2 cursor f c h rest ih =>
    obtain ⟨hwf, hcursor, hle, _, _⟩ := binderNext_ok h
    obtain ⟨hfrom, hto, hencode, hall⟩ := ih hle
    refine ⟨?_, hto, ?_, fun g hg => ?_⟩
    · show cursor ≤ (nextAll direction bytes c).2.2
      omega
    · show encodeAll (f :: (nextAll direction bytes c).1) =
        (bytes.drop cursor).take ((nextAll direction bytes c).2.2 - cursor)
      have hsplit : (nextAll direction bytes c).2.2 - cursor =
          4 + f.payload.length + ((nextAll direction bytes c).2.2 - c) := by omega
      have hbehind : cursor + (4 + f.payload.length) = c := by omega
      rw [hsplit, List.take_add, ← encode_of_next h, List.drop_drop, hbehind, ← hencode]
      exact List.flatMap_cons
    · rcases List.mem_cons.1 hg with rfl | hg
      · exact hwf
      · exact hall g hg

/-- Cutting a prefix of written frames: those that fit come back. -/
theorem nextAll_take {direction : Direction} {frames : List Frame}
    (hf : ∀ f ∈ frames, f.WellFormed direction) (n : Nat) {bytes : List UInt8} {cursor : Nat}
    (hc : cursor ≤ bytes.length) (h : bytes.drop cursor = (encodeAll frames).take n) :
    ∃ k e, k ≤ frames.length ∧ (encodeAll (frames.take k)).length ≤ n ∧
      (k < frames.length → n < (encodeAll (frames.take (k + 1))).length) ∧
      ((e = .endOfStream ∧ (k = frames.length ∨ n = (encodeAll (frames.take k)).length)) ∨
        (e = .truncated ∧ k < frames.length ∧ (encodeAll (frames.take k)).length < n)) ∧
      nextAll direction bytes cursor =
        (frames.take k, e, cursor + (encodeAll (frames.take k)).length) := by
  induction frames generalizing n cursor with
  | nil =>
    refine ⟨0, .endOfStream, Nat.le_refl _, Nat.zero_le _, fun hk => absurd hk (Nat.lt_irrefl _),
      .inl ⟨rfl, .inl rfl⟩, nextAll_error ?_⟩
    have hnil : bytes.length - cursor = 0 := by
      rw [← List.length_drop, h]
      exact congrArg List.length List.take_nil
    unfold binderNext
    rw [if_neg (by omega), if_pos hnil]
  | cons f rest ih =>
    have hwf := hf f List.mem_cons_self
    have hencode : encodeAll (f :: rest) = f.encode ++ encodeAll rest := List.flatMap_cons
    have hlen := f.length_encode
    by_cases hn : 4 + f.payload.length ≤ n
    · -- the frame fits
      have hdrop : bytes.drop cursor =
          f.encode ++ (encodeAll rest).take (n - (4 + f.payload.length)) := by
        rw [h, hencode, List.take_append, hlen, List.take_of_length_le (by omega)]
      have hnext := binderNext_encode hwf hdrop
      obtain ⟨_, _, hle, _⟩ := binderNext_ok hnext
      have hrest : bytes.drop (cursor + 4 + f.payload.length) =
          (encodeAll rest).take (n - (4 + f.payload.length)) := by
        rw [Nat.add_assoc, ← List.drop_drop, hdrop, ← hlen, List.drop_left]
      obtain ⟨k, e, hk, hfit, hmax, he, hall⟩ :=
        ih (fun g hg => hf g (List.mem_cons_of_mem _ hg)) _ hle hrest
      refine ⟨k + 1, e, Nat.succ_le_succ hk, ?_, fun hk' => ?_, ?_, ?_⟩
      · rw [List.take_succ_cons, length_encodeAll_cons]
        omega
      · have hmax := hmax (Nat.lt_of_succ_lt_succ hk')
        rw [List.take_succ_cons, length_encodeAll_cons]
        omega
      · rw [List.take_succ_cons, length_encodeAll_cons, List.length_cons]
        rcases he with ⟨rfl, hend⟩ | ⟨rfl, hlt, hsome⟩
        · exact .inl ⟨rfl, by omega⟩
        · exact .inr ⟨rfl, by omega, by omega⟩
      · rw [nextAll_ok hnext, hall, List.take_succ_cons, length_encodeAll_cons]
        refine Prod.ext rfl (Prod.ext rfl ?_)
        show cursor + 4 + f.payload.length + (encodeAll (rest.take k)).length =
          cursor + (4 + f.payload.length + (encodeAll (rest.take k)).length)
        omega
    · -- the cut goes through this frame
      have hdrop : bytes.drop cursor = f.encode.take n := by
        rw [h, hencode, List.take_append_of_le_length (by omega)]
      have hmax : n < (encodeAll ((f :: rest).take (0 + 1))).length := by
        rw [List.take_succ_cons, length_encodeAll_cons]
        omega
      by_cases h0 : n = 0
      · refine ⟨0, .endOfStream, Nat.zero_le _, Nat.zero_le _, fun _ => hmax, .inl ⟨rfl, .inr ?_⟩,
          nextAll_error ?_⟩
        · rw [h0]
          rfl
        · have hnil : bytes.length - cursor = 0 := by
            rw [← List.length_drop, hdrop, h0, List.take_zero, List.length_nil]
          unfold binderNext
          rw [if_neg (by omega), if_pos hnil]
      · exact ⟨0, .truncated, Nat.zero_le _, Nat.zero_le _, fun _ => hmax,
          .inr ⟨rfl, Nat.succ_pos _, Nat.pos_of_ne_zero h0⟩,
          nextAll_error (binderNext_short hwf (by omega) h0 hdrop)⟩

theorem nextAll_encodeAll {direction : Direction} {frames : List Frame}
    (hf : ∀ f ∈ frames, f.WellFormed direction) :
    nextAll direction (encodeAll frames) 0 = (frames, .endOfStream, (encodeAll frames).length) := by
  obtain ⟨k, e, hk, _, hmax, he, hall⟩ := @nextAll_take direction frames hf
    (encodeAll frames).length (encodeAll frames) 0 (Nat.zero_le _) (by rw [List.take_length]; rfl)
  have hlast : k = frames.length := by
    by_contra hne
    have hlt := hmax (by omega)
    have hle : (encodeAll (frames.take (k + 1))).length ≤ (encodeAll frames).length := by
      conv_rhs => rw [← List.take_append_drop (k + 1) frames]
      rw [encodeAll, encodeAll, List.flatMap_append, List.length_append]
      exact Nat.le_add_right _ _
    omega
  subst hlast
  rw [List.take_length, Nat.zero_add] at hall
  rcases he with ⟨rfl, _⟩ | ⟨_, hlt, _⟩
  · exact hall
  · exact absurd hlt (Nat.lt_irrefl _)

/-- Framing round trip: frames that were written are returned, and then the end; of a
truncated stream the frames that fit are returned, and then the end or its truncation with
the cursor behind the last of them; and for any bytes every frame moves the cursor on inside
the stream, and the frames returned are the only ones with the bytes that were passed. -/
theorem framing_round_trip (direction : Direction) :
    (∀ frames : List Frame, (∀ f ∈ frames, f.WellFormed direction) →
      nextAll direction (encodeAll frames) 0 = (frames, .endOfStream, (encodeAll frames).length)) ∧
    (∀ (frames : List Frame) (n : Nat), (∀ f ∈ frames, f.WellFormed direction) →
      ∃ k e, k ≤ frames.length ∧ (encodeAll (frames.take k)).length ≤ n ∧
        (k < frames.length → n < (encodeAll (frames.take (k + 1))).length) ∧
        ((e = .endOfStream ∧ (k = frames.length ∨ n = (encodeAll (frames.take k)).length)) ∨
          (e = .truncated ∧ k < frames.length ∧ (encodeAll (frames.take k)).length < n)) ∧
        nextAll direction ((encodeAll frames).take n) 0 =
          (frames.take k, e, (encodeAll (frames.take k)).length)) ∧
    (∀ (bytes : List UInt8) (cursor : Nat) (f : Frame) (c : Nat),
      binderNext direction bytes cursor = .ok (f, c) → cursor + 4 ≤ c ∧ c ≤ bytes.length) ∧
    ∀ bytes : List UInt8,
      (nextAll direction bytes 0).2.2 ≤ bytes.length ∧
      (∀ f ∈ (nextAll direction bytes 0).1, f.WellFormed direction) ∧
      encodeAll (nextAll direction bytes 0).1 = bytes.take (nextAll direction bytes 0).2.2 ∧
      ∀ frames : List Frame, (∀ f ∈ frames, f.WellFormed direction) →
        encodeAll frames = bytes.take (nextAll direction bytes 0).2.2 →
          frames = (nextAll direction bytes 0).1 := by
  refine ⟨fun frames hf => nextAll_encodeAll hf, fun frames n hf => ?_, fun bytes cursor f c h => ?_,
    fun bytes => ?_⟩
  · obtain ⟨k, e, hk, hfit, hmax, he, hall⟩ := @nextAll_take direction frames hf n
      ((encodeAll frames).take n) 0 (Nat.zero_le _) rfl
    rw [Nat.zero_add] at hall
    exact ⟨k, e, hk, hfit, hmax, he, hall⟩
  · obtain ⟨_, hc, hle, _⟩ := binderNext_ok h
    exact ⟨by omega, hle⟩
  · obtain ⟨_, hle, hencode, hall⟩ := nextAll_segments direction bytes 0 (Nat.zero_le _)
    rw [List.drop_zero, Nat.sub_zero] at hencode
    refine ⟨hle, hall, hencode, fun frames hf hframes => ?_⟩
    have h₁ := nextAll_encodeAll hf
    have h₂ := nextAll_encodeAll hall
    rw [hframes, ← hencode, h₂] at h₁
    exact (Prod.mk.inj h₁).1.symm

/-- Two commands cut in the second one. -/
theorem framing_truncated :
    ∃ k e, k ≤ 2 ∧ nextAll .write ((encodeAll
      [⟨BC.enterLooper.word, []⟩, ⟨BC.freeBuffer.word, [1, 2, 3, 4, 5, 6, 7, 8]⟩]).take 9) 0 =
        (([⟨BC.enterLooper.word, []⟩, ⟨BC.freeBuffer.word, [1, 2, 3, 4, 5, 6, 7, 8]⟩] :
          List Frame).take k, e, (encodeAll (([⟨BC.enterLooper.word, []⟩,
            ⟨BC.freeBuffer.word, [1, 2, 3, 4, 5, 6, 7, 8]⟩] : List Frame).take k)).length) := by
  obtain ⟨k, e, hk, _, _, _, h⟩ := (framing_round_trip .write).2.1
    [⟨BC.enterLooper.word, []⟩, ⟨BC.freeBuffer.word, [1, 2, 3, 4, 5, 6, 7, 8]⟩] 9 (by decide)
  exact ⟨k, e, hk, h⟩

end Artbox.Binder
