import Artbox.Elf.Image
import Mathlib.Data.List.Pairwise

/-!
# Accepted images are well formed

The loop over the program headers keeps `Opening`; what the checks behind it add makes an
image `WellFormed`, and that is all a span of it needs to lie in the file. The loop also keeps
`Follows`: the image is what the headers of the file say, in their order. Each proof that
nothing outside the input is read has the shape of the function it is about.
-/

namespace Artbox.Elf

open Checked

/-- The ranges of a segment are what they should be. -/
structure Segment.Sound (size : Nat) (s : Segment) : Prop where
  file : s.fileOffset + s.fileSize ≤ size
  memory : s.virtualAddress + s.memorySize < 2 ^ 64
  fits : s.fileSize ≤ s.memorySize
  permissions : s.flags &&& 3 ≠ 3

/-- Two segments have no address in common. -/
def Segment.Disjoint (s t : Segment) : Prop :=
  s.memorySize = 0 ∨ t.memorySize = 0 ∨ s.virtualAddress + s.memorySize ≤ t.virtualAddress ∨
    t.virtualAddress + t.memorySize ≤ s.virtualAddress

/-- A region lies in a load segment, and its file part where the segment has it. -/
structure Segment.Contains (load region : Segment) : Prop where
  low : load.virtualAddress ≤ region.virtualAddress
  high : region.virtualAddress + region.memorySize ≤ load.virtualAddress + load.memorySize
  file : region.fileSize ≠ 0 →
    region.fileOffset = load.fileOffset + (region.virtualAddress - load.virtualAddress) ∧
      region.virtualAddress + region.fileSize ≤ load.virtualAddress + load.fileSize

/-- There is a name at `p` that ends with its only NUL. -/
def NameAt (data : List UInt8) (p : Nat) : Prop :=
  ∃ n, 0 < n ∧ p + n < data.length ∧ data[p + n]? = some 0 ∧
    ∀ k < n, ∃ b, data[p + k]? = some b ∧ b ≠ 0

/-- What is known of an image while its program headers are read. -/
structure Opening (image : Image) (executableEntry : Bool) : Prop where
  count : image.segments.length ≤ maxSegments
  loads : ∀ s ∈ image.segments, s.Sound image.size ∧ (s.flags &&& 1 ≠ 0 → s.fileSize = s.memorySize)
  disjoint : image.segments.Pairwise Segment.Disjoint
  entry : executableEntry = true → ∃ s ∈ image.segments, s.HasEntry image.entry
  regions : (∀ r ∈ image.dynamic, r.Sound image.size) ∧ (∀ r ∈ image.tls, r.Sound image.size) ∧
    ∀ r ∈ image.relro, r.Sound image.size
  dynamic : ∀ r ∈ image.dynamic, r.fileSize = r.memorySize ∧ r.fileSize % 16 = 0 ∧ 16 ≤ r.fileSize
  interpreter : ∀ p ∈ image.interpreter, NameAt image.data.bytes p

/-- A well-formed image. -/
structure Image.WellFormed (image : Image) : Prop where
  count : image.segments.length ≤ maxSegments
  loads : ∀ s ∈ image.segments, s.Sound image.size ∧ (s.flags &&& 1 ≠ 0 → s.fileSize = s.memorySize)
  disjoint : image.segments.Pairwise Segment.Disjoint
  entry : (image.entry = 0 ∧ image.type = 3) ∨
    (image.entry % 4 = 0 ∧ ∃ s ∈ image.segments, s.HasEntry image.entry)
  regions : ∀ r, r ∈ image.dynamic ∨ r ∈ image.tls ∨ r ∈ image.relro →
    r.Sound image.size ∧ ∃ load ∈ image.segments, load.Contains r
  dynamic : ∀ r ∈ image.dynamic, r.fileSize = r.memorySize ∧ r.fileSize % 16 = 0 ∧ 16 ≤ r.fileSize
  interpreter : ∀ p ∈ image.interpreter, NameAt image.data.bytes p

/-! ## What the headers say -/

/-- The segment that the program header at `p` describes. -/
def segmentAt (data : List UInt8) (p : Nat) : Segment where
  virtualAddress := Bytes.field data (p + 16) 8
  memorySize := Bytes.field data (p + 40) 8
  fileOffset := Bytes.field data (p + 8) 8
  fileSize := Bytes.field data (p + 32) 8
  alignment := Bytes.field data (p + 48) 8
  flags := BitVec.ofNat 32 (Bytes.field data (p + 4) 4)

/-- The segments of one type that the program headers at `headers` describe, in their order. -/
def segmentsAt (data : List UInt8) (type : Nat) (headers : List Nat) : List Segment :=
  (headers.filter fun p => Bytes.field data p 4 = type).map (segmentAt data)

/-- The places of `count` program headers from `p` on. -/
def headersFrom (p count : Nat) : List Nat := (List.range count).map fun i => p + 56 * i

/-- The image says what the program headers at `headers` say, and nothing else. -/
structure Image.Follows (image : Image) (headers : List Nat) : Prop where
  segments : image.segments = segmentsAt image.data.bytes 1 headers
  dynamic : image.dynamic.toList = segmentsAt image.data.bytes 2 headers
  interpreter : image.interpreter.toList = (segmentsAt image.data.bytes 3 headers).map (·.fileOffset)
  tls : image.tls.toList = segmentsAt image.data.bytes 7 headers
  relro : image.relro.toList = segmentsAt image.data.bytes 0x6474e552 headers

/-- The image is the one that the ELF header and the program headers of `input` describe. -/
structure Image.Describes (image : Image) (input : Input) : Prop where
  data : image.data = input
  entry : image.entry = Bytes.field input.bytes 24 8
  type : image.type = Bytes.field input.bytes 16 2
  count : image.programHeaderCount = Bytes.field input.bytes 56 2
  offset : image.programHeaderOffset = Bytes.field input.bytes 32 8
  headers : image.Follows (headersFrom (Bytes.field input.bytes 32 8) (Bytes.field input.bytes 56 2))

variable {image image' : Image} {data : List UInt8} {p : Nat}

@[simp] theorem segmentsAt_nil (type : Nat) : segmentsAt data type [] = [] := rfl

/-- One more header adds its segment to those of its type. -/
theorem segmentsAt_append (type : Nat) (headers : List Nat) (p : Nat) :
    segmentsAt data type (headers ++ [p]) =
      segmentsAt data type headers ++ if Bytes.field data p 4 = type then [segmentAt data p] else [] := by
  unfold segmentsAt
  rw [List.filter_append, List.map_append, List.filter_singleton]
  by_cases h : Bytes.field data p 4 = type
  · simp [h]
  · simp [h]

/-- The first header and those behind it. -/
theorem headersFrom_succ (p count : Nat) : headersFrom p (count + 1) = p :: headersFrom (p + 56) count := by
  unfold headersFrom
  rw [List.range_succ_eq_map, List.map_cons, List.map_map]
  congr 1
  refine List.map_congr_left fun i _ => ?_
  show p + 56 * (i + 1) = p + 56 + 56 * i
  omega

/-- One more header, whose segment goes where its type says. -/
theorem Image.Follows.add {headers : List Nat} {type : Nat} (h : image.Follows headers)
    (htype : type = Bytes.field image.data.bytes p 4) (hdata : image'.data = image.data)
    (hsegments : image'.segments = image.segments ++ if type = 1 then [segmentAt image.data.bytes p] else [])
    (hdynamic : image'.dynamic.toList =
      image.dynamic.toList ++ if type = 2 then [segmentAt image.data.bytes p] else [])
    (hinterpreter : image'.interpreter.toList =
      image.interpreter.toList ++ if type = 3 then [(segmentAt image.data.bytes p).fileOffset] else [])
    (htls : image'.tls.toList = image.tls.toList ++ if type = 7 then [segmentAt image.data.bytes p] else [])
    (hrelro : image'.relro.toList =
      image.relro.toList ++ if type = 0x6474e552 then [segmentAt image.data.bytes p] else []) :
    image'.Follows (headers ++ [p]) := by
  subst htype
  refine ⟨?_, ?_, ?_, ?_, ?_⟩
  · rw [hsegments, hdata, segmentsAt_append, h.segments]
  · rw [hdynamic, hdata, segmentsAt_append, h.dynamic]
  · rw [hinterpreter, hdata, segmentsAt_append, h.interpreter, List.map_append]
    congr 1
    split <;> rfl
  · rw [htls, hdata, segmentsAt_append, h.tls]
  · rw [hrelro, hdata, segmentsAt_append, h.relro]

/-! ## Segments -/

theorem field8_lt (i : Nat) : Bytes.field data i 8 < 2 ^ 64 := Bytes.field_lt data i 8

/-- `read_segment` reads its header and checks its ranges. -/
theorem readSegment_safe (h : p + 56 ≤ data.length) :
    Safe (readSegment data p) fun s => s.Sound data.length ∧ s = segmentAt data p := by
  unfold readSegment
  refine Safe.bind (Safe.fetch (by omega)) fun flags hword => ?_
  refine Safe.bind (Safe.fetch (by omega)) fun fileOffset hoffset => ?_
  refine Safe.bind (Safe.fetch (by omega)) fun virtualAddress hvirtual => ?_
  refine Safe.bind (Safe.fetch (by omega)) fun fileSize hsize => ?_
  refine Safe.bind (Safe.fetch (by omega)) fun memorySize hmemory => ?_
  refine Safe.bind (Safe.fetch (by omega)) fun alignment halign => ?_
  refine Safe.bind Safe.reject fun _ hflags => ?_
  refine Safe.bind Safe.reject fun _ hranges => ?_
  refine Safe.bind Safe.reject fun _ _ => ?_
  have hlt : virtualAddress < 2 ^ 64 := hvirtual ▸ field8_lt _
  have hmax : uint64Max = 2 ^ 64 - 1 := rfl
  unfold InFile at hranges
  refine Safe.pure ⟨⟨by dsimp only; omega, by dsimp only; omega, by dsimp only; omega,
    fun h3 => hflags (.inr h3)⟩, ?_⟩
  rw [hword, hoffset, hvirtual, hsize, hmemory, halign]
  rfl

/-- The check against wrapped ends is the check against ends. -/
theorem Segment.clashes_iff {s t : Segment} {size : Nat} (hs : s.Sound size) (ht : t.Sound size) :
    ¬ s.Clashes t ↔ s.Disjoint t := by
  have hs' := hs.memory
  have ht' := ht.memory
  unfold Segment.Clashes Segment.Disjoint
  rw [Nat.mod_eq_of_lt hs', Nat.mod_eq_of_lt ht']
  omega

theorem Segment.Disjoint.symm {s t : Segment} (h : s.Disjoint t) : t.Disjoint s := by
  unfold Segment.Disjoint at h ⊢
  omega

instance : Std.Symm Segment.Disjoint := ⟨fun _ _ => Segment.Disjoint.symm⟩

/-- The check of `inside_load` says that the region lies in the segment. -/
theorem Segment.Encloses.contains {load region : Segment} (h : load.Encloses region)
    (hload : load.Sound image.size) : load.Contains region := by
  have hsmall := image.data.small
  have hfile := hload.file
  unfold Image.size at hfile
  obtain ⟨hlow, hdelta, hmemory, hpart⟩ := h
  refine ⟨hlow, by omega, fun hne => ?_⟩
  obtain ⟨hle, hlen, hoffset⟩ := hpart hne
  rw [Nat.mod_eq_of_lt (by omega)] at hoffset
  exact ⟨hoffset, by omega⟩

/-! ## Headers -/

/-- A name that was read. -/
theorem nameAt_of_slice {n : Nat} (hp : p + (n + 1) ≤ data.length) (hn : 0 < n)
    (hlast : Bytes.field data (p + n) 1 = 0) (hinner : 0 ∉ (data.drop p).take n) : NameAt data p := by
  refine ⟨n, hn, by omega, ?_, fun k hk => ?_⟩
  · have hlt : p + n < data.length := by omega
    have hget : data[p + n]? = some data[p + n] := List.getElem?_eq_getElem hlt
    have hzero : data[p + n].toNat = (0 : UInt8).toNat := (Bytes.field_one hget).symm.trans hlast
    rw [hget, UInt8.toNat_inj.1 hzero]
  · have hlt : p + k < data.length := by omega
    have hget : data[p + k]? = some data[p + k] := List.getElem?_eq_getElem hlt
    refine ⟨data[p + k], hget, fun h0 => hinner ?_⟩
    apply List.mem_of_getElem? (i := k)
    rw [List.getElem?_take_of_lt hk, List.getElem?_drop, hget, h0]

/-- The frame of the headers: what none of them changes. -/
structure SameHead (image image' : Image) : Prop where
  data : image'.data = image.data
  entry : image'.entry = image.entry
  type : image'.type = image.type
  count : image'.programHeaderCount = image.programHeaderCount
  offset : image'.programHeaderOffset = image.programHeaderOffset

theorem SameHead.refl (image : Image) : SameHead image image := ⟨rfl, rfl, rfl, rfl, rfl⟩

theorem SameHead.trans {image'' : Image} (h : SameHead image image') (h' : SameHead image' image'') :
    SameHead image image'' :=
  ⟨h'.data.trans h.data, h'.entry.trans h.entry, h'.type.trans h.type, h'.count.trans h.count,
    h'.offset.trans h.offset⟩

theorem readInterpreter_safe {executableEntry : Bool} (h : Opening image executableEntry) {s : Segment}
    (hs : s.Sound image.size) : Safe (readInterpreter image s) fun image' =>
      Opening image' executableEntry ∧ image.interpreter = none ∧
        image' = { image with interpreter := some s.fileOffset } := by
  have hfile := hs.file
  unfold Image.size at hfile
  unfold readInterpreter
  refine Safe.bind Safe.reject fun _ hshape => ?_
  refine Safe.bind (Safe.fetch (by omega)) fun first _ => ?_
  refine Safe.bind (Safe.fetch (by omega)) fun last hlast => ?_
  refine Safe.bind (Safe.slice (by omega)) fun name hname => ?_
  refine Safe.bind Safe.reject fun _ hcheck => ?_
  refine Safe.pure ⟨⟨h.count, h.loads, h.disjoint, h.entry, h.regions, h.dynamic, fun q hq => ?_⟩,
    by simpa using fun hsome => hshape (.inl hsome), rfl⟩
  cases hq
  subst hlast hname
  show NameAt image.data.bytes s.fileOffset
  exact nameAt_of_slice (by omega) (by omega) (by omega) fun h0 => hcheck (.inr (.inr h0))

theorem addLoad_safe {executableEntry : Bool} (h : Opening image executableEntry) {s : Segment}
    (hs : s.Sound image.size) : Safe (addLoad image executableEntry s) fun r =>
      Opening r.1 r.2 ∧ r.1 = { image with segments := image.segments ++ [s] } := by
  unfold addLoad
  refine Safe.bind Safe.reject fun _ hcount => ?_
  refine Safe.bind Safe.reject fun _ hbss => ?_
  refine Safe.bind Safe.reject fun _ hclash => ?_
  refine Safe.pure ⟨⟨?_, fun t ht => ?_, ?_, fun he => ?_, h.regions, h.dynamic, h.interpreter⟩, rfl⟩
  · have hle := h.count
    dsimp only
    rw [List.length_append, List.length_singleton]
    omega
  · rcases List.mem_append.1 ht with ht | ht
    · exact h.loads t ht
    · rw [List.mem_singleton.1 ht]
      exact ⟨hs, fun hx => by_contra fun hne => hbss ⟨hx, hne⟩⟩
  · refine List.pairwise_append.2 ⟨h.disjoint, List.pairwise_singleton _ _, fun t ht u hu => ?_⟩
    rw [List.mem_singleton.1 hu]
    exact ((Segment.clashes_iff hs (h.loads t ht).1).1 fun hc => hclash ⟨t, ht, hc⟩).symm
  · rcases Bool.or_eq_true_iff.1 he with he | he
    · obtain ⟨t, ht, hentry⟩ := h.entry he
      exact ⟨t, List.mem_append_left _ ht, hentry⟩
    · exact ⟨s, List.mem_append_right _ List.mem_cons_self, of_decide_eq_true he⟩

/-- A header adds to the image what it describes, where its type says. -/
theorem openHeader_safe {allowDynamic executableEntry : Bool} {headers : List Nat}
    (h : Opening image executableEntry) (hfollows : image.Follows headers)
    (hp : p + 56 ≤ image.data.bytes.length) :
    Safe (openHeader allowDynamic image executableEntry p) fun r =>
      Opening r.1 r.2 ∧ SameHead image r.1 ∧ r.1.Follows (headers ++ [p]) := by
  unfold openHeader
  refine Safe.bind (Safe.fetch (by omega)) fun type htype => ?_
  refine Safe.bind Safe.reject fun _ _ => ?_
  refine Safe.bind (Safe.fetch (by omega)) fun flags _ => ?_
  refine Safe.bind Safe.reject fun _ _ => ?_
  refine Safe.ite (fun hother => ?_) fun hkind => ?_
  · -- the other types say nothing
    obtain ⟨h1, h2, h3, h7, hr⟩ := hother
    refine Safe.pure ⟨h, SameHead.refl image, hfollows.add htype rfl ?_ ?_ ?_ ?_ ?_⟩
    all_goals simp only [h1, h2, h3, h7, hr, if_false, List.append_nil]
  refine Safe.bind (readSegment_safe hp) fun s hs => ?_
  obtain ⟨hs, rfl⟩ := hs
  obtain ⟨hdynamic, htls, hrelro⟩ := h.regions
  refine Safe.ite (fun h2 => ?_) fun h2 => Safe.ite (fun h3 => ?_) fun h3 => Safe.ite (fun h7 => ?_)
    fun h7 => Safe.ite (fun hr => ?_) fun hr => ?_
  · -- the dynamic section
    refine Safe.bind Safe.reject fun _ hshape => ?_
    have hnone : image.dynamic = none := by simpa using fun hsome => hshape (.inl hsome)
    refine Safe.pure ⟨⟨h.count, h.loads, h.disjoint, h.entry, ⟨fun r hr => ?_, htls, hrelro⟩,
      fun r hr => ?_, h.interpreter⟩, ⟨rfl, rfl, rfl, rfl, rfl⟩, hfollows.add htype rfl ?_ ?_ ?_ ?_ ?_⟩
    · cases hr
      exact hs
    · cases hr
      exact ⟨by omega, by omega, by omega⟩
    all_goals simp [h2, hnone]
  · -- the interpreter's name
    refine Safe.bind (readInterpreter_safe h hs) fun image' h' => ?_
    obtain ⟨hopen, hnone, rfl⟩ := h'
    refine Safe.pure ⟨hopen, ⟨rfl, rfl, rfl, rfl, rfl⟩, hfollows.add htype rfl ?_ ?_ ?_ ?_ ?_⟩
    all_goals simp [h3, hnone]
  · -- the initial image of thread-local storage
    refine Safe.bind Safe.reject fun _ hsome => ?_
    have hnone : image.tls = none := by simpa using hsome
    refine Safe.pure ⟨⟨h.count, h.loads, h.disjoint, h.entry, ⟨hdynamic, fun r hr => ?_, hrelro⟩,
      h.dynamic, h.interpreter⟩, ⟨rfl, rfl, rfl, rfl, rfl⟩, hfollows.add htype rfl ?_ ?_ ?_ ?_ ?_⟩
    · cases hr
      exact hs
    all_goals simp [h7, hnone]
  · -- what is read-only after relocation
    refine Safe.bind Safe.reject fun _ hsome => ?_
    have hnone : image.relro = none := by simpa using hsome
    refine Safe.pure ⟨⟨h.count, h.loads, h.disjoint, h.entry, ⟨hdynamic, htls, fun r hr => ?_⟩,
      h.dynamic, h.interpreter⟩, ⟨rfl, rfl, rfl, rfl, rfl⟩, hfollows.add htype rfl ?_ ?_ ?_ ?_ ?_⟩
    · cases hr
      exact hs
    all_goals simp [hr, hnone]
  · -- a load segment, as no other type is left
    have h1 : type = 1 := by omega
    refine Safe.mono (addLoad_safe h hs) fun r hr => ?_
    obtain ⟨image', entry⟩ := r
    obtain ⟨hopen, heq⟩ := hr
    dsimp only at hopen heq ⊢
    subst heq
    refine ⟨hopen, ⟨rfl, rfl, rfl, rfl, rfl⟩, hfollows.add htype rfl ?_ ?_ ?_ ?_ ?_⟩
    all_goals simp [h1]

/-- The loop over the headers adds what they describe, in their order. -/
theorem openHeaders_safe {allowDynamic executableEntry : Bool} {left : Nat} {headers : List Nat}
    (h : Opening image executableEntry) (hfollows : image.Follows headers)
    (hp : p + 56 * left ≤ image.data.bytes.length) :
    Safe (openHeaders allowDynamic left p image executableEntry) fun r =>
      Opening r.1 r.2 ∧ SameHead image r.1 ∧ r.1.Follows (headers ++ headersFrom p left) := by
  induction left generalizing p image executableEntry headers with
  | zero => exact Safe.ok ⟨h, SameHead.refl image, by simpa [headersFrom] using hfollows⟩
  | succ left ih =>
    unfold openHeaders
    refine Safe.bind (openHeader_safe h hfollows (by omega)) fun r hr => ?_
    obtain ⟨hopen, hsame, hnext⟩ := hr
    refine Safe.mono (ih hopen hnext (by rw [hsame.data]; omega)) fun r' hr' => ?_
    obtain ⟨hopen', hsame', hall⟩ := hr'
    refine ⟨hopen', hsame.trans hsame', ?_⟩
    rw [headersFrom_succ]
    rw [List.append_assoc] at hall
    exact hall

/-! ## Images -/

/-- `open_image` reads only inside its input; what it accepts is well formed, and what the headers
describe. -/
theorem openImage_safe (input : Input) (allowDynamic : Bool) :
    Safe (openImage input allowDynamic) fun image => image.WellFormed ∧ image.Describes input := by
  unfold openImage
  refine Safe.bind Safe.reject fun _ hlength => ?_
  refine Safe.bind (Safe.fetch (by omega)) fun magic _ => ?_
  refine Safe.bind Safe.reject fun _ _ => ?_
  refine Safe.bind (Safe.fetch (by omega)) fun width _ => ?_
  refine Safe.bind (Safe.fetch (by omega)) fun order _ => ?_
  refine Safe.bind (Safe.fetch (by omega)) fun machine _ => ?_
  refine Safe.bind (Safe.fetch (by omega)) fun type hkind => ?_
  refine Safe.bind Safe.reject fun _ htype => ?_
  refine Safe.bind (Safe.fetch (by omega)) fun identVersion _ => ?_
  refine Safe.bind (Safe.fetch (by omega)) fun version _ => ?_
  refine Safe.bind (Safe.fetch (by omega)) fun headerSize _ => ?_
  refine Safe.bind (Safe.fetch (by omega)) fun entrySize _ => ?_
  refine Safe.bind Safe.reject fun _ _ => ?_
  refine Safe.bind (Safe.fetch (by omega)) fun abi _ => ?_
  refine Safe.bind (Safe.fetch (by omega)) fun flags _ => ?_
  refine Safe.bind Safe.reject fun _ _ => ?_
  refine Safe.bind (Safe.fetch (by omega)) fun count hcount => ?_
  refine Safe.bind (Safe.fetch (by omega)) fun phoff hphoff => ?_
  refine Safe.bind Safe.reject fun _ htable => ?_
  refine Safe.bind (Safe.fetch (by omega)) fun entry hplace => ?_
  refine Safe.bind Safe.reject fun _ hentry => ?_
  dsimp only
  -- from here on only the image counts, no longer the bytes it was read from
  generalize himage : Image.mk input entry [] type count phoff none none none none = image
  have hstart : Opening image false := by
    subst himage
    exact ⟨Nat.zero_le _, nofun, List.Pairwise.nil, nofun, ⟨nofun, nofun, nofun⟩, nofun, nofun⟩
  have hfollows : image.Follows [] := by
    subst himage
    exact ⟨rfl, rfl, rfl, rfl, rfl⟩
  have hinput : image.data = input := by rw [← himage]
  unfold InFile at htable
  refine Safe.bind (openHeaders_safe hstart hfollows (by rw [hinput]; omega)) fun r hr => ?_
  obtain ⟨hopen, hsame, hheaders⟩ := hr
  refine Safe.bind Safe.reject fun _ hrun => ?_
  refine Safe.bind Safe.reject fun _ hinside => ?_
  refine Safe.pure ⟨⟨hopen.count, hopen.loads, hopen.disjoint, ?_, fun region hregion => ?_,
    hopen.dynamic, hopen.interpreter⟩, ⟨hsame.data.trans hinput, ?_, ?_, ?_, ?_, ?_⟩⟩
  · have hentry4 : r.1.entry % 4 = 0 := by
      rw [hsame.entry, ← himage]
      exact not_not.1 hentry
    have htype23 : r.1.type = 2 ∨ r.1.type = 3 := by
      rw [hsame.type, ← himage]
      dsimp only
      omega
    by_cases he : r.2 = true
    · exact .inr ⟨hentry4, hopen.entry he⟩
    · have he' : r.2 = false := by simpa using he
      refine .inl ⟨by_contra fun h0 => hrun (.inl ⟨he', .inl h0⟩), htype23.resolve_left fun h2 => ?_⟩
      exact hrun (.inl ⟨he', .inr h2⟩)
  · obtain ⟨hdynamic, htls, hrelro⟩ := hopen.regions
    have hcontained : insideLoad r.1 region → ∃ load ∈ r.1.segments, load.Contains region := by
      rintro ⟨load, hload, henclose⟩
      exact ⟨load, hload, henclose.contains (hopen.loads load hload).1⟩
    rcases hregion with hr | hr | hr
    · exact ⟨hdynamic region hr, hcontained (by_contra fun hc => hinside (.inl ⟨region, hr, hc⟩))⟩
    · exact ⟨htls region hr, hcontained (by_contra fun hc => hinside (.inr (.inl ⟨region, hr, hc⟩)))⟩
    · exact ⟨hrelro region hr, hcontained (by_contra fun hc => hinside (.inr (.inr ⟨region, hr, hc⟩)))⟩
  · rw [hsame.entry, ← himage, hplace]
  · rw [hsame.type, ← himage, hkind]
  · rw [hsame.count, ← himage, hcount]
  · rw [hsame.offset, ← himage, hphoff]
  · rw [← hcount, ← hphoff]
    exact hheaders

/-! ## Spans -/

/-- The image has byte `b` of its file at virtual address `v`. -/
def Image.Loads (image : Image) (v : Nat) (b : UInt8) : Prop :=
  ∃ s ∈ image.segments, s.virtualAddress ≤ v ∧ v < s.virtualAddress + s.fileSize ∧
    image.data.bytes[s.fileOffset + (v - s.virtualAddress)]? = some b

/-- Where the loop of `artbox_elf_virtual_span` finds a range. -/
theorem spanIn_ok {size address length offset : Nat} (hsize : size < 2 ^ 64) {l : List Segment}
    (h : spanIn size address length l = .ok offset) :
    ∃ s ∈ l, s.virtualAddress ≤ address ∧ address + length ≤ s.virtualAddress + s.fileSize ∧
      s.fileOffset + s.fileSize ≤ size ∧ offset = s.fileOffset + (address - s.virtualAddress) := by
  induction l with
  | nil => cases h
  | cons s rest ih =>
    have hrest : spanIn size address length rest = .ok offset → ∃ t ∈ s :: rest,
        t.virtualAddress ≤ address ∧ address + length ≤ t.virtualAddress + t.fileSize ∧
          t.fileOffset + t.fileSize ≤ size ∧ offset = t.fileOffset + (address - t.virtualAddress) := by
      intro h'
      obtain ⟨t, ht, hspan⟩ := ih h'
      exact ⟨t, List.mem_cons_of_mem _ ht, hspan⟩
    unfold spanIn at h
    by_cases hlow : address < s.virtualAddress
    · rw [if_pos hlow] at h
      exact hrest h
    · rw [if_neg hlow] at h
      dsimp only at h
      by_cases hout : s.fileSize < address - s.virtualAddress ∨
          s.fileSize - (address - s.virtualAddress) < length
      · rw [if_pos hout] at h
        exact hrest h
      · rw [if_neg hout] at h
        by_cases hfile : InFile size s.fileOffset s.fileSize
        · rw [if_neg (not_not.2 hfile)] at h
          obtain ⟨hoffset, hlength⟩ := hfile
          have heq := Except.ok.inj h
          rw [Nat.mod_eq_of_lt (by omega)] at heq
          exact ⟨s, List.mem_cons_self, by omega, by omega, by omega, heq.symm⟩
        · rw [if_pos hfile] at h
          cases h

/-- A span lies in one segment and in the file. -/
theorem virtualSpan_ok {address length offset : Nat}
    (h : virtualSpan image address length = .ok offset) :
    ∃ s ∈ image.segments, s.virtualAddress ≤ address ∧
      address + length ≤ s.virtualAddress + s.fileSize ∧ s.fileOffset + s.fileSize ≤ image.size ∧
      offset = s.fileOffset + (address - s.virtualAddress) := by
  unfold virtualSpan at h
  by_cases hcount : maxSegments < image.segments.length
  · rw [if_pos hcount] at h
    cases h
  · rw [if_neg hcount] at h
    exact spanIn_ok image.data.small h

/-- Two load segments that share an address are the same. -/
theorem Image.WellFormed.eq_of_mem (h : image.WellFormed) {s t : Segment} (hs : s ∈ image.segments)
    (ht : t ∈ image.segments) {v : Nat} (hv : s.virtualAddress ≤ v ∧ v < s.virtualAddress + s.fileSize)
    (hv' : t.virtualAddress ≤ v ∧ v < t.virtualAddress + t.fileSize) : s = t := by
  by_contra hne
  have hdisjoint : s.Disjoint t :=
    List.Pairwise.forall h.disjoint hs ht hne
  have hs' := (h.loads s hs).1.fits
  have ht' := (h.loads t ht).1.fits
  unfold Segment.Disjoint at hdisjoint
  omega

/-- The bytes of a span are the file's bytes at its addresses. -/
theorem Image.WellFormed.span_bytes (h : image.WellFormed) {address length offset : Nat}
    (hspan : virtualSpan image address length = .ok offset) :
    offset + length ≤ image.size ∧ ∀ k < length, ∃ b, image.data.bytes[offset + k]? = some b ∧
      ∀ b', image.Loads (address + k) b' ↔ b' = b := by
  obtain ⟨s, hs, hlow, hhigh, hfile, rfl⟩ := virtualSpan_ok hspan
  refine ⟨by omega, fun k hk => ?_⟩
  have hlt : s.fileOffset + (address - s.virtualAddress) + k < image.data.bytes.length := by
    unfold Image.size at hfile
    omega
  have hget := List.getElem?_eq_getElem hlt
  have hplace : s.fileOffset + (address + k - s.virtualAddress) =
      s.fileOffset + (address - s.virtualAddress) + k := by omega
  refine ⟨_, hget, fun b' => ⟨fun hload => ?_, fun hb => ?_⟩⟩
  · obtain ⟨t, ht, hlow', hhigh', hbyte⟩ := hload
    have heq := h.eq_of_mem hs ht (v := address + k) ⟨by omega, by omega⟩ ⟨hlow', hhigh'⟩
    rw [← heq, hplace, hget] at hbyte
    exact (Option.some.inj hbyte).symm
  · exact ⟨s, hs, by omega, by omega, by rw [hplace, hb]; exact hget⟩

/-- What `artbox_elf_open` accepts is well formed: it reads only inside its input, leaves its
output alone if it fails, an accepted image is the one that the headers of the file describe, and
every range that `artbox_elf_virtual_span` finds in it lies in the input and holds the bytes of
the file at those addresses. -/
theorem elfOpen_accepts (input : Input) (out : Image) :
    elfOpen input out ≠ .error .wrong ∧
    (∀ error out', elfOpen input out = .ok (some error, out') → out' = out) ∧
    ∀ image, elfOpen input out = .ok (none, image) → image.data = input ∧ image.WellFormed ∧
      image.Describes input ∧ ∀ address length offset, virtualSpan image address length = .ok offset →
        offset + length ≤ input.bytes.length ∧
          ∀ k < length, ∃ b, input.bytes[offset + k]? = some b ∧
            ∀ b', image.Loads (address + k) b' ↔ b' = b := by
  have hsafe := openImage_safe input true
  unfold elfOpen
  cases hopen : openImage input true with
  | ok image =>
    obtain ⟨hwf, hdescribes⟩ := hsafe.of_ok hopen
    refine ⟨nofun, nofun, fun image' h => ?_⟩
    obtain rfl : image = image' := (Prod.mk.inj (Except.ok.inj h)).2
    refine ⟨hdescribes.data, hwf, hdescribes, fun address length offset hspan => ?_⟩
    rw [← hdescribes.data]
    exact hwf.span_bytes hspan
  | error stop =>
    cases stop with
    | wrong => exact absurd hopen hsafe.not_wrong
    | error e => exact ⟨nofun, fun error out' h => (Prod.mk.inj (Except.ok.inj h)).2.symm, nofun⟩

/-! ## A sample -/

/-- A program header: type and flags, then the file offset and address, then the size, of a segment
that is loaded where it is in the file. -/
def sampleHeader (type flags offset size : Nat) : List UInt8 :=
  Bytes.writeLE 4 type ++ Bytes.writeLE 4 flags ++
    [offset, offset, offset, size, size, 1].flatMap (Bytes.writeLE 8)

/-- A shared object with a symbol `f`, a GNU hash table, one RELA entry and the RELR table `relr`
of three words. -/
def sampleBytes (relr : List Nat) : List UInt8 :=
  [0x7f, 0x45, 0x4c, 0x46, 2, 1, 1, 0, 0, 0, 0, 0, 0, 0, 0, 0] ++
    Bytes.writeLE 2 3 ++ Bytes.writeLE 2 183 ++ Bytes.writeLE 4 1 ++
    [0, 64, 0].flatMap (Bytes.writeLE 8) ++ Bytes.writeLE 4 0 ++
    [64, 56, 3, 64, 0, 0].flatMap (Bytes.writeLE 2) ++
    sampleHeader 1 4 0 0x230 ++ sampleHeader 1 6 0x230 48 ++ sampleHeader 2 4 0x170 192 ++
    -- strings, symbols, hash table
    [0, 102, 0, 0, 0, 0, 0, 0] ++ List.replicate 24 0 ++
    Bytes.writeLE 4 1 ++ [0x12, 0, 1, 0] ++ [0x100, 4].flatMap (Bytes.writeLE 8) ++
    [1, 1, 1, 0].flatMap (Bytes.writeLE 4) ++ List.replicate 8 255 ++ Bytes.writeLE 4 1 ++
    Bytes.writeLE 4 177675 ++
    -- relocations
    [0x250, 1027, 5].flatMap (Bytes.writeLE 8) ++ relr.flatMap (Bytes.writeLE 8) ++
    -- dynamic section
    [5, 0xe8, 10, 8, 6, 0xf0, 11, 24, 0x6ffffef5, 0x120, 7, 0x140, 8, 24, 9, 24, 36, 0x158, 35, 24,
      37, 8, 0, 0].flatMap (Bytes.writeLE 8) ++
    -- data
    List.replicate 48 0

/-- The sample in memory. -/
def sampleInput : Input := ⟨4096, sampleBytes [0x230, 3, 0x240], by decide +kernel⟩

/-- What is opened. -/
def sampleImage : Image :=
  match openImage sampleInput true with
  | .ok image => image
  | .error _ => { data := sampleInput, entry := 0, type := 0, programHeaderCount := 0, programHeaderOffset := 0 }

theorem sampleImage_open : openImage sampleInput true = .ok sampleImage := by
  have h : (openImage sampleInput true).toOption.isSome = true := by decide +kernel
  obtain ⟨image, himage⟩ := Option.isSome_iff_exists.1 h
  unfold sampleImage
  rw [toOption_eq_some.1 himage]

theorem sample_accepted : sampleImage.WellFormed ∧ sampleImage.Describes sampleInput ∧
    ∃ b, sampleInput.bytes[0x233]? = some b ∧ ∀ b', sampleImage.Loads 0x233 b' ↔ b' = b := by
  have hopen : elfOpen sampleInput sampleImage = .ok (none, sampleImage) := by
    unfold elfOpen
    rw [sampleImage_open]
  obtain ⟨_, _, haccept⟩ := elfOpen_accepts sampleInput sampleImage
  obtain ⟨_, hwf, hdescribes, hspan⟩ := haccept sampleImage hopen
  have hfound : virtualSpan sampleImage 0x230 8 = .ok 0x230 := by
    have h : (virtualSpan sampleImage 0x230 8).toOption = some 0x230 := by decide +kernel
    cases hs : virtualSpan sampleImage 0x230 8 with
    | ok offset =>
      rw [hs] at h
      exact congrArg _ (Option.some.inj h)
    | error e =>
      rw [hs] at h
      cases h
  exact ⟨hwf, hdescribes, (hspan 0x230 8 0x230 hfound).2 3 (by decide)⟩

end Artbox.Elf
