import Artbox.Elf.WellFormed
import Artbox.Elf.Dynamic
import Mathlib.Data.Finset.Card
import Mathlib.Order.Interval.Finset.Nat

/-!
# Dynamic tables are in bounds

What `artbox_dynamic_open` has checked when it accepts, stage by stage: where the tables are
(`HasStrings` and so on), what the walks along the hash chains have seen (`Ends`, `GnuRun`), and
that the versions belong to their symbols. Each stage has one lemma, which also says that it
reads only inside the image. `Dynamic.Valid` collects them, and `Dynamic.Given` says which
entries of the dynamic section the tables come from.
-/

namespace Artbox.Elf

open Checked

variable {image : Image} {d d' : Dynamic} {e : Entries}

/-! ## Views and strings -/

/-- A view lies in the file. -/
theorem view_ok {address length p : Nat} (h : view image address length = some p) :
    p + length ≤ image.data.bytes.length := by
  unfold view at h
  cases hspan : virtualSpan image address length with
  | error e =>
    rw [hspan] at h
    cases h
  | ok offset =>
    rw [hspan] at h
    obtain rfl : offset = p := Option.some.inj h
    obtain ⟨s, _, hlow, hhigh, hfile, rfl⟩ := virtualSpan_ok hspan
    unfold Image.size at hfile
    omega

/-- The string table is in the image. -/
def Dynamic.HasStrings (d : Dynamic) : Prop := d.strings + d.stringsSize ≤ d.bytes.length

/-- The symbol table is in the image. -/
def Dynamic.HasSymbols (d : Dynamic) : Prop := d.symbols + d.symbolCount * 24 ≤ d.bytes.length

/-- The SysV hash table is in the image. -/
structure Dynamic.HasSysv (d : Dynamic) : Prop where
  buckets : d.sysvBucketCount ≠ 0 → d.sysvBuckets + d.sysvBucketCount * 4 ≤ d.bytes.length
  chains : d.sysvBucketCount ≠ 0 → d.sysvChains + d.symbolCount * 4 ≤ d.bytes.length

/-- The GNU hash table is in the image. -/
structure Dynamic.HasGnu (d : Dynamic) : Prop where
  bloom : d.gnuBucketCount ≠ 0 → d.gnuBloom + d.gnuBloomCount * 8 ≤ d.bytes.length
  buckets : d.gnuBucketCount ≠ 0 → d.gnuBuckets + d.gnuBucketCount * 4 ≤ d.bytes.length
  chains : d.gnuBucketCount ≠ 0 →
    d.gnuChains + (d.symbolCount - d.gnuSymbolOffset) * 4 ≤ d.bytes.length
  bloomCount : d.gnuBucketCount ≠ 0 → d.gnuBloomCount ≠ 0
  offset : d.gnuBucketCount ≠ 0 → 0 < d.gnuSymbolOffset ∧ d.gnuSymbolOffset ≤ d.symbolCount

/-- A string is read inside the string table. -/
theorem stringAt_safe (h : d.HasStrings) (offset : Nat) : Safe (stringAt d offset) fun _ => True := by
  unfold Dynamic.HasStrings at h
  unfold stringAt
  refine Safe.ite (fun _ => Safe.ok trivial) fun _ => ?_
  refine Safe.bind (Safe.slice (by omega)) fun rest _ => ?_
  exact Safe.pure trivial

/-- A symbol is read inside the symbol table, and its name inside the string table. -/
theorem dynamicSymbol_safe (hstrings : d.HasStrings) (hsymbols : d.HasSymbols) (index : Nat) :
    Safe (dynamicSymbol d index) fun _ => True := by
  unfold Dynamic.HasSymbols at hsymbols
  unfold dynamicSymbol
  refine Safe.bind Safe.reject fun _ hindex => ?_
  dsimp only
  refine Safe.bind (Safe.fetch (by omega)) fun other _ => ?_
  refine Safe.bind Safe.reject fun _ _ => ?_
  refine Safe.bind (Safe.fetch (by omega)) fun offset _ => ?_
  refine Safe.bind (stringAt_safe hstrings offset) fun name _ => ?_
  refine Safe.bind (Safe.fetch (by omega)) fun info _ => ?_
  refine Safe.bind (Safe.fetch (by omega)) fun sect _ => ?_
  refine Safe.bind (Safe.fetch (by omega)) fun value _ => ?_
  refine Safe.bind (Safe.fetch (by omega)) fun size _ => ?_
  refine Safe.bind (Safe.require fun _ _ => trivial) fun name _ => ?_
  refine Safe.bind Safe.reject fun _ _ => ?_
  exact Safe.pure trivial

/-! ## Entries -/

/-- The entries, tag and value, of a dynamic section at `p` with room for `left` of them, up to
its terminator. -/
def entriesFrom (data : List UInt8) : (left p : Nat) → List (Nat × Nat)
  | 0, _ => []
  | left + 1, p =>
    if Bytes.field data p 8 = 0 then []
    else (Bytes.field data p 8, Bytes.field data (p + 8) 8) :: entriesFrom data left (p + 16)

/-- A list of entries gives a value for a key. -/
def Gives (entries : List (Nat × Nat)) (key : Key) (value : Nat) : Prop :=
  ∃ tag, tagKey tag = some key ∧ (tag, value) ∈ entries

/-- No entries give nothing. -/
theorem not_gives_nil {key : Key} {value : Nat} : ¬ Gives [] key value := by
  rintro ⟨tag, _, hmem⟩
  cases hmem

/-- The first entry gives its value to the key of its tag. -/
theorem gives_cons {tag v value : Nat} {key : Key} {entries : List (Nat × Nat)} :
    Gives ((tag, v) :: entries) key value ↔ (tagKey tag = some key ∧ value = v) ∨ Gives entries key value := by
  constructor
  · rintro ⟨tag', hkey, hmem⟩
    rcases List.mem_cons.1 hmem with heq | hmem
    · cases heq
      exact .inl ⟨hkey, rfl⟩
    · exact .inr ⟨tag', hkey, hmem⟩
  · rintro (⟨hkey, rfl⟩ | ⟨tag', hkey, hmem⟩)
    · exact ⟨tag, hkey, List.mem_cons_self⟩
    · exact ⟨tag', hkey, List.mem_cons_of_mem _ hmem⟩

/-- An entry with a tag of no key gives nothing. -/
theorem gives_cons_of_none {tag v value : Nat} {key : Key} {entries : List (Nat × Nat)}
    (h : tagKey tag = none) : Gives ((tag, v) :: entries) key value ↔ Gives entries key value := by
  rw [gives_cons, h]
  exact or_iff_right fun h' => Option.some_ne_none _ h'.1.symm

/-- The values that are scanned are those that the entries give; a key has one of them. -/
theorem scanEntries_safe {data : List UInt8} {left p : Nat} (h : p + left * 16 ≤ data.length)
    (e : Entries) : Safe (scanEntries data left p e) fun e' => ∀ key value,
      e'.values key = some value ↔ e.values key = some value ∨ Gives (entriesFrom data left p) key value := by
  induction left generalizing p e with
  | zero => exact Safe.fail _
  | succ left ih =>
    unfold scanEntries entriesFrom
    refine Safe.bind (Safe.fetch (by omega)) fun tag htag => ?_
    refine Safe.bind (Safe.fetch (by omega)) fun value hvalue => ?_
    rw [← htag, ← hvalue]
    refine Safe.ite (fun hend => Safe.pure fun key v => ?_) fun hmore => ?_
    · rw [if_pos hend]
      exact (or_iff_left not_gives_nil).symm
    rw [if_neg hmore]
    -- an entry with no key of its own leaves the values alone
    have hskip : tagKey tag = none → ∀ e' : Entries, e'.values = e.values →
        Safe (scanEntries data left (p + 16) e') fun e'' => ∀ key v, e''.values key = some v ↔
          e.values key = some v ∨ Gives ((tag, value) :: entriesFrom data left (p + 16)) key v := by
      intro hnone e' hsame
      refine Safe.mono (ih (by omega) e') fun e'' hrest key v => ?_
      rw [hrest, hsame, gives_cons_of_none hnone]
    refine Safe.ite (fun h1 => ?_) fun _ => ?_
    · refine Safe.bind Safe.reject fun _ _ => ?_
      exact hskip (by rw [h1]; rfl) _ rfl
    · refine Safe.bind Safe.reject fun _ _ => ?_
      refine Safe.ite (fun h16 => hskip (by rw [h16]; rfl) _ rfl) fun _ =>
        Safe.ite (fun h24 => hskip (by rw [h24]; rfl) _ rfl) fun _ => ?_
      cases hkey : tagKey tag with
      | none => exact hskip hkey e rfl
      | some key =>
        refine Safe.bind Safe.reject fun _ hseen => ?_
        have hfree : e.values key = none := by simpa [Entries.seen] using hseen
        refine Safe.mono (ih (by omega) _) fun e'' hrest key' v => ?_
        rw [hrest, gives_cons, hkey, ← or_assoc]
        refine or_congr_left ?_
        by_cases hsame : key' = key
        · subst hsame
          simp [Function.update_self, hfree, eq_comm]
        · simp [Function.update_of_ne hsame, Ne.symm hsame]

/-- The entries of the dynamic section of an image. -/
def Image.dynamicEntries (image : Image) : List (Nat × Nat) :=
  match image.dynamic with
  | none => []
  | some s =>
    match view image s.virtualAddress s.fileSize with
    | none => []
    | some p => entriesFrom image.data.bytes (s.fileSize / 16) p

/-- What was scanned is what the entries of the image give. -/
def Entries.Of (e : Entries) (image : Image) : Prop :=
  ∀ key value, e.values key = some value ↔ Gives image.dynamicEntries key value

/-- The value of a key that was seen is one that the image's entries give. -/
theorem Entries.Of.value (h : e.Of image) {key : Key} (hseen : e.seen key) :
    Gives image.dynamicEntries key (e.value key) := by
  obtain ⟨value, hvalue⟩ := Option.isSome_iff_exists.1 hseen
  unfold Entries.value
  rw [hvalue]
  exact (h key value).1 hvalue

/-! ## Hash tables -/

/-- The first symbols of the buckets are read inside the table, and none is below the offset. -/
theorem gnuHighest_safe {data : List UInt8} {symbolOffset left bucket highest : Nat}
    (h : bucket + left * 4 ≤ data.length) (hh : highest ≠ 0 → symbolOffset ≤ highest) :
    Safe (gnuHighest data symbolOffset left bucket highest) fun r => r ≠ 0 → symbolOffset ≤ r := by
  induction left generalizing bucket highest with
  | zero => exact Safe.ok hh
  | succ left ih =>
    unfold gnuHighest
    refine Safe.bind (Safe.fetch (by omega)) fun symbol _ => ?_
    refine Safe.bind Safe.reject fun _ hsymbol => ?_
    exact ih (by omega) (by omega)

/-- The walk along the last chain reads inside the table, and its end fits. -/
theorem gnuEnd_safe {data : List UInt8} {chains symbolOffset capacity left symbol : Nat}
    (h : chains + capacity * 4 ≤ data.length) (hs : symbolOffset ≤ symbol) :
    Safe (gnuEnd data chains symbolOffset capacity left symbol) fun r =>
      symbolOffset ≤ r ∧ r - symbolOffset ≤ capacity := by
  induction left generalizing symbol with
  | zero => exact Safe.fail _
  | succ left ih =>
    unfold gnuEnd
    refine Safe.bind Safe.reject fun _ hcapacity => ?_
    refine Safe.bind (Safe.fetch (by omega)) fun hash _ => ?_
    exact Safe.ite (fun _ => Safe.pure ⟨by omega, by omega⟩) fun _ => ih (by omega)

/-- The fields that `gnu_shape` sets, and the others. -/
structure GnuShaped (d d' : Dynamic) (count : Nat) : Prop where
  image : d'.image = d.image
  strings : d'.strings = d.strings ∧ d'.stringsSize = d.stringsSize
  sysv : d'.sysvBucketCount = d.sysvBucketCount ∧ d'.sysvBuckets = d.sysvBuckets ∧
    d'.sysvChains = d.sysvChains
  symbolCount : d'.symbolCount = d.symbolCount
  versions : d'.versions = d.versions ∧ d'.versym = d.versym
  bucketCount : d'.gnuBucketCount ≠ 0
  bloomCount : d'.gnuBloomCount ≠ 0
  bloom : d'.gnuBloom + d'.gnuBloomCount * 8 ≤ d.bytes.length
  buckets : d'.gnuBuckets + d'.gnuBucketCount * 4 ≤ d.bytes.length
  chains : d'.gnuChains + (count - d'.gnuSymbolOffset) * 4 ≤ d.bytes.length
  offset : 0 < d'.gnuSymbolOffset ∧ d'.gnuSymbolOffset ≤ count

/-- The GNU hash table is read inside its view, and its parts lie in the image. -/
theorem gnuShape_safe (d : Dynamic) (address : Nat) :
    Safe (gnuShape d address) fun r => GnuShaped d r.1 r.2 := by
  unfold gnuShape
  refine Safe.bind (Safe.require fun _ h => view_ok h) fun p hp => ?_
  change p + 16 ≤ d.bytes.length at hp
  refine Safe.bind (Safe.fetch (by omega)) fun bucketCount _ => ?_
  refine Safe.bind (Safe.fetch (by omega)) fun symbolOffset _ => ?_
  refine Safe.bind (Safe.fetch (by omega)) fun bloomCount _ => ?_
  refine Safe.bind (Safe.fetch (by omega)) fun shift _ => ?_
  refine Safe.bind Safe.reject fun _ hshape => ?_
  refine Safe.bind Safe.reject fun _ _ => ?_
  dsimp only
  refine Safe.bind (Safe.require fun _ h => view_ok h) fun q hq => ?_
  change q + available d.image address ≤ d.bytes.length at hq
  refine Safe.bind Safe.reject fun _ hlength => ?_
  have hbuckets : q + 16 + bloomCount * 8 + bucketCount * 4 ≤ d.bytes.length := by omega
  refine Safe.bind (gnuHighest_safe hbuckets fun h0 => absurd rfl h0) fun highest hhighest => ?_
  refine Safe.ite (fun _ => ?_) fun hne => ?_
  · exact Safe.pure ⟨rfl, ⟨rfl, rfl⟩, ⟨rfl, rfl, rfl⟩, rfl, ⟨rfl, rfl⟩, by dsimp only; omega,
      by dsimp only; omega, by dsimp only; omega, hbuckets, by dsimp only; omega, by dsimp only; omega⟩
  · have hchains : q + (16 + bloomCount * 8 + bucketCount * 4) +
        (available d.image address - (16 + bloomCount * 8 + bucketCount * 4)) / 4 * 4 ≤
          d.bytes.length := by omega
    refine Safe.bind (gnuEnd_safe hchains (hhighest hne)) fun count hcount => ?_
    exact Safe.pure ⟨rfl, ⟨rfl, rfl⟩, ⟨rfl, rfl, rfl⟩, rfl, ⟨rfl, rfl⟩, by dsimp only; omega,
      by dsimp only; omega, by dsimp only; omega, hbuckets, by dsimp only; omega, by dsimp only; omega⟩

/-- What opening the hash tables leaves alone, and what it finds. -/
structure Shaped (d d' : Dynamic) : Prop where
  image : d'.image = d.image
  strings : d'.strings = d.strings ∧ d'.stringsSize = d.stringsSize
  versions : d'.versions = d.versions ∧ d'.versym = d.versym
  sysv : d'.HasSysv
  gnu : d'.HasGnu
  counts : d'.sysvBucketCount ≠ 0 ∨ d'.gnuBucketCount ≠ 0 → 0 < d'.symbolCount

/-- The SysV hash table is read inside its view, and its parts lie in the image. -/
theorem sysvShape_safe (hsysv : d.sysvBucketCount = 0) (hgnu : d.gnuBucketCount = 0)
    (value : Option Nat) : Safe (sysvShape d value) fun d' => Shaped d d' ∧ d'.gnuBucketCount = 0 ∧
      (value.isSome → d'.sysvBucketCount ≠ 0) := by
  cases value with
  | none =>
    refine Safe.ok ⟨⟨rfl, ⟨rfl, rfl⟩, ⟨rfl, rfl⟩, ⟨absurd hsysv, absurd hsysv⟩, ⟨absurd hgnu, absurd hgnu,
      absurd hgnu, absurd hgnu, absurd hgnu⟩, fun h => ?_⟩, hgnu, nofun⟩
    exact absurd h (by rw [hsysv, hgnu]; decide)
  | some address =>
    unfold sysvShape
    refine Safe.bind (Safe.require fun _ h => view_ok h) fun p hp => ?_
    change p + 8 ≤ d.bytes.length at hp
    refine Safe.bind (Safe.fetch (by omega)) fun bucketCount _ => ?_
    refine Safe.bind (Safe.fetch (by omega)) fun symbolCount _ => ?_
    refine Safe.bind Safe.reject fun _ hcounts => ?_
    refine Safe.bind Safe.reject fun _ _ => ?_
    refine Safe.bind (Safe.require fun _ h => view_ok h) fun q hq => ?_
    change q + (8 + (bucketCount + symbolCount) * 4) ≤ d.bytes.length at hq
    refine Safe.pure ⟨⟨rfl, ⟨rfl, rfl⟩, ⟨rfl, rfl⟩, ⟨fun _ => ?_, fun _ => ?_⟩, ⟨absurd hgnu, absurd hgnu,
      absurd hgnu, absurd hgnu, absurd hgnu⟩, fun _ => ?_⟩, hgnu, fun _ => ?_⟩
    · show q + 8 + bucketCount * 4 ≤ d.bytes.length
      omega
    · show q + 8 + bucketCount * 4 + symbolCount * 4 ≤ d.bytes.length
      omega
    · show 0 < symbolCount
      omega
    · show bucketCount ≠ 0
      omega

/-- A second hash table agrees with the first about the number of symbols. -/
theorem gnuTable_safe (hsysv : d.HasSysv) (hgnu : d.gnuBucketCount = 0)
    (hcount : d.sysvBucketCount ≠ 0 → 0 < d.symbolCount) (value : Option Nat) :
    Safe (gnuTable d value) fun d' => Shaped d d' ∧ (value.isSome → d'.gnuBucketCount ≠ 0) ∧
      d'.sysvBucketCount = d.sysvBucketCount := by
  cases value with
  | none =>
    refine Safe.ok ⟨⟨rfl, ⟨rfl, rfl⟩, ⟨rfl, rfl⟩, hsysv, ⟨absurd hgnu, absurd hgnu,
      absurd hgnu, absurd hgnu, absurd hgnu⟩, fun h => ?_⟩, nofun, rfl⟩
    exact hcount (h.resolve_right (absurd hgnu))
  | some address =>
    unfold gnuTable
    refine Safe.bind (gnuShape_safe d address) fun r hr => ?_
    obtain ⟨d', count⟩ := r
    dsimp only at hr ⊢
    refine Safe.bind Safe.reject fun _ hsame => ?_
    have himage : d'.bytes = d.bytes := congrArg (·.data.bytes) hr.image
    obtain ⟨hbuckets, hfirst, hchains⟩ := hr.sysv
    refine Safe.pure ⟨⟨hr.image, hr.strings, hr.versions, ⟨fun h => ?_, fun h => ?_⟩,
      ⟨fun _ => himage ▸ hr.bloom, fun _ => himage ▸ hr.buckets, fun _ => himage ▸ hr.chains,
        fun _ => hr.bloomCount, fun _ => hr.offset⟩, fun _ => ?_⟩, fun _ => hr.bucketCount, hbuckets⟩
    · show d'.sysvBuckets + d'.sysvBucketCount * 4 ≤ d'.bytes.length
      rw [hbuckets, hfirst, himage]
      exact hsysv.buckets (hbuckets ▸ h)
    · have hpos := hcount (hbuckets ▸ h)
      have hle := hsysv.chains (hbuckets ▸ h)
      have hcountEq := hr.symbolCount
      show d'.sysvChains + count * 4 ≤ d'.bytes.length
      rw [hchains, himage]
      omega
    · have hoffset := hr.offset
      show 0 < count
      omega

/-! ## Walks along the chains -/

/-- Every symbol can be read. -/
def Dynamic.Readable (d : Dynamic) : Prop := ∀ i < d.symbolCount, ∃ s, dynamicSymbol d i = .ok s

/-- The symbol behind `index` in its SysV chain. -/
def Dynamic.sysvNext (d : Dynamic) (index : Nat) : Nat := Bytes.field d.bytes (d.sysvChains + index * 4) 4

/-- The chain from `index` on ends: it has no cycle. -/
inductive Dynamic.Ends (d : Dynamic) : Nat → Prop
  | stop : d.Ends 0
  | step {index : Nat} (hne : index ≠ 0) (hlt : index < d.symbolCount) (h : d.Ends (d.sysvNext index)) :
    d.Ends index

/-- The GNU chain word of a symbol. -/
def Dynamic.gnuChain (d : Dynamic) (index : Nat) : Nat :=
  Bytes.field d.bytes (d.gnuChains + (index - d.gnuSymbolOffset) * 4) 4

/-- The first symbol of a GNU bucket. -/
def Dynamic.gnuBucket (d : Dynamic) (i : Nat) : Nat := Bytes.field d.bytes (d.gnuBuckets + i * 4) 4

/-- The bloom filter lets a hash through. -/
def Dynamic.Blooms (d : Dynamic) (hash : BitVec 32) : Prop :=
  BitVec.ofNat 64 (Bytes.field d.bytes (d.gnuBloom + hash.toNat / 64 % d.gnuBloomCount * 8) 8) &&&
    bloomBits hash d.gnuShift = bloomBits hash d.gnuShift

/-- The symbol at `index` is one of GNU bucket `i`. -/
def Dynamic.GnuMember (d : Dynamic) (i index : Nat) : Prop :=
  ∃ s, dynamicSymbol d index = .ok s ∧ SameHash (gnuHash s.name) (d.gnuChain index) ∧
    (gnuHash s.name).toNat % d.gnuBucketCount = i ∧ d.Blooms (gnuHash s.name)

/-- The symbols from `index` on are the last `n` of the chain of GNU bucket `i`. -/
structure Dynamic.GnuRun (d : Dynamic) (i index n : Nat) : Prop where
  pos : 0 < n
  low : d.gnuSymbolOffset ≤ index
  high : index + n ≤ d.symbolCount
  member : ∀ k < n, d.GnuMember i (index + k)
  last : ∀ k < n, d.gnuChain (index + k) % 2 = 1 ↔ k + 1 = n

/-- Behind the first loop of `validate_hashes` every symbol can be read. -/
theorem checkSymbols_safe (hstrings : d.HasStrings) (hsymbols : d.HasSymbols) {left i : Nat} :
    Safe (checkSymbols d left i) fun _ => ∀ k, i ≤ k → k < i + left → ∃ s, dynamicSymbol d k = .ok s := by
  induction left generalizing i with
  | zero => exact Safe.ok fun k hk hk' => absurd hk' (by omega)
  | succ left ih =>
    unfold checkSymbols
    refine Safe.bind (P := fun s => dynamicSymbol d i = .ok s) ?_ fun symbol hsymbol => ?_
    · cases hd : dynamicSymbol d i with
      | ok s => rfl
      | error stop =>
        cases stop with
        | error e => trivial
        | wrong => exact (dynamicSymbol_safe hstrings hsymbols i).not_wrong hd
    · refine Safe.mono ih fun _ hrest k hk hk' => ?_
      by_cases heq : k = i
      · exact ⟨symbol, heq ▸ hsymbol⟩
      · exact hrest k (by omega) (by omega)

/-- The chain words are read inside the SysV table. -/
theorem checkChains_safe {left i : Nat} (h : d.sysvChains + (i + left) * 4 ≤ d.bytes.length) :
    Safe (checkChains d left i) fun _ => True := by
  induction left generalizing i with
  | zero => exact Safe.ok trivial
  | succ left ih =>
    unfold checkChains
    refine Safe.bind (Safe.fetch (by omega)) fun next _ => ?_
    refine Safe.bind Safe.reject fun _ _ => ?_
    exact ih (by omega)

/-- A walk along a SysV chain that succeeds has seen its end. -/
theorem checkChain_safe (hstrings : d.HasStrings) (hsymbols : d.HasSymbols)
    (h : d.sysvChains + d.symbolCount * 4 ≤ d.bytes.length) {i left index : Nat} :
    Safe (checkChain d i left index) fun _ => d.Ends index := by
  induction left generalizing index with
  | zero =>
    unfold checkChain
    exact Safe.ite (fun h0 => Safe.ok (h0 ▸ .stop)) fun _ => Safe.fail _
  | succ left ih =>
    unfold checkChain
    refine Safe.ite (fun h0 => Safe.ok (h0 ▸ .stop)) fun hne => ?_
    refine Safe.bind Safe.reject fun _ hlt => ?_
    refine Safe.bind (dynamicSymbol_safe hstrings hsymbols index).attempt fun symbol _ => ?_
    refine Safe.bind (Safe.require fun _ _ => trivial) fun symbol _ => ?_
    refine Safe.bind Safe.reject fun _ _ => ?_
    refine Safe.bind (Safe.fetch (by omega)) fun next hnext => ?_
    refine Safe.mono ih fun _ hends => .step hne (by omega) ?_
    rw [hnext] at hends
    exact hends

/-- Behind the loop over the buckets every SysV chain is known to end. -/
theorem checkBuckets_safe (hstrings : d.HasStrings) (hsymbols : d.HasSymbols)
    (h : d.sysvChains + d.symbolCount * 4 ≤ d.bytes.length) {left i : Nat}
    (hb : d.sysvBuckets + (i + left) * 4 ≤ d.bytes.length) :
    Safe (checkBuckets d left i) fun _ =>
      ∀ k, i ≤ k → k < i + left → d.Ends (Bytes.field d.bytes (d.sysvBuckets + k * 4) 4) := by
  induction left generalizing i with
  | zero => exact Safe.ok fun k hk hk' => absurd hk' (by omega)
  | succ left ih =>
    unfold checkBuckets
    refine Safe.bind (Safe.fetch (by omega)) fun index hindex => ?_
    refine Safe.bind (checkChain_safe hstrings hsymbols h) fun _ hends => ?_
    refine Safe.mono (ih (by omega)) fun _ hrest k hk hk' => ?_
    by_cases heq : k = i
    · rw [heq, ← hindex]
      exact hends
    · exact hrest k (by omega) (by omega)

/-- A walk along a GNU chain that succeeds has seen a run of symbols of its bucket. -/
theorem checkGnuChain_safe (hstrings : d.HasStrings) (hsymbols : d.HasSymbols) (hgnu : d.HasGnu)
    (hcount : d.gnuBucketCount ≠ 0) {i left index covered : Nat} (hleft : left = d.symbolCount - index) :
    Safe (checkGnuChain d i left index covered) fun r => ∃ n, r = covered + n ∧ d.GnuRun i index n := by
  have hchains := hgnu.chains hcount
  have hbloom := hgnu.bloom hcount
  have hbloomCount := hgnu.bloomCount hcount
  induction left generalizing index covered with
  | zero => exact Safe.fail _
  | succ left ih =>
    unfold checkGnuChain
    refine Safe.bind Safe.reject fun _ hlow => ?_
    refine Safe.bind (dynamicSymbol_safe hstrings hsymbols index).attempt fun found hfound => ?_
    refine Safe.bind (Safe.require fun s hs => (hfound s hs).1) fun symbol hsymbol => ?_
    dsimp only
    refine Safe.bind (Safe.fetch (by omega)) fun chain hchain => ?_
    have hword : (gnuHash symbol.name).toNat / 64 % d.gnuBloomCount < d.gnuBloomCount :=
      Nat.mod_lt _ (by omega)
    refine Safe.bind (Safe.fetch (by omega)) fun word hword' => ?_
    refine Safe.bind Safe.reject fun _ hcheck => ?_
    -- the symbol has a name in its bucket and passes the bloom filter
    have hmember : d.GnuMember i index := by
      refine ⟨symbol, hsymbol, ?_, ?_, ?_⟩
      · unfold Dynamic.gnuChain
        rw [← hchain]
        exact by_contra fun h => hcheck (.inl h)
      · exact by_contra fun h => hcheck (.inr (.inl h))
      · unfold Dynamic.Blooms
        rw [← hword']
        exact by_contra fun h => hcheck (.inr (.inr h))
    refine Safe.ite (fun hend => ?_) fun hmore => ?_
    · -- the chain ends here
      refine Safe.pure ⟨1, rfl, by omega, by omega, by omega, fun k hk => ?_, fun k hk => ?_⟩
      · obtain rfl : k = 0 := by omega
        exact hmember
      · obtain rfl : k = 0 := by omega
        unfold Dynamic.gnuChain
        rw [Nat.add_zero, ← hchain]
        exact ⟨fun _ => rfl, fun _ => hend⟩
    · refine Safe.mono (ih (by omega)) fun r hr => ?_
      obtain ⟨n, rfl, hrun⟩ := hr
      have hhigh := hrun.high
      refine ⟨n + 1, by omega, by omega, by omega, by omega, fun k hk => ?_, fun k hk => ?_⟩
      · by_cases h0 : k = 0
        · rw [h0]
          exact hmember
        · have hk' := hrun.member (k - 1) (by omega)
          rw [show index + 1 + (k - 1) = index + k by omega] at hk'
          exact hk'
      · by_cases h0 : k = 0
        · have hpos := hrun.pos
          subst h0
          unfold Dynamic.gnuChain
          rw [Nat.add_zero, ← hchain]
          exact ⟨fun h => absurd h hmore, fun h => by omega⟩
        · have hk' := hrun.last (k - 1) (by omega)
          rw [show index + 1 + (k - 1) = index + k by omega] at hk'
          rw [hk']
          omega

/-- The symbol at `j` is in the chain of GNU bucket `i`. -/
def Dynamic.GnuIn (d : Dynamic) (i j : Nat) : Prop :=
  ∃ n, d.GnuRun i (d.gnuBucket i) n ∧ d.gnuBucket i ≠ 0 ∧ d.gnuBucket i ≤ j ∧ j < d.gnuBucket i + n

/-- A symbol in a bucket's run is one of the bucket. -/
theorem Dynamic.GnuIn.member {i j : Nat} (h : d.GnuIn i j) : d.GnuMember i j := by
  obtain ⟨n, hrun, _, hlow, hhigh⟩ := h
  have hk := hrun.member (j - d.gnuBucket i) (by omega)
  rw [show d.gnuBucket i + (j - d.gnuBucket i) = j by omega] at hk
  exact hk

/-- A symbol is in one bucket. -/
theorem Dynamic.GnuMember.unique {i i' j : Nat} (h : d.GnuMember i j) (h' : d.GnuMember i' j) : i = i' := by
  obtain ⟨s, hs, _, hi, _⟩ := h
  obtain ⟨s', hs', _, hi', _⟩ := h'
  obtain rfl : s = s' := Except.ok.inj (hs.symm.trans hs')
  exact hi.symm.trans hi'

/-- The runs of different buckets have no symbol in common, so their sizes add up. -/
theorem checkGnuBuckets_safe (hstrings : d.HasStrings) (hsymbols : d.HasSymbols) (hgnu : d.HasGnu)
    (hcount : d.gnuBucketCount ≠ 0) {left i covered : Nat} (hi : i + left = d.gnuBucketCount)
    {seen : Finset Nat} (hcard : seen.card = covered)
    (hseen : ∀ j ∈ seen, d.gnuSymbolOffset ≤ j ∧ j < d.symbolCount ∧ ∃ b < i, d.GnuIn b j)
    (hbuckets : ∀ b < i, d.gnuBucket b ≠ 0 → ∃ n, d.GnuRun b (d.gnuBucket b) n) :
    Safe (checkGnuBuckets d left i covered) fun r => ∃ seen' : Finset Nat, seen'.card = r ∧
      (∀ j ∈ seen', d.gnuSymbolOffset ≤ j ∧ j < d.symbolCount ∧ ∃ b < d.gnuBucketCount, d.GnuIn b j) ∧
      ∀ b < d.gnuBucketCount, d.gnuBucket b ≠ 0 → ∃ n, d.GnuRun b (d.gnuBucket b) n := by
  have htable := hgnu.buckets hcount
  induction left generalizing i covered seen with
  | zero =>
    obtain rfl : i = d.gnuBucketCount := hi
    exact Safe.ok ⟨seen, hcard, hseen, hbuckets⟩
  | succ left ih =>
    unfold checkGnuBuckets
    refine Safe.bind (Safe.fetch (by omega)) fun index hindex => ?_
    have hbucket : d.gnuBucket i = index := hindex.symm
    have hgrow : ∀ j ∈ seen, d.gnuSymbolOffset ≤ j ∧ j < d.symbolCount ∧ ∃ b < i + 1, d.GnuIn b j := by
      intro j hj
      obtain ⟨hlow, hhigh, b, hb, hin⟩ := hseen j hj
      exact ⟨hlow, hhigh, b, by omega, hin⟩
    refine Safe.ite (fun h0 => ih (by omega) hcard hgrow fun b hb hne => ?_) fun hne => ?_
    · by_cases heq : b = i
      · rw [heq, hbucket] at hne
        exact absurd h0 hne
      · exact hbuckets b (by omega) hne
    · refine Safe.bind (checkGnuChain_safe hstrings hsymbols hgnu hcount rfl) fun r hr => ?_
      obtain ⟨n, rfl, hrun⟩ := hr
      rw [← hbucket] at hrun hne
      have hhigh := hrun.high
      have hlow := hrun.low
      have hnew : ∀ j ∈ Finset.Ico (d.gnuBucket i) (d.gnuBucket i + n), d.GnuIn i j := by
        intro j hj
        obtain ⟨hj, hj'⟩ := Finset.mem_Ico.1 hj
        exact ⟨n, hrun, hne, hj, hj'⟩
      -- what earlier buckets cover is in them, so this run is new
      have hdisjoint : Disjoint seen (Finset.Ico (d.gnuBucket i) (d.gnuBucket i + n)) := by
        refine Finset.disjoint_left.2 fun j hj hj' => ?_
        obtain ⟨_, _, b, hb, hin⟩ := hseen j hj
        have heq := hin.member.unique (hnew j hj').member
        omega
      have hcard' : (seen ∪ Finset.Ico (d.gnuBucket i) (d.gnuBucket i + n)).card = covered + n := by
        rw [Finset.card_union_of_disjoint hdisjoint, hcard, Nat.card_Ico]
        omega
      refine ih (by omega) hcard' (fun j hj => ?_) fun b hb hb0 => ?_
      · rcases Finset.mem_union.1 hj with hj | hj
        · exact hgrow j hj
        · obtain ⟨hj1, hj2⟩ := Finset.mem_Ico.1 hj
          exact ⟨by omega, by omega, i, by omega, hnew j hj⟩
      · by_cases heq : b = i
        · rw [heq]
          exact ⟨n, hrun⟩
        · exact hbuckets b (by omega) hb0

/-- The GNU table covers the symbols behind its offset. -/
structure Dynamic.GnuComplete (d : Dynamic) : Prop where
  buckets : ∀ b < d.gnuBucketCount, d.gnuBucket b ≠ 0 → ∃ n, d.GnuRun b (d.gnuBucket b) n
  covers : ∀ j, d.gnuSymbolOffset ≤ j → j < d.symbolCount → ∃ b < d.gnuBucketCount, d.GnuIn b j

/-- The GNU part of `validate_hashes` has seen each symbol behind the offset in one run. -/
theorem checkGnu_safe (hstrings : d.HasStrings) (hsymbols : d.HasSymbols) (hgnu : d.HasGnu) :
    Safe (checkGnu d) fun _ => d.gnuBucketCount ≠ 0 → d.GnuComplete := by
  unfold checkGnu
  refine Safe.ite (fun h0 => Safe.ok (absurd h0)) fun hcount => ?_
  refine Safe.bind (checkGnuBuckets_safe hstrings hsymbols hgnu hcount (Nat.zero_add _)
    Finset.card_empty (fun j hj => absurd hj (Finset.notMem_empty j)) nofun) fun covered hcovered => ?_
  obtain ⟨seen, hcard, hseen, hbuckets⟩ := hcovered
  refine Safe.mono Safe.reject fun _ hall _ => ⟨hbuckets, fun j hlow hhigh => ?_⟩
  have hsubset : seen ⊆ Finset.Ico d.gnuSymbolOffset d.symbolCount := fun k hk =>
    Finset.mem_Ico.2 ⟨(hseen k hk).1, (hseen k hk).2.1⟩
  have hfull : seen = Finset.Ico d.gnuSymbolOffset d.symbolCount := by
    refine Finset.eq_of_subset_of_card_le hsubset ?_
    rw [Nat.card_Ico, hcard]
    omega
  exact (hseen j (hfull ▸ Finset.mem_Ico.2 ⟨hlow, hhigh⟩)).2.2

/-- Behind the SysV part of `validate_hashes` every chain is known to end. -/
theorem checkSysv_safe (hstrings : d.HasStrings) (hsymbols : d.HasSymbols) (hsysv : d.HasSysv)
    (hpos : 0 < d.symbolCount) : Safe (checkSysv d) fun _ => ∀ b < d.sysvBucketCount,
      d.Ends (Bytes.field d.bytes (d.sysvBuckets + b * 4) 4) := by
  unfold checkSysv
  refine Safe.ite (fun h0 => Safe.ok fun b hb => absurd hb (by omega)) fun hcount => ?_
  have hchains := hsysv.chains hcount
  have hbuckets := hsysv.buckets hcount
  refine Safe.bind (checkChains_safe (by omega)) fun _ _ => ?_
  refine Safe.bind (Safe.fetch (by omega)) fun first _ => ?_
  refine Safe.bind Safe.reject fun _ _ => ?_
  exact Safe.mono (checkBuckets_safe hstrings hsymbols hchains (by omega)) fun _ hends b hb =>
    hends b (Nat.zero_le _) (by omega)

/-! ## Versions -/

/-- The versions of a table have indices of their own. -/
structure Dynamic.Versioned (d : Dynamic) : Prop where
  distinct : (d.versions.map (·.index)).Nodup
  range : ∀ v ∈ d.versions, v.index ≠ 0 ∧ v.index ≤ 0x7fff

/-- A version is added only under an index of its own, in the range of indices. -/
theorem addVersion_safe (h : d.Versioned) (index flags hash : Nat) (name : List UInt8)
    (file : Option (List UInt8)) : Safe (addVersion d index flags hash name file) fun d' =>
      d' = { d with versions := d'.versions } ∧ d'.Versioned := by
  unfold addVersion
  refine Safe.bind Safe.reject fun _ hcheck => ?_
  refine Safe.bind Safe.reject fun _ _ => ?_
  have hnew : versionIndex d index = none := by
    cases hfound : versionIndex d index with
    | none => rfl
    | some v =>
      refine absurd ?_ hcheck
      rw [hfound]
      exact .inr (.inr (.inr (.inr (.inr (.inr (.inr rfl))))))
  refine Safe.pure ⟨rfl, ?_, fun v hv => ?_⟩
  · show ((d.versions ++ [Version.mk name file hash index flags false]).map Version.index).Nodup
    rw [List.map_append]
    refine List.Nodup.append h.distinct (List.nodup_singleton _) fun x hx hx' => ?_
    obtain ⟨v, hv, rfl⟩ := List.mem_map.1 hx
    have heq : v.index = index := List.mem_singleton.1 hx'
    exact List.find?_eq_none.1 hnew v hv (by simpa using heq)
  · rcases List.mem_append.1 hv with hv | hv
    · exact h.range v hv
    · rw [List.mem_singleton.1 hv]
      exact ⟨fun h0 => hcheck (.inr (.inl h0)), by
        show index ≤ 0x7fff
        have hle : ¬ 0x7fff < index := fun hlt => hcheck (.inr (.inr (.inl hlt)))
        omega⟩

/-- Reading version records changes only the versions. -/
structure Recorded (d d' : Dynamic) : Prop where
  same : d' = { d with versions := d'.versions }
  versioned : d'.Versioned

/-- Versions that are well formed are recorded without any change. -/
theorem Recorded.refl (h : d.Versioned) : Recorded d d := ⟨rfl, h⟩

/-- Versions recorded one after the other are recorded together. -/
theorem Recorded.trans {d'' : Dynamic} (h : Recorded d d') (h' : Recorded d' d'') : Recorded d d'' := by
  refine ⟨?_, h'.versioned⟩
  have h1 := h'.same
  rw [h.same] at h1
  exact h1

/-- Recording versions leaves the image. -/
theorem Recorded.bytes (h : Recorded d d') : d'.bytes = d.bytes := by
  rw [h.same]
  rfl

/-- Recording versions leaves the string table. -/
theorem Recorded.hasStrings (h : Recorded d d') (hs : d.HasStrings) : d'.HasStrings := by
  rw [h.same]
  exact hs

/-- The fields of a version are read inside its records. -/
theorem recordVersion_safe (h : d.Versioned) {need : Bool} {header item : Nat}
    (hheader : header + (if need then 16 else 20) ≤ d.bytes.length)
    (hitem : item + (if need then 16 else 8) ≤ d.bytes.length) (file : Option (List UInt8))
    (name : List UInt8) : Safe (recordVersion need header item file name d) fun d' => Recorded d d' := by
  unfold recordVersion
  refine Safe.bind (Safe.fetch ?_) fun index _ => ?_
  · split at hheader <;> simp_all <;> omega
  refine Safe.bind (Safe.fetch ?_) fun flags _ => ?_
  · split at hheader <;> simp_all <;> omega
  refine Safe.bind (Safe.fetch ?_) fun hash _ => ?_
  · split at hheader <;> simp_all <;> omega
  exact Safe.mono (addVersion_safe h index flags hash name file) fun _ hd => ⟨hd.1, hd.2⟩

/-- The auxiliary records of a header are read inside the image, each in its own view. -/
theorem auxLoop_safe {need : Bool} {address header capacity : Nat} {file : Option (List UInt8)}
    {left : Nat} {first : Bool} {aux : Nat} (h : d.Versioned) (hs : d.HasStrings)
    (hheader : header + (if need then 16 else 20) ≤ d.bytes.length) :
    Safe (auxLoop need address header capacity file left first aux d) fun d' => Recorded d d' := by
  induction left generalizing first aux d with
  | zero => exact Safe.ok (.refl h)
  | succ left ih =>
    unfold auxLoop
    dsimp only
    refine Safe.bind Safe.reject fun _ _ => ?_
    refine Safe.bind (Safe.require fun _ h => view_ok h) fun item hitem => ?_
    change item + (if need then 16 else 8) ≤ d.bytes.length at hitem
    refine Safe.bind (Safe.fetch ?_) fun offset _ => ?_
    · split at hitem <;> simp_all <;> omega
    refine Safe.bind (stringAt_safe hs offset) fun name _ => ?_
    refine Safe.bind (Safe.require fun _ _ => trivial) fun name _ => ?_
    refine Safe.bind Safe.reject fun _ _ => ?_
    refine Safe.bind (P := fun d' => Recorded d d') ?_ fun d' hd' => ?_
    · exact Safe.ite (fun _ => recordVersion_safe h hheader hitem file name) fun _ => Safe.ok (.refl h)
    have hbytes := hd'.bytes
    refine Safe.bind (Safe.fetch ?_) fun next _ => ?_
    · rw [hbytes]
      split at hitem <;> simp_all
    refine Safe.bind Safe.reject fun _ _ => ?_
    exact Safe.mono (ih hd'.versioned (hd'.hasStrings hs) (by rw [hbytes]; exact hheader)) fun _ hr =>
      hd'.trans hr

/-- The provider's name is read inside its header and the string table. -/
theorem needFile_safe (hs : d.HasStrings) {header : Nat} (h : header + 16 ≤ d.bytes.length) :
    Safe (needFile d header) fun _ => True := by
  unfold needFile
  refine Safe.bind (Safe.fetch (by omega)) fun offset _ => ?_
  refine Safe.bind (stringAt_safe hs offset) fun file _ => ?_
  refine Safe.bind Safe.reject fun _ _ => ?_
  exact Safe.pure trivial

/-- The headers of one kind are read inside the image, each in its own view. -/
theorem headerLoop_safe {need : Bool} {left address : Nat} (h : d.Versioned) (hs : d.HasStrings) :
    Safe (headerLoop need left address d) fun d' => Recorded d d' := by
  induction left generalizing address d with
  | zero => exact Safe.ok (.refl h)
  | succ left ih =>
    unfold headerLoop
    dsimp only
    refine Safe.bind (Safe.require fun _ h => view_ok h) fun header hheader => ?_
    change header + (if need then 16 else 20) ≤ d.bytes.length at hheader
    have hle : header + 16 ≤ d.bytes.length := by split at hheader <;> omega
    refine Safe.bind (Safe.fetch (by omega)) fun version _ => ?_
    refine Safe.bind Safe.reject fun _ _ => ?_
    refine Safe.bind (Safe.fetch ?_) fun next _ => ?_
    · split at hheader <;> simp_all
    refine Safe.bind Safe.reject fun _ _ => ?_
    refine Safe.bind (Safe.fetch ?_) fun auxCount _ => ?_
    · split at hheader <;> simp_all <;> omega
    refine Safe.bind (Safe.fetch ?_) fun aux _ => ?_
    · split at hheader <;> simp_all
      omega
    refine Safe.bind Safe.reject fun _ _ => ?_
    refine Safe.bind Safe.reject fun _ _ => ?_
    refine Safe.bind (P := fun _ => True) ?_ fun file _ => ?_
    · exact Safe.ite (fun _ => needFile_safe hs hle) fun _ => Safe.ok trivial
    refine Safe.bind (auxLoop_safe h hs hheader) fun d' hd' => ?_
    refine Safe.bind Safe.reject fun _ _ => ?_
    exact Safe.mono (ih hd'.versioned (hd'.hasStrings hs)) fun _ hr => hd'.trans hr

/-- The version chains of one kind are read inside the image. -/
theorem versionKind_safe (h : d.Versioned) (hs : d.HasStrings) (e : Entries) (need : Bool) :
    Safe (versionKind d e need) fun d' => Recorded d d' := by
  unfold versionKind
  cases e.values (if need then .verneed else .verdef) with
  | none => exact Safe.ok (.refl h)
  | some address =>
    refine Safe.bind Safe.reject fun _ _ => ?_
    refine Safe.bind Safe.reject fun _ _ => ?_
    exact headerLoop_safe h hs

/-- The version of a symbol is there and of the symbol's kind. -/
def Dynamic.VersionKinds (d : Dynamic) : Prop :=
  ∀ versym ∈ d.versym, ∀ i, 0 < i → i < d.symbolCount →
    1 < Bytes.field d.bytes (versym + i * 2) 2 % 0x8000 →
      ∃ v s, versionIndex d (Bytes.field d.bytes (versym + i * 2) 2 % 0x8000) = some v ∧
        dynamicSymbol d i = .ok s ∧ (s.sect ≠ 0 ↔ v.file = none)

/-- Behind the last loop of `versions_open` every symbol has a version of its kind. -/
theorem checkVersions_safe (hs : d.HasStrings) (hsymbols : d.HasSymbols) {versym left i : Nat}
    (h : versym + (i + left) * 2 ≤ d.bytes.length) :
    Safe (checkVersions d versym left i) fun _ => ∀ k, i ≤ k → k < i + left →
      1 < Bytes.field d.bytes (versym + k * 2) 2 % 0x8000 →
        ∃ v s, versionIndex d (Bytes.field d.bytes (versym + k * 2) 2 % 0x8000) = some v ∧
          dynamicSymbol d k = .ok s ∧ (s.sect ≠ 0 ↔ v.file = none) := by
  induction left generalizing i with
  | zero => exact Safe.ok fun k hk hk' => absurd hk' (by omega)
  | succ left ih =>
    unfold checkVersions
    refine Safe.bind (Safe.fetch (by omega)) fun raw hraw => ?_
    refine Safe.bind (P := fun _ => 1 < raw % 0x8000 → ∃ v s, versionIndex d (raw % 0x8000) = some v ∧
      dynamicSymbol d i = .ok s ∧ (s.sect ≠ 0 ↔ v.file = none)) ?_ fun _ hone => ?_
    · unfold checkVersion
      refine Safe.ite (fun _ => ?_) fun hle => Safe.ok fun hlt => absurd hlt hle
      refine Safe.bind (Safe.require fun _ h => h) fun v hv => ?_
      refine Safe.bind (dynamicSymbol_safe hs hsymbols i).attempt fun found hfound => ?_
      refine Safe.bind (Safe.require fun s h => (hfound s h).1) fun s hsymbol => ?_
      refine Safe.mono Safe.reject fun _ hkind _ => ⟨v, s, hv, hsymbol, ?_⟩
      cases hfile : v.file with
      | none =>
        rw [hfile] at hkind
        simpa using hkind
      | some file =>
        rw [hfile] at hkind
        simpa using hkind
    · refine Safe.mono (ih (by omega)) fun _ hrest k hk hk' => ?_
      by_cases heq : k = i
      · rw [heq, ← hraw]
        exact hone
      · exact hrest k (by omega) (by omega)

/-- What opening the versions leaves alone, and what it finds. -/
structure VersionsOpened (e : Entries) (d d' : Dynamic) : Prop where
  same : d' = { d with versym := d'.versym, versions := d'.versions }
  versioned : d'.Versioned
  versym : ∀ v ∈ d'.versym, v + d'.symbolCount * 2 ≤ d'.bytes.length
  given : ∀ address ∈ e.values .versym, ∃ v ∈ d'.versym, view d.image address (d.symbolCount * 2) = some v
  absent : e.values .versym = none → d'.versym = none
  kinds : d'.VersionKinds

/-- `versions_open` reads inside the image and finds versions that belong to their symbols. -/
theorem versionsOpen_safe (hs : d.HasStrings) (hsymbols : d.HasSymbols) (hpos : 0 < d.symbolCount)
    (hversym : d.versym = none) (hversions : d.versions = []) (e : Entries) :
    Safe (versionsOpen d e) fun d' => VersionsOpened e d d' := by
  -- no version has been read yet
  have hversioned : d.Versioned := by
    refine ⟨?_, ?_⟩
    · rw [hversions]
      exact List.nodup_nil
    · rw [hversions]
      exact nofun
  unfold versionsOpen
  refine Safe.bind Safe.reject fun _ _ => ?_
  cases hvalue : e.values .versym with
  | none =>
    refine Safe.pure ⟨rfl, hversioned, ?_, ?_, fun _ => hversym, ?_⟩
    · rw [hversym]
      exact nofun
    · rw [hvalue]
      exact nofun
    · unfold Dynamic.VersionKinds
      rw [hversym]
      exact nofun
  | some address =>
    dsimp only
    refine Safe.bind (Safe.require fun _ h => h) fun versym hview => ?_
    have hv : versym + d.symbolCount * 2 ≤ d.bytes.length := view_ok hview
    refine Safe.bind (Safe.fetch (by omega)) fun first _ => ?_
    refine Safe.bind Safe.reject fun _ _ => ?_
    refine Safe.bind (@versionKind_safe { d with versym := some versym }
      ⟨hversioned.distinct, hversioned.range⟩ hs e false) fun d₁ h₁ => ?_
    refine Safe.bind (versionKind_safe h₁.versioned (h₁.hasStrings hs) e true) fun d₂ h₂ => ?_
    have hrec := h₁.trans h₂
    have hsame := hrec.same
    have hversym₂ : d₂.versym = some versym := by rw [hsame]
    have hcount : d₂.symbolCount = d.symbolCount := by rw [hsame]
    have hbytes : d₂.bytes = d.bytes := by rw [hsame]; rfl
    have hsymbols₂ : d₂.HasSymbols := by rw [hsame]; exact hsymbols
    refine Safe.bind (checkVersions_safe (hrec.hasStrings hs) hsymbols₂
      (by rw [hcount, hbytes]; omega)) fun _ hkinds => ?_
    refine Safe.pure ⟨?_, h₂.versioned, fun v hv' => ?_, fun a ha => ?_, fun hnone => ?_,
      fun v hv' i hpos' hi hone => ?_⟩
    · exact hsame.trans (by rw [hversym₂])
    · rw [hversym₂] at hv'
      cases hv'
      rw [hcount, hbytes]
      exact hv
    · rw [hvalue] at ha
      cases ha
      exact ⟨versym, hversym₂, hview⟩
    · rw [hvalue] at hnone
      cases hnone
    · rw [hversym₂] at hv'
      cases hv'
      exact hkinds i (by omega) (by omega) hone

/-! ## Opening -/

/-- A table is a view of its range. -/
structure Table.Viewed (image : Image) (width : Nat) (t : Table) : Prop where
  entries : t.size % width = 0
  data : t.size ≠ 0 → ∃ p, t.data = some p ∧ view image t.address t.size = some p

/-- A table is the one that the entries give by two keys. -/
structure Table.Given (image : Image) (addressKey sizeKey : Key) (t : Table) : Prop where
  address : ∀ value, Gives image.dynamicEntries addressKey value → t.address = value
  size : ∀ value, Gives image.dynamicEntries sizeKey value → t.size = value
  present : t.size ≠ 0 →
    Gives image.dynamicEntries addressKey t.address ∧ Gives image.dynamicEntries sizeKey t.size

/-- A table that is read is a view of the range that the entries give. -/
theorem readTable_safe (he : e.Of image) (rule : TableRule) :
    Safe (readTable image e rule) fun t =>
      t.Viewed image rule.width ∧ t.Given image rule.address rule.size := by
  unfold readTable
  refine Safe.bind Safe.reject fun _ _ => ?_
  refine Safe.ite (fun hnone => Safe.pure ⟨⟨Nat.zero_mod _, fun h => absurd rfl h⟩, fun value hv => ?_,
    fun value hv => ?_, fun h => absurd rfl h⟩) fun _ => ?_
  · exact absurd (Option.isSome_of_eq_some ((he _ _).2 hv)) hnone.1
  · exact absurd (Option.isSome_of_eq_some ((he _ _).2 hv)) hnone.2
  refine Safe.bind Safe.reject fun _ hrule => ?_
  dsimp only
  have hgiven : ∀ data, Table.Given image rule.address rule.size
      { data, address := e.value rule.address, size := e.value rule.size } := by
    refine fun data => ⟨fun value hv => ?_, fun value hv => ?_, fun _ => ⟨he.value ?_, he.value ?_⟩⟩
    · show (e.values rule.address).getD 0 = value
      rw [(he _ _).2 hv]
      rfl
    · show (e.values rule.size).getD 0 = value
      rw [(he _ _).2 hv]
      rfl
    · exact by_contra fun h => hrule (.inl h)
    · exact by_contra fun h => hrule (.inr (.inl h))
  have hwidth : e.value rule.size % rule.width = 0 := by
    by_contra h
    exact hrule (.inr (.inr (.inl h)))
  refine Safe.ite (fun _ => ?_) fun h0 => Safe.pure ⟨⟨hwidth, fun hne => absurd hne h0⟩, hgiven none⟩
  refine Safe.bind (Safe.require fun _ h => h) fun p hp => ?_
  exact Safe.pure ⟨⟨hwidth, fun _ => ⟨p, rfl, hp⟩⟩, hgiven (some p)⟩

/-- The names of the needed providers are read inside the string table. -/
theorem readNeeded_safe (hs : d.HasStrings) (offsets : List Nat) :
    Safe (readNeeded d offsets) fun _ => True := by
  induction offsets with
  | nil => exact Safe.ok trivial
  | cons offset offsets ih =>
    unfold readNeeded
    refine Safe.bind (stringAt_safe hs offset) fun name _ => ?_
    refine Safe.bind (Safe.require fun _ _ => trivial) fun name _ => ?_
    refine Safe.bind Safe.reject fun _ _ => ?_
    refine Safe.bind ih fun names _ => ?_
    exact Safe.pure trivial

/-- A string that an entry names is read inside the string table. -/
theorem readString_safe (hs : d.HasStrings) (value : Option Nat) :
    Safe (readString d value) fun _ => True := by
  cases value with
  | none => exact Safe.ok trivial
  | some offset =>
    unfold readString
    refine Safe.bind (stringAt_safe hs offset) fun name _ => ?_
    refine Safe.bind (Safe.require fun _ _ => trivial) fun name _ => ?_
    exact Safe.pure trivial

/-- The strings are there and nothing else yet. -/
structure Started (image : Image) (e : Entries) (d : Dynamic) : Prop where
  image : d.image = image
  strings : d.HasStrings
  sysv : d.sysvBucketCount = 0
  gnu : d.gnuBucketCount = 0
  versym : d.versym = none
  versions : d.versions = []
  hashed : e.seen .hash ∨ e.seen .gnuHash
  size : e.seen .strsz ∧ d.stringsSize = e.value .strsz
  place : e.seen .str ∧ view d.image (e.value .str) (e.value .strsz) = some d.strings
  symbols : e.seen .sym

/-- The strings are opened inside the image, where the entries put them. -/
theorem openStrings_safe (image : Image) (e : Entries) :
    Safe (openStrings image e) fun d => Started image e d := by
  unfold openStrings
  refine Safe.bind Safe.reject fun _ hseen => ?_
  refine Safe.bind Safe.reject fun _ hsize => ?_
  refine Safe.bind (Safe.require fun _ h => h) fun strings hview => ?_
  have hstrings := view_ok hview
  refine Safe.bind (Safe.fetch (by omega)) fun first _ => ?_
  refine Safe.bind (Safe.fetch (by omega)) fun last _ => ?_
  refine Safe.bind Safe.reject fun _ _ => ?_
  dsimp only
  refine Safe.bind (readNeeded_safe (by exact hstrings) _) fun needed _ => ?_
  refine Safe.bind (readString_safe (by exact hstrings) _) fun soname _ => ?_
  refine Safe.bind Safe.reject fun _ _ => ?_
  refine Safe.bind (readString_safe (by exact hstrings) _) fun rpath _ => ?_
  refine Safe.bind (readString_safe (by exact hstrings) _) fun runpath _ => ?_
  refine Safe.bind Safe.reject fun _ _ => ?_
  have hhashed : e.seen .hash ∨ e.seen .gnuHash := by
    by_contra h
    exact hseen (.inr (.inr (.inr (.inr ⟨fun h' => h (.inl h'), fun h' => h (.inr h')⟩))))
  exact Safe.pure ⟨rfl, hstrings, rfl, rfl, rfl, rfl, hhashed,
    ⟨by_contra fun h => hseen (.inr (.inl h)), rfl⟩, ⟨by_contra fun h => hseen (.inl h), hview⟩,
    by_contra fun h => hseen (.inr (.inr (.inl h)))⟩

/-- What is checked of symbols, hash tables and versions. -/
structure Dynamic.Sound (d : Dynamic) : Prop where
  strings : d.HasStrings
  symbols : d.HasSymbols
  sysv : d.HasSysv
  gnu : d.HasGnu
  count : 0 < d.symbolCount
  hashed : d.sysvBucketCount ≠ 0 ∨ d.gnuBucketCount ≠ 0
  readable : d.Readable
  ends : ∀ b < d.sysvBucketCount, d.Ends (Bytes.field d.bytes (d.sysvBuckets + b * 4) 4)
  complete : d.gnuBucketCount ≠ 0 → d.GnuComplete
  versym : ∀ v ∈ d.versym, v + d.symbolCount * 2 ≤ d.bytes.length
  versioned : d.Versioned
  kinds : d.VersionKinds

/-- Strings, symbols and versions are where the entries of the dynamic section put them. -/
structure Dynamic.Entered (d : Dynamic) (e : Entries) : Prop where
  strings : e.seen .str ∧ view d.image (e.value .str) d.stringsSize = some d.strings
  stringsSize : e.seen .strsz ∧ d.stringsSize = e.value .strsz
  symbols : e.seen .sym ∧ view d.image (e.value .sym) (d.symbolCount * 24) = some d.symbols
  versym : ∀ address ∈ e.values .versym, ∃ v ∈ d.versym, view d.image address (d.symbolCount * 2) = some v
  absent : e.values .versym = none → d.versym = none

/-- The tables are those that the entries of the dynamic section give. -/
structure Dynamic.Given (d : Dynamic) (image : Image) : Prop where
  opened : d.image = image
  strings : ∃ address, Gives image.dynamicEntries .str address ∧
    Gives image.dynamicEntries .strsz d.stringsSize ∧ view image address d.stringsSize = some d.strings
  symbols : ∃ address, Gives image.dynamicEntries .sym address ∧
    view image address (d.symbolCount * 24) = some d.symbols
  versym : ∀ address, Gives image.dynamicEntries .versym address →
    ∃ v, d.versym = some v ∧ view image address (d.symbolCount * 2) = some v
  versioned : d.versym.isSome → ∃ address, Gives image.dynamicEntries .versym address
  rela : d.rela.Given image .rela .relasz
  pltRela : d.pltRela.Given image .jmprel .pltrelsz
  relr : d.relr.Given image .relr .relrsz
  initArray : d.initArray.Given image .initArray .initArraysz
  finiArray : d.finiArray.Given image .finiArray .finiArraysz
  preinitArray : d.preinitArray.Given image .preinitArray .preinitArraysz

/-- What `artbox_dynamic_open` has checked of the tables it accepts. -/
structure Dynamic.Valid (d : Dynamic) : Prop extends Dynamic.Sound d where
  rela : d.rela.Viewed d.image 24
  pltRela : d.pltRela.Viewed d.image 24
  relr : d.relr.Viewed d.image 8

/-- Versions and tables of relocations do not matter to the walks along the chains. -/
structure SameHashes (d d' : Dynamic) : Prop where
  image : d'.image = d.image
  symbols : dynamicSymbol d' = dynamicSymbol d
  count : d'.symbolCount = d.symbolCount
  sysv : d'.sysvNext = d.sysvNext
  bucketCount : d'.gnuBucketCount = d.gnuBucketCount
  offset : d'.gnuSymbolOffset = d.gnuSymbolOffset
  bucket : d'.gnuBucket = d.gnuBucket
  chain : d'.gnuChain = d.gnuChain
  blooms : d'.Blooms = d.Blooms

/-- A chain that ends does so whatever the versions are. -/
theorem SameHashes.ends (h : SameHashes d d') {index : Nat} (he : d.Ends index) : d'.Ends index := by
  induction he with
  | stop => exact .stop
  | step hne hlt _ ih => exact .step hne (h.count ▸ hlt) (h.sysv ▸ ih)

/-- A run of a bucket is one whatever the versions are. -/
theorem SameHashes.run (h : SameHashes d d') {i index n : Nat} (hr : d.GnuRun i index n) :
    d'.GnuRun i index n := by
  refine ⟨hr.pos, h.offset ▸ hr.low, h.count ▸ hr.high, fun k hk => ?_, fun k hk => ?_⟩
  · obtain ⟨s, hs, hsame, hi, hbloom⟩ := hr.member k hk
    exact ⟨s, by rw [h.symbols]; exact hs, by rw [h.chain]; exact hsame, by rw [h.bucketCount]; exact hi,
      by rw [h.blooms]; exact hbloom⟩
  · rw [h.chain]
    exact hr.last k hk

/-- The buckets cover the symbols whatever the versions are. -/
theorem SameHashes.complete (h : SameHashes d d') (hc : d.GnuComplete) : d'.GnuComplete := by
  refine ⟨fun b hb hne => ?_, fun j hlow hhigh => ?_⟩
  · rw [h.bucket] at hne ⊢
    obtain ⟨n, hrun⟩ := hc.buckets b (h.bucketCount ▸ hb) hne
    exact ⟨n, h.run hrun⟩
  · obtain ⟨b, hb, n, hrun, hne, hj⟩ := hc.covers j (h.offset ▸ hlow) (h.count ▸ hhigh)
    refine ⟨b, by rw [h.bucketCount]; exact hb, n, ?_⟩
    rw [h.bucket]
    exact ⟨h.run hrun, hne, hj⟩

/-- Symbols, hash tables and versions are opened inside the image, where the entries put them. -/
theorem openSymbols_safe (h : Started image e d) :
    Safe (openSymbols d e) fun d' => d'.image = image ∧ d'.Entered e ∧ d'.Sound := by
  unfold openSymbols
  refine Safe.bind (sysvShape_safe h.sysv h.gnu _) fun d₁ h₁ => ?_
  obtain ⟨hshaped₁, hgnu₁, hsysv₁⟩ := h₁
  refine Safe.bind (gnuTable_safe hshaped₁.sysv hgnu₁ (fun hne => hshaped₁.counts (.inl hne)) _)
    fun d₂ h₂ => ?_
  obtain ⟨hshaped₂, hgnu₂, hsysv₂⟩ := h₂
  refine Safe.bind (Safe.require fun _ h => h) fun symbols hview => ?_
  have hsymbols := view_ok hview
  dsimp only
  generalize hd₃ : { d₂ with symbols } = d₃
  -- from here on the record with the symbols is all that counts
  have himage : d₃.image = image := by
    rw [← hd₃]
    exact (hshaped₂.image.trans hshaped₁.image).trans h.image
  have hhashed : d₃.sysvBucketCount ≠ 0 ∨ d₃.gnuBucketCount ≠ 0 := by
    rw [← hd₃]
    rcases h.hashed with hs | hg
    · exact .inl (by rw [hsysv₂]; exact hsysv₁ hs)
    · exact .inr (hgnu₂ hg)
  have hstrings : d₃.HasStrings := by
    have h₀ := h.strings
    unfold Dynamic.HasStrings Dynamic.bytes at h₀ ⊢
    rw [← hd₃]
    dsimp only
    rw [hshaped₂.strings.1, hshaped₂.strings.2, hshaped₂.image, hshaped₁.strings.1, hshaped₁.strings.2,
      hshaped₁.image]
    exact h₀
  have hsymbols₃ : d₃.HasSymbols := by
    rw [← hd₃]
    exact hsymbols
  have hsysv : d₃.HasSysv := by
    rw [← hd₃]
    exact ⟨hshaped₂.sysv.buckets, hshaped₂.sysv.chains⟩
  have hgnu : d₃.HasGnu := by
    rw [← hd₃]
    exact ⟨hshaped₂.gnu.bloom, hshaped₂.gnu.buckets, hshaped₂.gnu.chains, hshaped₂.gnu.bloomCount,
      hshaped₂.gnu.offset⟩
  have hpos : 0 < d₃.symbolCount := by
    rw [← hd₃] at hhashed ⊢
    exact hshaped₂.counts hhashed
  have hversym : d₃.versym = none := by
    rw [← hd₃]
    exact (hshaped₂.versions.2.trans hshaped₁.versions.2).trans h.versym
  have hversions : d₃.versions = [] := by
    rw [← hd₃]
    exact (hshaped₂.versions.1.trans hshaped₁.versions.1).trans h.versions
  have hplace : d₃.symbols = symbols := by rw [← hd₃]
  have hsize : d₃.stringsSize = d.stringsSize := by
    rw [← hd₃]
    exact hshaped₂.strings.2.trans hshaped₁.strings.2
  have hstringsPlace : d₃.strings = d.strings := by
    rw [← hd₃]
    exact hshaped₂.strings.1.trans hshaped₁.strings.1
  have hviewed : view d₃.image (e.value .sym) (d₃.symbolCount * 24) = some d₃.symbols := by
    rw [← hd₃]
    exact hview
  clear hd₃
  refine Safe.bind (Safe.slice ?_) fun first _ => ?_
  · unfold Dynamic.HasSymbols at hsymbols₃
    omega
  refine Safe.bind Safe.reject fun _ _ => ?_
  refine Safe.bind (P := fun _ => d₃.Readable ∧ (∀ b < d₃.sysvBucketCount,
      d₃.Ends (Bytes.field d₃.bytes (d₃.sysvBuckets + b * 4) 4)) ∧ (d₃.gnuBucketCount ≠ 0 → d₃.GnuComplete))
    ?_ fun _ hchecked => ?_
  · -- every symbol is readable before the chains are walked
    unfold validateHashes
    refine Safe.bind (checkSymbols_safe hstrings hsymbols₃) fun _ hreadable => ?_
    refine Safe.bind (checkSysv_safe hstrings hsymbols₃ hsysv hpos) fun _ hends => ?_
    refine Safe.mono (checkGnu_safe hstrings hsymbols₃ hgnu) fun _ hcomplete => ⟨fun i hi => ?_, hends,
      hcomplete⟩
    exact hreadable i (Nat.zero_le _) (by omega)
  · obtain ⟨hreadable, hends, hcomplete⟩ := hchecked
    refine Safe.mono (versionsOpen_safe hstrings hsymbols₃ hpos hversym hversions e) fun d₄ h₄ => ?_
    obtain ⟨hsame, hversioned, hversym₄, hgiven, habsent, hkinds⟩ := h₄
    -- `versions_open` sets the version fields and no others
    generalize d₄.versym = versym at hsame
    generalize d₄.versions = versions at hsame
    subst hsame
    have hhashes : SameHashes d₃ { d₃ with versym, versions } := ⟨rfl, rfl, rfl, rfl, rfl, rfl, rfl, rfl, rfl⟩
    have hentered : Dynamic.Entered { d₃ with versym, versions } e := by
      refine ⟨⟨h.place.1, ?_⟩, ⟨h.size.1, hsize.trans h.size.2⟩, ⟨h.symbols, hviewed⟩, hgiven, habsent⟩
      show view d₃.image (e.value .str) d₃.stringsSize = some d₃.strings
      rw [himage, hsize, hstringsPlace, h.size.2, ← h.image]
      exact h.place.2
    exact ⟨himage, hentered, hstrings, hsymbols₃, ⟨hsysv.buckets, hsysv.chains⟩, ⟨hgnu.bloom, hgnu.buckets,
      hgnu.chains, hgnu.bloomCount, hgnu.offset⟩, hpos, hhashed, hreadable,
      fun b hb => hhashes.ends (hends b hb), fun hne => hhashes.complete (hcomplete hne), hversym₄,
      hversioned, hkinds⟩

/-- The tables of relocations and functions do not matter. -/
theorem Dynamic.Sound.tables (h : d.Sound) (rela pltRela relr initArray finiArray preinitArray : Table)
    (init fini pltGot : Nat) : Dynamic.Sound { d with
      rela, pltRela, relr, initArray, finiArray, preinitArray, init, fini, pltGot } := by
  have hhashes : SameHashes d { d with
      rela, pltRela, relr, initArray, finiArray, preinitArray, init, fini, pltGot } :=
    ⟨rfl, rfl, rfl, rfl, rfl, rfl, rfl, rfl, rfl⟩
  exact ⟨h.strings, h.symbols, ⟨h.sysv.buckets, h.sysv.chains⟩, ⟨h.gnu.bloom, h.gnu.buckets,
    h.gnu.chains, h.gnu.bloomCount, h.gnu.offset⟩, h.count, h.hashed, h.readable,
    fun b hb => hhashes.ends (h.ends b hb), fun hne => hhashes.complete (h.complete hne), h.versym,
    ⟨h.versioned.distinct, h.versioned.range⟩, h.kinds⟩

/-- The tables of relocations and functions are opened where the entries put them. -/
theorem openTables_safe (hsound : d.Sound) (he : e.Of d.image) (hentered : d.Entered e) :
    Safe (openTables d e) fun d' => d'.Given d.image ∧ d'.Valid := by
  unfold openTables
  refine Safe.bind (readTable_safe he _) fun rela hrela => ?_
  refine Safe.bind (readTable_safe he _) fun relr hrelr => ?_
  refine Safe.bind (readTable_safe he _) fun pltRela hplt => ?_
  refine Safe.bind (readTable_safe he _) fun initArray hinit => ?_
  refine Safe.bind (readTable_safe he _) fun finiArray hfini => ?_
  refine Safe.bind (readTable_safe he _) fun preinitArray hpreinit => ?_
  refine Safe.bind Safe.reject fun _ _ => ?_
  refine Safe.bind Safe.reject fun _ _ => ?_
  refine Safe.bind Safe.reject fun _ _ => ?_
  refine Safe.pure ⟨⟨rfl, ⟨_, he.value hentered.strings.1, ?_, hentered.strings.2⟩,
    ⟨_, he.value hentered.symbols.1, hentered.symbols.2⟩, fun address hgives => ?_, fun hsome => ?_,
    hrela.2, hplt.2, hrelr.2, hinit.2, hfini.2, hpreinit.2⟩,
    hsound.tables rela pltRela relr initArray finiArray preinitArray _ _ _, hrela.1, hplt.1, hrelr.1⟩
  · show Gives d.image.dynamicEntries .strsz d.stringsSize
    rw [hentered.stringsSize.2]
    exact he.value hentered.stringsSize.1
  · exact hentered.versym address ((he _ _).2 hgives)
  · cases hvalue : e.values .versym with
    | none =>
      rw [hentered.absent hvalue] at hsome
      cases hsome
    | some address => exact ⟨address, (he _ _).1 hvalue⟩

/-- `artbox_dynamic_open` reads only inside its image, and what it accepts is valid and given by
the entries of the dynamic section. -/
theorem openDynamic_safe (image : Image) :
    Safe (openDynamic image) fun d => d.Given image ∧ d.Valid := by
  unfold openDynamic
  refine Safe.bind Safe.reject fun _ _ => ?_
  refine Safe.bind (Safe.require fun _ h => h) fun dynamic hdynamic => ?_
  refine Safe.bind Safe.reject fun _ _ => ?_
  refine Safe.bind (Safe.require fun _ h => h) fun entries hview => ?_
  have hentries := view_ok hview
  refine Safe.bind Safe.reject fun _ _ => ?_
  refine Safe.bind (scanEntries_safe (by omega) {}) fun e hscan => ?_
  have he : e.Of image := by
    intro key value
    unfold Image.dynamicEntries
    rw [hscan, hdynamic]
    dsimp only
    rw [hview]
    exact or_iff_right nofun
  refine Safe.bind (openStrings_safe image e) fun d hd => ?_
  refine Safe.bind (openSymbols_safe hd) fun d' hd' => ?_
  obtain ⟨rfl, hentered, hsound⟩ := hd'
  exact openTables_safe hsound he hentered

/-- What `artbox_dynamic_open` gives with success is what was opened. -/
theorem openDynamic_of_ok {image : Image} {out : Dynamic} (h : dynamicOpen image out = .ok (none, d)) :
    openDynamic image = .ok d := by
  unfold dynamicOpen at h
  cases hopen : openDynamic image with
  | ok d' =>
    rw [hopen] at h
    exact congrArg _ (Prod.mk.inj (Except.ok.inj h)).2
  | error stop =>
    rw [hopen] at h
    cases stop with
    | error e =>
      have hnone := (Prod.mk.inj (Except.ok.inj h)).1
      cases hnone
    | wrong => cases h

/-! ## Later walks -/

/-- The version word of a symbol is read inside its table. -/
theorem rawVersion_safe (h : d.Sound) {index : Nat} (hi : index < d.symbolCount) :
    Safe (rawVersion d index) fun raw =>
      raw = d.versym.elim 1 fun v => Bytes.field d.bytes (v + index * 2) 2 := by
  have hversym := h.versym
  unfold rawVersion
  cases hv : d.versym with
  | none => exact Safe.ok rfl
  | some v =>
    have hle := hversym v hv
    exact Safe.mono (Safe.fetch (by omega)) fun _ hr => hr

/-- The version of a symbol is looked up inside the image. -/
theorem dynamicVersion_safe (h : d.Sound) (index : Nat) : Safe (dynamicVersion d index) fun _ => True := by
  unfold dynamicVersion
  refine Safe.bind Safe.reject fun _ hi => ?_
  refine Safe.bind (P := fun _ => True) ?_ fun raw _ => ?_
  · cases hv : d.versym with
    | none => exact Safe.ok trivial
    | some v =>
      have hle := h.versym v hv
      exact Safe.mono (Safe.fetch (by omega)) fun _ _ => trivial
  refine Safe.bind (P := fun _ => True) ?_ fun version _ => ?_
  · exact Safe.ite (fun _ => Safe.require fun _ _ => trivial) fun _ => Safe.ok trivial
  exact Safe.pure trivial

/-- The GNU chain word of a symbol is read inside its table. -/
theorem chainWord_safe (h : d.Sound) {index : Nat} (hi : index < d.symbolCount) :
    Safe (chainWord d index) fun chain => (d.gnuBucketCount ≠ 0 → d.gnuSymbolOffset ≤ index ∧
      chain = d.gnuChain index) := by
  unfold chainWord
  refine Safe.ite (fun hne => ?_) fun h0 => Safe.ok fun hne => absurd hne h0
  have hchains := h.gnu.chains hne
  refine Safe.bind Safe.reject fun _ hlow => ?_
  exact Safe.mono (Safe.fetch (by omega)) fun _ hr _ => ⟨by omega, hr⟩

/-- The symbol behind another one in its chain is read inside the hash table. -/
theorem nextIndex_safe (h : d.Sound) (chain : Nat) {index : Nat} (hi : index < d.symbolCount) :
    Safe (nextIndex d chain index) fun next =>
      if d.gnuBucketCount ≠ 0 then next = (if chain % 2 = 1 then 0 else index + 1)
      else next = d.sysvNext index := by
  unfold nextIndex
  by_cases hne : d.gnuBucketCount ≠ 0
  · rw [if_pos hne]
    refine Safe.ok ?_
    rw [if_pos hne]
  · rw [if_neg hne]
    have hsysv := h.hashed.resolve_right hne
    have hchains := h.sysv.chains hsysv
    refine Safe.mono (Safe.fetch (by omega)) fun _ hr => ?_
    rw [if_neg hne]
    exact hr

/-- A symbol is compared with what is asked for inside the image. -/
theorem candidate_safe (h : d.Sound) {name : List UInt8} {version : Option (List UInt8)}
    {hash : BitVec 32} {chain index : Nat} (hi : index < d.symbolCount) :
    Safe (candidate d name version hash chain index) fun _ => True := by
  unfold candidate
  refine Safe.bind (rawVersion_safe h hi) fun raw _ => ?_
  refine Safe.bind (P := fun _ => True) ?_ fun found _ => Safe.pure trivial
  refine Safe.ite (fun _ => ?_) fun _ => Safe.ok trivial
  exact Safe.mono (dynamicSymbol_safe h.strings h.symbols index).attempt fun _ _ => trivial

/-- The walk of a lookup stays inside the image. -/
theorem lookupLoop_safe (h : d.Sound) {name : List UInt8} {version : Option (List UInt8)}
    {hash : BitVec 32} {left index : Nat} {weak : Option Symbol} :
    Safe (lookupLoop d name version hash left index weak) fun _ => True := by
  induction left generalizing index weak with
  | zero => exact Safe.ite (fun _ => Safe.ok trivial) fun _ => Safe.fail _
  | succ left ih =>
    unfold lookupLoop
    refine Safe.ite (fun _ => Safe.ok trivial) fun _ => ?_
    refine Safe.bind Safe.reject fun _ hi => ?_
    refine Safe.bind (chainWord_safe h (by omega)) fun chain _ => ?_
    refine Safe.bind (candidate_safe h (by omega)) fun found _ => ?_
    refine Safe.ite (fun _ => Safe.pure trivial) fun _ => ?_
    refine Safe.bind (nextIndex_safe h chain (by omega)) fun next _ => ?_
    exact ih

/-- A lookup stays inside the image. -/
theorem lookupVersion_safe (h : d.Sound) (name : List UInt8) (version : Option (List UInt8)) :
    Safe (lookupVersion d name version) fun _ => True := by
  unfold lookupVersion
  refine Safe.bind Safe.reject fun _ _ => ?_
  refine Safe.ite (fun hne => ?_) fun _ => Safe.ite (fun hne => ?_) fun _ => Safe.fail _
  · have hbloom := h.gnu.bloom hne
    have hbuckets := h.gnu.buckets hne
    have hword : (gnuHash name).toNat / 64 % d.gnuBloomCount < d.gnuBloomCount :=
      Nat.mod_lt _ (Nat.pos_of_ne_zero (h.gnu.bloomCount hne))
    have hbucket : (gnuHash name).toNat % d.gnuBucketCount < d.gnuBucketCount :=
      Nat.mod_lt _ (Nat.pos_of_ne_zero hne)
    refine Safe.bind (Safe.fetch (by omega)) fun word _ => ?_
    refine Safe.bind Safe.reject fun _ _ => ?_
    refine Safe.bind (Safe.fetch (by omega)) fun index _ => ?_
    refine Safe.bind (lookupLoop_safe h) fun found _ => ?_
    exact Safe.require fun _ _ => trivial
  · have hbuckets := h.sysv.buckets hne
    have hbucket : (sysvHash name).toNat % d.sysvBucketCount < d.sysvBucketCount :=
      Nat.mod_lt _ (Nat.pos_of_ne_zero hne)
    refine Safe.bind (Safe.fetch (by omega)) fun index _ => ?_
    refine Safe.bind (lookupLoop_safe h) fun found _ => ?_
    exact Safe.require fun _ _ => trivial

/-- Dynamic tables are read inside their image, and so is whatever is asked of an accepted one:
`artbox_dynamic_open` leaves its output alone if it fails; what it accepts has the tables that the
entries of the dynamic section give, versions with indices of their own, of the kind of the symbols
they are for, and chains without cycles; and symbols, versions and lookups of it stay inside the
image. -/
theorem dynamicOpen_bounds (image : Image) (out : Dynamic) :
    dynamicOpen image out ≠ .error .wrong ∧
    (∀ error out', dynamicOpen image out = .ok (some error, out') → out' = out) ∧
    ∀ d, dynamicOpen image out = .ok (none, d) → d.image = image ∧ d.Given image ∧
      (d.versions.map (·.index)).Nodup ∧
      (∀ versym ∈ d.versym, ∀ i, 0 < i → i < d.symbolCount →
        1 < Bytes.field image.data.bytes (versym + i * 2) 2 % 0x8000 → ∃ v ∈ d.versions,
          v.index = Bytes.field image.data.bytes (versym + i * 2) 2 % 0x8000 ∧
            ∃ s, dynamicSymbol d i = .ok s ∧ (s.sect ≠ 0 ↔ v.file = none)) ∧
      (∀ b < d.sysvBucketCount, d.Ends (Bytes.field image.data.bytes (d.sysvBuckets + b * 4) 4)) ∧
      (∀ index, dynamicSymbol d index ≠ .error .wrong) ∧ (∀ index, dynamicVersion d index ≠ .error .wrong) ∧
      ∀ name version, lookupVersion d name version ≠ .error .wrong := by
  have hsafe := openDynamic_safe image
  unfold dynamicOpen
  cases hopen : openDynamic image with
  | ok d =>
    obtain ⟨hgiven, hvalid⟩ := hsafe.of_ok hopen
    have himage := hgiven.opened
    dsimp only
    refine ⟨nofun, fun error out' h => ?_, fun d' h => ?_⟩
    · have hnone := (Prod.mk.inj (Except.ok.inj h)).1
      cases hnone
    obtain rfl : d = d' := (Prod.mk.inj (Except.ok.inj h)).2
    have hbytes : image.data.bytes = d.bytes := by rw [← himage]; rfl
    refine ⟨himage, hgiven, hvalid.versioned.distinct, fun versym hv i hpos hi hone => ?_, fun b hb => ?_,
      fun index => (dynamicSymbol_safe hvalid.strings hvalid.symbols index).not_wrong,
      fun index => (dynamicVersion_safe hvalid.toSound index).not_wrong,
      fun name version => (lookupVersion_safe hvalid.toSound name version).not_wrong⟩
    · rw [hbytes] at hone ⊢
      obtain ⟨v, s, hversion, hsymbol, hkind⟩ := hvalid.kinds versym hv i hpos hi hone
      have hindex := List.find?_some hversion
      exact ⟨v, List.mem_of_find?_eq_some hversion, by simpa using hindex, s, hsymbol, hkind⟩
    · rw [hbytes]
      exact hvalid.ends b hb
  | error stop =>
    cases stop with
    | wrong => exact absurd hopen hsafe.not_wrong
    | error e =>
      dsimp only
      refine ⟨nofun, fun error out' h => (Prod.mk.inj (Except.ok.inj h)).2.symm, fun d h => ?_⟩
      have hnone := (Prod.mk.inj (Except.ok.inj h)).1
      cases hnone

/-- The tables of the sample. -/
def sampleDynamic : Dynamic :=
  match openDynamic sampleImage with
  | .ok d => d
  | .error _ => { image := sampleImage }

theorem sampleDynamic_open : openDynamic sampleImage = .ok sampleDynamic := by
  have h : (openDynamic sampleImage).toOption.isSome = true := by decide +kernel
  obtain ⟨d, hd⟩ := Option.isSome_iff_exists.1 h
  unfold sampleDynamic
  rw [toOption_eq_some.1 hd]

/-- A symbol of the second sample: its name, the word of its information, its section and its value. -/
def versionedSymbol (name info sect value : Nat) : List UInt8 :=
  Bytes.writeLE 4 name ++ [UInt8.ofNat info, 0] ++ Bytes.writeLE 2 sect ++ Bytes.writeLE 8 value ++
    Bytes.writeLE 8 0

/-- A shared object that needs `u` in version `W` of `n` and defines `g`, `f` and, hidden, `h`, the last
two in its version `V`. It has both hash tables; `f` and `h` share a bucket of each. -/
def versionedBytes : List UInt8 :=
  [0x7f, 0x45, 0x4c, 0x46, 2, 1, 1, 0, 0, 0, 0, 0, 0, 0, 0, 0] ++
    Bytes.writeLE 2 3 ++ Bytes.writeLE 2 183 ++ Bytes.writeLE 4 1 ++
    [0, 64, 0].flatMap (Bytes.writeLE 8) ++ Bytes.writeLE 4 0 ++
    [64, 56, 2, 64, 0, 0].flatMap (Bytes.writeLE 2) ++
    sampleHeader 1 4 0 0x2c8 ++ sampleHeader 2 4 0x1f8 0xd0 ++
    -- strings and symbols
    [0, 102, 0, 103, 0, 104, 0, 108, 0, 86, 0, 117, 0, 110, 0, 87] ++ List.replicate 8 0 ++
    List.replicate 24 0 ++ versionedSymbol 11 0x12 0 0 ++ versionedSymbol 3 0x12 1 0x100 ++
    versionedSymbol 1 0x12 1 0x104 ++ versionedSymbol 5 0x12 1 0x108 ++
    -- GNU and SysV hash tables
    [2, 2, 1, 0].flatMap (Bytes.writeLE 4) ++ List.replicate 8 255 ++
    [2, 3, 177677, 177674, 177677, 0].flatMap (Bytes.writeLE 4) ++
    [2, 5, 3, 2, 0, 0, 1, 4, 0].flatMap (Bytes.writeLE 4) ++
    -- versions of the symbols, definitions and needs
    [0, 3, 1, 2, 0x8002, 0].flatMap (Bytes.writeLE 2) ++
    [1, 1, 1, 1].flatMap (Bytes.writeLE 2) ++ [108, 20, 28, 7, 0].flatMap (Bytes.writeLE 4) ++
    [1, 0, 2, 1].flatMap (Bytes.writeLE 2) ++ [86, 20, 0, 9, 0].flatMap (Bytes.writeLE 4) ++
    [1, 1].flatMap (Bytes.writeLE 2) ++ [13, 16, 0, 87].flatMap (Bytes.writeLE 4) ++
    [0, 3].flatMap (Bytes.writeLE 2) ++ [15, 0].flatMap (Bytes.writeLE 4) ++
    -- dynamic section
    [1, 13, 5, 0xb0, 10, 17, 6, 0xc8, 11, 24, 4, 0x170, 0x6ffffef5, 0x140, 0x6ffffff0, 0x194,
      0x6ffffffc, 0x1a0, 0x6ffffffd, 2, 0x6ffffffe, 0x1d8, 0x6fffffff, 1, 0, 0].flatMap (Bytes.writeLE 8)

/-- The second sample in memory. -/
def versionedInput : Input := ⟨8192, versionedBytes, by decide +kernel⟩

/-- The tables of an input, if it is accepted. -/
def openedTables (input : Input) : Option Dynamic :=
  (openImage input true).toOption.bind fun image => (openDynamic image).toOption

/-- Tables that were opened are accepted, the image before them. -/
theorem openedTables_some {input : Input} (h : openedTables input = some d) (out : Dynamic) :
    ∃ image, openImage input true = .ok image ∧ dynamicOpen image out = .ok (none, d) := by
  obtain ⟨image, himage, hopen⟩ := Option.bind_eq_some_iff.1 h
  refine ⟨image, toOption_eq_some.1 himage, ?_⟩
  unfold dynamicOpen
  rw [toOption_eq_some.1 hopen]

/-- Tables that were opened are not the default ones. -/
theorem openedTables_getD {input : Input} (h : (openedTables input).isSome = true) (default out : Dynamic) :
    ∃ image, openImage input true = .ok image ∧
      dynamicOpen image out = .ok (none, (openedTables input).getD default) := by
  obtain ⟨d, hd⟩ := Option.isSome_iff_exists.1 h
  rw [hd]
  exact openedTables_some hd out

/-- The tables of the second sample. -/
def versionedDynamic : Dynamic := (openedTables versionedInput).getD { image := sampleImage }

theorem versionedDynamic_open : ∃ image, openImage versionedInput true = .ok image ∧
    dynamicOpen image versionedDynamic = .ok (none, versionedDynamic) :=
  openedTables_getD (by decide +kernel) _ _

/-- What the second sample's tables are: the words that the theorem's clauses are about. -/
theorem versionedDynamic_words : versionedDynamic.versym = some 0x194 ∧ versionedDynamic.symbolCount = 5 ∧
    versionedDynamic.sysvBucketCount = 2 ∧
    (versionedDynamic.gnuBucketCount = 2 ∧ versionedDynamic.gnuSymbolOffset = 2) ∧
    Bytes.field versionedDynamic.bytes versionedDynamic.sysvBuckets 4 = 3 ∧
    Bytes.field versionedDynamic.bytes 0x19c 2 % 0x8000 = 2 := by decide +kernel

/-- In the second sample the version of `h` is a definition, and the chain of `f` and `h` ends. -/
theorem sample_bounded : ∃ image, openImage versionedInput true = .ok image ∧ versionedDynamic.Given image ∧
    (∃ v ∈ versionedDynamic.versions, v.index = 2 ∧
      ∃ s, dynamicSymbol versionedDynamic 4 = .ok s ∧ (s.sect ≠ 0 ↔ v.file = none)) ∧
    versionedDynamic.Ends 3 ∧ ∀ name version, lookupVersion versionedDynamic name version ≠ .error .wrong := by
  obtain ⟨image, himage, hopen⟩ := versionedDynamic_open
  obtain ⟨hversym, hcount, hsysv, _, hbucket, hword⟩ := versionedDynamic_words
  obtain ⟨hsame, hgiven, _, hkinds, hends, _, _, hlookup⟩ :=
    (dynamicOpen_bounds image versionedDynamic).2.2 versionedDynamic hopen
  have hbytes : image.data.bytes = versionedDynamic.bytes := by rw [← hsame]; rfl
  refine ⟨image, himage, hgiven, ?_, ?_, hlookup⟩
  · have hkind := hkinds 0x194 hversym 4 (by decide) (by rw [hcount]; decide)
    rw [hbytes] at hkind
    rw [show 0x194 + 4 * 2 = 0x19c from rfl, hword] at hkind
    exact hkind (by decide)
  · have hend := hends 0 (by rw [hsysv]; decide)
    rw [hbytes, Nat.zero_mul, Nat.add_zero, hbucket] at hend
    exact hend

end Artbox.Elf
