import Artbox.Elf.Bounds

/-!
# Lookup through the GNU hash table

`artbox_dynamic_lookup_version` looks at one chain. As the chains cover the symbols behind the
offset and each symbol is in the chain of its hash, what it finds is what a scan over all of
them finds (`linearLookup`).
-/

namespace Artbox.Elf

open Checked

variable {d : Dynamic} {name : List UInt8} {version : Option (List UInt8)}

/-! ## The scan -/

/-- The version word of a symbol. -/
def Dynamic.rawWord (d : Dynamic) (index : Nat) : Nat :=
  d.versym.elim 1 fun v => Bytes.field d.bytes (v + index * 2) 2

/-- The symbol at an index, if it has the name, is exported and its version is asked for. -/
def matchAt (d : Dynamic) (name : List UInt8) (version : Option (List UInt8)) (index : Nat) :
    Option Symbol :=
  (dynamicSymbol d index).toOption.filter fun s =>
    VersionMatch d version (d.rawWord index) ∧ Exported s ∧ s.name = name

/-- The matches among `n` symbols from `index` on. -/
def scan (d : Dynamic) (name : List UInt8) (version : Option (List UInt8)) (index n : Nat) :
    List Symbol :=
  (List.range' index n).filterMap (matchAt d name version)

/-- The first symbol that is not weak, or else the last one, or else `weak`. -/
def pick (l : List Symbol) (weak : Option Symbol) : Option Symbol :=
  (l.find? fun s => s.binding ≠ 2).or (l.getLast?.or weak)

/-- A scan over the symbols behind the offset. -/
def linearLookup (d : Dynamic) (name : List UInt8) (version : Option (List UInt8)) : Option Symbol :=
  pick (scan d name version d.gnuSymbolOffset (d.symbolCount - d.gnuSymbolOffset)) none

theorem pick_cons (s : Symbol) (l : List Symbol) (weak : Option Symbol) :
    pick (s :: l) weak = if s.binding ≠ 2 then some s else pick l (some s) := by
  unfold pick
  by_cases hs : s.binding ≠ 2
  · rw [List.find?_cons_of_pos (by simpa using hs), if_pos hs]
    rfl
  · rw [List.find?_cons_of_neg (by simpa using hs), if_neg hs]
    cases hl : l.getLast? with
    | none =>
      have hnil : l = [] := List.getLast?_eq_none_iff.1 hl
      rw [hnil]
      rfl
    | some t =>
      have hcons : (s :: l).getLast? = some t := by
        rw [List.getLast?_cons, hl]
        rfl
      rw [hcons]
      rfl

theorem mem_scan {index n : Nat} {s : Symbol} :
    s ∈ scan d name version index n ↔ ∃ j, index ≤ j ∧ j < index + n ∧ matchAt d name version j = some s := by
  unfold scan
  rw [List.mem_filterMap]
  constructor
  · rintro ⟨j, hj, hmatch⟩
    obtain ⟨hlow, hhigh⟩ := List.mem_range'_1.1 hj
    exact ⟨j, hlow, hhigh, hmatch⟩
  · rintro ⟨j, hlow, hhigh, hmatch⟩
    exact ⟨j, List.mem_range'_1.2 ⟨hlow, hhigh⟩, hmatch⟩

/-- What a scan picks is one of the symbols it has passed. -/
theorem pick_none_iff {l : List Symbol} {weak : Option Symbol} :
    pick l weak = none ↔ l = [] ∧ weak = none := by
  induction l generalizing weak with
  | nil =>
    show weak = none ↔ _
    simp
  | cons s l ih =>
    rw [pick_cons]
    by_cases hs : s.binding ≠ 2
    · rw [if_pos hs]
      simp
    · rw [if_neg hs, ih]
      simp

theorem matchAt_some {index : Nat} {s : Symbol} (h : matchAt d name version index = some s) :
    dynamicSymbol d index = .ok s ∧ VersionMatch d version (d.rawWord index) ∧ Exported s ∧
      s.name = name := by
  unfold matchAt at h
  obtain ⟨hs, hmatch⟩ := Option.filter_eq_some_iff.1 h
  refine ⟨?_, of_decide_eq_true hmatch⟩
  cases hd : dynamicSymbol d index with
  | ok t =>
    rw [hd] at hs
    exact congrArg _ (Option.some.inj hs)
  | error e =>
    rw [hd] at hs
    cases hs

/-! ## The walk -/

/-- The version word of a symbol is in the image. -/
theorem rawVersion_eq (h : d.Sound) {index : Nat} (hi : index < d.symbolCount) :
    rawVersion d index = .ok (d.rawWord index) := by
  unfold rawVersion Dynamic.rawWord
  cases hv : d.versym with
  | none => rfl
  | some v =>
    have hle := h.versym v hv
    exact fetch_of_le (by omega)

/-- The hash table's candidate is the scan's match: a symbol with the name has the hash. -/
theorem candidate_eq (h : d.Sound) {i index : Nat} (hi : index < d.symbolCount)
    (hmember : d.GnuMember i index) :
    candidate d name version (gnuHash name) (d.gnuChain index) index =
      .ok (matchAt d name version index) := by
  obtain ⟨s, hs, hsame, _, _⟩ := hmember
  unfold candidate matchAt
  rw [rawVersion_eq h hi, hs]
  show ((if _ then _ else _ : Checked ElfError (Option Symbol)) >>= _) = _
  by_cases hversion : VersionMatch d version (d.rawWord index)
  · by_cases hname : s.name = name
    · rw [hname] at hsame
      rw [if_pos ⟨hversion, .inr hsame⟩]
      simp [attempt, Except.toOption, hversion, Option.filter]
    · -- whatever its hash, the symbol has another name
      by_cases hhash : d.gnuBucketCount = 0 ∨ SameHash (gnuHash name) (d.gnuChain index)
      · rw [if_pos ⟨hversion, hhash⟩]
        simp [attempt, Except.toOption, hname, Option.filter]
      · rw [if_neg (fun h => hhash h.2)]
        simp [Except.toOption, hname, Option.filter]
  · rw [if_neg (fun h => hversion h.1)]
    simp [Except.toOption, hversion, Option.filter]

/-- A match has the hash that its name has. -/
theorem matchAt_member {i j : Nat} {s : Symbol} (h : matchAt d name version j = some s)
    (hmember : d.GnuMember i j) : (gnuHash name).toNat % d.gnuBucketCount = i ∧ d.Blooms (gnuHash name) := by
  obtain ⟨hs, _, _, hname⟩ := matchAt_some h
  obtain ⟨t, ht, _, hi, hbloom⟩ := hmember
  obtain rfl : s = t := Except.ok.inj (hs.symm.trans ht)
  rw [← hname]
  exact ⟨hi, hbloom⟩

/-- The walk along a chain is the scan of it. -/
theorem lookupLoop_run (h : d.Sound) (hgnu : d.gnuBucketCount ≠ 0) {i index n left : Nat}
    (hrun : d.GnuRun i index n) (hleft : n ≤ left) (weak : Option Symbol) :
    lookupLoop d name version (gnuHash name) left index weak =
      .ok (pick (scan d name version index n) weak) := by
  have hoffset := h.gnu.offset hgnu
  induction n generalizing index left weak with
  | zero => exact absurd hrun.pos (by omega)
  | succ n ih =>
    obtain ⟨left, rfl⟩ : ∃ k, left = k + 1 := ⟨left - 1, by omega⟩
    have hlow := hrun.low
    have hhigh := hrun.high
    have hmember := hrun.member 0 (by omega)
    have hlast := hrun.last 0 (by omega)
    rw [Nat.add_zero] at hmember hlast
    have hchain : chainWord d index = .ok (d.gnuChain index) := by
      have hchains := h.gnu.chains hgnu
      unfold chainWord
      rw [if_pos hgnu, reject_neg (by omega)]
      exact fetch_of_le (by omega)
    have hscan : scan d name version index (n + 1) =
        (matchAt d name version index).toList ++ scan d name version (index + 1) n := by
      unfold scan
      rw [List.range'_succ, List.filterMap_cons]
      cases matchAt d name version index <;> rfl
    unfold lookupLoop
    rw [if_neg (by omega), reject_neg (by omega), hchain, hscan]
    show (candidate d name version (gnuHash name) (d.gnuChain index) index >>= _) = _
    rw [candidate_eq h (by omega) hmember]
    -- what is left when the symbol does not end the walk
    have hrest : ∀ weak', (nextIndex d (d.gnuChain index) index >>= fun next =>
        lookupLoop d name version (gnuHash name) left next weak') =
          .ok (pick (scan d name version (index + 1) n) weak') := by
      intro weak'
      unfold nextIndex
      rw [if_pos hgnu]
      show lookupLoop d name version (gnuHash name) left _ weak' = _
      by_cases hend : n = 0
      · subst hend
        rw [if_pos (hlast.2 rfl)]
        unfold lookupLoop
        cases left <;> rfl
      · rw [if_neg (fun hodd => hend (by have := hlast.1 hodd; omega))]
        refine ih ⟨by omega, by omega, by omega, fun k hk => ?_, fun k hk => ?_⟩ (by omega) weak'
        · have hk' := hrun.member (k + 1) (by omega)
          rwa [show index + (k + 1) = index + 1 + k by omega] at hk'
        · have hk' := hrun.last (k + 1) (by omega)
          rw [show index + (k + 1) = index + 1 + k by omega] at hk'
          rw [hk']
          omega
    cases hmatch : matchAt d name version index with
    | none =>
      dsimp only [bind, Except.bind]
      rw [if_neg (by simp)]
      exact hrest weak
    | some s =>
      dsimp only [bind, Except.bind, Option.toList_some, List.singleton_append]
      rw [pick_cons]
      by_cases hs : s.binding ≠ 2
      · rw [if_pos ⟨s, rfl, hs⟩, if_pos hs]
        rfl
      · have hstop : ¬ ∃ t ∈ some s, t.binding ≠ 2 := by
          rintro ⟨t, ht, hne⟩
          exact hs (Option.some.inj ht ▸ hne)
        rw [if_neg hstop, if_neg hs]
        exact hrest (some s)

/-! ## One chain for all -/

/-- The chain from `index` on has one length. -/
theorem Dynamic.GnuRun.unique {i index n n' : Nat} (h : d.GnuRun i index n) (h' : d.GnuRun i index n') :
    n = n' := by
  have hpos := h.pos
  have hpos' := h'.pos
  have hend := (h.last (n - 1) (by omega)).2 (by omega)
  have hend' := (h'.last (n' - 1) (by omega)).2 (by omega)
  by_contra hne
  rcases Nat.lt_or_gt_of_ne hne with hlt | hlt
  · have := (h'.last (n - 1) (by omega)).1 hend
    omega
  · have := (h.last (n' - 1) (by omega)).1 hend'
    omega

theorem scan_append (index m n : Nat) :
    scan d name version index (m + n) = scan d name version index m ++ scan d name version (index + m) n := by
  unfold scan
  rw [← List.filterMap_append, List.range'_append_1]

theorem scan_nil {index n : Nat} (h : ∀ j, index ≤ j → j < index + n → matchAt d name version j = none) :
    scan d name version index n = [] := by
  refine List.eq_nil_iff_forall_not_mem.2 fun s hs => ?_
  obtain ⟨j, hlow, hhigh, hmatch⟩ := mem_scan.1 hs
  rw [h j hlow hhigh] at hmatch
  cases hmatch

/-- A match behind the offset is in the chain of the bucket that the hash gives. -/
theorem match_in (h : d.Sound) (hgnu : d.gnuBucketCount ≠ 0) {j : Nat} {s : Symbol}
    (hlow : d.gnuSymbolOffset ≤ j) (hhigh : j < d.symbolCount) (hmatch : matchAt d name version j = some s) :
    d.GnuIn ((gnuHash name).toNat % d.gnuBucketCount) j ∧ d.Blooms (gnuHash name) := by
  obtain ⟨b, _, hin⟩ := (h.complete hgnu).covers j hlow hhigh
  obtain ⟨rfl, hbloom⟩ := matchAt_member hmatch hin.member
  exact ⟨hin, hbloom⟩

/-- The symbols behind the offset that match are those of one chain that match. -/
theorem scan_run (h : d.Sound) (hgnu : d.gnuBucketCount ≠ 0) {n : Nat}
    (hrun : d.GnuRun ((gnuHash name).toNat % d.gnuBucketCount)
      (d.gnuBucket ((gnuHash name).toNat % d.gnuBucketCount)) n) :
    scan d name version d.gnuSymbolOffset (d.symbolCount - d.gnuSymbolOffset) =
      scan d name version (d.gnuBucket ((gnuHash name).toNat % d.gnuBucketCount)) n := by
  generalize hb : (gnuHash name).toNat % d.gnuBucketCount = b at hrun
  have hlow := hrun.low
  have hhigh := hrun.high
  -- nothing outside the chain matches
  have houtside : ∀ j, d.gnuSymbolOffset ≤ j → j < d.symbolCount →
      ¬ (d.gnuBucket b ≤ j ∧ j < d.gnuBucket b + n) → matchAt d name version j = none := by
    intro j hj hj' hout
    cases hmatch : matchAt d name version j with
    | none => rfl
    | some s =>
      obtain ⟨n', hrun', _, hin⟩ := (match_in h hgnu hj hj' hmatch).1
      rw [hb] at hrun' hin
      obtain rfl := hrun.unique hrun'
      exact absurd hin hout
  have hsplit : d.symbolCount - d.gnuSymbolOffset =
      (d.gnuBucket b - d.gnuSymbolOffset) + (n + (d.symbolCount - (d.gnuBucket b + n))) := by omega
  rw [hsplit, scan_append, scan_append,
    show d.gnuSymbolOffset + (d.gnuBucket b - d.gnuSymbolOffset) = d.gnuBucket b by omega,
    scan_nil fun j hj hj' => houtside j hj (by omega) (by omega), List.nil_append]
  have hrest : scan d name version (d.gnuBucket b + n) (d.symbolCount - (d.gnuBucket b + n)) = [] :=
    scan_nil fun j hj hj' => houtside j (by omega) (by omega) (by omega)
  rw [hrest, List.append_nil]

/-- Without a bloom bit or a bucket there is nothing to find. -/
theorem scan_empty (h : d.Sound) (hgnu : d.gnuBucketCount ≠ 0)
    (hnone : ¬ d.Blooms (gnuHash name) ∨ d.gnuBucket ((gnuHash name).toNat % d.gnuBucketCount) = 0) :
    scan d name version d.gnuSymbolOffset (d.symbolCount - d.gnuSymbolOffset) = [] := by
  refine scan_nil fun j hlow hhigh => ?_
  cases hmatch : matchAt d name version j with
  | none => rfl
  | some s =>
    obtain ⟨⟨_, _, hne, _⟩, hbloom⟩ := match_in h hgnu hlow (by omega) hmatch
    rcases hnone with hno | h0
    · exact absurd hbloom hno
    · exact absurd h0 hne

/-- The lookup is the scan. -/
theorem lookupVersion_eq (h : d.Sound) (hgnu : d.gnuBucketCount ≠ 0) (name : List UInt8)
    (version : Option (List UInt8)) :
    lookupVersion d name version = require (linearLookup d name version) .notFound := by
  have hcount := h.count
  have hbloom := h.gnu.bloom hgnu
  have hbuckets := h.gnu.buckets hgnu
  have hoffset := h.gnu.offset hgnu
  have hword : (gnuHash name).toNat / 64 % d.gnuBloomCount < d.gnuBloomCount :=
    Nat.mod_lt _ (Nat.pos_of_ne_zero (h.gnu.bloomCount hgnu))
  have hbucket : (gnuHash name).toNat % d.gnuBucketCount < d.gnuBucketCount :=
    Nat.mod_lt _ (Nat.pos_of_ne_zero hgnu)
  unfold lookupVersion linearLookup
  rw [reject_neg (by omega), if_pos hgnu]
  dsimp only [bind, Except.bind]
  rw [fetch_of_le (by omega)]
  dsimp only
  by_cases hblooms : d.Blooms (gnuHash name)
  · rw [reject_neg (by exact not_not_intro hblooms), fetch_of_le (by omega)]
    dsimp only
    change (lookupLoop d name version (gnuHash name) (d.symbolCount - 1)
      (d.gnuBucket ((gnuHash name).toNat % d.gnuBucketCount)) none >>= fun found => require found .notFound) = _
    by_cases h0 : d.gnuBucket ((gnuHash name).toNat % d.gnuBucketCount) = 0
    · rw [scan_empty h hgnu (.inr h0), h0]
      unfold lookupLoop
      cases d.symbolCount - 1 <;> rfl
    · obtain ⟨n, hrun⟩ := (h.complete hgnu).buckets _ hbucket h0
      have hlow := hrun.low
      have hhigh := hrun.high
      rw [lookupLoop_run h hgnu hrun (by omega), scan_run h hgnu hrun]
      rfl
  · rw [reject_pos (by exact hblooms), scan_empty h hgnu (.inl hblooms)]
    rfl

/-- Lookup through the GNU hash table of an accepted image is a scan over the symbols behind the
offset: it finds a symbol if and only if one of them matches, and then the first that is not weak or
else the last one; it does not fail otherwise, and the bloom filter lets the hash of each of them
through. -/
theorem lookup_linear {image : Image} {out : Dynamic} (hopen : dynamicOpen image out = .ok (none, d))
    (hgnu : d.gnuBucketCount ≠ 0) (name : List UInt8) (version : Option (List UInt8)) :
    lookupVersion d name version =
      (match linearLookup d name version with | some s => .ok s | none => fail .notFound) ∧
    ((∃ s, lookupVersion d name version = .ok s) ↔ ∃ j, d.gnuSymbolOffset ≤ j ∧ j < d.symbolCount ∧
      ∃ s, dynamicSymbol d j = .ok s ∧ VersionMatch d version (d.rawWord j) ∧ Exported s ∧ s.name = name) ∧
    lookupVersion d name version ≠ fail .invalid ∧
    ∀ j, d.gnuSymbolOffset ≤ j → j < d.symbolCount →
      ∃ s, dynamicSymbol d j = .ok s ∧ d.Blooms (gnuHash s.name) := by
  have hsound := ((openDynamic_safe image).of_ok (openDynamic_of_ok hopen)).2.toSound
  have hoffset := hsound.gnu.offset hgnu
  have heq := lookupVersion_eq hsound hgnu name version
  refine ⟨?_, ?_, ?_, fun j hlow hhigh => ?_⟩
  · rw [heq]
    cases linearLookup d name version <;> rfl
  · rw [heq]
    constructor
    · rintro ⟨s, hs⟩
      have hpick : linearLookup d name version ≠ none := by
        intro hnone
        rw [hnone] at hs
        cases hs
      have hne : scan d name version d.gnuSymbolOffset (d.symbolCount - d.gnuSymbolOffset) ≠ [] :=
        fun hnil => hpick (pick_none_iff.2 ⟨hnil, rfl⟩)
      obtain ⟨t, ht⟩ := List.exists_mem_of_ne_nil _ hne
      obtain ⟨j, hlow, hhigh, hmatch⟩ := mem_scan.1 ht
      exact ⟨j, hlow, by omega, t, matchAt_some hmatch⟩
    · rintro ⟨j, hlow, hhigh, s, hs, hmatch⟩
      have hat : matchAt d name version j = some s := by
        unfold matchAt
        rw [hs]
        exact Option.filter_eq_some_iff.2 ⟨rfl, decide_eq_true hmatch⟩
      have hmem : s ∈ scan d name version d.gnuSymbolOffset (d.symbolCount - d.gnuSymbolOffset) :=
        mem_scan.2 ⟨j, hlow, by omega, hat⟩
      cases hfound : linearLookup d name version with
      | none =>
        have hnil := (pick_none_iff.1 hfound).1
        rw [hnil] at hmem
        cases hmem
      | some t => exact ⟨t, rfl⟩
  · rw [heq]
    cases linearLookup d name version <;> exact nofun
  · obtain ⟨b, _, hin⟩ := (hsound.complete hgnu).covers j hlow hhigh
    obtain ⟨s, hs, _, _, hbloom⟩ := hin.member
    exact ⟨s, hs, hbloom⟩

/-- In the second sample `g` is found, and `h` behind `f` in its chain, but only in its version, as it
is hidden. -/
theorem sample_lookup : ∃ s t, lookupVersion versionedDynamic [103] none = .ok s ∧
    linearLookup versionedDynamic [103] none = some s ∧ lookupVersion versionedDynamic [104] none = fail .notFound ∧
    lookupVersion versionedDynamic [104] (some [86]) = .ok t ∧
    ∃ j, versionedDynamic.gnuSymbolOffset ≤ j ∧ j < versionedDynamic.symbolCount ∧
      dynamicSymbol versionedDynamic j = .ok t ∧ versionedDynamic.Blooms (gnuHash t.name) := by
  obtain ⟨image, _, hopen⟩ := versionedDynamic_open
  obtain ⟨_, hcount, _, ⟨hbuckets, hoffset⟩, _⟩ := versionedDynamic_words
  have hgnu : versionedDynamic.gnuBucketCount ≠ 0 := by
    rw [hbuckets]
    decide
  have hlow : versionedDynamic.gnuSymbolOffset ≤ 4 := by
    rw [hoffset]
    decide
  have hhigh : 4 < versionedDynamic.symbolCount := by
    rw [hcount]
    decide
  have hfound : (linearLookup versionedDynamic [103] none).isSome = true ∧
      linearLookup versionedDynamic [104] none = none ∧
      (linearLookup versionedDynamic [104] (some [86])).isSome = true ∧
      (dynamicSymbol versionedDynamic 4).toOption = linearLookup versionedDynamic [104] (some [86]) := by
    decide +kernel
  obtain ⟨hg, hhidden, hh, hfour⟩ := hfound
  obtain ⟨s, hs⟩ := Option.isSome_iff_exists.1 hg
  obtain ⟨t, ht⟩ := Option.isSome_iff_exists.1 hh
  have hplain := (lookup_linear hopen hgnu [103] none).1
  have hnone := (lookup_linear hopen hgnu [104] none).1
  have hversion := lookup_linear hopen hgnu [104] (some [86])
  rw [hs] at hplain
  rw [hhidden] at hnone
  rw [ht] at hversion
  have hsymbol := toOption_eq_some.1 (hfour.trans ht)
  obtain ⟨t', ht', hblooms⟩ := hversion.2.2.2 4 hlow hhigh
  obtain rfl : t = t' := Except.ok.inj (hsymbol.symm.trans ht')
  exact ⟨s, t, hplain, hs, hnone, hversion.1, 4, hlow, hhigh, hsymbol, hblooms⟩

end Artbox.Elf
