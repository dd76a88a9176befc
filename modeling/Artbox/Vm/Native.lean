import Artbox.Vm.Watches

/-!
# What the host has

`native` says what the host has at an address, by what it was asked and what it answered. In a space that
may be used, every page of an owned region is there with the permissions and the part of the file that the
region notes (`native_agrees`), so no copy is let through that the host would not (`access_native`).
-/

namespace Artbox.Vm

/-- What the host has at an address: its permissions and, of a file, the reference, the sharing and the offset. -/
structure Cell where
  protection : BitVec 2
  source : Option (Nat × Nat × Nat) := none
deriving DecidableEq, Repr

/-- What the host has at an address behind a call. Where a call for the address failed, that is not known. -/
def Request.after (request : Request) (answer : Int) (x : Nat) (c : Option Cell) : Option Cell :=
  match request with
  | .reserve length storage =>
    if answer = 0 ∧ storage ≠ 0 ∧ storage ≤ x ∧ x < storage + length then some ⟨0, none⟩ else c
  | .protect address length p =>
    if address ≤ x ∧ x < address + length then
      if answer = 0 then c.map fun c => { c with protection := p } else none
    else c
  | .reset address length p =>
    if address ≤ x ∧ x < address + length then if answer = 0 then some ⟨p, none⟩ else none else c
  | .release address length => if address ≤ x ∧ x < address + length then none else c
  | .map reference address length p sharing offset =>
    if address ≤ x ∧ x < address + length then
      if answer = 0 then some ⟨p, some (reference, sharing, offset + (x - address))⟩ else none
    else c
  | .acquire _ _ => c
  | .drop _ => c

/-- What the host has at an address. -/
def native : List (Request × Int) → Nat → Option Cell
  | [], _ => none
  | (request, answer) :: log, x => request.after answer x (native log x)

/-- The part of a file at an address, where its mapping is at `base`. -/
def sourceAt (file : Option FileMapping) (base x : Nat) : Option (Nat × Nat × Nat) :=
  file.map fun f => (f.reference, f.sharing, f.offset + (x - base))

/-- What a region notes about an address in one of its pages. -/
def Region.cell (r : Region) (p : Page) (x : Nat) : Cell :=
  ⟨p.protection, if p.filePage then sourceAt r.file r.base x else none⟩

/-- The address is in page `n`. -/
def Region.InPage (r : Region) (page n x : Nat) : Prop := r.base + n * page ≤ x ∧ x < r.base + (n + 1) * page

/-- The host has the region as it notes it. -/
structure Region.Agrees (r : Region) (page : Nat) (log : List (Request × Int)) : Prop where
  whole : r.pages.length * page = r.length
  pages : ∀ n p, r.pages[n]? = some p → ∀ x, r.InPage page n x → native log x = some (r.cell p x)

/-- The addresses a call is about. -/
def Request.touches : Request → Option (Nat × Nat)
  | .reserve length storage => if storage ≠ 0 then some (storage, length) else none
  | .acquire _ _ => none
  | .drop _ => none
  | request => request.changes

variable {r r' q : Region} {page x n : Nat} {log : List (Request × Int)} {request : Request} {answer : Int}

/-- A call about other addresses. -/
theorem after_apart {c : Option Cell} (h : ∀ a l, request.touches = some (a, l) → x < a ∨ a + l ≤ x) :
    request.after answer x c = c := by
  cases request with
  | reserve length storage =>
    refine if_neg fun hin => ?_
    have := h storage length (if_pos hin.2.1)
    omega
  | protect address length p =>
    have := h address length rfl
    exact if_neg (by omega)
  | reset address length p =>
    have := h address length rfl
    exact if_neg (by omega)
  | release address length =>
    have := h address length rfl
    exact if_neg (by omega)
  | map reference address length p sharing offset =>
    have := h address length rfl
    exact if_neg (by omega)
  | acquire file reference => rfl
  | drop reference => rfl

theorem native_dropEvents (file : Option FileMapping) (log : List (Request × Int)) (x : Nat) :
    native (dropEvents file ++ log) x = native log x := by
  unfold dropEvents
  split
  · rfl
  · split <;> rfl

/-- A page of a region of whole pages is in the region. -/
theorem Region.InPage.inside (h : r.InPage page n x) (hw : r.pages.length * page = r.length) {p : Page}
    (hp : r.pages[n]? = some p) : r.base ≤ x ∧ x < r.base + r.length := by
  have hlt := (List.getElem?_eq_some_iff.1 hp).1
  have hle : (n + 1) * page ≤ r.pages.length * page := Nat.mul_le_mul_right page hlt
  have := h.1
  have := h.2
  exact ⟨by omega, by omega⟩

/-- A range of pages has an address of a page if it has the page. -/
theorem Region.Spans.mem_iff {address size first count : Nat} (hs : r.Spans page address size first count)
    (h : r.InPage page n x) : address ≤ x ∧ x < address + size ↔ first ≤ n ∧ n < first + count := by
  obtain ⟨hlo, hhi⟩ := h
  rw [hs.address_eq, hs.size_eq, Nat.add_assoc, ← Nat.add_mul]
  constructor
  · intro ⟨h1, h2⟩
    have hfirst : first < n + 1 := Nat.lt_of_mul_lt_mul_right (a := page) (by omega)
    have hcount : n < first + count := Nat.lt_of_mul_lt_mul_right (a := page) (by omega)
    exact ⟨by omega, hcount⟩
  · intro ⟨h1, h2⟩
    have hfirst : first * page ≤ n * page := Nat.mul_le_mul_right page h1
    have hcount : (n + 1) * page ≤ (first + count) * page := Nat.mul_le_mul_right page h2
    exact ⟨by omega, by omega⟩

/-- A call about addresses outside the region. -/
theorem Region.Agrees.apart (h : r.Agrees page log)
    (ha : ∀ a l, request.touches = some (a, l) → a + l ≤ r.base ∨ r.base + r.length ≤ a) :
    r.Agrees page ((request, answer) :: log) := by
  refine ⟨h.whole, fun n p hp x hx => ?_⟩
  have hin := hx.inside h.whole hp
  show request.after answer x (native log x) = _
  rw [after_apart, h.pages n p hp x hx]
  intro a l ht
  have := ha a l ht
  omega

/-- What the host has of a region depends on the native calls alone. -/
theorem Region.Agrees.congr (h : r.Agrees page log) {log' : List (Request × Int)}
    (hlog : ∀ x, native log' x = native log x) : r.Agrees page log' :=
  ⟨h.whole, fun n p hp x hx => (hlog x).trans (h.pages n p hp x hx)⟩

/-- Pages that a call gave new storage. -/
theorem Region.Agrees.reset {address size first count live : Nat} {p : Page} (h : r.Agrees page log)
    (hs : r.Spans page address size first count) (hp : p.filePage = false)
    (hr' : { r.edit first count (fun _ => p) with live } = r') :
    ({ r' with file := if r'.pages.any (·.filePage) = true then r'.file else none } : Region).Agrees page
      ((.reset address size p.protection, 0) :: log) := by
  have hpages : r'.pages = (r.edit first count fun _ => p).pages := by rw [← hr']
  have hbase : r'.base = r.base := by rw [← hr']; rfl
  have hfile : r'.file = r.file := by rw [← hr']; rfl
  refine ⟨?_, fun n q hq x hx => ?_⟩
  · show r'.pages.length * page = r'.length
    rw [hpages, Region.length_edit hs.inside, ← hr']
    exact h.whole
  · have hx : r.InPage page n x := by
      unfold Region.InPage at hx ⊢
      rwa [← hbase]
    have hq : r'.pages[n]? = some q := hq
    have hmem := List.mem_of_getElem? hq
    rw [hpages, Region.getElem?_edit hs.inside] at hq
    show (if _ then _ else _) = _
    by_cases hin : first ≤ n ∧ n < first + count
    · rw [if_pos hin] at hq
      obtain ⟨_, _, rfl⟩ := Option.map_eq_some_iff.1 hq
      rw [if_pos ((hs.mem_iff hx).2 hin), if_pos rfl]
      unfold Region.cell
      rw [hp]
      rfl
    · rw [if_neg hin] at hq
      rw [if_neg fun h' => hin ((hs.mem_iff hx).1 h'), h.pages n q hq x hx]
      unfold Region.cell
      dsimp only
      rw [hbase, hfile]
      cases hf : q.filePage with
      | false => rfl
      | true => rw [if_pos (List.any_eq_true.2 ⟨q, hmem, hf⟩)]

/-- Pages with new permissions. -/
theorem Region.Agrees.reprotect {address size first count : Nat} {p : BitVec 2} (h : r.Agrees page log)
    (hs : r.Spans page address size first count) :
    (r.edit first count fun q => { q with protection := p }).Agrees page ((.protect address size p, 0) :: log) := by
  refine ⟨?_, fun n q hq x hx => ?_⟩
  · rw [Region.length_edit hs.inside]
    exact h.whole
  · have hx : r.InPage page n x := hx
    rw [Region.getElem?_edit hs.inside] at hq
    show (if _ then _ else _) = _
    by_cases hin : first ≤ n ∧ n < first + count
    · rw [if_pos hin] at hq
      obtain ⟨q', hq', rfl⟩ := Option.map_eq_some_iff.1 hq
      rw [if_pos ((hs.mem_iff hx).2 hin), if_pos rfl, h.pages n q' hq' x hx]
      rfl
    · rw [if_neg hin] at hq
      rw [if_neg fun h' => hin ((hs.mem_iff hx).1 h'), h.pages n q hq x hx]
      rfl

/-- A run of equal pages that a call gave new storage, or mapped again. -/
theorem Region.Agrees.discard {first : Nat} {run : List Page} (h : r.Agrees page log)
    (hs : r.Spans page (r.base + first * page) (run.length * page) first run.length)
    (hn : run = r.slice first run.length) (he : ∀ p ∈ run, p = run.headD {}) :
    r.Agrees page ((Space.discardRequest page r first run, 0) :: log) := by
  refine ⟨h.whole, fun n q hq x hx => ?_⟩
  by_cases hin : first ≤ n ∧ n < first + run.length
  · have hmem : q ∈ run := by
      rw [hn]
      refine List.mem_iff_getElem?.2 ⟨n - first, ?_⟩
      rw [Region.slice, List.getElem?_take_of_lt (by omega), List.getElem?_drop, show first + (n - first) = n by omega]
      exact hq
    have hq := he q hmem
    have hcell : (Space.discardRequest page r first run).after 0 x (native log x) = some (r.cell q x) := by
      have hat := (hs.mem_iff hx).2 hin
      unfold Space.discardRequest Region.cell
      rw [← hq]
      cases hf : q.filePage with
      | false =>
        dsimp only
        exact (if_pos hat).trans (if_pos rfl)
      | true =>
        cases hfile : r.file with
        | none =>
          dsimp only
          exact (if_pos hat).trans (if_pos rfl)
        | some f =>
          dsimp only
          refine (if_pos hat).trans ((if_pos rfl).trans ?_)
          have hoffset : f.offset + first * page + (x - (r.base + first * page)) = f.offset + (x - r.base) := by
            have := hat.1
            omega
          rw [hoffset]
          rfl
    exact hcell
  · have hout : (Space.discardRequest page r first run).after 0 x (native log x) = native log x := by
      refine after_apart fun a l ht => ?_
      have hrange : some (r.base + first * page, run.length * page) = some (a, l) := by
        rw [← ht]
        unfold Space.discardRequest
        split <;> rfl
      obtain ⟨rfl, rfl⟩ := Prod.mk.inj (Option.some.inj hrange)
      have := mt (hs.mem_iff hx).1 hin
      omega
    exact hout.trans (h.pages n q hq x hx)

namespace Space

variable {s : Space} {a b : Space × Hand} {done rest : List Region}

/-- What the host has of a space and of the storage in hand. -/
structure HostAgrees (a : Space × Hand) : Prop where
  apart : a.1.regions.Pairwise Region.Disjoint
  hand : ∀ b n, a.2.storage = some (b, n) → ∀ r ∈ a.1.regions, b + n ≤ r.base ∨ r.base + r.length ≤ b
  made : ∀ b n p file, a.2.storage = some (b, n) → a.2.made = some (p, file) → ∀ x, b ≤ x → x < b + n →
    native a.1.log x = some ⟨p, if file then sourceAt a.2.file b x else none⟩
  regions : a.1.poisoned = false → ∀ r ∈ a.1.regions, r.owned = true → r.Agrees a.1.pageSize a.1.log

/-- A call about the storage in hand, or about none. -/
theorem HostAgrees.note {k k' : Hand} (h : HostAgrees (s, k)) (hk : k'.storage = none ∨ k'.storage = k.storage)
    (hrequest : ∀ x l, request.touches = some (x, l) → k.storage = some (x, l))
    (hmade : ∀ b n p file, k'.storage = some (b, n) → k'.made = some (p, file) → ∀ x, b ≤ x → x < b + n →
      request.after answer x (native s.log x) = some ⟨p, if file then sourceAt k'.file b x else none⟩) :
    HostAgrees (s.note request answer, k') := by
  refine ⟨h.apart, fun b n hb => ?_, hmade, fun hpo r hr ho => (h.regions hpo r hr ho).apart fun x l ht => ?_⟩
  · rcases hk with hk | hk
    · rw [hk] at hb
      cases hb
    · exact h.hand b n (hk ▸ hb)
  · exact h.hand x l (hrequest x l ht) r hr

/-- A region of the storage in hand. -/
theorem HostAgrees.push {k : Hand} {p : Page} (h : HostAgrees (s, k)) (hr : Made k s.pageSize r p) :
    (s.regions ++ [r]).Pairwise Region.Disjoint := by
  refine List.pairwise_append.2 ⟨h.apart, List.pairwise_singleton _ _, fun q hq r' hr' => ?_⟩
  rw [List.mem_singleton.1 hr']
  exact (h.hand r.base r.length hr.storage q hq).symm

/-- The host has the region that was made of the storage in hand. -/
theorem HostAgrees.agrees {k : Hand} {p : Page} (h : HostAgrees (s, k)) (hr : Made k s.pageSize r p)
    (hm : k.made = some (p.protection, p.filePage))
    (hf : p.filePage = true → ∀ x, sourceAt r.file r.base x = sourceAt k.file r.base x) :
    r.Agrees s.pageSize s.log := by
  have hwhole : r.pages.length * s.pageSize = r.length := by rw [hr.pages, List.length_replicate, hr.whole]
  refine ⟨hwhole, fun n q hq x hx => ?_⟩
  have hin := hx.inside hwhole hq
  rw [hr.mem (List.mem_of_getElem? hq), h.made r.base r.length _ _ hr.storage hm x hin.1 hin.2]
  unfold Region.cell
  cases hpage : p.filePage with
  | false => rfl
  | true =>
    rw [hf hpage]

theorem hostAgrees_keep {k : Hand} {p : Page} {watches : List MappingState} (h : HostAgrees (s, k))
    (hr : Made k s.pageSize r p) (hm : k.made = some (p.protection, p.filePage))
    (hf : p.filePage = true → ∀ x, sourceAt r.file r.base x = sourceAt k.file r.base x) :
    HostAgrees (Space.keep { s with watches } r, {}) := by
  refine ⟨h.push hr, nofun, nofun, fun hpo q hq ho => ?_⟩
  rcases List.mem_append.1 hq with hq | hq
  · exact h.regions hpo q hq ho
  · rw [List.mem_singleton.1 hq]
    exact h.agrees hr hm hf

theorem releaseUnusedFile_snd (s : Space) (r : Region) :
    (s.releaseUnusedFile r).2 = if r.pages.any (·.filePage) = true then r.file else none := by
  unfold releaseUnusedFile
  split <;> rfl

/-- One region changes, by a call about its addresses. -/
theorem HostAgrees.edit (request : Request) (answer : Int) {s' : Space} (h : HostAgrees (s, {}))
    (hs : s.regions = done ++ r :: rest) (hd : ∀ q ∈ done ++ rest, r.Disjoint q)
    (hs' : s'.regions = done ++ r' :: rest)
    (hpage : s'.pageSize = s.pageSize) (hpo : s'.poisoned = false → s.poisoned = false)
    (hlog : ∀ x, native s'.log x = native ((request, answer) :: s.log) x)
    (hb : r'.base = r.base) (hl : r'.length = r.length) (ho' : r'.owned = r.owned)
    (ht : ∀ x l, request.touches = some (x, l) → r.base ≤ x ∧ x + l ≤ r.base + r.length)
    (hr : r.owned = true → r.Agrees s.pageSize s.log → r'.Agrees s.pageSize ((request, answer) :: s.log)) :
    HostAgrees (s', {}) := by
  have hcongr : ∀ {q : Region}, q.Agrees s.pageSize ((request, answer) :: s.log) → q.Agrees s'.pageSize s'.log := by
    intro q hq
    rw [hpage]
    exact hq.congr hlog
  have hmem : ∀ q ∈ done ++ rest, q ∈ s.regions := by rw [hs]; exact forall_others fun q hq => hq
  refine ⟨?_, nofun, nofun, fun hpo' => ?_⟩
  · have hsymm : ∀ {x y : Region}, x.Disjoint y → y.Disjoint x := fun hxy => hxy.symm
    have hall := h.apart
    rw [hs] at hall
    show s'.regions.Pairwise Region.Disjoint
    rw [hs', List.pairwise_middle hsymm]
    refine List.pairwise_cons.2 ⟨fun q hq => ?_, (List.pairwise_cons.1 ((List.pairwise_middle hsymm).1 hall)).2⟩
    unfold Region.Disjoint
    rw [hb, hl]
    exact hd q hq
  · show ∀ q ∈ s'.regions, _
    rw [hs']
    refine forall_middle (fun ho => ?_) fun q hq ho => ?_
    · have hro : r.owned = true := ho'.symm.trans ho
      exact hcongr (hr hro (h.regions (hpo hpo') r (hs ▸ List.mem_append_right _ List.mem_cons_self) hro))
    · refine hcongr ((h.regions (hpo hpo') q (hmem q hq) ho).apart fun x l hx => ?_)
      have hin := ht x l hx
      have hdisjoint : r.base + r.length ≤ q.base ∨ q.base + q.length ≤ r.base := hd q hq
      omega

/-- The pages of a range get new storage. -/
theorem HostAgrees.reset {address size first count live : Nat} {p : Page} (h : HostAgrees (s, {}))
    (hs : s.regions = done ++ r :: rest) (hd : ∀ q ∈ done ++ rest, r.Disjoint q)
    (hr : r.Spans s.pageSize address size first count) (hp : p.filePage = false) :
    HostAgrees
      (let s' := (s.invalidateFilePages r first count).mutation (.reset address size p.protection) 0
       let r' := { r.edit first count (fun _ => p) with live }
       ((s'.releaseUnusedFile r').1.put (done ++ { r' with file := (s'.releaseUnusedFile r').2 } :: rest), {})) := by
  have hlog' := s.invalidateFilePages_log r first count
  obtain ⟨watches, hw⟩ := s.invalidateFilePages_eq r first count
  rw [hw] at hlog' ⊢
  show HostAgrees (Space.put _ _, {})
  generalize hs' : Space.mutation _ (.reset address size p.protection) 0 = s'
  generalize hr' : { r.edit first count (fun _ => p) with live } = r'
  have hlog₀ : s'.log = (.reset address size p.protection, 0) :: s.log := by rw [← hs']; rfl
  have hpo : s'.poisoned = s.poisoned := by rw [← hs']; exact Bool.or_false _
  have hpage : s'.pageSize = s.pageSize := by rw [← hs']; rfl
  obtain ⟨watches', log', file, hfile, _⟩ := s'.releaseUnusedFile_eq r'
  refine h.edit (.reset address size p.protection) 0 hs hd rfl ?_ (fun hpo' => ?_)
    (fun x => ?_) ?_ ?_ ?_ (fun x l ht => ?_) fun _ hr₀ => ?_
  · show (s'.releaseUnusedFile r').1.pageSize = _
    rw [hfile, ← hpage]
  · have hpo' : (s'.releaseUnusedFile r').1.poisoned = false := hpo'
    rw [hfile] at hpo'
    rw [← hpo]
    exact hpo'
  · show native (s'.releaseUnusedFile r').1.log x = _
    rcases s'.releaseUnusedFile_log r' with ⟨hlog, _⟩ | ⟨hlog, _⟩
    · rw [hlog, hlog₀]
    · rw [hlog, native_dropEvents, hlog₀]
  · rw [← hr']
    rfl
  · rw [← hr']
    rfl
  · rw [← hr']
    rfl
  · obtain ⟨rfl, rfl⟩ := Prod.mk.inj (Option.some.inj ht)
    exact hr.within
  · rw [releaseUnusedFile_snd]
    exact hr₀.reset hr hp hr'

/-- A run of pages gets new storage, or is mapped again. -/
theorem HostAgrees.discard {run : List Page} (h : HostAgrees (s, {})) (hr : r ∈ s.regions)
    (hs : r.Spans s.pageSize (r.base + n * s.pageSize) (run.length * s.pageSize) n run.length)
    (hn : run = r.slice n run.length) (he : ∀ p ∈ run, p = run.headD {}) :
    HostAgrees (s.mutation (discardRequest s.pageSize r n run) 0, {}) := by
  refine ⟨h.apart, nofun, nofun, fun hpo q hq hqo => ?_⟩
  have hpo : s.poisoned = false := (Bool.or_eq_false_iff.1 hpo).1
  have hq₀ := h.regions hpo q hq hqo
  by_cases heq : q = r
  · subst heq
    exact hq₀.discard hs hn he
  · refine hq₀.apart fun x l ht => ?_
    have hrange : some (r.base + n * s.pageSize, run.length * s.pageSize) = some (x, l) := by
      rw [← ht]
      unfold discardRequest
      split <;> rfl
    obtain ⟨rfl, rfl⟩ := Prod.mk.inj (Option.some.inj hrange)
    have : Std.Symm Region.Disjoint := ⟨fun _ _ hxy => hxy.symm⟩
    have hdisjoint : q.base + q.length ≤ r.base ∨ r.base + r.length ≤ q.base :=
      h.apart.forall hq hr heq
    have hin := hs.within
    omega

/-- A region is released whole. -/
theorem HostAgrees.erase {first count : Nat} (h : HostAgrees (s, {})) (hs : s.regions = done ++ r :: rest)
    (hd : ∀ q ∈ done ++ rest, r.Disjoint q) :
    HostAgrees
      (let s' := (s.invalidateFilePages r first count).mutation (.release r.base r.length) 0
       ({ (s'.drop r.file).put (done ++ rest) with reserved := sub64 s.reserved r.length }, {})) := by
  have hlog' := s.invalidateFilePages_log r first count
  obtain ⟨watches, hw⟩ := s.invalidateFilePages_eq r first count
  rw [hw] at hlog' ⊢
  show HostAgrees ({ Space.put _ _ with reserved := _ }, {})
  generalize hs' : Space.mutation _ (.release r.base r.length) 0 = s'
  have hlog : ∀ x, native (s'.drop r.file).log x = native ((.release r.base r.length, 0) :: s.log) x := by
    intro x
    rw [drop_log, native_dropEvents, ← hs']
    rfl
  obtain ⟨watches', log', hdrop⟩ := s'.drop_eq r.file
  have hmem : ∀ q ∈ done ++ rest, q ∈ s.regions := by rw [hs]; exact forall_others fun q hq => hq
  refine ⟨?_, nofun, nofun, fun hpo q hq hqo => ?_⟩
  · have hall := h.apart
    rw [hs] at hall
    exact hall.sublist (List.Sublist.append_left (List.sublist_cons_self r rest) done)
  · have hpo : (s'.drop r.file).poisoned = false := hpo
    have hpage : (s'.drop r.file).pageSize = s.pageSize := by rw [hdrop, ← hs']; rfl
    rw [hdrop, ← hs'] at hpo
    have hpo : s.poisoned = false := (Bool.or_eq_false_iff.1 hpo).1
    have hq₀ : q.Agrees s.pageSize ((.release r.base r.length, 0) :: s.log) := by
      refine (h.regions hpo q (hmem q hq) hqo).apart fun x l ht => ?_
      obtain ⟨rfl, rfl⟩ := Prod.mk.inj (Option.some.inj ht)
      exact hd q hq
    show q.Agrees (s'.drop r.file).pageSize (s'.drop r.file).log
    rw [hpage]
    exact hq₀.congr hlog

/-- Every move keeps what the host has. -/
theorem hostAgrees_move (hm : Move a b) (h : HostAgrees a) : HostAgrees b := by
  cases hm with
  | acquire s file f error ht => exact h.note (.inr rfl) nofun nofun
  | drop s k hk =>
    obtain ⟨watches, log, hd⟩ := s.drop_eq k.file
    have hlog : ∀ x, native log x = native s.log x := by
      intro x
      have hdrop := s.drop_log k.file
      rw [hd] at hdrop
      obtain rfl : log = _ := hdrop
      exact native_dropEvents k.file s.log x
    rw [hd]
    refine ⟨h.apart, nofun, nofun, fun hpo r hr ho => ?_⟩
    exact (h.regions hpo r hr ho).congr hlog
  | refuse s k size storage error hk hr =>
    refine ⟨h.apart, h.hand, fun b n p file hb => ?_, fun hpo r hmem ho => ?_⟩
    · rw [hk] at hb
      cases hb
    · -- a reservation that failed gives no storage
      have hquiet : ∀ x, native ((.reserve size storage, error) :: s.log) x = native s.log x := by
        intro x
        refine if_neg fun hc => ?_
        rcases hr with hr | hr
        · exact hr hc.1
        · exact hc.2.1 hr
      exact (h.regions hpo r hmem ho).congr hquiet
  | reserve s k size storage hk h0 hw hd =>
    refine ⟨h.apart, fun b n hb r hr => ?_, fun b n p file hb hm x hlo hhi => ?_, fun hpo r hr ho => ?_⟩
    · obtain ⟨rfl, rfl⟩ := Prod.mk.inj (Option.some.inj hb)
      exact hd r hr
    · obtain ⟨rfl, rfl⟩ := Prod.mk.inj (Option.some.inj hb)
      obtain ⟨rfl, rfl⟩ := Prod.mk.inj (Option.some.inj hm)
      exact if_pos ⟨rfl, h0, hlo, hhi⟩
    · refine (h.regions hpo r hr ho).apart fun x l ht => ?_
      have ht : (if storage ≠ 0 then some (storage, size) else none) = some (x, l) := ht
      rw [if_pos h0] at ht
      obtain ⟨rfl, rfl⟩ := Prod.mk.inj (Option.some.inj ht)
      exact hd r hr
  | protect s k b n p answer hk hm =>
    refine h.note (.inr rfl) (fun x l ht => ?_) fun b' n' p' file hb hm' x hlo hhi => ?_
    · rw [hk]
      exact ht
    · obtain ⟨rfl, rfl⟩ := Prod.mk.inj (Option.some.inj (hk.symm.trans hb))
      have hm' : (if answer = 0 then some (p, false) else none) = some (p', file) := hm'
      split at hm'
      next hanswer =>
        obtain ⟨rfl, rfl⟩ := Prod.mk.inj (Option.some.inj hm')
        have hx := h.made b n 0 false hk hm x hlo hhi
        show (if _ then _ else _) = _
        rw [if_pos ⟨hlo, hhi⟩, if_pos hanswer, hx]
        rfl
      next => cases hm'
  | map s k b n p f answer hk hf =>
    refine h.note (.inr rfl) (fun x l ht => ?_) fun b' n' p' file hb hm' x hlo hhi => ?_
    · rw [hk]
      exact ht
    · obtain ⟨rfl, rfl⟩ := Prod.mk.inj (Option.some.inj (hk.symm.trans hb))
      have hm' : (if answer = 0 then some (p, true) else none) = some (p', file) := hm'
      split at hm'
      next hanswer =>
        obtain ⟨rfl, rfl⟩ := Prod.mk.inj (Option.some.inj hm')
        show (if _ then _ else _) = _
        rw [if_pos ⟨hlo, hhi⟩, if_pos hanswer, hf]
        rfl
      next => cases hm'
  | release s k b n answer hk hu =>
    refine h.note (.inl rfl) (fun x l ht => ?_) nofun
    rw [hk]
    exact ht
  | retain s k r p error hr hf he => exact ⟨h.push hr, nofun, nofun, nofun⟩
  | keep s k r p hr hm hf => exact hostAgrees_keep h hr hm fun _ x => by rw [hf]
  | watch s k r p f hr hm hf ht =>
    refine hostAgrees_keep h hr hm fun _ x => ?_
    rw [ht, hf]
    rfl
  | register s r ho hf hp hd =>
    refine ⟨?_, nofun, nofun, fun hpo q hq hqo => ?_⟩
    · refine List.pairwise_append.2 ⟨h.apart, List.pairwise_singleton _ _, fun q hq r' hr' => ?_⟩
      rw [List.mem_singleton.1 hr']
      exact hd q hq
    · rcases List.mem_append.1 hq with hq | hq
      · exact h.regions hpo q hq hqo
      · rw [List.mem_singleton.1 hq, ho] at hqo
        cases hqo
  | spoil s r first count request error hr hq he =>
    obtain ⟨watches, hw⟩ := s.invalidateFilePages_eq r first count
    rw [hw]
    refine ⟨h.apart, nofun, nofun, fun hpo => ?_⟩
    -- the space is poisoned now
    have hpo : (s.poisoned || error != 0) = false := hpo
    rw [bne_iff_ne.2 he, Bool.or_true] at hpo
    cases hpo
  | skip s r first count hr hn =>
    obtain ⟨watches, hw⟩ := s.invalidateFilePages_eq r first count
    rw [hw]
    exact ⟨h.apart, nofun, nofun, h.regions⟩
  | reset s done rest r address size first count live p hs hd hr ho hp => exact h.reset hs hd hr hp
  | reprotect s done rest r address size first count p hs hd hr hm hw =>
    refine h.edit (.protect address size p) 0 hs hd rfl rfl (fun hpo => ?_) (fun x => rfl) rfl
      rfl rfl (fun x l ht => ?_) fun _ hr₀ => hr₀.reprotect hr
    · exact (Bool.or_eq_false_iff.1 hpo).1
    · obtain ⟨rfl, rfl⟩ := Prod.mk.inj (Option.some.inj ht)
      exact hr.within
  | discard s r n run hr hs ho hn he => exact h.discard hr hs hn he
  | erase s done rest r first count hs hd ho => exact h.erase hs hd

theorem hostAgrees_reachable (hr : machine.Reachable s) : HostAgrees (s, {}) := by
  refine reachable_of_moves hr (fun a b => hostAgrees_move) (fun s h _ _ _ => ?_)
    fun s window h => ⟨h.apart, h.hand, h.made, h.regions⟩
  refine ⟨?_, nofun, nofun, fun _ => ?_⟩
  · rw [h]
    exact List.Pairwise.nil
  · rw [h]
    exact nofun

/-- In a space that may be used, the host has every page of an owned region as the region notes it. -/
theorem native_agrees (hr : machine.Reachable s) (hpo : s.poisoned = false) (hmem : r ∈ s.regions)
    (ho : r.owned = true) : r.Agrees s.pageSize s.log :=
  (hostAgrees_reachable hr).regions hpo r hmem ho

/-- The region of `sampleUnmapped`. -/
def sampleRegion : Region where
  base := 0x10000
  length := 0x3000
  live := 2
  pages := [{}, ⟨true, true, false, 3⟩, ⟨true, true, false, 3⟩]
  file := some { reference := 1, offset := 0x2000, sharing := 2, tracking := some 0 }

theorem native_agrees_sample : sampleRegion.Agrees 0x1000 sampleUnmapped.log :=
  native_agrees sampleUnmapped_reachable (by decide) (by decide) rfl

end Space

end Artbox.Vm
