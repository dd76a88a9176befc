import Artbox.Vm.Native

/-!
# The regions of a run

What holds of the regions in every state (`regions_accounted`), and that a borrowed region is left alone in
every run: no call resets, releases or maps its addresses, and it stays, with other permissions at most and
only where it is protectable (`borrowed_stays`).
-/

namespace Artbox.Vm

/-- The call is not about addresses of the region, or it gives them permissions, where the region allows that. -/
def Region.Spares (r : Region) (request : Request) : Prop :=
  ∀ a n, request.changes = some (a, n) →
    (r.protectable = true ∧ ∃ p, request = .protect a n p) ∨ a + n ≤ r.base ∨ r.base + r.length ≤ a

/-- The page without its permissions. -/
def Page.kind (p : Page) : Page := { p with protection := 0 }

/-- What is left of a borrowed region. -/
structure Region.Stays (r r' : Region) : Prop where
  base : r'.base = r.base
  length : r'.length = r.length
  owned : r'.owned = r.owned
  protectable : r'.protectable = r.protectable
  pages : r'.pages.map Page.kind = r.pages.map Page.kind
  fixed : r.protectable = false → r' = r

theorem Region.Stays.refl (r : Region) : r.Stays r := ⟨rfl, rfl, rfl, rfl, rfl, fun _ => rfl⟩

theorem Region.Stays.trans {r r' r'' : Region} (h : r.Stays r') (h' : r'.Stays r'') : r.Stays r'' where
  base := h'.base.trans h.base
  length := h'.length.trans h.length
  owned := h'.owned.trans h.owned
  protectable := h'.protectable.trans h.protectable
  pages := h'.pages.trans h.pages
  fixed := fun hf => (h'.fixed (h.protectable.trans hf)).trans (h.fixed hf)

/-- New permissions for a range of pages. -/
theorem Region.stays_edit (r : Region) (first count : Nat) (permissions : BitVec 2) (hw : r.protectable = true) :
    r.Stays (r.edit first count fun p => { p with protection := permissions }) := by
  refine ⟨rfl, rfl, rfl, rfl, ?_, fun hf => ?_⟩
  · rw [r.pages_split first count]
    unfold Region.edit
    simp only [List.map_append, List.map_map]
    rfl
  · rw [hw] at hf
    cases hf

namespace Space

variable {s s' s'' : Space} {a b : Space × Hand} {r : Region} {done rest : List Region}

/-- The borrowed regions of `s` in a later space. -/
structure Spared (s s' : Space) : Prop where
  calls : ∃ l, s'.log = l ++ s.log ∧ ∀ e ∈ l, ∀ r ∈ s.regions, r.owned = false → r.Spares e.1
  regions : ∀ r ∈ s.regions, r.owned = false → ∃ r' ∈ s'.regions, r.Stays r'

theorem Spared.refl (s : Space) : Spared s s := ⟨⟨[], rfl, List.forall_mem_nil _⟩, fun r hr _ => ⟨r, hr, .refl r⟩⟩

theorem Spared.trans (h : Spared s s') (h' : Spared s' s'') : Spared s s'' := by
  obtain ⟨l, hl, hspares⟩ := h.calls
  obtain ⟨l', hl', hspares'⟩ := h'.calls
  refine ⟨⟨l' ++ l, by rw [hl', hl, List.append_assoc], fun e he r hr ho => ?_⟩, fun r hr ho => ?_⟩
  · rcases List.mem_append.1 he with he | he
    · obtain ⟨r', hr', hstays⟩ := h.regions r hr ho
      have hspared := hspares' e he r' hr' (hstays.owned.trans ho)
      unfold Region.Spares at hspared
      rw [hstays.base, hstays.length, hstays.protectable] at hspared
      exact hspared
    · exact hspares e he r hr ho
  · obtain ⟨r', hr', hstays⟩ := h.regions r hr ho
    obtain ⟨r'', hr'', hstays'⟩ := h'.regions r' hr' (hstays.owned.trans ho)
    exact ⟨r'', hr'', hstays.trans hstays'⟩

/-- The regions are still there. -/
theorem spared_of_mem {l : List (Request × Int)} (hlog : s'.log = l ++ s.log) (hmem : ∀ r ∈ s.regions, r ∈ s'.regions)
    (hl : ∀ e ∈ l, ∀ r ∈ s.regions, r.owned = false → r.Spares e.1) : Spared s s' :=
  ⟨⟨l, hlog, hl⟩, fun r hr _ => ⟨r, hmem r hr, .refl r⟩⟩

/-- A call about other addresses. -/
theorem spares_apart {request : Request}
    (h : ∀ a n, request.changes = some (a, n) → a + n ≤ r.base ∨ r.base + r.length ≤ a) : r.Spares request :=
  fun a n ha => .inr (h a n ha)

/-- A call about the addresses of another region. -/
theorem spares_other {q : Region} {request : Request} (hd : q.Disjoint r)
    (h : ∃ a n, request.changes = some (a, n) ∧ q.base ≤ a ∧ a + n ≤ q.base + q.length) : r.Spares request := by
  obtain ⟨a, n, ha, hlo, hhi⟩ := h
  refine spares_apart fun a' n' ha' => ?_
  obtain ⟨rfl, rfl⟩ := Prod.mk.inj (Option.some.inj (ha.symm.trans ha'))
  have hd : q.base + q.length ≤ r.base ∨ r.base + r.length ≤ q.base := hd
  omega

theorem spares_dropEvents (file : Option FileMapping) : ∀ e ∈ dropEvents file, r.Spares e.1 := by
  intro e he
  unfold dropEvents at he
  split at he
  · cases he
  · split at he
    · cases he
    · rw [List.mem_singleton.1 he]
      exact nofun

/-- A borrowed region is none of the owned ones. -/
theorem mem_others {q : Region} (hs : s.regions = done ++ r :: rest) (ho : r.owned = true) (hq : q ∈ s.regions)
    (hqo : q.owned = false) : q ∈ done ++ rest := by
  rw [hs] at hq
  rcases List.mem_append.1 hq with hq | hq
  · exact List.mem_append_left _ hq
  rcases List.mem_cons.1 hq with rfl | hq
  · rw [ho] at hqo
    cases hqo
  · exact List.mem_append_right _ hq

theorem spared_move (hm : Move a b) (h : HostAgrees a) : Spared a.1 b.1 := by
  have hone : ∀ {request : Request} {answer : Int} {l : List Region}, (∀ r ∈ l, r.owned = false → r.Spares request) →
      ∀ e ∈ [(request, answer)], ∀ r ∈ l, r.owned = false → r.Spares e.1 := by
    intro request answer l hr e he r hmem ho
    rw [List.mem_singleton.1 he]
    exact hr r hmem ho
  have hpush : ∀ {l : List Region} {q : Region}, ∀ r ∈ l, r ∈ l ++ [q] := fun r hr => List.mem_append_left _ hr
  cases hm with
  | acquire s file f error ht => exact spared_of_mem (l := [_]) rfl (fun r hr => hr) (hone fun _ _ _ => nofun)
  | drop s k hk =>
    refine spared_of_mem (drop_log s k.file) (fun r hr => ?_) fun e he r hr ho => spares_dropEvents k.file e he
    obtain ⟨_, _, hd⟩ := s.drop_eq k.file
    rw [hd]
    exact hr
  | refuse s k size storage error hk hr => exact spared_of_mem (l := [_]) rfl (fun r hr => hr) (hone fun _ _ _ => nofun)
  | reserve s k size storage hk h0 hw hd =>
    exact spared_of_mem (l := [_]) rfl (fun r hr => hr) (hone fun _ _ _ => nofun)
  | protect s k b n p answer hk hm =>
    refine spared_of_mem (l := [_]) rfl (fun r hr => hr) (hone fun r hr _ => spares_apart fun a n ha => ?_)
    exact h.hand a n (hk.trans ha) r hr
  | map s k b n p f answer hk hf =>
    refine spared_of_mem (l := [_]) rfl (fun r hr => hr) (hone fun r hr _ => spares_apart fun a n ha => ?_)
    exact h.hand a n (hk.trans ha) r hr
  | release s k b n answer hk hu =>
    refine spared_of_mem (l := [_]) rfl (fun r hr => hr) (hone fun r hr _ => spares_apart fun a n ha => ?_)
    exact h.hand a n (hk.trans ha) r hr
  | retain s k r p error hr hf he =>
    refine spared_of_mem (l := [_]) rfl hpush (hone fun q hq _ => spares_apart fun a n ha => ?_)
    exact h.hand a n (hr.storage.trans ha) q hq
  | keep s k r p hr hm hf => exact spared_of_mem (l := []) rfl hpush (List.forall_mem_nil _)
  | watch s k r p f hr hm hf ht => exact spared_of_mem (l := []) rfl hpush (List.forall_mem_nil _)
  | register s r ho hf hp hd => exact spared_of_mem (l := []) rfl hpush (List.forall_mem_nil _)
  | spoil s r first count request error hr hq he =>
    obtain ⟨watches, hw⟩ := s.invalidateFilePages_eq r first count
    rw [hw]
    refine spared_of_mem (l := [_]) rfl (fun q hmem => hmem) (hone fun q hmem hqo => ?_)
    by_cases heq : q = r
    · subst heq
      -- a region that is not owned is asked for permissions only
      rcases hq.kind with ho | ⟨hw, a, n, p, hp⟩
      · rw [ho] at hqo
        cases hqo
      · intro a' n' ha
        rw [hp] at ha ⊢
        obtain ⟨rfl, rfl⟩ := Prod.mk.inj (Option.some.inj ha)
        exact .inl ⟨hw, p, rfl⟩
    · have : Std.Symm Region.Disjoint := ⟨fun _ _ hxy => hxy.symm⟩
      exact spares_other (h.apart.forall hr hmem fun hrq => heq hrq.symm) hq.range
  | skip s r first count hr hn =>
    obtain ⟨watches, hw⟩ := s.invalidateFilePages_eq r first count
    rw [hw]
    exact spared_of_mem (l := []) rfl (fun q hmem => hmem) (List.forall_mem_nil _)
  | reset s done rest r address size first count live p hs hd hr ho hp =>
    have hlog' := s.invalidateFilePages_log r first count
    show Spared s (Space.put _ _)
    generalize hs' : (s.invalidateFilePages r first count).mutation (.reset address size p.protection) 0 = s'
    generalize hr' : { r.edit first count (fun _ => p) with live } = r'
    have hlog₀ : s'.log = (.reset address size p.protection, 0) :: s.log := by
      rw [← hs', ← hlog']
      rfl
    -- the range lies in an owned region, so apart from the others
    have hspares : ∀ q ∈ s.regions, q.owned = false → q.Spares (.reset address size p.protection) :=
      fun q hq hqo => spares_other (hd q (mem_others hs ho hq hqo)) ⟨_, _, rfl, hr.within⟩
    refine ⟨?_, fun q hq hqo => ⟨q, ?_, .refl q⟩⟩
    · rcases s'.releaseUnusedFile_log r' with ⟨hlog, _⟩ | ⟨hlog, _⟩
      · exact ⟨[_], hlog.trans hlog₀, hone hspares⟩
      · refine ⟨dropEvents r'.file ++ [(.reset address size p.protection, 0)], ?_, fun e he q hq hqo => ?_⟩
        · exact hlog.trans ((congrArg _ hlog₀).trans (List.append_assoc _ [_] _).symm)
        · rcases List.mem_append.1 he with he | he
          · exact spares_dropEvents _ e he
          · exact hone hspares e he q hq hqo
    · show q ∈ done ++ _ :: rest
      rcases List.mem_append.1 (mem_others hs ho hq hqo) with hq | hq
      · exact List.mem_append_left _ hq
      · exact List.mem_append_right _ (List.mem_cons_of_mem _ hq)
  | reprotect s done rest r address size first count p hs hd hr hm hw =>
    refine ⟨⟨[_], rfl, hone fun q hq hqo => ?_⟩, fun q hq hqo => ?_⟩
    · rw [hs] at hq
      rcases List.mem_append.1 hq with hq | hq
      · exact spares_other (hd q (List.mem_append_left _ hq)) ⟨_, _, rfl, hr.within⟩
      rcases List.mem_cons.1 hq with rfl | hq
      · intro a n ha
        obtain ⟨rfl, rfl⟩ := Prod.mk.inj (Option.some.inj ha)
        exact .inl ⟨hw, p, rfl⟩
      · exact spares_other (hd q (List.mem_append_right _ hq)) ⟨_, _, rfl, hr.within⟩
    · show ∃ r' ∈ done ++ _ :: rest, _
      rw [hs] at hq
      rcases List.mem_append.1 hq with hq | hq
      · exact ⟨q, List.mem_append_left _ hq, .refl q⟩
      rcases List.mem_cons.1 hq with rfl | hq
      · exact ⟨_, List.mem_append_right _ List.mem_cons_self, q.stays_edit first count p hw⟩
      · exact ⟨q, List.mem_append_right _ (List.mem_cons_of_mem _ hq), .refl q⟩
  | discard s r n run hr hs ho hn he =>
    refine spared_of_mem (l := [_]) rfl (fun q hmem => hmem) (hone fun q hmem hqo => ?_)
    have hne : r ≠ q := by
      rintro rfl
      rw [ho] at hqo
      cases hqo
    have : Std.Symm Region.Disjoint := ⟨fun _ _ hxy => hxy.symm⟩
    refine spares_other (h.apart.forall hr hmem hne) ⟨_, _, ?_, hs.within⟩
    unfold discardRequest
    split <;> rfl
  | erase s done rest r first count hs hd ho =>
    have hlog' := s.invalidateFilePages_log r first count
    show Spared s { Space.put _ _ with reserved := _ }
    generalize hs' : (s.invalidateFilePages r first count).mutation (.release r.base r.length) 0 = s'
    have hlog : (s'.drop r.file).log = dropEvents r.file ++ (.release r.base r.length, 0) :: s.log := by
      rw [drop_log, ← hs', ← hlog']
      rfl
    refine ⟨⟨dropEvents r.file ++ [(.release r.base r.length, 0)], ?_, fun e he q hq hqo => ?_⟩, fun q hq hqo => ?_⟩
    · exact hlog.trans (List.append_assoc _ [_] _).symm
    · rcases List.mem_append.1 he with he | he
      · exact spares_dropEvents _ e he
      · refine hone (fun q hq hqo => ?_) e he q hq hqo
        exact spares_other (hd q (mem_others hs ho hq hqo)) ⟨_, _, rfl, Nat.le_refl _, Nat.le_refl _⟩
    · exact ⟨q, mem_others hs ho hq hqo, .refl q⟩

/-- In a run, no call resets, releases or maps the addresses of a borrowed region. It stays, and only where it is
protectable do its permissions change. -/
theorem borrowed_stays (hr : machine.Reachable s) (hs : machine.Steps s s') : Spared s s' := by
  have hmoves : ∀ {a b}, Moves a b → HostAgrees a → HostAgrees b ∧ Spared a.1 b.1 := by
    intro a b hab h
    induction hab with
    | refl => exact ⟨h, .refl _⟩
    | tail _ hm ih => exact ⟨hostAgrees_move hm ih.1, ih.2.trans (spared_move hm ih.1)⟩
  exact (hmoves (steps_moves hr hs) (hostAgrees_reachable hr)).2

/-- Data of the host, whose permissions are then changed. -/
def sampleLent : Space := (sampleEmpty.perform (sampleFull 0) (.registerData 0x20000 0x1000 3)).2

def sampleReprotected : Space := (sampleLent.perform (sampleFull 0) (.mprotect 0x20000 0x1000 1)).2

theorem borrowed_stays_sample : Spared sampleLent sampleReprotected :=
  borrowed_stays (sampleEmpty_reachable.step ⟨_, _, sampleFull_fresh, rfl⟩) (.single ⟨_, _, sampleFull_fresh, rfl⟩)

/-- In every state the regions have no common address, `reserved` is what the owned ones have and within its limit,
each region knows its mapped pages, no guard page is mapped, no page with a write ceiling is writable, and a file page
is mapped and its region has the file. -/
theorem regions_accounted (hr : machine.Reachable s) :
    s.regions.Pairwise Region.Disjoint ∧ s.reserved = (s.regions.map weight).sum ∧ s.reserved ≤ s.limit ∧
      s.regions.length ≤ s.regionLimit ∧
      ∀ r ∈ s.regions, r.live = r.pages.countP (·.mapped) ∧
        (∀ n < r.guardBytes / s.pageSize, ∀ p, r.pages[n]? = some p → p.mapped = false) ∧
        ∀ p ∈ r.pages, (p.denyWrite = true → p.protection &&& 2 = 0) ∧
          (p.filePage = true → p.mapped = true ∧ r.file.isSome = true) := by
  have hs := reachable_good hr
  refine ⟨hs.disjoint, hs.reserved, hs.reserved_le, hs.count, fun r hmem => ?_⟩
  have hg := hs.regions r hmem
  exact ⟨hg.live, hg.guard_unmapped, fun p hp => ⟨hg.ceiling p hp, fun hf =>
    ⟨((watchesKept_reachable hr).filed r hmem).mapped p hp hf, hg.file p hp hf⟩⟩⟩

theorem regions_accounted_sample : sampleUnmapped.reserved = (sampleUnmapped.regions.map weight).sum :=
  (regions_accounted sampleUnmapped_reachable).2.1

end Space

end Artbox.Vm
