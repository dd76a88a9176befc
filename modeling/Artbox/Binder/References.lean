import Artbox.Binder.Handling
import Artbox.Binder.Runs

/-!
# Reference accounting

In every reachable state the object tables add up, and as long as an endpoint has a
handle it denotes the same node.
-/

namespace Artbox.Binder

open Slots Objects

theorem Device.Reachable.accounts {d : Device} (h : d.Reachable) : Accounts d := by
  refine h.inv_of (J := fun d => d.Reachable) (fun _ h => h) (fun d hi => ?_) fun _ _ hr ha hs =>
    ha.handled (hs.handling ha hr.endpointIds hr.queueIds hr.callInv hr.parcelInv)
  obtain ⟨_, _, _, ho, _, _, _, hm⟩ := machine_init hi
  have hinv : ({} : Objects).Inv := by
    refine ⟨⟨⟨.nil, .nil, ?_, ?_, ?_, ?_⟩, ⟨.nil, ?_, by decide, ?_, ?_, ?_⟩, by decide⟩, ?_⟩ <;> simp
  refine ⟨ho ▸ hinv, by simp [ho], ⟨by simp [hm, ho], fun h0 => absurd hm h0, fun h0 => absurd hm h0, ?_⟩⟩
  intro id n hn
  rw [ho] at hn
  cases hn

theorem Device.Reachable.handling {d d' : Device} (h : d.Reachable) (hs : Step d d') : Handling d d' :=
  hs.handling h.accounts h.endpointIds h.queueIds h.callInv h.parcelInv

/-- No step changes what a handle denotes that is there before and after. -/
theorem Handling.stable {d d' : Device} (ha : Accounts d) (h : Handling d d') :
    Stable d.objects d'.objects := by
  cases h with
  | quiet _ hq => exact hq.stable
  | accept _ _ _ _ _ _ hm => exact hm.stable
  | deliver _ _ _ _ _ ho => exact .of_eq ha.objects.tables (by rw [ho])
  | free _ _ _ hm => exact hm.stable
  | drop _ _ _ _ hq => exact hq.stable
  | register _ _ _ _ _ _ _ _ _ _ _ _ hrefs => exact .of_eq ha.objects.tables hrefs
  | done _ _ _ _ _ hm => exact hm.stable
  | command _ _ _ _ _ _ _ hm => exact hm.stable
  | retire _ hr ho =>
    rw [ho]
    split
    · exact hr.stable
    · exact hr.stable

/-- Steps during which the endpoint has the handle. -/
def StepsHolding (k handle : Nat) : Device → Device → Prop :=
  Relation.ReflTransGen fun d d' => Step d d' ∧ (d'.objects.referenceFor k handle).isSome = true

theorem StepsHolding.reachable {k handle : Nat} {d d' : Device} (hs : StepsHolding k handle d d')
    (h : d.Reachable) : d'.Reachable := by
  induction hs with
  | refl => exact h
  | tail _ hstep ih => exact ih.step hstep.1

theorem StepsHolding.node {k handle : Nat} {d d' : Device} (hs : StepsHolding k handle d d')
    (h : d.Reachable) (hk : k ≠ 0) {r : Reference} (hr : d.objects.referenceFor k handle = some r) :
    ∃ r', d'.objects.referenceFor k handle = some r' ∧ r'.node = r.node := by
  induction hs with
  | refl => exact ⟨r, hr, rfl⟩
  | @tail d₁ d₂ hs₁ hstep ih =>
    obtain ⟨r₁, hr₁, hn₁⟩ := ih
    obtain ⟨r₂, hr₂⟩ := Option.isSome_iff_exists.1 hstep.2
    have h₁ : d₁.Reachable := StepsHolding.reachable hs₁ h
    have hstable := (h₁.handling hstep.1).stable h₁.accounts
    obtain ⟨hmem₁, hk₁, hh₁⟩ := referenceFor_spec hr₁
    obtain ⟨hmem₂, hk₂, hh₂⟩ := referenceFor_spec hr₂
    have hkey : r₂.SameKey r₁ := ⟨hk₂.trans hk₁.symm, hh₂.trans hh₁.symm⟩
    exact ⟨r₂, hr₂, (hstable r₁ hmem₁ r₂ hmem₂ (hk₁ ▸ hk) hkey).trans hn₁⟩

/-- A free slot of the node table is in no use. -/
theorem Objects.Inv.occupied_iff {o : Objects} (h : o.Inv) {n : Node} (hn : n ∈ o.nodes) :
    n.id ≠ 0 ↔ o.inUse n = true := by
  refine ⟨h.collected n hn, fun hu h0 => ?_⟩
  rw [h.nodes.blank n hn h0] at hu
  have href : ∀ r ∈ o.references, r.endpoint ≠ 0 → r.node ≠ 0 := by
    intro r hr hr0
    obtain ⟨x, hx, _⟩ := h.nodes.referred r hr hr0
    exact (nodeFor_spec hx).2.2
  have hclaim : ∀ c ∈ o.claims, c.endpoint ≠ 0 → c.node ≠ 0 := by
    intro c hc hc0
    obtain ⟨x, hx, _⟩ := h.nodes.claimed c hc hc0
    exact (nodeFor_spec hx).2.2
  simp only [inUse, strongUse, weakUse, Bool.or_eq_true, List.any_eq_true, Bool.and_eq_true,
    bne_iff_ne, beq_iff_eq] at hu
  rcases hu with (hu | (hu | ⟨r, hr, hu⟩) | ⟨c, hc, hu⟩) | (hu | ⟨r, hr, hu⟩) | (hu | ⟨r, hr, hu⟩) |
    ⟨c, hc, hu⟩
  · simp at hu
  · simp at hu
  · exact href r hr hu.1.1 hu.1.2
  · exact hclaim c hc hu.1.1 hu.1.2
  · simp at hu
  · exact href r hr hu.1 hu.2
  · simp at hu
  · exact href r hr hu.1.1 hu.1.2
  · exact hclaim c hc hu.1.1 hu.1.2

/-- In every reachable state handles and referenced nodes are unique for each endpoint,
every reference is counted, to a foreign node, and held as often as remote claims say,
every claim belongs to a buffer that is there, references and claims name occupied node
slots, and a node slot is occupied exactly if the node is announced or used. Along any
steps that keep it a handle denotes one node. -/
theorem references_account {d : Device} (h : d.Reachable) :
    Unique (fun r : Reference => r.endpoint ≠ 0) (fun r => (r.endpoint, r.handle))
        d.objects.references ∧
      Unique (fun r : Reference => r.endpoint ≠ 0) (fun r => (r.endpoint, r.node))
        d.objects.references ∧
      (∀ r ∈ d.objects.references, r.endpoint ≠ 0 →
        ¬ (r.strong = 0 ∧ r.weak = 0 ∧ r.temporaryStrong = 0) ∧
        r.temporaryStrong = d.objects.claims.countP (fun c =>
          c.endpoint == r.endpoint && c.node == r.node && c.remote) ∧
        ∃ n ∈ d.objects.nodes, n.id ≠ 0 ∧ n.id = r.node ∧ n.owner ≠ r.endpoint) ∧
      (∀ c ∈ d.objects.claims, c.endpoint ≠ 0 → d.bufferState c.endpoint c.buffer ≠ none ∧
        ∃ n ∈ d.objects.nodes, n.id ≠ 0 ∧ n.id = c.node) ∧
      (∀ n ∈ d.objects.nodes, n.id ≠ 0 ↔ d.objects.inUse n = true) ∧
      ∀ (k handle : Nat) (r : Reference) (d' : Device), k ≠ 0 →
        d.objects.referenceFor k handle = some r → StepsHolding k handle d d' →
          ∃ r', d'.objects.referenceFor k handle = some r' ∧ r'.node = r.node := by
  have ha := h.accounts
  refine ⟨ha.objects.tables.handles, ha.objects.tables.targets, fun r hr h0 => ?_, fun c hc h0 => ?_,
    fun n hn => ha.objects.occupied_iff hn, fun k handle r d' hk hr hs => hs.node h hk hr⟩
  · obtain ⟨n, hn, how⟩ := ha.objects.nodes.referred r hr h0
    obtain ⟨hmem, hid, hn0⟩ := nodeFor_spec hn
    exact ⟨ha.objects.tables.counted r hr h0, ha.objects.tables.held r hr h0, n, hmem,
      hid ▸ hn0, hid, how⟩
  · obtain ⟨n, hn, _⟩ := ha.objects.nodes.claimed c hc h0
    obtain ⟨hmem, hid, hn0⟩ := nodeFor_spec hn
    exact ⟨ha.buffers c hc h0, n, hmem, hid ▸ hn0, hid⟩

/-- The client's thread `2` sends an object of its own to the manager, whose looper
thread `1` reads the call. -/
def exportScript : Script :=
  [(2, 256, Header.bytes ⟨68, 0, 512, 0, 0, 0⟩),
    (2, 512, packetBytes .transaction 0 0 24 8 1024 2048), (2, 1024, objectBytes .binder 77 78),
    (2, 2048, Bytes.writeLE 8 0),
    (1, 256, Header.bytes ⟨4, 0, 512, 256, 0, 8192⟩), (1, 512, Bytes.writeLE 4 BC.enterLooper.word)]

def exportCalls : List Call := [.writeRead 2 2 256, .writeRead 1 1 256]

/-- The manager holds the object by one reference, which its buffer counts once. -/
theorem export_accounts : (replay exportScript exportCalls).objects.references =
    [⟨1, 2, 2, 1, 0, 0, 1, 0⟩] ∧
      Unique (fun r : Reference => r.endpoint ≠ 0) (fun r => (r.endpoint, r.node))
        (replay exportScript exportCalls).objects.references :=
  ⟨by decide +kernel, (references_account (replay_reachable exportScript exportCalls)).2.1⟩

end Artbox.Binder
