import Artbox.Vfs.Interests
import Artbox.Lib.Rounds

/-!
# The fairness of epoll

`epoll_scan` as a function of an epoll object, whose body (`Epoll.pass`) is a pass of the scanning
call of the table. The interests are a ring that the scan walks from the cursor: while readiness
does not change, a scan serves the first that are ready and puts them behind the others, so as
many scans as it takes to go round serve them all.
-/

namespace Artbox.Vfs

open Rounds

/-- The events that are copied out for an interest, by what its query yields. -/
def Interest.report (i : Interest) (ready : Int) : BitVec 32 := BitVec.ofInt 32 ready &&& (i.events ||| 0x18)

/-- What `epoll_scan` returns, what it has copied out and the object behind it. -/
structure Scanned where
  result : Int
  reports : List (Interest × BitVec 32)
  epoll : Epoll
deriving DecidableEq

namespace Epoll

/-- The end of `epoll_scan`. -/
def stop (epoll : Epoll) (index : Nat) : Epoll :=
  { epoll with cursor := if epoll.interests = [] then 0 else index % epoll.interests.length }

/-- The body of the loop of `epoll_scan`, which returns from the scan or goes on: the object, the
index and what is copied out. -/
def pass (ask : Interest → Int) (write : Int) (epoll : Epoll) (index copied : Nat) :
    Except Int (Epoll × Nat × List (Interest × BitVec 32)) :=
  let index := index % epoll.interests.length
  match epoll.interests[index]? with
  | none => .error 0
  | some interest =>
    let ready := ask interest
    if ready = -9 then .ok ({ epoll with interests := epoll.interests.eraseIdx index }, index, [])
    else if ready < 0 then .error (if copied ≠ 0 then copied else ready)
    else if interest.report ready ≠ 0 then
      if write ≠ 0 then .error (if copied ≠ 0 then copied else write)
      else .ok (epoll, index + 1, [(interest, interest.report ready)])
    else .ok (epoll, index + 1, [])

/-- The loop of `epoll_scan`; `write` are the results of the copies. -/
def scanLoop (ask : Interest → Int) (write : Nat → Int) (maximum : Nat) : (remaining index : Nat) → Epoll →
    List (Interest × BitVec 32) → Scanned
  | 0, index, epoll, reports => ⟨reports.length, reports, epoll.stop index⟩
  | remaining + 1, index, epoll, reports =>
    if epoll.interests = [] ∨ maximum ≤ reports.length then ⟨reports.length, reports, epoll.stop index⟩
    else
      match epoll.pass ask (write reports.length) index reports.length with
      | .error result => ⟨result, reports, epoll⟩
      | .ok (epoll, index, report) => scanLoop ask write maximum remaining index epoll (reports ++ report)

/-- `epoll_scan` -/
def scan (ask : Interest → Int) (write : Nat → Int) (maximum : Nat) (epoll : Epoll) : Scanned :=
  scanLoop ask write maximum epoll.interests.length epoll.cursor epoll []

/-- The object after scans. -/
def after (ask : Interest → Int) (write : Nat → Int) (maximum : Nat) (epoll : Epoll) : (scans : Nat) → Epoll
  | 0 => epoll
  | scans + 1 => ((after ask write maximum epoll scans).scan ask write maximum).epoll

end Epoll

/-! ## A pass of the scanning call -/

namespace System

/-- The table after the query of the interest at the cursor. -/
def probed (s : System) (epoll : Epoll) (index : Nat) (caller : Caller) (env : Env) : System :=
  match epoll.interests[index % epoll.interests.length]? with
  | none => s
  | some interest => (s.interestEvents interest.target caller env).2

/-- A pass of the scanning call is the body of the loop, with the answers that the table gives. -/
theorem scan_eq {s : System} {call : Call} {ep maximum index remaining copied : Nat} {timeout : Int} {env : Env}
    {epoll : Epoll} (h : s.epolls[ep]? = some epoll) :
    s.scan call ep maximum timeout index remaining copied env =
      if remaining = 0 ∨ epoll.interests = [] ∨ maximum ≤ copied then
        (s.setEpoll ep (epoll.stop index)).endScan call timeout copied env
      else
        match epoll.pass (fun i => (s.interestEvents i.target call.caller env).1) env.write index copied with
        | .error result => (s.probed epoll index call.caller env).endScan call timeout result env
        | .ok (epoll', index', report) =>
          (((s.probed epoll index call.caller env).setEpoll ep epoll').record
            (report.map fun r => .reported ep r.1 r.2)).setPhase call.id
              (.scanning index' (remaining - 1) (copied + report.length)) := by
  unfold scan
  rw [h]
  show (if _ then _ else _) = _
  by_cases hend : remaining = 0 ∨ epoll.interests = [] ∨ maximum ≤ copied
  · rw [if_pos hend, if_pos hend]
    rfl
  rw [if_neg hend, if_neg hend]
  have hlt : index % epoll.interests.length < epoll.interests.length :=
    Nat.mod_lt _ (List.length_pos_iff.2 fun hnil => hend (.inr (.inl hnil)))
  obtain ⟨interest, hget⟩ : ∃ i, epoll.interests[index % epoll.interests.length]? = some i :=
    ⟨_, List.getElem?_eq_getElem hlt⟩
  unfold Epoll.pass probed
  dsimp only
  rw [hget]
  have hepoll : (s.interestEvents interest.target call.caller env).2.epolls[ep]? = some epoll := by
    rw [epolls_interestEvents]
    exact h
  dsimp only
  generalize s.interestEvents interest.target call.caller env = r at hepoll ⊢
  have hsame : r.2.setEpoll ep epoll = r.2 := by
    unfold setEpoll
    obtain ⟨hep, hget⟩ := List.getElem?_eq_some_iff.1 hepoll
    rw [← hget, List.set_getElem_self]
  by_cases hdead : r.1 = -9
  · rw [if_pos hdead, if_pos hdead]
    rfl
  rw [if_neg hdead, if_neg hdead]
  by_cases herror : r.1 < 0
  · rw [if_pos herror, if_pos herror]
  rw [if_neg herror, if_neg herror]
  unfold Interest.report
  by_cases hevents : BitVec.ofInt 32 r.1 &&& (interest.events ||| 0x18) ≠ 0
  · rw [if_pos hevents, if_pos hevents]
    by_cases hwrite : env.write ≠ 0
    · rw [if_pos hwrite, if_pos hwrite]
    · rw [if_neg hwrite, if_neg hwrite]
      show _ = ((r.2.setEpoll ep epoll).record _).setPhase _ _
      rw [hsame]
      rfl
  · rw [if_neg hevents, if_neg hevents]
    show _ = ((r.2.setEpoll ep epoll).record _).setPhase _ _
    rw [hsame]
    rfl

end System

/-! ## One scan -/

/-- The interest's target is not gone. -/
def Live (ask : Interest → Int) (i : Interest) : Prop := ask i ≠ -9

/-- The interest has events to report. -/
def Ready (ask : Interest → Int) (i : Interest) : Prop := Live ask i ∧ i.report (ask i) ≠ 0

instance (ask : Interest → Int) (i : Interest) : Decidable (Live ask i) := inferInstanceAs (Decidable (_ ≠ _))

instance (ask : Interest → Int) (i : Interest) : Decidable (Ready ask i) := inferInstanceAs (Decidable (_ ∧ _))

/-- Each query yields events or says that the target is gone. -/
def Steady (ask : Interest → Int) (l : List Interest) : Prop := ∀ i ∈ l, ask i = -9 ∨ 0 ≤ ask i

/-- What a scan copies out for an interest. -/
def reported (ask : Interest → Int) (i : Interest) : Interest × BitVec 32 := (i, i.report (ask i))

/-- The walk from the cursor. -/
def Epoll.ring (epoll : Epoll) : List Interest := epoll.interests.rotate epoll.cursor

/-- The cursor is the index of an interest, or zero if there is none. -/
def Epoll.Valid (epoll : Epoll) : Prop :=
  epoll.cursor < epoll.interests.length ∨ (epoll.interests = [] ∧ epoll.cursor = 0)

/-- A scan walks over a first part of the ring, reports what is ready in it, erases what is gone
from it and puts the others behind the rest. -/
structure Walked (ask : Interest → Int) (maximum : Nat) (epoll : Epoll) (r : Scanned) : Prop where
  walk : ∃ passed rest, epoll.ring = passed ++ rest ∧
    r.reports = (passed.filter (Ready ask)).map (reported ask) ∧
      r.epoll.ring = rest ++ passed.filter (Live ask) ∧ (rest = [] ∨ r.reports.length = maximum)
  result : r.result = r.reports.length
  bounded : r.reports.length ≤ maximum
  kept : r.epoll.interests.Sublist epoll.interests
  cursor : r.epoll.Valid

namespace Epoll

variable {ask : Interest → Int} {write : Nat → Int} {maximum : Nat}

theorem stop_valid (epoll : Epoll) (index : Nat) : (epoll.stop index).Valid := by
  unfold Valid stop
  by_cases h : epoll.interests = []
  · exact .inr ⟨h, if_pos h⟩
  · left
    show (if epoll.interests = [] then 0 else _) < epoll.interests.length
    rw [if_neg h]
    exact Nat.mod_lt _ (List.length_pos_iff.2 h)

theorem stop_ring (epoll : Epoll) (index : Nat) : (epoll.stop index).ring = epoll.interests.rotate index := by
  unfold ring stop
  by_cases h : epoll.interests = []
  · rw [h]
    rfl
  · show epoll.interests.rotate (if epoll.interests = [] then 0 else _) = _
    rw [if_neg h, List.rotate_mod]

/-- A pass over a target that is gone. -/
theorem pass_dead {epoll : Epoll} {index copied : Nat} {i : Interest} {error : Int}
    (hi : epoll.interests[index % epoll.interests.length]? = some i) (hdead : ¬ Live ask i) :
    epoll.pass ask error index copied =
      .ok ({ epoll with interests := epoll.interests.eraseIdx (index % epoll.interests.length) },
        index % epoll.interests.length, []) := by
  unfold pass
  dsimp only
  rw [hi]
  exact if_pos (not_not.1 hdead)

/-- A pass over a target that is there. -/
theorem pass_live {epoll : Epoll} {index copied : Nat} {i : Interest}
    (hi : epoll.interests[index % epoll.interests.length]? = some i) (hlive : Live ask i) (hask : 0 ≤ ask i) :
    epoll.pass ask 0 index copied =
      .ok (epoll, index % epoll.interests.length + 1, if Ready ask i then [reported ask i] else []) := by
  unfold pass
  dsimp only
  rw [hi]
  show (if ask i = -9 then _ else _) = _
  rw [if_neg hlive, if_neg (Int.not_lt.2 hask)]
  by_cases hready : Ready ask i
  · rw [if_pos hready, if_pos hready.2]
    rfl
  · rw [if_neg hready, if_neg fun h => hready ⟨hlive, h⟩]

/-- The loop from any point of the walk: `visited` are the interests it has put behind. -/
theorem scanLoop_walk (hwrite : ∀ k, write k = 0) {remaining index : Nat} {epoll : Epoll}
    {reports : List (Interest × BitVec 32)} {unvisited visited : List Interest}
    (hsteady : Steady ask unvisited) (hring : epoll.interests.rotate index = unvisited ++ visited)
    (hremaining : unvisited.length = remaining) (hcopied : reports.length ≤ maximum) :
    let r := scanLoop ask write maximum remaining index epoll reports
    (∃ passed rest, unvisited = passed ++ rest ∧
      r.reports = reports ++ (passed.filter (Ready ask)).map (reported ask) ∧
        r.epoll.ring = rest ++ (visited ++ passed.filter (Live ask)) ∧ (rest = [] ∨ r.reports.length = maximum)) ∧
      r.result = r.reports.length ∧ r.reports.length ≤ maximum ∧
        r.epoll.interests.Sublist epoll.interests ∧ r.epoll.Valid := by
  induction remaining generalizing index epoll reports unvisited visited with
  | zero =>
    obtain rfl := List.eq_nil_of_length_eq_zero hremaining
    refine ⟨⟨[], [], rfl, by simp [scanLoop], ?_, .inl rfl⟩, rfl, hcopied, List.Sublist.refl _, stop_valid ..⟩
    show (epoll.stop index).ring = _
    rw [stop_ring, hring]
    simp
  | succ remaining ih =>
    unfold scanLoop
    by_cases hend : epoll.interests = [] ∨ maximum ≤ reports.length
    · rw [if_pos hend]
      refine ⟨⟨[], unvisited, rfl, by simp, ?_, ?_⟩, rfl, hcopied, List.Sublist.refl _, stop_valid ..⟩
      · show (epoll.stop index).ring = _
        rw [stop_ring, hring]
        simp
      · rcases hend with hnil | hfull
        · rw [hnil, List.rotate_nil] at hring
          exact .inl (List.append_eq_nil_iff.1 hring.symm).1
        · exact .inr (Nat.le_antisymm hcopied hfull)
    · rw [if_neg hend]
      have hlt : index % epoll.interests.length < epoll.interests.length :=
        Nat.mod_lt _ (List.length_pos_iff.2 fun hnil => hend (.inl hnil))
      obtain ⟨behind, hhere, hover, herase⟩ := step_around (List.getElem?_eq_getElem hlt)
      have hi := List.getElem?_eq_getElem hlt
      generalize epoll.interests[index % epoll.interests.length] = i at hhere hover hi
      -- the first that is not visited is at the cursor
      rw [List.rotate_mod, hring] at hhere
      cases unvisited with
      | nil => cases hremaining
      | cons i' unvisited =>
        obtain ⟨rfl, rfl⟩ := List.cons.inj hhere
        have hrest : Steady ask unvisited := fun j hj => hsteady j (List.mem_cons_of_mem _ hj)
        have hlength : unvisited.length = remaining := Nat.succ.inj hremaining
        by_cases hlive : Live ask i'
        · have hask : 0 ≤ ask i' := (hsteady i' List.mem_cons_self).resolve_left hlive
          have hsame : (epoll.interests.rotate (index % epoll.interests.length + 1)) =
              unvisited ++ (visited ++ [i']) :=
            hover.trans (List.append_assoc unvisited visited [i'])
          rw [hwrite, pass_live hi hlive hask]
          have hroom : (reports ++ if Ready ask i' then [reported ask i'] else []).length ≤ maximum := by
            have hmore : ¬ maximum ≤ reports.length := fun hfull => hend (.inr hfull)
            split
            · rw [List.length_append, List.length_singleton]
              omega
            · simpa using hcopied
          obtain ⟨⟨passed, rest, hsplit, hreports, hbehind, hstop⟩, hr⟩ := ih hrest hsame hlength hroom
          refine ⟨⟨i' :: passed, rest, by rw [hsplit]; rfl, ?_, ?_, hstop⟩, hr⟩
          · rw [hreports, List.filter_cons]
            by_cases hready : Ready ask i' <;> simp [hready]
          · rw [hbehind, List.filter_cons, if_pos (decide_eq_true hlive)]
            simp
        · rw [pass_dead hi hlive]
          have hroom : (reports ++ []).length ≤ maximum := by simpa using hcopied
          have hring' : ({ epoll with interests := epoll.interests.eraseIdx (index % epoll.interests.length) } :
              Epoll).interests.rotate (index % epoll.interests.length) = unvisited ++ visited := herase
          obtain ⟨⟨passed, rest, hsplit, hreports, hbehind, hstop⟩, hresult, hbounded, hkept, hvalid⟩ :=
            ih hrest hring' hlength hroom
          have hnot : ¬ Ready ask i' := fun hready => hlive hready.1
          refine ⟨⟨i' :: passed, rest, by rw [hsplit]; rfl, ?_, ?_, hstop⟩, hresult, hbounded,
            hkept.trans (List.eraseIdx_sublist ..), hvalid⟩
          · rw [hreports, List.filter_cons, if_neg (by simpa using hnot), List.append_nil]
          · rw [hbehind, List.filter_cons, if_neg (by simpa using hlive)]

theorem scan_walked (hwrite : ∀ k, write k = 0) {epoll : Epoll} (hsteady : Steady ask epoll.interests) :
    Walked ask maximum epoll (epoll.scan ask write maximum) := by
  have hring : epoll.interests.rotate epoll.cursor = epoll.ring ++ [] := (List.append_nil _).symm
  have hlength : epoll.ring.length = epoll.interests.length := List.length_rotate ..
  have hall : Steady ask epoll.ring := fun i hi => hsteady i (List.mem_rotate.1 hi)
  have hempty : ([] : List (Interest × BitVec 32)).length ≤ maximum := Nat.zero_le maximum
  obtain ⟨⟨passed, rest, hsplit, hreports, hbehind, hstop⟩, hresult, hbounded, hkept, hvalid⟩ :=
    scanLoop_walk hwrite hall hring hlength hempty
  exact ⟨⟨passed, rest, hsplit, hreports, hbehind, hstop⟩, hresult, hbounded, hkept, hvalid⟩

end Epoll

/-! ## Scan after scan -/

/-- What is ready, in the order of the walk. -/
def waiting (ask : Interest → Int) (epoll : Epoll) : List Interest := epoll.ring.filter (Ready ask)

section Scans

variable {ask : Interest → Int} {write : Nat → Int} {maximum : Nat} {epoll : Epoll}

/-- A scan serves the first that are ready and puts them behind the others. -/
theorem Walked.served {r : Scanned} (h : Walked ask maximum epoll r) :
    r.reports = ((waiting ask epoll).take maximum).map (reported ask) ∧
      waiting ask r.epoll = (waiting ask epoll).drop maximum ++ (waiting ask epoll).take maximum := by
  obtain ⟨passed, rest, hring, hreports, hbehind, hstop⟩ := h.walk
  have hlength : r.reports.length = (passed.filter (Ready ask)).length := by rw [hreports, List.length_map]
  have hbounded := h.bounded
  have hwaiting : waiting ask epoll = passed.filter (Ready ask) ++ rest.filter (Ready ask) := by
    unfold waiting
    rw [hring, List.filter_append]
  -- the served are the first part, and whoever is left waits in the rest
  have hcut : (waiting ask epoll).take maximum = passed.filter (Ready ask) ∧
      (waiting ask epoll).drop maximum = rest.filter (Ready ask) := by
    rw [hwaiting]
    rcases hstop with rfl | hfull
    · rw [List.filter_nil, List.append_nil, List.take_of_length_le (by omega), List.drop_of_length_le (by omega)]
      exact ⟨rfl, rfl⟩
    · have hmaximum : (passed.filter (Ready ask)).length = maximum := by omega
      exact ⟨List.take_left' hmaximum, List.drop_left' hmaximum⟩
  refine ⟨by rw [hcut.1, hreports], ?_⟩
  unfold waiting at hcut ⊢
  rw [hcut.1, hcut.2, hbehind, List.filter_append, List.filter_filter]
  refine congrArg _ (List.filter_congr fun i _ => ?_)
  rw [Bool.eq_iff_iff, Bool.and_eq_true, decide_eq_true_iff, decide_eq_true_iff]
  exact ⟨fun h => h.1, fun h => ⟨h, h.1⟩⟩

theorem Walked.distinct {r : Scanned} (h : Walked ask maximum epoll r) (hnodup : epoll.interests.Nodup) :
    (r.reports.map Prod.fst).Nodup := by
  have hring : epoll.ring.Nodup := List.nodup_rotate.2 hnodup
  rw [h.served.1, List.map_map]
  refine (List.map_id _).symm ▸ ?_
  exact (List.take_sublist ..).nodup (hring.filter _)

theorem Walked.steady {r : Scanned} (h : Walked ask maximum epoll r) (hsteady : Steady ask epoll.interests) :
    Steady ask r.epoll.interests := fun i hi => hsteady i (h.kept.subset hi)

theorem after_steady (hwrite : ∀ k, write k = 0) (hsteady : Steady ask epoll.interests) (scans : Nat) :
    Steady ask (epoll.after ask write maximum scans).interests := by
  induction scans with
  | zero => exact hsteady
  | succ scans ih => exact (Epoll.scan_walked hwrite ih).steady ih

theorem after_add (scans more : Nat) : (epoll.after ask write maximum scans).after ask write maximum more =
    epoll.after ask write maximum (scans + more) := by
  induction more with
  | zero => rfl
  | succ more ih => exact congrArg (fun e : Epoll => (e.scan ask write maximum).epoll) ih

/-- Whom so many turns serve is reported by one of the scans. -/
theorem reported_of_served (hwrite : ∀ k, write k = 0) {turns : Nat} (hsteady : Steady ask epoll.interests)
    {i : Interest} (hi : i ∈ Rounds.served maximum turns (waiting ask epoll)) :
    ∃ k < turns, reported ask i ∈ ((epoll.after ask write maximum k).scan ask write maximum).reports := by
  induction turns generalizing epoll with
  | zero => cases hi
  | succ turns ih =>
    have hwalked : Walked ask maximum epoll (epoll.scan ask write maximum) := Epoll.scan_walked hwrite hsteady
    obtain ⟨hreports, hnext⟩ := hwalked.served
    rcases List.mem_append.1 hi with hi | hi
    · refine ⟨0, Nat.succ_pos _, ?_⟩
      show _ ∈ (epoll.scan ask write maximum).reports
      rw [hreports]
      exact List.mem_map.2 ⟨i, hi, rfl⟩
    · rw [← hnext] at hi
      obtain ⟨k, hk, hreported⟩ := ih (hwalked.steady hsteady) hi
      refine ⟨k + 1, Nat.succ_lt_succ hk, ?_⟩
      rwa [show (epoll.scan ask write maximum).epoll = epoll.after ask write maximum 1 from rfl, after_add,
        Nat.add_comm 1 k] at hreported

/-- Every epoll object is served fairly while readiness does not change: each scan walks on from
the last, and whatever is ready before some scan is reported by as many scans from there on as
it takes to report all interests. -/
theorem epoll_scan_fair (hmaximum : 0 < maximum) (hsteady : Steady ask epoll.interests)
    (hwrite : ∀ k, write k = 0) :
    (∀ k, Walked ask maximum (epoll.after ask write maximum k)
      ((epoll.after ask write maximum k).scan ask write maximum)) ∧
      (∀ k, (epoll.after ask write maximum k).interests.Nodup →
        (((epoll.after ask write maximum k).scan ask write maximum).reports.map Prod.fst).Nodup) ∧
      ∀ j, ∀ i ∈ (epoll.after ask write maximum j).interests, Ready ask i →
        ∃ k < ((epoll.after ask write maximum j).interests.length + maximum - 1) / maximum,
          reported ask i ∈ ((epoll.after ask write maximum (j + k)).scan ask write maximum).reports := by
  have hwalked : ∀ k, Walked ask maximum (epoll.after ask write maximum k)
      ((epoll.after ask write maximum k).scan ask write maximum) := fun k =>
    Epoll.scan_walked hwrite (after_steady hwrite hsteady k)
  refine ⟨hwalked, fun k hnodup => (hwalked k).distinct hnodup, fun j i hi hready => ?_⟩
  have hwaits : i ∈ waiting ask (epoll.after ask write maximum j) :=
    List.mem_filter.2 ⟨List.mem_rotate.2 hi, decide_eq_true hready⟩
  have hle : (waiting ask (epoll.after ask write maximum j)).length ≤
      (epoll.after ask write maximum j).interests.length :=
    Nat.le_trans (List.length_filter_le ..) (Nat.le_of_eq (List.length_rotate ..))
  generalize hn : (epoll.after ask write maximum j).interests.length = n at hle ⊢
  have hturns : n ≤ (n + maximum - 1) / maximum * maximum := by
    have hmod := Nat.div_add_mod (n + maximum - 1) maximum
    have hlt := Nat.mod_lt (n + maximum - 1) hmaximum
    rw [Nat.mul_comm] at hmod
    omega
  have hserved := sublist_served [] (Nat.le_trans hle hturns)
  rw [List.append_nil] at hserved
  obtain ⟨k, hk, hreported⟩ := reported_of_served hwrite (after_steady hwrite hsteady j) (hserved.subset hwaits)
  rw [after_add] at hreported
  exact ⟨k, hk, hreported⟩

end Scans

/-- Three interests at a cursor behind them; the target of the second is gone. -/
def sampleEpoll : Epoll where
  vm := 0
  cursor := 7
  interests := [⟨3, 1, 10, {}⟩, ⟨4, 1, 20, {}⟩, ⟨5, 1, 30, {}⟩]

/-- The answers for them. -/
def sampleAsk (i : Interest) : Int := if i.fd = 4 then -9 else 1

theorem epoll_scan_fair_sample : ∃ k < 3, reported sampleAsk ⟨3, 1, 10, {}⟩ ∈
    ((sampleEpoll.after sampleAsk (fun _ => 0) 1 (0 + k)).scan sampleAsk (fun _ => 0) 1).reports := by
  have hsteady : Steady sampleAsk sampleEpoll.interests := by
    intro i _
    unfold sampleAsk
    split
    · exact .inl rfl
    · exact .inr (by decide)
  exact (epoll_scan_fair Nat.one_pos hsteady fun _ => rfl).2.2 0 ⟨3, 1, 10, {}⟩ (by decide) (by decide)

end Artbox.Vfs
