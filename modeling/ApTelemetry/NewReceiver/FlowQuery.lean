import Mathlib.Data.List.TakeWhile
import ApTelemetry.NewReceiver.Queries

namespace ApTelemetry.NewReceiver.Api
open Lib

/-- A record of `winsize_buffer` with its access point. -/
structure DataWinsizeProcessed where
  macAddr : String
  flow : Flow

structure Flowlist where
  flows : List Flow
  length : Nat

/-- `get_flows` over whole records. Its argument `ap` is not read. -/
def Ring.getFlows (_ap : String) (flowlists : Flowlist) (r : Ring DataWinsizeProcessed) :
    Except Fault (Ring DataWinsizeProcessed × Flowlist) := do
  let w ← r.read (fun x => lookFlow x.flow) [] r.cursor
  let flows ← blit flowlists.flows 0 w.found
  .ok ({ r with cursor := w.cursor, visited := w.visited }, ⟨flows, w.found.length⟩)

/-- The flows of the unread records of the access point. -/
def Ring.flowsOf (ap : String) (r : Ring DataWinsizeProcessed) : List Flow :=
  chosen (Query.ofAp DataWinsizeProcessed.macAddr ap) DataWinsizeProcessed.flow (r.unread r.cursor)

/-- Whatever stood in the caller's 40 entries: those up to the length are the different
flows of the access point in the order of their first occurrences. -/
def FlowsAnswer (ap : String) (r : Ring DataWinsizeProcessed) : Prop :=
  ∀ given : Flowlist, given.flows.length = 40 → ∃ t answer, r.getFlows ap given = .ok (t, answer) ∧
    answer.length = (r.flowsOf ap).eraseDups.length ∧
    answer.flows.take answer.length = (r.flowsOf ap).eraseDups

/-- All records in the window, without their numbers. -/
def Ring.shown (r : Ring DataWinsizeProcessed) : List DataWinsizeProcessed :=
  (r.window r.cursor).map Entry.record

theorem look_flow_collects {α : Type} (flow : α → Flow) :
    Collects 40 (fun _ => true) flow fun x => lookFlow (flow x) := by
  constructor
  · intro x found _
    rw [lookFlow]
    cases addNew 40 (flow x) found <;> rfl
  · intro x found hother
    cases hother

theorem ahead_all {α β : Type} (value : α → β) (es : List (Entry α)) :
    ahead (fun _ => true) value es = (es.map Entry.record).map value := by
  rw [ahead, List.takeWhile_eq_self_iff.mpr fun _ _ => rfl]

variable {r : Ring DataWinsizeProcessed}

/-- What a call answers when these flows are found. -/
def Flowlist.reply (given : Flowlist) (found : List Flow) : Flowlist :=
  ⟨found ++ given.flows.drop found.length, found.length⟩

theorem get_flows_iff (hstart : r.cursor.start < bufferStore) (ap : String) {given : Flowlist}
    (hgiven : given.flows.length = 40) {P : Flowlist → Prop} :
    (∃ t answer, r.getFlows ap given = .ok (t, answer) ∧ P answer) ↔
      (r.shown.map DataWinsizeProcessed.flow).toFinset.card ≤ 40 ∧
        P (given.reply (r.shown.map DataWinsizeProcessed.flow).eraseDups) := by
  rw [Ring.shown, ← ahead_all]
  refine (look_flow_collects _).read_then_iff hstart given.reply fun w hle => ?_
  rw [blit_front (by omega)]
  exact ⟨_, rfl⟩

/-- The flows shown are those of the access point exactly if its own records introduce
them, and none of its records is hidden. -/
theorem shown_flows_iff (r : Ring DataWinsizeProcessed) (ap : String) :
    (r.shown.map DataWinsizeProcessed.flow).eraseDups = (r.flowsOf ap).eraseDups ↔
      Introduced DataWinsizeProcessed.flow (Query.ofAp DataWinsizeProcessed.macAddr ap) []
        r.shown ∧
      (¬ Apart r.cursor r → r.flowsOf ap = []) := by
  rw [← fresh_filter_iff, fresh_nil, fresh_nil]
  by_cases hapart : Apart r.cursor r
  · have hflows : r.flowsOf ap =
        (r.shown.filter (Query.ofAp DataWinsizeProcessed.macAddr ap)).map
          DataWinsizeProcessed.flow := by
      rw [Ring.flowsOf, unread_apart hapart]
      rfl
    rw [hflows, and_iff_left fun h => absurd hapart h]
  · have hshown : r.shown = [] := by
      rw [Ring.shown, window_hidden hapart]
      rfl
    rw [hshown, imp_iff_right hapart, List.filter_nil, and_iff_right rfl]
    constructor
    · intro h
      rw [← List.toFinset_eq_empty_iff, ← eraseDups_toFinset, ← h]
      rfl
    · intro h
      rw [h]
      rfl

/-- `get_flows` answers exactly if the records shown have at most 40 different flows, each
new flow among them is the next new one of the access point's own records, and no record
of it is hidden. -/
theorem flows_answer_iff (hstart : r.cursor.start < bufferStore) (ap : String) :
    FlowsAnswer ap r ↔ (r.shown.map DataWinsizeProcessed.flow).toFinset.card ≤ 40 ∧
      Introduced DataWinsizeProcessed.flow (Query.ofAp DataWinsizeProcessed.macAddr ap) []
        r.shown ∧
      (¬ Apart r.cursor r → r.flowsOf ap = []) := by
  rw [← shown_flows_iff]
  constructor
  · intro h
    have hgiven : (⟨List.replicate 40 ⟨0, 0, 0, 0⟩, 0⟩ : Flowlist).flows.length = 40 :=
      List.length_replicate
    obtain ⟨hcard, -, htake⟩ := (get_flows_iff hstart ap hgiven).mp (h _ hgiven)
    refine ⟨hcard, ?_⟩
    rwa [Flowlist.reply, List.take_left] at htake
  · rintro ⟨hcard, hall⟩ given hgiven
    refine (get_flows_iff hstart ap hgiven).mpr ⟨hcard, congrArg List.length hall, ?_⟩
    rw [Flowlist.reply, List.take_left, hall]

/-- The same ring without the addresses. -/
def Ring.flowsOnly (r : Ring DataWinsizeProcessed) : Ring Flow where
  buffer j := ⟨(r.buffer j).number, (r.buffer j).record.flow⟩
  stop := r.stop
  cursor := r.cursor
  cursor1 := r.cursor1
  log := r.log.map fun e => ⟨e.number, e.record.flow⟩
  visited := r.visited.map fun e => ⟨e.number, e.record.flow⟩

/-- On it the getter of the run model finds the same flows. -/
theorem get_flows_only {s : State} (hs : s.winsize = r.flowsOnly)
    (hstart : r.cursor.start < bufferStore) (ap : String) {given : Flowlist}
    (hgiven : given.flows.length = 40) (found : List Flow) :
    (∃ t, Api.getFlows s = .ok (t, found)) ↔
      ∃ t answer, r.getFlows ap given = .ok (t, answer) ∧ answer = given.reply found := by
  have hwindow : ahead (fun _ => true) id (s.winsize.window s.winsize.cursor) =
      r.shown.map DataWinsizeProcessed.flow := by
    rw [ahead_all, hs, List.map_id]
    simp only [Ring.shown, Ring.window, Ring.flowsOnly, List.map_map]
    rfl
  have hindex : s.winsize.cursor.start < bufferStore := by rwa [hs]
  have honly : (∃ t flows, Api.getFlows s = .ok (t, flows) ∧ flows = found) ↔
      (r.shown.map DataWinsizeProcessed.flow).toFinset.card ≤ 40 ∧
        (r.shown.map DataWinsizeProcessed.flow).eraseDups = found := by
    rw [← hwindow]
    exact (look_flow_collects id).read_then_iff hindex id fun w _ => ⟨_, rfl⟩
  have hinj : ∀ xs : List Flow, given.reply xs = given.reply found ↔ xs = found := by
    intro xs
    refine ⟨fun h => ?_, congrArg given.reply⟩
    have hlength : xs.length = found.length := congrArg Flowlist.length h
    exact (List.append_inj (congrArg Flowlist.flows h) hlength).1
  rw [get_flows_iff hstart ap hgiven, hinj]
  refine Iff.trans ?_ honly
  constructor
  · rintro ⟨t, h⟩
    exact ⟨t, found, h, rfl⟩
  · rintro ⟨t, answer, h, rfl⟩
    exact ⟨t, h⟩

/-- Five records of two flows, of which the second access point has seen both. -/
def twoFlows : Ring DataWinsizeProcessed :=
  (((((emptyRing ⟨"", ⟨0, 0, 0, 0⟩⟩).push ⟨"other", ⟨1, 2, 3, 4⟩⟩).push ⟨"ap", ⟨1, 2, 3, 4⟩⟩).push
    ⟨"ap", ⟨2, 1, 4, 3⟩⟩).push ⟨"other", ⟨1, 2, 3, 4⟩⟩).push ⟨"ap", ⟨2, 1, 4, 3⟩⟩

theorem flows_answer_iff_two : FlowsAnswer "ap" twoFlows ∧
    (twoFlows.flowsOf "ap").eraseDups = [⟨1, 2, 3, 4⟩, ⟨2, 1, 4, 3⟩] := by
  have hapart : Apart twoFlows.cursor twoFlows := fun hfull => absurd hfull.1 (by decide)
  refine ⟨(flows_answer_iff buffer_store_pos "ap").mpr
    ⟨by decide, (fresh_filter_iff _ _ _ _).mp (by decide), fun h => absurd hapart h⟩, by decide⟩

/-- One flow of another access point. -/
def foreign : Ring DataWinsizeProcessed :=
  (emptyRing ⟨"", ⟨0, 0, 0, 0⟩⟩).push ⟨"other", ⟨1, 2, 3, 4⟩⟩

/-- It is returned for every access point. -/
theorem foreign_flow : ¬ ∀ (r : Ring DataWinsizeProcessed) ap,
    r.cursor.start < bufferStore → FlowsAnswer ap r := by
  intro h
  have hgood := h foreign "ap" buffer_store_pos
  obtain ⟨-, hintroduced, -⟩ := (flows_answer_iff buffer_store_pos "ap").mp hgood
  have hfirst := hintroduced [] ⟨"other", ⟨1, 2, 3, 4⟩⟩ [] rfl (by simp)
  cases hfirst

end ApTelemetry.NewReceiver.Api
