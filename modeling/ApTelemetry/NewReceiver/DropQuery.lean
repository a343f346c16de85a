import ApTelemetry.NewReceiver.Queries

namespace ApTelemetry.NewReceiver.Api
open Lib

/-- `struct flow_drop_ap`, with the drops of a flow beside it. -/
structure FlowDropAp where
  flowinfo : List (Flow × Nat)
  dropsTotal : Nat
  length : Nat

/-- `get_flow_drops` with what it stores in the caller's structure. -/
def storeFlowDrops (ap : String) (flowDrops : FlowDropAp) (s : State) :
    Except Fault (State × FlowDropAp) := do
  let (s, d) ← getFlowDrops ap s
  let flowinfo ← blit flowDrops.flowinfo 0 d.macList
  .ok (s, ⟨flowinfo, d.totalDrops, d.macList.length⟩)

/-- The flows of the unread records of the access point, one for each packet dropped. -/
def Ring.dropsOf (ap : String) (r : Ring DataDroppedProcessed) : List Flow :=
  chosen (Query.ofAp DataDroppedProcessed.macAddr ap) DataDroppedProcessed.flow
    (r.unread r.cursor)

/-- A table of flows accounts for some drops: it lists each flow once, all of them or
50, each with its number of drops. -/
structure Accounts (drops : List Flow) (listed : List (Flow × Nat)) : Prop where
  once : (listed.map Prod.fst).Nodup
  many : listed.length = min 50 drops.eraseDups.length
  counts : ∀ f ∈ listed, f.1 ∈ drops ∧ f.2 = drops.count f.1
  adds : drops.eraseDups.length ≤ 50 → (listed.map Prod.snd).sum = drops.length

/-- Whatever stood in the caller's 50 entries: the total is the number of drops, and the
entries up to the length account for them. -/
def DropsAnswer (ap : String) (s : State) : Prop :=
  ∀ given : FlowDropAp, given.flowinfo.length = 50 → ∃ t answer,
    storeFlowDrops ap given s = .ok (t, answer) ∧
      answer.dropsTotal = (s.dropped.dropsOf ap).length ∧
      Accounts (s.dropped.dropsOf ap) (answer.flowinfo.take answer.length)

/-- Nothing is counted, because `mac_list` starts empty and a record is only looked up
in it. -/
theorem walk_counts_nothing (buffer : Nat → Entry DataDroppedProcessed) (ap : String)
    (turns : Nat) {w : Walk DataDroppedProcessed FlowDrops} (hj : w.j < bufferStore)
    (hfound : w.found = ⟨[], 0⟩) :
    ∃ w', walk buffer (lookDrop ap) turns w = .ok w' ∧ w'.found = ⟨[], 0⟩ := by
  induction turns generalizing w with
  | zero => exact ⟨w, rfl, hfound⟩
  | succ turns ih =>
    have hlook : lookDrop ap (buffer w.j).record w.found = .ok (true, ⟨[], 0⟩) := by
      rw [hfound, lookDrop]
      split <;> rfl
    obtain ⟨u, hturn⟩ := turn_of_look hj hlook
    obtain ⟨-, -, hu, b, found, hlook', hsame, -⟩ := turn_ok hj hturn
    obtain ⟨-, rfl⟩ := Prod.mk.inj (Except.ok.inj (hlook.symm.trans hlook'))
    obtain ⟨w', hrun, hnone⟩ := ih hu hsame
    refine ⟨w', ?_, hnone⟩
    rw [walk, hturn]
    exact hrun

variable {s : State}

/-- Every call answers with nothing. -/
theorem store_flow_drops_ok (hstart : s.dropped.cursor.start < bufferStore) (ap : String)
    (given : FlowDropAp) : ∃ t, storeFlowDrops ap given s = .ok (t, ⟨given.flowinfo, 0, 0⟩) := by
  obtain ⟨u, hwalk, hnone⟩ := walk_counts_nothing s.dropped.buffer ap
    (distance s.dropped.cursor.start s.dropped.stop)
    (w := ⟨s.dropped.cursor, s.dropped.cursor.start, ⟨[], 0⟩, []⟩) hstart rfl
  have hblit : blit given.flowinfo 0 ([] : List (Flow × Nat)) = .ok given.flowinfo :=
    blit_front (Nat.zero_le _)
  refine ⟨{ s with dropped := { s.dropped with
    cursor := { u.cursor with seen := s.dropped.log.length }, visited := u.visited } }, ?_⟩
  simp only [storeFlowDrops, getFlowDrops, Ring.read, hwalk, bind, Except.bind, hnone, hblit,
    List.length_nil]

/-- A caller's structure before the call. -/
def zeroed : FlowDropAp := ⟨List.replicate 50 (⟨0, 0, 0, 0⟩, 0), 0, 0⟩

theorem zeroed_length : zeroed.flowinfo.length = 50 := List.length_replicate

theorem accounts_nil : Accounts [] [] where
  once := List.nodup_nil
  many := rfl
  counts := fun _ hf => absurd hf List.not_mem_nil
  adds := fun _ => rfl

/-- `get_flow_drops` accounts for the drops of an access point exactly if none of the
unread records is one of its. -/
theorem drops_answer_iff (hstart : s.dropped.cursor.start < bufferStore) (ap : String) :
    DropsAnswer ap s ↔
      ∀ e ∈ s.dropped.unread s.dropped.cursor, e.record.macAddr ≠ ap := by
  have hnone : s.dropped.dropsOf ap = [] ↔
      ∀ e ∈ s.dropped.unread s.dropped.cursor, e.record.macAddr ≠ ap := by
    simp [Ring.dropsOf, chosen, Query.ofAp, List.filter_eq_nil_iff]
  rw [← hnone]
  constructor
  · intro h
    obtain ⟨t, answer, hrun, htotal, -⟩ := h zeroed zeroed_length
    obtain ⟨t', hrun'⟩ := store_flow_drops_ok hstart ap zeroed
    obtain ⟨-, rfl⟩ := Prod.mk.inj (Except.ok.inj (hrun'.symm.trans hrun))
    exact List.length_eq_zero_iff.mp htotal.symm
  · intro h given _
    obtain ⟨t, hrun⟩ := store_flow_drops_ok hstart ap given
    rw [h]
    exact ⟨t, _, hrun, rfl, accounts_nil⟩

/-- Three packets of two flows were dropped at two access points. -/
def threeDrops : State := { machine.start with
  dropped := (((emptyRing ⟨"", ⟨0, 0, 0, 0⟩⟩).push ⟨"ap", ⟨1, 2, 3, 4⟩⟩).push
    ⟨"ap", ⟨2, 1, 4, 3⟩⟩).push ⟨"third", ⟨1, 2, 3, 4⟩⟩ }

theorem drops_answer_iff_three : DropsAnswer "other" threeDrops ∧
    (threeDrops.dropped.dropsOf "ap").length = 2 :=
  ⟨(drops_answer_iff buffer_store_pos "other").mpr (by decide), by decide⟩

/-- One packet of one access point was dropped. -/
def oneDrop : State := { machine.start with
  dropped := (emptyRing ⟨"", ⟨0, 0, 0, 0⟩⟩).push ⟨"ap", ⟨1, 2, 3, 4⟩⟩ }

/-- It is not reported. -/
theorem drop_unreported : ¬ ∀ ap s, s.dropped.cursor.start < bufferStore → DropsAnswer ap s := by
  intro h
  obtain ⟨t, answer, hrun, htotal, -⟩ := h "ap" oneDrop buffer_store_pos zeroed zeroed_length
  obtain ⟨t', hrun'⟩ := store_flow_drops_ok (s := oneDrop) buffer_store_pos "ap" zeroed
  obtain ⟨-, rfl⟩ := Prod.mk.inj (Except.ok.inj (hrun'.symm.trans hrun))
  exact absurd htotal (by decide)

end ApTelemetry.NewReceiver.Api
