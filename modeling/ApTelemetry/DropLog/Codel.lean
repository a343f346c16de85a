import ApTelemetry.DropLog.Collector

namespace ApTelemetry.DropLog.Codel
open Lib

def deleteBeforeLastCallCodel : DropList → Except Fault DropList :=
  deleteBeforeCall "unable to understand in codel\n"

/-- No new snapshot is taken while the previous one waits to be deleted. -/
def dptQueueLinger (s : DropList) : Option Addr × DropList :=
  if s.read then (none, s) else snapshot s

def destroyAfterTransmittedCodel : DropList → DropList := acknowledge

/-- The log in `codel_dequeue`, which marks its packets with 1777. -/
def codelLog : Variant where
  delete := deleteBeforeLastCallCodel
  dpl := 1777
  dpt := dptQueueLinger
  destroy := destroyAfterTransmittedCodel
  deletes := ⟨_, rfl⟩
  snapshots s := by
    cases h : s.read with
    | true => exact Or.inr ⟨rfl, by simp [dptQueueLinger, h]⟩
    | false => exact Or.inl (by simp [dptQueueLinger, h])
  acknowledges := rfl

/-- While a walk is under way no deletion is pending. -/
def Undisturbed (s : System) : Prop := s.collector ≠ .idle → s.list.read = false

theorem step_undisturbed {mac : Mac} {s t : System} {a : Action} (hs : Undisturbed s)
    (hen : enabled codelLog s a) (h : exec codelLog mac s a = .ok t) : Undisturbed t := by
  cases a with
  | dropped block skb now =>
    intro hc
    exact dropped_read mac (hs (dropped_collector mac h ▸ hc)) h
  | dpt =>
    cases hr : s.list.read with
    | true =>
      have ht : t = { s with collector := .idle } := by
        simpa [exec, codelLog, dptQueueLinger, hr] using h.symm
      intro hc
      exact absurd (by rw [ht]) hc
    | false =>
      intro _
      obtain rfl : { s with
          list := { s.list with call := s.list.last }
          collector := if s.list.first.isSome then .walking s.list.first else .idle } = t := by
        simpa [exec, codelLog, dptQueueLinger, snapshot, hr] using h
      exact hr
  | walk =>
    obtain ⟨b, hb⟩ := hen
    intro _
    rw [walk_list mac h]
    exact hs (by simp [hb])
  | destroy =>
    cases h
    exact fun hc => absurd rfl hc

theorem undisturbed_inductive (mac : Mac) :
    (machine codelLog mac).Inductive (fun s => Invariant s ∧ Undisturbed s) := by
  refine Machine.Inductive.of_restrict NoLateAppend ⟨?_, ?_⟩ ?_
  · exact ⟨(inductive_invariant codelLog mac).start, fun hc => absurd rfl hc⟩
  · rintro s a ⟨hinv, hs⟩ ha
    obtain ⟨t, hrun, ht⟩ := (inductive_invariant codelLog mac).step s a hinv ha
    exact ⟨t, hrun, ht, step_undisturbed hs ha.1 hrun⟩
  · rintro s a ⟨_, hs⟩ _
    cases a with
    | dropped =>
      intro hread
      by_contra hc
      rw [hs hc] at hread
      cases hread
    | dpt => trivial
    | walk => trivial
    | destroy => trivial

/-- In every interleaving the records written are the first packets dropped,
the rest is on the list, and no step reads a freed node or loses the snapshot. -/
theorem codel_log_delivers (mac : Mac) (s : System)
    (hr : (machine codelLog mac).Reachable s) :
    Delivers s ∧ ∀ a, enabled codelLog s a → ∃ t, exec codelLog mac s a = .ok t :=
  ⟨((undisturbed_inductive mac).reachable hr).1.delivers, (undisturbed_inductive mac).runs hr⟩

/-- A first drop, its round of the collector up to the walk, and a second drop
that comes before the acknowledgement. -/
def twoDrops : List Action :=
  [.dropped 1 ⟨1, 2, 3, 4, 5, 6⟩ ⟨7, 0, 0⟩, .dpt, .walk, .dropped 2 ⟨1, 2, 3, 4, 5, 6⟩ ⟨7, 1, 0⟩]

theorem codel_log_delivers_two_drops : ∃ s,
    (machine codelLog ⟨2, 0, 0, 0, 0, 1⟩).follow initial twoDrops = some s ∧ Delivers s ∧
    ∀ a, enabled codelLog s a → ∃ t, exec codelLog ⟨2, 0, 0, 0, 0, 1⟩ s a = .ok t := by
  have hrun : ((machine codelLog ⟨2, 0, 0, 0, 0, 1⟩).follow initial twoDrops).isSome := by decide
  obtain ⟨s, hs⟩ := Option.isSome_iff_exists.mp hrun
  exact ⟨s, hs, codel_log_delivers _ s (Machine.follow_reachable .start hs)⟩

end ApTelemetry.DropLog.Codel
