import ApTelemetry.DropLog.Codel
import ApTelemetry.FqCodel.Logged

namespace ApTelemetry.FqCodel.DropReport
open Lib DropLog

variable {H : Type} (hd : Headers H) {flowsCnt : Nat}

/-- `pending` are the drops of the last call of the qdisc that are still to be appended: the
collector may come between any two of them. -/
structure Reporter (H : Type) (flowsCnt : Nat) where
  qdisc : Qdisc H flowsCnt
  log : DropLog.System
  pending : List Skb

inductive Event (H : Type) where
  | call (a : FqCodel.Action H)
  | append (block : Addr) (now : Clock)
  | dpt
  | walk
  | destroy

def logStep (mac : Mac) (s : Reporter H flowsCnt) (a : DropLog.Action) :
    Except Fault (Reporter H flowsCnt) := do
  let log ← DropLog.exec Codel.codelLog mac s.log a
  .ok { s with log }

def exec [NeZero flowsCnt] (mac : Mac) (s : Reporter H flowsCnt) :
    Event H → Except Fault (Reporter H flowsCnt)
  | .call a => do
    let qdisc ← FqCodel.exec hd s.qdisc a
    .ok { s with qdisc, pending := qdisc.logged.drop s.qdisc.logged.length }
  | .append block now =>
    match s.pending with
    | [] => .ok s
    | skb :: rest => logStep mac { s with pending := rest } (.dropped block skb now)
  | .dpt => logStep mac s .dpt
  | .walk => logStep mac s .walk
  | .destroy => logStep mac s .destroy

/-- A call of the qdisc ends when its drops are appended. -/
def Enabled (bounds : Bounds) (s : Reporter H flowsCnt) : Event H → Prop
  | .call a => s.pending = [] ∧ bounds.Allowed s.qdisc a
  | .append block now => ∃ skb ∈ s.pending.head?,
    DropLog.enabled Codel.codelLog s.log (.dropped block skb now)
  | .dpt => DropLog.enabled Codel.codelLog s.log .dpt
  | .walk => DropLog.enabled Codel.codelLog s.log .walk
  | .destroy => DropLog.enabled Codel.codelLog s.log .destroy

instance (bounds : Bounds) (s : Reporter H flowsCnt) (e : Event H) :
    Decidable (Enabled bounds s e) :=
  match e with
  | .call a => inferInstanceAs (Decidable (s.pending = [] ∧ bounds.Allowed s.qdisc a))
  | .append block now => inferInstanceAs (Decidable (∃ skb ∈ s.pending.head?,
    DropLog.enabled Codel.codelLog s.log (.dropped block skb now)))
  | .dpt => inferInstanceAs (Decidable (DropLog.enabled Codel.codelLog s.log .dpt))
  | .walk => inferInstanceAs (Decidable (DropLog.enabled Codel.codelLog s.log .walk))
  | .destroy => inferInstanceAs (Decidable (DropLog.enabled Codel.codelLog s.log .destroy))

def machine [NeZero flowsCnt] (setup : Setup flowsCnt) (mac : Mac) :
    Machine (Reporter H flowsCnt) (Event H) Fault where
  start := ⟨(FqCodel.machine hd setup).start, DropLog.initial, []⟩
  enabled := Enabled setup.toBounds
  exec := exec hd mac

instance [NeZero flowsCnt] (setup : Setup flowsCnt) (mac : Mac) (s : Reporter H flowsCnt)
    (e : Event H) : Decidable ((machine hd setup mac).enabled s e) :=
  inferInstanceAs (Decidable (Enabled setup.toBounds s e))

/-- The fields of a TCP packet in its entry. -/
def header (p : DpPacket) : Skb :=
  ⟨p.ipSrc, p.ipDst, p.portSrc, p.portDst, p.sequence, p.ackSequence⟩

def added : DropLog.Action → List Skb
  | .dropped _ skb _ => [skb]
  | .dpt => []
  | .walk => []
  | .destroy => []

theorem exec_appended {v : Variant} {mac : Mac} {s t : DropLog.System} {a : DropLog.Action}
    (hrun : DropLog.exec v mac s a = .ok t) :
    t.appended.map header = s.appended.map header ++ added a := by
  cases a with
  | dropped block skb now =>
    obtain ⟨list, happend, hrun⟩ := bind_ok hrun
    cases hrun
    rw [List.map_append]
    rfl
  | dpt =>
    cases hrun
    exact (List.append_nil _).symm
  | walk =>
    simp only [DropLog.exec] at hrun
    split at hrun
    · cases hrun
      exact (List.append_nil _).symm
    · obtain ⟨c, hread, hrun⟩ := bind_ok hrun
      cases hrun
      change (visit mac c.item s).appended.map header = s.appended.map header ++ []
      rw [visit_appended, List.append_nil]
  | destroy =>
    cases hrun
    exact (List.append_nil _).symm

section Runs

variable {hd} [NeZero flowsCnt] {setup : Setup flowsCnt} {mac : Mac} {s t : Reporter H flowsCnt}

/-- All that was logged is appended, except for what is pending. -/
structure Inv (hd : Headers H) (setup : Setup flowsCnt) (s : Reporter H flowsCnt) : Prop where
  sane : s.qdisc.Sane hd setup.toBounds
  log : DropLog.Invariant s.log ∧ Codel.Undisturbed s.log
  grows : (FqCodel.machine hd setup).start.Grows hd s.qdisc
  logged : s.qdisc.logged = s.log.appended.map header ++ s.pending

theorem log_step_runs (h : s.qdisc.Sane hd setup.toBounds)
    (hlog : DropLog.Invariant s.log ∧ Codel.Undisturbed s.log)
    (hgrows : (FqCodel.machine hd setup).start.Grows hd s.qdisc) {a : DropLog.Action}
    (enabled : DropLog.enabled Codel.codelLog s.log a)
    (logged : s.qdisc.logged = s.log.appended.map header ++ added a ++ s.pending) :
    ∃ t, logStep mac s a = .ok t ∧ Inv hd setup t := by
  obtain ⟨log, hrun, hnext⟩ := (Codel.undisturbed_inductive mac).step s.log a hlog enabled
  refine ⟨{ s with log }, ?_, h, hnext, hgrows, ?_⟩
  · change (do
      let log ← DropLog.exec Codel.codelLog mac s.log a
      Except.ok { s with log }) = _
    change DropLog.exec Codel.codelLog mac s.log a = .ok log at hrun
    rw [hrun]
    rfl
  · change s.qdisc.logged = log.appended.map header ++ s.pending
    rw [exec_appended hrun, logged]

variable (hd setup mac) in
theorem inv_inductive : (machine hd setup mac).Inductive (Inv hd setup) where
  start := ⟨init_sane setup (by decide), (Codel.undisturbed_inductive mac).start, .refl _, rfl⟩
  step s e hs enabled := by
    obtain ⟨hsane, hlog, hgrows, hlogged⟩ := hs
    cases e with
    | call a =>
      obtain ⟨hnone, allowed⟩ := enabled
      obtain ⟨q, hrun, hq⟩ := (sane_inductive hd setup).step s.qdisc a hsane allowed
      have hstep : s.qdisc.Grows hd q := exec_grows hrun
      obtain ⟨new, gone, hnew, -⟩ := id hstep
      refine ⟨{ s with qdisc := q, pending := q.logged.drop s.qdisc.logged.length }, ?_, hq, hlog,
        hgrows.trans hstep, ?_⟩
      · change FqCodel.exec hd s.qdisc a = .ok q at hrun
        change exec hd mac s (.call a) = _
        rw [exec, hrun]
        rfl
      · change q.logged = s.log.appended.map header ++ q.logged.drop s.qdisc.logged.length
        rw [hnone, List.append_nil] at hlogged
        rw [hnew, List.drop_left, hlogged]
    | append block now =>
      obtain ⟨skb, hhead, henabled⟩ := enabled
      obtain ⟨rest, hpending⟩ := List.head?_eq_some_iff.mp hhead
      change ∃ t, exec hd mac s (.append block now) = .ok t ∧ Inv hd setup t
      simp only [exec, hpending]
      exact log_step_runs (s := { s with pending := rest }) hsane hlog hgrows henabled
        (by rw [hlogged, hpending, List.append_assoc]; rfl)
    | dpt =>
      exact log_step_runs hsane hlog hgrows enabled (by rw [added, List.append_nil, hlogged])
    | walk =>
      exact log_step_runs hsane hlog hgrows enabled (by rw [added, List.append_nil, hlogged])
    | destroy =>
      exact log_step_runs hsane hlog hgrows enabled (by rw [added, List.append_nil, hlogged])

/-- However the collector comes in between, each TCP packet that codel drops is logged once, for
each flow in the order of the drops, and what was logged is what the collector has written,
what is on the list, and what the call under way still has to append, in this order. -/
theorem codel_drops_reported (hr : (machine hd setup mac).Reachable s) :
    (s.qdisc.logged : Multiset Skb) =
      ∑ i, (entries hd (s.qdisc.flows i).left : Multiset Skb) ∧
    (∀ i, (entries hd (s.qdisc.flows i).left).Sublist s.qdisc.logged) ∧
    (∃ waiting nodes, Chain s.log.list.heap s.log.list.first nodes ∧
      waiting <:+ nodes.map Prod.snd ∧ s.qdisc.logged =
        s.log.written.map (header ∘ DpT.drops) ++ waiting.map header ++ s.pending) ∧
    ∀ e, Enabled setup.toBounds s e → ∃ t, exec hd mac s e = .ok t := by
  obtain ⟨hsane, hlog, ⟨new, gone, hnew, hleft, hall, horder⟩, hlogged⟩ :=
    (inv_inductive hd setup mac).reachable hr
  have hgone : ∀ i, (s.qdisc.flows i).left = gone i := hleft
  have hsame : s.qdisc.logged = new := hnew
  refine ⟨?_, ?_, ?_, fun e => (inv_inductive hd setup mac).runs hr e⟩
  · simp only [hsame, hgone, hall]
  · intro i
    rw [hsame, hgone]
    exact horder i
  · obtain ⟨hwritten, ⟨nodes, hchain, hwaiting, -⟩, -⟩ := hlog.1.delivers
    refine ⟨s.log.appended.drop s.log.written.length, nodes, hchain, hwaiting, ?_⟩
    obtain ⟨rest, hrest⟩ := hwritten
    rw [hlogged, ← hrest]
    simp

/-- The drop of the second packet is written. -/
def reportedDrop : List (Event Nat) :=
  slowFlow.map .call ++ [.append 1 ⟨7, 0, 0⟩, .dpt, .walk]

theorem reported_drop_reachable : ∃ s : Reporter Nat 2,
    (machine plain ethernet ⟨2, 0, 0, 0, 0, 1⟩).Reachable s ∧
    s.log.written.map (fun record => record.drops.ipSrc) = [4] := by
  have hfollow : ((machine plain ethernet ⟨2, 0, 0, 0, 0, 1⟩).follow
      (machine plain ethernet ⟨2, 0, 0, 0, 0, 1⟩).start reportedDrop).map
      (fun s => s.log.written.map fun record => record.drops.ipSrc) = some [4] := by decide
  exact Machine.follow_map_reachable hfollow

theorem codel_drops_reported_one : ∃ s : Reporter Nat 2,
    s.log.written.map (fun record => record.drops.ipSrc) = [4] ∧
    ∀ i, (entries plain (s.qdisc.flows i).left).Sublist s.qdisc.logged := by
  obtain ⟨s, hr, hwritten⟩ := reported_drop_reachable
  exact ⟨s, hwritten, (codel_drops_reported hr).2.1⟩

end Runs

end ApTelemetry.FqCodel.DropReport
