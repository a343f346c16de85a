import ApTelemetry.EndToEnd.Transport
import ApTelemetry.FqCodel.DropReport

namespace ApTelemetry.EndToEnd.Drops
open Lib DropLog FqCodel.DropReport

variable {H : Type} (hd : FqCodel.Headers H) {flowsCnt : Nat}

structure Path (H : Type) (flowsCnt : Nat) where
  reporter : Reporter H flowsCnt
  transport : Transport

inductive Event (H : Type) where
  | report (e : FqCodel.DropReport.Event H)
  | transport (a : EndToEnd.Action)

/-- A record goes to the buffer with `next` set to `NULL`. -/
def recordOf (t : DpT) : Wire.Record := .drops t.mac t.drops 0

def exec [NeZero flowsCnt] (mac : Mac) (s : Path H flowsCnt) :
    Event H → Except Fault (Path H flowsCnt)
  | .report e => do
    let reporter ← FqCodel.DropReport.exec hd mac s.reporter e
    let written := reporter.log.written.drop s.reporter.log.written.length
    let transport ← written.foldlM (fun t record => EndToEnd.exec t (.write (recordOf record)))
      s.transport
    .ok { reporter, transport }
  | .transport a => do
    let transport ← EndToEnd.exec s.transport a
    .ok { s with transport }

/-- A drop of codel at the access point `mac`, as the server has it. -/
def codelDrop (mac : Mac) : Wire.Decoded → Option DpPacket
  | .drops m rdata => if m = mac ∧ rdata.dpl = Codel.codelLog.dpl then some rdata else none
  | _ => none

def dropsIn (mac : Mac) (records : List Wire.Record) : List DpPacket :=
  (records.map Wire.Record.received).filterMap (codelDrop mac)

/-- Other records and other datagrams do not claim to be of this log. -/
def Foreign (mac : Mac) : EndToEnd.Action → Prop
  | .write t => dropsIn mac [t] = []
  | .other _ records => dropsIn mac records = []
  | .arrive _ | .check | .take => True

def Enabled (bounds : FqCodel.Bounds) (mac : Mac) (s : Path H flowsCnt) : Event H → Prop
  | .report e => FqCodel.DropReport.Enabled bounds s.reporter e
  | .transport a => enabled s.transport a ∧ Foreign mac a

def HasRoom (s : Path H flowsCnt) : Event H → Prop
  | .report _ => True
  | .transport a => EndToEnd.HasRoom s.transport a

def machine [NeZero flowsCnt] (setup : FqCodel.Setup flowsCnt) (mac : Mac) :
    Machine (Path H flowsCnt) (Event H) Fault where
  start := ⟨(FqCodel.DropReport.machine hd setup mac).start, EndToEnd.initial⟩
  enabled := Enabled setup.toBounds mac
  exec := exec hd mac

/-- An entry as `codel_dequeue` fills it in. -/
def Marked (p : DpPacket) : Prop := p.dpl = Codel.codelLog.dpl ∧ p.pad = 0 ∧ p.pad1 = 0

theorem codel_drop_received {p : DpPacket} (h : Marked p) (mac : Mac) :
    codelDrop mac (recordOf (dropsRecord mac p)).received = some p := by
  obtain ⟨hdpl, hpad, hpad1⟩ := h
  have hsame : { p with pad := swap16 p.pad, pad1 := swap32 p.pad1 } = p := by
    rw [hpad, hpad1, show swap16 0 = 0 from rfl, show swap32 0 = 0 from rfl, ← hpad, ← hpad1]
  change (if mac = mac ∧ p.dpl = _ then some { p with pad := _, pad1 := _ } else none) = _
  rw [if_pos ⟨rfl, hdpl⟩]
  exact congrArg some hsame

theorem drops_in_append (mac : Mac) (xs ys : List Wire.Record) :
    dropsIn mac (xs ++ ys) = dropsIn mac xs ++ dropsIn mac ys := by
  rw [dropsIn, List.map_append, List.filterMap_append]
  rfl

theorem drops_in_flatten (mac : Mac) (groups : List (List Wire.Record)) :
    dropsIn mac groups.flatten = (groups.map (dropsIn mac)).flatten := by
  induction groups with
  | nil => rfl
  | cons group groups ih => rw [List.flatten_cons, drops_in_append, ih, List.map_cons,
      List.flatten_cons]

theorem drops_in_marked {new : List DpPacket} (h : ∀ p ∈ new, Marked p) (mac : Mac) :
    dropsIn mac (new.map fun p => recordOf (dropsRecord mac p)) = new := by
  induction new with
  | nil => rfl
  | cons p new ih =>
    have hrest := ih fun q hq => h q (List.mem_cons_of_mem _ hq)
    rw [dropsIn, List.map_cons, List.map_cons, List.filterMap_cons_some
      (codel_drop_received (h p (List.mem_cons_self ..)) mac)]
    exact congrArg (p :: ·) hrest

section Log

variable {mac : Mac} {s t : DropLog.System}

theorem exec_written {v : Variant} {a : DropLog.Action} (hrun : DropLog.exec v mac s a = .ok t) :
    ∃ new : List DpPacket, t.written = s.written ++ new.map (dropsRecord mac) := by
  cases a with
  | dropped block skb now =>
    obtain ⟨list, -, hrun⟩ := bind_ok hrun
    cases hrun
    exact ⟨[], (List.append_nil _).symm⟩
  | dpt =>
    cases hrun
    exact ⟨[], (List.append_nil _).symm⟩
  | walk =>
    simp only [DropLog.exec] at hrun
    split at hrun
    · cases hrun
      exact ⟨[], (List.append_nil _).symm⟩
    · obtain ⟨c, -, hrun⟩ := bind_ok hrun
      cases hrun
      change ∃ new, (visit mac c.item s).written = _
      unfold visit
      split
      · exact ⟨[c.item], rfl⟩
      · exact ⟨[], (List.append_nil _).symm⟩
  | destroy =>
    cases hrun
    exact ⟨[], (List.append_nil _).symm⟩

theorem exec_marked {a : DropLog.Action} (hrun : DropLog.exec Codel.codelLog mac s a = .ok t)
    (h : ∀ p ∈ s.appended, Marked p) : ∀ p ∈ t.appended, Marked p := by
  cases a with
  | dropped block skb now =>
    obtain ⟨list, -, hrun⟩ := bind_ok hrun
    cases hrun
    intro p hp
    cases List.mem_append.mp hp with
    | inl hold => exact h p hold
    | inr hnew =>
      rw [List.mem_singleton.mp hnew]
      exact ⟨rfl, rfl, rfl⟩
  | dpt =>
    cases hrun
    exact h
  | walk =>
    simp only [DropLog.exec] at hrun
    split at hrun
    · cases hrun
      exact h
    · obtain ⟨c, -, hrun⟩ := bind_ok hrun
      cases hrun
      change ∀ p ∈ (visit mac c.item s).appended, Marked p
      rw [visit_appended]
      exact h
  | destroy =>
    cases hrun
    exact h

end Log

theorem log_step_log {mac : Mac} {s t : Reporter H flowsCnt} {a : DropLog.Action}
    (hrun : logStep mac s a = .ok t) : DropLog.exec Codel.codelLog mac s.log a = .ok t.log := by
  obtain ⟨log, hexec, hrun⟩ := bind_ok hrun
  cases hrun
  exact hexec

variable {hd} in
/-- An event of the reporter is at most one of the log. -/
theorem report_log [NeZero flowsCnt] {mac : Mac} {s t : Reporter H flowsCnt}
    {e : FqCodel.DropReport.Event H} (hrun : FqCodel.DropReport.exec hd mac s e = .ok t) :
    t.log = s.log ∨ ∃ a, DropLog.exec Codel.codelLog mac s.log a = .ok t.log := by
  cases e with
  | call a =>
    obtain ⟨qdisc, -, hrun⟩ := bind_ok hrun
    cases hrun
    exact Or.inl rfl
  | append block now =>
    simp only [FqCodel.DropReport.exec] at hrun
    split at hrun
    · cases hrun
      exact Or.inl rfl
    · rename_i skb rest hpending
      have hlog := log_step_log hrun
      exact Or.inr ⟨_, hlog⟩
  | dpt => exact Or.inr ⟨_, log_step_log hrun⟩
  | walk => exact Or.inr ⟨_, log_step_log hrun⟩
  | destroy => exact Or.inr ⟨_, log_step_log hrun⟩

section Runs

variable {hd} [NeZero flowsCnt] {setup : FqCodel.Setup flowsCnt} {mac : Mac}
  {s t : Path H flowsCnt}

/-- What was copied to the buffer of drops of codel is what the collector has written. -/
structure Inv (hd : FqCodel.Headers H) (setup : FqCodel.Setup flowsCnt) (mac : Mac)
    (s : Path H flowsCnt) : Prop where
  reporter : FqCodel.DropReport.Inv hd setup s.reporter
  transport : EndToEnd.Inv s.transport
  marked : ∀ p ∈ s.reporter.log.appended, Marked p
  copied : dropsIn mac s.transport.copied = s.reporter.log.written.map DpT.drops
  others : ∀ records, .other records ∈ s.transport.arrived → dropsIn mac records = []

/-- The records of a walk are written one after the other. -/
theorem copies {u : Transport} (h : EndToEnd.Inv u) (new : List DpPacket) (mac : Mac) :
    ∃ v, (new.map (dropsRecord mac)).foldlM
        (fun t record => EndToEnd.exec t (.write (recordOf record))) u = .ok v ∧
      EndToEnd.Inv v ∧ v = { u with
        buffer := v.buffer
        copied := u.copied ++ new.map fun p => recordOf (dropsRecord mac p) } := by
  induction new generalizing u with
  | nil => exact ⟨u, rfl, h, by rw [List.map_nil, List.append_nil]⟩
  | cons p new ih =>
    obtain ⟨w, hwrite, hw, heq⟩ := h.write (recordOf (dropsRecord mac p))
    obtain ⟨v, hrun, hv, hlast⟩ := ih hw
    refine ⟨v, ?_, hv, ?_⟩
    · rw [List.map_cons, List.foldlM_cons, hwrite]
      exact hrun
    · rw [hlast, heq, List.map_cons, List.append_assoc]
      rfl

theorem Inv.report (h : Inv hd setup mac s) (e : FqCodel.DropReport.Event H)
    (allowed : FqCodel.DropReport.Enabled setup.toBounds s.reporter e) :
    ∃ reporter transport new, FqCodel.DropReport.exec hd mac s.reporter e = .ok reporter ∧
      exec hd mac s (.report e) = .ok ⟨reporter, transport⟩ ∧
      Inv hd setup mac ⟨reporter, transport⟩ ∧
      reporter.log.written = s.reporter.log.written ++ new ∧ transport = { s.transport with
        buffer := transport.buffer, copied := s.transport.copied ++ new.map recordOf } := by
  obtain ⟨reporter, hrun, hnext⟩ :=
    (FqCodel.DropReport.inv_inductive hd setup mac).step s.reporter e h.reporter allowed
  change FqCodel.DropReport.exec hd mac s.reporter e = .ok reporter at hrun
  obtain ⟨new, hwritten, hmarked⟩ : ∃ new : List DpPacket,
      reporter.log.written = s.reporter.log.written ++ new.map (dropsRecord mac) ∧
      ∀ p ∈ reporter.log.appended, Marked p := by
    cases report_log hrun with
    | inl hsame =>
      rw [hsame]
      exact ⟨[], (List.append_nil _).symm, h.marked⟩
    | inr hlog =>
      obtain ⟨a, hlog⟩ := hlog
      obtain ⟨new, hwritten⟩ := exec_written hlog
      exact ⟨new, hwritten, exec_marked hlog h.marked⟩
  have hdrops : reporter.log.written.map DpT.drops =
      s.reporter.log.written.map DpT.drops ++ new := by
    rw [hwritten, List.map_append, List.map_map]
    exact congrArg (_ ++ ·) (List.map_id new)
  have hnew : ∀ p ∈ new, Marked p := by
    intro p hp
    apply hmarked
    apply hnext.log.1.delivers.inOrder.subset
    rw [hdrops]
    exact List.mem_append_right _ hp
  obtain ⟨transport, hcopy, htransport, heq⟩ := copies h.transport new mac
  refine ⟨reporter, transport, new.map (dropsRecord mac), hrun, ?_,
    ⟨hnext, htransport, hmarked, ?_, ?_⟩, hwritten, by rw [List.map_map]; exact heq⟩
  · simp only [exec, hrun, hwritten, bind, Except.bind, List.drop_left]
    rw [hcopy]
  · change dropsIn mac transport.copied = reporter.log.written.map DpT.drops
    rw [heq, drops_in_append, drops_in_marked hnew, h.copied, hdrops]
  · change ∀ records, .other records ∈ transport.arrived → _
    rw [heq]
    exact h.others

theorem transport_history {s t : Transport} {a : EndToEnd.Action} (foreign : Foreign mac a)
    (hrun : EndToEnd.exec s a = .ok t) : dropsIn mac t.copied = dropsIn mac s.copied ∧
      ∀ records, .other records ∈ t.arrived →
        .other records ∈ s.arrived ∨ dropsIn mac records = [] := by
  cases a with
  | write r =>
    obtain ⟨buffer, -, hrun⟩ := bind_ok hrun
    cases hrun
    refine ⟨?_, fun records hmem => Or.inl hmem⟩
    change dropsIn mac [r] = [] at foreign
    rw [drops_in_append, foreign, List.append_nil]
  | arrive i =>
    simp only [EndToEnd.exec] at hrun
    split at hrun
    · obtain ⟨pool, -, hrun⟩ := bind_ok hrun
      cases hrun
      refine ⟨rfl, fun records hmem => ?_⟩
      cases List.mem_append.mp hmem with
      | inl hold => exact Or.inl hold
      | inr hnew => cases List.mem_singleton.mp hnew
    · cases hrun
      exact ⟨rfl, fun records hmem => Or.inl hmem⟩
  | other winsizePort added =>
    obtain ⟨pool, -, hrun⟩ := bind_ok hrun
    cases hrun
    refine ⟨rfl, fun records hmem => ?_⟩
    cases List.mem_append.mp hmem with
    | inl hold => exact Or.inl hold
    | inr hnew =>
      cases List.mem_singleton.mp hnew
      exact Or.inr foreign
  | check =>
    obtain ⟨pool, -, hrun⟩ := bind_ok hrun
    cases hrun
    exact ⟨rfl, fun records hmem => Or.inl hmem⟩
  | take =>
    obtain ⟨pool, -, hrun⟩ := bind_ok hrun
    obtain ⟨decoded, -, hrun⟩ := bind_ok hrun
    cases hrun
    exact ⟨rfl, fun records hmem => Or.inl hmem⟩

variable (hd setup mac) in
theorem inv_inductive : ((machine hd setup mac).restrict HasRoom).Inductive (Inv hd setup mac) where
  start := ⟨(FqCodel.DropReport.inv_inductive hd setup mac).start, EndToEnd.inv_inductive.start,
    fun _ hp => absurd hp List.not_mem_nil, rfl, fun _ hmem => absurd hmem List.not_mem_nil⟩
  step s e hs he := by
    obtain ⟨allowed, room⟩ := he
    cases e with
    | report e =>
      obtain ⟨reporter, transport, new, -, hrun, hnext, -⟩ := hs.report e allowed
      exact ⟨_, hrun, hnext⟩
    | transport a =>
      obtain ⟨allowed, foreign⟩ := allowed
      obtain ⟨t, hrun, ht⟩ := EndToEnd.inv_inductive.step s.transport a hs.transport ⟨allowed, room⟩
      obtain ⟨hcopied, hothers⟩ := transport_history foreign hrun
      refine ⟨{ s with transport := t }, ?_, hs.reporter, ht, hs.marked,
        hcopied.trans hs.copied, ?_⟩
      · change EndToEnd.exec s.transport a = .ok t at hrun
        change exec hd mac s (.transport a) = _
        rw [exec, hrun]
        rfl
      · intro records hmem
        cases hothers records hmem with
        | inl hold => exact hs.others records hold
        | inr hnone => exact hnone

def Source.drops (groups : List (List DpPacket)) : Source → List DpPacket
  | .own i => groups[i]?.getD []
  | .other _ => []

def Source.number : Source → Option Nat
  | .own i => some i
  | .other _ => none

theorem drops_of_source {groups : List (List Wire.Record)} {source : Source}
    (hother : ∀ records, source = .other records → dropsIn mac records = []) :
    dropsIn mac (source.records groups) = Source.drops (groups.map (dropsIn mac)) source := by
  cases source with
  | own i =>
    change dropsIn mac (groups[i]?.getD []) = (groups.map (dropsIn mac))[i]?.getD []
    rw [List.getElem?_map]
    cases groups[i]? <;> rfl
  | other records => exact hother records rfl

theorem flatten_drops (groups : List (List DpPacket)) (arrived : List Source) :
    (arrived.map (Source.drops groups)).flatten =
      ((arrived.filterMap Source.number).map fun i => groups[i]?.getD []).flatten := by
  induction arrived with
  | nil => rfl
  | cons source arrived ih =>
    rw [List.map_cons, List.flatten_cons, ih]
    cases source with
    | own i => rfl
    | other records => rfl

/-- Where each datagram has arrived once and in order, all groups are there. -/
theorem drops_in_order {groups : List (List DpPacket)} {arrived : List Source}
    (horder : arrived.filterMap Source.number = List.range groups.length) :
    (arrived.map (Source.drops groups)).flatten = groups.flatten := by
  have hgroups : (List.range groups.length).map (fun i => groups[i]?.getD []) = groups := by
    apply List.ext_getElem
    · rw [List.length_map, List.length_range]
    · intro k hk hk'
      rw [List.getElem_map, List.getElem_range, List.getElem?_eq_getElem hk', Option.getD_some]
  rw [flatten_drops, horder, hgroups]

/-- Of the drops logged, in their order: `groups` of them were sent in one datagram each,
`buffered` are in the public buffer, `waiting` on the list, and the last ones are still to be
appended. -/
structure Accounted (s : Path H flowsCnt) (mac : Mac) (groups : List (List DpPacket))
    (buffered waiting : List DpPacket) : Prop where
  logged : s.reporter.qdisc.logged =
    (groups.flatten ++ buffered ++ waiting).map header ++ s.reporter.pending
  sent : List.Forall₂ (fun datagram group => ∃ records, datagram = Wire.bytesOf records ∧
    dropsIn mac records = group) s.transport.buffer.sent groups
  buffered : ∃ records, s.transport.buffer.publicBuffer.take s.transport.buffer.writeBegin =
    Wire.bytesOf records ∧ dropsIn mac records = buffered
  waiting : ∃ nodes, Chain s.reporter.log.list.heap s.reporter.log.list.first nodes ∧
    waiting <:+ nodes.map Prod.snd

/-- Each entry of the log is that of a packet which codel has dropped. -/
theorem logged_dropped {r : Reporter H flowsCnt} (h : FqCodel.DropReport.Inv hd setup r) {x : Skb}
    (hx : x ∈ r.qdisc.logged) : ∃ i, ∃ d ∈ (r.qdisc.flows i).left,
      d.dropped = true ∧ hd.tcp d.skb.hdr = some x := by
  obtain ⟨new, gone, hnew, hleft, hall, -⟩ := h.grows
  have hgone : ∀ i, (r.qdisc.flows i).left = gone i := hleft
  have hsame : r.qdisc.logged = new := hnew
  have hmem : x ∈ (new : Multiset Skb) := Multiset.mem_coe.mpr (hsame ▸ hx)
  rw [hall] at hmem
  obtain ⟨i, -, hi⟩ := Multiset.mem_sum.mp hmem
  obtain ⟨d, hd, hentry⟩ := List.mem_filterMap.mp (Multiset.mem_coe.mp hi)
  refine ⟨i, d, hgone i ▸ hd, ?_⟩
  simp only [FqCodel.Departure.entry] at hentry
  split at hentry
  · rename_i sight hfate
    exact ⟨by simp [FqCodel.Departure.dropped, hfate], hentry⟩
  · cases hentry

theorem Inv.accounted (h : Inv hd setup mac s) : ∃ groups buffered waiting,
    Accounted s mac groups buffered waiting ∧
    s.transport.decoded.map (List.filterMap (codelDrop mac)) =
      (s.transport.arrived.take s.transport.decoded.length).map (Source.drops groups) := by
  obtain ⟨groups, waiting, hcopied, hsent, hwaiting⟩ := h.transport.groups
  obtain ⟨hwritten, ⟨nodes, hchain, hsuffix, -⟩, -⟩ := h.reporter.log.1.delivers
  refine ⟨groups.map (dropsIn mac), dropsIn mac waiting,
    s.reporter.log.appended.drop s.reporter.log.written.length, ⟨?_, ?_, ⟨waiting, hwaiting, rfl⟩,
      ⟨nodes, hchain, hsuffix⟩⟩, ?_⟩
  · have happended : s.reporter.log.appended = dropsIn mac s.transport.copied ++
        s.reporter.log.appended.drop s.reporter.log.written.length := by
      obtain ⟨rest, hrest⟩ := hwritten
      have hlength : (s.reporter.log.written.map DpT.drops).length =
          s.reporter.log.written.length := List.length_map ..
      rw [h.copied, ← hrest, ← hlength, List.drop_left]
    rw [h.reporter.logged, ← drops_in_flatten, ← drops_in_append, ← hcopied, ← happended]
  · rw [hsent, List.forall₂_map_left_iff, List.forall₂_map_right_iff]
    exact List.forall₂_same.mpr fun group _ => ⟨group, rfl, rfl⟩
  · have hdecoded := congrArg (List.map (List.filterMap (codelDrop mac)))
      (h.transport.decoded_records hsent)
    rw [List.map_map] at hdecoded
    refine hdecoded.trans (List.map_congr_left fun source hsource => drops_of_source ?_)
    intro records hother
    exact h.others records (hother ▸ List.mem_of_mem_take hsource)

/-- Every run of the qdisc and its log is one of the whole path. -/
theorem lifts {r : Reporter H flowsCnt}
    (hr : (FqCodel.DropReport.machine hd setup mac).Reachable r) :
    ∃ buffer, ((machine hd setup mac).restrict HasRoom).Reachable ⟨r, { EndToEnd.initial with
      buffer, copied := r.log.written.map recordOf }⟩ := by
  induction hr with
  | start => exact ⟨_, .start⟩
  | step e _ allowed runs ih =>
    obtain ⟨buffer, hreach⟩ := ih
    have hinv := (inv_inductive hd setup mac).reachable hreach
    obtain ⟨reporter, transport, new, hrun, hexec, -, hwritten, heq⟩ := hinv.report e allowed
    obtain rfl := Except.ok.inj (hrun.symm.trans runs)
    refine ⟨transport.buffer, ?_⟩
    have hnext := hreach.step (Event.report e) ⟨allowed, trivial⟩ hexec
    rw [hwritten, List.map_append]
    rw [heq] at hnext
    exact hnext

theorem plain_step {r : Reporter H flowsCnt} {s t : Transport} {a : EndToEnd.Action}
    (hs : ((machine hd setup mac).restrict HasRoom).Reachable ⟨r, s⟩) (plain : a.Plain)
    (allowed : enabled s a) (room : EndToEnd.HasRoom s a) (hrun : EndToEnd.exec s a = .ok t) :
    ((machine hd setup mac).restrict HasRoom).Reachable ⟨r, t⟩ := by
  have foreign : Foreign mac a := by
    cases a with
    | write t =>
      rw [show t = report from plain]
      rfl
    | arrive i => trivial
    | other => exact plain.elim
    | check => trivial
    | take => trivial
  have hexec : exec hd mac ⟨r, s⟩ (.transport a) = .ok ⟨r, t⟩ := by
    rw [exec, hrun]
    rfl
  exact hs.step (Event.transport a) ⟨⟨allowed, foreign⟩, room⟩ hexec

end Runs

end ApTelemetry.EndToEnd.Drops
