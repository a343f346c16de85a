import ApTelemetry.SimpleSwitch.Network

namespace ApTelemetry.SimpleSwitch
open Lib History

/-- What has been learned, set or sent at a datapath has been heard there. -/
structure Learned (row : Mac → Option Port) (d : Datapath) : Prop where
  row : ∀ m port, row m = some port → Heard d.past m port
  entries : ∀ inPort dst port, entry d.past inPort dst = some port → Heard d.past dst port
  accepted : ∀ o ∈ accepted d.past, o.2 = ofppFlood ∨ Heard d.past o.1.dst o.2
  sent : ∀ o ∈ sent d.past, o.2 = ofppFlood ∨ Heard d.past o.1.dst o.2
  reports : ∀ msg ∈ d.packetIns, msg.data ∈ arrived d.past
  flows : ∀ m ∈ d.messages, ∀ fields ∈ m.fields, Heard d.past fields.2 m.output
  asked : ∀ m ∈ d.messages, ∀ frame ∈ asks d.past m,
    m.output = ofppFlood ∨ Heard d.past frame.dst m.output

section Steps

variable {may : Switch} {row : Mac → Option Port} {d : Datapath}

theorem Learned.event (h : Learned row d) (hswitch : may.Forwards) {e : Event}
    (hmay : may d.past e) (hallows : Allows d e) : Learned row (record e d) := by
  have hhead : ∀ m accepted, e = .take m accepted → m ∈ d.messages := by
    rintro m accepted rfl
    exact List.mem_of_head? hallows
  refine ⟨fun m port hm => (h.row m port hm).cons e, ?_, ?_, ?_, ?_, ?_, ?_⟩
  · intro inPort dst port hport
    rcases entry_cons hport with hold | ⟨m, htake, hfields, rfl⟩
    · exact (h.entries inPort dst port hold).cons e
    · exact (h.flows m (hhead m true htake) _ hfields).cons e
  · intro o ho
    rcases mem_accepted_cons ho with hold | ⟨m, htake, hasked, hport⟩
    · exact (h.accepted o hold).imp_right (Heard.cons · e)
    · rw [hport]
      exact (h.asked m (hhead m true htake) _ hasked).imp_right (Heard.cons · e)
  · intro o ho
    rcases mem_sent_cons ho with hold | rfl | rfl
    · exact (h.sent o hold).imp_right (Heard.cons · e)
    · have hentry := (hswitch.forward _ _ _ hmay).2
      exact Or.inr ((h.entries _ _ _ hentry).cons _)
    · have haccepted := hswitch.release _ _ _ hmay
      exact (h.accepted _ haccepted).imp_right (Heard.cons · _)
  · intro msg hmsg
    refine arrived_cons e ?_
    rcases mem_record_reports hmsg with hold | rfl
    · exact h.reports msg hold
    · exact hswitch.report _ msg hmay
  · intro m hm fields hfields
    exact (h.flows m (mem_record_messages hm) fields hfields).cons e
  · intro m hm frame hframe
    have hold := mem_record_messages hm
    have hasks : asks d.past m = some frame := (asks_record hallows hold).symm.trans hframe
    exact (h.asked m hold frame hasks).imp_right (Heard.cons · e)

theorem Learned.features (h : Learned row d) :
    Learned row { d with messages := d.messages ++ [switchFeaturesHandler] } := by
  refine ⟨h.row, h.entries, h.accepted, h.sent, h.reports, fun m hm fields hfields => ?_,
    fun m hm frame hframe => ?_⟩
  · cases List.mem_append.mp hm with
    | inl hold => exact h.flows m hold fields hfields
    | inr hnew =>
      rw [List.mem_singleton.mp hnew] at hfields
      cases hfields
  · cases List.mem_append.mp hm with
    | inl hold => exact h.asked m hold frame hframe
    | inr hnew =>
      rw [List.mem_singleton.mp hnew] at hframe
      cases hframe

/-- The messages of an answer are about the flow of its frame, and have the port learned for it. -/
theorem Answer.flow {row : Mac → Option Port} {msg : PacketIn} {sent : List Message}
    (h : Answer msg row sent) {m : Message} (hm : m ∈ sent) :
    (∀ fields ∈ m.fields, fields = (msg.data.inPort, msg.data.dst) ∧
      row msg.data.dst = some m.output) ∧
    (m.releases = true → m.output = ofppFlood ∨ row msg.data.dst = some m.output) := by
  have htree : ∀ trees : List (List Char), m ∈ trees.map Message.experimenter →
      (∀ fields ∈ m.fields, fields = (msg.data.inPort, msg.data.dst) ∧
        row msg.data.dst = some m.output) ∧
      (m.releases = true → m.output = ofppFlood ∨ row msg.data.dst = some m.output) := by
    intro trees hmem
    obtain ⟨tree, -, rfl⟩ := List.mem_map.mp hmem
    exact ⟨fun fields hfields => absurd hfields (Option.not_mem_none fields),
      fun hreleases => absurd hreleases Bool.false_ne_true⟩
  cases h with
  | buffered port known buffer =>
    rw [List.mem_singleton.mp hm]
    exact ⟨fun fields hfields => ⟨(Option.some.inj hfields).symm, known⟩, fun _ => Or.inr known⟩
  | known port known buffer trees =>
    rcases List.mem_cons.mp hm with rfl | hrest
    · exact ⟨fun fields hfields => ⟨(Option.some.inj hfields).symm, known⟩, fun _ => Or.inr known⟩
    · rcases List.mem_cons.mp hrest with rfl | hmem
      · exact ⟨fun fields hfields => absurd hfields (Option.not_mem_none fields),
          fun _ => Or.inr known⟩
      · exact htree trees hmem
  | flood trees =>
    rcases List.mem_cons.mp hm with rfl | hmem
    · exact ⟨fun fields hfields => absurd hfields (Option.not_mem_none fields),
        fun _ => Or.inl rfl⟩
    · exact htree trees hmem

theorem learn_heard {s : Network} {dpid : U64} (h : Learned (s.macToPort dpid) (s.datapaths dpid))
    {msg : PacketIn} (hmsg : msg ∈ (s.datapaths dpid).packetIns) (world : World) (m : Mac)
    (port : Port)
    (hport : (packetInHandler world dpid msg s.macToPort).macToPort dpid m = some port) :
    Heard (s.datapaths dpid).past m port := by
  rcases packet_in_handler_cases world dpid msg s.macToPort with ⟨-, hhandled⟩ | ⟨-, hlearned, -⟩
  · rw [hhandled] at hport
    exact h.row m port hport
  · rw [hlearned, learn, Function.update_self] at hport
    by_cases hm : m = msg.data.src
    · subst hm
      rw [Function.update_self] at hport
      exact ⟨msg.data, h.reports msg hmsg, rfl, Option.some.inj hport⟩
    · rw [Function.update_of_ne hm] at hport
      exact h.row m port hport

theorem Learned.answer (h : Learned row d) (haccounted : Accounted d)
    {row' : Mac → Option Port} (hrow : ∀ m port, row' m = some port → Heard d.past m port)
    {msg : PacketIn} {rest : List PacketIn} (hreports : d.packetIns = msg :: rest)
    {sent : List Message}
    (hsent : msg.data.ethertype = ethTypeLldp ∧ sent = [] ∨ Answer msg row' sent) :
    Learned row' (answer msg sent { d with packetIns := rest }) := by
  have hbuffer := (haccounted.reports msg (hreports ▸ List.mem_cons_self ..)).2
  refine ⟨hrow, h.entries, h.accepted, h.sent,
    fun msg' hmsg' => h.reports msg' (hreports ▸ List.mem_cons_of_mem _ hmsg'),
    fun m hm fields hfields => ?_, fun m hm frame hframe => ?_⟩
  · cases List.mem_append.mp hm with
    | inl hold => exact h.flows m hold fields hfields
    | inr hnew =>
      rcases hsent with ⟨-, rfl⟩ | hanswer
      · cases hnew
      · obtain ⟨rfl, hport⟩ := (hanswer.flow hnew).1 fields hfields
        exact hrow _ _ hport
  · cases List.mem_append.mp hm with
    | inl hold => exact h.asked m hold frame hframe
    | inr hnew =>
      rcases hsent with ⟨-, rfl⟩ | hanswer
      · cases hnew
      · cases hreleases : m.releases with
        | false =>
          rw [asks_none hreleases] at hframe
          cases hframe
        | true =>
          have hasks := (hanswer.asks hbuffer).1 m hnew hreleases
          obtain rfl : msg.data = frame := Option.some.inj (hasks.symm.trans hframe)
          exact ((hanswer.flow hnew).2 hreleases).imp_right (hrow _ _)

end Steps

section Runs

variable {may : Switch} {s : Network}

theorem learned_inductive (hswitch : may.Forwards) : (network may).Inductive fun s =>
    ∀ dpid, Accounted (s.datapaths dpid) ∧ Learned (s.macToPort dpid) (s.datapaths dpid) := by
  refine inductive_of_moved (P := fun row d => Accounted d ∧ Learned row d) ?_ ?_
  · refine ⟨((accounted_inductive may).start 0).2, fun _ _ h => ?_, fun _ _ _ h => ?_,
      fun _ h => ?_, fun _ h => ?_, fun _ h => ?_, fun _ h => ?_, fun _ h => ?_⟩ <;> cases h
  · intro s a dpid row d hs hallowed hmoved
    obtain ⟨haccounted, hlearned⟩ := hs dpid
    cases hmoved with
    | kept => exact ⟨haccounted, hlearned⟩
    | features => exact ⟨haccounted.features, hlearned.features⟩
    | event e =>
      exact ⟨haccounted.event hallowed.2, hlearned.event hswitch hallowed.1 hallowed.2⟩
    | handled world msg rest reports =>
      have hsent := packet_in_handler_sent world dpid msg s.macToPort
      have hrow := learn_heard hlearned (reports ▸ List.mem_cons_self ..) world
      exact ⟨haccounted.answer reports hsent, hlearned.answer haccounted hrow reports hsent⟩

/-- However reports, frames and messages interleave, a switch that sends frames only by its flows
and by messages floods a frame, or sends it to a port on which its destination has been heard at
this datapath. Where hosts stay at their ports, it never goes to a wrong one. -/
theorem sent_where_heard (hswitch : may.Forwards) (hr : (network may).Reachable s) (dpid : U64) :
    (∀ inPort dst port, entry (s.datapaths dpid).past inPort dst = some port →
      Heard (s.datapaths dpid).past dst port) ∧
    (∀ o ∈ sent (s.datapaths dpid).past, o.2 = ofppFlood ∨
      Heard (s.datapaths dpid).past o.1.dst o.2) ∧
    ∀ home : Mac → Port,
      (∀ frame ∈ arrived (s.datapaths dpid).past, frame.inPort = home frame.src) →
      ∀ o ∈ sent (s.datapaths dpid).past, o.2 = ofppFlood ∨ o.2 = home o.1.dst := by
  have h := ((learned_inductive hswitch).reachable hr dpid).2
  refine ⟨h.entries, h.sent, fun home hhome o ho => ?_⟩
  refine (h.sent o ho).imp_right fun ⟨frame, hframe, hsrc, hport⟩ => ?_
  rw [← hport, hhome frame hframe, hsrc]

/-- Each frame that has been reported is in one place: its report is under way, or a message asks
for it that is under way or was taken, or it is given up. What is given up is an LLDP frame or was
reported with buffer 0, which counts as none. No message asks for a buffer without a frame.
Where the switch reports, forwards and releases a frame once, no frame goes out more
often than it has come in. -/
theorem frames_released_once (hr : (network may).Reachable s) (dpid : U64) :
    (reported (s.datapaths dpid).past : Multiset Frame) = underWay (s.datapaths dpid) +
      answered (s.datapaths dpid).past + (s.datapaths dpid).unreleased ∧
    (∀ frame ∈ (s.datapaths dpid).unreleased, frame.ethertype = ethTypeLldp ∨
      .report ⟨0, frame⟩ ∈ (s.datapaths dpid).past) ∧
    (∀ m ∈ (s.datapaths dpid).messages, m.releases = true →
      ∃ frame, asks (s.datapaths dpid).past m = some frame) ∧
    (may.Once → ((sent (s.datapaths dpid).past).map Prod.fst : Multiset Frame) +
      underWay (s.datapaths dpid) + (s.datapaths dpid).unreleased ≤
        arrived (s.datapaths dpid).past) := by
  obtain ⟨hpossible, h⟩ := (accounted_inductive may).reachable hr dpid
  refine ⟨h.account, h.stuck, h.messages, fun honce => Multiset.le_iff_count.mpr fun frame => ?_⟩
  have hhandled := honce.handled_le hpossible frame
  have hreleased := honce.released_le hpossible frame
  have hanswered : _ ≤ (answered (s.datapaths dpid).past).count frame :=
    accepted_answered.count_le frame
  have haccount := congrArg (Multiset.count frame) h.account
  simp only [handled, List.count_append] at hhandled
  simp only [Multiset.count_add, Multiset.coe_count] at haccount
  simp only [sent, List.map_append, Multiset.count_add, Multiset.coe_count, List.count_append]
  omega

/-- The flow is set, and nothing that is under way changes it. -/
structure Settled (inPort : Port) (dst : Mac) (port : Port) (d : Datapath) : Prop where
  entry : entry d.past inPort dst = some port
  reports : ∀ msg ∈ d.packetIns, (msg.data.inPort, msg.data.dst) ≠ (inPort, dst)
  messages : ∀ m ∈ d.messages, m.fields ≠ some (inPort, dst)

/-- Frames of the flow go to its port without a report, and no message is about it. -/
def Follows (inPort : Port) (dst : Mac) (port : Port) : Event → Prop
  | .forward frame out => frame.inPort = inPort → frame.dst = dst → out = port
  | .report msg => (msg.data.inPort, msg.data.dst) ≠ (inPort, dst)
  | .take message _ => message.fields ≠ some (inPort, dst)
  | .arrive _ | .release .. => True

section Settled

variable {inPort port : Port} {dst : Mac} {d : Datapath}

theorem Settled.follows (h : Settled inPort dst port d) (hforwards : may.Forwards)
    (hkeeps : may.Keeps) {e : Event} (hmay : may d.past e) (hallows : Allows d e) :
    Follows inPort dst port e := by
  cases e with
  | forward frame out =>
    rintro rfl rfl
    have hentry := (hforwards.forward _ _ _ hmay).2
    exact Option.some.inj (hentry.symm.trans h.entry)
  | report msg =>
    intro hsame
    obtain ⟨rfl, rfl⟩ := Prod.mk.inj hsame
    have hnone := hkeeps.report _ msg hmay
    rw [h.entry] at hnone
    cases hnone
  | take message accepted => exact h.messages message (List.mem_of_head? hallows)
  | arrive | release => trivial

theorem Settled.event (h : Settled inPort dst port d) {e : Event}
    (hfollows : Follows inPort dst port e) : Settled inPort dst port (record e d) := by
  refine ⟨?_, fun msg hmsg => ?_, fun m hm => h.messages m (mem_record_messages hm)⟩
  · have hkept : History.entry (e :: d.past) inPort dst = History.entry d.past inPort dst := by
      refine entry_kept ?_
      rintro m rfl
      exact hfollows
    exact hkept.trans h.entry
  · rcases mem_record_reports hmsg with hold | rfl
    · exact h.reports msg hold
    · exact hfollows

theorem Settled.step {t : Network} {dpid : U64} {a : Action}
    (h : Settled inPort dst port (s.datapaths dpid))
    (hfollows : ∀ e, a = .event dpid e → Follows inPort dst port e) (hrun : exec s a = .ok t) :
    Settled inPort dst port (t.datapaths dpid) := by
  have hmoved := step_moved hrun dpid
  generalize t.macToPort dpid = row at hmoved
  generalize t.datapaths dpid = d at hmoved ⊢
  cases hmoved with
  | kept => exact h
  | features =>
    refine ⟨h.entry, h.reports, fun m hm => ?_⟩
    cases List.mem_append.mp hm with
    | inl hold => exact h.messages m hold
    | inr hnew =>
      rw [List.mem_singleton.mp hnew]
      intro hfields
      cases hfields
  | event e => exact h.event (hfollows e rfl)
  | handled world msg rest reports =>
    refine ⟨h.entry, fun msg' hmsg' => h.reports msg' (reports ▸ List.mem_cons_of_mem _ hmsg'),
      fun m hm hfields => ?_⟩
    cases List.mem_append.mp hm with
    | inl hold => exact h.messages m hold hfields
    | inr hnew =>
      have hother := h.reports msg (reports ▸ List.mem_cons_self ..)
      rcases packet_in_handler_sent world dpid msg s.macToPort with ⟨-, hnone⟩ | hanswer
      · rw [hnone] at hnew
        cases hnew
      · exact hother ((hanswer.flow hnew).1 _ hfields).1.symm

end Settled

/-- A flow that is set is never changed once no report of a frame of it and no message about it is
under way, whatever comes in or is learned: where no flow is evicted or lost, all frames
of it are forwarded to the same port without a report, also when their destination is heard at
another one. -/
theorem flow_set_for_good (hforwards : may.Forwards) (hkeeps : may.Keeps) {dpid : U64}
    {inPort port : Port} {dst : Mac} (h : Settled inPort dst port (s.datapaths dpid))
    (actions : List Action) :
    (network may).Throughout (fun _ a result =>
      (∀ e, a = .event dpid e → Follows inPort dst port e) ∧
      ∀ t, result = .ok t → entry (t.datapaths dpid).past inPort dst = some port) s actions := by
  induction actions generalizing s with
  | nil => trivial
  | cons a actions ih =>
    intro hallowed
    have hfollows : ∀ e, a = .event dpid e → Follows inPort dst port e := by
      rintro e rfl
      exact h.follows hforwards hkeeps hallowed.1 hallowed.2
    have hstep : ∀ t, exec s a = .ok t → Settled inPort dst port (t.datapaths dpid) :=
      fun t hrun => h.step hfollows hrun
    exact ⟨⟨hfollows, fun t hrun => (hstep t hrun).entry⟩, fun t hrun => ih (hstep t hrun)⟩

end Runs

section Hosts

/-- A switch that buffers nothing and refuses each message that names a buffer. -/
def unbuffered (past : History) : Event → Prop
  | .arrive _ => True
  | .report msg => msg.bufferId = ofpNoBuffer ∧
    entry past msg.data.inPort msg.data.dst = none ∧
    (handled past).count msg.data < (arrived past).count msg.data
  | .forward frame port => entry past frame.inPort frame.dst = some port ∧
    (handled past).count frame < (arrived past).count frame
  | .take message accepted => accepted = message.buffer.isNone
  | .release frame port => (frame, port) ∈ accepted past ∧
    ((released past).map Prod.fst).count frame < ((accepted past).map Prod.fst).count frame

instance (past : History) (e : Event) : Decidable (unbuffered past e) :=
  match e with
  | .arrive _ => isTrue trivial
  | .report msg => inferInstanceAs (Decidable (msg.bufferId = ofpNoBuffer ∧
    entry past msg.data.inPort msg.data.dst = none ∧
    (handled past).count msg.data < (arrived past).count msg.data))
  | .forward frame port => inferInstanceAs (Decidable (
    entry past frame.inPort frame.dst = some port ∧
    (handled past).count frame < (arrived past).count frame))
  | .take message accepted => inferInstanceAs (Decidable (accepted = message.buffer.isNone))
  | .release frame port => inferInstanceAs (Decidable ((frame, port) ∈ accepted past ∧
    ((released past).map Prod.fst).count frame < ((accepted past).map Prod.fst).count frame))

theorem unbuffered_forwards : Switch.Forwards unbuffered where
  report _ _ h := List.count_pos_iff.mp (Nat.zero_lt_of_lt h.2.2)
  forward _ _ _ h := ⟨List.count_pos_iff.mp (Nat.zero_lt_of_lt h.2), h.1⟩
  release _ _ _ h := h.1

theorem unbuffered_once : Switch.Once unbuffered :=
  ⟨fun _ _ h => h.2.2, fun _ _ _ h => h.2, fun _ _ _ h => h.2⟩

theorem unbuffered_keeps : Switch.Keeps unbuffered := ⟨fun _ _ h => h.2.1⟩

def hostA : Mac := ⟨2, 0, 0, 0, 0, 1⟩
def hostB : Mac := ⟨2, 0, 0, 0, 0, 2⟩

def between (src dst : Mac) (inPort : Port) (number : Nat) : Frame :=
  ⟨dst, src, 0x0800, inPort, number⟩

/-- A frame is reported, at a time when no tree is sent. -/
def reportFrame (frame : Frame) : List Action :=
  [.event 1 (.arrive frame), .event 1 (.report ⟨ofpNoBuffer, frame⟩), .packetIn 1 ⟨1, none⟩]

def floodFrame (frame : Frame) : List Action := reportFrame frame ++
  [.event 1 (.take (.packetOut ofpNoBuffer frame.inPort ofppFlood (some frame)) true),
    .event 1 (.release frame ofppFlood)]

def sendFrame (frame : Frame) (port : Port) : List Action := reportFrame frame ++
  [.event 1 (.take (.flowMod 1 (some (frame.inPort, frame.dst)) port none) true),
    .event 1 (.take (.packetOut ofpNoBuffer frame.inPort port (some frame)) true),
    .event 1 (.release frame port)]

/-- Two hosts find each other, and the second one moves to port 3. -/
def talk : List Action :=
  [.features 1, .event 1 (.take switchFeaturesHandler true)] ++
    floodFrame (between hostA hostB 1 0) ++ sendFrame (between hostB hostA 2 1) 1 ++
    sendFrame (between hostA hostB 1 2) 2 ++ sendFrame (between hostB hostA 3 3) 1 ++
    [.event 1 (.arrive (between hostA hostB 1 4)),
      .event 1 (.forward (between hostA hostB 1 4) 2)]

instance (s : Network) (a : Action) : Decidable ((network unbuffered).enabled s a) :=
  match a with
  | .event dpid e => inferInstanceAs (Decidable
    (unbuffered (s.datapaths dpid).past e ∧ Allows (s.datapaths dpid) e))
  | .features _ | .packetIn .. => isTrue trivial

theorem talk_reachable : ∃ s, (network unbuffered).Reachable s ∧
    (sent (s.datapaths 1).past).map Prod.snd = [2, 1, 2, 1, ofppFlood] ∧
    s.macToPort 1 hostB = some 3 ∧ entry (s.datapaths 1).past 1 hostB = some 2 ∧
    (s.datapaths 1).packetIns = [] ∧ (s.datapaths 1).messages = [] := by
  have hfollow : ((network unbuffered).follow (network unbuffered).start talk).map (fun s =>
      ((sent (s.datapaths 1).past).map Prod.snd, s.macToPort 1 hostB,
        entry (s.datapaths 1).past 1 hostB, (s.datapaths 1).packetIns.isEmpty,
        (s.datapaths 1).messages.isEmpty)) =
      some ([2, 1, 2, 1, ofppFlood], some 3, some 2, true, true) := by decide
  obtain ⟨s, hr, hfacts⟩ := Machine.follow_map_reachable hfollow
  simp only [Prod.mk.injEq, List.isEmpty_iff] at hfacts
  exact ⟨s, hr, hfacts⟩

theorem sent_where_heard_talk : ∃ s, (network unbuffered).Reachable s ∧
    (sent (s.datapaths 1).past).map Prod.snd = [2, 1, 2, 1, ofppFlood] ∧
    ∀ o ∈ sent (s.datapaths 1).past, o.2 = ofppFlood ∨
      Heard (s.datapaths 1).past o.1.dst o.2 := by
  obtain ⟨s, hr, hports, -⟩ := talk_reachable
  exact ⟨s, hr, hports, (sent_where_heard unbuffered_forwards hr 1).2.1⟩

theorem frames_released_once_talk : ∃ s, (network unbuffered).Reachable s ∧
    (sent (s.datapaths 1).past).map Prod.snd = [2, 1, 2, 1, ofppFlood] ∧
    ((sent (s.datapaths 1).past).map Prod.fst : Multiset Frame) + underWay (s.datapaths 1) +
      (s.datapaths 1).unreleased ≤ arrived (s.datapaths 1).past := by
  obtain ⟨s, hr, hports, -⟩ := talk_reachable
  exact ⟨s, hr, hports, (frames_released_once hr 1).2.2.2 unbuffered_once⟩

/-- The second host has been heard at port 3, and frames for it still go to port 2. -/
theorem flow_set_for_good_moved : ∃ s, (network unbuffered).Reachable s ∧
    s.macToPort 1 hostB = some 3 ∧ ∀ actions,
      (network unbuffered).Throughout (fun _ a result =>
        (∀ e, a = .event 1 e → Follows 1 hostB 2 e) ∧
        ∀ t, result = .ok t → entry (t.datapaths 1).past 1 hostB = some 2) s actions := by
  obtain ⟨s, hr, -, hlearned, hentry, hreports, hmessages⟩ := talk_reachable
  have hsettled : Settled 1 hostB 2 (s.datapaths 1) := by
    refine ⟨hentry, fun msg hmsg => ?_, fun m hm => ?_⟩
    · rw [hreports] at hmsg
      cases hmsg
    · rw [hmessages] at hm
      cases hm
  exact ⟨s, hr, hlearned, flow_set_for_good unbuffered_forwards unbuffered_keeps hsettled⟩

end Hosts

end ApTelemetry.SimpleSwitch
