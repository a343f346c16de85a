import Mathlib.Algebra.Order.Group.Multiset
import Mathlib.Tactic.Abel
import ApTelemetry.Lib.Buffer
import ApTelemetry.Lib.Machine
import ApTelemetry.SimpleSwitch.Switch

namespace ApTelemetry.SimpleSwitch
open Lib History

/-- What has happened at a switch, and what is under way between it and the controller.
`unreleased` are the frames whose report was handled without an answer. Nothing reads it. -/
structure Datapath where
  past : History
  packetIns : List PacketIn
  messages : List Message
  unreleased : List Frame

structure Network where
  macToPort : MacToPort
  datapaths : U64 → Datapath

inductive Action where
  | features (dpid : U64)
  | event (dpid : U64) (e : Event)
  | packetIn (dpid : U64) (world : World)

/-- Reports and messages arrive in order. -/
def record (e : Event) (d : Datapath) : Datapath :=
  { d with
    past := e :: d.past
    packetIns := match e with
      | .report msg => d.packetIns ++ [msg]
      | _ => d.packetIns
    messages := match e with
      | .take .. => d.messages.tail
      | _ => d.messages }

def answer (msg : PacketIn) (sent : List Message) (d : Datapath) : Datapath :=
  { d with
    messages := d.messages ++ sent
    unreleased := d.unreleased ++ if sent.any Message.releases then [] else [msg.data] }

def exec (s : Network) : Action → Except Fault Network
  | .features dpid =>
    let d := s.datapaths dpid
    let d := { d with messages := d.messages ++ [switchFeaturesHandler] }
    .ok { s with datapaths := Function.update s.datapaths dpid d }
  | .event dpid e =>
    .ok { s with datapaths := Function.update s.datapaths dpid (record e (s.datapaths dpid)) }
  | .packetIn dpid world =>
    match (s.datapaths dpid).packetIns with
    | [] => .ok s
    | msg :: rest =>
      let handled := packetInHandler world dpid msg s.macToPort
      let d := answer msg handled.sent { s.datapaths dpid with packetIns := rest }
      .ok ⟨handled.macToPort, Function.update s.datapaths dpid d⟩

/-- The buffers that a report or a message under way refers to. -/
def held (d : Datapath) : List U32 :=
  d.packetIns.filterMap PacketIn.buffer ++ d.messages.filterMap Message.buffer

/-- The number of a buffer is not given out again while something under way refers to it, and
messages are taken in order. -/
def Allows (d : Datapath) : Event → Prop
  | .report msg => ∀ b ∈ msg.buffer, b ∉ held d
  | .take message _ => d.messages.head? = some message
  | .arrive _ | .forward .. | .release .. => True

instance (d : Datapath) (e : Event) : Decidable (Allows d e) :=
  match e with
  | .report msg => @decidable_of_iff _ (∀ b ∈ msg.buffer.toList, b ∉ held d)
    (forall_congr' fun _ => imp_congr_left Option.mem_toList) (List.decidableBAll _ _)
  | .take message _ => inferInstanceAs (Decidable (d.messages.head? = some message))
  | .arrive _ | .forward .. | .release .. => isTrue trivial

def enabled (may : Switch) (s : Network) : Action → Prop
  | .event dpid e => may (s.datapaths dpid).past e ∧ Allows (s.datapaths dpid) e
  | .features _ | .packetIn .. => True

def initial : Network where
  macToPort _ _ := none
  datapaths _ := ⟨[], [], [], []⟩

/-- The controller, with any number of switches of a kind. -/
def network (may : Switch) : Machine Network Action Fault := ⟨initial, enabled may, exec⟩

section Record

variable {d : Datapath} {e : Event}

theorem mem_record_reports {msg : PacketIn} (h : msg ∈ (record e d).packetIns) :
    msg ∈ d.packetIns ∨ e = .report msg := by
  cases e with
  | report msg' =>
    cases List.mem_append.mp h with
    | inl hold => exact Or.inl hold
    | inr hnew => exact Or.inr (congrArg Event.report (List.mem_singleton.mp hnew).symm)
  | arrive | forward | take | release => exact Or.inl h

theorem mem_record_messages {m : Message} (h : m ∈ (record e d).messages) : m ∈ d.messages := by
  cases e with
  | take message accepted => exact List.mem_of_mem_tail h
  | arrive | report | forward | release => exact h

/-- What is under way still refers to the same frames. -/
theorem buffered_record (hallows : Allows d e) {b : U32} (hb : b ∈ held d) :
    buffered (e :: d.past) b = buffered d.past b := by
  cases e with
  | report msg => exact if_neg fun hbuffer => hallows b hbuffer hb
  | arrive | forward | take | release => rfl

theorem asks_record (hallows : Allows d e) {m : Message} (hm : m ∈ d.messages) :
    asks (e :: d.past) m = asks d.past m :=
  asks_congr fun _ hb => buffered_record hallows
    (List.mem_append_right _ (List.mem_filterMap.mpr ⟨m, hm, hb⟩))

end Record

/-- The frames of reports under way, and those that messages under way ask for. -/
def underWay (d : Datapath) : Multiset Frame :=
  d.packetIns.map PacketIn.data + d.messages.filterMap (asks d.past)

/-- Each frame that has been reported is in one place. -/
structure Accounted (d : Datapath) : Prop where
  reports : ∀ msg ∈ d.packetIns, .report msg ∈ d.past ∧
    ∀ b ∈ msg.buffer, buffered d.past b = some msg.data
  messages : ∀ m ∈ d.messages, m.releases = true → ∃ frame, asks d.past m = some frame
  stuck : ∀ frame ∈ d.unreleased, frame.ethertype = ethTypeLldp ∨ .report ⟨0, frame⟩ ∈ d.past
  account : (reported d.past : Multiset Frame) = underWay d + answered d.past + d.unreleased

theorem Accounted.event {d : Datapath} (h : Accounted d) {e : Event} (hallows : Allows d e) :
    Accounted (record e d) := by
  have hasks : ∀ m ∈ d.messages, asks (e :: d.past) m = asks d.past m :=
    fun m hm => asks_record hallows hm
  refine ⟨fun msg hmsg => ?_, fun m hm hreleases => ?_, fun frame hframe => ?_, ?_⟩
  · cases mem_record_reports hmsg with
    | inl hold =>
      obtain ⟨hmem, hbuffer⟩ := h.reports msg hold
      refine ⟨List.mem_cons_of_mem _ hmem, fun b hb => ?_⟩
      have hheld : b ∈ held d :=
        List.mem_append_left _ (List.mem_filterMap.mpr ⟨msg, hold, hb⟩)
      exact (buffered_record hallows hheld).trans (hbuffer b hb)
    | inr hnew =>
      subst hnew
      exact ⟨List.mem_cons_self .., fun b hb => if_pos hb⟩
  · have hold := mem_record_messages hm
    obtain ⟨frame, hframe⟩ := h.messages m hold hreleases
    exact ⟨frame, (hasks m hold).trans hframe⟩
  · exact (h.stuck frame hframe).imp_right (List.mem_cons_of_mem _)
  · have hfilter : d.messages.filterMap (asks (e :: d.past)) = d.messages.filterMap (asks d.past) :=
      List.filterMap_congr hasks
    have haccount := h.account
    rw [underWay] at haccount ⊢
    cases e with
    | arrive | forward | release =>
      simp only [record, hfilter]
      exact haccount
    | report msg =>
      simp only [record, hfilter, List.map_append, ← Multiset.coe_add]
      change ((msg.data :: reported d.past : List Frame) : Multiset Frame) =
        _ + answered d.past + d.unreleased
      rw [← Multiset.cons_coe, ← Multiset.singleton_add, haccount]
      simp only [List.map_cons, List.map_nil, Multiset.coe_singleton]
      abel
    | take message accepted =>
      obtain ⟨rest, hmessages⟩ : ∃ rest, d.messages = message :: rest :=
        List.head?_eq_some_iff.mp hallows
      have hsplit : d.messages.filterMap (asks d.past) =
          (asks d.past message).toList ++ rest.filterMap (asks d.past) := by
        rw [hmessages, List.filterMap_cons]
        cases asks d.past message <;> rfl
      have hrest : rest.filterMap (asks (.take message accepted :: d.past)) =
          rest.filterMap (asks d.past) :=
        List.filterMap_congr fun m hm => hasks m (hmessages ▸ List.mem_cons_of_mem _ hm)
      change (reported d.past : Multiset Frame) = _ +
        ((asks d.past message).toList ++ answered d.past : List Frame) + d.unreleased
      rw [haccount, hsplit]
      simp only [record, hmessages, List.tail_cons, hrest, ← Multiset.coe_add]
      abel

section Answers

variable {d : Datapath} {past : History} {row : Mac → Option Port} {msg : PacketIn}
  {rest : List PacketIn} {sent : List Message}

theorem asks_none {m : Message} (h : m.releases = false) : asks past m = none := by
  cases m with
  | flowMod priority fields output bufferId =>
    cases bufferId with
    | none => rfl
    | some b => cases h
  | packetOut => cases h
  | experimenter => rfl

/-- An answer asks for the frame of its report, or for none where this is in buffer 0. -/
theorem Answer.asks (h : Answer msg row sent)
    (hbuffer : ∀ b ∈ msg.buffer, past.buffered b = some msg.data) :
    (∀ m ∈ sent, m.releases = true → past.asks m = some msg.data) ∧
    (sent.any Message.releases = true ∧ sent.filterMap past.asks = [msg.data] ∨
      sent.any Message.releases = false ∧ sent.filterMap past.asks = [] ∧
        msg.bufferId = 0) := by
  have htrees : ∀ trees : List (List Char), (trees.map Message.experimenter).filterMap
      past.asks = [] := by
    intro trees
    rw [List.filterMap_map]
    exact List.filterMap_eq_nil_iff.mpr fun _ _ => rfl
  cases h with
  | buffered port known buffer =>
    have hasked : past.buffered msg.bufferId = some msg.data := hbuffer _ (if_neg buffer)
    by_cases hzero : msg.bufferId = 0
    · rw [if_neg (not_not.mpr hzero)]
      refine ⟨fun m hm hreleases => ?_, .inr ⟨rfl, rfl, hzero⟩⟩
      rw [List.mem_singleton.mp hm] at hreleases
      cases hreleases
    · rw [if_pos hzero]
      have hflow : past.asks (.flowMod 1 (some (msg.data.inPort, msg.data.dst)) port
          (some msg.bufferId)) = some msg.data := hasked
      refine ⟨fun m hm _ => ?_, .inl ⟨rfl, ?_⟩⟩
      · rw [List.mem_singleton.mp hm, hflow]
      · rw [List.filterMap_cons_some hflow, List.filterMap_nil]
  | known port known buffer trees =>
    refine ⟨fun m hm hreleases => ?_, .inl ⟨rfl, congrArg (msg.data :: ·) (htrees trees)⟩⟩
    rcases List.mem_cons.mp hm with rfl | hrest
    · cases hreleases
    · rcases List.mem_cons.mp hrest with rfl | htree
      · rfl
      · obtain ⟨tree, -, rfl⟩ := List.mem_map.mp htree
        cases hreleases
  | flood trees =>
    have hout : past.asks (.packetOut msg.bufferId msg.data.inPort ofppFlood
        (if msg.bufferId = ofpNoBuffer then some msg.data else none)) = some msg.data := by
      by_cases hnone : msg.bufferId = ofpNoBuffer
      · rw [if_pos hnone]
        rfl
      · rw [if_neg hnone]
        exact hbuffer _ (if_neg hnone)
    refine ⟨fun m hm hreleases => ?_, .inl ⟨rfl, ?_⟩⟩
    · rcases List.mem_cons.mp hm with rfl | htree
      · exact hout
      · obtain ⟨tree, -, rfl⟩ := List.mem_map.mp htree
        cases hreleases
    · rw [List.filterMap_cons_some hout, htrees]

theorem Accounted.answer (h : Accounted d) (hreports : d.packetIns = msg :: rest)
    (hsent : msg.data.ethertype = ethTypeLldp ∧ sent = [] ∨ Answer msg row sent) :
    Accounted (answer msg sent { d with packetIns := rest }) := by
  obtain ⟨hreport, hbuffer⟩ := h.reports msg (hreports ▸ List.mem_cons_self ..)
  have hasks : ∀ m ∈ sent, m.releases = true → asks d.past m = some msg.data := by
    rcases hsent with ⟨-, rfl⟩ | hanswer
    · exact fun m hm => absurd hm List.not_mem_nil
    · exact (hanswer.asks hbuffer).1
  have hplace : sent.any Message.releases = true ∧ sent.filterMap (asks d.past) = [msg.data] ∨
      sent.any Message.releases = false ∧ sent.filterMap (asks d.past) = [] ∧
        (msg.data.ethertype = ethTypeLldp ∨ msg.bufferId = 0) := by
    rcases hsent with ⟨hlldp, rfl⟩ | hanswer
    · exact .inr ⟨rfl, rfl, .inl hlldp⟩
    · exact (hanswer.asks hbuffer).2.imp_right fun ⟨hany, hnone, hzero⟩ => ⟨hany, hnone, .inr hzero⟩
  have haccount := h.account
  rw [underWay, hreports, List.map_cons, ← Multiset.cons_coe, ← Multiset.singleton_add] at haccount
  refine ⟨fun msg' hmsg' => h.reports msg' (hreports ▸ List.mem_cons_of_mem _ hmsg'), ?_, ?_, ?_⟩
  · intro m hm hreleases
    cases List.mem_append.mp hm with
    | inl hold => exact h.messages m hold hreleases
    | inr hnew => exact ⟨msg.data, hasks m hnew hreleases⟩
  · intro frame hframe
    cases List.mem_append.mp hframe with
    | inl hold => exact h.stuck frame hold
    | inr hnew =>
      rcases hplace with ⟨hany, -⟩ | ⟨hany, -, hwhy⟩
      · rw [if_pos hany] at hnew
        cases hnew
      · rw [if_neg (by simp [hany])] at hnew
        rw [List.mem_singleton.mp hnew]
        refine hwhy.imp_right fun hzero => ?_
        rw [← hzero]
        exact hreport
  · simp only [underWay, SimpleSwitch.answer, List.filterMap_append, ← Multiset.coe_add]
    rw [haccount]
    rcases hplace with ⟨hany, hasked⟩ | ⟨hany, hasked, -⟩
    · simp only [hany, hasked, if_true, Multiset.coe_singleton, Multiset.coe_nil]
      abel
    · simp only [hany, hasked, Bool.false_eq_true, if_false, Multiset.coe_singleton,
        Multiset.coe_nil]
      abel

end Answers

/-- What a step does to a datapath, and to what has been learned there. -/
inductive Moved (s : Network) (dpid : U64) : Action → (Mac → Option Port) → Datapath → Prop
  | kept (a : Action) : Moved s dpid a (s.macToPort dpid) (s.datapaths dpid)
  | features : Moved s dpid (.features dpid) (s.macToPort dpid) { s.datapaths dpid with
      messages := (s.datapaths dpid).messages ++ [switchFeaturesHandler] }
  | event (e : Event) :
    Moved s dpid (.event dpid e) (s.macToPort dpid) (record e (s.datapaths dpid))
  | handled (world : World) (msg : PacketIn) (rest : List PacketIn)
    (reports : (s.datapaths dpid).packetIns = msg :: rest) :
    Moved s dpid (.packetIn dpid world)
      ((packetInHandler world dpid msg s.macToPort).macToPort dpid)
      (answer msg (packetInHandler world dpid msg s.macToPort).sent
        { s.datapaths dpid with packetIns := rest })

theorem packet_in_handler_other {world : World} {dpid j : U64} {msg : PacketIn}
    {macToPort : MacToPort} (hj : j ≠ dpid) :
    (packetInHandler world dpid msg macToPort).macToPort j = macToPort j := by
  rcases packet_in_handler_cases world dpid msg macToPort with ⟨-, hhandled⟩ | ⟨-, hlearned, -⟩
  · rw [hhandled]
  · rw [hlearned, learn, Function.update_of_ne hj]

theorem packet_in_handler_sent (world : World) (dpid : U64) (msg : PacketIn)
    (macToPort : MacToPort) :
    msg.data.ethertype = ethTypeLldp ∧ (packetInHandler world dpid msg macToPort).sent = [] ∨
      Answer msg ((packetInHandler world dpid msg macToPort).macToPort dpid)
        (packetInHandler world dpid msg macToPort).sent := by
  rcases packet_in_handler_cases world dpid msg macToPort with
    ⟨hlldp, hhandled⟩ | ⟨-, hlearned, hanswer⟩
  · exact Or.inl ⟨hlldp, by rw [hhandled]⟩
  · rw [hlearned]
    exact Or.inr hanswer

theorem step_moved {s t : Network} {a : Action} (hrun : exec s a = .ok t) (dpid : U64) :
    Moved s dpid a (t.macToPort dpid) (t.datapaths dpid) := by
  cases a with
  | features j =>
    cases hrun
    by_cases hj : dpid = j
    · subst hj
      simp only [Function.update_self]
      exact .features
    · simp only [Function.update_of_ne hj]
      exact .kept _
  | event j e =>
    cases hrun
    by_cases hj : dpid = j
    · subst hj
      simp only [Function.update_self]
      exact .event e
    · simp only [Function.update_of_ne hj]
      exact .kept _
  | packetIn j world =>
    simp only [exec] at hrun
    split at hrun
    · cases hrun
      exact .kept _
    · rename_i msg rest hreports
      cases hrun
      by_cases hj : dpid = j
      · subst hj
        simp only [Function.update_self]
        exact .handled world msg rest hreports
      · simp only [Function.update_of_ne hj, packet_in_handler_other hj]
        exact .kept _

theorem exec_runs (s : Network) (a : Action) : ∃ t, exec s a = .ok t := by
  cases a with
  | features | event => exact ⟨_, rfl⟩
  | packetIn dpid world =>
    simp only [exec]
    split <;> exact ⟨_, rfl⟩

/-- What each step keeps at each datapath holds in every run. -/
theorem inductive_of_moved {allowed : Network → Action → Prop}
    {P : (Mac → Option Port) → Datapath → Prop} (hstart : P (fun _ => none) ⟨[], [], [], []⟩)
    (hstep : ∀ s a dpid row d, (∀ j, P (s.macToPort j) (s.datapaths j)) → allowed s a →
      Moved s dpid a row d → P row d) :
    (⟨initial, allowed, exec⟩ : Machine Network Action Fault).Inductive fun s =>
      ∀ dpid, P (s.macToPort dpid) (s.datapaths dpid) where
  start _ := hstart
  step s a hs hallowed := by
    obtain ⟨t, hrun⟩ := exec_runs s a
    exact ⟨t, hrun, fun dpid => hstep s a dpid _ _ hs hallowed (step_moved hrun dpid)⟩

theorem Accounted.features {d : Datapath} (h : Accounted d) :
    Accounted { d with messages := d.messages ++ [switchFeaturesHandler] } := by
  refine ⟨h.reports, fun m hm hreleases => ?_, h.stuck, ?_⟩
  · cases List.mem_append.mp hm with
    | inl hold => exact h.messages m hold hreleases
    | inr hnew =>
      rw [List.mem_singleton.mp hnew] at hreleases
      cases hreleases
  · have hnone : [switchFeaturesHandler].filterMap (asks d.past) = [] := rfl
    simp only [underWay, List.filterMap_append, hnone, List.append_nil]
    exact h.account

/-- The frames are accounted for whatever the switch does. -/
theorem accounted_inductive (may : Switch) : (network may).Inductive fun s =>
    ∀ dpid, may.Possible (s.datapaths dpid).past ∧ Accounted (s.datapaths dpid) := by
  refine inductive_of_moved (P := fun _ d => may.Possible d.past ∧ Accounted d) ?_ ?_
  · refine ⟨.nil, fun _ h => ?_, fun _ h => ?_, fun _ h => ?_, rfl⟩ <;> cases h
  · intro s a dpid row d hs hallowed hmoved
    obtain ⟨hpossible, haccounted⟩ := hs dpid
    cases hmoved with
    | kept => exact ⟨hpossible, haccounted⟩
    | features => exact ⟨hpossible, haccounted.features⟩
    | event e => exact ⟨hpossible.cons e hallowed.1, haccounted.event hallowed.2⟩
    | handled world msg rest reports =>
      have hsent := packet_in_handler_sent world dpid msg s.macToPort
      exact ⟨hpossible, haccounted.answer reports hsent⟩

end ApTelemetry.SimpleSwitch
