import ApTelemetry.Sendudp.IwList

namespace ApTelemetry.Sendudp.Netlink
open Lib

/-- A message from a process: the length of its buffer, `nlmsg_len` of its header,
which the process chose, and the text behind that. -/
structure Request where
  skbLen : Nat
  nlmsgLen : U32
  data : List Char

/-- `nlmsg_len (nlh)` behind the header of 16 bytes, in the 16 bits of `len`. -/
def replyLen (nlmsgLen : U32) : Nat := ((nlmsgLen - 16).setWidth 16).toNat

/-- The bytes of the buffer that a reply is sent from. The links are sent from the
one of the state. -/
def bufSize : Reply → Nat
  | .nonedata => 9
  | .state _ => 112
  | .link _ => 112
  | .flow _ => 48

/-- `send_msg` copies as many bytes of the buffer as it is told. -/
def sendMsg (len : Nat) (reply : Reply) : Except Fault Reply :=
  if len ≤ bufSize reply then .ok reply else .error .outside

def sendAll (len : Nat) : List Reply → Except Fault (List Reply)
  | [] => .ok []
  | reply :: rest => do
    let reply ← sendMsg len reply
    let rest ← sendAll len rest
    .ok (reply :: rest)

/-- `recv_cb` with what it sends. -/
def receive (skb : Request) (stack : Apstates) (tables : Tables) (s : ApsRing) :
    Except Fault (List Reply) :=
  if 16 ≤ skb.skbLen then do
    let replies ← recvCb skb.data stack tables s
    sendAll (replyLen skb.nlmsgLen) replies
  else .ok []

/-- Whatever the stack holds, the replies are read inside their buffers and are
the same. -/
def Initialised (skb : Request) (tables : Tables) (s : ApsRing) : Prop :=
  ∃ replies, ∀ stack, receive skb stack tables s = .ok replies

/-- A request that gets no state and asks for no more than the buffer of its
replies has. -/
def Bounded (skb : Request) (s : ApsRing) : Prop :=
  if strcmpN skb.data ['s', 't', 'a', 't', 'e', 's'] 6 then
    Unmoved s ∧ replyLen skb.nlmsgLen ≤ 9
  else strcmpN skb.data ['f', 'l', 'o', 'w', 's', 's'] 6 = true → replyLen skb.nlmsgLen ≤ 48

theorem send_all_iff {len : Nat} {replies sent : List Reply} :
    sendAll len replies = .ok sent ↔ sent = replies ∧ ∀ r ∈ replies, len ≤ bufSize r := by
  induction replies generalizing sent with
  | nil =>
    constructor
    · intro h
      exact ⟨(Except.ok.inj h).symm, by simp⟩
    · rintro ⟨rfl, -⟩
      rfl
  | cons r rest ih =>
    constructor
    · intro h
      rw [sendAll] at h
      obtain ⟨r', hr, hall⟩ := bind_ok h
      obtain ⟨rest', hrest, hsent⟩ := bind_ok hall
      obtain ⟨rfl, hlong⟩ := ih.mp hrest
      unfold sendMsg at hr
      split at hr
      · rename_i hle
        obtain rfl := Except.ok.inj hr
        exact ⟨(Except.ok.inj hsent).symm, List.forall_mem_cons.mpr ⟨hle, hlong⟩⟩
      · cases hr
    · rintro ⟨rfl, hall⟩
      obtain ⟨hle, hrest⟩ := List.forall_mem_cons.mp hall
      have hsend : sendMsg len r = .ok r := if_pos hle
      simp only [sendAll, hsend, ih.mpr ⟨rfl, hrest⟩, bind, Except.bind]

variable {skb : Request} {tables : Tables} {s : ApsRing}

theorem receive_iff {stack : Apstates} {replies sent : List Reply} (haccepted : 16 ≤ skb.skbLen)
    (h : recvCb skb.data stack tables s = .ok replies) :
    receive skb stack tables s = .ok sent ↔
      sent = replies ∧ ∀ r ∈ replies, replyLen skb.nlmsgLen ≤ bufSize r := by
  rw [receive, if_pos haccepted, h]
  exact send_all_iff

/-- Replies that do not depend on the stack are all right if they are long enough. -/
theorem initialised_of_same {replies : List Reply} (haccepted : 16 ≤ skb.skbLen)
    (h : ∀ stack, recvCb skb.data stack tables s = .ok replies) :
    Initialised skb tables s ↔ ∀ r ∈ replies, replyLen skb.nlmsgLen ≤ bufSize r := by
  constructor
  · rintro ⟨sent, hsent⟩
    exact ((receive_iff haccepted (h zeroApstates)).mp (hsent zeroApstates)).2
  · intro hall
    exact ⟨replies, fun stack => (receive_iff haccepted (h stack)).mpr ⟨rfl, hall⟩⟩

/-- The state's number of neighbours is what the stack holds. -/
theorem state_not_initialised (hsize : s.apstatesGlobal.length = apsl) (htail : s.apsTail < apsl)
    (haccepted : 16 ≤ skb.skbLen)
    (hdata : strcmpN skb.data ['s', 't', 'a', 't', 'e', 's'] 6 = true) (hmoved : ¬ Unmoved s) :
    ¬ Initialised skb tables s := by
  rintro ⟨sent, hsent⟩
  obtain ⟨hd, hs⟩ := not_or.mp hmoved
  have hstate : ∀ stack : Apstates, ∃ apstat links, sent = .state apstat :: links ∧
      apstat.neibours = stack.neibours := by
    intro stack
    obtain ⟨q3, qf, ⟨hun, -⟩ | ⟨-, hreply⟩⟩ := states_reply_eq hsize htail stack tables
    · exact absurd hun hmoved
    · obtain ⟨apstat, hrates, hheads⟩ := rates_runs stack hd hs q3 qf (liveLinks tables.iwp).length
      rw [hrates] at hreply
      have hrun : recvCb skb.data stack tables s = .ok (.state apstat ::
          (liveLinks tables.iwp).map fun tmp4 => .link (iw2linkstates tmp4)) := by
        rw [recvCb, if_pos hdata, hreply]
        rfl
      exact ⟨apstat, _, ((receive_iff haccepted hrun).mp (hsent stack)).1, hheads.neibours⟩
  obtain ⟨apstat, links, hsent0, hzero⟩ := hstate zeroApstates
  obtain ⟨apstat', links', hsent1, hone⟩ := hstate { zeroApstates with neibours := 1 }
  obtain ⟨he, -⟩ := List.cons.inj (hsent0.symm.trans hsent1)
  rw [Reply.state.inj he, hone] at hzero
  exact absurd hzero (by decide)

/-- Replies hold nothing but initialised data exactly if the request gets no state
and asks for no more than a buffer. -/
theorem initialised_iff (hsize : s.apstatesGlobal.length = apsl) (htail : s.apsTail < apsl)
    (haccepted : 16 ≤ skb.skbLen) : Initialised skb tables s ↔ Bounded skb s := by
  unfold Bounded
  split
  · rename_i hdata
    by_cases hun : Unmoved s
    · have hrun : ∀ stack, recvCb skb.data stack tables s = .ok [.nonedata] := by
        intro stack
        obtain ⟨q3, qf, ⟨-, hreply⟩ | ⟨hmoved, -⟩⟩ := states_reply_eq hsize htail stack tables
        · rw [recvCb, if_pos hdata, hreply]
        · exact absurd hun hmoved
      rw [and_iff_right hun, initialised_of_same haccepted hrun, List.forall_mem_singleton]
      rfl
    · exact iff_of_false (state_not_initialised hsize htail haccepted hdata hun) fun h => hun h.1
  · rename_i hdata
    by_cases hflows : strcmpN skb.data ['f', 'l', 'o', 'w', 's', 's'] 6 = true
    · have hrun : ∀ stack, recvCb skb.data stack tables s =
          .ok (tables.flowLinger.toList.map .flow) := by
        intro stack
        rw [recvCb, if_neg hdata, if_pos hflows]
      rw [initialised_of_same haccepted hrun]
      constructor
      · intro h _
        exact h (.flow tables.flowLinger[0]) (by simp)
      · intro h r hr
        obtain ⟨tmp, -, rfl⟩ := List.mem_map.mp hr
        exact h hflows
    · have hrun : ∀ stack, recvCb skb.data stack tables s = .ok [] := by
        intro stack
        rw [recvCb, if_neg hdata, if_neg hflows]
      rw [initialised_of_same haccepted hrun]
      exact iff_of_true (by simp) fun h => absurd h hflows

/-- A request for the flows as the controller's process sends it. -/
def flowsRequest : Request := ⟨168, 168, ['f', 'l', 'o', 'w', 's', 's']⟩

/-- The same, cut to the size of a flow. -/
def shortRequest : Request := { flowsRequest with nlmsgLen := 64 }

theorem initialised_iff_short :
    Initialised shortRequest IwList.zeroTables loaded ↔ Bounded shortRequest loaded :=
  initialised_iff loaded_invariant.size loaded_invariant.cursors.first_lt (by decide)

/-- Its answer goes on for 104 bytes behind each flow. -/
theorem reply_read_past_flow : ¬ ∀ (skb : Request) (tables : Tables) (s : ApsRing),
    s.apstatesGlobal.length = apsl → s.apsTail < apsl → 16 ≤ skb.skbLen →
    Initialised skb tables s := by
  intro h
  obtain ⟨sent, hsent⟩ := h flowsRequest IwList.zeroTables loaded
    loaded_invariant.size loaded_invariant.cursors.first_lt (by decide)
  have hrun := hsent zeroApstates
  cases hrun

end ApTelemetry.Sendudp.Netlink
