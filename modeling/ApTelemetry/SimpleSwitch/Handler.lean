import Mathlib.Logic.Function.Basic
import ApTelemetry.Structs

namespace ApTelemetry.SimpleSwitch

abbrev Port := U32

def ofppFlood : Port := 0xfffffffb
def ofppController : Port := 0xfffffffd
def ofpNoBuffer : U32 := 0xffffffff
def ethTypeLldp : U16 := 0x88cc

/-- A frame with its Ethernet header as `packet.Packet` parses it. `number` tells the frames of a
datapath apart, and nothing reads it. -/
structure Frame where
  dst : Mac
  src : Mac
  ethertype : U16
  inPort : Port
  number : Nat
  deriving DecidableEq

/-- `ev.msg`: `data` has at least the header. -/
structure PacketIn where
  bufferId : U32
  data : Frame
  deriving DecidableEq

/-- What the application sends. A flow without `fields` matches every frame, and every flow and
packet out has one output action. -/
inductive Message where
  | flowMod (priority : Nat) (fields : Option (Port × Mac)) (output : Port)
      (bufferId : Option U32)
  | packetOut (bufferId : U32) (inPort : Port) (output : Port) (data : Option Frame)
  | experimenter (tree : List Char)
  deriving DecidableEq

/-- `self.mac_to_port`, where a datapath without a dictionary has learned nothing. -/
abbrev MacToPort := U64 → Mac → Option Port

/-- The clock, and the first line of `tree.csv` if it can be opened. -/
structure World where
  time : Nat
  treeCsv : Option (List Char)

/-- A buffer with the number 0 counts as none. -/
def addFlow (priority : Nat) (fields : Option (Port × Mac)) (output : Port)
    (bufferId : Option U32) : Message :=
  match bufferId with
  | some b => .flowMod priority fields output (if b ≠ 0 then some b else none)
  | none => .flowMod priority fields output none

def switchFeaturesHandler : Message := addFlow 0 none ofppController none

/-- Where a handler ends, and whether it does so with an `UnboundLocalError`. -/
structure Handled where
  macToPort : MacToPort
  sent : List Message
  raises : Bool

/-- The end of `_packet_in_handler`: `tree` has no value where the file cannot be opened. -/
def sendTree (world : World) : List Message × Bool :=
  if world.time % 6 = 0 then
    match world.treeCsv with
    | none => ([], true)
    | some tree => if tree ≠ [] then ([.experimenter tree], false) else ([], false)
  else ([], false)

def learn (dpid : U64) (msg : PacketIn) (macToPort : MacToPort) : MacToPort :=
  Function.update macToPort dpid
    (Function.update (macToPort dpid) msg.data.src (some msg.data.inPort))

def packetInHandler (world : World) (dpid : U64) (msg : PacketIn) (macToPort : MacToPort) :
    Handled :=
  if msg.data.ethertype = ethTypeLldp then ⟨macToPort, [], false⟩
  else
    let macToPort := learn dpid msg macToPort
    let outPort := (macToPort dpid msg.data.dst).getD ofppFlood
    let fields := some (msg.data.inPort, msg.data.dst)
    if outPort ≠ ofppFlood ∧ msg.bufferId ≠ ofpNoBuffer then
      ⟨macToPort, [addFlow 1 fields outPort (some msg.bufferId)], false⟩
    else
      let flow := if outPort ≠ ofppFlood then [addFlow 1 fields outPort none] else []
      let data := if msg.bufferId = ofpNoBuffer then some msg.data else none
      let out := Message.packetOut msg.bufferId msg.data.inPort outPort data
      ⟨macToPort, flow ++ out :: (sendTree world).1, (sendTree world).2⟩

section Spec

variable (world : World) (dpid : U64) (msg : PacketIn) (macToPort : MacToPort)

/-- What is sent for a frame, when `row` is what has been learned at its datapath. -/
inductive Answer (row : Mac → Option Port) : List Message → Prop
  | buffered (port : Port) (known : row msg.data.dst = some port)
    (buffer : msg.bufferId ≠ ofpNoBuffer) :
    Answer row [.flowMod 1 (some (msg.data.inPort, msg.data.dst)) port
      (if msg.bufferId ≠ 0 then some msg.bufferId else none)]
  | known (port : Port) (known : row msg.data.dst = some port) (buffer : msg.bufferId = ofpNoBuffer)
    (trees : List (List Char)) :
    Answer row (.flowMod 1 (some (msg.data.inPort, msg.data.dst)) port none ::
      .packetOut msg.bufferId msg.data.inPort port (some msg.data) :: trees.map .experimenter)
  | flood (trees : List (List Char)) :
    Answer row (.packetOut msg.bufferId msg.data.inPort ofppFlood
      (if msg.bufferId = ofpNoBuffer then some msg.data else none) :: trees.map .experimenter)

theorem send_tree_trees : ∃ trees : List (List Char),
    (sendTree world).1 = trees.map .experimenter := by
  unfold sendTree
  split
  · split
    · exact ⟨[], rfl⟩
    · split
      · exact ⟨[_], rfl⟩
      · exact ⟨[], rfl⟩
  · exact ⟨[], rfl⟩

theorem packet_in_handler_cases :
    (msg.data.ethertype = ethTypeLldp ∧
      packetInHandler world dpid msg macToPort = ⟨macToPort, [], false⟩) ∨
    (msg.data.ethertype ≠ ethTypeLldp ∧
      (packetInHandler world dpid msg macToPort).macToPort = learn dpid msg macToPort ∧
      Answer msg (learn dpid msg macToPort dpid)
        (packetInHandler world dpid msg macToPort).sent) := by
  by_cases hlldp : msg.data.ethertype = ethTypeLldp
  · exact Or.inl ⟨hlldp, by rw [packetInHandler, if_pos hlldp]⟩
  · refine Or.inr ⟨hlldp, ?_⟩
    rw [packetInHandler, if_neg hlldp]
    obtain ⟨trees, htrees⟩ := send_tree_trees world
    generalize learn dpid msg macToPort = learned
    cases hrow : learned dpid msg.data.dst with
    | none =>
      simp only [hrow, Option.getD_none, ne_eq, not_true_eq_false, false_and, if_false, htrees]
      exact ⟨trivial, .flood trees⟩
    | some port =>
      simp only [hrow, Option.getD_some, htrees]
      by_cases hflood : port = ofppFlood
      · subst hflood
        simp only [ne_eq, not_true_eq_false, false_and, if_false]
        exact ⟨trivial, .flood trees⟩
      · by_cases hbuffer : msg.bufferId = ofpNoBuffer
        · rw [if_neg (fun h => h.2 hbuffer), if_pos hflood, if_pos hbuffer]
          exact ⟨rfl, .known port hrow hbuffer trees⟩
        · rw [if_pos ⟨hflood, hbuffer⟩]
          exact ⟨rfl, .buffered port hrow hbuffer⟩

end Spec

end ApTelemetry.SimpleSwitch
