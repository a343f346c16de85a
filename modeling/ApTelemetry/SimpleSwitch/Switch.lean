import ApTelemetry.SimpleSwitch.Handler

namespace ApTelemetry.SimpleSwitch

/-- What can be seen of a switch. A frame is forwarded by a flow and released by a message. -/
inductive Event where
  | arrive (frame : Frame)
  | report (msg : PacketIn)
  | forward (frame : Frame) (port : Port)
  | take (message : Message) (accepted : Bool)
  | release (frame : Frame) (port : Port)
  deriving DecidableEq

/-- A history has its newest event first. -/
abbrev History := List Event

/-- A switch is not part of the code, and is what can happen there after a history. -/
abbrev Switch := History → Event → Prop

def PacketIn.buffer (msg : PacketIn) : Option U32 :=
  if msg.bufferId = ofpNoBuffer then none else some msg.bufferId

def Message.buffer : Message → Option U32
  | .flowMod _ _ _ bufferId => bufferId
  | .packetOut bufferId _ _ data => if data.isSome then none else some bufferId
  | .experimenter _ => none

/-- Whether a message asks for a frame to be sent. -/
def Message.releases : Message → Bool
  | .flowMod _ _ _ bufferId => bufferId.isSome
  | .packetOut .. => true
  | .experimenter _ => false

def Message.fields : Message → Option (Port × Mac)
  | .flowMod _ fields _ _ => fields
  | .packetOut .. | .experimenter _ => none

def Message.output : Message → Port
  | .flowMod _ _ output _ => output
  | .packetOut _ _ output _ => output
  | .experimenter _ => 0

namespace History

def arrived : History → List Frame
  | [] => []
  | .arrive frame :: past => frame :: arrived past
  | _ :: past => arrived past

def reported : History → List Frame
  | [] => []
  | .report msg :: past => msg.data :: reported past
  | _ :: past => reported past

def forwarded : History → List (Frame × Port)
  | [] => []
  | .forward frame port :: past => (frame, port) :: forwarded past
  | _ :: past => forwarded past

def released : History → List (Frame × Port)
  | [] => []
  | .release frame port :: past => (frame, port) :: released past
  | _ :: past => released past

def sent (past : History) : List (Frame × Port) := past.forwarded ++ past.released

/-- The frame that was last reported with the number of a buffer. -/
def buffered : History → U32 → Option Frame
  | [], _ => none
  | .report msg :: past, b => if msg.buffer = some b then some msg.data else buffered past b
  | _ :: past, b => buffered past b

/-- The frame that a message asks for. -/
def asks (past : History) : Message → Option Frame
  | .flowMod _ _ _ bufferId => bufferId.bind past.buffered
  | .packetOut bufferId _ _ data => data.or (past.buffered bufferId)
  | .experimenter _ => none

/-- The frames that the messages taken have asked for. -/
def answered : History → List Frame
  | [] => []
  | .take message _ :: past => (asks past message).toList ++ answered past
  | _ :: past => answered past

/-- Those of the messages that were accepted, and where they are to go. -/
def accepted : History → List (Frame × Port)
  | [] => []
  | .take message true :: past =>
    (asks past message).toList.map (·, message.output) ++ accepted past
  | _ :: past => accepted past

/-- The output of the last flow that was accepted for these fields. -/
def entry : History → Port → Mac → Option Port
  | [], _, _ => none
  | .take message true :: past, inPort, dst =>
    if message.fields = some (inPort, dst) then some message.output else entry past inPort dst
  | _ :: past, inPort, dst => entry past inPort dst

/-- The trees that have been taken. -/
def trees : History → List (List Char)
  | [] => []
  | .take (.experimenter tree) _ :: past => tree :: trees past
  | _ :: past => trees past

/-- The frames that have left the table of flows. -/
def handled (past : History) : List Frame := past.reported ++ past.forwarded.map Prod.fst

end History

namespace Switch
open History

/-- A switch sends frames only by its flows and by the messages it has accepted, and under the
number of a buffer only the frame that was reported with it. -/
structure Forwards (may : Switch) : Prop where
  report : ∀ past msg, may past (.report msg) → msg.data ∈ arrived past
  forward : ∀ past frame port, may past (.forward frame port) →
    frame ∈ arrived past ∧ entry past frame.inPort frame.dst = some port
  release : ∀ past frame port, may past (.release frame port) → (frame, port) ∈ accepted past

/-- A frame that comes in is reported or forwarded at most once, and a message that
is accepted releases at most one. -/
structure Once (may : Switch) : Prop where
  report : ∀ past msg, may past (.report msg) →
    (handled past).count msg.data < (arrived past).count msg.data
  forward : ∀ past frame port, may past (.forward frame port) →
    (handled past).count frame < (arrived past).count frame
  release : ∀ past frame port, may past (.release frame port) →
    ((released past).map Prod.fst).count frame < ((accepted past).map Prod.fst).count frame

/-- No flow is evicted or lost, so that a frame with a flow is not reported. -/
structure Keeps (may : Switch) : Prop where
  report : ∀ past msg, may past (.report msg) → entry past msg.data.inPort msg.data.dst = none

end Switch

namespace History

/-- A frame from `m` has come in on `port`. -/
def Heard (past : History) (m : Mac) (port : Port) : Prop :=
  ∃ frame ∈ arrived past, frame.src = m ∧ frame.inPort = port

variable {past : History}

theorem arrived_cons (e : Event) : arrived past ⊆ arrived (e :: past) := by
  cases e with
  | arrive frame => exact List.subset_cons_self ..
  | report | forward | take | release => exact List.Subset.refl _

theorem Heard.cons {m : Mac} {port : Port} (h : Heard past m port) (e : Event) :
    Heard (e :: past) m port := by
  obtain ⟨frame, hframe, hsrc⟩ := h
  exact ⟨frame, arrived_cons e hframe, hsrc⟩

/-- A frame that a message asks for is with it, or was reported with its buffer. -/
theorem asks_congr {other : History} {m : Message}
    (h : ∀ b ∈ m.buffer, buffered other b = buffered past b) : asks other m = asks past m := by
  cases m with
  | flowMod priority fields output bufferId =>
    cases bufferId with
    | none => rfl
    | some b => exact h b rfl
  | packetOut bufferId inPort output data =>
    cases data with
    | none => exact h bufferId rfl
    | some frame => rfl
  | experimenter tree => rfl

/-- One more message may have been accepted. -/
theorem mem_accepted_cons {e : Event} {o : Frame × Port} (h : o ∈ accepted (e :: past)) :
    o ∈ accepted past ∨ ∃ m, e = .take m true ∧ o.1 ∈ asks past m ∧ o.2 = m.output := by
  cases e with
  | take message accepted =>
    cases accepted with
    | false => exact Or.inl h
    | true =>
      cases List.mem_append.mp h with
      | inl hnew =>
        obtain ⟨frame, hframe, rfl⟩ := List.mem_map.mp hnew
        exact Or.inr ⟨message, rfl, Option.mem_toList.mp hframe, rfl⟩
      | inr hold => exact Or.inl hold
  | arrive | report | forward | release => exact Or.inl h

/-- One more frame may have been sent. -/
theorem mem_sent_cons {e : Event} {o : Frame × Port} (h : o ∈ sent (e :: past)) :
    o ∈ sent past ∨ e = .forward o.1 o.2 ∨ e = .release o.1 o.2 := by
  cases e with
  | forward frame port =>
    cases List.mem_cons.mp h with
    | inl hnew => exact Or.inr (Or.inl (by rw [hnew]))
    | inr hold => exact Or.inl hold
  | release frame port =>
    cases List.mem_append.mp h with
    | inl hold => exact Or.inl (List.mem_append_left _ hold)
    | inr hreleased =>
      cases List.mem_cons.mp hreleased with
      | inl hnew => exact Or.inr (Or.inr (by rw [hnew]))
      | inr hold => exact Or.inl (List.mem_append_right _ hold)
  | arrive | report | take => exact Or.inl h

/-- One more flow may have been accepted. -/
theorem entry_cons {e : Event} {inPort port : Port} {dst : Mac}
    (h : entry (e :: past) inPort dst = some port) : entry past inPort dst = some port ∨
      ∃ m, e = .take m true ∧ m.fields = some (inPort, dst) ∧ m.output = port := by
  cases e with
  | take message accepted =>
    cases accepted with
    | false => exact Or.inl h
    | true =>
      simp only [entry] at h
      split at h
      · rename_i hfields
        exact Or.inr ⟨message, rfl, hfields, Option.some.inj h⟩
      · exact Or.inl h
  | arrive | report | forward | release => exact Or.inl h

/-- A flow stays until a message has its fields. -/
theorem entry_kept {e : Event} {inPort : Port} {dst : Mac}
    (h : ∀ m, e = .take m true → m.fields ≠ some (inPort, dst)) :
    entry (e :: past) inPort dst = entry past inPort dst := by
  cases e with
  | take message accepted =>
    cases accepted with
    | false => rfl
    | true => exact if_neg (h message rfl)
  | arrive | report | forward | release => rfl

theorem mem_trees_cons {e : Event} {line : List Char} (h : line ∈ trees (e :: past)) :
    line ∈ trees past ∨ ∃ accepted, e = .take (.experimenter line) accepted := by
  cases e with
  | take message accepted =>
    cases message with
    | experimenter tree =>
      cases List.mem_cons.mp h with
      | inl hnew => exact Or.inr ⟨accepted, by rw [hnew]⟩
      | inr hold => exact Or.inl hold
    | flowMod | packetOut => exact Or.inl h
  | arrive | report | forward | release => exact Or.inl h

/-- What is accepted has been taken. -/
theorem accepted_answered : ((accepted past).map Prod.fst).Sublist (answered past) := by
  induction past with
  | nil => exact .slnil
  | cons e past ih =>
    cases e with
    | take message accepted =>
      cases accepted with
      | false => exact ih.trans (List.sublist_append_right ..)
      | true =>
        rw [History.accepted, List.map_append, List.map_map]
        refine List.Sublist.append ?_ ih
        simp [Function.comp_def]
    | arrive | report | forward | release => exact ih

end History

namespace Switch
open History

variable {may : Switch}

/-- A history that the switch can have. -/
inductive Possible (may : Switch) : History → Prop
  | nil : Possible may []
  | cons {past : History} (e : Event) (before : Possible may past) (next : may past e) :
    Possible may (e :: past)

/-- One frame more is counted, of which there was room for one more. -/
theorem count_cons_le {frames bound : List Frame} {f : Frame}
    (room : frames.count f < bound.count f) (frame : Frame)
    (h : frames.count frame ≤ bound.count frame) :
    (f :: frames).count frame ≤ bound.count frame := by
  by_cases hf : f = frame
  · subst hf
    rw [List.count_cons_self]
    exact room
  · rw [List.count_cons_of_ne hf]
    exact h

theorem Once.handled_le (h : Once may) {past : History} (hp : Possible may past) (frame : Frame) :
    (handled past).count frame ≤ (arrived past).count frame := by
  induction hp with
  | nil => exact le_refl _
  | @cons past e before next ih =>
    cases e with
    | arrive f =>
      change _ ≤ (f :: arrived past).count frame
      exact ih.trans ((List.sublist_cons_self ..).count_le _)
    | report msg => exact count_cons_le (h.report past msg next) frame ih
    | forward f port =>
      have hcons : (handled (.forward f port :: past)).Perm (f :: handled past) := by
        simp only [handled, forwarded, reported, List.map_cons]
        exact List.perm_middle
      rw [hcons.count_eq]
      exact count_cons_le (h.forward past f port next) frame ih
    | take | release => exact ih

theorem Once.released_le (h : Once may) {past : History} (hp : Possible may past) (frame : Frame) :
    ((released past).map Prod.fst).count frame ≤ ((accepted past).map Prod.fst).count frame := by
  induction hp with
  | nil => exact le_refl _
  | @cons past e before next ih =>
    cases e with
    | take message accepted =>
      cases accepted with
      | false => exact ih
      | true =>
        refine ih.trans ?_
        rw [History.accepted, List.map_append]
        exact (List.sublist_append_right ..).count_le _
    | release f port => exact count_cons_le (h.release past f port next) frame ih
    | arrive | report | forward => exact ih

end Switch

end ApTelemetry.SimpleSwitch
