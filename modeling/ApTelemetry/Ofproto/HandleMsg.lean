import ApTelemetry.Lib.Fifo
import ApTelemetry.Tree.Message
import ApTelemetry.Ofproto.MainLinger

namespace ApTelemetry.Ofproto
open Lib ApTelemetry.Tree Controller

/-- An experimenter message: what follows the sixteen bytes of its headers, and
the blocks `malloc` gives while it is parsed. -/
structure Message (V : Type) where
  payload : List Char
  malloc : Malloc (Rawdata V)

/-- One turn of the outer loop of `init_linger_m`, on `node` and `nodeptr`. -/
def linkRecord {V : Type} (malloc : Malloc (Rawdata V)) (q : Fifo (Rawdata V))
    (newnode : Rawdata V) : Except Fault (Fifo (Rawdata V)) :=
  q.append (malloc.block q.heap) newnode

section Model

variable {V : Type} (ops : FloatOps V) (atof : List Char → V)

/-- The records of the text, which ends at the first NUL. -/
def Message.records (m : Message V) : List (Rawdata V) :=
  parseRecords atof (ops.cast 0) (m.payload.takeWhile fun c => c ≠ '\x00')

/-- `nodeptr` starts at NULL whatever `node` is. -/
def initLingerM (m : Message V) (g : Globals V) : Except Fault (Globals V) := do
  let q ← (m.records ops atof).foldlM (linkRecord m.malloc) ⟨g.heap, g.node, none⟩
  let raw ← q.heap.items q.heap.entries.length q.first
  .ok { g with heap := q.heap, node := q.first, tnode := createTree raw }

variable [LE V] [DecidableLE V] (o : ByteOrder)

def handleMsg (m : Message V) (c : Call V) (g : Globals V) : Except Fault (Globals V) := do
  let g ← initLingerM ops atof m g
  let (g, _) ← mainLinger ops o c g
  .ok g

/-- Over a run of messages `node` is NULL whenever `init_linger_m` is entered,
which then runs through and leaves the tree of the message's own records. A run
can also end in the search, on a message without records. -/
def Decided : Globals V → List (Message V × Call V) → Prop
  | g, [] => g.node = none
  | g, (m, c) :: rest => g.node = none ∧ ∃ t, initLingerM ops atof m g = .ok t ∧
      t.tnode = createTree (m.records ops atof) ∧
      ∀ u, mainLinger ops o c t = .ok u → Decided u.1 rest

/-- A call that gets as far as the request for the states. -/
def Requests (g : Globals V) (c : Call V) : Prop :=
  g.skfd = true ∨ c.socket = true ∧ c.bind = true

/-- The first `sendto` does not return zero, or is not reached, or there is no
record to be kept. -/
def Keeps (m : Message V) (c : Call V) (g : Globals V) : Prop :=
  Requests g c → c.sendStates = 0 → m.records ops atof = []

def AllKeep : Globals V → List (Message V × Call V) → Prop
  | _, [] => True
  | g, (m, c) :: rest => Keeps ops atof m c g ∧
      ∀ u, handleMsg ops atof o m c g = .ok u → AllKeep u rest

end Model

def started {V : Type} : Globals V := ⟨∅, none, .null, false⟩

theorem link_all {V : Type} (malloc : Malloc (Rawdata V)) (rs : List (Rawdata V))
    {q : Fifo (Rawdata V)} {nodes : List (Addr × Rawdata V)} (h : q.Holds nodes) :
    ∃ q' more, rs.foldlM (linkRecord malloc) q = .ok q' ∧ q'.Holds (nodes ++ more) ∧
      more.map Prod.snd = rs := by
  induction rs generalizing q nodes with
  | nil => exact ⟨q, [], rfl, by simpa using h, rfl⟩
  | cons r rs ih =>
    obtain ⟨q₁, hrun, hq₁⟩ := h.append r (malloc.fresh q.heap)
    obtain ⟨q', more, hrest, hq', hmore⟩ := ih hq₁
    refine ⟨q', (malloc.block q.heap, r) :: more, ?_, ?_, ?_⟩
    · rw [List.foldlM_cons, linkRecord, hrun]
      exact hrest
    · rwa [List.append_assoc] at hq'
    · rw [List.map_cons, hmore]

section Lists

variable {V : Type} {g : Globals V} {nodes : List (Addr × Rawdata V)}

variable (ops : FloatOps V) (atof : List Char → V) (m : Message V)

/-- From an empty list the message's records become the list, whose tree is built. -/
theorem init_linger_m_empty (hnode : g.node = none) :
    ∃ t nodes, initLingerM ops atof m g = .ok t ∧ Chain t.heap t.node nodes ∧
      nodes.map Prod.snd = m.records ops atof ∧
      t.tnode = createTree (m.records ops atof) ∧ t.skfd = g.skfd := by
  have hempty : (⟨g.heap, g.node, none⟩ : Fifo (Rawdata V)).Holds [] := by
    rw [hnode]
    exact ⟨.nil none, rfl⟩
  obtain ⟨q, nodes, hrun, hq, hitems⟩ := link_all m.malloc (m.records ops atof) hempty
  rw [List.nil_append] at hq
  refine ⟨{ g with heap := q.heap, node := q.first, tnode := createTree (m.records ops atof) },
    nodes, ?_, hq.chain, hitems, rfl, rfl⟩
  simp only [initLingerM, hrun, hq.chain.items_eq _ hq.chain.length_le, hitems, bind, Except.bind]

/-- On a list left over, the first record is stored through the NULL `nodeptr`. -/
theorem init_linger_m_leftover (hnode : g.node ≠ none) (hrecords : m.records ops atof ≠ []) :
    initLingerM ops atof m g = .error .null := by
  obtain ⟨a, ha⟩ := Option.ne_none_iff_exists'.mp hnode
  obtain ⟨r, rest, hr⟩ := List.exists_cons_of_ne_nil hrecords
  simp only [initLingerM, hr, ha, List.foldlM_cons, linkRecord, Fifo.append, Heap.setNext, bind,
    Except.bind]

theorem node_none_iff (h : Chain g.heap g.node nodes) : g.node = none ↔ nodes = [] := by
  rw [h.start_eq]
  cases nodes <;> simp [firstAddr]

end Lists

section Calls

variable {V : Type} [LE V] [DecidableLE V] (ops : FloatOps V) (o : ByteOrder) {g : Globals V}
  {c : Call V}

/-- The exit that skips `destroy_everything`. -/
theorem main_linger_unsent (hasks : Requests g c) (hzero : c.sendStates = 0) :
    mainLinger ops o c g = .ok ({ g with skfd := true }, []) := by
  have hsocket : ¬ (g.skfd = false ∧ c.socket = false) := by
    rcases hasks with h | ⟨h, _⟩ <;> simp [h]
  have hbind : ¬ (g.skfd = false ∧ c.bind = false) := by
    rcases hasks with h | ⟨_, h⟩ <;> simp [h]
  rw [mainLinger, if_neg hsocket, if_neg hbind, if_pos hzero]

omit [LE V] [DecidableLE V] in
theorem destroyed_node {requests : List Request} {u : Globals V × List Request}
    (h : (do let g ← destroyEverything g; .ok (g, requests)) = .ok u) : u.1.node = none := by
  cases hrun : destroyEverything g with
  | error f =>
    rw [hrun] at h
    cases h
  | ok t =>
    rw [hrun] at h
    obtain rfl := Except.ok.inj h
    simp only [destroyEverything, bind, Except.bind] at hrun
    split at hrun
    · cases hrun
    · obtain rfl := Except.ok.inj hrun
      rfl

omit [LE V] [DecidableLE V] in
theorem finish_node {result : Except (Exit V) (Linger V)} {u : Globals V × List Request}
    (h : finish g result = .ok u) : u.1.node = none := by
  unfold finish at h
  split at h
  · cases h
  · exact destroyed_node h
  · exact destroyed_node h

/-- Every other way out passes through it. -/
theorem main_linger_destroys {u : Globals V × List Request}
    (hsent : ¬ (Requests g c ∧ c.sendStates = 0)) (h : mainLinger ops o c g = .ok u) :
    u.1.node = none := by
  unfold mainLinger at h
  split at h
  · exact destroyed_node h
  rename_i hsocket
  split at h
  · exact destroyed_node h
  rename_i hbind
  have hasks : Requests g c := by
    unfold Requests
    cases hg : g.skfd <;> simp_all
  rw [if_neg fun hzero => hsent ⟨hasks, hzero⟩] at h
  exact finish_node h

variable (atof : List Char → V) (m : Message V)

/-- A message that finds the list empty is taken for itself, and leaves the list
empty exactly when the call keeps. -/
theorem message_step (hnode : g.node = none) : ∃ t, initLingerM ops atof m g = .ok t ∧
    t.tnode = createTree (m.records ops atof) ∧
    (Keeps ops atof m c g ↔ ∀ u, mainLinger ops o c t = .ok u → u.1.node = none) := by
  obtain ⟨t, nodes, hinit, hchain, hitems, htree, hskfd⟩ := init_linger_m_empty ops atof m hnode
  refine ⟨t, hinit, htree, ?_⟩
  have hasks : Requests g c ↔ Requests t c := by rw [Requests, Requests, hskfd]
  have hempty : t.node = none ↔ m.records ops atof = [] := by
    rw [node_none_iff hchain, ← hitems, List.map_eq_nil_iff]
  by_cases hsent : Requests t c ∧ c.sendStates = 0
  · rw [main_linger_unsent ops o hsent.1 hsent.2, Keeps, hasks, ← hempty]
    constructor
    · intro hkeeps u hu
      obtain rfl := Except.ok.inj hu
      exact hkeeps hsent.1 hsent.2
    · intro h _ _
      exact h _ rfl
  · constructor
    · intro _ u hu
      exact main_linger_destroys ops o hsent hu
    · intro _ hreq hzero
      exact absurd ⟨hasks.mp hreq, hzero⟩ hsent

theorem decided_node {g : Globals V} {run : List (Message V × Call V)}
    (h : Decided ops atof o g run) : g.node = none := by
  cases run with
  | nil => exact h
  | cons _ _ => exact h.1

theorem handle_msg_ok {t : Globals V} (hinit : initLingerM ops atof m g = .ok t) (v : Globals V) :
    handleMsg ops atof o m c g = .ok v ↔ ∃ u, mainLinger ops o c t = .ok u ∧ u.1 = v := by
  simp only [handleMsg, hinit, bind, Except.bind]
  cases mainLinger ops o c t <;> simp

/-- From any state with no list left over, the run is decided exactly when each of
its calls keeps. -/
theorem decided_iff_keep {g : Globals V} (hnode : g.node = none)
    (run : List (Message V × Call V)) :
    Decided ops atof o g run ↔ AllKeep ops atof o g run := by
  induction run generalizing g with
  | nil => simpa [Decided, AllKeep] using hnode
  | cons p rest ih =>
    obtain ⟨m, c⟩ := p
    obtain ⟨t, hinit, htree, hkeeps⟩ := message_step ops o (c := c) atof m hnode
    have hmsg := handle_msg_ok ops o (c := c) atof m hinit
    constructor
    · rintro ⟨_, t', hinit', _, hlater⟩
      obtain rfl := Except.ok.inj (hinit.symm.trans hinit')
      have hall := hkeeps.mpr fun u hu => decided_node ops o atof (hlater u hu)
      refine ⟨hall, ?_⟩
      intro v hv
      obtain ⟨u, hu, rfl⟩ := (hmsg v).mp hv
      exact (ih (hkeeps.mp hall u hu)).mp (hlater u hu)
    · rintro ⟨hall, hlater⟩
      refine ⟨hnode, t, hinit, htree, ?_⟩
      intro u hu
      exact (ih (hkeeps.mp hall u hu)).mpr (hlater u.1 ((hmsg u.1).mpr ⟨u, hu, rfl⟩))

/-- From the start of the switch, for any run of messages. -/
theorem messages_decided_iff (run : List (Message V × Call V)) :
    Decided ops atof o started run ↔ AllKeep ops atof o started run :=
  decided_iff_keep ops o atof rfl run

end Calls

/-- A tree of one leaf, and a call whose first `sendto` returns zero. -/
def oneLeaf : Message ℚ := ⟨"0,0,0,0,1".toList, .bump⟩

def unsent : Call ℚ where
  socket := true
  bind := true
  sendStates := 0
  header := ⟨0, none⟩
  link _ := ⟨0, none⟩
  sendFlows _ := 0
  flow _ _ := ⟨0, none⟩
  garbage _ := ⟨0, 0⟩

/-- The list of a message whose request was not sent stays, and the next message
stores its first record through NULL. -/
theorem list_left_over :
    ¬ Decided rational (fun _ => 0) .little started [(oneLeaf, unsent), (oneLeaf, unsent)] ∧
    ∃ g, handleMsg rational (fun _ => 0) .little oneLeaf unsent started = .ok g ∧
      initLingerM rational (fun _ => 0) oneLeaf g = .error .null := by
  have hasks : Requests started unsent := Or.inr ⟨rfl, rfl⟩
  have hrecords : oneLeaf.records rational (fun _ => 0) ≠ [] := by decide +kernel
  have hnot : ¬ Keeps rational (fun _ => 0) oneLeaf unsent started :=
    fun hkeeps => hrecords (hkeeps hasks rfl)
  constructor
  · intro h
    exact hnot ((decided_iff_keep rational .little (fun _ => 0) rfl _).mp h).1
  · obtain ⟨t, hinit, _, hkeeps⟩ :=
      message_step rational .little (c := unsent) (fun _ => 0) oneLeaf (g := started) rfl
    obtain ⟨u, hu, hnode⟩ :
        ∃ u, mainLinger rational .little unsent t = .ok u ∧ u.1.node ≠ none := by
      simpa using mt hkeeps.mpr hnot
    exact ⟨u.1, (handle_msg_ok rational .little (fun _ => 0) oneLeaf hinit u.1).mpr ⟨u, hu, rfl⟩,
      init_linger_m_leftover rational (fun _ => 0) oneLeaf hnode hrecords⟩

end ApTelemetry.Ofproto
