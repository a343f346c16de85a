import ApTelemetry.Newanalysis.Rebuild
import ApTelemetry.Ofproto.CreateItems
import ApTelemetry.Ofproto.HandleMsg
import ApTelemetry.SimpleSwitch.Learning
import ApTelemetry.Tree.BstSearch

namespace ApTelemetry.EndToEnd.Trees
open Lib ApTelemetry.Tree SimpleSwitch
open Newanalysis (FloatText NumberText strInt not_mem_digits not_mem_number)

theorem not_mem_intercalate {c sep : Char} {parts : List (List Char)} (hsep : c ≠ sep)
    (h : ∀ a ∈ parts, c ∉ a) : c ∉ [sep].intercalate parts := by
  induction parts with
  | nil => exact List.not_mem_nil
  | cons a parts ih =>
    obtain ⟨ha, hrest⟩ := List.forall_mem_cons.mp h
    cases parts with
    | nil =>
      rw [List.intercalate_singleton]
      exact ha
    | cons b parts =>
      simp only [List.intercalate_cons_cons, List.mem_append, List.mem_singleton, not_or]
      exact ⟨⟨ha, hsep⟩, ih hrest⟩

section Text

variable {V : Type} (F : FloatText V)

def InInt (n : Int) : Prop := -2 ^ 31 ≤ n ∧ n < 2 ^ 31

structure Fits (r : Rawdata V) : Prop where
  father : InInt r.father
  itself : InInt r.itself
  name : InInt r.name
  class_ : InInt r.class_

instance (n : Int) : Decidable (InInt n) := inferInstanceAs (Decidable (_ ∧ _))

instance (r : Rawdata V) : Decidable (Fits r) :=
  decidable_of_iff (InInt r.father ∧ InInt r.itself ∧ InInt r.name ∧ InInt r.class_)
    ⟨fun ⟨father, itself, name, class_⟩ => ⟨father, itself, name, class_⟩,
      fun h => ⟨h.father, h.itself, h.name, h.class_⟩⟩

/-- A tree whose numbers fit an `int`. `father` is what the record of its root names. -/
structure PublishedTree (V : Type) extends FeatureTree V where
  father : Int
  fits : ∀ r ∈ tree.records father, Fits r

def fields (r : Rawdata V) : List (List Char) :=
  [strInt r.father, strInt r.itself, strInt r.name, F.str r.value, strInt r.class_]

def recordText (r : Rawdata V) : List Char := [','].intercalate (fields F r)

/-- The line of `tree.csv`. -/
def PublishedTree.line (t : PublishedTree V) : List Char :=
  ['|'].intercalate ((t.tree.records t.father).map (recordText F))

theorem str_int_number (n : Int) : NumberText (strInt n) := by
  cases n with
  | ofNat n => exact ⟨Nat.toDigits_ne_nil, fun c hc => Or.inl (to_digits_digit c hc)⟩
  | negSucc n =>
    refine ⟨List.cons_ne_nil _ _, fun c hc => ?_⟩
    cases hc with
    | head => exact Or.inr (by decide)
    | tail _ hc => exact Or.inl (to_digits_digit c hc)

theorem atoi_str_int {n : Int} (h : InInt n) : atoi (strInt n) = n :=
  atoi_eq (Ofproto.strtol_str_int n) h.1 h.2

theorem fields_number (r : Rawdata V) : ∀ field ∈ fields F r, NumberText field := by
  simp only [fields, List.forall_mem_cons]
  exact ⟨str_int_number _, str_int_number _, str_int_number _, F.str_number _, str_int_number _,
    fun _ h => absurd h List.not_mem_nil⟩

theorem not_mem_record {c : Char} (hdigit : c.isDigit = false) (hc : c ∉ ['.', '-', '+', 'e'])
    (hcomma : c ≠ ',') (r : Rawdata V) : c ∉ recordText F r :=
  not_mem_intercalate hcomma fun field hfield =>
    not_mem_number (fields_number F r field hfield) hdigit hc

theorem parse_record {r : Rawdata V} (h : Fits r) (zero : V) :
    parseRecord F.atof zero (recordText F r) = r := by
  have htokens : tokens ',' (recordText F r) = fields F r :=
    tokens_intercalate fun field hfield =>
      ⟨(fields_number F r field hfield).1,
        not_mem_number (fields_number F r field hfield) (by decide) (by decide)⟩
  rw [parseRecord, htokens]
  change (⟨atoi _, atoi _, atoi _, F.atof _, atoi _⟩ : Rawdata V) = r
  rw [atoi_str_int h.father, atoi_str_int h.itself, atoi_str_int h.name, atoi_str_int h.class_,
    F.atof_str]

theorem record_ne_nil (r : Rawdata V) : recordText F r ≠ [] := by
  have hfather := (str_int_number r.father).1
  simp [recordText, fields, List.intercalate_cons_cons, hfather]

theorem line_parsed (t : PublishedTree V) (zero : V) :
    parseRecords F.atof zero (t.line F) = t.tree.records t.father := by
  have htokens : tokens '|' (t.line F) = (t.tree.records t.father).map (recordText F) := by
    refine tokens_intercalate fun text htext => ?_
    obtain ⟨r, -, rfl⟩ := List.mem_map.mp htext
    exact ⟨record_ne_nil F r, not_mem_record F (by decide) (by decide) (by decide) r⟩
  rw [parseRecords, htokens, List.map_map]
  calc (t.tree.records t.father).map (parseRecord F.atof zero ∘ recordText F)
      = (t.tree.records t.father).map id :=
        List.map_congr_left fun r hr => parse_record F (t.fits r hr) zero
    _ = t.tree.records t.father := List.map_id _

/-- The line has no byte that ends it. -/
theorem line_ends (t : PublishedTree V) :
    ((t.line F).takeWhile fun c => c ≠ '\x00') = t.line F := by
  have hnone : '\x00' ∉ t.line F := by
    refine not_mem_intercalate (by decide) fun text htext => ?_
    obtain ⟨r, -, rfl⟩ := List.mem_map.mp htext
    exact not_mem_record F (by decide) (by decide) (by decide) r
  refine List.takeWhile_eq_self_iff.mpr fun c hc => ?_
  rw [decide_eq_true_eq]
  intro hzero
  exact hnone (hzero ▸ hc)

variable [LE V] [DecidableLE V] (ops : Controller.FloatOps V)

/-- An access point without records left over rebuilds the tree, whose searches end where the
tree leads. -/
theorem line_decides (t : PublishedTree V) (malloc : Malloc (Rawdata V)) {g : Ofproto.Globals V}
    (hnode : g.node = none) :
    ∃ u, Ofproto.initLingerM ops F.atof ⟨t.line F, malloc⟩ g = .ok u ∧
      ∀ x : FeatureVector V, bstSearch u.tnode x.slot 31 = some (t.tree.eval x.value).linked := by
  obtain ⟨u, -, hrun, -, -, htree, -⟩ :=
    Ofproto.init_linger_m_empty ops F.atof ⟨t.line F, malloc⟩ hnode
  refine ⟨u, hrun, fun x => ?_⟩
  have hrecords : Ofproto.Message.records ops F.atof ⟨t.line F, malloc⟩ =
      t.tree.records t.father := by
    rw [Ofproto.Message.records, line_ends F t, line_parsed F t]
  rw [htree, hrecords, create_tree_records t.tree t.father t.toFeatureTree.distinct]
  exact bst_search_linked x t.tree t.bounded

end Text

/-- All trees that a datapath has been sent are such lines. -/
structure Carried (P : List Char → Prop) (d : Datapath) : Prop where
  trees : ∀ line ∈ d.past.trees, P line
  messages : ∀ line, .experimenter line ∈ d.messages → P line

section Runs

variable {P : List Char → Prop} {d : Datapath}

theorem send_tree_line {world : World} {m : Message} (h : m ∈ (sendTree world).1) :
    ∃ line, world.treeCsv = some line ∧ m = .experimenter line := by
  unfold sendTree at h
  split at h
  · split at h
    · cases h
    · rename_i line hcsv
      split at h
      · exact ⟨line, hcsv, List.mem_singleton.mp h⟩
      · cases h
  · cases h

/-- The handler sends no tree but the line of the file. -/
theorem handler_line {world : World} {dpid : U64} {msg : PacketIn} {macToPort : MacToPort}
    {line : List Char}
    (h : .experimenter line ∈ (packetInHandler world dpid msg macToPort).sent) :
    world.treeCsv = some line := by
  unfold packetInHandler at h
  split at h
  · cases h
  · dsimp only at h
    split at h
    · cases List.mem_singleton.mp h
    · cases List.mem_append.mp h with
      | inl hflow =>
        split at hflow
        · cases List.mem_singleton.mp hflow
        · cases hflow
      | inr hrest =>
        cases List.mem_cons.mp hrest with
        | inl hout => cases hout
        | inr htree =>
          obtain ⟨line', hcsv, hline⟩ := send_tree_line htree
          cases hline
          exact hcsv

theorem Carried.event (h : Carried P d) {e : Event} (hallows : Allows d e) :
    Carried P (record e d) := by
  refine ⟨fun line hline => ?_, fun line hline => h.messages line (mem_record_messages hline)⟩
  rcases History.mem_trees_cons hline with hold | ⟨accepted, rfl⟩
  · exact h.trees line hold
  · exact h.messages line (List.mem_of_head? hallows)

/-- The file has no other line when it is read. -/
def Publishes (P : List Char → Prop) (_ : Network) : Action → Prop
  | .packetIn _ world => ∀ line ∈ world.treeCsv, P line
  | .features _ | .event .. => True

theorem carried_inductive (may : Switch) (P : List Char → Prop) :
    ((network may).restrict (Publishes P)).Inductive fun s =>
      ∀ dpid, Carried P (s.datapaths dpid) := by
  refine inductive_of_moved (P := fun _ d => Carried P d) ?_ ?_
  · exact ⟨fun _ h => absurd h List.not_mem_nil, fun _ h => absurd h List.not_mem_nil⟩
  · intro s a dpid row d hs hallowed hmoved
    have h := hs dpid
    cases hmoved with
    | kept => exact h
    | features =>
      refine ⟨h.trees, fun line hline => ?_⟩
      cases List.mem_append.mp hline with
      | inl hold => exact h.messages line hold
      | inr hnew => cases List.mem_singleton.mp hnew
    | event e => exact h.event hallowed.1.2
    | handled world msg rest reports =>
      refine ⟨h.trees, fun line hline => ?_⟩
      cases List.mem_append.mp hline with
      | inl hold => exact h.messages line hold
      | inr hnew => exact hallowed.2 line (handler_line hnew)

end Runs

section Published

variable {V : Type} (F : FloatText V) [LE V] [DecidableLE V] (ops : Controller.FloatOps V)
  {may : Switch} {s : Network}

/-- As long as `tree.csv` has the line of a published tree whenever it is read, whichever this is
each time, every tree that an access point has been sent is a published one: the program rebuilds
it from the message, and for whatever measurements its search ends at the leaf that the tree
leads to. -/
theorem trees_decide_as_published (published : Set (PublishedTree V))
    (hr : ((network may).restrict
      (Publishes fun line => ∃ t ∈ published, line = t.line F)).Reachable s)
    (dpid : U64) : ∀ line ∈ (s.datapaths dpid).past.trees, ∃ t ∈ published,
      ∀ (malloc : Malloc (Rawdata V)) (g : Ofproto.Globals V), g.node = none →
        ∃ u, Ofproto.initLingerM ops F.atof ⟨line, malloc⟩ g = .ok u ∧
          ∀ x : FeatureVector V,
            bstSearch u.tnode x.slot 31 = some (t.tree.eval x.value).linked := by
  intro line hline
  obtain ⟨t, ht, rfl⟩ := ((carried_inductive may _).reachable hr dpid).trees line hline
  exact ⟨t, ht, fun malloc g hnode => line_decides F ops t malloc hnode⟩

end Published

section Queue
open Newanalysis (wholeText)

def wholeOps : Controller.FloatOps Nat := ⟨Int.toNat, (· * ·), 1⟩

/-- One test of the backlog of a queue. -/
def queueTree : PublishedTree Nat where
  tree := .split 0 10 5 1 (.leaf 1 0 0) (.leaf 2 0 1)
  ids := by decide
  bounded := by decide
  father := 0
  fits := by decide

def queueFile : World := ⟨6, some (queueTree.line wholeText)⟩

def queueFrame : Frame := between hostA hostB 1 0

def longQueue : FeatureVector Nat where
  slot i := ⟨i, if i = 10 then 7 else 0⟩
  named _ _ _ := rfl

/-- A frame is reported when the file has the tree, and the switch takes what is sent. -/
theorem trees_decide_as_published_queue : ∃ s : Network,
    (s.datapaths 1).past.trees = [queueTree.line wholeText] ∧
    ∀ (malloc : Malloc (Rawdata Nat)) (g : Ofproto.Globals Nat), g.node = none →
      ∃ u, Ofproto.initLingerM wholeOps wholeText.atof ⟨queueTree.line wholeText, malloc⟩ g =
          .ok u ∧
        bstSearch u.tnode longQueue.slot 31 = some (.node 2 0 0 1 .null .null) := by
  let published : Set (PublishedTree Nat) := Set.singleton queueTree
  let guard := Publishes fun line => ∃ t ∈ published, line = t.line wholeText
  let M := (network unbuffered).restrict guard
  have hr : ∃ s, M.Reachable s ∧ (s.datapaths 1).past.trees = [queueTree.line wholeText] := by
    have harrived : M.Reachable _ :=
      .step (.event 1 (.arrive queueFrame)) .start ⟨⟨trivial, trivial⟩, trivial⟩ rfl
    have hreported : M.Reachable _ :=
      .step (.event 1 (.report ⟨ofpNoBuffer, queueFrame⟩)) harrived
        ⟨⟨⟨rfl, rfl, by decide⟩, fun _ hb => by cases hb⟩, trivial⟩ rfl
    have hhandled : M.Reachable _ := .step (.packetIn 1 queueFile) hreported
      ⟨trivial, fun line hline => ⟨queueTree, rfl, (Option.some.inj hline).symm⟩⟩ rfl
    have hflooded : M.Reachable _ :=
      .step (.event 1 (.take (.packetOut ofpNoBuffer 1 ofppFlood (some queueFrame)) true)) hhandled
        ⟨⟨rfl, rfl⟩, trivial⟩ rfl
    have htaken : M.Reachable _ :=
      .step (.event 1 (.take (.experimenter (queueTree.line wholeText)) true)) hflooded
        ⟨⟨rfl, rfl⟩, trivial⟩ rfl
    exact ⟨_, htaken, rfl⟩
  obtain ⟨s, hr, htrees⟩ := hr
  refine ⟨s, htrees, fun malloc g hnode => ?_⟩
  obtain ⟨t, ht, hdecides⟩ := trees_decide_as_published wholeText wholeOps published hr 1
    (queueTree.line wholeText) (htrees ▸ List.mem_singleton_self _)
  obtain rfl : t = queueTree := ht
  obtain ⟨u, hbuilt, hsearch⟩ := hdecides malloc g hnode
  exact ⟨u, hbuilt, hsearch longQueue⟩

end Queue

end ApTelemetry.EndToEnd.Trees
