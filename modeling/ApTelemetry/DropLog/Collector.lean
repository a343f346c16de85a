import ApTelemetry.DropLog.DropList
import ApTelemetry.Lib.Machine
import ApTelemetry.Sendudp.LastSent

namespace ApTelemetry.DropLog
open Lib Sendudp

/-- The header fields a drop log copies from a TCP packet. -/
structure Skb where
  saddr : U32
  daddr : U32
  source : U16
  dest : U16
  seq : U32
  ackSeq : U32

structure Clock where
  sec : U32
  usec : U32
  jiffies : U32

def Clock.stamp (now : Clock) : Stamp := ApTelemetry.stamp now.sec now.usec

/-- The node filled in after `memset`. `drop_count += 1` starts from zero. -/
def droppedPacket (dpl : U16) (skb : Skb) (now : Clock) : DpPacket where
  ipSrc := skb.saddr
  ipDst := skb.daddr
  sec := now.sec
  usec := now.usec
  portSrc := skb.source
  portDst := skb.dest
  sequence := skb.seq
  ackSequence := skb.ackSeq
  dropCount := 0 + 1
  dpl := dpl
  pad := 0
  inTime := now.jiffies
  pad1 := 0

/-- What the codel log and the mac80211 log may differ in. Both delete and
acknowledge alike; one of them may refuse a new snapshot while the flag is set. -/
structure Variant where
  delete : DropList → Except Fault DropList
  dpl : U16
  dpt : DropList → Option Addr × DropList
  destroy : DropList → DropList
  deletes : ∃ unable, delete = deleteBeforeCall unable
  snapshots : ∀ s, dpt s = snapshot s ∨ s.read = true ∧ dpt s = (none, s)
  acknowledges : destroy = acknowledge

/-- Where `get_information` is: outside the walk, or about to read a node. -/
inductive Collector where
  | idle
  | walking (ptr : Option Addr)
  deriving DecidableEq

/-- `appended` is the history of all packets logged; nothing reads it. -/
structure System where
  list : DropList
  collector : Collector
  last : LastSent
  written : List DpT
  appended : List DpPacket

inductive Action where
  | dropped (block : Addr) (skb : Skb) (now : Clock)
  | dpt
  | walk
  | destroy

def dropsRecord (mac : Mac) (pkt : DpPacket) : DpT := ⟨DataCategory.drops.code, mac, pkt⟩

/-- The body of the collector's `while (ptr)` loop on one node. -/
def visit (mac : Mac) (pkt : DpPacket) (s : System) : System :=
  match s.last.offer pkt.sec pkt.usec with
  | some last => { s with last, written := s.written ++ [dropsRecord mac pkt] }
  | none => s

@[simp] theorem visit_list (mac : Mac) (pkt : DpPacket) (s : System) :
    (visit mac pkt s).list = s.list := by
  unfold visit
  split <;> rfl

@[simp] theorem visit_appended (mac : Mac) (pkt : DpPacket) (s : System) :
    (visit mac pkt s).appended = s.appended := by
  unfold visit
  split <;> rfl

def exec (v : Variant) (mac : Mac) (s : System) : Action → Except Fault System
  | .dropped block skb now => do
    let pkt := droppedPacket v.dpl skb now
    let list ← appendPacket v.delete block pkt s.list
    .ok { s with list, appended := s.appended ++ [pkt] }
  | .dpt =>
    let (ptr, list) := v.dpt s.list
    .ok { s with list, collector := if ptr.isSome then .walking ptr else .idle }
  | .walk =>
    match s.collector with
    | .idle => .ok s
    | .walking ptr => do
      let c ← s.list.heap.read ptr
      .ok { visit mac c.item s with collector := .walking c.next }
  | .destroy => .ok { s with list := v.destroy s.list, collector := .idle }

theorem dropped_ok {v : Variant} (mac : Mac) {s : System} {block : Addr} {skb : Skb}
    {now : Clock} {l : DropList}
    (h : appendPacket v.delete block (droppedPacket v.dpl skb now) s.list = .ok l) :
    exec v mac s (.dropped block skb now) =
      .ok { s with list := l, appended := s.appended ++ [droppedPacket v.dpl skb now] } := by
  simp only [exec, h, bind, Except.bind]

theorem dropped_error {v : Variant} (mac : Mac) {s : System} {block : Addr} {skb : Skb}
    {now : Clock} {fault : Fault}
    (h : appendPacket v.delete block (droppedPacket v.dpl skb now) s.list = .error fault) :
    exec v mac s (.dropped block skb now) = .error fault := by
  simp only [exec, h, bind, Except.bind]

theorem walk_ok {v : Variant} (mac : Mac) {s : System} {a : Addr} {c : Cell DpPacket}
    (hc : s.collector = .walking (some a)) (h : s.list.heap.lookup a = some c) :
    exec v mac s .walk = .ok { visit mac c.item s with collector := .walking c.next } := by
  simp only [exec, hc, Heap.read_of_lookup h, bind, Except.bind]

theorem walk_freed {v : Variant} (mac : Mac) {s : System} {a : Addr}
    (hc : s.collector = .walking (some a)) (h : s.list.heap.lookup a = none) :
    exec v mac s .walk = .error .freed := by
  simp only [exec, hc, Heap.read, h, bind, Except.bind]

/-- Drops come at strictly increasing positive times, `kmalloc` returns a block
that is not allocated, and the one collector runs its calls in program order. -/
def enabled (v : Variant) (s : System) : Action → Prop
  | .dropped block _ now =>
    stamp 0 0 < now.stamp ∧ (∀ p ∈ s.appended, p.stamp < now.stamp) ∧
      ∀ l, dropAcknowledged v.delete s.list = .ok l → l.heap.lookup block = none
  | .dpt => s.collector = .idle
  | .walk => ∃ a, s.collector = .walking (some a)
  | .destroy => s.collector = .walking none

instance (now : Clock) (s u : U32) : Decidable (stamp s u < now.stamp) :=
  decidable_of_iff' _ (stamp_lt_iff s u now.sec now.usec)

instance (v : Variant) (s : System) (block : Addr) :
    Decidable (∀ l, dropAcknowledged v.delete s.list = .ok l → l.heap.lookup block = none) :=
  match dropAcknowledged v.delete s.list with
  | .error _ => isTrue (by simp)
  | .ok l => decidable_of_iff (l.heap.lookup block = none) (by simp)

instance (v : Variant) (s : System) : (a : Action) → Decidable (enabled v s a)
  | .dropped block _ now =>
    inferInstanceAs (Decidable (stamp 0 0 < now.stamp ∧
      (∀ p ∈ s.appended, stamp p.sec p.usec < now.stamp) ∧
      ∀ l, dropAcknowledged v.delete s.list = .ok l → l.heap.lookup block = none))
  | .dpt => inferInstanceAs (Decidable (s.collector = .idle))
  | .walk => match h : s.collector with
    | .idle => isFalse (by simp [enabled, h])
    | .walking none => isFalse (by simp [enabled, h])
    | .walking (some a) => isTrue ⟨a, h⟩
  | .destroy => inferInstanceAs (Decidable (s.collector = .walking none))

def initial : System where
  list := ⟨∅, none, none, none, false, []⟩
  collector := .idle
  last := ⟨0, 0⟩
  written := []
  appended := []

def machine (v : Variant) (mac : Mac) : Machine System Action Fault :=
  ⟨initial, enabled v, exec v mac⟩

instance (v : Variant) (mac : Mac) (s : System) (a : Action) :
    Decidable ((machine v mac).enabled s a) :=
  inferInstanceAs (Decidable (enabled v s a))

/-- The collector has passed every node of its snapshot. -/
def Collector.Passed (c : Collector) : Prop := c = .idle ∨ c = .walking none

/-- The time of the last packet of a list, or the initial globals. -/
def latest (ps : List DpPacket) : Stamp := (ps.getLast?.map DpPacket.stamp).getD (stamp 0 0)

/-- `gone` are the packets deleted so far, `nodes` the list. The packets
written run past `gone`, and past the snapshot once the walk has passed it. -/
structure Tracks (s : System) (gone : List DpPacket) (nodes : List (Addr × DpPacket)) : Prop where
  holds : Holds s.list nodes
  appended : s.appended = gone ++ nodes.map Prod.snd
  ordered : s.appended.Pairwise (fun p q => p.stamp < q.stamp)
  positive : ∀ p ∈ s.appended, stamp 0 0 < p.stamp
  written : s.written.map DpT.drops <+: s.appended
  behind : gone.length ≤ s.written.length
  last : s.last.stamp = latest (s.written.map DpT.drops)
  cursor : ∀ a, s.collector = .walking (some a) → ∃ pre x post,
    nodes = pre ++ (a, x) :: post ∧ gone.length + pre.length ≤ s.written.length
  held : s.list.read = true ∨ s.collector ≠ .idle → ∃ pre a x post,
    nodes = pre ++ (a, x) :: post ∧ s.list.call = some a ∧
      (s.collector.Passed → gone.length + pre.length < s.written.length)
  printk : s.list.printk = []

def Invariant (s : System) : Prop := ∃ gone nodes, Tracks s gone nodes

/-- No packet is logged while a walk started on an acknowledged list is under way. -/
def NoLateAppend (s : System) : Action → Prop
  | .dropped .. => s.list.read = true → s.collector = .idle
  | _ => True

instance (s : System) : (a : Action) → Decidable (NoLateAppend s a)
  | .dropped .. => inferInstanceAs (Decidable (s.list.read = true → s.collector = .idle))
  | .dpt | .walk | .destroy => isTrue trivial

theorem initial_tracks : Tracks initial [] [] where
  holds := ⟨.nil none, rfl⟩
  appended := rfl
  ordered := .nil
  positive := by simp [initial]
  written := List.nil_prefix
  behind := Nat.le_refl 0
  last := rfl
  cursor := by simp [initial]
  held := by simp [initial]
  printk := rfl

/-- Packets that have all been written may be deleted. -/
theorem Tracks.delete {s : System} {gone : List DpPacket} {nodes : List (Addr × DpPacket)}
    (h : Tracks s gone nodes) (v : Variant) (hread : s.list.read = true)
    (hidle : s.collector = .idle) :
    ∃ l gone' nodes', dropAcknowledged v.delete s.list = .ok l ∧ l.read = false ∧
      Tracks { s with list := l } gone' nodes' := by
  obtain ⟨unable, hdelete⟩ := v.deletes
  obtain ⟨pre, a, x, post, hnodes, hcall, hpassed⟩ := h.held (Or.inl hread)
  have hpast := hpassed (Or.inl hidle)
  obtain ⟨l, hrun, hholds, hr, hp⟩ :=
    delete_before_call_holds (hnodes ▸ h.holds) hcall unable
  refine ⟨l, gone ++ pre.map Prod.snd ++ [x], post, ?_, hr, ?_⟩
  · rw [dropAcknowledged, if_pos hread, hdelete, hrun]
  · exact {
      holds := hholds
      appended := by simp [h.appended, hnodes]
      ordered := h.ordered
      positive := h.positive
      written := h.written
      behind := by simp; omega
      last := h.last
      cursor := by simp [hidle]
      held := by simp [hidle, hr]
      printk := hp.trans h.printk }

/-- Logging a later packet behind the list, when nothing is to be deleted. -/
theorem Tracks.link {s : System} {gone : List DpPacket} {nodes : List (Addr × DpPacket)}
    (h : Tracks s gone nodes) (block : Addr) (pkt : DpPacket)
    (fresh : s.list.heap.lookup block = none) (hpos : stamp 0 0 < pkt.stamp)
    (hlater : ∀ p ∈ s.appended, p.stamp < pkt.stamp) :
    ∃ l, linkPacket block pkt s.list = .ok l ∧ l.read = s.list.read ∧
      Tracks { s with list := l, appended := s.appended ++ [pkt] } gone
        (nodes ++ [(block, pkt)]) := by
  obtain ⟨l, hrun, hholds, hr, hc, hp⟩ := link_packet_holds h.holds block pkt fresh
  refine ⟨l, hrun, hr, ?_⟩
  exact {
    holds := hholds
    appended := by simp [h.appended]
    ordered := by
      refine List.pairwise_append.mpr ⟨h.ordered, List.pairwise_singleton _ _, ?_⟩
      intro p hm q hq
      rw [List.mem_singleton.mp hq]
      exact hlater p hm
    positive := by
      intro p hm
      rcases List.mem_append.mp hm with hm | hm
      · exact h.positive p hm
      · rw [List.mem_singleton.mp hm]
        exact hpos
    written := h.written.trans (List.prefix_append _ _)
    behind := h.behind
    last := h.last
    cursor := by
      intro a ha
      obtain ⟨pre, x, post, hn, hl⟩ := h.cursor a ha
      exact ⟨pre, x, post ++ [(block, pkt)], by simp [hn], hl⟩
    held := by
      intro hor
      obtain ⟨pre, a, x, post, hn, hcall, hl⟩ := h.held (hr ▸ hor)
      exact ⟨pre, a, x, post ++ [(block, pkt)], by simp [hn], hc.trans hcall, hl⟩
    printk := hp.trans h.printk }

/-- The next packet to write is the one after those written. -/
theorem prefix_snoc {α : Type} {xs ys : List α} {x : α} (h : xs <+: ys)
    (hx : ys[xs.length]? = some x) : xs ++ [x] <+: ys := by
  obtain ⟨rest, rfl⟩ := h
  cases rest with
  | nil => simp at hx
  | cons y rest =>
    simp at hx
    exact ⟨rest, by simp [hx]⟩

theorem latest_concat (ps : List DpPacket) (p : DpPacket) : latest (ps ++ [p]) = p.stamp := by
  simp [latest]

/-- A later packet of an ordered list is newer than any packet before it. -/
theorem latest_lt {ps rest : List DpPacket} {p : DpPacket}
    (hord : (ps ++ p :: rest).Pairwise (fun p q => p.stamp < q.stamp))
    (hpos : stamp 0 0 < p.stamp) : latest ps < p.stamp := by
  rcases List.eq_nil_or_concat ps with rfl | ⟨init, q, rfl⟩
  · exact hpos
  · rw [List.concat_eq_append] at hord ⊢
    rw [latest_concat]
    exact (List.pairwise_append.mp hord).2.2 q (by simp) p (by simp)

/-- A packet already written is not newer than the last one written. -/
theorem le_latest {ps : List DpPacket} {p : DpPacket}
    (hord : ps.Pairwise (fun p q => p.stamp < q.stamp)) (hp : p ∈ ps) :
    p.stamp ≤ latest ps := by
  rcases List.eq_nil_or_concat ps with rfl | ⟨init, q, rfl⟩
  · simp at hp
  · rw [List.concat_eq_append] at hord hp ⊢
    rw [latest_concat]
    rcases List.mem_append.mp hp with hp | hp
    · exact le_of_lt ((List.pairwise_append.mp hord).2.2 p hp q (by simp))
    · rw [List.mem_singleton.mp hp]

/-- Visiting the next node: a packet already written is skipped, any other node
the cursor can be at is exactly the next packet of the history. -/
theorem Tracks.visit {s : System} {gone : List DpPacket} {pre post : List (Addr × DpPacket)}
    {a : Addr} {x : DpPacket} (h : Tracks s gone (pre ++ (a, x) :: post)) (mac : Mac)
    (hl : gone.length + pre.length ≤ s.written.length) :
    ∃ last written, DropLog.visit mac x s = { s with last, written } ∧
      written.map DpT.drops <+: s.appended ∧
      last.stamp = latest (written.map DpT.drops) ∧
      s.written.length ≤ written.length ∧ gone.length + pre.length < written.length := by
  have hat : s.appended[gone.length + pre.length]? = some x := by
    rw [h.appended]
    simp
  rcases Nat.eq_or_lt_of_le hl with he | hlt
  · -- the node has not been written: it is newer than everything written
    have hnext : (s.written.map DpT.drops) ++ [x] <+: s.appended :=
      prefix_snoc h.written (by rw [List.length_map, ← he]; exact hat)
    have hord : ((s.written.map DpT.drops) ++ x :: []).Pairwise
        (fun p q => p.stamp < q.stamp) := h.ordered.sublist hnext.sublist
    have hx : x ∈ s.appended := List.mem_of_getElem? hat
    have hnew : s.last.stamp < stamp x.sec x.usec := by
      rw [h.last]
      exact latest_lt hord (h.positive x hx)
    refine ⟨⟨x.sec, x.usec⟩, s.written ++ [dropsRecord mac x], ?_, ?_, ?_, by simp, ?_⟩
    · rw [DropLog.visit, LastSent.offer_newer hnew]
    · simpa [dropsRecord] using hnext
    · rw [List.map_append, List.map_cons, List.map_nil, latest_concat]
      rfl
    · simp
      omega
  · -- the node was written in an earlier round
    obtain ⟨rest, hrest⟩ := h.written
    have hmem : x ∈ s.written.map DpT.drops := by
      rw [← hrest, List.getElem?_append_left (by simpa using hlt)] at hat
      exact List.mem_of_getElem? hat
    have hold : ¬ s.last.stamp < stamp x.sec x.usec := by
      rw [h.last]
      exact not_lt.mpr (le_latest (h.ordered.sublist h.written.sublist) hmem)
    refine ⟨s.last, s.written, ?_, h.written, h.last, Nat.le_refl _, hlt⟩
    rw [DropLog.visit, LastSent.offer_older hold]

theorem Tracks.walk {s : System} {gone : List DpPacket} {nodes : List (Addr × DpPacket)} {a : Addr}
    (h : Tracks s gone nodes) (v : Variant) (mac : Mac) (hc : s.collector = .walking (some a)) :
    ∃ t, exec v mac s .walk = .ok t ∧ t.list = s.list ∧ t.collector ≠ .idle ∧
      Tracks t gone nodes := by
  obtain ⟨pre, x, post, rfl, hl⟩ := h.cursor a hc
  have hlook := h.holds.chain.lookup_append
  obtain ⟨last, written, hvisit, hpre, hlast, hgrow, hpast⟩ := h.visit mac hl
  refine ⟨{ s with last, written, collector := .walking (firstAddr post) }, ?_, rfl,
    by simp, ?_⟩
  · rw [walk_ok mac hc hlook, hvisit]
  · exact {
      holds := h.holds
      appended := h.appended
      ordered := h.ordered
      positive := h.positive
      written := hpre
      behind := h.behind.trans hgrow
      last := hlast
      cursor := by
        intro b hb
        cases post with
        | nil => simp [firstAddr] at hb
        | cons n post =>
          obtain ⟨c, y⟩ := n
          simp only [firstAddr, List.head?_cons, Option.map_some, Collector.walking.injEq,
            Option.some.injEq] at hb
          subst hb
          exact ⟨pre ++ [(a, x)], y, post, by simp, by simp; omega⟩
      held := by
        intro _
        obtain ⟨pre', b, y, post', hn, hcall, _⟩ := h.held (Or.inr (by simp [hc]))
        refine ⟨pre', b, y, post', hn, hcall, ?_⟩
        rintro (hp | hp)
        · cases hp
        · -- the walk has just ended, so the snapshot is not behind this node
          have hpost : post = [] := by
            simpa [firstAddr] using hp
          have hlen := congrArg List.length hn
          simp [hpost] at hlen
          change gone.length + pre'.length < written.length
          omega
      printk := h.printk }

theorem Tracks.destroy {s : System} {gone : List DpPacket} {nodes : List (Addr × DpPacket)}
    (h : Tracks s gone nodes) (v : Variant) (mac : Mac) (hc : s.collector = .walking none) :
    ∃ t, exec v mac s .destroy = .ok t ∧ t.collector = .idle ∧ Tracks t gone nodes := by
  refine ⟨{ s with list := acknowledge s.list, collector := .idle }, ?_, rfl, ?_⟩
  · rw [exec, v.acknowledges]
  · exact {
      holds := ⟨h.holds.chain, h.holds.last⟩
      appended := h.appended
      ordered := h.ordered
      positive := h.positive
      written := h.written
      behind := h.behind
      last := h.last
      cursor := by simp
      held := by
        intro _
        obtain ⟨pre, a, x, post, hn, hcall, hl⟩ := h.held (Or.inr (by simp [hc]))
        exact ⟨pre, a, x, post, hn, hcall, fun _ => hl (Or.inr hc)⟩
      printk := h.printk }

/-- A list that is acknowledged is not empty. -/
theorem Tracks.nonempty {s : System} {gone : List DpPacket} {nodes : List (Addr × DpPacket)}
    (h : Tracks s gone nodes) (hread : s.list.read = true) : nodes ≠ [] := by
  obtain ⟨pre, a, x, post, rfl, _⟩ := h.held (Or.inl hread)
  simp

theorem Tracks.dpt {s : System} {gone : List DpPacket} {nodes : List (Addr × DpPacket)}
    (h : Tracks s gone nodes) (v : Variant) (mac : Mac) (hc : s.collector = .idle) :
    ∃ t, exec v mac s .dpt = .ok t ∧ Tracks t gone nodes ∧
      (t.collector = .idle ∨ v.dpt s.list = snapshot s.list) := by
  rcases v.snapshots s.list with hd | ⟨_, hd⟩
  · rcases List.eq_nil_or_concat nodes with rfl | ⟨init, ⟨a, x⟩, rfl⟩
    · -- nothing is logged: the collector skips the whole block
      have hfirst : s.list.first = none := h.holds.chain.start_eq
      have hread : s.list.read = false := by
        by_contra hr
        exact h.nonempty (by simpa using hr) rfl
      refine ⟨{ s with list := { s.list with call := s.list.last }, collector := .idle }, ?_,
        ?_, Or.inl rfl⟩
      · simp [exec, hd, snapshot, hfirst]
      · exact { h with
          holds := ⟨h.holds.chain, h.holds.last⟩
          cursor := by simp
          held := by simp [hread] }
    · rw [List.concat_eq_append] at h ⊢
      obtain ⟨f, hf⟩ : ∃ f, s.list.first = some f := by
        rw [h.holds.chain.start_eq]
        cases init <;> exact ⟨_, rfl⟩
      refine ⟨{ s with
        list := { s.list with call := s.list.last }
        collector := .walking (some f) }, ?_, ?_, Or.inr hd⟩
      · simp [exec, hd, snapshot, hf]
      · exact { h with
          holds := ⟨h.holds.chain, h.holds.last⟩
          cursor := by
            intro b hb
            have hstart := h.holds.chain.start_eq
            rw [hf] at hstart
            obtain rfl : f = b := by simpa using hb
            cases hi : init ++ [(a, x)] with
            | nil => simp at hi
            | cons n rest =>
              rw [hi] at hstart
              obtain rfl : f = n.1 := Option.some.inj hstart
              exact ⟨[], n.2, rest, rfl, h.behind⟩
          held := by
            intro _
            refine ⟨init, a, x, [], rfl, by simpa using h.holds.last, ?_⟩
            rintro (hp | hp) <;> simp at hp }
  · refine ⟨s, ?_, h, Or.inl hc⟩
    simp [exec, hd, ← hc]

theorem dropped_collector {v : Variant} (mac : Mac) {s t : System} {block : Addr} {skb : Skb}
    {now : Clock} (h : exec v mac s (.dropped block skb now) = .ok t) :
    t.collector = s.collector := by
  simp only [exec, bind, Except.bind] at h
  split at h
  · cases h
  · cases h
    rfl

/-- An append leaves a flag that is clear as it is. -/
theorem dropped_read {v : Variant} (mac : Mac) {s t : System} {block : Addr} {skb : Skb}
    {now : Clock} (hread : s.list.read = false)
    (h : exec v mac s (.dropped block skb now) = .ok t) : t.list.read = false := by
  simp only [exec, appendPacket, dropAcknowledged, hread, bind, Except.bind] at h
  split at h
  · cases h
  · rename_i l hl
    cases h
    exact (link_packet_read hl).trans hread

theorem walk_list {v : Variant} (mac : Mac) {s t : System} (h : exec v mac s .walk = .ok t) :
    t.list = s.list := by
  simp only [exec] at h
  split at h
  · cases h
    rfl
  · simp only [bind, Except.bind] at h
    split at h
    · cases h
    · cases h
      exact visit_list mac _ s

/-- What a drop log promises in one state: the records written are the first
packets logged, the others are still on the list, a pending acknowledgement
names a node of the list, and no log line of confusion was printed. -/
structure Delivers (s : System) : Prop where
  inOrder : s.written.map DpT.drops <+: s.appended
  kept : ∃ nodes, Chain s.list.heap s.list.first nodes ∧
    s.appended.drop s.written.length <:+ nodes.map Prod.snd ∧
    (s.list.read = true → ∃ a ∈ addrs nodes, s.list.call = some a)
  quiet : s.list.printk = []

theorem Invariant.delivers {s : System} (h : Invariant s) : Delivers s := by
  obtain ⟨gone, nodes, ht⟩ := h
  refine ⟨ht.written, ⟨nodes, ht.holds.chain, ?_, ?_⟩, ht.printk⟩
  · rw [ht.appended, List.drop_append, List.drop_eq_nil_of_le ht.behind]
    exact List.drop_suffix _ _
  · intro hread
    obtain ⟨pre, a, x, post, rfl, hcall, _⟩ := ht.held (Or.inl hread)
    exact ⟨a, by simp, hcall⟩

/-- Every step of either log keeps the invariant, as long as no packet is
logged into a walk over an acknowledged list. -/
theorem inductive_invariant (v : Variant) (mac : Mac) :
    ((machine v mac).restrict NoLateAppend).Inductive Invariant where
  start := ⟨[], [], initial_tracks⟩
  step := by
    rintro s a ⟨gone, nodes, h⟩ ⟨hen, hguard⟩
    cases a with
    | dropped block skb now =>
      obtain ⟨hpos, hlater, hfresh⟩ := hen
      have hprepared : ∃ l gone' nodes', dropAcknowledged v.delete s.list = .ok l ∧
          Tracks { s with list := l } gone' nodes' := by
        cases hr : s.list.read with
        | true =>
          obtain ⟨l, gone', nodes', hrun, _, hl⟩ := h.delete v hr (hguard hr)
          exact ⟨l, gone', nodes', hrun, hl⟩
        | false => exact ⟨s.list, gone, nodes, by simp [dropAcknowledged, hr], h⟩
      obtain ⟨l, gone', nodes', hrun, hl⟩ := hprepared
      obtain ⟨l', hlink, _, ht⟩ := hl.link block (droppedPacket v.dpl skb now)
        (hfresh l hrun) hpos hlater
      refine ⟨_, dropped_ok mac ?_, gone', _, ht⟩
      rw [appendPacket, hrun]
      exact hlink
    | dpt =>
      obtain ⟨t, hrun, ht, _⟩ := h.dpt v mac hen
      exact ⟨t, hrun, gone, nodes, ht⟩
    | walk =>
      obtain ⟨b, hb⟩ := hen
      obtain ⟨t, hrun, _, _, ht⟩ := h.walk v mac hb
      exact ⟨t, hrun, gone, nodes, ht⟩
    | destroy =>
      obtain ⟨t, hrun, _, ht⟩ := h.destroy v mac hen
      exact ⟨t, hrun, gone, nodes, ht⟩

end ApTelemetry.DropLog
