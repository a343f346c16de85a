import Mathlib.Data.Fintype.EquivFin
import ApTelemetry.DropLog.Collector

namespace ApTelemetry.DropLog.Mac80211
open Lib

def deleteBeforeLastCall : DropList → Except Fault DropList :=
  deleteBeforeCall "unable to understand in status\n"

/-- The snapshot is retaken even while an acknowledged prefix waits to be deleted. -/
def dptMacLinger : DropList → Option Addr × DropList := snapshot

def destroyAfterTransmittedMac80211 : DropList → DropList := acknowledge

/-- The log in `ieee80211_tx_status`, which marks its packets with 3337. -/
def macLog : Variant where
  delete := deleteBeforeLastCall
  dpl := 3337
  dpt := dptMacLinger
  destroy := destroyAfterTransmittedMac80211
  deletes := ⟨_, rfl⟩
  snapshots _ := Or.inl rfl
  acknowledges := rfl

/-- During a walk over an acknowledged list the snapshot is the last node. -/
theorem retaken (mac : Mac) {s : System}
    (hr : ((machine macLog mac).restrict NoLateAppend).Reachable s) (hc : s.collector ≠ .idle)
    (hread : s.list.read = true) : s.list.call = s.list.last := by
  induction hr with
  | start => exact absurd rfl hc
  | @step s t a _ allowed runs ih =>
    obtain ⟨hen, hguard⟩ := allowed
    cases a with
    | dropped block skb now =>
      cases hset : s.list.read with
      | true => exact absurd (hguard hset) (dropped_collector mac runs ▸ hc)
      | false =>
        rw [dropped_read mac hset runs] at hread
        cases hread
    | dpt =>
      cases runs
      rfl
    | walk =>
      obtain ⟨b, hb⟩ := hen
      have hlist : t.list = s.list := walk_list (v := macLog) mac runs
      rw [hlist] at hread ⊢
      exact ih (by simp [hb]) hread
    | destroy =>
      cases runs
      exact absurd rfl hc

/-- With the snapshot off the list, the next append faults. -/
theorem stranded_can_fault (mac : Mac) {s : System} {b c : Addr} {later : Clock}
    (h : Stranded s.list b c) (hc : s.collector = .walking none) (hpos : stamp 0 0 < later.stamp)
    (hlater : ∀ p ∈ s.appended, p.stamp < later.stamp) :
    (machine macLog mac).CanFault .freed s := by
  refine .later .destroy hc rfl ?_
  obtain ⟨block, hblock⟩ := Infinite.exists_notMem_finset s.list.heap.keys.toFinset
  have hnone : s.list.heap.lookup block = none := by
    rw [AList.lookup_eq_none, AList.mem_keys]
    simpa only [List.mem_toFinset] using hblock
  have hacknowledged : Stranded (acknowledge s.list) b c :=
    ⟨h.first, h.last, h.call, h.single, h.ne⟩
  obtain ⟨hfresh, hfault⟩ := hacknowledged.append_faults rfl "unable to understand in status\n"
    block (droppedPacket macLog.dpl ⟨0, 0, 0, 0, 0, 0⟩ later) hnone
  exact .now (.dropped block ⟨0, 0, 0, 0, 0, 0⟩ later) ⟨hpos, hlater, hfresh⟩
    (dropped_error mac hfault)

/-- A packet logged into a walk over an acknowledged list leaves the collector
on released nodes, or else the snapshot off the list. -/
theorem late_append_can_fault (mac : Mac) {s t : System} {a : Action} {later : Clock}
    (hr : ((machine macLog mac).restrict NoLateAppend).Reachable s) (hen : enabled macLog s a)
    (hlate : ¬ NoLateAppend s a) (hrun : exec macLog mac s a = .ok t)
    (hlater : ∀ p ∈ t.appended, p.stamp < later.stamp) :
    (machine macLog mac).CanFault .freed t := by
  obtain ⟨block, skb, now, rfl⟩ : ∃ block skb now, a = .dropped block skb now := by
    cases a with
    | dropped block skb now => exact ⟨block, skb, now, rfl⟩
    | dpt => exact absurd trivial hlate
    | walk => exact absurd trivial hlate
    | destroy => exact absurd trivial hlate
  obtain ⟨hread, hc⟩ := Classical.not_imp.mp hlate
  obtain ⟨hpos, _, hfresh⟩ := hen
  obtain ⟨gone, nodes, h⟩ := (inductive_invariant macLog mac).reachable hr
  rcases List.eq_nil_or_concat nodes with rfl | ⟨pre, ⟨c, x⟩, rfl⟩
  · exact absurd rfl (h.nonempty hread)
  rw [List.concat_eq_append] at h
  have hcall : s.list.call = some c := by
    rw [retaken mac hr hc hread, h.holds.last]
    simp
  obtain ⟨l, happend, hstranded, hkept, hgone⟩ := append_strands h.holds hcall hread
    "unable to understand in status\n" block (droppedPacket macLog.dpl skb now) hfresh
  have happended : exec macLog mac s (.dropped block skb now) = _ := dropped_ok mac happend
  have ht := Except.ok.inj (happended.symm.trans hrun)
  have hlist : t.list = l := by rw [← ht]
  have hcol : t.collector = s.collector := by rw [← ht]
  have hafter : stamp 0 0 < later.stamp := by
    refine hpos.trans (hlater (droppedPacket macLog.dpl skb now) ?_)
    rw [← ht]
    exact List.mem_append_right _ List.mem_cons_self
  rw [← hlist] at hstranded hkept hgone
  cases hs : s.collector with
  | idle => exact absurd hs hc
  | walking ptr =>
    rw [hs] at hcol
    cases ptr with
    | none => exact stranded_can_fault mac hstranded hcol hafter hlater
    | some a =>
      obtain ⟨pre', y, post', hn, _⟩ := h.cursor a hs
      have hmem : a ∈ addrs pre ∨ a = c := by
        have hall : a ∈ addrs (pre ++ [(c, x)]) := by simp [hn]
        simpa using hall
      have hcell : t.list.heap.lookup a = none ∨ ∃ y, t.list.heap.lookup a = some ⟨y, none⟩ := by
        by_cases hab : a = block
        · exact Or.inr (hab ▸ hstranded.single)
        · rcases hmem with hm | rfl
          · exact Or.inl (hgone a hm hab)
          · exact Or.inr ⟨x, hkept⟩
      rcases hcell with hnone | ⟨y, hy⟩
      · exact .now .walk ⟨a, hcol⟩ (walk_freed (v := macLog) mac hcol hnone)
      · rw [← visit_list mac y] at hstranded
        rw [← visit_appended mac y] at hlater
        exact .later .walk ⟨a, hcol⟩ (walk_ok (v := macLog) mac hcol hy)
          (stranded_can_fault mac hstranded rfl hafter hlater)

/-- As long as no packet is logged into a walk that started on an acknowledged
list, the log delivers every packet once and in order. Once one is, some run
goes on to a released node, as long as the clock has a later time. -/
theorem mac_log_delivers (mac : Mac) (s : System)
    (hr : ((machine macLog mac).restrict NoLateAppend).Reachable s) :
    Delivers s ∧
    (∀ a, enabled macLog s a → NoLateAppend s a → ∃ t, exec macLog mac s a = .ok t) ∧
    ∀ a t later, enabled macLog s a → ¬ NoLateAppend s a → exec macLog mac s a = .ok t →
      (∀ p ∈ t.appended, p.stamp < Clock.stamp later) →
        (machine macLog mac).CanFault .freed t :=
  ⟨((inductive_invariant macLog mac).reachable hr).delivers,
    fun a hen hguard => (inductive_invariant macLog mac).runs hr a ⟨hen, hguard⟩,
    fun _ _ _ hen hlate hrun hlater => late_append_can_fault mac hr hen hlate hrun hlater⟩

/-- A full round, a packet that clears what the round acknowledged, and the
next round up to its walk. -/
def twoRounds : List Action :=
  [.dropped 1 ⟨1, 2, 3, 4, 5, 6⟩ ⟨7, 0, 0⟩, .dpt, .walk, .destroy,
    .dropped 2 ⟨1, 2, 3, 4, 5, 6⟩ ⟨7, 1, 0⟩, .dpt, .walk]

theorem mac_log_delivers_two_rounds : ∃ s,
    ((machine macLog ⟨2, 0, 0, 0, 0, 1⟩).restrict NoLateAppend).follow initial twoRounds =
      some s ∧ s.written.length = 2 ∧ Delivers s := by
  have hrun : (((machine macLog ⟨2, 0, 0, 0, 0, 1⟩).restrict NoLateAppend).follow initial
      twoRounds).map (fun s => s.written.length) = some 2 := by decide
  obtain ⟨s, hs, hlen⟩ := Option.map_eq_some_iff.mp hrun
  exact ⟨s, hs, hlen, (mac_log_delivers _ s (Machine.follow_reachable .start hs)).1⟩

/-- A full round over two packets, then a packet logged between the next
snapshot and the walk. -/
def lateAppend : List Action :=
  [.dropped 1 ⟨1, 2, 3, 4, 5, 6⟩ ⟨7, 0, 0⟩, .dropped 2 ⟨1, 2, 3, 4, 5, 6⟩ ⟨7, 1, 0⟩,
    .dpt, .walk, .walk, .destroy, .dpt, .dropped 3 ⟨1, 2, 3, 4, 5, 6⟩ ⟨7, 2, 0⟩]

/-- The append deletes the nodes under the collector, which then reads one. -/
theorem mac_log_reads_freed : ∃ s, (machine macLog ⟨2, 0, 0, 0, 0, 1⟩).Reachable s ∧
    enabled macLog s .walk ∧ exec macLog ⟨2, 0, 0, 0, 0, 1⟩ s .walk = .error .freed := by
  have hrun : ((machine macLog ⟨2, 0, 0, 0, 0, 1⟩).follow initial lateAppend).map
      (fun s => (s.collector, s.list.heap.lookup 1)) = some (.walking (some 1), none) := by decide
  obtain ⟨s, hs, hend⟩ := Option.map_eq_some_iff.mp hrun
  obtain ⟨hc, hfree⟩ := Prod.mk.inj hend
  exact ⟨s, Machine.follow_reachable .start hs, ⟨1, hc⟩, walk_freed _ hc hfree⟩

end ApTelemetry.DropLog.Mac80211
