import ApTelemetry.Lib.Buffer
import ApTelemetry.Lib.Machine
import ApTelemetry.Lib.Slots
import ApTelemetry.Structs
import Mathlib.Algebra.GroupWithZero.Nat

namespace ApTelemetry.Flow
open Lib

/-- `FLOWS_KEEP_LINGER`. -/
def flowsKeepLinger : Nat := 10

instance : NeZero flowsKeepLinger := ⟨by decide⟩

/-- A TCP packet in `key_extract`: `wscale` is what the scan of its options gave,
and the clock may be read a second time. -/
structure Packet where
  ipSrc : U32
  ipDst : U32
  source : U16
  dest : U16
  window : U16
  wscale : U16
  hSource : Mac
  hDest : Mac
  sec : U32
  usec : U32
  laterSec : U32
  laterUsec : U32

/-- `flow_linger` and `flow_count`. Nothing reads the other three: the clock, the
flows of the packets so far, and how many there were when a slot was filled. -/
structure FlowTable where
  flowLinger : Fin flowsKeepLinger → TcpFlow
  flowCount : Int
  now : Stamp
  seen : List FourTuple
  created : Fin flowsKeepLinger → Nat

def Packet.tuple (p : Packet) : FourTuple := ⟨p.ipSrc, p.ipDst, p.source, p.dest⟩

def flowTuple (ttt : TcpFlow) : FourTuple :=
  ⟨ttt.ipSrc, ttt.ipDst, ttt.sourceaddr, ttt.destination⟩

/-- `cond == 0`. -/
def Packet.Tracked (p : Packet) : Prop := p.source ≠ 64793 ∧ p.dest ≠ 64793

instance (p : Packet) : Decidable p.Tracked := inferInstanceAs (Decidable (_ ∧ _))

def zeroFlow : TcpFlow :=
  ⟨0, 0, 0, 0, 0, 0, 0, 0, 0, ⟨0, 0, 0, 0, 0, 0⟩, 0, ⟨0, 0, 0, 0, 0, 0⟩, 0⟩

def store (p : Packet) (ttt : TcpFlow) : TcpFlow :=
  { ttt with
    ipSrc := p.ipSrc
    ipDst := p.ipDst
    sourceaddr := p.source
    destination := p.dest
    winsize := p.window
    wscale := p.wscale
    sec := p.sec
    usec := p.usec
    ethSrc := p.hSource
    ethDst := p.hDest
    packets := 1 }

def refresh (p : Packet) (ttt : TcpFlow) : TcpFlow :=
  { ttt with sec := p.laterSec, usec := p.laterUsec, packets := ttt.packets + 1 }

/-- `flow_count == 0`: the first slot, whatever is in it. -/
def insertFirst (p : Packet) (s : FlowTable) : FlowTable :=
  { s with
    flowLinger := Function.update s.flowLinger 0 (store p (s.flowLinger 0))
    flowCount := 1
    created := Function.update s.created 0 s.seen.length }

/-- Empty slots are searched too. -/
def search (p : Packet) (s : FlowTable) : Option (Fin flowsKeepLinger) :=
  Fin.find? fun i => flowTuple (s.flowLinger i) = p.tuple

/-- The loop goes on behind a free slot. -/
def insertFlow (p : Packet) (s : FlowTable) : FlowTable :=
  { s with
    flowLinger := fun i =>
      if (s.flowLinger i).sec = 0 then store p (s.flowLinger i) else s.flowLinger i
    flowCount := s.flowCount + countWhere (fun ttt => ttt.sec = 0) s.flowLinger
    created := fun i => if (s.flowLinger i).sec = 0 then s.seen.length else s.created i }

def refreshFlow (p : Packet) (i : Fin flowsKeepLinger) (s : FlowTable) : FlowTable :=
  { s with flowLinger := Function.update s.flowLinger i (refresh p (s.flowLinger i)) }

def enterFlow (p : Packet) (s : FlowTable) : FlowTable :=
  if s.flowCount = 0 then insertFirst p s
  else
    match search p s with
    | some i => refreshFlow p i s
    | none => insertFlow p s

/-- The difference is unsigned and taken from the first reading of the clock. -/
def outdated (p : Packet) (ttt : TcpFlow) : Bool := 2 < p.sec - ttt.sec

def deleteOutdated (p : Packet) (s : FlowTable) : FlowTable :=
  { s with
    flowLinger := fun i => if outdated p (s.flowLinger i) then zeroFlow else s.flowLinger i
    flowCount := s.flowCount - countWhere (outdated p) s.flowLinger }

/-- The clock, which the code does not keep. -/
def pass (p : Packet) (s : FlowTable) : FlowTable :=
  { s with now := stamp p.laterSec p.laterUsec }

def keyExtract (s : FlowTable) (p : Packet) : FlowTable :=
  if p.Tracked then
    { deleteOutdated p (enterFlow p (pass p s)) with seen := s.seen ++ [p.tuple] }
  else pass p s

def emptyTable : FlowTable := ⟨fun _ => zeroFlow, 0, stamp 0 0, [], fun _ => 0⟩

/-- Packets at any times in order. -/
def tableMachine : Machine FlowTable Packet Fault where
  start := emptyTable
  enabled s p := s.now ≤ stamp p.sec p.usec ∧
    stamp p.sec p.usec ≤ stamp p.laterSec p.laterUsec
  exec s p := .ok (keyExtract s p)

/-- A slot is taken unless its `sec` is 0, as the code looks for a free one. -/
def taken (s : FlowTable) : Slots (Fin flowsKeepLinger) FourTuple := fun i =>
  if (s.flowLinger i).sec = 0 then none else some (flowTuple (s.flowLinger i))

/-- What the table is for. -/
structure Consistent (t : FlowTable) : Prop where
  unique : (taken t).Unique
  count : t.flowCount = countWhere (fun ttt => ttt.sec ≠ 0) t.flowLinger
  packets : ∀ i flow, taken t i = some flow →
    (t.flowLinger i).packets.toNat = (t.seen.drop (t.created i)).count flow

/-- A packet leaves the table so, and a new flow in it if there was a free slot. -/
def KeepsFlows (s : FlowTable) (p : Packet) (r : Except Fault FlowTable) : Prop :=
  ∃ t, r = .ok t ∧ Consistent t ∧
    (p.Tracked → ¬ (taken s).Holds p.tuple → (∃ i, taken s i = none) → (taken t).Holds p.tuple)

/-- The packet comes in the first or the second second, it is of the one flow in
the table if there is one, and the slot's counter is not full unless the slot
is deleted. -/
def LoneFlow (s : FlowTable) (p : Packet) : Prop :=
  p.Tracked → (p.sec = 1 ∨ p.sec = 2) ∧
    (s.flowCount ≠ 0 → flowTuple (s.flowLinger 0) = p.tuple ∧
      ((s.flowLinger 0).packets ≠ BitVec.allOnes 64 ∨ 2 < p.sec - p.laterSec))

/-- What a run keeps under the guard: one slot at most was ever filled. -/
structure Lone (s : FlowTable) : Prop where
  others : ∀ i, i ≠ 0 → s.flowLinger i = zeroFlow
  first : s.flowCount = 0 ∧ s.flowLinger 0 = zeroFlow ∨
    s.flowCount = 1 ∧ (s.flowLinger 0).sec ≠ 0 ∧
      stamp (s.flowLinger 0).sec (s.flowLinger 0).usec ≤ s.now ∧
      s.created 0 ≤ s.seen.length ∧
      (s.flowLinger 0).packets.toNat =
        (s.seen.drop (s.created 0)).count (flowTuple (s.flowLinger 0))

theorem taken_eq_some_iff {s : FlowTable} {i : Fin flowsKeepLinger} {flow : FourTuple} :
    taken s i = some flow ↔ (s.flowLinger i).sec ≠ 0 ∧ flowTuple (s.flowLinger i) = flow := by
  unfold taken
  split <;> simp_all

theorem sec_le_of_stamp_le {s u s' u' : U32} (h : stamp s u ≤ stamp s' u') : s ≤ s' := by
  by_contra hlt
  have hback := (stamp_lt_iff s' u' s u).mpr (.inl (by simpa using hlt))
  exact absurd h (not_le.mpr hback)

variable {s : FlowTable} {p : Packet}

theorem Lone.others_free (h : Lone s) {i : Fin flowsKeepLinger} (hi : i ≠ 0) :
    (s.flowLinger i).sec = 0 := by
  rw [h.others i hi]
  rfl

theorem Lone.consistent (h : Lone s) : Consistent s := by
  have hzero : ∀ i flow, taken s i = some flow → i = 0 := by
    intro i flow hi
    by_contra hne
    exact (taken_eq_some_iff.mp hi).1 (h.others_free hne)
  refine ⟨fun i j flow hi hj => (hzero i flow hi).trans (hzero j flow hj).symm, ?_, ?_⟩
  · rcases h.first with ⟨hcount, hfirst⟩ | ⟨hcount, hsec, -⟩
    · rw [hcount, count_where_none]
      · rfl
      · intro i
        by_cases hi : i = 0
        · subst hi
          simp [hfirst, zeroFlow]
        · simp [h.others_free hi]
    · rw [hcount, count_where_one (i := 0)]
      · rfl
      · exact decide_eq_true hsec
      · intro j hj
        simp [h.others_free hj]
  · intro i flow hi
    obtain rfl := hzero i flow hi
    obtain ⟨hsec, rfl⟩ := taken_eq_some_iff.mp hi
    rcases h.first with ⟨-, hfirst⟩ | ⟨-, -, -, -, hpackets⟩
    · rw [hfirst] at hsec
      exact absurd rfl hsec
    · exact hpackets

section Deleting

variable {f : FlowTable}

/-- A packet past the second second also counts empty slots down. -/
theorem late_count (hlate : 2 < p.sec) (hcount : f.flowCount ≤ 1)
    (hfree : ∀ i, 1 < i → (f.flowLinger i).sec = 0) : (deleteOutdated p f).flowCount < 0 := by
  have hout : ∀ i, 1 < i → outdated p (f.flowLinger i) = true := by
    intro i hi
    simpa [outdated, hfree i hi] using hlate
  have htwo : 1 < countWhere (outdated p) f.flowLinger :=
    one_lt_count_where (i := 2) (j := 3) (by decide) (hout 2 (by decide)) (hout 3 (by decide))
  show f.flowCount - (countWhere (outdated p) f.flowLinger : Int) < 0
  omega

/-- A slot filled by the packet itself is not deleted. -/
theorem taken_stored {i : Fin flowsKeepLinger} (hsec : p.sec ≠ 0)
    (hi : (f.flowLinger i).sec = p.sec) :
    taken (deleteOutdated p f) i = some (flowTuple (f.flowLinger i)) := by
  have hkept : outdated p (f.flowLinger i) = false := by
    rw [outdated, hi, BitVec.sub_self]
    rfl
  have hsame : (deleteOutdated p f).flowLinger i = f.flowLinger i := if_neg (by simp [hkept])
  rw [taken_eq_some_iff, hsame, hi]
  exact ⟨hsec, rfl⟩

end Deleting

theorem not_outdated_zero (h : p.sec = 1 ∨ p.sec = 2) : outdated p zeroFlow = false := by
  unfold outdated
  rcases h with h | h <;> rw [h] <;> rfl

/-- Deleting from a table with one slot filled. -/
theorem delete_lone {f : FlowTable} (hothers : ∀ i, i ≠ 0 → f.flowLinger i = zeroFlow)
    (hsec : p.sec = 1 ∨ p.sec = 2) :
    (∀ i, i ≠ 0 → (deleteOutdated p f).flowLinger i = zeroFlow) ∧
      (deleteOutdated p f).flowLinger 0 =
        (if outdated p (f.flowLinger 0) then zeroFlow else f.flowLinger 0) ∧
      (deleteOutdated p f).flowCount =
        (if outdated p (f.flowLinger 0) then f.flowCount - 1 else f.flowCount) := by
  have hnot : ∀ i, i ≠ 0 → outdated p (f.flowLinger i) = false := by
    intro i hi
    rw [hothers i hi]
    exact not_outdated_zero hsec
  refine ⟨fun i hi => ?_, rfl, ?_⟩
  · simp only [deleteOutdated, hnot i hi]
    exact hothers i hi
  · simp only [deleteOutdated]
    split
    · rename_i hout
      rw [count_where_one (i := 0) hout hnot]
      rfl
    · rename_i hkept
      rw [count_where_none]
      · simp
      · intro i
        by_cases hi : i = 0
        · subst hi
          simpa using hkept
        · exact hnot i hi

theorem search_first (h : flowTuple (s.flowLinger 0) = p.tuple) : search p s = some 0 := by
  rw [search, Fin.find?_eq_some_iff]
  exact ⟨decide_eq_true h, fun j hj => absurd hj (Fin.not_lt_zero j)⟩

section Enter

theorem insert_first_same : (insertFirst p s).flowLinger 0 = store p (s.flowLinger 0) :=
  Function.update_self 0 _ s.flowLinger

theorem insert_first_other {i : Fin flowsKeepLinger} (hi : i ≠ 0) :
    (insertFirst p s).flowLinger i = s.flowLinger i := Function.update_of_ne hi _ s.flowLinger

theorem insert_first_created : (insertFirst p s).created 0 = s.seen.length :=
  Function.update_self 0 _ s.created

theorem refresh_flow_same (i : Fin flowsKeepLinger) :
    (refreshFlow p i s).flowLinger i = refresh p (s.flowLinger i) :=
  Function.update_self i _ s.flowLinger

theorem refresh_flow_other {i j : Fin flowsKeepLinger} (hj : j ≠ i) :
    (refreshFlow p i s).flowLinger j = s.flowLinger j := Function.update_of_ne hj _ s.flowLinger

theorem insert_flow_free {i : Fin flowsKeepLinger} (hi : (s.flowLinger i).sec = 0) :
    (insertFlow p s).flowLinger i = store p (s.flowLinger i) := if_pos hi

end Enter

/-- What a packet that is tracked comes to, by what it finds in the table. -/
theorem key_extract_first (htracked : p.Tracked) (hcount : s.flowCount = 0) :
    keyExtract s p =
      { deleteOutdated p (insertFirst p (pass p s)) with seen := s.seen ++ [p.tuple] } := by
  have henter : enterFlow p (pass p s) = insertFirst p (pass p s) := if_pos hcount
  unfold keyExtract
  rw [if_pos htracked, henter]

theorem key_extract_found (htracked : p.Tracked) (hcount : s.flowCount ≠ 0)
    {i : Fin flowsKeepLinger} (hfound : search p s = some i) : keyExtract s p =
      { deleteOutdated p (refreshFlow p i (pass p s)) with seen := s.seen ++ [p.tuple] } := by
  have hsearch : search p (pass p s) = some i := hfound
  have hpass : (pass p s).flowCount ≠ 0 := hcount
  unfold keyExtract enterFlow
  rw [if_pos htracked, if_neg hpass]
  simp only [hsearch]

theorem key_extract_new (htracked : p.Tracked) (hcount : s.flowCount ≠ 0)
    (hfound : search p s = none) : keyExtract s p =
      { deleteOutdated p (insertFlow p (pass p s)) with seen := s.seen ++ [p.tuple] } := by
  have hsearch : search p (pass p s) = none := hfound
  have hpass : (pass p s).flowCount ≠ 0 := hcount
  unfold keyExtract enterFlow
  rw [if_pos htracked, if_neg hpass]
  simp only [hsearch]

theorem not_outdated_self {ttt : TcpFlow} (h : ttt.sec = p.sec) : outdated p ttt = false := by
  rw [outdated, h, BitVec.sub_self]
  rfl

theorem count_eq_live {f : FlowTable} {seen : List FourTuple}
    (hgood : Consistent { deleteOutdated p f with seen }) :
    f.flowCount - countWhere (outdated p) f.flowLinger =
      countWhere (fun ttt => ttt.sec ≠ 0) (deleteOutdated p f).flowLinger := hgood.count

theorem not_late {f : FlowTable} {seen : List FourTuple}
    (hgood : Consistent { deleteOutdated p f with seen }) (hcount : f.flowCount ≤ 1)
    (hfree : ∀ i, 1 < i → (f.flowLinger i).sec = 0) : p.sec ≤ 2 := by
  by_contra hlate
  have hneg := late_count (BitVec.not_le.mp hlate) hcount hfree
  have hlive : (deleteOutdated p f).flowCount = _ := hgood.count
  omega

/-- A packet that finds the table empty. -/
theorem lone_first (h : Lone s) (hcount : s.flowCount = 0) (htracked : p.Tracked)
    (hsec : p.sec = 1 ∨ p.sec = 2)
    (hlater : stamp p.sec p.usec ≤ stamp p.laterSec p.laterUsec) :
    Lone (keyExtract s p) ∧ taken (keyExtract s p) 0 = some p.tuple := by
  have hpos : p.sec ≠ 0 := by
    rcases hsec with hsec | hsec <;> rw [hsec] <;> decide
  have hothers : ∀ i, i ≠ 0 → (insertFirst p (pass p s)).flowLinger i = zeroFlow :=
    fun i hi => (insert_first_other hi).trans (h.others i hi)
  have hkept : outdated p ((insertFirst p (pass p s)).flowLinger 0) = false := by
    rw [insert_first_same]
    exact not_outdated_self rfl
  obtain ⟨hrest, hfirst, hone⟩ := delete_lone hothers hsec
  rw [hkept, if_neg (by simp), insert_first_same] at hfirst
  rw [hkept, if_neg (by simp)] at hone
  rw [key_extract_first htracked hcount]
  refine ⟨⟨hrest, .inr ⟨hone, ?_, ?_, ?_, ?_⟩⟩, ?_⟩
  · simp only [hfirst]
    exact hpos
  · simp only [hfirst]
    exact hlater
  · show (insertFirst p (pass p s)).created 0 ≤ (s.seen ++ [p.tuple]).length
    rw [insert_first_created, List.length_append]
    exact Nat.le_add_right ..
  · show ((deleteOutdated p (insertFirst p (pass p s))).flowLinger 0).packets.toNat =
      ((s.seen ++ [p.tuple]).drop ((insertFirst p (pass p s)).created 0)).count
        (flowTuple ((deleteOutdated p (insertFirst p (pass p s))).flowLinger 0))
    have hlast : (s.seen ++ [p.tuple]).drop (pass p s).seen.length = [p.tuple] := List.drop_left
    rw [hfirst, insert_first_created, hlast]
    simp [store, flowTuple, Packet.tuple]
  · rw [taken_eq_some_iff]
    simp only [hfirst]
    exact ⟨hpos, rfl⟩

/-- The counter of a slot that is kept counts the packet. -/
theorem refreshed_packets
    (hpackets : (s.flowLinger 0).packets.toNat =
      (s.seen.drop (s.created 0)).count (flowTuple (s.flowLinger 0)))
    (hcreated : s.created 0 ≤ s.seen.length) (hsame : flowTuple (s.flowLinger 0) = p.tuple)
    (hroom : (s.flowLinger 0).packets ≠ BitVec.allOnes 64) :
    (refresh p (s.flowLinger 0)).packets.toNat =
      ((s.seen ++ [p.tuple]).drop (s.created 0)).count
        (flowTuple (refresh p (s.flowLinger 0))) := by
  have hmore : (refresh p (s.flowLinger 0)).packets.toNat =
      (s.flowLinger 0).packets.toNat + 1 := by
    have hnot : (s.flowLinger 0).packets.toNat ≠ (BitVec.allOnes 64).toNat :=
      fun heq => hroom (BitVec.eq_of_toNat_eq heq)
    have hfull : (BitVec.allOnes 64).toNat = 2 ^ 64 - 1 := BitVec.toNat_allOnes
    show ((s.flowLinger 0).packets + 1).toNat = _
    bv_omega
  have htuple : flowTuple (refresh p (s.flowLinger 0)) = flowTuple (s.flowLinger 0) := rfl
  rw [hmore, hpackets, htuple, List.drop_append_of_le_length hcreated, List.count_append, hsame,
    List.count_singleton_self]

/-- A packet of the flow in the table: a clock that moves between the readings
deletes it. -/
theorem lone_refresh (h : Lone s) (hcount : s.flowCount ≠ 0) (htracked : p.Tracked)
    (hsec : p.sec = 1 ∨ p.sec = 2)
    (hlater : stamp p.sec p.usec ≤ stamp p.laterSec p.laterUsec)
    (hsame : flowTuple (s.flowLinger 0) = p.tuple)
    (hroom : (s.flowLinger 0).packets ≠ BitVec.allOnes 64 ∨ 2 < p.sec - p.laterSec) :
    Lone (keyExtract s p) := by
  obtain ⟨hone, -, -, hcreated, hpackets⟩ := h.first.resolve_left fun hzero => hcount hzero.1
  have hpos : p.laterSec ≠ 0 := by
    have hle := sec_le_of_stamp_le hlater
    rcases hsec with hsec | hsec <;> rw [hsec] at hle <;> bv_omega
  have hothers : ∀ i, i ≠ 0 → (refreshFlow p 0 (pass p s)).flowLinger i = zeroFlow :=
    fun i hi => (refresh_flow_other hi).trans (h.others i hi)
  have hset : (refreshFlow p 0 (pass p s)).flowCount = 1 := hone
  have hout : outdated p (refresh p ((pass p s).flowLinger 0)) =
      decide (2 < p.sec - p.laterSec) := rfl
  obtain ⟨hrest, hfirst, hcounted⟩ := delete_lone hothers hsec
  rw [refresh_flow_same, hout] at hfirst hcounted
  rw [key_extract_found htracked hcount (search_first hsame)]
  by_cases hdeleted : 2 < p.sec - p.laterSec
  · rw [decide_eq_true hdeleted, if_pos rfl] at hfirst hcounted
    exact ⟨hrest, .inl ⟨by simp only [hcounted, hset]; rfl, hfirst⟩⟩
  · rw [decide_eq_false hdeleted, if_neg (by simp)] at hfirst hcounted
    refine ⟨hrest, .inr ⟨hcounted.trans hset, ?_, ?_, ?_, ?_⟩⟩
    · simp only [hfirst]
      exact hpos
    · simp only [hfirst]
      exact le_refl _
    · show s.created 0 ≤ (s.seen ++ [p.tuple]).length
      rw [List.length_append]
      exact Nat.le_add_right_of_le hcreated
    · simp only [hfirst]
      exact refreshed_packets hpackets hcreated hsame (hroom.resolve_right hdeleted)

/-- Under the guard the table keeps to one slot, and a new flow gets it. -/
theorem lone_step (h : Lone s) (hallowed : tableMachine.enabled s p) (hguard : LoneFlow s p) :
    Lone (keyExtract s p) ∧
      (p.Tracked → ¬ (taken s).Holds p.tuple → (taken (keyExtract s p)).Holds p.tuple) := by
  obtain ⟨hin, hlater⟩ := hallowed
  by_cases htracked : p.Tracked
  · obtain ⟨hsec, hsame⟩ := hguard htracked
    by_cases hcount : s.flowCount = 0
    · obtain ⟨hlone, htaken⟩ := lone_first h hcount htracked hsec hlater
      exact ⟨hlone, fun _ _ => ⟨0, htaken⟩⟩
    · obtain ⟨hflow, hroom⟩ := hsame hcount
      refine ⟨lone_refresh h hcount htracked hsec hlater hflow hroom, fun _ hnew => ?_⟩
      obtain ⟨-, hfirst, -⟩ := h.first.resolve_left fun hzero => hcount hzero.1
      exact absurd ⟨0, taken_eq_some_iff.mpr ⟨hfirst, hflow⟩⟩ hnew
  · have hsame : keyExtract s p = pass p s := if_neg htracked
    rw [hsame]
    refine ⟨⟨h.others, h.first.imp id ?_⟩, fun hmust => absurd hmust htracked⟩
    rintro ⟨hone, hfirst, hnow, hrest⟩
    exact ⟨hone, hfirst, hnow.trans (hin.trans hlater), hrest⟩

/-- The table is consistent after its first packet in the first two seconds only. -/
theorem first_in_time (h : Lone s) (hcount : s.flowCount = 0) (htracked : p.Tracked)
    (hgood : Consistent (keyExtract s p)) : p.sec = 1 ∨ p.sec = 2 := by
  rw [key_extract_first htracked hcount] at hgood
  have hset : (insertFirst p (pass p s)).flowCount = 1 := rfl
  have hothers : ∀ i, i ≠ 0 → ((insertFirst p (pass p s)).flowLinger i).sec = 0 := by
    intro i hi
    rw [insert_first_other hi]
    exact h.others_free hi
  have hlate := not_late hgood (le_of_eq hset) fun i hi =>
    hothers i (ne_of_gt (lt_trans (by decide) hi))
  by_cases hzero : p.sec = 0
  · -- the one slot filled is free again, but counted
    have hfree : ∀ i, ((insertFirst p (pass p s)).flowLinger i).sec = 0 := by
      intro i
      by_cases hi : i = 0
      · rw [hi, insert_first_same]
        exact hzero
      · exact hothers i hi
    have hnone := count_where_none (outdated p) (insertFirst p (pass p s)).flowLinger fun i => by
      simp [outdated, hfree i, hzero]
    have hlive := count_where_none (fun ttt => decide (ttt.sec ≠ 0))
      (deleteOutdated p (insertFirst p (pass p s))).flowLinger fun i => by
        simp only [deleteOutdated]
        split
        · rfl
        · simp [hfree i]
    have hcounts := count_eq_live hgood
    rw [hset, hnone, hlive] at hcounts
    cases hcounts
  · bv_omega

section Taken

variable (h : Lone s) (hallowed : tableMachine.enabled s p) (hcount : s.flowCount ≠ 0)
  (htracked : p.Tracked) (hgood : Consistent (keyExtract s p))

include h hallowed hcount in
/-- The clock of the slot, the two readings for the packet, and 0. -/
theorem lone_clock : (s.flowLinger 0).sec ≠ 0 ∧ (s.flowLinger 0).sec ≤ p.sec ∧
    p.sec ≤ p.laterSec := by
  obtain ⟨-, hfirst, hnow, -⟩ := h.first.resolve_left fun hzero => hcount hzero.1
  exact ⟨hfirst, sec_le_of_stamp_le (hnow.trans hallowed.1), sec_le_of_stamp_le hallowed.2⟩

include h hallowed hcount htracked hgood

/-- And after a later one. -/
theorem refreshed_in_time (hsame : flowTuple (s.flowLinger 0) = p.tuple) :
    p.sec = 1 ∨ p.sec = 2 := by
  obtain ⟨hone, -⟩ := h.first.resolve_left fun hzero => hcount hzero.1
  obtain ⟨hfirst, hin, -⟩ := lone_clock h hallowed hcount
  rw [key_extract_found htracked hcount (search_first hsame)] at hgood
  have hlate := not_late hgood (le_of_eq hone) fun i hi => by
    have hi0 : i ≠ 0 := ne_of_gt (lt_trans (by decide) hi)
    rw [refresh_flow_other hi0]
    exact h.others_free hi0
  bv_omega

/-- A packet of the zero flow is found in an empty slot and not counted. -/
theorem zero_flow_found (hother : flowTuple (s.flowLinger 0) ≠ p.tuple) :
    flowTuple zeroFlow ≠ p.tuple := by
  intro hzero
  obtain ⟨hone, -⟩ := h.first.resolve_left fun hempty => hcount hempty.1
  obtain ⟨hfirst, hin, hlater⟩ := lone_clock h hallowed hcount
  have hfound : search p s = some 1 := by
    rw [search, Fin.find?_eq_some_iff]
    refine ⟨decide_eq_true ?_, fun j hj => decide_eq_false ?_⟩
    · rw [h.others 1 (by decide)]
      exact hzero
    · have hval : j.val < 1 := hj
      obtain rfl : j = 0 := Fin.ext (Nat.lt_one_iff.mp hval)
      exact hother
  rw [key_extract_found htracked hcount hfound] at hgood
  have hset : (refreshFlow p 1 (pass p s)).flowCount = 1 := hone
  have hkept : (refreshFlow p 1 (pass p s)).flowLinger 0 = s.flowLinger 0 :=
    refresh_flow_other (by decide)
  have hlate := not_late hgood (le_of_eq hset) fun i hi => by
    rw [refresh_flow_other (ne_of_gt hi)]
    exact h.others_free (ne_of_gt (lt_trans (by decide) hi))
  have hcounts := count_eq_live hgood
  have hlive0 : ((deleteOutdated p (refreshFlow p 1 (pass p s))).flowLinger 0).sec ≠ 0 := by
    have hstays : outdated p (s.flowLinger 0) = false := by
      rw [outdated, decide_eq_false_iff_not]
      bv_omega
    simp only [deleteOutdated, hkept, hstays]
    exact hfirst
  by_cases hout : outdated p ((refreshFlow p 1 (pass p s)).flowLinger 1) = true
  · have hdeleted : 0 < countWhere (outdated p) (refreshFlow p 1 (pass p s)).flowLinger :=
      count_where_pos hout
    have hlive : 0 < countWhere (fun ttt => decide (ttt.sec ≠ 0))
        (deleteOutdated p (refreshFlow p 1 (pass p s))).flowLinger :=
      count_where_pos (decide_eq_true hlive0)
    omega
  · have hlive1 : ((deleteOutdated p (refreshFlow p 1 (pass p s))).flowLinger 1).sec ≠ 0 := by
      simp only [deleteOutdated]
      rw [if_neg hout, refresh_flow_same]
      show p.laterSec ≠ 0
      bv_omega
    have hlive : 1 < countWhere (fun ttt => decide (ttt.sec ≠ 0))
        (deleteOutdated p (refreshFlow p 1 (pass p s))).flowLinger :=
      one_lt_count_where (i := 0) (j := 1) (by decide) (decide_eq_true hlive0)
        (decide_eq_true hlive1)
    omega

/-- A second flow is found nowhere and written to every free slot. -/
theorem same_flow : flowTuple (s.flowLinger 0) = p.tuple := by
  by_contra hother
  have hzero := zero_flow_found h hallowed hcount htracked hgood hother
  obtain ⟨hfirst, hin, -⟩ := lone_clock h hallowed hcount
  have hpos : p.sec ≠ 0 := by bv_omega
  have hfound : search p s = none := by
    rw [search, Fin.find?_eq_none_iff]
    intro i
    by_cases hi : i = 0
    · subst hi
      exact decide_eq_false hother
    · rw [h.others i hi]
      exact decide_eq_false hzero
  rw [key_extract_new htracked hcount hfound] at hgood
  have htaken : ∀ i, i ≠ 0 →
      taken (deleteOutdated p (insertFlow p (pass p s))) i = some p.tuple := by
    intro i hi
    have hstored : (insertFlow p (pass p s)).flowLinger i = store p (s.flowLinger i) :=
      insert_flow_free (h.others_free hi)
    rw [taken_stored hpos (by rw [hstored]; rfl), hstored]
    rfl
  have hunique : (taken (deleteOutdated p (insertFlow p (pass p s)))).Unique := hgood.unique
  exact absurd (hunique 1 2 p.tuple (htaken 1 (by decide)) (htaken 2 (by decide))) (by decide)

/-- A full counter starts again at 0. -/
theorem counter_room (hsame : flowTuple (s.flowLinger 0) = p.tuple) :
    (s.flowLinger 0).packets ≠ BitVec.allOnes 64 ∨ 2 < p.sec - p.laterSec := by
  obtain ⟨-, -, -, hcreated, -⟩ := h.first.resolve_left fun hzero => hcount hzero.1
  obtain ⟨hfirst, hin, hlater⟩ := lone_clock h hallowed hcount
  by_contra hfull
  obtain ⟨hpackets, hkept⟩ := not_or.mp hfull
  rw [not_not] at hpackets
  rw [key_extract_found htracked hcount (search_first hsame)] at hgood
  have hstays : (deleteOutdated p (refreshFlow p 0 (pass p s))).flowLinger 0 =
      refresh p (s.flowLinger 0) := by
    simp only [deleteOutdated, refresh_flow_same]
    exact if_neg fun hout => hkept (of_decide_eq_true hout)
  have htaken : taken (deleteOutdated p (refreshFlow p 0 (pass p s))) 0 = some p.tuple := by
    rw [taken_eq_some_iff, hstays]
    refine ⟨?_, hsame⟩
    show p.laterSec ≠ 0
    bv_omega
  have hcounted : ((deleteOutdated p (refreshFlow p 0 (pass p s))).flowLinger 0).packets.toNat =
      ((s.seen ++ [p.tuple]).drop (s.created 0)).count p.tuple := hgood.packets 0 _ htaken
  have hnone : (refresh p (s.flowLinger 0)).packets.toNat = 0 := by simp [refresh, hpackets]
  rw [hstays, hnone, List.drop_append_of_le_length hcreated, List.count_append,
    List.count_singleton_self] at hcounted
  omega

end Taken

theorem keeps_flows_iff (h : Lone s) (hallowed : tableMachine.enabled s p) :
    KeepsFlows s p (tableMachine.exec s p) ↔ LoneFlow s p := by
  constructor
  · rintro ⟨t, ht, hgood, -⟩ htracked
    obtain rfl := Except.ok.inj ht
    by_cases hcount : s.flowCount = 0
    · exact ⟨first_in_time h hcount htracked hgood, fun hne => absurd hcount hne⟩
    · have hsame := same_flow h hallowed hcount htracked hgood
      exact ⟨refreshed_in_time h hallowed hcount htracked hgood hsame, fun _ =>
        ⟨hsame, counter_room h hallowed hcount htracked hgood hsame⟩⟩
  · intro hguard
    obtain ⟨hlone, hplaced⟩ := lone_step h hallowed hguard
    exact ⟨_, rfl, hlone.consistent, fun htracked hnew _ => hplaced htracked hnew⟩

theorem lone_start : Lone tableMachine.start := ⟨fun _ _ => rfl, .inl ⟨rfl, rfl⟩⟩

/-- The table is consistent for as long as one flow is alone in it, and only up
to the second second of the clock. -/
theorem flow_table_iff (packets : List Packet) :
    tableMachine.Throughout KeepsFlows tableMachine.start packets ↔
    tableMachine.Throughout (fun s p _ => LoneFlow s p) tableMachine.start packets := by
  refine Machine.throughout_iff Lone (fun s p hs ha => keeps_flows_iff hs ha) ?_ lone_start packets
  intro s p t hs ha hguard hrun
  obtain rfl := Except.ok.inj hrun
  exact (lone_step hs ha hguard).1

/-- A packet of one flow to a server, at a second of today. -/
def todayPacket : Packet :=
  ⟨0x0100000A, 0x0200000A, 0x00C8, 0x5000, 29200, 7, ⟨0, 0, 0, 0, 0, 1⟩, ⟨0, 0, 0, 0, 0, 2⟩,
    1530000000, 0, 1530000000, 0⟩

/-- The first packet of a run fills one slot and counts nine empty ones down. -/
theorem empty_slots_counted : ¬ ∀ packets,
    tableMachine.Throughout KeepsFlows tableMachine.start packets := by
  intro h
  have hallowed : tableMachine.enabled tableMachine.start todayPacket := by
    refine ⟨?_, le_refl _⟩
    exact le_of_lt ((stamp_lt_iff _ _ _ _).mpr (.inl (by decide)))
  obtain ⟨hgood, -⟩ := h [todayPacket] hallowed
  obtain ⟨hsec, -⟩ := (keeps_flows_iff lone_start hallowed).mp hgood (by decide)
  exact absurd hsec (by decide)

end ApTelemetry.Flow
