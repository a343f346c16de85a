import ApTelemetry.NewReceiver.ApiRings
import ApTelemetry.Structs
import Mathlib.Data.Finset.Card
import Mathlib.Data.Finset.Dedup

namespace ApTelemetry.NewReceiver.Api
open Lib

/-- The addresses are texts here, as the records carry them. -/
structure DataBeaconProcessed where
  macAddr : String
  bssid : String

structure DataIwProcessed where
  macAddr : String
  station : String

/-- `struct flow`, which a window and a dropped packet carry. -/
structure Flow where
  ipSrc : U32
  ipDst : U32
  portSrc : U16
  portDst : U16
  deriving DecidableEq

structure DataDroppedProcessed where
  macAddr : String
  flow : Flow

structure State where
  beacon : Ring DataBeaconProcessed
  iw : Ring DataIwProcessed
  winsize : Ring Flow
  dropped : Ring DataDroppedProcessed

/-- `struct aplist`; what stands behind the first entries is left out. -/
structure Aplist where
  aplists : List String
  length : Nat

/-- `mac_list` of `get_flow_drops` with its `drops`, and `total_drops`. -/
structure FlowDrops where
  macList : List (Flow × Nat)
  totalDrops : Nat

/-- Adding to an array what is not there yet. -/
def addNew {β : Type} [DecidableEq β] (size : Nat) (x : β) (xs : List β) :
    Except Fault (List β) :=
  if x ∈ xs then .ok xs else if xs.length < size then .ok (xs ++ [x]) else .error .outside

/-- `get_clients` and `get_neighbour` go on only behind a record of their AP. -/
def lookFor {α : Type} (ap : String) (macAddr value : α → String) (x : α) (macList : List String) :
    Except Fault (Bool × List String) :=
  if macAddr x = ap then do
    let macList ← addNew 20 (value x) macList
    .ok (true, macList)
  else .ok (false, macList)

def lookFlow (x : Flow) (flows : List Flow) : Except Fault (Bool × List Flow) := do
  let flows ← addNew 40 x flows
  .ok (true, flows)

/-- Nothing is ever added to `mac_list`. -/
def lookDrop (ap : String) (x : DataDroppedProcessed) (d : FlowDrops) :
    Except Fault (Bool × FlowDrops) :=
  if x.macAddr = ap then
    .ok (true, ⟨d.macList.map fun f => if f.1 = x.flow then (f.1, f.2 + 1) else f,
      d.totalDrops + d.macList.countP fun f => f.1 = x.flow⟩)
  else .ok (true, d)

/-- The loop of `get_aps` as long as `bbamount` is positive. The index is not taken
modulo the size, and every record gets a place in the array. -/
def apsLoop (buffer : Nat → Entry DataBeaconProcessed) :
    Nat → Nat → List String → List (Entry DataBeaconProcessed) →
    Except Fault (Nat × List String × List (Entry DataBeaconProcessed))
  | 0, bbstart, aplists, visited => .ok (bbstart, aplists, visited)
  | bbamount + 1, bbstart, aplists, visited => do
    let e ← fetch buffer bbstart
    if aplists.length < 20 then
      apsLoop buffer bbamount (bbstart + 1) (aplists ++ [e.record.macAddr]) (visited ++ [e])
    else .error .outside

def getAps (s : State) : Except Fault (State × List String) := do
  let r := s.beacon
  let (start, aplists, visited) ← apsLoop r.buffer r.cursor.amount r.cursor.start [] []
  .ok ({ s with beacon := { r with cursor := ⟨start, 0, r.log.length⟩, visited } }, aplists)

/-- The length is 10 whatever was found. -/
def getNeighbour (ap : String) (neibours : Aplist) (s : State) : Except Fault (State × Aplist) := do
  let w ← s.beacon.read
    (lookFor ap DataBeaconProcessed.macAddr DataBeaconProcessed.bssid) [] s.beacon.cursor1
  .ok ({ s with beacon := { s.beacon with cursor1 := w.cursor, visited := w.visited } },
    ⟨if w.found = [] then neibours.aplists else w.found, 10⟩)

def getClients (ap : String) (clients : Aplist) (s : State) : Except Fault (State × Aplist) := do
  let w ← s.iw.read (lookFor ap DataIwProcessed.macAddr DataIwProcessed.station) [] s.iw.cursor
  .ok ({ s with iw := { s.iw with cursor := w.cursor, visited := w.visited } },
    ⟨if w.found = [] then clients.aplists else w.found, w.found.length⟩)

def getFlows (s : State) : Except Fault (State × List Flow) := do
  let w ← s.winsize.read lookFlow [] s.winsize.cursor
  .ok ({ s with winsize := { s.winsize with cursor := w.cursor, visited := w.visited } }, w.found)

def getFlowDrops (ap : String) (s : State) : Except Fault (State × FlowDrops) := do
  let w ← s.dropped.read (lookDrop ap) ⟨[], 0⟩ s.dropped.cursor
  .ok ({ s with dropped := { s.dropped with cursor := w.cursor, visited := w.visited } }, w.found)

inductive Action where
  | decodeBeacon (x : DataBeaconProcessed)
  | decodeIw (x : DataIwProcessed)
  | decodeWinsize (x : Flow)
  | decodeDrops (x : DataDroppedProcessed)
  | getAps
  | getNeighbour (ap : String) (neibours : Aplist)
  | getClients (ap : String) (clients : Aplist)
  | getFlows
  | getFlowDrops (ap : String)

def exec (s : State) : Action → Except Fault State
  | .decodeBeacon x => .ok { s with beacon := s.beacon.push x }
  | .decodeIw x => .ok { s with iw := s.iw.push x }
  | .decodeWinsize x => .ok { s with winsize := s.winsize.push x }
  | .decodeDrops x => .ok { s with dropped := s.dropped.push x }
  | .getAps => (getAps s).map Prod.fst
  | .getNeighbour ap neibours => (getNeighbour ap neibours s).map Prod.fst
  | .getClients ap clients => (getClients ap clients s).map Prod.fst
  | .getFlows => (getFlows s).map Prod.fst
  | .getFlowDrops ap => (getFlowDrops ap s).map Prod.fst

/-- The rings before the first record; the records are allocated and zero. -/
def emptyRing {α : Type} (zero : α) : Ring α :=
  ⟨fun _ => ⟨0, zero⟩, 0, ⟨0, 0, 0⟩, ⟨0, 0, 0⟩, [], []⟩

def machine : Machine State Action Fault where
  start := ⟨emptyRing ⟨"", ""⟩, emptyRing ⟨"", ""⟩, emptyRing ⟨0, 0, 0, 0⟩,
    emptyRing ⟨"", ⟨0, 0, 0, 0⟩⟩⟩
  enabled _ _ := True
  exec := exec

section Property

variable {α : Type}

def Ring.InRange (r : Ring α) : Prop :=
  r.stop < bufferStore ∧ r.cursor.start < bufferStore ∧ r.cursor1.start < bufferStore

def InRange (s : State) : Prop :=
  s.beacon.InRange ∧ s.iw.InRange ∧ s.winsize.InRange ∧ s.dropped.InRange

/-- The last of the unread records in their order, all of them or at least 9999. -/
def Visits (r : Ring α) (c : Cursor) (visited : List (Entry α)) : Prop :=
  ∃ m, c.seen ≤ m ∧ min (r.log.length - c.seen) 9999 ≤ r.log.length - m ∧ visited = r.log.drop m

def Delivered (s t : State) : Action → Prop
  | .getAps => Visits s.beacon s.beacon.cursor t.beacon.visited
  | .getNeighbour .. => Visits s.beacon s.beacon.cursor1 t.beacon.visited
  | .getClients .. => Visits s.iw s.iw.cursor t.iw.visited
  | .getFlows => Visits s.winsize s.winsize.cursor t.winsize.visited
  | .getFlowDrops _ => Visits s.dropped s.dropped.cursor t.dropped.visited
  | _ => True

def Delivers (s : State) (a : Action) (result : Except Fault State) : Prop :=
  ∃ t, result = .ok t ∧ InRange t ∧ Delivered s t a

/-- All records shown but the newest are the AP's, with at most 20 values. -/
def AllOf (ap : String) (macAddr value : α → String) (shown : List (Entry α)) : Prop :=
  (∀ e ∈ shown.dropLast, macAddr e.record = ap) ∧
  ((shown.filter fun e => macAddr e.record = ap).map fun e => value e.record).toFinset.card ≤ 20

/-- What a getter's ring is like where it delivers. -/
def Deliverable (s : State) : Action → Prop
  | .getAps => s.beacon.cursor.start + s.beacon.cursor.amount < bufferStore ∧
    s.beacon.cursor.amount ≤ 20
  | .getNeighbour ap _ => Apart s.beacon.cursor1 s.beacon ∧
    AllOf ap DataBeaconProcessed.macAddr DataBeaconProcessed.bssid
      (s.beacon.window s.beacon.cursor1)
  | .getClients ap _ => Apart s.iw.cursor s.iw ∧
    AllOf ap DataIwProcessed.macAddr DataIwProcessed.station (s.iw.window s.iw.cursor)
  | .getFlows => Apart s.winsize.cursor s.winsize ∧
    ((s.winsize.window s.winsize.cursor).map Entry.record).toFinset.card ≤ 40
  | .getFlowDrops _ => Apart s.dropped.cursor s.dropped
  | _ => True

end Property

section Walk

variable {α σ : Type} {buffer : Nat → Entry α} {look : α → σ → Except Fault (Bool × σ)}

/-- `look` goes on behind all records but the last and runs through at that. -/
def Looks (look : α → σ → Except Fault (Bool × σ)) : σ → List (Entry α) → Prop
  | _, [] => True
  | found, [e] => ∃ b found', look e.record found = .ok (b, found')
  | found, e :: f :: rest =>
    ∃ found', look e.record found = .ok (true, found') ∧ Looks look found' (f :: rest)

theorem fetch_ok {j : Nat} (h : j < bufferStore) : fetch buffer j = .ok (buffer j) := if_pos h

/-- One turn moves the cursor on and looks at the record under `j`. -/
theorem turn_ok {w w' : Walk α σ} (hj : w.j < bufferStore) (h : w.turn buffer look = .ok w') :
    w'.cursor = { w.cursor with
      start := (w.cursor.start + 1) % bufferStore
      amount := w.cursor.amount - 1 } ∧ w'.visited = w.visited ++ [buffer w.j] ∧
    w'.j < bufferStore ∧ ∃ b found, look (buffer w.j).record w.found = .ok (b, found) ∧
      w'.found = found ∧ w'.j = if b then (w.j + 1) % bufferStore else w.j := by
  obtain ⟨e, he, h⟩ := bind_ok h
  obtain rfl := Except.ok.inj ((fetch_ok hj).symm.trans he)
  obtain ⟨⟨b, found⟩, hlook, h⟩ := bind_ok h
  obtain rfl := Except.ok.inj h
  refine ⟨rfl, rfl, ?_, b, found, hlook, rfl, rfl⟩
  simp only
  split
  · exact Nat.mod_lt _ buffer_store_pos
  · exact hj

theorem turn_of_look {w : Walk α σ} {b : Bool} {found : σ} (hj : w.j < bufferStore)
    (h : look (buffer w.j).record w.found = .ok (b, found)) :
    ∃ w', w.turn buffer look = .ok w' := by
  rw [Walk.turn, fetch_ok hj]
  simp only [bind, Except.bind, h]
  exact ⟨_, rfl⟩

/-- Every turn looks at one record, the first at the one under `j`. -/
theorem walk_visited {turns : Nat} {w w' : Walk α σ} (hj : w.j < bufferStore)
    (h : walk buffer look turns w = .ok w') : ∃ vs, w'.visited = w.visited ++ vs ∧
      vs.length = turns ∧ ∀ e ∈ vs.head?, e = buffer w.j := by
  induction turns generalizing w with
  | zero =>
    obtain rfl := Except.ok.inj h
    exact ⟨[], (List.append_nil _).symm, rfl, by simp⟩
  | succ turns ih =>
    obtain ⟨u, hturn, h⟩ := bind_ok h
    obtain ⟨-, hvisited, hu, -⟩ := turn_ok hj hturn
    obtain ⟨vs, hvs, hlength, -⟩ := ih hu h
    refine ⟨buffer w.j :: vs, ?_, congrArg Nat.succ hlength, by simp⟩
    rw [hvs, hvisited, List.append_assoc, List.singleton_append]

theorem walk_cursor {turns : Nat} {w w' : Walk α σ} (hj : w.j < bufferStore)
    (h : walk buffer look turns w = .ok w') (hstart : w.cursor.start < bufferStore) :
    w'.cursor = { w.cursor with
      start := (w.cursor.start + turns) % bufferStore
      amount := w.cursor.amount - turns } := by
  induction turns generalizing w with
  | zero =>
    obtain rfl := Except.ok.inj h
    rw [Nat.add_zero, Nat.mod_eq_of_lt hstart, Nat.sub_zero]
  | succ turns ih =>
    obtain ⟨u, hturn, h⟩ := bind_ok h
    obtain ⟨hcursor, -, hu, -⟩ := turn_ok hj hturn
    have hlt : u.cursor.start < bufferStore := by
      rw [hcursor]
      exact Nat.mod_lt _ buffer_store_pos
    rw [ih hu h hlt, hcursor]
    simp only [Nat.mod_add_mod, Nat.add_assoc, Nat.sub_sub, Nat.add_comm 1]

variable (look) in
/-- The records looked at are those from `j` on exactly if `look` goes on. -/
theorem walk_iff {w : Walk α σ} {es : List (Entry α)} (hj : w.j < bufferStore)
    (hes : ∀ k, ∀ h : k < es.length, buffer ((w.j + k) % bufferStore) = es[k])
    (hnumbers : (es.map Entry.number).Nodup) :
    (∃ w', walk buffer look es.length w = .ok w' ∧ w'.visited = w.visited ++ es) ↔
      Looks look w.found es := by
  induction es generalizing w with
  | nil => exact iff_of_true ⟨w, rfl, (List.append_nil _).symm⟩ trivial
  | cons e es ih =>
    have hfirst : buffer w.j = e := by
      have := hes 0 (Nat.succ_pos _)
      rwa [Nat.add_zero, Nat.mod_eq_of_lt hj] at this
    cases es with
    | nil =>
      constructor
      · rintro ⟨w', h, -⟩
        obtain ⟨u, hturn, -⟩ := bind_ok h
        obtain ⟨-, -, -, b, found, hlook, -⟩ := turn_ok hj hturn
        exact ⟨b, found, hfirst ▸ hlook⟩
      · rintro ⟨b, found, hlook⟩
        obtain ⟨u, hturn⟩ := turn_of_look hj (hfirst.symm ▸ hlook)
        obtain ⟨-, hvisited, -⟩ := turn_ok hj hturn
        refine ⟨u, ?_, by rw [hvisited, hfirst]⟩
        rw [List.length_singleton, walk, hturn]
        rfl
    | cons f rest =>
      have hnext : ∀ u : Walk α σ, u.j = (w.j + 1) % bufferStore →
          ∀ k, ∀ h : k < (f :: rest).length,
            buffer ((u.j + k) % bufferStore) = (f :: rest)[k] := by
        intro u hu k hk
        have := hes (k + 1) (Nat.succ_lt_succ hk)
        rwa [hu, Nat.mod_add_mod, Nat.add_assoc, Nat.add_comm 1]
      have hnodup := (List.nodup_cons.mp hnumbers).2
      constructor
      · rintro ⟨w', h, hall⟩
        obtain ⟨u, hturn, h⟩ := bind_ok h
        obtain ⟨-, hvisited, hu, b, found, hlook, hfound, hgo⟩ := turn_ok hj hturn
        rw [hfirst] at hvisited hlook
        have hrest : w'.visited = u.visited ++ f :: rest := by
          rw [hall, hvisited, List.append_assoc]
          rfl
        cases b with
        | true =>
          rw [if_pos rfl] at hgo
          exact ⟨found, hlook, hfound ▸ (ih hu (hnext u hgo) hnodup).mp ⟨w', h, hrest⟩⟩
        | false =>
          -- the same record would be looked at twice
          rw [if_neg Bool.false_ne_true] at hgo
          obtain ⟨vs, hvs, -, hhead⟩ := walk_visited hu h
          rw [hrest] at hvs
          have hsame := hhead f (by rw [← List.append_cancel_left hvs]; rfl)
          rw [hgo, hfirst] at hsame
          exact absurd (by rw [hsame]; exact List.mem_cons_self ..) (List.nodup_cons.mp hnumbers).1
      · rintro ⟨found, hlook, hlooks⟩
        obtain ⟨u, hturn⟩ := turn_of_look hj (hfirst.symm ▸ hlook)
        obtain ⟨-, hvisited, hu, b, found', hlook', hfound, hgo⟩ := turn_ok hj hturn
        rw [hfirst] at hvisited hlook'
        obtain ⟨rfl, rfl⟩ := Prod.mk.inj (Except.ok.inj (hlook.symm.trans hlook'))
        rw [if_pos rfl] at hgo
        obtain ⟨w', h, hall⟩ := (ih hu (hnext u hgo) hnodup).mpr (hfound.symm ▸ hlooks)
        refine ⟨w', ?_, ?_⟩
        · rw [List.length_cons, walk, hturn]
          exact h
        · rw [hall, hvisited, List.append_assoc]
          rfl

end Walk

section Read

variable {α σ : Type} {r : Ring α} {c : Cursor} {stale : Nat}
  {look : α → σ → Except Fault (Bool × σ)} {init : σ}

theorem Cursor.Kept.start_lt {stop count : Nat} (h : c.Kept stop count stale) :
    c.start < bufferStore := by
  rw [h.start]
  split <;> exact Nat.mod_lt _ buffer_store_pos

theorem read_ok {w : Walk α σ} (h : r.read look init c = .ok w) :
    ∃ u, walk r.buffer look (distance c.start r.stop) ⟨c, c.start, init, []⟩ = .ok u ∧
      w.visited = u.visited ∧ w.found = u.found ∧
      w.cursor = { u.cursor with seen := r.log.length } := by
  obtain ⟨u, hu, h⟩ := bind_ok h
  obtain rfl := Except.ok.inj h
  exact ⟨u, hu, rfl, rfl, rfl⟩

theorem window_length : (r.window c).length = distance c.start r.stop := by simp [Ring.window]

/-- A getter delivers exactly if its cursor is apart and it goes on. -/
theorem read_iff (hr : r.Kept) (hc : c.Kept r.stop r.log.length stale) :
    (∃ w, r.read look init c = .ok w ∧ Visits r c w.visited) ↔
      Apart c r ∧ Looks look init (r.window c) := by
  by_cases hapart : Apart c r
  · rw [and_iff_right hapart]
    obtain ⟨m, hseen, hmany, hcursors, hroom, -⟩ := hc.shows hr hapart
    have hwindow := window_eq hr hcursors hroom
    have hes : ∀ k, ∀ h : k < (r.window c).length,
        r.buffer ((c.start + k) % bufferStore) = (r.window c)[k] := by
      intro k hk
      simp only [Ring.window, List.getElem_map, List.getElem_range]
    have hnumbers : ((r.window c).map Entry.number).Nodup := by
      rw [hwindow, List.map_drop, hr.numbered]
      exact List.nodup_range.sublist (List.drop_sublist ..)
    have hwalk := walk_iff look (w := ⟨c, c.start, init, []⟩) hc.start_lt hes hnumbers
    rw [window_length] at hwalk
    rw [← hwalk]
    constructor
    · rintro ⟨w, h, m', hseen', hmany', hvisited⟩
      obtain ⟨u, hu, hvis, -⟩ := read_ok h
      obtain ⟨vs, hvs, hlength, -⟩ := walk_visited hc.start_lt hu
      refine ⟨u, hu, ?_⟩
      -- as many of the last records are the same records
      have hlength' : r.log.length - m' = r.log.length - m := by
        have := congrArg List.length (hvis.symm.trans hvisited)
        rw [hvs, List.nil_append, hlength, ← window_length, hwindow, List.length_drop,
          List.length_drop] at this
        exact this.symm
      rw [← hvis, hvisited, List.nil_append, hwindow]
      rcases Nat.lt_or_ge m r.log.length with hlt | hge
      · rw [show m' = m by omega]
      · rw [List.drop_eq_nil_of_le hge, List.drop_eq_nil_of_le (by omega)]
    · rintro ⟨u, hu, hvisited⟩
      refine ⟨{ u with cursor := { u.cursor with seen := r.log.length } }, ?_, m, hseen, hmany,
        hvisited.trans hwindow⟩
      rw [Ring.read, hu]
      rfl
  · refine iff_of_false ?_ fun h => hapart h.1
    rintro ⟨w, h, m, -, hmany, hvisited⟩
    obtain ⟨hzero, hunread⟩ := hc.hidden hr (not_not.mp hapart)
    obtain ⟨u, hu, hvis, -⟩ := read_ok h
    obtain ⟨vs, hvs, hlength, -⟩ := walk_visited hc.start_lt hu
    have hnone := congrArg List.length (hvis.symm.trans hvisited)
    rw [hvs, List.nil_append, hlength, hzero, List.length_drop] at hnone
    have hstore : bufferStore = 10000 := rfl
    omega

/-- What a getter leaves behind. -/
theorem read_kept {w : Walk α σ} (hr : r.Kept) (hc : c.Kept r.stop r.log.length stale)
    (hapart : Apart c r) (h : r.read look init c = .ok w) :
    ∃ stale', w.cursor.Kept r.stop r.log.length stale' := by
  obtain ⟨m, hseen, hmany, hcursors, hroom, hall, hlast⟩ := hc.shows hr hapart
  obtain ⟨u, hu, -, -, hcursor⟩ := read_ok h
  have hlength : distance c.start r.stop = r.log.length - m := by
    rw [← window_length, window_eq hr hcursors hroom, List.length_drop]
  have hu := walk_cursor hc.start_lt hu hc.start_lt
  have hle := hcursors.le
  have hstart : w.cursor.start = r.log.length % bufferStore := by
    rw [hcursor, hu]
    simp only
    rw [hlength, hcursors.first, Nat.mod_add_mod, Nat.add_sub_cancel' hle]
  have hamount : w.cursor.amount = c.amount - (r.log.length - m) := by
    rw [hcursor, hu]
    simp only
    rw [hlength]
  have hseen' : w.cursor.seen = r.log.length := by rw [hcursor]
  have hstore : bufferStore = 10000 := rfl
  have hstale := hc.stale_le
  have hbefore := hc.amount
  by_cases hfit : stale + (r.log.length - c.seen) ≤ bufferStore
  · have hm := hall hfit
    refine ⟨stale, hstale, by omega, by omega, ?_⟩
    rw [if_pos (by omega), hseen', hstart]
  · have hm := hlast (by omega)
    refine ⟨1, Nat.le_refl 1, by omega, by omega, ?_⟩
    rw [if_pos (by omega), hseen', hstart]

end Read

end ApTelemetry.NewReceiver.Api
