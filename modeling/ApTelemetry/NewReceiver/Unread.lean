import ApTelemetry.Lib.Firsts
import ApTelemetry.NewReceiver.Delivery

namespace ApTelemetry.NewReceiver.Api
open Lib

section Span

variable {α : Type}

/-- The records of a ring from an index on. -/
def span (buffer : Nat → Entry α) (j n : Nat) : List (Entry α) :=
  (List.range n).map fun k => buffer ((j + k) % bufferStore)

/-- The records from `start` to `stop`. An empty and a full ring have the same
indices and differ in the amount. -/
def Ring.unread (c : Cursor) (r : Ring α) : List (Entry α) :=
  span r.buffer c.start
    (if c.start = r.stop ∧ c.amount = bufferStore then bufferStore else distance c.start r.stop)

/-- The records that the amount counts, from `start` on. -/
def Ring.counted (c : Cursor) (r : Ring α) : List (Entry α) := span r.buffer c.start c.amount

theorem span_succ (buffer : Nat → Entry α) (j n : Nat) :
    span buffer j (n + 1) = buffer (j % bufferStore) :: span buffer (j + 1) n := by
  rw [span, List.range_succ_eq_map, List.map_cons, Nat.add_zero, List.map_map]
  congr 1
  refine List.map_congr_left fun k _ => ?_
  rw [Function.comp_apply, Nat.succ_eq_add_one, Nat.add_assoc, Nat.add_comm 1]

theorem span_mod (buffer : Nat → Entry α) (j n : Nat) :
    span buffer (j % bufferStore) n = span buffer j n := by
  simp only [span, Nat.mod_add_mod]

variable {r : Ring α} {c : Cursor}

theorem unread_apart (h : Apart c r) : r.unread c = r.window c := by
  rw [Ring.unread, if_neg h]
  rfl

theorem window_hidden (h : ¬ Apart c r) : r.window c = [] := by
  have hsame := (not_not.mp h).1
  rw [Ring.window, distance, if_pos (Nat.le_of_eq hsame), hsame, Nat.sub_self]
  rfl

/-- What is read without a gap is the end of all that came. -/
theorem span_log (hr : r.Kept) {m : Nat} (hm : r.log.length ≤ m + bufferStore)
    (hle : m ≤ r.log.length) :
    span r.buffer (m % bufferStore) (r.log.length - m) = r.log.drop m := by
  have hstored := hr.stored.mono (show r.log.length - bufferStore ≤ m by omega)
  apply List.ext_getElem
  · simp [span]
  · intro k hk _
    have hk' : k < r.log.length - m := by simpa [span] using hk
    simp only [span, List.getElem_map, List.getElem_range, List.getElem_drop, Nat.mod_add_mod]
    exact hstored (m + k) (by omega) (by omega)

/-- As long as the ring has not come around, both are the records that came since
the cursor was read last. -/
theorem unread_log (hr : r.Kept) (hc : c.Kept r.stop r.log.length 0)
    (hroom : r.log.length - c.seen ≤ bufferStore) :
    r.unread c = r.log.drop c.seen ∧ r.counted c = r.log.drop c.seen := by
  have hseen := hc.seen_le
  have hstart := hc.start
  rw [Nat.zero_add, if_pos hroom] at hstart
  have hamount := hc.amount
  rw [Nat.zero_add, Nat.min_eq_right hroom] at hamount
  have hspan := span_log hr (m := c.seen) (by omega) hseen
  have hcount : (if c.start = r.stop ∧ c.amount = bufferStore then bufferStore
      else distance c.start r.stop) = r.log.length - c.seen := by
    split
    · rename_i hfull
      rw [← hamount, hfull.2]
    · rename_i hapart
      obtain ⟨m, -, -, hcursors, hlt, hall, -⟩ := hc.shows hr hapart
      obtain rfl := hall (by omega)
      rw [distance_eq hcursors.first_lt hcursors.next_lt, hcursors.distance hlt]
  rw [Ring.unread, Ring.counted, hcount, hamount, hstart]
  exact ⟨hspan, hspan⟩

end Span

section Aps

/-- The address of a record. -/
def beaconMac (e : Entry DataBeaconProcessed) : String := e.record.macAddr

variable {buffer : Nat → Entry DataBeaconProcessed} {bbamount bbstart : Nat}
  {aplists : List String} {visited : List (Entry DataBeaconProcessed)}

/-- Every record read is listed. -/
theorem aps_loop_listed {t : Nat × List String × List (Entry DataBeaconProcessed)}
    (h : apsLoop buffer bbamount bbstart aplists visited = .ok t) :
    t.2.1 = aplists ++ (span buffer bbstart bbamount).map beaconMac := by
  induction bbamount generalizing bbstart aplists visited with
  | zero =>
    obtain rfl := Except.ok.inj h
    exact (List.append_nil _).symm
  | succ bbamount ih =>
    rw [apsLoop] at h
    obtain ⟨e, he, h⟩ := bind_ok h
    have hstart : bbstart < bufferStore := by
      by_contra hout
      rw [fetch, if_neg hout] at he
      cases he
    obtain rfl := Except.ok.inj ((fetch_ok hstart).symm.trans he)
    split at h
    · rw [ih h, span_succ, Nat.mod_eq_of_lt hstart, List.map_cons, List.append_assoc]
      rfl
    · cases h

/-- `get_aps` lists the different access points of the unread records in the order
of their first occurrences, returns their number and leaves the ring empty. -/
def ListsOnce (s : State) : Prop :=
  ∃ t aplists, getAps s = .ok (t, aplists) ∧
    aplists = ((s.beacon.counted s.beacon.cursor).map beaconMac).eraseDups ∧
    t.beacon.cursor.amount = 0 ∧ t.beacon.cursor.start < bufferStore

/-- It does so exactly if there are at most 20 unread records, none of them at the
end of the array, and no two of one access point. -/
theorem lists_once_iff (s : State) : ListsOnce s ↔
    s.beacon.cursor.amount ≤ 20 ∧
    s.beacon.cursor.start + s.beacon.cursor.amount < bufferStore ∧
    ((s.beacon.counted s.beacon.cursor).map beaconMac).Nodup := by
  constructor
  · rintro ⟨t, aplists, haps, hlist, -, hstart⟩
    obtain ⟨⟨start, found, visited⟩, hloop, haps⟩ := bind_ok haps
    obtain ⟨rfl, rfl⟩ := Prod.mk.inj (Except.ok.inj haps)
    obtain ⟨hend, hle⟩ := aps_loop_bound hloop (Nat.zero_le 20)
    have hfound : found = (s.beacon.counted s.beacon.cursor).map beaconMac :=
      aps_loop_listed hloop
    rw [List.length_nil, Nat.zero_add] at hle
    refine ⟨hle, hend ▸ hstart, ?_⟩
    rw [← eraseDups_eq_self, ← hlist, hfound]
  · rintro ⟨hfew, hend, hdistinct⟩
    obtain ⟨found, hrun⟩ := aps_loop_runs s.beacon.buffer [] [] hend
      (by rw [List.length_nil]; omega)
    have hfound : found = (s.beacon.counted s.beacon.cursor).map beaconMac := aps_loop_listed hrun
    refine ⟨{ s with beacon := { s.beacon with
        cursor := ⟨s.beacon.cursor.start + s.beacon.cursor.amount, 0, s.beacon.log.length⟩
        visited := [] ++ (List.range s.beacon.cursor.amount).map fun k =>
          s.beacon.buffer (s.beacon.cursor.start + k) } },
      found, by simp only [getAps, hrun, bind, Except.bind], ?_, rfl, hend⟩
    rw [eraseDups_eq_self.mpr hdistinct, hfound]

/-- Two beacons that one access point received are two access points. -/
theorem listed_twice : ¬ ∀ s, ListsOnce s := by
  intro h
  have hgood := h { machine.start with
    beacon := ((emptyRing ⟨"", ""⟩).push ⟨"ap", "one"⟩).push ⟨"ap", "two"⟩ }
  obtain ⟨-, -, hdistinct⟩ := (lists_once_iff _).mp hgood
  exact absurd hdistinct (by decide)

end Aps

end ApTelemetry.NewReceiver.Api
