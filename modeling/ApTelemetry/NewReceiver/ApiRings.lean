import ApTelemetry.Lib.Buffer
import ApTelemetry.Lib.Machine
import ApTelemetry.Lib.Ring

namespace ApTelemetry.NewReceiver.Api
open Lib

def bufferStore : Nat := 10000

/-- A record with its place in the order of arrival, which nothing reads. -/
structure Entry (α : Type) where
  number : Nat
  record : α

/-- Where one getter is in a ring, as `bbstart` and `bbamount` are for `get_aps`.
Nothing reads `seen`, the number of records that had come when it was called last. -/
structure Cursor where
  start : Nat
  amount : Nat
  seen : Nat

/-- A ring with the cursors of two getters. All that came so far and what the last
getter looked at are histories. -/
structure Ring (α : Type) where
  buffer : Nat → Entry α
  stop : Nat
  cursor : Cursor
  cursor1 : Cursor
  log : List (Entry α)
  visited : List (Entry α)

section Push

variable {α : Type}

/-- The same is done for every cursor; `stop` is the index behind the new record. -/
def Cursor.push (stop : Nat) (c : Cursor) : Cursor :=
  if bufferStore < c.amount + 1 then
    { c with start := (stop + 1) % bufferStore, amount := bufferStore }
  else { c with amount := c.amount + 1 }

def Ring.push (x : α) (r : Ring α) : Ring α :=
  let stop := (r.stop + 1) % bufferStore
  { r with
    buffer := Function.update r.buffer r.stop ⟨r.log.length, x⟩
    stop
    cursor := r.cursor.push stop
    cursor1 := r.cursor1.push stop
    log := r.log ++ [⟨r.log.length, x⟩] }

end Push

section Read

variable {α σ : Type}

def fetch (buffer : Nat → Entry α) (j : Nat) : Except Fault (Entry α) :=
  if j < bufferStore then .ok (buffer j) else .error .outside

/-- The local variables of a getter. -/
structure Walk (α σ : Type) where
  cursor : Cursor
  j : Nat
  found : σ
  visited : List (Entry α)

/-- One turn of the loop. `look` is what a getter does with a record, and whether
it goes on to the next one. -/
def Walk.turn (buffer : Nat → Entry α) (look : α → σ → Except Fault (Bool × σ)) (w : Walk α σ) :
    Except Fault (Walk α σ) := do
  let e ← fetch buffer w.j
  let (goesOn, found) ← look e.record w.found
  .ok { cursor :=
          { w.cursor with
            start := (w.cursor.start + 1) % bufferStore
            amount := w.cursor.amount - 1 }
        j := if goesOn then (w.j + 1) % bufferStore else w.j
        found
        visited := w.visited ++ [e] }

def walk (buffer : Nat → Entry α) (look : α → σ → Except Fault (Bool × σ)) :
    Nat → Walk α σ → Except Fault (Walk α σ)
  | 0, w => .ok w
  | turns + 1, w => do
    let w ← w.turn buffer look
    walk buffer look turns w

/-- `length` of the getters, from the indices alone. -/
def distance (begin stop : Nat) : Nat :=
  if begin ≤ stop then stop - begin else stop + bufferStore - begin

def Ring.read (look : α → σ → Except Fault (Bool × σ)) (init : σ) (c : Cursor) (r : Ring α) :
    Except Fault (Walk α σ) := do
  let w ← walk r.buffer look (distance c.start r.stop) ⟨c, c.start, init, []⟩
  .ok { w with cursor := { w.cursor with seen := r.log.length } }

/-- What stands in the ring from one index to the other. -/
def Ring.window (c : Cursor) (r : Ring α) : List (Entry α) :=
  (List.range (distance c.start r.stop)).map fun k => r.buffer ((c.start + k) % bufferStore)

end Read

section Kept

variable {α : Type} {r : Ring α} {c : Cursor}

/-- What a cursor shows of the records that came since it was read last: `stale` is
what the last read left in `amount`. -/
structure Cursor.Kept (c : Cursor) (stop count stale : Nat) : Prop where
  stale_le : stale ≤ 1
  seen_le : c.seen ≤ count
  amount : c.amount = min bufferStore (stale + (count - c.seen))
  start : c.start =
    if stale + (count - c.seen) ≤ bufferStore then c.seen % bufferStore
    else (stop + 1) % bufferStore

/-- The ring holds the last 10000 records at their places. -/
structure Ring.Kept (r : Ring α) : Prop where
  stop : r.stop = r.log.length % bufferStore
  stored : Stored bufferStore r.buffer r.log (r.log.length - bufferStore)
  numbered : r.log.map Entry.number = List.range r.log.length

theorem buffer_store_pos : 0 < bufferStore := Nat.zero_lt_succ 9999

theorem Ring.Kept.stop_lt (h : r.Kept) : r.stop < bufferStore :=
  h.stop ▸ Nat.mod_lt _ buffer_store_pos

theorem Ring.Kept.push (h : r.Kept) (x : α) : (r.push x).Kept := by
  have hlength : (r.log ++ [(⟨r.log.length, x⟩ : Entry α)]).length = r.log.length + 1 := by simp
  refine ⟨?_, ?_, ?_⟩
  · simp only [Ring.push, hlength, h.stop, Nat.mod_add_mod]
  · simp only [Ring.push, hlength]
    refine (h.stored.mono (by omega)).put _ (by have := buffer_store_pos; omega) ?_ ?_
    · rw [← h.stop, Function.update_self]
    · intro i _ hne
      rw [← h.stop] at hne
      exact Function.update_of_ne hne _ _
  · simp only [Ring.push, hlength, List.map_append, h.numbered, List.range_succ]
    rfl

theorem Cursor.Kept.push {stop count stale : Nat} (h : c.Kept stop count stale) (stop' : Nat) :
    (c.push stop').Kept stop' (count + 1) stale := by
  obtain ⟨hstale, hseen, hamount, hstart⟩ := h
  rw [Cursor.push]
  split
  · rename_i hfull
    refine ⟨hstale, Nat.le_succ_of_le hseen, ?_, ?_⟩
    · simp only
      omega
    · simp only
      rw [if_neg (by omega)]
  · rename_i hroom
    refine ⟨hstale, Nat.le_succ_of_le hseen, ?_, ?_⟩
    · simp only
      omega
    · simp only
      rw [hstart, if_pos (by omega), if_pos (by omega)]

/-- The start and the amount do not look alike for an empty and a full ring. -/
def Apart (c : Cursor) (r : Ring α) : Prop := ¬ (c.start = r.stop ∧ c.amount = bufferStore)

theorem distance_eq {begin stop : Nat} (hbegin : begin < bufferStore) (hstop : stop < bufferStore) :
    distance begin stop = (stop + bufferStore - begin) % bufferStore := by
  rw [distance]
  split
  · rw [show stop + bufferStore - begin = stop - begin + bufferStore by omega, Nat.add_mod_right,
      Nat.mod_eq_of_lt (by omega)]
  · rw [Nat.mod_eq_of_lt (by omega)]

/-- Where the cursor is apart it shows the last records, all that are unread or
9999 of them. -/
theorem Cursor.Kept.shows {stale : Nat} (hr : r.Kept) (h : c.Kept r.stop r.log.length stale)
    (hapart : Apart c r) : ∃ m, c.seen ≤ m ∧
      min (r.log.length - c.seen) 9999 ≤ r.log.length - m ∧
      Cursors bufferStore m r.log.length c.start r.stop ∧ r.log.length < m + bufferStore ∧
      (stale + (r.log.length - c.seen) ≤ bufferStore → m = c.seen) ∧
      (bufferStore < stale + (r.log.length - c.seen) →
        m = r.log.length + 1 - bufferStore) := by
  obtain ⟨hstale, hseen, hamount, hstart⟩ := h
  have hstore : bufferStore = 10000 := rfl
  by_cases hfit : stale + (r.log.length - c.seen) ≤ bufferStore
  · rw [if_pos hfit] at hstart
    have hroom : r.log.length < c.seen + bufferStore := by
      by_contra hfull
      -- nothing is stale and the ring has come around once
      have hlength : r.log.length = c.seen + bufferStore := by omega
      refine hapart ⟨?_, by omega⟩
      rw [hstart, hr.stop, hlength, Nat.add_mod_right]
    exact ⟨c.seen, Nat.le_refl _, by omega, ⟨buffer_store_pos, hstart, hr.stop, hseen⟩, hroom,
      fun _ => rfl, fun h => absurd hfit (Nat.not_le.mpr h)⟩
  · rw [if_neg hfit] at hstart
    refine ⟨r.log.length + 1 - bufferStore, by omega, by omega,
      ⟨buffer_store_pos, ?_, hr.stop, by omega⟩, by omega, fun h => absurd h hfit, fun _ => rfl⟩
    rw [hstart, hr.stop, Nat.mod_add_mod,
      show r.log.length + 1 = r.log.length + 1 - bufferStore + bufferStore by omega,
      Nat.add_mod_right, Nat.add_sub_cancel]

/-- Its window is those records. -/
theorem window_eq {m : Nat} (hr : r.Kept) (hc : Cursors bufferStore m r.log.length c.start r.stop)
    (hroom : r.log.length < m + bufferStore) : r.window c = r.log.drop m := by
  have hwindow := (hr.stored.mono (show r.log.length - bufferStore ≤ m by omega)).window hc hroom
  rw [← distance_eq hc.first_lt hc.next_lt] at hwindow
  exact hwindow

/-- Where it is not, 10000 records are unread and none is shown. -/
theorem Cursor.Kept.hidden {stale : Nat} (hr : r.Kept) (h : c.Kept r.stop r.log.length stale)
    (hfull : c.start = r.stop ∧ c.amount = bufferStore) :
    distance c.start r.stop = 0 ∧ bufferStore ≤ r.log.length - c.seen := by
  obtain ⟨hstale, hseen, hamount, hstart⟩ := h
  have hstore : bufferStore = 10000 := rfl
  refine ⟨by rw [distance, if_pos (Nat.le_of_eq hfull.1), hfull.1, Nat.sub_self], ?_⟩
  by_contra hroom
  have hlength : r.log.length = c.seen + 9999 := by omega
  rw [if_pos (by omega), hfull.1, hr.stop, hlength, hstore] at hstart
  omega

end Kept

end ApTelemetry.NewReceiver.Api
