import ApTelemetry.Lib.Ring
import ApTelemetry.Receiver.Flows
import Mathlib.Data.List.Perm.Basic

namespace ApTelemetry.Receiver.EventTimes
open Lib Flows

/-- An array of times with both of its indices. The rest is the history of the
ring, which nothing reads: the number of the push that wrote each place, and what
became of the pushes. `lost` are those of a ring that was run over. -/
structure EventRing where
  times : Times
  tail : Fin thundred
  numbers : Fin thundred → Nat
  pushed : Nat
  taken : List Nat
  passed : List Nat
  lost : List Nat

namespace EventRing

/-- `(head - tail) mod 100000`. -/
def unreadCount (r : EventRing) : Nat := (r.times.head.val + thundred - r.tail.val) % thundred

def slot (r : EventRing) (i : Nat) : Nat := r.numbers (Fin.ofNat thundred i)

/-- The pushes between the two indices. -/
def unread (r : EventRing) : List Nat :=
  (List.range r.unreadCount).map fun k => r.slot ((r.tail.val + k) % thundred)

def push (time : Time) (r : EventRing) : EventRing where
  times := r.times.push time
  tail := r.tail
  numbers := Function.update r.numbers r.times.head r.pushed
  pushed := r.pushed + 1
  taken := r.taken
  passed := r.passed
  lost := if r.times.head + 1 = r.tail then r.lost ++ (r.unread ++ [r.pushed]) else r.lost

def first (r : EventRing) : Time := r.times.times r.tail

def take (r : EventRing) : EventRing :=
  { r with tail := r.tail + 1, taken := r.taken ++ [r.numbers r.tail] }

def pass (r : EventRing) : EventRing :=
  { r with tail := r.tail + 1, passed := r.passed ++ [r.numbers r.tail] }

/-- The number of unread entries as all places of the code have it. The value of
the second comparison is taken for the number. -/
def amount (r : EventRing) : Nat :=
  if r.tail < r.times.head then r.times.head.val - r.tail.val
  else if r.tail.val + thundred < r.times.head.val then 1 else 0

/-- Every push is taken, passed, lost or unread, and that once. -/
def Accounted (r : EventRing) : Prop :=
  (r.taken ++ r.passed ++ r.lost ++ r.unread).Perm (List.range r.pushed)

end EventRing

/-- The sections of `format_data` that look at a ring. -/
inductive Place where
  | retrans
  | count
  | loop
  | statistic
  deriving DecidableEq

structure State where
  retrans : EventRing
  winsize : EventRing
  place : Place
  timeTp : Time
  drop : Bool
  amount : Nat

inductive Action where
  | pushRetrans (time : Time)
  | pushWinsize (time : Time)
  | readRetrans (queueSec surveySec : U32)
  | count
  | takeWinsize (queueSec surveySec : U32)
  | catchUp (tmp : Option Time)

/-- Both computed lists are later than the event. -/
def Due (queueSec surveySec : U32) (time : Time) : Prop :=
  time.sec < queueSec ∧ time.sec < surveySec

instance (queueSec surveySec : U32) (time : Time) : Decidable (Due queueSec surveySec time) :=
  inferInstanceAs (Decidable (_ ∧ _))

/-- The retransmission a turn starts with. Without one the windows are looked at. -/
def readRetrans (queueSec surveySec : U32) (s : State) : State :=
  if s.retrans.tail < s.retrans.times.head ∧ Due queueSec surveySec s.retrans.first then
    { s with
      retrans := s.retrans.take
      timeTp := s.retrans.first
      drop := true
      place := if s.retrans.first.sec = 0 then .count else .retrans }
  else { s with timeTp := ⟨0, 0⟩, drop := false, place := .count }

def count (s : State) : State := { s with amount := s.winsize.amount, place := .loop }

/-- One turn of the loop over the windows. -/
def takeWinsize (queueSec surveySec : U32) (s : State) : State :=
  if s.amount = 0 then { s with place := .retrans }
  else if Due queueSec surveySec s.winsize.first then
    { s with
      winsize := s.winsize.take
      timeTp := s.winsize.first
      amount := s.amount - 1
      place := if s.winsize.first.sec = 0 then .loop else .statistic }
  else { s with timeTp := s.winsize.first, place := .retrans }

/-- `duration < 0`, in `int` arithmetic. -/
def Behind (tmp tmp1 : Time) : Prop :=
  (tmp1.sec - tmp.sec + (tmp1.usec - tmp.usec) * 1000000).slt 0 = true

instance (tmp tmp1 : Time) : Decidable (Behind tmp tmp1) := inferInstanceAs (Decidable (_ = _))

/-- The windows before the time that is reported are passed over. -/
def passOld (tmp : Time) : Nat → EventRing → Nat → Except Fault (EventRing × Nat)
  | 0, _, _ => .error .endless
  | turns + 1, r, amount =>
    if Behind tmp r.first ∧ 0 < amount then passOld tmp turns r.pass r.pass.amount
    else .ok (r, amount)

/-- The statistics of a window. Without a state after it nothing is reported. -/
def catchUp (tmp : Option Time) (s : State) : Except Fault State :=
  match tmp with
  | none => .ok { s with place := .loop }
  | some tmp => do
    let (winsize, amount) ← passOld tmp (thundred + 1) s.winsize s.amount
    .ok { s with winsize, amount, place := .loop }

def enabled (s : State) : Action → Prop
  | .pushRetrans _ | .pushWinsize _ => True
  | .readRetrans .. => s.place = .retrans
  | .count => s.place = .count
  | .takeWinsize .. => s.place = .loop
  | .catchUp _ => s.place = .statistic

def exec (s : State) : Action → Except Fault State
  | .pushRetrans time => .ok { s with retrans := s.retrans.push time }
  | .pushWinsize time => .ok { s with winsize := s.winsize.push time }
  | .readRetrans queueSec surveySec => .ok (readRetrans queueSec surveySec s)
  | .count => .ok (count s)
  | .takeWinsize queueSec surveySec => .ok (takeWinsize queueSec surveySec s)
  | .catchUp tmp => catchUp tmp s

def emptyRing : EventRing := ⟨⟨fun _ => ⟨0, 0⟩, 0⟩, 0, fun _ => 0, 0, [], [], []⟩

def machine : Machine State Action Fault :=
  ⟨⟨emptyRing, emptyRing, .retrans, ⟨0, 0⟩, false, 0⟩, enabled, exec⟩

/-- The first unread retransmission is taken if it is due, and where unread windows
are counted the number is right. -/
def Right (s t : State) : Action → Prop
  | .readRetrans queueSec surveySec => ∀ n ∈ s.retrans.unread.head?,
    Due queueSec surveySec s.retrans.first → t.retrans.taken = s.retrans.taken ++ [n]
  | .count => t.amount = t.winsize.unreadCount
  | .catchUp _ => t.winsize.passed ≠ s.winsize.passed → t.amount = t.winsize.unreadCount
  | _ => True

def LeavesRight (s : State) (a : Action) (result : Except Fault State) : Prop :=
  ∃ t, result = .ok t ∧ t.retrans.Accounted ∧ t.winsize.Accounted ∧ Right s t a

/-- The ring is read where its indices have not wrapped apart. -/
def InStep (s : State) : Action → Prop
  | .readRetrans queueSec surveySec =>
    Due queueSec surveySec s.retrans.first → s.retrans.tail ≤ s.retrans.times.head
  | .count => s.winsize.tail ≤ s.winsize.times.head
  | .takeWinsize queueSec surveySec => 0 < s.amount → Due queueSec surveySec s.winsize.first →
    s.winsize.tail ≠ s.winsize.times.head
  | .catchUp tmp => ∀ time ∈ tmp, Behind time s.winsize.first → 0 < s.amount →
    s.winsize.tail ≠ s.winsize.times.head ∧ s.winsize.tail + 1 ≤ s.winsize.times.head
  | _ => True

/-- The two indices are those of the pushes from `lo` on, all others are gone. -/
structure Ahead (r : EventRing) (lo : Nat) : Prop where
  cursors : Cursors thundred lo r.pushed r.tail.val r.times.head.val
  room : r.pushed < lo + thundred
  stored : Stored thundred r.slot (List.range r.pushed) lo
  gone : (r.taken ++ r.passed ++ r.lost).Perm (List.range lo)

def Kept (s : State) : Prop := (∃ lo, Ahead s.retrans lo) ∧ ∃ lo, Ahead s.winsize lo

theorem thundred_pos : 0 < thundred := Nat.zero_lt_succ 99999

theorem succ_val (i : Fin thundred) : (i + 1).val = (i.val + 1) % thundred := by
  rw [Fin.val_add]
  exact Nat.add_mod_mod ..

namespace Ahead

variable {r : EventRing} {lo : Nat}

theorem slot_val (r : EventRing) (i : Fin thundred) : r.slot i.val = r.numbers i :=
  congrArg r.numbers (Fin.ofNat_val_eq_self i)

/-- Between the indices stand the pushes that are not gone, in their order. -/
theorem unread_eq (h : Ahead r lo) : r.unread = (List.range r.pushed).drop lo := by
  have hlength : (List.range r.pushed).length = r.pushed := List.length_range
  refine h.stored.window ?_ ?_
  · rw [hlength]
    exact h.cursors
  · rw [hlength]
    exact h.room

theorem meets_iff (h : Ahead r lo) : r.tail = r.times.head ↔ lo = r.pushed := by
  rw [Fin.ext_iff, h.cursors.first, h.cursors.next]
  constructor
  · intro heq
    have hdvd : thundred ∣ r.pushed - lo := (Nat.modEq_iff_dvd' h.cursors.le).mp heq
    have hle := h.cursors.le
    by_contra hne
    have := Nat.le_of_dvd (by omega) hdvd
    have hroom := h.room
    omega
  · rintro rfl
    rfl

theorem accounted (h : Ahead r lo) : r.Accounted := by
  rw [EventRing.Accounted, h.unread_eq]
  have hrange : (List.range r.pushed).take lo = List.range lo := by
    rw [List.take_range, Nat.min_eq_left h.cursors.le]
  have hparts := List.take_append_drop lo (List.range r.pushed)
  rw [hrange] at hparts
  have hperm := h.gone.append_right ((List.range r.pushed).drop lo)
  rwa [hparts] at hperm

/-- The place under the tail was written by the oldest push that is left. -/
theorem numbers_tail (h : Ahead r lo) (hlt : lo < r.pushed) : r.numbers r.tail = lo := by
  have hstored := h.stored lo (Nat.le_refl lo) (by rwa [List.length_range])
  rw [← h.cursors.first, slot_val, List.getElem_range] at hstored
  exact hstored

theorem tail_succ (h : Ahead r lo) (hlt : lo < r.pushed) :
    Cursors thundred (lo + 1) r.pushed (r.tail + 1).val r.times.head.val := by
  rw [succ_val]
  exact h.cursors.take 1 hlt

theorem lt_pushed (h : Ahead r lo) (hne : r.tail ≠ r.times.head) : lo < r.pushed :=
  Nat.lt_of_le_of_ne h.cursors.le fun heq => hne (h.meets_iff.mpr heq)

theorem take (h : Ahead r lo) (hne : r.tail ≠ r.times.head) : Ahead r.take (lo + 1) := by
  have hlt := h.lt_pushed hne
  refine ⟨h.tail_succ hlt, ?_, h.stored.mono (Nat.le_succ lo), ?_⟩
  · have hroom := h.room
    exact Nat.lt_of_lt_of_le hroom (by omega)
  · have hmove : (r.taken ++ [lo] ++ r.passed ++ r.lost).Perm
        (r.taken ++ r.passed ++ r.lost ++ [lo]) := by
      simp only [List.append_assoc]
      refine List.Perm.append_left _ ?_
      rw [← List.append_assoc r.passed]
      exact List.perm_append_comm
    have hrange : List.range (lo + 1) = List.range lo ++ [lo] := List.range_succ
    rw [hrange]
    simp only [EventRing.take, h.numbers_tail hlt]
    exact hmove.trans (h.gone.append_right [lo])

theorem pass (h : Ahead r lo) (hne : r.tail ≠ r.times.head) : Ahead r.pass (lo + 1) := by
  have hlt := h.lt_pushed hne
  refine ⟨h.tail_succ hlt, ?_, h.stored.mono (Nat.le_succ lo), ?_⟩
  · have hroom := h.room
    exact Nat.lt_of_lt_of_le hroom (by omega)
  · have hmove : (r.taken ++ (r.passed ++ [lo]) ++ r.lost).Perm
        (r.taken ++ r.passed ++ r.lost ++ [lo]) := by
      simp only [List.append_assoc]
      exact (List.perm_append_comm.append_left _).append_left _
    have hrange : List.range (lo + 1) = List.range lo ++ [lo] := List.range_succ
    rw [hrange]
    simp only [EventRing.pass, h.numbers_tail hlt]
    exact hmove.trans (h.gone.append_right [lo])

/-- A push keeps the account. One that runs into the tail loses all that is unread. -/
theorem push (h : Ahead r lo) (time : Time) : ∃ lo', Ahead (r.push time) lo' := by
  have hput := h.cursors.put 1
  have hroom := h.room
  have hle := h.cursors.le
  have hfull : r.times.head + 1 = r.tail ↔ r.pushed + 1 = lo + thundred := by
    rw [Fin.ext_iff, succ_val]
    exact hput.meets_iff (by omega) (by omega)
  have hhead : (r.push time).times.head.val = (r.times.head.val + 1) % thundred :=
    succ_val r.times.head
  by_cases hmeet : r.times.head + 1 = r.tail
  · refine ⟨r.pushed + 1, ⟨thundred_pos, ?_, ?_, Nat.le_refl _⟩, ?_, ?_, ?_⟩
    · have htail : (r.push time).tail.val = (r.times.head.val + 1) % thundred :=
        (congrArg Fin.val hmeet.symm).trans (succ_val r.times.head)
      exact htail.trans hput.next
    · exact hhead.trans hput.next
    · exact Nat.lt_add_of_pos_right thundred_pos
    · intro j hj hlt
      rw [List.length_range] at hlt
      exact absurd hlt (Nat.not_lt.mpr hj)
    · have hacc := h.accounted.append_right [r.pushed]
      rw [← List.range_succ] at hacc
      simp only [EventRing.push, if_pos hmeet, ← List.append_assoc]
      exact hacc
  · have hfree : r.pushed + 1 < lo + thundred := by
      have := mt hfull.mpr hmeet
      omega
    refine ⟨lo, ⟨thundred_pos, h.cursors.first, hhead.trans hput.next, hput.le⟩, hfree, ?_, ?_⟩
    · have hlength : (List.range r.pushed).length = r.pushed := List.length_range
      have hrange : List.range (r.pushed + 1) = List.range r.pushed ++ [r.pushed] := List.range_succ
      have hnew : (r.push time).slot (r.pushed % thundred) = r.pushed := by
        rw [← h.cursors.next, slot_val]
        exact Function.update_self ..
      have hkeep : ∀ i, i < thundred → i ≠ r.pushed % thundred →
          (r.push time).slot i = r.slot i := by
        intro i hi hne
        refine Function.update_of_ne ?_ _ _
        rw [← h.cursors.next] at hne
        intro heq
        refine hne ?_
        rw [← heq, Fin.val_ofNat, Nat.mod_eq_of_lt hi]
      have hstored := h.stored.put r.pushed (by rwa [hlength]) (by rwa [hlength])
        (by rwa [hlength])
      rw [← hrange] at hstored
      exact hstored
    · simp only [EventRing.push, if_neg hmeet]
      exact h.gone

/-- The oldest unread push is the one under the tail. -/
theorem head_unread (h : Ahead r lo) : r.unread.head? =
    if r.tail = r.times.head then none else some (r.numbers r.tail) := by
  rw [h.unread_eq]
  split
  · rename_i heq
    rw [h.meets_iff.mp heq, List.drop_eq_nil_of_le (by rw [List.length_range])]
    rfl
  · rename_i hne
    have hlt := h.lt_pushed hne
    rw [h.numbers_tail hlt, List.head?_drop, List.getElem?_range hlt]

theorem amount_iff (h : Ahead r lo) : r.amount = r.unreadCount ↔ r.tail ≤ r.times.head := by
  have hhead := h.cursors.next_lt
  have htail := h.cursors.first_lt
  rw [EventRing.amount, EventRing.unreadCount, Fin.le_def]
  split
  · rename_i hlt
    rw [Fin.lt_def] at hlt
    refine iff_of_true ?_ (Nat.le_of_lt hlt)
    rw [show r.times.head.val + thundred - r.tail.val = r.times.head.val - r.tail.val + thundred by
      omega, Nat.add_mod_right, Nat.mod_eq_of_lt (by omega)]
  · rename_i hge
    rw [Fin.lt_def] at hge
    rw [if_neg (by omega)]
    constructor
    · intro hzero
      by_contra hlt
      rw [Nat.mod_eq_of_lt (by omega)] at hzero
      omega
    · intro hle
      rw [show r.times.head.val + thundred - r.tail.val = thundred by omega, Nat.mod_self]

/-- A number that is not zero is right. -/
theorem le_of_amount (h : r.amount ≠ 0) : r.tail ≤ r.times.head := by
  by_contra hlt
  have hhead := r.times.head.isLt
  rw [Fin.le_def] at hlt
  refine h ?_
  have hge : ¬ r.tail < r.times.head := fun hlt' => hlt (Nat.le_of_lt hlt')
  rw [EventRing.amount, if_neg hge, if_neg (by omega)]

/-- Moving the tail when nothing is unread leaves an account that does not add up. -/
theorem not_accounted {r' : EventRing} (h : Ahead r lo) (heq : r.tail = r.times.head)
    (hpushed : r'.pushed = r.pushed)
    (hgone : (r.taken ++ r.passed ++ r.lost).length < (r'.taken ++ r'.passed ++ r'.lost).length) :
    ¬ r'.Accounted := by
  intro hacc
  have hlength := hacc.length_eq
  have hbefore := h.gone.length_eq
  rw [List.length_range] at hbefore
  rw [List.length_append, List.length_range, hpushed] at hlength
  have hlo := h.meets_iff.mp heq
  omega

end Ahead

section PassOld

variable {tmp : Time} {r : EventRing} {amount : Nat}

theorem pass_old_go (h : Behind tmp r.first ∧ 0 < amount) (turns : Nat) :
    passOld tmp (turns + 1) r amount = passOld tmp turns r.pass r.pass.amount := if_pos h

theorem pass_old_stop (h : ¬ (Behind tmp r.first ∧ 0 < amount)) (turns : Nat) :
    passOld tmp (turns + 1) r amount = .ok (r, amount) := if_neg h

end PassOld

/-- Passing over goes on only while something is unread, and leaves the right number. -/
theorem pass_old_runs {r : EventRing} (tmp : Time) (h : ∃ lo, Ahead r lo)
    (hle : r.tail ≤ r.times.head) (turns : Nat)
    (hturns : r.times.head.val - r.tail.val < turns) : ∃ r' amount,
      passOld tmp turns r r.amount = .ok (r', amount) ∧ (∃ lo, Ahead r' lo) ∧
      amount = r'.unreadCount := by
  induction turns generalizing r with
  | zero => exact absurd hturns (Nat.not_lt_zero _)
  | succ turns ih =>
    obtain ⟨lo, hr⟩ := h
    rw [passOld]
    split
    · rename_i hgo
      have hlt : r.tail < r.times.head := by
        rcases Fin.lt_or_eq_of_le hle with hlt | heq
        · exact hlt
        · have hzero : r.amount = 0 := by simp [EventRing.amount, heq]
          rw [hzero] at hgo
          exact absurd hgo.2 (Nat.lt_irrefl 0)
      rw [Fin.lt_def] at hlt
      have hval : (r.tail + 1).val = r.tail.val + 1 := by
        rw [succ_val, Nat.mod_eq_of_lt (Nat.lt_of_le_of_lt hlt r.times.head.isLt)]
      have hpass := hr.pass (Fin.ne_of_lt hlt)
      refine ih (r := r.pass) ⟨lo + 1, hpass⟩ ?_ ?_
      · rw [Fin.le_def]
        exact hval.trans_le hlt
      · have htail : r.pass.tail.val = r.tail.val + 1 := hval
        have hhead : r.pass.times.head = r.times.head := rfl
        rw [htail, hhead]
        omega
    · exact ⟨r, _, rfl, ⟨lo, hr⟩, hr.amount_iff.mpr hle⟩

/-- Passing over takes nothing back. -/
theorem pass_old_gone {tmp : Time} {turns amount amount' : Nat} {r r' : EventRing}
    (h : passOld tmp turns r amount = .ok (r', amount')) : r'.pushed = r.pushed ∧
      r'.taken = r.taken ∧ r'.lost = r.lost ∧ r.passed.length ≤ r'.passed.length := by
  induction turns generalizing r amount with
  | zero => cases h
  | succ turns ih =>
    rw [passOld] at h
    split at h
    · obtain ⟨hpushed, htaken, hlost, hpassed⟩ := ih h
      refine ⟨hpushed, htaken, hlost, Nat.le_trans ?_ hpassed⟩
      simp [EventRing.pass]
    · obtain ⟨rfl, -⟩ := Prod.mk.inj (Except.ok.inj h)
      exact ⟨rfl, rfl, rfl, Nat.le_refl _⟩

variable {s : State} {a : Action}

/-- A section that reads its ring in step keeps the account and reads right. -/
theorem in_step_runs (h : Kept s) (hin : InStep s a) :
    ∃ t, exec s a = .ok t ∧ Kept t ∧ Right s t a := by
  obtain ⟨⟨lor, hr⟩, ⟨low, hw⟩⟩ := h
  cases a with
  | pushRetrans time => exact ⟨_, rfl, ⟨hr.push time, low, hw⟩, trivial⟩
  | pushWinsize time => exact ⟨_, rfl, ⟨⟨lor, hr⟩, hw.push time⟩, trivial⟩
  | readRetrans queueSec surveySec =>
    refine ⟨readRetrans queueSec surveySec s, rfl, ?_⟩
    rw [readRetrans, Right, hr.head_unread]
    split
    · rename_i hseen
      have hne : s.retrans.tail ≠ s.retrans.times.head := Fin.ne_of_lt hseen.1
      refine ⟨⟨⟨_, hr.take hne⟩, low, hw⟩, fun n hn _ => ?_⟩
      rw [if_neg hne] at hn
      rw [← Option.some.inj hn]
      rfl
    · rename_i hunseen
      refine ⟨⟨⟨lor, hr⟩, low, hw⟩, fun n hn hdue => ?_⟩
      rcases Fin.lt_or_eq_of_le (hin hdue) with hlt | heq
      · exact absurd ⟨hlt, hdue⟩ hunseen
      · rw [if_pos heq] at hn
        cases hn
  | count => exact ⟨count s, rfl, ⟨⟨lor, hr⟩, low, hw⟩, hw.amount_iff.mpr hin⟩
  | takeWinsize queueSec surveySec =>
    refine ⟨takeWinsize queueSec surveySec s, rfl, ?_, trivial⟩
    rw [takeWinsize]
    split
    · exact ⟨⟨lor, hr⟩, low, hw⟩
    · rename_i hamount
      split
      · rename_i hdue
        exact ⟨⟨lor, hr⟩, _, hw.take (hin (Nat.pos_of_ne_zero hamount) hdue)⟩
      · exact ⟨⟨lor, hr⟩, low, hw⟩
  | catchUp tmp =>
    cases tmp with
    | none => exact ⟨_, rfl, ⟨⟨lor, hr⟩, low, hw⟩, fun hne => absurd rfl hne⟩
    | some tmp =>
      by_cases hgo : Behind tmp s.winsize.first ∧ 0 < s.amount
      · obtain ⟨hne, hle⟩ := hin tmp rfl hgo.1 hgo.2
        obtain ⟨r', amount, hrun, hkept, hamount⟩ :=
          pass_old_runs tmp ⟨_, hw.pass hne⟩ hle thundred (by
            have hlt := s.winsize.times.head.isLt
            exact Nat.lt_of_le_of_lt (Nat.sub_le ..) hlt)
        refine ⟨{ s with winsize := r', amount, place := .loop }, ?_, ⟨⟨lor, hr⟩, hkept⟩,
          fun _ => hamount⟩
        rw [exec, catchUp, pass_old_go hgo, hrun]
        rfl
      · refine ⟨{ s with place := .loop }, ?_, ⟨⟨lor, hr⟩, low, hw⟩, fun hne => absurd rfl hne⟩
        rw [exec, catchUp, pass_old_stop hgo]
        rfl

/-- Out of step it misses or makes up something. -/
theorem out_of_step (h : Kept s) (hright : LeavesRight s a (exec s a)) : InStep s a := by
  obtain ⟨⟨lor, hr⟩, ⟨low, hw⟩⟩ := h
  obtain ⟨t, hrun, hacc, hacw, hright⟩ := hright
  cases a with
  | pushRetrans time => trivial
  | pushWinsize time => trivial
  | readRetrans queueSec surveySec =>
    intro hdue
    by_contra hgt
    obtain rfl := Except.ok.inj hrun
    have hne : s.retrans.tail ≠ s.retrans.times.head := fun heq => hgt (Fin.le_of_eq heq)
    have hunseen : ¬ (s.retrans.tail < s.retrans.times.head ∧
        Due queueSec surveySec s.retrans.first) := fun hseen => hgt (Fin.le_of_lt hseen.1)
    rw [Right, hr.head_unread, if_neg hne] at hright
    have htaken := hright _ rfl hdue
    rw [readRetrans, if_neg hunseen] at htaken
    have hlength := congrArg List.length htaken
    rw [List.length_append, List.length_singleton] at hlength
    exact absurd hlength (Nat.ne_of_lt (Nat.lt_succ_self _))
  | count =>
    obtain rfl := Except.ok.inj hrun
    exact hw.amount_iff.mp hright
  | takeWinsize queueSec surveySec =>
    intro hamount hdue heq
    obtain rfl := Except.ok.inj hrun
    rw [takeWinsize, if_neg (Nat.pos_iff_ne_zero.mp hamount), if_pos hdue] at hacw
    have hnot : ¬ s.winsize.take.Accounted := by
      refine hw.not_accounted heq rfl ?_
      simp only [EventRing.take, List.length_append, List.length_singleton]
      omega
    exact hnot hacw
  | catchUp tmp =>
    intro time htime hbehind hamount
    obtain rfl : tmp = some time := htime
    obtain ⟨⟨r', amount⟩, hpass, hrun⟩ := bind_ok hrun
    obtain rfl := Except.ok.inj hrun
    rw [pass_old_go ⟨hbehind, hamount⟩] at hpass
    obtain ⟨hpushed, htaken, hlost, hpassed⟩ := pass_old_gone hpass
    have hne : s.winsize.tail ≠ s.winsize.times.head := by
      intro heq
      refine hw.not_accounted heq hpushed ?_ hacw
      simp only [EventRing.pass, List.length_append, List.length_singleton] at hpassed
      simp only [List.length_append, htaken, hlost, EventRing.pass]
      omega
    refine ⟨hne, (hw.pass hne).amount_iff.mp ?_⟩
    by_cases hstop : s.winsize.pass.amount = 0
    · -- the loop ends behind the first turn
      have hend : ¬ (Behind time s.winsize.pass.first ∧ 0 < s.winsize.pass.amount) := fun hgo =>
        Nat.ne_of_gt hgo.2 hstop
      obtain ⟨turns, hturns⟩ : ∃ k, thundred = k + 1 := ⟨99999, rfl⟩
      rw [hturns, pass_old_stop hend] at hpass
      obtain ⟨rfl, rfl⟩ := Prod.mk.inj (Except.ok.inj hpass)
      exact hright (by simp [EventRing.pass])
    · exact (hw.pass hne).amount_iff.mpr (Ahead.le_of_amount hstop)

theorem leaves_right_iff (h : Kept s) (a : Action) : LeavesRight s a (exec s a) ↔ InStep s a := by
  refine ⟨out_of_step h, fun hin => ?_⟩
  obtain ⟨t, hrun, ⟨⟨lor, hr⟩, ⟨low, hw⟩⟩, hright⟩ := in_step_runs h hin
  exact ⟨t, hrun, hr.accounted, hw.accounted, hright⟩

theorem ahead_empty : Ahead emptyRing 0 :=
  ⟨.start thundred_pos, thundred_pos, .nil thundred _, .nil⟩

theorem kept_start : Kept machine.start := ⟨⟨0, ahead_empty⟩, 0, ahead_empty⟩

/-- From any state of the indices on, the rings are read right exactly if they are
read in step. -/
theorem event_rings_iff (h : Kept s) (actions : List Action) :
    machine.Throughout LeavesRight s actions ↔
    machine.Throughout (fun s a _ => InStep s a) s actions := by
  refine Machine.throughout_iff Kept (fun s a hs _ => leaves_right_iff hs a) ?_ h actions
  intro s a t hs _ hin hrun
  obtain ⟨t', ht', hkept, -⟩ := in_step_runs hs hin
  obtain rfl := Except.ok.inj (hrun.symm.trans ht')
  exact hkept

/-- A window comes, and a turn finds it. -/
theorem event_rings_iff_one_push : machine.Throughout LeavesRight machine.start
    [.pushWinsize ⟨1, 0⟩, .readRetrans 2 2, .count] := by
  refine (event_rings_iff kept_start _).mpr fun _ => ⟨trivial, fun s hs _ => ?_⟩
  obtain rfl := Except.ok.inj hs
  refine ⟨fun _ => Fin.le_refl _, fun t ht _ => ?_⟩
  obtain rfl := Except.ok.inj ht
  exact ⟨Fin.zero_le _, fun _ _ => trivial⟩

/-- After 100000 windows, all but the last of them taken. -/
def wrapped : EventRing :=
  ⟨⟨fun _ => ⟨1, 0⟩, 0⟩, Fin.last 99999, Fin.val, 100000, List.range 99999, [], []⟩

theorem ahead_wrapped : Ahead wrapped 99999 := by
  refine ⟨⟨thundred_pos, rfl, rfl, Nat.le_succ 99999⟩, ?_, ?_, ?_⟩
  · have hroom : 100000 < 99999 + 100000 := by omega
    exact hroom
  · intro j hj hlt
    rw [List.length_range] at hlt
    have hlt' : j < 100000 := hlt
    obtain rfl : j = 99999 := by omega
    rw [List.getElem_range]
    rfl
  · simp only [wrapped, List.append_nil]
    exact List.Perm.refl _

/-- The head is at place 0 again, and the window at place 99999 is not counted. -/
theorem wrapped_window_missed : ¬ ∀ s, Kept s → ∀ actions,
    machine.Throughout LeavesRight s actions := by
  intro h
  have hkept : Kept ⟨emptyRing, wrapped, .count, ⟨0, 0⟩, false, 0⟩ :=
    ⟨⟨0, ahead_empty⟩, 99999, ahead_wrapped⟩
  obtain ⟨hgood, -⟩ := h _ hkept [.count] rfl
  have hle : wrapped.tail ≤ wrapped.times.head := (leaves_right_iff hkept .count).mp hgood
  rw [Fin.le_def] at hle
  simp [wrapped] at hle

end ApTelemetry.Receiver.EventTimes
