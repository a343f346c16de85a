import ApTelemetry.Lib.Maxima
import ApTelemetry.Structs

namespace ApTelemetry.Sendudp

/-- The two `last_sec`/`last_usec` globals of one stream. They are only ever
assigned from unsigned 32-bit clock fields, and C compares them as such. -/
structure LastSent where
  sec : U32
  usec : U32
  deriving DecidableEq

def LastSent.stamp (last : LastSent) : Stamp := ApTelemetry.stamp last.sec last.usec

/-- The duplicate filter in front of `write_2_public_buffer`: the new globals
when the item is written, `none` when it is suppressed. -/
def LastSent.offer (last : LastSent) (sec usec : U32) : Option LastSent :=
  if last.sec < sec then some ⟨sec, usec⟩
  else if sec = last.sec ∧ last.usec < usec then some { last with usec := usec }
  else none

theorem LastSent.offer_newer {last : LastSent} {sec usec : U32}
    (h : last.stamp < ApTelemetry.stamp sec usec) : last.offer sec usec = some ⟨sec, usec⟩ := by
  rw [LastSent.stamp, stamp_lt_iff] at h
  unfold LastSent.offer
  split
  · rfl
  · rename_i hs
    rcases h with h | ⟨h, hu⟩
    · exact absurd h hs
    · rw [if_pos ⟨h.symm, hu⟩, h]

theorem LastSent.offer_older {last : LastSent} {sec usec : U32}
    (h : ¬ last.stamp < ApTelemetry.stamp sec usec) : last.offer sec usec = none := by
  rw [LastSent.stamp, stamp_lt_iff, not_or] at h
  rw [LastSent.offer, if_neg h.1, if_neg]
  rintro ⟨he, hu⟩
  exact h.2 ⟨he.symm, hu⟩

/-- The items of a stream that are written when they are offered one by one. -/
def LastSent.filter {α : Type} (sec usec : α → U32) : LastSent → List α → LastSent × List α
  | last, [] => (last, [])
  | last, x :: rest =>
    match last.offer (sec x) (usec x) with
    | some last =>
      let (last, written) := filter sec usec last rest
      (last, x :: written)
    | none => filter sec usec last rest

/-- They are the ones newer than every item before. -/
theorem LastSent.filter_runs {α : Type} (sec usec : α → U32) (last : LastSent) (xs : List α) :
    let key := fun x => ApTelemetry.stamp (sec x) (usec x)
    (last.filter sec usec xs).1.stamp = Lib.highest key last.stamp xs ∧
      (last.filter sec usec xs).2 = Lib.maxima key last.stamp xs := by
  intro key
  induction xs generalizing last with
  | nil => exact ⟨rfl, rfl⟩
  | cons x rest ih =>
    unfold filter
    by_cases hnew : last.stamp < key x
    · have hmax : max last.stamp (key x) = key x := max_eq_right hnew.le
      obtain ⟨hstamp, hwritten⟩ := ih ⟨sec x, usec x⟩
      simp only [offer_newer hnew, hstamp, hwritten]
      constructor
      · rw [Lib.highest, Lib.highest, List.foldl_cons, hmax]
        rfl
      · rw [Lib.maxima, if_pos hnew]
        rfl
    · have hmax : max last.stamp (key x) = last.stamp := max_eq_left (not_lt.mp hnew)
      obtain ⟨hstamp, hwritten⟩ := ih last
      simp only [offer_older hnew, hstamp, hwritten]
      constructor
      · rw [Lib.highest, Lib.highest, List.foldl_cons, hmax]
      · rw [Lib.maxima, if_neg hnew]

end ApTelemetry.Sendudp
