import Mathlib.Data.List.Basic

namespace ApTelemetry.Lib

/-- What can go wrong in C code that compiles: the pointer is NULL, its block is
not (or no longer) allocated, the access leaves an array, a walk does not end,
or a divisor is zero. -/
inductive Fault where
  | null
  | freed
  | outside
  | endless
  | divide
  deriving DecidableEq

/-- A sequence runs through only if both of its parts do. -/
theorem bind_ok {α β ε : Type} {x : Except ε α} {f : α → Except ε β} {b : β}
    (h : (x >>= f) = .ok b) : ∃ a, x = .ok a ∧ f a = .ok b := by
  cases x with
  | error fault => cases h
  | ok a => exact ⟨a, rfl, h⟩

variable {α : Type}

/-- `memcpy (buf + at, src, length)` into an array. -/
def blit (buf : List α) (offset : Nat) (src : List α) : Except Fault (List α) :=
  if offset + src.length ≤ buf.length then
    .ok (buf.take offset ++ (src ++ buf.drop (offset + src.length)))
  else .error .outside

/-- `memcpy (dst, buf + at, length)` out of an array. -/
def slice (buf : List α) (offset length : Nat) : Except Fault (List α) :=
  if offset + length ≤ buf.length then .ok ((buf.drop offset).take length) else .error .outside

/-- `buf[i]` as a value. -/
def load (buf : List α) (i : Nat) : Except Fault α :=
  match buf[i]? with
  | some x => .ok x
  | none => .error .outside

/-- `buf[i] = x`. -/
def save (buf : List α) (i : Nat) (x : α) : Except Fault (List α) :=
  if i < buf.length then .ok (buf.set i x) else .error .outside

theorem load_ok_iff {buf : List α} {i : Nat} {x : α} : load buf i = .ok x ↔ buf[i]? = some x := by
  unfold load
  cases buf[i]? <;> simp

theorem load_lt {buf : List α} {i : Nat} (h : i < buf.length) : load buf i = .ok buf[i] :=
  load_ok_iff.mpr (List.getElem?_eq_getElem h)

theorem save_lt {buf : List α} {i : Nat} (h : i < buf.length) (x : α) :
    save buf i x = .ok (buf.set i x) := if_pos h

theorem blit_ok {buf src : List α} {offset : Nat} (h : offset + src.length ≤ buf.length) :
    blit buf offset src = .ok (buf.take offset ++ (src ++ buf.drop (offset + src.length))) :=
  if_pos h

theorem blit_front {buf src : List α} (h : src.length ≤ buf.length) :
    blit buf 0 src = .ok (src ++ buf.drop src.length) := by
  rw [blit_ok (by omega), List.take_zero, List.nil_append, Nat.zero_add]

/-- A copy replaces a part of its own length. -/
theorem blit_append {before part after src : List α} {n : Nat} (hn : before.length = n)
    (h : part.length = src.length) :
    blit (before ++ (part ++ after)) n src = .ok (before ++ (src ++ after)) := by
  rw [← hn, blit_ok (by simp only [List.length_append]; omega), List.take_left, ← h,
    ← List.length_append, ← List.append_assoc before part after, List.drop_left]

theorem slice_ok {buf : List α} {offset length : Nat} (h : offset + length ≤ buf.length) :
    slice buf offset length = .ok ((buf.drop offset).take length) := if_pos h

theorem slice_append (before part after : List α) :
    slice (before ++ (part ++ after)) before.length part.length = .ok part := by
  rw [slice_ok (by simp only [List.length_append]; omega), List.drop_left, List.take_left]

theorem blit_length {buf src out : List α} {offset : Nat} (h : blit buf offset src = .ok out) :
    out.length = buf.length := by
  unfold blit at h
  split at h
  · cases h
    simp
    omega
  · cases h

theorem take_blit {buf src out : List α} {offset : Nat} (h : blit buf offset src = .ok out) :
    out.take (offset + src.length) = buf.take offset ++ src := by
  unfold blit at h
  split at h
  · rename_i hle
    cases h
    have hlen : (buf.take offset).length = offset := by simp; omega
    rw [List.take_append, List.take_of_length_le (by omega), hlen, Nat.add_sub_cancel_left,
      List.take_left]
  · cases h

/-- What was just copied in is what a read of the same range gives. -/
theorem slice_blit_same {buf src out : List α} {offset : Nat}
    (h : blit buf offset src = .ok out) : slice out offset src.length = .ok src := by
  have hlen := blit_length h
  have htake := take_blit h
  unfold blit at h
  split at h
  · rw [slice_ok (by omega), List.take_drop, htake, List.drop_left' (by simp; omega)]
  · cases h

/-- A copy leaves every range it does not touch as it was. -/
theorem slice_blit_disjoint {buf src out : List α} {offset i n : Nat}
    (h : blit buf offset src = .ok out) (hd : i + n ≤ offset ∨ offset + src.length ≤ i) :
    slice out i n = slice buf i n := by
  have hlen := blit_length h
  unfold blit at h
  split at h
  · cases h
    unfold slice
    rw [hlen]
    split
    · congr 1
      apply List.ext_getElem?
      intro k
      simp only [List.getElem?_take, List.getElem?_drop, List.getElem?_append, List.length_take]
      split
      · rcases hd with hd | hd
        · rw [if_pos (by omega), if_pos (by omega)]
        · rw [if_neg (by omega), if_neg (by omega)]
          congr 1
          omega
      · rfl
    · rfl
  · cases h

end ApTelemetry.Lib
