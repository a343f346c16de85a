import ApTelemetry.TcpInfo.Loop

namespace ApTelemetry.TcpInfo
open Lib Ofproto

section Shown

variable {name pre digits rest : Str}

/-- Where a line shows a text behind a name and a colon, and the name does not stand
further in front, that text is copied. -/
theorem cut_shown (hname : name ≠ []) (hpre : Passes name pre) (hne : digits ≠ [])
    (hblank : ' ' ∉ digits) :
    cut (pre ++ (name ++ ':' :: (digits ++ ' ' :: rest)))
      (strlinger (pre ++ (name ++ ':' :: (digits ++ ' ' :: rest))) name +
        (name.length + 1 : Nat)) = some digits := by
  have hplace : strlinger (pre ++ (name ++ ':' :: (digits ++ ' ' :: rest))) name +
      (name.length + 1 : Nat) = ((pre ++ (name ++ [':'])).length : Nat) := by
    rw [strlinger_some hname (index_of_after hpre)]
    simp
  have hshape : pre ++ (name ++ ':' :: (digits ++ ' ' :: rest)) =
      (pre ++ (name ++ [':'])) ++ (digits ++ ' ' :: rest) := by
    simp
  rw [hplace, hshape]
  exact cut_text hne hblank rest

/-- An information line that fits and shows a number under a name, with a blank behind it
and the name nowhere in front. -/
structure Shows (c : Row) (name : Str) (n : Nat) : Prop where
  fits : c.info.length < 299
  line : '\n' ∉ c.info
  shown : ∃ pre rest, Passes name pre ∧
    c.info = pre ++ (name ++ ':' :: (Nat.toDigits 10 n ++ ' ' :: rest))

theorem Shows.cut_number {c : Row} {n : Nat} (h : Shows c name n) (hname : name ≠ []) :
    cut (infoLine c) (strlinger (infoLine c) name + (name.length + 1 : Nat)) =
      some (Nat.toDigits 10 n) := by
  obtain ⟨pre, rest, hpre, hinfo⟩ := h.shown
  have hline : infoLine c = pre ++ (name ++ ':' :: (Nat.toDigits 10 n ++ ' ' ::
      (rest ++ ['\n']))) := by
    rw [infoLine, infoLines, fgets_all_line h.line h.fits, List.headD_cons, hinfo]
    simp
  rw [hline]
  exact cut_shown hname hpre Nat.toDigits_ne_nil (Row.not_mem_digits (by decide) n)

/-- Such a line is read as the numbers it shows, where no digit lies behind the copies. -/
theorem read_shown {c : Row} {b : Behind} {cwnd mss : Nat} (hcwnd : Shows c "cwnd".toList cwnd)
    (hmss : Shows c "mss".toList mss) (hb : NoDigit b.cwnd) (hb' : NoDigit b.mss)
    (hlt : cwnd < 2 ^ 31) (hlt' : mss < 2 ^ 31) :
    cwndsRead [(c, b)] = [(cwnd : Int)] ∧ mssRead [(c, b)] = [(mss : Int)] := by
  have hc : cwndText (infoLine c) = some (Nat.toDigits 10 cwnd) := hcwnd.cut_number (by decide)
  have hm : mssText (infoLine c) = some (Nat.toDigits 10 mss) := hmss.cut_number (by decide)
  constructor
  · simp [cwndsRead, hc, atoi_decimal hb hlt]
  · simp [mssRead, hc, hm, atoi_decimal hb' hlt']

end Shown

section Reply

variable {services : Services}

/-- The query is answered with the numbers of the connection it asks for, and what the
caller makes of the answer is their product; or with -1 where no such connection is
listed, and the caller's value is not the product of any listed connection. -/
structure Right (behind : Nat → Behind) (q : Query) (conns : List (Conn services)) : Prop where
  listed : ∀ c ∈ conns, c.ends = q → ∃ cwnd mss : Nat, c.cwnd = some cwnd ∧ c.mss = some mss ∧
    ppp behind q.ends (output conns) = ⟨cwnd, mss⟩ ∧
    checkCwnd (ppp behind q.ends (output conns)) = (cwnd * mss : Nat)
  absent : (∀ c ∈ conns, c.ends ≠ q) → ppp behind q.ends (output conns) = ⟨-1, -1⟩ ∧
    ∀ c ∈ conns, ∀ cwnd mss : Nat, c.cwnd = some cwnd → c.mss = some mss →
      checkCwnd (ppp behind q.ends (output conns)) ≠ (cwnd * mss : Nat)

/-- The connections whose information lines the server reads for a query. -/
def readFor (behind : Nat → Behind) (q : Query) (conns : List (Conn services)) :
    List (Row × Behind) :=
  consulted services q (placed behind 1 conns)

theorem ppp_read (behind : Nat → Behind) (q : Query) (conns : List (Conn services)) :
    ppp behind q.ends (output conns) = match (cwndsRead (readFor behind q conns)).getLast? with
      | none => ⟨-1, -1⟩
      | some cwnd => ⟨cwnd, (mssRead (readFor behind q conns)).getLast?.getD 0⟩ := by
  rw [ppp_eq, ← readFor]
  generalize readFor behind q conns = entries
  cases h : cwndsRead entries with
  | nil => simp [answer, Found.after, h]
  | cons cwnd cwnds => simp [answer, Found.after, h, List.getLast?_cons]

theorem check_cwnd_eq_iff (cwnd mss : Nat) :
    checkCwnd ⟨cwnd, mss⟩ = (cwnd * mss : Nat) ↔ cwnd * mss < 2147483648 := by
  rw [checkCwnd, ← Nat.cast_mul]
  generalize cwnd * mss = n
  constructor
  · intro h
    have hlt := Int.bmod_lt (x := n) (m := 4294967296) (by decide)
    rw [h] at hlt
    omega
  · intro h
    exact Int.bmod_eq_of_le (by omega) (by omega)

/-- The connections taken for the one asked for end with its numbers, or there are none
where it is not listed. -/
structure Answerable (behind : Nat → Behind) (q : Query) (conns : List (Conn services)) :
    Prop where
  listed : ∀ c ∈ conns, c.ends = q → ∃ cwnd mss : Nat, c.cwnd = some cwnd ∧ c.mss = some mss ∧
    (cwndsRead (readFor behind q conns)).getLast? = some (cwnd : Int) ∧
    (mssRead (readFor behind q conns)).getLast?.getD 0 = mss ∧
    cwnd * mss < 2147483648
  absent : (∀ c ∈ conns, c.ends ≠ q) →
    (∀ cwnd, (cwndsRead (readFor behind q conns)).getLast? = some cwnd →
      cwnd = -1 ∧ (mssRead (readFor behind q conns)).getLast?.getD 0 = -1) ∧
    ∀ c ∈ conns, ∀ cwnd mss : Nat, c.cwnd = some cwnd → c.mss = some mss → cwnd * mss ≠ 1

/-- The query is answered right exactly where the connections taken for the one asked
for, by addresses within addresses and by port texts, end with its numbers. -/
theorem right_iff (behind : Nat → Behind) (q : Query) (conns : List (Conn services)) :
    Right behind q conns ↔ Answerable behind q conns := by
  have hreply := ppp_read behind q conns
  have hnone : checkCwnd ⟨-1, -1⟩ = 1 := by decide
  constructor
  · rintro ⟨hlisted, habsent⟩
    refine ⟨fun c hc hends => ?_, fun hno => ?_⟩
    · obtain ⟨cwnd, mss, hcwnd, hmss, hr, hvalue⟩ := hlisted c hc hends
      rw [hr, check_cwnd_eq_iff] at hvalue
      rw [hr] at hreply
      split at hreply
      · rw [CwndMss.mk.injEq] at hreply
        omega
      · rename_i last hlast
        rw [CwndMss.mk.injEq] at hreply
        exact ⟨cwnd, mss, hcwnd, hmss, by rw [hlast, hreply.1], hreply.2.symm, hvalue⟩
    · obtain ⟨hr, hvalue⟩ := habsent hno
      refine ⟨fun last hlast => ?_, fun c hc cwnd mss hcwnd hmss hone => ?_⟩
      · rw [hr, hlast, CwndMss.mk.injEq] at hreply
        exact ⟨hreply.1.symm, hreply.2.symm⟩
      · have hne := hvalue c hc cwnd mss hcwnd hmss
        rw [hr, hnone, hone] at hne
        exact hne rfl
  · rintro ⟨hlisted, habsent⟩
    refine ⟨fun c hc hends => ?_, fun hno => ?_⟩
    · obtain ⟨cwnd, mss, hcwnd, hmss, hlast, hmssRead, hlt⟩ := hlisted c hc hends
      rw [hlast, hmssRead] at hreply
      rw [hreply]
      exact ⟨cwnd, mss, hcwnd, hmss, rfl, (check_cwnd_eq_iff cwnd mss).mpr hlt⟩
    · obtain ⟨hlast, hvalue⟩ := habsent hno
      have hminus : ppp behind q.ends (output conns) = ⟨-1, -1⟩ := by
        rw [hreply]
        split
        · rfl
        · rename_i last hread
          obtain ⟨rfl, hmssRead⟩ := hlast last hread
          rw [hmssRead]
      refine ⟨hminus, fun c hc cwnd mss hcwnd hmss => ?_⟩
      rw [hminus, hnone]
      exact_mod_cast (hvalue c hc cwnd mss hcwnd hmss).symm

/-- No port has a name. -/
def unnamed : Services := ⟨fun _ => none, fun _ _ h => by cases h⟩

/-- A connection from 192.168.11.103 to 106.11.62.72. -/
def listed103 : Conn unnamed where
  state := "ESTAB".toList
  gap0 := 5
  recvQ := 0
  gap1 := 5
  sendQ := 0
  gap2 := 9
  localIp := ⟨192, 168, 11, 103⟩
  localPort := 47796
  gap3 := 8
  peerIp := ⟨106, 11, 62, 72⟩
  peerPort := 8080
  gap4 := 4
  words := ["cubic".toList, "rto:252".toList, "mss:1452".toList, "cwnd:10".toList,
    "rcv_space:29200".toList]
  state_ne := by decide
  state_plain := by simp
  fits := by decide
  info_long := by decide
  info_line := by decide
  info_plain := fun _ => Ip.absent (by decide)

/-- A query from 192.168.11.10 to 106.11.62.7, addresses that stand within those listed. -/
def query10 : Query := ⟨⟨192, 168, 11, 10⟩, ⟨106, 11, 62, 7⟩, 47796, 8080⟩

/-- The answer is for another connection though nothing stands behind the copies. -/
theorem other_connection_answered :
    ¬ Right (fun _ => ⟨[], [], [], []⟩) query10 [listed103] := by
  intro h
  have hreply := (h.absent (by decide)).1
  have hcode : ppp (fun _ => ⟨[], [], [], []⟩) query10.ends (output [listed103]) = ⟨10, 1452⟩ := by
    decide +kernel
  rw [hcode] at hreply
  exact absurd hreply (by decide)

end Reply

end ApTelemetry.TcpInfo
