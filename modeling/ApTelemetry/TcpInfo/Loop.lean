import ApTelemetry.TcpInfo.Listing

namespace ApTelemetry.TcpInfo
open Lib Ofproto

section Ports

variable {tmp : Ends} {behind : Behind} {line pre m1 p1 rest : Str}

/-- The place behind the next colon. -/
theorem behind_colon {m : Str} (hline : line = pre ++ (m ++ ':' :: rest)) (hm : ':' ∉ m) :
    strlinger (pointer line pre.length) [':'] + pre.length + 1 =
      ((pre ++ (m ++ [':'])).length : Nat) := by
  have hcolon : strlinger (m ++ ':' :: rest) [':'] = m.length :=
    strlinger_some (by simp) (index_of_char hm rest)
  rw [hline, pointer_append, hcolon]
  simp
  omega

/-- The first port stands behind the first colon after the source address, the second
behind the next one. -/
theorem takes_ports {m2 : Str} (hsrc : strlinger line tmp.ipSrc = pre.length)
    (hpre : 0 < pre.length) (hdst : 0 < strlinger line tmp.ipDst)
    (hline : line = pre ++ (m1 ++ ':' :: (p1 ++ ' ' :: (m2 ++ ':' :: rest))))
    (hm1 : ':' ∉ m1) (hp1 : p1 ≠ []) (hblank : ' ' ∉ p1) (hm2 : ':' ∉ m2) :
    takes tmp behind line = true ↔ atoi (p1 ++ behind.src) = tmp.srcPort.toNat ∧
      ∃ str, cut line ((pre ++ (m1 ++ ':' :: (p1 ++ ' ' :: (m2 ++ [':'])))).length : Nat) =
        some str ∧ portDst (str ++ behind.dst) = tmp.dstPort.toNat := by
  have hfirst : strlinger (pointer line pre.length) [':'] + 1 + pre.length =
      ((pre ++ (m1 ++ [':'])).length : Nat) := by
    rw [← behind_colon hline hm1]
    omega
  have hcut : cut line ((pre ++ (m1 ++ [':'])).length : Nat) = some p1 := by
    have hshape : line = (pre ++ (m1 ++ [':'])) ++ (p1 ++ ' ' :: (m2 ++ ':' :: rest)) := by
      rw [hline]
      simp
    rw [hshape]
    exact cut_text hp1 hblank _
  have hend : ((pre ++ (m1 ++ [':'])).length : Int) + p1.length =
      ((pre ++ (m1 ++ ':' :: p1)).length : Nat) := by
    simp
    omega
  have hsecond : strlinger (pointer line ((pre ++ (m1 ++ ':' :: p1)).length : Nat)) [':'] +
      ((pre ++ (m1 ++ ':' :: p1)).length : Nat) + 1 =
        ((pre ++ (m1 ++ ':' :: (p1 ++ ' ' :: (m2 ++ [':'])))).length : Nat) := by
    have hshape : line = (pre ++ (m1 ++ ':' :: p1)) ++ ((' ' :: m2) ++ ':' :: rest) := by
      rw [hline]
      simp
    rw [behind_colon hshape (by simp [hm2])]
    simp
  rw [takes, hsrc, if_pos ⟨by omega, hdst⟩]
  simp only [hfirst, hcut, hend, hsecond]
  by_cases hport : atoi (p1 ++ behind.src) = tmp.srcPort.toNat
  · rw [if_neg (not_not.mpr hport)]
    cases cut line ((pre ++ (m1 ++ ':' :: (p1 ++ ' ' :: (m2 ++ [':'])))).length : Nat) with
    | none => simp
    | some str => simp [hport]
  · rw [if_pos hport]
    simp [hport]

/-- Where only one colon follows the source address, no second port is found. -/
theorem takes_last_port (hsrc : strlinger line tmp.ipSrc = pre.length)
    (hline : line = pre ++ (m1 ++ ':' :: (p1 ++ rest))) (hm1 : ':' ∉ m1) (hp1 : p1 ≠ [])
    (hblank : ' ' ∉ p1) (hrest : ':' ∉ rest) (hend : ' ' ∈ rest → ∃ more, rest = ' ' :: more) :
    takes tmp behind line = false := by
  have hfirst : strlinger (pointer line pre.length) [':'] + 1 + pre.length =
      ((pre ++ (m1 ++ [':'])).length : Nat) := by
    rw [← behind_colon hline hm1]
    omega
  have hshape : line = (pre ++ (m1 ++ [':'])) ++ (p1 ++ rest) := by
    rw [hline]
    simp
  by_cases hcond : (pre.length : Int) > 0 ∧ strlinger line tmp.ipDst > 0
  · rw [takes, hsrc, if_pos hcond]
    simp only [hfirst]
    by_cases hmem : ' ' ∈ rest
    · obtain ⟨more, rfl⟩ := hend hmem
      have hcut : cut line ((pre ++ (m1 ++ [':'])).length : Nat) = some p1 := by
        rw [hshape]
        exact cut_text hp1 hblank more
      have hat : line = (pre ++ (m1 ++ ':' :: p1)) ++ ' ' :: more := by
        rw [hshape]
        simp
      have hplace : ((pre ++ (m1 ++ [':'])).length : Int) + p1.length =
          ((pre ++ (m1 ++ ':' :: p1)).length : Nat) := by
        simp
        omega
      have hcolon : strlinger (pointer line ((pre ++ (m1 ++ ':' :: p1)).length : Nat)) [':'] +
          ((pre ++ (m1 ++ ':' :: p1)).length : Nat) + 1 =
            ((pre ++ (m1 ++ ':' :: p1)).length : Nat) := by
        have habsent : strlinger (pointer line ((pre ++ (m1 ++ ':' :: p1)).length : Nat)) [':'] =
            -1 := by
          rw [hat, pointer_append]
          exact strlinger_none (by simp) (index_of_absent hrest)
        rw [habsent]
        omega
      have hnone : cut line ((pre ++ (m1 ++ ':' :: p1)).length : Nat) = none := by
        rw [hat]
        exact cut_blank _ more
      simp only [hcut, hplace, hcolon, hnone]
      split <;> rfl
    · have hnone : cut line ((pre ++ (m1 ++ [':'])).length : Nat) = none := by
        rw [hshape]
        exact cut_end (by simp [hblank, hmem])
      rw [hnone]
  · rw [takes, hsrc, if_neg hcond]

theorem takes_unfound (h : ¬ (0 < strlinger line tmp.ipSrc ∧ 0 < strlinger line tmp.ipDst)) :
    takes tmp behind line = false := by
  rw [takes, if_neg h]

end Ports

section Line

variable {services : Services} {q : Query} {behind : Behind} {c : Row}

/-- The text of the peer's port ends at a blank, where one follows. -/
theorem cut_peer_port (services : Services) (pre : Str) (c : Row) :
    cut (pre ++ (services.text c.peerPort ++ (blanks c.gap4 ++ ['\n']))) pre.length =
      if 0 < c.gap4 then some (services.text c.peerPort) else none := by
  have hword := services.text_word c.peerPort
  cases hgap : c.gap4 with
  | zero =>
    rw [if_neg (by omega)]
    exact cut_end (by simp [blanks, hword.blank])
  | succ k =>
    rw [if_pos (by omega), blanks, List.replicate_succ]
    exact cut_text hword.ne hword.blank _

theorem takes_local (hstate : '.' ∉ c.state) (hsrc : q.src.text <:+: c.localIp.text)
    (hdst : q.dst.text <:+: c.localIp.text ∨ q.dst.text <:+: c.peerIp.text) :
    takes q.ends behind (c.line services ++ ['\n']) = true ↔ Taken services q behind c := by
  have hlocal := services.text_word c.localPort
  have hnone : ':' ∉ c.localIp.text := Ip.not_mem (by decide) (by decide)
  have hpeer : ':' ∉ c.peerIp.text := Ip.not_mem (by decide) (by decide)
  have hgap : ':' ∉ blanks c.gap3 ++ c.peerIp.text := by
    simp [hpeer, Row.not_mem_blanks]
  obtain ⟨before, after, hsplit, hindex⟩ := Row.find_local services hstate hsrc ['\n']
  have hcolon : ':' ∉ q.src.text ++ after := by
    rw [hsplit, List.mem_append, not_or] at hnone
    exact hnone.2
  have hshape : c.line services ++ ['\n'] = (c.front ++ before) ++ ((q.src.text ++ after) ++
      ':' :: (services.text c.localPort ++ ' ' :: ((blanks c.gap3 ++ c.peerIp.text) ++ ':' ::
        (services.text c.peerPort ++ (blanks c.gap4 ++ ['\n']))))) := by
    rw [Row.line, hsplit]
    simp
  have hfront : 0 < (c.front ++ before).length := by
    have := c.front_ne
    rw [List.length_append]
    omega
  rw [takes_ports hindex hfront ((Row.found_iff hstate).mpr hdst) hshape hcolon hlocal.ne
    hlocal.blank hgap]
  have hcut := cut_peer_port services ((c.front ++ before) ++ ((q.src.text ++ after) ++ ':' ::
    (services.text c.localPort ++ ' ' :: ((blanks c.gap3 ++ c.peerIp.text) ++ [':'])))) c
  have hjoin : ∀ rest : Str, (c.front ++ before) ++ ((q.src.text ++ after) ++ ':' ::
      (services.text c.localPort ++ ' ' :: ((blanks c.gap3 ++ c.peerIp.text) ++ ':' :: rest))) =
        ((c.front ++ before) ++ ((q.src.text ++ after) ++ ':' :: (services.text c.localPort ++
          ' ' :: ((blanks c.gap3 ++ c.peerIp.text) ++ [':'])))) ++ rest := by
    intro rest
    simp
  rw [hshape, hjoin, hcut]
  constructor
  · rintro ⟨hport, str, hstr, hpeerPort⟩
    split at hstr
    · rename_i hblank
      cases hstr
      exact ⟨hsrc, hdst, hport, hblank, hpeerPort⟩
    · cases hstr
  · rintro ⟨-, -, hport, hblank, hpeerPort⟩
    exact ⟨hport, services.text c.peerPort, if_pos hblank, hpeerPort⟩

theorem takes_peer (hstate : '.' ∉ c.state) (hlocal : ¬ q.src.text <:+: c.localIp.text)
    (hpeer : q.src.text <:+: c.peerIp.text) :
    takes q.ends behind (c.line services ++ ['\n']) = false := by
  have hword := services.text_word c.peerPort
  obtain ⟨before, after, hsplit, hindex⟩ := Row.find_peer services hstate hlocal hpeer ['\n']
  have hcolon : ':' ∉ q.src.text ++ after := by
    have hnone : ':' ∉ c.peerIp.text := Ip.not_mem (by decide) (by decide)
    rw [hsplit, List.mem_append, not_or] at hnone
    exact hnone.2
  have hshape : c.line services ++ ['\n'] = (c.toPeer services ++ before) ++
      ((q.src.text ++ after) ++ ':' ::
        (services.text c.peerPort ++ (blanks c.gap4 ++ ['\n']))) := by
    rw [Row.line_peer, hsplit]
    simp
  refine takes_last_port hindex hshape hcolon hword.ne hword.blank
    (by simp [Row.not_mem_blanks]) fun hmem => ?_
  cases hgap : c.gap4 with
  | zero => simp [hgap, blanks] at hmem
  | succ k => exact ⟨blanks k ++ ['\n'], by rw [blanks, List.replicate_succ]; rfl⟩

/-- The lines the server takes are those of the connections it takes. -/
theorem takes_iff (hstate : '.' ∉ c.state) :
    takes q.ends behind (c.line services ++ ['\n']) = true ↔ Taken services q behind c := by
  by_cases hdst : q.dst.text <:+: c.localIp.text ∨ q.dst.text <:+: c.peerIp.text
  · by_cases hlocal : q.src.text <:+: c.localIp.text
    · exact takes_local hstate hlocal hdst
    · have hnot : takes q.ends behind (c.line services ++ ['\n']) = false := by
        by_cases hpeer : q.src.text <:+: c.peerIp.text
        · exact takes_peer hstate hlocal hpeer
        · refine takes_unfound fun h => ?_
          exact absurd ((Row.found_iff hstate).mp h.1) (not_or.mpr ⟨hlocal, hpeer⟩)
      rw [hnot]
      exact iff_of_false Bool.false_ne_true fun h => hlocal h.src
  · have hnot : takes q.ends behind (c.line services ++ ['\n']) = false :=
      takes_unfound fun h => hdst ((Row.found_iff hstate).mp h.2)
    rw [hnot]
    exact iff_of_false Bool.false_ne_true fun h => hdst h.dst

end Line

section Loop

variable {services : Services} {q : Query} {behind : Nat → Behind}

/-- Lines without the source address are passed over. -/
theorem scan_skip {lines : List Str} (h : ∀ l ∈ lines, ¬ q.src.text <:+: l) (i : Nat) (s : Found)
    (rest : List Str) : scan q.ends behind i s (lines ++ rest) =
      scan q.ends behind (i + lines.length) s rest := by
  induction lines generalizing i with
  | nil => rfl
  | cons l lines ih =>
    have hnot : takes q.ends (behind i) l = false := by
      refine takes_unfound fun hfound => ?_
      have habsent : strlinger l q.ends.ipSrc = -1 :=
        strlinger_none q.src.text_ne (index_of_missing (h l List.mem_cons_self))
      rw [habsent] at hfound
      omega
    rw [List.cons_append, scan_pass hnot, ih fun m hm => h m (List.mem_cons_of_mem l hm),
      List.length_cons]
    congr 1
    omega

/-- What the loop knows after it has read the information lines of some connections. -/
def Found.after (s : Found) (entries : List (Row × Behind)) : Found where
  foundCwnd := s.foundCwnd || !(cwndsRead entries).isEmpty
  cwnd := (cwndsRead entries).getLast?.getD s.cwnd
  mss := (mssRead entries).getLast?.getD s.mss

theorem Found.after_nil (s : Found) : s.after [] = s := by
  simp [Found.after, cwndsRead, mssRead]

theorem last_read_cons {α β : Type} (f : α → Option β) (x : α) (xs : List α) (d : β) :
    ((x :: xs).filterMap f).getLast?.getD d =
      (xs.filterMap f).getLast?.getD (([x].filterMap f).getLast?.getD d) := by
  cases h : f x with
  | none => simp [h]
  | some y => simp [h, List.getLast?_cons]

theorem Found.after_cons (s : Found) (e : Row × Behind) (entries : List (Row × Behind)) :
    s.after (e :: entries) = (s.after [e]).after entries := by
  simp only [Found.after, Found.mk.injEq]
  refine ⟨?_, last_read_cons _ e entries s.cwnd, last_read_cons _ e entries s.mss⟩
  cases h : cwndText (infoLine e.1) with
  | none => simp [cwndsRead, h]
  | some str => simp [cwndsRead, h]

theorem read_info_after (s : Found) (c : Row) (b : Behind) :
    readInfo b s (infoLine c) = (s.after [(c, b)], !c.stops) := by
  unfold readInfo Row.stops Found.after cwndsRead mssRead
  cases hc : cwndText (infoLine c) with
  | none => simp [hc]
  | some str =>
    cases hm : mssText (infoLine c) with
    | none => simp [hc, hm]
    | some text => simp [hc, hm]

theorem info_lines_cons (c : Row) : ∃ rest, infoLines c = infoLine c :: rest := by
  unfold infoLine
  cases h : infoLines c with
  | nil =>
    have hflat := fgets_all_flatten 299 299 (c.info ++ ['\n'])
    rw [← infoLines, h] at hflat
    simp at hflat
  | cons p ps => exact ⟨ps, rfl⟩

theorem Conn.dot_state (c : Conn services) : '.' ∉ c.state :=
  fun h => (c.state_plain _ h).1 rfl

/-- No address is found in an information line, nor in a part of one. -/
theorem Conn.info_lines_skip (c : Conn services) :
    ∀ l ∈ infoLines c.toRow, ¬ q.src.text <:+: l := by
  intro l hl hi
  have hpart : l <:+: c.info ++ ['\n'] := by
    rw [← fgets_all_flatten 299 299 (c.info ++ ['\n'])]
    exact List.infix_of_mem_flatten hl
  have hfeed : Passes q.src.text (c.info ++ ['\n']) :=
    passes_of_end (c.info_plain q.src) (Ip.not_mem (by decide) (by decide)) q.src.text_ne
  obtain ⟨before, after, -, hindex⟩ := index_of_infix (hi.trans hpart)
  have hnone := hfeed []
  have hnil : indexOf q.src.text [] = none := if_neg q.src.text_ne
  rw [hindex, hnil] at hnone
  cases hnone

/-- The lines of one connection, read from the first. -/
def Conn.lines (c : Conn services) : List Str :=
  (c.line services ++ ['\n']) :: infoLines c.toRow

theorem scan_passed (c : Conn services) (i : Nat) (h : ¬ Taken services q (behind i) c.toRow)
    (s : Found) (rest : List Str) : scan q.ends behind i s (c.lines ++ rest) =
      scan q.ends behind (i + 1 + (infoLines c.toRow).length) s rest := by
  have hnot : takes q.ends (behind i) (c.line services ++ ['\n']) = false :=
    Bool.eq_false_iff.mpr fun ht => h ((takes_iff c.dot_state).mp ht)
  rw [Conn.lines, List.cons_append, scan_pass hnot, scan_skip c.info_lines_skip]

theorem scan_taken (c : Conn services) (i : Nat) (h : Taken services q (behind i) c.toRow)
    (s : Found) (rest : List Str) : scan q.ends behind i s (c.lines ++ rest) =
      if c.stops then s.after [(c.toRow, behind i)]
      else scan q.ends behind (i + 1 + (infoLines c.toRow).length)
        (s.after [(c.toRow, behind i)]) rest := by
  obtain ⟨more, hmore⟩ := info_lines_cons c.toRow
  have hskip : ∀ l ∈ more, ¬ q.src.text <:+: l := fun l hl =>
    c.info_lines_skip l (hmore ▸ List.mem_cons_of_mem _ hl)
  rw [Conn.lines, hmore, List.cons_append, List.cons_append,
    scan_take ((takes_iff c.dot_state).mpr h), read_info_after]
  cases c.stops with
  | true => rfl
  | false =>
    simp only [Bool.not_false, if_true, Bool.false_eq_true, if_false, List.length_cons]
    rw [scan_skip hskip]
    congr 1
    omega

/-- The loop reads the information lines of the connections it takes. -/
theorem scan_conns (conns : List (Conn services)) (i : Nat) (s : Found) :
    scan q.ends behind i s (conns.flatMap Conn.lines) =
      s.after (consulted services q (placed behind i conns)) := by
  induction conns generalizing i s with
  | nil => exact (s.after_nil).symm
  | cons c conns ih =>
    rw [List.flatMap_cons, placed, consulted, List.filter_cons]
    by_cases h : Taken services q (behind i) c.toRow
    · rw [scan_taken c i h, if_pos (decide_eq_true h), upTo]
      split
      · rfl
      · rw [ih, ← Found.after_cons]
        rfl
    · rw [scan_passed c i h, if_neg (by simpa using h), ih]
      rfl

theorem Conn.not_mem_line (c : Conn services) : '\n' ∉ c.line services := by
  have hfront : '\n' ∉ c.front :=
    Row.not_mem_front (fun h => (c.state_plain _ h).2.2 rfl) (by decide) (by decide)
  have haddr : ∀ ip : Ip, '\n' ∉ ip.text := fun ip => Ip.not_mem (by decide) (by decide)
  simp [Row.line, hfront, haddr, (services.text_word _).feed, Row.not_mem_blanks]

theorem output_lines (conns : List (Conn services)) : Str.fgetsAll 299 299 (output conns) =
    (header ++ ['\n']) :: conns.flatMap Conn.lines := by
  have hbody : Str.fgetsAll 299 299 (conns.flatMap fun c =>
      c.line services ++ '\n' :: (c.info ++ ['\n'])) = conns.flatMap Conn.lines := by
    induction conns with
    | nil => rfl
    | cons c conns ih =>
      have hline : '\n' ∉ c.line services := c.not_mem_line
      rw [List.flatMap_cons, List.append_assoc, List.cons_append, List.append_assoc,
        fgets_all_line hline (by have := c.fits; omega), List.singleton_append,
        fgets_all_append c.info_line, ih, List.flatMap_cons]
      rfl
  rw [output, fgets_all_line (by decide) (by decide), hbody]

/-- The reply is what is read last from the information lines of the connections taken. -/
theorem ppp_eq (q : Query) (behind : Nat → Behind) (conns : List (Conn services)) :
    ppp behind q.ends (output conns) =
      answer ((⟨false, 0, 0⟩ : Found).after (consulted services q (placed behind 1 conns))) := by
  have hheader : ∀ l ∈ [header ++ ['\n']], ¬ q.src.text <:+: l := by
    intro l hl
    rw [List.mem_singleton.mp hl]
    exact Ip.absent (by decide)
  rw [ppp, output_lines]
  exact congrArg answer ((scan_skip hheader 0 _ _).trans (scan_conns conns 1 _))

end Loop

end ApTelemetry.TcpInfo
