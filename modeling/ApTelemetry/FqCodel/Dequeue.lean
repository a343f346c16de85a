import ApTelemetry.DropLog.Collector
import ApTelemetry.FqCodel.ControlLaw
import Mathlib.Logic.Relation

namespace ApTelemetry.FqCodel

/-- What the kernel's own functions read from the headers of a packet: whether
`INET_ECN_set_ce` can mark it, the fields of `tcp_hdr` where the protocol is 6, the
segments it stands for, and the two values a queue is chosen by. -/
structure Headers (H : Type) where
  ect : H → Bool
  tcp : H → Option DropLog.Skb
  segs : H → U32
  hash : H → U32
  priority : H → U32

/-- `struct sk_buff`. `ce` is the mark in its header. -/
structure SkBuff (H : Type) where
  hdr : H
  pktLen : U32
  enqueueTime : CodelTime
  ce : Bool

/-- `struct codel_stats` -/
structure Stats where
  maxpacket : U32
  dropCount : U32
  dropLen : U32
  ecnMark : U32
  ceMark : U32

/-- What `codel_dequeue` knew with a packet at hand: its parameters, the clock, and the
backlog behind the packet. -/
structure Sight where
  params : Params
  now : CodelTime
  backlog : U32

/-- How a packet left its queue: returned by `fq_codel_dequeue`, dropped by codel,
dropped over the limit, or freed by a reset. -/
inductive Fate where
  | returned (sight : Sight)
  | codel (sight : Sight)
  | overlimit
  | reset

structure Departure (H : Type) where
  skb : SkBuff H
  fate : Fate

/-- What `codel_dequeue` works on besides the queue: the backlog of the flow, the counters
of the qdisc, the variables of the flow, and the statistics. `left` and `logged` are the
history of the packets that went and of the headers added to the drop log. -/
structure Codel (H : Type) where
  flowBacklog : U32
  qlen : Nat
  backlog : U32
  drops : U32
  vars : Vars
  stats : Stats
  left : List (Departure H)
  logged : List DropLog.Skb

structure Result (H : Type) where
  skb : Option (SkBuff H)
  queue : List (SkBuff H)
  codel : Codel H

variable {H : Type} (hd : Headers H) (params : Params) (now : CodelTime)

def shouldDrop (c : Codel H) : Option (SkBuff H) → Bool × Codel H
  | none => (false, { c with vars := { c.vars with firstAboveTime := 0 } })
  | some skb =>
    let vars := { c.vars with ldelay := now - skb.enqueueTime }
    let backlog := c.backlog - skb.pktLen
    let stats :=
      if skb.pktLen > c.stats.maxpacket then { c.stats with maxpacket := skb.pktLen } else c.stats
    let c := { c with vars, backlog, stats }
    if timeBefore vars.ldelay params.target ∨ backlog ≤ params.mtu then
      (false, { c with vars := { vars with firstAboveTime := 0 } })
    else if vars.firstAboveTime = 0 then
      (false, { c with vars := { vars with firstAboveTime := now + params.interval } })
    else (timeAfter now vars.firstAboveTime, c)

/-- The packet had waited for the target time, and more than an `mtu` is behind it. -/
def Slow (skb : SkBuff H) (backlog : U32) : Prop :=
  timeBefore (now - skb.enqueueTime) params.target = false ∧ params.mtu < backlog

def Codel.looked (skb : SkBuff H) (firstAboveTime : CodelTime) (c : Codel H) : Codel H :=
  { c with
    vars := { c.vars with ldelay := now - skb.enqueueTime, firstAboveTime }
    backlog := c.backlog - skb.pktLen
    stats := if skb.pktLen > c.stats.maxpacket then { c.stats with maxpacket := skb.pktLen }
      else c.stats }

variable {now} in
theorem looked_drop_count (skb : SkBuff H) (firstAboveTime : CodelTime) (c : Codel H) :
    (c.looked now skb firstAboveTime).stats.dropCount = c.stats.dropCount := by
  simp only [Codel.looked, apply_ite Stats.dropCount, ite_self]

/-- What `codel_should_drop` does with a packet at hand. The time to wait for is set, kept,
or cleared. -/
theorem should_drop_looked (c : Codel H) (skb : SkBuff H) : ∃ firstAboveTime,
    (shouldDrop params now c (some skb)).2 = c.looked now skb firstAboveTime ∧
    (firstAboveTime ≠ 0 → Slow params now skb (c.backlog - skb.pktLen) ∧
      (firstAboveTime = c.vars.firstAboveTime ∨ firstAboveTime = now + params.interval)) := by
  simp only [shouldDrop]
  split
  · exact ⟨0, rfl, fun h => absurd rfl h⟩
  · rename_i hslow
    obtain ⟨hbefore, hbehind⟩ := not_or.mp hslow
    have hslow : Slow params now skb (c.backlog - skb.pktLen) :=
      ⟨Bool.eq_false_of_not_eq_true hbefore, BitVec.not_le.mp hbehind⟩
    split
    · exact ⟨now + params.interval, rfl, fun _ => ⟨hslow, Or.inr rfl⟩⟩
    · exact ⟨c.vars.firstAboveTime, rfl, fun _ => ⟨hslow, Or.inl rfl⟩⟩

/-- `dequeue`, the `dequeue_func` of the qdisc, where the queue is not empty. -/
def taken (skb : SkBuff H) (c : Codel H) : Codel H :=
  { c with flowBacklog := c.flowBacklog - skb.pktLen, qlen := c.qlen - 1 }

/-- The drop log's part for a TCP packet, and `qdisc_drop`. -/
def drop (skb : SkBuff H) (c : Codel H) : Codel H :=
  { c with
    drops := c.drops + 1
    stats := { c.stats with
      dropLen := c.stats.dropLen + skb.pktLen, dropCount := c.stats.dropCount + 1 }
    left := c.left ++ [⟨skb, .codel ⟨params, now, c.backlog⟩⟩]
    logged := c.logged ++ (hd.tcp skb.hdr).toList }

def mark (skb : SkBuff H) (c : Codel H) : Codel H × SkBuff H :=
  ({ c with stats := { c.stats with ecnMark := c.stats.ecnMark + 1 } }, { skb with ce := true })

/-- `while (vars->dropping && codel_time_after_eq(now, vars->drop_next))`, with the packet
at hand. -/
def dropLoop (skb : SkBuff H) (c : Codel H) (queue : List (SkBuff H)) : Result H :=
  if c.vars.dropping ∧ timeAfterEq now c.vars.dropNext then
    let c := { c with vars := countUp c.vars }
    if params.ecn ∧ hd.ect skb.hdr then
      let (c, skb) := mark skb c
      ⟨some skb, queue,
        { c with vars := { c.vars with dropNext := c.vars.next c.vars.dropNext params.interval } }⟩
    else
      let c := drop hd params now skb c
      match queue with
      | [] =>
        let (_, c) := shouldDrop params now c none
        ⟨none, [], { c with vars := { c.vars with dropping := false } }⟩
      | skb :: rest =>
        match shouldDrop params now (taken skb c) (some skb) with
        | (false, c) => dropLoop skb { c with vars := { c.vars with dropping := false } } rest
        | (true, c) =>
          dropLoop skb { c with
            vars := { c.vars with dropNext := c.vars.next c.vars.dropNext params.interval } } rest
  else ⟨some skb, queue, c⟩

/-- The packet is to be dropped and the dropping state is entered. -/
def dropFirst (skb : SkBuff H) (c : Codel H) (queue : List (SkBuff H)) : Result H :=
  let r : Result H :=
    if params.ecn ∧ hd.ect skb.hdr then
      let (c, skb) := mark skb c
      ⟨some skb, queue, c⟩
    else
      let c := drop hd params now skb c
      match queue with
      | [] => ⟨none, [], (shouldDrop params now c none).2⟩
      | skb :: rest => ⟨some skb, rest, (shouldDrop params now (taken skb c) (some skb)).2⟩
  { r with codel := { r.codel with vars := enter r.codel.vars now params.interval } }

/-- The history of the packet returned. -/
def leave (skb : SkBuff H) (queue : List (SkBuff H)) (c : Codel H) : Result H :=
  ⟨some skb, queue, { c with left := c.left ++ [⟨skb, .returned ⟨params, now, c.backlog⟩⟩] }⟩

def ceMark (skb : SkBuff H) (c : Codel H) : Codel H × SkBuff H :=
  ({ c with stats := { c.stats with ceMark := c.stats.ceMark + 1 } }, { skb with ce := true })

/-- The label `end`. -/
def finish (r : Result H) : Result H :=
  match r.skb with
  | none => r
  | some skb =>
    if timeAfter r.codel.vars.ldelay params.ceThreshold ∧ hd.ect skb.hdr then
      let (c, skb) := ceMark skb r.codel
      leave params now skb r.queue c
    else leave params now skb r.queue r.codel

def codelDequeue (c : Codel H) : List (SkBuff H) → Result H
  | [] => ⟨none, [], { c with vars := { c.vars with dropping := false } }⟩
  | skb :: queue =>
    let (dropIt, c) := shouldDrop params now (taken skb c) (some skb)
    finish hd params now <|
      if c.vars.dropping then
        if dropIt then
          if timeAfterEq now c.vars.dropNext then dropLoop hd params now skb c queue
          else ⟨some skb, queue, c⟩
        else ⟨some skb, queue, { c with vars := { c.vars with dropping := false } }⟩
      else if dropIt then dropFirst hd params now skb c queue
      else ⟨some skb, queue, c⟩

/-- A point inside `codel_dequeue`: the packet at hand, and the one returned. -/
structure Stage (H : Type) where
  queue : List (SkBuff H)
  hand : Option (SkBuff H)
  out : Option (SkBuff H)
  codel : Codel H

/-- No packet is returned only where none is left. -/
def Result.Exhausts (r : Result H) : Prop := r.skb = none → r.queue = []

def Result.stage (r : Result H) : Stage H := ⟨r.queue, r.skb, none, r.codel⟩

/-- `codel_should_drop` has just said yes. -/
structure Due (c : Codel H) : Prop where
  slow : timeBefore c.vars.ldelay params.target = false
  behind : params.mtu < c.backlog
  started : c.vars.firstAboveTime ≠ 0
  waited : timeAfter now c.vars.firstAboveTime

/-- What is done to the variables outside of `codel_should_drop`. -/
inductive Control (vars : Vars) : Vars → Prop
  | up : Control vars (countUp vars)
  | enter : Control vars (enter vars now params.interval)
  | next : Control vars { vars with dropNext := vars.next vars.dropNext params.interval }
  | stop : Control vars { vars with dropping := false }

/-- Everything `codel_dequeue` can do next. -/
inductive Step : Stage H → Stage H → Prop
  | take (skb : SkBuff H) (queue : List (SkBuff H)) (c : Codel H) :
    Step ⟨skb :: queue, none, none, c⟩
      ⟨queue, some skb, none, (shouldDrop params now (taken skb c) (some skb)).2⟩
  | empty (c : Codel H) :
    Step ⟨[], none, none, c⟩ ⟨[], none, none, (shouldDrop params now c none).2⟩
  | drop (skb : SkBuff H) (queue : List (SkBuff H)) (c : Codel H) (due : Due params now c) :
    Step ⟨queue, some skb, none, c⟩ ⟨queue, none, none, drop hd params now skb c⟩
  | mark (skb : SkBuff H) (queue : List (SkBuff H)) (c : Codel H) (due : Due params now c)
    (ect : hd.ect skb.hdr) : Step ⟨queue, some skb, none, c⟩
      ⟨queue, some (mark skb c).2, none, (mark skb c).1⟩
  | ceMark (skb : SkBuff H) (queue : List (SkBuff H)) (c : Codel H) (ect : hd.ect skb.hdr) :
    Step ⟨queue, some skb, none, c⟩ ⟨queue, some (ceMark skb c).2, none, (ceMark skb c).1⟩
  | control (hand : Option (SkBuff H)) (queue : List (SkBuff H)) (c : Codel H) (vars : Vars)
    (control : Control params now c.vars vars) :
    Step ⟨queue, hand, none, c⟩ ⟨queue, hand, none, { c with vars }⟩
  | leave (skb : SkBuff H) (queue : List (SkBuff H)) (c : Codel H) :
    Step ⟨queue, some skb, none, c⟩
      ⟨queue, none, some skb, (leave params now skb queue c).codel⟩

abbrev Steps : Stage H → Stage H → Prop := Relation.ReflTransGen (Step hd params now)

section Path

variable {hd params now} {c d : Codel H} {skb : SkBuff H} {queue : List (SkBuff H)}

theorem should_drop_due (h : shouldDrop params now c (some skb) = (true, d)) :
    Due params now d := by
  simp only [shouldDrop] at h
  split at h
  · cases h
  · rename_i hslow
    obtain ⟨hbefore, hbehind⟩ := not_or.mp hslow
    split at h
    · cases h
    · rename_i hstarted
      obtain ⟨hwaited, rfl⟩ := Prod.mk.inj h
      exact ⟨Bool.eq_false_of_not_eq_true hbefore, BitVec.not_le.mp hbehind, hstarted, hwaited⟩

theorem Due.count_up (h : Due params now c) : Due params now { c with vars := countUp c.vars } :=
  ⟨h.slow, h.behind, h.started, h.waited⟩

theorem loop_mark (h : Due params now c) (ect : hd.ect skb.hdr) :
    Steps hd params now ⟨queue, some skb, none, c⟩
      ⟨queue, some { skb with ce := true }, none, { c with
        stats := { c.stats with ecnMark := c.stats.ecnMark + 1 }
        vars := { countUp c.vars with
          dropNext := (countUp c.vars).next (countUp c.vars).dropNext params.interval } }⟩ :=
  .tail (.tail (.single (.control _ _ _ _ .up)) (.mark _ _ _ h.count_up ect))
    (.control _ _ _ _ .next)

theorem loop_drop (h : Due params now c) : Steps hd params now ⟨queue, some skb, none, c⟩
    ⟨queue, none, none, drop hd params now skb { c with vars := countUp c.vars }⟩ :=
  .tail (.single (.control _ _ _ _ .up)) (.drop _ _ _ h.count_up)

/-- The loop, with the packet at hand to be dropped while the state lasts. -/
theorem drop_loop_steps (queue : List (SkBuff H)) (skb : SkBuff H) (c : Codel H)
    (hdue : c.vars.dropping = true → Due params now c) :
    Steps hd params now ⟨queue, some skb, none, c⟩ (dropLoop hd params now skb c queue).stage := by
  induction queue generalizing skb c with
  | nil =>
    rw [dropLoop]
    split
    · rename_i hdrop
      split
      · rename_i hect
        exact loop_mark (hdue hdrop.1) hect.2
      · exact .tail (.tail (loop_drop (hdue hdrop.1)) (.empty _)) (.control _ _ _ _ .stop)
    · exact .refl
  | cons skb' rest ih =>
    rw [dropLoop]
    split
    · rename_i hdrop
      split
      · rename_i hect
        exact loop_mark (hdue hdrop.1) hect.2
      · have htake : Steps hd params now ⟨skb' :: rest, some skb, none, c⟩ _ :=
          .tail (loop_drop (hdue hdrop.1)) (.take skb' rest _)
        cases hshould : shouldDrop params now
            (taken skb' (drop hd params now skb { c with vars := countUp c.vars })) (some skb') with
        | mk dropIt e =>
          rw [hshould] at htake
          cases dropIt with
          | false =>
            simp only [hshould]
            exact .trans (.tail htake (.control _ _ _ _ .stop))
              (ih skb' _ fun hstop => absurd hstop Bool.false_ne_true)
          | true =>
            simp only [hshould]
            obtain ⟨hslow, hbehind, hstarted, hwaited⟩ := should_drop_due hshould
            exact .trans (.tail htake (.control _ _ _ _ .next))
              (ih skb' _ fun _ => ⟨hslow, hbehind, hstarted, hwaited⟩)
    · exact .refl

theorem drop_first_steps (h : Due params now c) :
    Steps hd params now ⟨queue, some skb, none, c⟩ (dropFirst hd params now skb c queue).stage := by
  rw [dropFirst]
  split
  · rename_i hect
    exact .tail (.single (.mark _ _ _ h hect.2)) (.control _ _ _ _ .enter)
  · cases queue with
    | nil => exact .tail (.tail (.single (.drop _ _ _ h)) (.empty _)) (.control _ _ _ _ .enter)
    | cons skb' rest =>
      exact .tail (.tail (.single (.drop _ _ _ h)) (.take _ _ _)) (.control _ _ _ _ .enter)

theorem finish_steps (r : Result H) :
    Steps hd params now r.stage ⟨(finish hd params now r).queue, none,
      (finish hd params now r).skb, (finish hd params now r).codel⟩ := by
  obtain ⟨skb, queue, c⟩ := r
  cases skb with
  | none => exact .refl
  | some skb =>
    simp only [finish]
    split
    · rename_i hect
      exact .tail (.single (.ceMark _ _ _ hect.2)) (.leave _ _ _)
    · exact .single (.leave _ _ _)

variable (hd params now) in
/-- `codel_dequeue` as steps, from the whole queue to the packet returned. -/
theorem codel_dequeue_steps (c : Codel H) (queue : List (SkBuff H)) :
    Steps hd params now ⟨queue, none, none, c⟩ ⟨(codelDequeue hd params now c queue).queue, none,
      (codelDequeue hd params now c queue).skb, (codelDequeue hd params now c queue).codel⟩ := by
  cases queue with
  | nil => exact .single (.control _ _ _ _ .stop)
  | cons skb queue =>
    have htake : Steps hd params now ⟨skb :: queue, none, none, c⟩ _ := .single (.take skb queue c)
    simp only [codelDequeue]
    cases hshould : shouldDrop params now (taken skb c) (some skb) with
    | mk dropIt d =>
      rw [hshould] at htake
      refine .trans (.trans htake ?_) (finish_steps _)
      cases dropIt with
      | false =>
        simp only [Bool.false_eq_true, if_false]
        split
        · exact .single (.control _ _ _ _ .stop)
        · exact .refl
      | true =>
        have hdue := should_drop_due hshould
        simp only [if_true]
        split
        · split
          · exact drop_loop_steps queue skb d fun _ => hdue
          · exact .refl
        · exact drop_first_steps hdue

theorem drop_loop_exhausts (queue : List (SkBuff H)) (skb : SkBuff H) (c : Codel H) :
    (dropLoop hd params now skb c queue).Exhausts := by
  induction queue generalizing skb c with
  | nil =>
    rw [dropLoop]
    split
    · split <;> exact fun _ => rfl
    · exact fun _ => rfl
  | cons skb' rest ih =>
    rw [dropLoop]
    split
    · split
      · exact fun h => absurd h (Option.some_ne_none _)
      · cases hshould : shouldDrop params now
            (taken skb' (drop hd params now skb { c with vars := countUp c.vars })) (some skb') with
        | mk dropIt d =>
          simp only [hshould]
          cases dropIt <;> exact ih _ _
    · exact fun h => absurd h (Option.some_ne_none _)

theorem drop_first_exhausts : (dropFirst hd params now skb c queue).Exhausts := by
  rw [dropFirst]
  split
  · exact fun h => absurd h (Option.some_ne_none _)
  · cases queue with
    | nil => exact fun _ => rfl
    | cons => exact fun h => absurd h (Option.some_ne_none _)

theorem finish_exhausts {r : Result H} (h : r.Exhausts) : (finish hd params now r).Exhausts := by
  obtain ⟨skb, queue, c⟩ := r
  cases skb with
  | none => exact h
  | some skb =>
    simp only [finish]
    split <;> exact fun h => absurd h (Option.some_ne_none _)

variable (hd params now) in
theorem codel_dequeue_exhausts (c : Codel H) (queue : List (SkBuff H)) :
    (codelDequeue hd params now c queue).Exhausts := by
  cases queue with
  | nil => exact fun _ => rfl
  | cons skb queue =>
    simp only [codelDequeue]
    cases hshould : shouldDrop params now (taken skb c) (some skb) with
    | mk dropIt d =>
      apply finish_exhausts
      split
      · split
        · split
          · exact drop_loop_exhausts _ _ _
          · exact fun h => absurd h (Option.some_ne_none _)
        · exact fun h => absurd h (Option.some_ne_none _)
      · split
        · exact drop_first_exhausts
        · exact fun h => absurd h (Option.some_ne_none _)

end Path

end ApTelemetry.FqCodel
