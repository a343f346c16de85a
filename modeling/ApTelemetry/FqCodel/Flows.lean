import ApTelemetry.FqCodel.Qdisc
import Mathlib.Data.List.Forall2

namespace ApTelemetry.FqCodel
open Lib

variable {H : Type} (hd : Headers H)

/-- The same packet, possibly marked on the way. -/
def Forwarded (skb sent : SkBuff H) : Prop :=
  sent = skb ∨ hd.ect skb.hdr ∧ sent = { skb with ce := true }

def Fate.sight : Fate → Option Sight
  | .returned sight => some sight
  | .codel sight => some sight
  | .overlimit => none
  | .reset => none

/-- Packets that codel did not look at do not count. -/
def Departure.Slow (d : Departure H) : Prop :=
  ∀ sight ∈ d.fate.sight, FqCodel.Slow sight.params sight.now d.skb sight.backlog

/-- The last departures, from one at which `first_above_time` was set, were all slow. -/
def Above (left : List (Departure H)) (firstAboveTime : CodelTime) : Prop :=
  ∃ before first after, left = before ++ first :: after ∧
    (∀ d ∈ first :: after, d.Slow) ∧
    ∃ sight ∈ first.fate.sight, firstAboveTime = sight.now + sight.params.interval

/-- Codel drops a packet only once the interval since such a departure is over. -/
def Patient (left : List (Departure H)) : Prop :=
  ∀ before d sight, before ++ [d] <+: left → d.fate = .codel sight →
    ∃ firstAboveTime, timeAfter sight.now firstAboveTime ∧ Above (before ++ [d]) firstAboveTime

section Departures

variable {hd} {left : List (Departure H)} {d : Departure H} {firstAboveTime : CodelTime}

theorem Forwarded.refl (skb : SkBuff H) : Forwarded hd skb skb := Or.inl rfl

theorem Forwarded.mark {skb sent : SkBuff H} (h : Forwarded hd skb sent) (ect : hd.ect sent.hdr) :
    Forwarded hd skb { sent with ce := true } := by
  rcases h with rfl | ⟨hect, rfl⟩
  · exact Or.inr ⟨ect, rfl⟩
  · exact Or.inr ⟨hect, rfl⟩

theorem Above.append (h : Above left firstAboveTime) (slow : d.Slow) :
    Above (left ++ [d]) firstAboveTime := by
  obtain ⟨before, first, after, rfl, hslow, hset⟩ := h
  refine ⟨before, first, after ++ [d], by simp, ?_, hset⟩
  intro x hx
  rcases List.mem_append.mp (List.cons_append ▸ hx) with hold | hnew
  · exact hslow x hold
  · rwa [List.mem_singleton.mp hnew]

theorem Above.append_all {ds : List (Departure H)} (h : Above left firstAboveTime)
    (unseen : ∀ d ∈ ds, d.fate.sight = none) : Above (left ++ ds) firstAboveTime := by
  induction ds generalizing left with
  | nil => rwa [List.append_nil]
  | cons d ds ih =>
    rw [List.append_cons]
    refine ih (h.append ?_) fun e he => unseen e (List.mem_cons_of_mem d he)
    intro sight hsight
    rw [unseen d (List.mem_cons_self ..)] at hsight
    cases hsight

/-- The last departure may be another one that codel knew the same about. -/
theorem Above.change {e : Departure H} (h : Above (left ++ [d]) firstAboveTime)
    (same : e.fate.sight = d.fate.sight) (slow : d.Slow → e.Slow) :
    Above (left ++ [e]) firstAboveTime := by
  obtain ⟨before, first, after, heq, hslow, hset⟩ := h
  rcases List.eq_nil_or_concat after with rfl | ⟨after, last, rfl⟩
  · obtain ⟨rfl, hlast⟩ := List.append_inj' heq rfl
    obtain rfl := (List.cons.inj hlast).1
    refine ⟨left, e, [], rfl, ?_, same ▸ hset⟩
    exact List.forall_mem_singleton.mpr (slow (hslow d (List.mem_singleton_self d)))
  · rw [List.concat_eq_append, ← List.cons_append, ← List.append_assoc] at heq
    obtain ⟨rfl, hlast⟩ := List.append_inj' heq rfl
    obtain rfl := (List.cons.inj hlast).1
    rw [List.concat_eq_append, ← List.cons_append, List.forall_mem_append] at hslow
    refine ⟨before, first, after ++ [e], by simp, ?_, hset⟩
    rw [← List.cons_append, List.forall_mem_append]
    exact ⟨hslow.1, List.forall_mem_singleton.mpr (slow (List.forall_mem_singleton.mp hslow.2))⟩

theorem Patient.append (h : Patient left)
    (new : ∀ sight, d.fate = .codel sight →
      ∃ firstAboveTime, timeAfter sight.now firstAboveTime ∧ Above (left ++ [d]) firstAboveTime) :
    Patient (left ++ [d]) := by
  intro before e sight hpart hfate
  rcases List.prefix_concat_iff.mp hpart with heq | hold
  · obtain ⟨rfl, hlast⟩ := List.append_inj' heq rfl
    obtain rfl := (List.cons.inj hlast).1
    exact new sight hfate
  · exact h before e sight hold hfate

theorem Patient.append_all {ds : List (Departure H)} (h : Patient left)
    (new : ∀ d ∈ ds, d.fate.sight = none) : Patient (left ++ ds) := by
  induction ds generalizing left with
  | nil => rwa [List.append_nil]
  | cons d ds ih =>
    rw [List.append_cons]
    refine ih (h.append ?_) fun e he => new e (List.mem_cons_of_mem d he)
    intro sight hfate
    have hnone := new d (List.mem_cons_self ..)
    rw [hfate] at hnone
    cases hnone

end Departures

variable {hd} in
/-- What one step of `codel_dequeue` keeps, all its steps keep. -/
theorem Steps.keep {params : Params} {now : CodelTime} {P : Stage H → Prop}
    (step : ∀ s t, Step hd params now s t → P s → P t) {s t : Stage H}
    (h : Steps hd params now s t) (hs : P s) : P t := by
  induction h with
  | refl => exact hs
  | tail _ hlast ih => exact step _ _ hlast ih

/-- What is at hand, as if it were returned now. -/
def Stage.pending (params : Params) (now : CodelTime) (s : Stage H) : List (Departure H) :=
  s.hand.toList.map fun skb => ⟨skb, .returned ⟨params, now, s.codel.backlog⟩⟩

section Stages

variable {hd} {params : Params} {now : CodelTime} {s t : Stage H}

/-- What was admitted is what has left, what is at hand and what is queued, in this order. -/
def Stage.Conserved (hd : Headers H) (admitted : List (SkBuff H)) (s : Stage H) : Prop :=
  ∃ done, admitted = done ++ s.queue ∧
    List.Forall₂ (Forwarded hd) done (s.codel.left.map Departure.skb ++ s.hand.toList)

theorem forall2_last {R : SkBuff H → SkBuff H → Prop} {xs ys : List (SkBuff H)} {y z : SkBuff H}
    (h : List.Forall₂ R xs (ys ++ [y])) (last : ∀ x, R x y → R x z) :
    List.Forall₂ R xs (ys ++ [z]) := by
  induction ys generalizing xs with
  | nil =>
    cases h with
    | cons hy hnil => exact .cons (last _ hy) hnil
  | cons y' ys ih =>
    cases h with
    | cons hy hys => exact .cons hy (ih hys)

theorem Step.conserved {admitted : List (SkBuff H)} (h : Step hd params now s t)
    (hs : s.Conserved hd admitted) : t.Conserved hd admitted := by
  obtain ⟨done, hadmitted, hdone⟩ := hs
  cases h with
  | take skb queue c =>
    obtain ⟨firstAboveTime, hlooked, _⟩ := should_drop_looked params now (taken skb c) skb
    refine ⟨done ++ [skb], by simpa using hadmitted, ?_⟩
    rw [hlooked]
    exact List.rel_append ((List.append_nil _).subst hdone) (.cons (.refl skb) .nil)
  | empty => exact ⟨done, hadmitted, hdone⟩
  | drop skb queue c due => exact ⟨done, hadmitted, by simpa [FqCodel.drop] using hdone⟩
  | mark skb queue c due ect => exact ⟨done, hadmitted, forall2_last hdone fun _ hx => hx.mark ect⟩
  | ceMark skb queue c ect => exact ⟨done, hadmitted, forall2_last hdone fun _ hx => hx.mark ect⟩
  | control => exact ⟨done, hadmitted, hdone⟩
  | leave skb queue c => exact ⟨done, hadmitted, by simpa [FqCodel.leave] using hdone⟩

theorem Control.sound {vars vars' : Vars} (h : Control params now vars vars') (hs : vars.Sound) :
    vars'.Sound := by
  cases h with
  | up => exact hs.count_up
  | enter => exact hs.enter now params.interval
  | next => exact ⟨hs.below, hs.wrapped⟩
  | stop => exact ⟨hs.below, hs.wrapped⟩

theorem Step.sound (h : Step hd params now s t) (hs : s.codel.vars.Sound) :
    t.codel.vars.Sound := by
  cases h with
  | take skb queue c =>
    obtain ⟨firstAboveTime, hlooked, _⟩ := should_drop_looked params now (taken skb c) skb
    rw [hlooked]
    exact ⟨hs.below, hs.wrapped⟩
  | empty => exact ⟨hs.below, hs.wrapped⟩
  | drop => exact hs
  | mark => exact hs
  | ceMark => exact hs
  | control _ _ _ _ control => exact control.sound hs
  | leave => exact hs

/-- The waiting goes on from a departure, or from the packet at hand. -/
structure Stage.Waits (params : Params) (now : CodelTime) (s : Stage H) : Prop where
  patient : Patient s.codel.left
  above : s.codel.vars.firstAboveTime ≠ 0 →
    Above (s.codel.left ++ s.pending params now) s.codel.vars.firstAboveTime

theorem Control.first_above {vars vars' : Vars} (h : Control params now vars vars') :
    vars'.firstAboveTime = vars.firstAboveTime := by
  cases h with
  | up => rfl
  | enter =>
    simp only [FqCodel.enter, restart]
    split <;> rfl
  | next => rfl
  | stop => rfl

theorem Step.waits (h : Step hd params now s t) (hs : s.Waits params now) :
    t.Waits params now := by
  obtain ⟨hpatient, habove⟩ := hs
  cases h with
  | take skb queue c =>
    obtain ⟨firstAboveTime, hlooked, hset⟩ := should_drop_looked params now (taken skb c) skb
    rw [hlooked]
    refine ⟨hpatient, fun hne => ?_⟩
    obtain ⟨hslow, htime⟩ := hset hne
    have hdeparture : Departure.Slow
        (⟨skb, .returned ⟨params, now, c.backlog - skb.pktLen⟩⟩ : Departure H) := by
      intro sight hsight
      cases hsight
      exact hslow
    rcases htime with rfl | rfl
    · have hbefore := habove hne
      rw [Stage.pending, Option.toList_none, List.map_nil, List.append_nil] at hbefore
      exact hbefore.append hdeparture
    · exact ⟨c.left, _, [], rfl, List.forall_mem_singleton.mpr hdeparture, _, rfl, rfl⟩
  | empty => exact ⟨hpatient, fun hne => absurd rfl hne⟩
  | drop skb queue c due =>
    have hlast := (habove due.started).change (e := ⟨skb, .codel ⟨params, now, c.backlog⟩⟩) rfl id
    refine ⟨hpatient.append ?_, fun _ => ?_⟩
    · intro sight hsight
      cases hsight
      exact ⟨c.vars.firstAboveTime, due.waited, hlast⟩
    · rw [Stage.pending, Option.toList_none, List.map_nil, List.append_nil]
      exact hlast
  | mark skb queue c due ect => exact ⟨hpatient, fun hne => (habove hne).change rfl id⟩
  | ceMark skb queue c ect => exact ⟨hpatient, fun hne => (habove hne).change rfl id⟩
  | control _ _ _ _ control =>
    refine ⟨hpatient, ?_⟩
    have hfirst := control.first_above
    exact hfirst.symm ▸ habove
  | leave skb queue c =>
    refine ⟨hpatient.append ?_, fun hne => ?_⟩
    · intro sight hsight
      cases hsight
    · rw [Stage.pending, Option.toList_none, List.map_nil, List.append_nil]
      exact habove hne

/-- The sizes of all packets are from `fits`. -/
structure Stage.Fits (fits : U32 → Prop) (s : Stage H) : Prop where
  queue : ∀ skb ∈ s.queue, fits skb.pktLen
  hand : ∀ skb ∈ s.hand, fits skb.pktLen
  out : ∀ skb ∈ s.out, fits skb.pktLen

theorem Step.fits {fits : U32 → Prop} (h : Step hd params now s t) (hs : s.Fits fits) :
    t.Fits fits := by
  obtain ⟨hqueue, hhand, hout⟩ := hs
  cases h with
  | take skb queue c =>
    obtain ⟨hskb, hrest⟩ := List.forall_mem_cons.mp hqueue
    exact ⟨hrest, fun _ h => Option.some.inj h ▸ hskb, hout⟩
  | empty => exact ⟨hqueue, hhand, hout⟩
  | drop => exact ⟨hqueue, fun _ h => absurd h (Option.not_mem_none _), hout⟩
  | mark skb => exact ⟨hqueue, fun _ h => Option.some.inj h ▸ hhand skb rfl, hout⟩
  | ceMark skb => exact ⟨hqueue, fun _ h => Option.some.inj h ▸ hhand skb rfl, hout⟩
  | control => exact ⟨hqueue, hhand, hout⟩
  | leave => exact ⟨hqueue, fun _ h => absurd h (Option.not_mem_none _), hhand⟩

/-- A packet returned is the last departure. -/
def Stage.Recorded (s : Stage H) : Prop :=
  ∀ skb ∈ s.out, ∃ sight, s.codel.left.getLast? = some ⟨skb, .returned sight⟩

theorem Step.recorded (h : Step hd params now s t) : t.Recorded := by
  cases h with
  | leave skb queue c =>
    intro out hout
    obtain rfl := Option.some.inj hout
    exact ⟨_, List.getLast?_concat⟩
  | take => exact fun _ h => absurd h (Option.not_mem_none _)
  | empty => exact fun _ h => absurd h (Option.not_mem_none _)
  | drop => exact fun _ h => absurd h (Option.not_mem_none _)
  | mark => exact fun _ h => absurd h (Option.not_mem_none _)
  | ceMark => exact fun _ h => absurd h (Option.not_mem_none _)
  | control => exact fun _ h => absurd h (Option.not_mem_none _)

end Stages

/-- What is kept in a flow. -/
structure Flow.Kept (fits : U32 → Prop) (f : Flow H) : Prop where
  conserved : ∃ done, f.admitted = done ++ f.queue ∧
    List.Forall₂ (Forwarded hd) done (f.left.map Departure.skb)
  sound : f.cvars.Sound
  patient : Patient f.left
  above : f.cvars.firstAboveTime ≠ 0 → Above f.left f.cvars.firstAboveTime
  fits : ∀ skb ∈ f.queue, fits skb.pktLen

namespace Flow.Kept

variable {hd} {fits : U32 → Prop} {f : Flow H}

theorem accept {skb : SkBuff H} (h : f.Kept hd fits) (hskb : fits skb.pktLen) :
    Flow.Kept hd fits
      { f with queue := f.queue ++ [skb], admitted := f.admitted ++ [skb] } := by
  obtain ⟨done, hadmitted, hdone⟩ := h.conserved
  refine ⟨⟨done, by simp [hadmitted], hdone⟩, h.sound, h.patient, h.above, ?_⟩
  exact List.forall_mem_append.mpr ⟨h.fits, List.forall_mem_singleton.mpr hskb⟩

theorem account (h : f.Kept hd fits) (deficit dropped : U32) :
    Flow.Kept hd fits { f with deficit, dropped } :=
  ⟨h.conserved, h.sound, h.patient, h.above, h.fits⟩

theorem overlimit {gone rest : List (SkBuff H)} (h : f.Kept hd fits)
    (hqueue : f.queue = gone ++ rest) (dropped : U32) :
    Flow.Kept hd fits { f with
      queue := rest, dropped, left := f.left ++ gone.map fun skb => ⟨skb, .overlimit⟩ } := by
  obtain ⟨done, hadmitted, hdone⟩ := h.conserved
  have hunseen : ∀ d ∈ gone.map fun skb => (⟨skb, .overlimit⟩ : Departure H),
      d.fate.sight = none := by
    intro d hd
    obtain ⟨_, _, rfl⟩ := List.mem_map.mp hd
    rfl
  refine ⟨⟨done ++ gone, ?_, ?_⟩, h.sound, h.patient.append_all hunseen, ?_, ?_⟩
  · rw [hadmitted, hqueue, List.append_assoc]
  · rw [List.map_append, List.map_map]
    exact List.rel_append hdone (List.forall₂_map_right_iff.mpr
      (List.forall₂_same.mpr fun skb _ => .refl skb))
  · exact fun hne => (h.above hne).append_all hunseen
  · exact fun x hx => h.fits x (hqueue ▸ List.mem_append_right gone hx)

theorem codel {params : Params} {now : CodelTime} {c d : Codel H} {queue : List (SkBuff H)}
    {out : Option (SkBuff H)} (h : f.Kept hd fits) (hvars : c.vars = f.cvars)
    (hleft : c.left = f.left)
    (steps : Steps hd params now ⟨f.queue, none, none, c⟩ ⟨queue, none, out, d⟩) (dropped : U32) :
    Flow.Kept hd fits { f with queue, cvars := d.vars, left := d.left, dropped } := by
  have hconserved := steps.keep (P := Stage.Conserved hd f.admitted) (fun _ _ => Step.conserved)
    (by simpa [Stage.Conserved, hleft] using h.conserved)
  have hwaits := steps.keep (P := Stage.Waits params now) (fun _ _ => Step.waits)
    ⟨by rw [hleft]; exact h.patient, by simpa [hvars, hleft, Stage.pending] using h.above⟩
  have hsound := steps.keep (P := fun s => s.codel.vars.Sound) (fun _ _ => Step.sound)
    (by rw [hvars]; exact h.sound)
  have hnone : ∀ skb ∈ (none : Option (SkBuff H)), fits skb.pktLen :=
    fun _ h => absurd h (Option.not_mem_none _)
  have hfits := steps.keep (P := Stage.Fits fits) (fun _ _ => Step.fits) ⟨h.fits, hnone, hnone⟩
  refine ⟨?_, hsound, hwaits.patient, ?_, hfits.queue⟩
  · simpa [Stage.Conserved] using hconserved
  · simpa [Stage.pending] using hwaits.above

theorem reset (h : f.Kept hd fits) :
    Flow.Kept hd fits { f with
      queue := [], cvars := .init, left := f.left ++ f.queue.map fun skb => ⟨skb, .reset⟩ } := by
  obtain ⟨done, hadmitted, hdone⟩ := h.conserved
  refine ⟨⟨done ++ f.queue, ?_, ?_⟩, .init, ?_, ?_, ?_⟩
  · rw [hadmitted, List.append_nil]
  · rw [List.map_append, List.map_map]
    exact List.rel_append hdone (List.forall₂_map_right_iff.mpr
      (List.forall₂_same.mpr fun skb _ => .refl skb))
  · refine h.patient.append_all fun d hd => ?_
    obtain ⟨_, _, rfl⟩ := List.mem_map.mp hd
    rfl
  · exact fun hne => absurd rfl hne
  · exact fun _ h => absurd h List.not_mem_nil

end Flow.Kept

end ApTelemetry.FqCodel
