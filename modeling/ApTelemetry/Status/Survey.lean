import ApTelemetry.Lib.Buffer
import ApTelemetry.Structs
import Mathlib.Data.Fin.Tuple.Basic

namespace ApTelemetry.Status
open Lib

/-- `struct survey_info` as far as it is reported. The driver may leave the
pointer to the channel NULL. -/
structure SurveyInfo where
  channel : Option U16
  time : U64
  timeBusy : U64
  timeExtBusy : U64
  timeRx : U64
  timeTx : U64
  timeScan : U64
  filled : U32
  noise : U8

def zeroSurvey : SurveyInfo := ⟨none, 0, 0, 0, 0, 0, 0, 0, 0⟩

/-- The variable `survey`, and which entry of the driver is in it; nothing reads that. -/
structure Probe where
  survey : SurveyInfo
  entry : Option (Fin 16)

/-- The loop from `idx` on. Its body counts `idx` up and so does its head. -/
def surveyLoop (table : Fin 16 → SurveyInfo) (idx : Nat) (p : Probe) : Probe :=
  if h : idx < 16 then
    let p : Probe := ⟨table ⟨idx, h⟩, some ⟨idx, h⟩⟩
    if 109 < p.survey.filled then p else surveyLoop table (idx + 1 + 1) p
  else p
termination_by 16 - idx

/-- What `ieee80211_dump_station_linger` reports, and of which entry. -/
structure Report where
  surveydata : DataSurvey
  entry : Option (Fin 16)

/-- The values of an entry with the time they are reported at. -/
def store (survey : SurveyInfo) (centerFreq : U16) (sec usec : U32) (surveydata : DataSurvey) :
    DataSurvey :=
  { surveydata with
    time := survey.time
    sec
    usec
    timeBusy := survey.timeBusy
    timeExtBusy := survey.timeExtBusy
    timeRx := survey.timeRx
    timeTx := survey.timeTx
    timeScan := survey.timeScan
    noise := survey.noise
    centerFreq }

/-- The part of `ieee80211_dump_station_linger` behind the stations. -/
def dumpSurvey (table : Fin 16 → SurveyInfo) (sec usec : U32) (surveydata : DataSurvey) :
    Except Fault Report :=
  let p := surveyLoop table 0 ⟨zeroSurvey, none⟩
  match p.survey.channel with
  | none => .error .null
  | some centerFreq => .ok ⟨store p.survey centerFreq sec usec surveydata, p.entry⟩

section Property

variable (table : Fin 16 → SurveyInfo)

def firstAbove : Option (Fin 16) := Fin.find? fun i => 109 < (table i).filled

/-- The first entry whose mask exceeds 109 is reported, and none if there is none. -/
def ReportsOperating (sec usec : U32) (surveydata : DataSurvey) : Prop :=
  ∃ report, dumpSurvey table sec usec surveydata = .ok report ∧
    report.entry = firstAbove table ∧
    ∀ i, firstAbove table = some i → ∃ centerFreq, (table i).channel = some centerFreq ∧
      report.surveydata = store (table i) centerFreq sec usec surveydata

/-- There is a first such entry, its number is even and its channel is known. -/
def EvenFirst : Prop :=
  ∃ i, firstAbove table = some i ∧ i.val % 2 = 0 ∧ (table i).channel ≠ none

end Property

section Loop

variable (table : Fin 16 → SurveyInfo)

/-- The entries asked for are even, and the last one is in `survey`. -/
theorem loop_entry (idx : Nat) (p : Probe) (heven : idx % 2 = 0)
    (hp : ∀ i, p.entry = some i → i.val % 2 = 0 ∧ p.survey = table i) :
    ∀ i, (surveyLoop table idx p).entry = some i →
      i.val % 2 = 0 ∧ (surveyLoop table idx p).survey = table i := by
  fun_induction surveyLoop table idx p with
  | case1 idx p h p' habove =>
    intro i hi
    obtain rfl := Option.some.inj hi
    exact ⟨heven, rfl⟩
  | case2 idx p h p' hbelow ih =>
    refine ih (by omega) fun i hi => ?_
    obtain rfl := Option.some.inj hi
    exact ⟨heven, rfl⟩
  | case3 idx p hend => exact hp

/-- An entry is asked for if the loop turns. -/
theorem loop_some (idx : Nat) (p : Probe) (h : idx < 16 ∨ p.entry ≠ none) :
    (surveyLoop table idx p).entry ≠ none := by
  fun_induction surveyLoop table idx p with
  | case1 idx p h p' habove => exact Option.some_ne_none _
  | case2 idx p h p' hbelow ih => exact ih (.inr (Option.some_ne_none _))
  | case3 idx p hend => exact h.resolve_left hend

variable {table} in
/-- The loop stops at an even entry above 109 if no entry before it is. -/
theorem loop_stops {i : Fin 16} (hi : i.val % 2 = 0) (habove : 109 < (table i).filled)
    (hbefore : ∀ j < i, ¬ 109 < (table j).filled) (idx : Nat) (p : Probe) (heven : idx % 2 = 0)
    (hle : idx ≤ i.val) : (surveyLoop table idx p).entry = some i := by
  fun_induction surveyLoop table idx p with
  | case1 idx p h p' hstop =>
    have heq : idx = i.val := by
      by_contra hne
      exact hbefore ⟨idx, h⟩ (Nat.lt_of_le_of_ne hle hne) hstop
    exact congrArg some (Fin.ext heq)
  | case2 idx p h p' hgo ih =>
    have hne : idx ≠ i.val := by
      rintro rfl
      exact hgo habove
    exact ih (by omega) (by omega)
  | case3 idx p hend => exact absurd (Nat.lt_of_le_of_lt hle i.isLt) hend

end Loop

/-- The operating channel is reported exactly if the first entry above 109 is an
even one with a channel. -/
theorem operating_channel_iff (table : Fin 16 → SurveyInfo) (sec usec : U32)
    (surveydata : DataSurvey) :
    ReportsOperating table sec usec surveydata ↔ EvenFirst table := by
  have hentry := loop_entry table 0 ⟨zeroSurvey, none⟩ rfl (by simp)
  constructor
  · rintro ⟨report, hrun, hfirst, hvalues⟩
    unfold dumpSurvey at hrun
    dsimp only at hrun
    split at hrun
    · cases hrun
    · obtain rfl := Except.ok.inj hrun
      have hsome := loop_some table 0 ⟨zeroSurvey, none⟩ (.inl (by decide))
      obtain ⟨i, hi⟩ := Option.ne_none_iff_exists'.mp hsome
      have habove : firstAbove table = some i := hfirst.symm.trans hi
      obtain ⟨centerFreq, hchannel, -⟩ := hvalues i habove
      exact ⟨i, habove, (hentry i hi).1, hchannel ▸ Option.some_ne_none _⟩
  · rintro ⟨i, habove, heven, hchannel⟩
    have hfind := habove
    rw [firstAbove, Fin.find?_eq_some_iff] at hfind
    obtain ⟨himask, hbefore⟩ := hfind
    have hi := loop_stops heven (of_decide_eq_true himask)
      (fun j hj => of_decide_eq_false (hbefore j hj)) 0 ⟨zeroSurvey, none⟩ rfl (Nat.zero_le _)
    obtain ⟨centerFreq, hfreq⟩ := Option.ne_none_iff_exists'.mp hchannel
    have hsurvey := (hentry i hi).2
    refine ⟨⟨store (table i) centerFreq sec usec surveydata, some i⟩, ?_, habove.symm, ?_⟩
    · unfold dumpSurvey
      simp only [hsurvey, hfreq, hi]
    · intro j hj
      obtain rfl := Option.some.inj (habove.symm.trans hj)
      exact ⟨centerFreq, hfreq, rfl⟩

/-- A radio whose entry 1 is in use, on channel 6. -/
def secondInUse (i : Fin 16) : SurveyInfo :=
  { zeroSurvey with
    channel := some (if i = 1 then 2437 else 2412)
    filled := if i = 1 then 127 else 1 }

/-- An entry that no turn asks for is the operating channel's. -/
theorem odd_entry_missed : ¬ ∀ table sec usec surveydata,
    ReportsOperating table sec usec surveydata := by
  intro h
  obtain ⟨i, habove, heven, -⟩ := (operating_channel_iff _ _ _ _).mp
    (h secondInUse 0 0 ⟨0, 0, 0, 0, 0, 0, 0, 0, 0, 0, 0, 0⟩)
  obtain rfl : i = 1 := by
    have hone : firstAbove secondInUse = some 1 := by decide
    exact Option.some.inj (habove.symm.trans hone)
  exact absurd heven (by decide)

end ApTelemetry.Status
