import Mathlib.Tactic.Linarith
import McAdmin.BackupProfiles
import McAdmin.IntText
import McAdmin.Ticks

/-!
# The schedule of a profile

The form checks the time of day with `isdigit` and reads it with `int`; the scheduler reads the
same text again at every tick.  A profile runs once a date, or once an interval.
-/

namespace ProfileSchedule

open Backtracking (Text)
open BackupProfiles (BackupProfile DailyAt Due Time)
open IntText

/-! ### Profiles as they are stored -/

/-- A `float`. -/
inductive Hours where
  | finite (hours : ℚ)
  | infinite (negative : Bool)
  | notANumber
deriving DecidableEq

def Hours.positive : Hours → Bool
  | .finite hours => 0 < hours
  | .infinite negative => !negative
  -- `nan <= 0` is false
  | .notANumber => true

/-- `(now - last_run).total_seconds() >= hours * 3600` -/
def Hours.passed (elapsed : ℤ) : Hours → Bool
  | .finite hours => hours * 3600 * 1000000 ≤ (elapsed : ℚ)
  | .infinite negative => negative
  | .notANumber => false

/-- A `datetime`, in microseconds: of UTC, or without a zone. -/
structure Stamp where
  time : Time
  aware : Bool
deriving DecidableEq

structure LocalTime where
  offset : Time → ℤ
  /-- `astimezone().date()`, `none` where it raises, at an edge of the calendar. -/
  dateOf : Stamp → Option ℤ

/-- A zone that keeps its offset, away from the edges of the calendar. -/
def LocalTime.fixed (offset : ℤ) : LocalTime where
  offset _ := offset
  dateOf stamp := some (Ticks.date (if stamp.aware then stamp.time + offset else stamp.time))

structure Profile where
  id : String
  hours : Hours := .finite 0
  dailyAt : Option Text := none
  enabled : Bool := true
  lastRun : Option Stamp := none
deriving DecidableEq

/-! ### The form -/

inductive InvalidGameValue where
  /-- `heure invalide : …` -/
  | time (dailyAt : Text)
  /-- `intervalle invalide : …` -/
  | interval (hours : Hours)
deriving DecidableEq

inductive Raised where
  | invalidGameValue (error : InvalidGameValue)
  | valueError
deriving DecidableEq

def profileHoursAllowed : List Hours :=
  [.finite 0, .finite 6, .finite 12, .finite 24, .finite 48]

/-- `if daily_at` -/
def given (dailyAt : Option Text) : Option Text := if dailyAt = some [] then none else dailyAt

section

variable (u : DigitTable)

/-- `0 <= int(parts[0]) < 24 and 0 <= int(parts[1]) < 60`, the second part only after the first;
`none` where `int` raises. -/
def timeInRange (hour minute : Text) : Option Bool :=
  match int u hour with
  | none => none
  | some h =>
    if 0 ≤ h ∧ h < 24 then
      match int u minute with
      | none => none
      | some m => some (decide (0 ≤ m ∧ m < 60))
    else some false

def validateDailyAt (dailyAt : Text) : Except Raised (Hours × Option Text) :=
  let dailyAt := u.strip dailyAt
  match dailyAt.splitOn ':' with
  | [hour, minute] =>
    if isdigit u hour ∧ isdigit u minute then
      match timeInRange u hour minute with
      | none => .error .valueError
      | some true => .ok (.finite 0, some dailyAt)
      | some false => .error (.invalidGameValue (.time dailyAt))
    else .error (.invalidGameValue (.time dailyAt))
  | _ => .error (.invalidGameValue (.time dailyAt))

def validateProfileSchedule (hours : Hours) (dailyAt : Option Text) :
    Except Raised (Hours × Option Text) :=
  match given dailyAt with
  | some dailyAt => validateDailyAt u dailyAt
  | none =>
    if hours ∈ profileHoursAllowed then .ok (hours, none)
    else .error (.invalidGameValue (.interval hours))

/-! ### The scheduler -/

/-- `hour, minute = (int(part) for part in daily_at.split(":"))` -/
def readDailyAt (dailyAt : Text) : Option (ℤ × ℤ) :=
  match dailyAt.splitOn ':' with
  | [hour, minute] =>
    match int u hour, int u minute with
    | some h, some m => some (h, m)
    | _, _ => none
  | _ => none

variable (zone : LocalTime)

def localNow (now : Time) : ℤ := now + zone.offset now

/-- The comparison with the time of day, on the local clock. -/
def timeReached (dailyAt : Text) (now : Time) : Due :=
  match readDailyAt u dailyAt with
  | none => .raises
  | some (hour, minute) =>
    if 0 ≤ hour ∧ hour < 24 ∧ 0 ≤ minute ∧ minute < 60 then
      if (hour * 60 + minute) * 60000000 ≤ localNow zone now % Ticks.day then .yes else .no
    else .raises

def dailyDue (dailyAt : Text) (lastRun : Option Stamp) (now : Time) : Due :=
  match lastRun with
  | none => timeReached u zone dailyAt now
  | some lastRun =>
    match zone.dateOf lastRun with
    | none => .raises
    | some date =>
      if date = Ticks.date (localNow zone now) then .no else timeReached u zone dailyAt now

def intervalDue (hours : Hours) (lastRun : Option Stamp) (now : Time) : Due :=
  if hours.positive then
    match lastRun with
    | none => .starts
    | some lastRun =>
      if lastRun.aware then if hours.passed (now - lastRun.time) then .yes else .no
      -- a time with a zone minus one without is a `TypeError`
      else .raises
  else .no

/-- `_profile_due`; where it answers `starts` it has marked the profile and says no. -/
def profileDue (profile : Profile) (now : Time) : Due :=
  match given profile.dailyAt with
  | some dailyAt => dailyDue u zone dailyAt profile.lastRun now
  | none => intervalDue profile.hours profile.lastRun now

/-- `mark_run` -/
def Profile.mark (profile : Profile) (now : Time) : Profile :=
  { profile with lastRun := some ⟨now, true⟩ }

/-- What a tick makes of an enabled profile, and whether it is attempted. -/
def visit (profile : Profile) (now : Time) : Profile × Bool :=
  match profileDue u zone profile now with
  | .yes => (profile.mark now, true)
  | .starts => (profile.mark now, false)
  | .no | .raises => (profile, false)

def after (profile : Profile) (ticks : List Time) : Profile :=
  ticks.foldl (fun profile now => (visit u zone profile now).1) profile

def attempts : Profile → List Time → List Time
  | _, [] => []
  | profile, now :: ticks =>
    if (visit u zone profile now).2 then now :: attempts (visit u zone profile now).1 ticks
    else attempts (visit u zone profile now).1 ticks

/-! ### What is promised -/

/-- The form gives a text that the scheduler reads as that time of day, or refuses it. -/
def CleanlyValidated (hours : Hours) (dailyAt : Text) : Prop :=
  (∃ error, validateProfileSchedule u hours (some dailyAt) = .error (.invalidGameValue error)) ∨
    (∃ hours', validateProfileSchedule u hours (some dailyAt) = .ok (hours', none)) ∨
    ∃ text hour minute, validateProfileSchedule u hours (some dailyAt) =
        .ok (.finite 0, some text) ∧
      text ≠ [] ∧ readDailyAt u text = some (hour, minute) ∧
      0 ≤ hour ∧ hour < 24 ∧ 0 ≤ minute ∧ minute < 60

/-- A part in digits that `int` reads. -/
def Legible (part : Text) : Prop := part.all u.isDecimal = true ∧ part.length ≤ maxStrDigits

/-- Where a text is of two parts in digits, the first is legible, and so is the second if the
first is an hour. -/
def LegibleTime (dailyAt : Text) : Prop :=
  ∀ hour minute, (u.strip dailyAt).splitOn ':' = [hour, minute] → isdigit u hour = true →
    isdigit u minute = true →
    Legible u hour ∧ (number (hour.map u.value) < 24 → Legible u minute)

/-- At most once a date, and exactly once on each date that has a tick at or after the time,
the date of a run before these ticks excepted. -/
structure OnceADate (hour minute : ℤ) (profile : Profile) (ticks : List Time) : Prop where
  atMost : ∀ date, ((attempts u zone profile ticks).filter
    fun t => Ticks.date (localNow zone t) = date).length ≤ 1
  exactly : ∀ t ∈ ticks, (hour * 60 + minute) * 60000000 ≤ localNow zone t % Ticks.day →
    (∀ lastRun ∈ profile.lastRun,
      zone.dateOf lastRun ≠ some (Ticks.date (localNow zone t))) →
    ((attempts u zone profile ticks).filter
      fun s => Ticks.date (localNow zone s) = Ticks.date (localNow zone t)).length = 1

/-- Attempts are an interval apart, and a tick an interval after the last run is one. -/
structure OncePerInterval (hours : ℚ) (profile : Profile) (ticks : List Time) : Prop where
  apart : (attempts u zone profile ticks).Pairwise
    fun s t => hours * 3600 * 1000000 ≤ ((t - s : ℤ) : ℚ)
  due : ∀ before now rest, ticks = before ++ now :: rest →
    ∀ lastRun, (after u zone profile before).lastRun = some ⟨lastRun, true⟩ →
      hours * 3600 * 1000000 ≤ ((now - lastRun : ℤ) : ℚ) →
      (visit u zone (after u zone profile before) now).2 = true

end

/-! ### The form and the scheduler read alike -/

section

variable {u : DigitTable} {hours : Hours} {dailyAt text hour minute : Text}

theorem int_of_legible (hdigits : isdigit u text = true) (h : Legible u text) :
    int u text = some (number (text.map u.value)) := by
  rw [int_of_isdigit hdigits]
  exact if_pos h

theorem int_of_not_legible (hdigits : isdigit u text = true) (h : ¬ Legible u text) :
    int u text = none := by
  rw [int_of_isdigit hdigits]
  exact if_neg h

theorem timeInRange_eq_none (hhour : isdigit u hour = true) (hminute : isdigit u minute = true) :
    timeInRange u hour minute = none ↔
      ¬ (Legible u hour ∧ (number (hour.map u.value) < 24 → Legible u minute)) := by
  unfold timeInRange
  by_cases hlegible : Legible u hour
  · have hnonneg := number_nonneg (hour.map u.value)
    rw [int_of_legible hhour hlegible]
    by_cases hrange : number (hour.map u.value) < 24
    · simp only [hnonneg, hrange, and_self, if_true]
      by_cases hminute' : Legible u minute
      · simp [int_of_legible hminute hminute', hlegible, hminute']
      · simp [int_of_not_legible hminute hminute', hlegible, hminute']
    · simp [hrange, hlegible]
  · simp [int_of_not_legible hhour hlegible, hlegible]

theorem timeInRange_eq_true (h : timeInRange u hour minute = some true) :
    ∃ h m, int u hour = some h ∧ int u minute = some m ∧ 0 ≤ h ∧ h < 24 ∧ 0 ≤ m ∧ m < 60 := by
  unfold timeInRange at h
  cases hhour : int u hour with
  | none => simp [hhour] at h
  | some n =>
    rw [hhour] at h
    by_cases hrange : 0 ≤ n ∧ n < 24
    · cases hminute : int u minute with
      | none => simp [hrange, hminute] at h
      | some m =>
        simp only [hrange, hminute, and_self, if_true, Option.some.injEq,
          decide_eq_true_eq] at h
        exact ⟨n, m, rfl, rfl, hrange.1, hrange.2, h.1, h.2⟩
    · simp [hrange] at h

theorem validateDailyAt_ok {hours' : Hours}
    (h : validateDailyAt u dailyAt = .ok (hours', some text)) :
    hours' = .finite 0 ∧ text ≠ [] ∧ ∃ hour minute, readDailyAt u text = some (hour, minute) ∧
      0 ≤ hour ∧ hour < 24 ∧ 0 ≤ minute ∧ minute < 60 := by
  simp only [validateDailyAt] at h
  split at h
  case h_1 hour minute hparts =>
    split at h
    · split at h
      · cases h
      case h_2 hrange =>
        cases h
        rcases timeInRange_eq_true hrange with ⟨n, m, hhour, hminute, hbounds⟩
        refine ⟨rfl, ?_, n, m, ?_, hbounds⟩
        · intro hnil
          rw [hnil] at hparts
          simp at hparts
        · rw [readDailyAt, hparts]
          simp only [hhour, hminute]
      · cases h
    · cases h
  · cases h

theorem validateDailyAt_error :
    validateDailyAt u dailyAt = .error .valueError ↔ ¬ LegibleTime u dailyAt := by
  simp only [validateDailyAt, LegibleTime]
  split
  case h_1 hour minute hparts =>
    by_cases hdigits : isdigit u hour = true ∧ isdigit u minute = true
    · have hraises := timeInRange_eq_none hdigits.1 hdigits.2
      rw [if_pos hdigits]
      constructor
      · intro h hlegible
        split at h
        case h_1 hnone => exact hraises.mp hnone (hlegible hour minute hparts hdigits.1 hdigits.2)
        all_goals cases h
      · intro h
        have hnone : timeInRange u hour minute = none := by
          rw [hraises]
          intro hlegible
          refine h fun hour' minute' hparts' _ _ => ?_
          rw [hparts, List.cons.injEq, List.cons.injEq] at hparts'
          rw [← hparts'.1, ← hparts'.2.1]
          exact hlegible
        rw [hnone]
    · rw [if_neg hdigits]
      refine iff_of_false (by simp) fun h => h fun hour' minute' hparts' hhour hminute => ?_
      rw [hparts, List.cons.injEq, List.cons.injEq] at hparts'
      rw [← hparts'.1] at hhour
      rw [← hparts'.2.1] at hminute
      exact absurd ⟨hhour, hminute⟩ hdigits
  case h_2 hparts =>
    refine iff_of_false (by simp) fun h => h fun hour minute hparts' _ _ => ?_
    exact absurd hparts' (hparts hour minute)

theorem cleanlyValidated_iff (u : DigitTable) (hours : Hours) (dailyAt : Text) :
    CleanlyValidated u hours dailyAt ↔ LegibleTime u dailyAt := by
  by_cases hnil : dailyAt = []
  · have hlegible : LegibleTime u dailyAt := by
      intro hour minute hparts
      rw [hnil] at hparts
      simp [Backtracking.CharTable.strip] at hparts
    refine iff_of_true ?_ hlegible
    rw [hnil]
    by_cases hallowed : hours ∈ profileHoursAllowed
    · exact .inr (.inl ⟨hours, by simp [validateProfileSchedule, given, hallowed]⟩)
    · exact .inl ⟨.interval hours, by simp [validateProfileSchedule, given, hallowed]⟩
  have hvalidate : validateProfileSchedule u hours (some dailyAt) = validateDailyAt u dailyAt := by
    simp [validateProfileSchedule, given, hnil]
  unfold CleanlyValidated
  rw [hvalidate, ← not_iff_not, ← validateDailyAt_error]
  constructor
  · intro hunclean
    rcases hresult : validateDailyAt u dailyAt with error | ⟨hours', text⟩
    · cases error with
      | invalidGameValue error => exact absurd (.inl ⟨error, hresult⟩) hunclean
      | valueError => rfl
    · exfalso
      cases text with
      | none => exact hunclean (.inr (.inl ⟨hours', hresult⟩))
      | some text =>
        rcases validateDailyAt_ok hresult with ⟨hzero, hne, hour, minute, hread⟩
        exact hunclean (.inr (.inr ⟨text, hour, minute, hzero ▸ hresult, hne, hread⟩))
  · intro herror
    rw [herror]
    rintro (⟨error, h⟩ | ⟨hours', h⟩ | ⟨text, hour, minute, h, _⟩)
    all_goals cases h

end

/-! ### The schedule that the backups run by -/

/-- A time of day as `hour, minute = ...` reads it. -/
def toDailyAt (u : DigitTable) (dailyAt : Text) : DailyAt :=
  match readDailyAt u dailyAt with
  | none => .unreadable
  | some (hour, minute) =>
    if 0 ≤ hour ∧ 0 ≤ minute then .at hour.toNat minute.toNat else .unreadable

structure Parsed (u : DigitTable) (profile : Profile) (p : BackupProfile) : Prop where
  dailyAt : p.dailyAt = (given profile.dailyAt).map (toDailyAt u)
  hours : profile.hours = .finite p.hours
  lastRun : profile.lastRun = p.lastRun.map (⟨·, true⟩)

section

variable {u : DigitTable} {profile : Profile} {p : BackupProfile} {site : BackupProfiles.Site}
  {offset : ℤ}

theorem intervalDue_parsed (h : Parsed u profile p) (hnone : p.dailyAt = none) (now : ℤ) :
    intervalDue profile.hours profile.lastRun now = BackupProfiles.profileDue site p now := by
  have hpositive : (Hours.finite p.hours).positive = true ↔ ¬ p.hours ≤ 0 :=
    decide_eq_true_iff.trans not_le.symm
  unfold intervalDue BackupProfiles.profileDue
  simp only [h.hours, h.lastRun, hnone]
  by_cases hzero : p.hours ≤ 0
  · rw [if_pos hzero, if_neg fun hyes => hpositive.mp hyes hzero]
  · rw [if_neg hzero, if_pos (hpositive.mpr hzero)]
    cases p.lastRun with
    | none => rfl
    | some lastRun =>
      have hpassed : (Hours.finite p.hours).passed (now - lastRun) = true ↔
          p.hours * 3600 * 1000000 ≤ ((now - lastRun : ℤ) : ℚ) := decide_eq_true_iff
      simp only [Option.map_some, if_true, hpassed]

theorem timeReached_parsed (hsite : ∀ t, site.zone t = offset) {dailyAt : Text}
    (hdaily : p.dailyAt = some (toDailyAt u dailyAt)) {now : ℤ}
    (hdate : p.lastRun.map site.date ≠ some (site.date now)) :
    timeReached u (.fixed offset) dailyAt now = BackupProfiles.profileDue site p now := by
  have hlocal : site.localTime now = localNow (.fixed offset) now := by
    rw [BackupProfiles.Site.localTime, hsite]
    rfl
  unfold BackupProfiles.profileDue timeReached
  simp only [hdaily, toDailyAt]
  rw [if_neg hdate]
  cases hread : readDailyAt u dailyAt with
  | none => rfl
  | some read =>
    rcases read with ⟨hour, minute⟩
    by_cases hnonneg : 0 ≤ hour ∧ 0 ≤ minute
    · have hrange : hour.toNat < 24 ∧ minute.toNat < 60 ↔
          0 ≤ hour ∧ hour < 24 ∧ 0 ≤ minute ∧ minute < 60 := by omega
      have hhour : (hour.toNat : ℤ) = hour := Int.toNat_of_nonneg hnonneg.1
      have hminute : (minute.toNat : ℤ) = minute := Int.toNat_of_nonneg hnonneg.2
      simp only [if_pos hnonneg, hrange, hhour, hminute, hlocal]
      rfl
    · simp only [if_neg hnonneg]
      exact if_neg fun hrange => hnonneg ⟨hrange.1, hrange.2.2.1⟩

theorem profileDue_parsed (h : Parsed u profile p) (hsite : ∀ t, site.zone t = offset)
    (now : ℤ) :
    profileDue u (.fixed offset) profile now = BackupProfiles.profileDue site p now := by
  have hdateOf : ∀ t, site.date t = Ticks.date (t + offset) := by
    intro t
    rw [BackupProfiles.Site.date, BackupProfiles.Site.localTime, hsite]
    rfl
  have hdaily := h.dailyAt
  unfold profileDue
  cases hgiven : given profile.dailyAt with
  | none =>
    rw [hgiven] at hdaily
    exact intervalDue_parsed h hdaily now
  | some dailyAt =>
    rw [hgiven] at hdaily
    by_cases hdate : p.lastRun.map site.date = some (site.date now)
    · rcases Option.map_eq_some_iff.mp hdate with ⟨lastRun, hlast, heq⟩
      rw [hdateOf, hdateOf] at heq
      have hno : BackupProfiles.profileDue site p now = .no := by
        unfold BackupProfiles.profileDue
        simp only [hdaily, Option.map_some]
        exact if_pos hdate
      rw [hno, h.lastRun, hlast]
      exact if_pos heq
    · rw [← timeReached_parsed hsite hdaily hdate, h.lastRun]
      cases hlast : p.lastRun with
      | none => rfl
      | some lastRun =>
        refine if_neg fun heq => hdate ?_
        rw [hlast, Option.map_some, hdateOf, hdateOf]
        exact congrArg some heq

end

/-! ### Daily profiles -/

section

variable {u : DigitTable} {zone : LocalTime} {offset hour minute now t : ℤ} {profile : Profile}
  {lastRun : Option ℤ} {ticks : List ℤ}

def ranAt (lastRun : Option ℤ) : Option Stamp := lastRun.map (⟨·, true⟩)

def localDate (offset t : ℤ) : ℤ := Ticks.date (t + offset)

theorem localDate_mono (offset : ℤ) {s t : ℤ} (h : s ≤ t) :
    localDate offset s ≤ localDate offset t := by
  refine Ticks.date_mono ?_
  omega

def Reached (offset hour minute t : ℤ) : Prop :=
  (hour * 60 + minute) * 60000000 ≤ (t + offset) % Ticks.day

structure Daily (u : DigitTable) (hour minute : ℤ) (profile : Profile) : Prop where
  text : ∃ text ≠ [], profile.dailyAt = some text ∧ readDailyAt u text = some (hour, minute)
  range : 0 ≤ hour ∧ hour < 24 ∧ 0 ≤ minute ∧ minute < 60

theorem Daily.mark (h : Daily u hour minute profile) (now : Time) :
    Daily u hour minute (profile.mark now) := ⟨h.text, h.range⟩

theorem visit_of_yes (h : profileDue u zone profile now = .yes) :
    visit u zone profile now = (profile.mark now, true) := by
  rw [visit, h]

theorem visit_of_no (h : profileDue u zone profile now = .no) :
    visit u zone profile now = (profile, false) := by
  rw [visit, h]

theorem Daily.profileDue_eq (h : Daily u hour minute profile) (zone : LocalTime) (now : ℤ) :
    ∃ text, profileDue u zone profile now = dailyDue u zone text profile.lastRun now ∧
      timeReached u zone text now =
        if (hour * 60 + minute) * 60000000 ≤ localNow zone now % Ticks.day then .yes else .no := by
  rcases h.text with ⟨text, hne, hdaily, hread⟩
  have hgiven : given profile.dailyAt = some text := by
    rw [hdaily, given, if_neg fun heq => hne (Option.some.inj heq)]
  refine ⟨text, ?_, ?_⟩
  · unfold profileDue
    simp only [hgiven]
  · unfold timeReached
    simp only [hread]
    rw [if_pos h.range]

theorem Daily.visit_cases (h : Daily u hour minute profile)
    (hlast : profile.lastRun = ranAt lastRun) (now : ℤ) :
    (visit u (.fixed offset) profile now = (profile.mark now, true) ∧
      ∀ t ∈ lastRun, localDate offset t ≠ localDate offset now) ∨
    (visit u (.fixed offset) profile now = (profile, false) ∧
      (Reached offset hour minute now →
        ∃ t ∈ lastRun, localDate offset t = localDate offset now)) := by
  rcases h.profileDue_eq (.fixed offset) now with ⟨text, hdue, htime⟩
  rw [hlast] at hdue
  by_cases hran : ∃ t ∈ lastRun, localDate offset t = localDate offset now
  · rcases hran with ⟨t, ht, hdate⟩
    rw [Option.mem_def] at ht
    refine .inr ⟨visit_of_no (hdue.trans ?_), fun _ => ⟨t, ht, hdate⟩⟩
    rw [ht]
    exact if_pos hdate
  · have hdate : ∀ t ∈ lastRun, localDate offset t ≠ localDate offset now :=
      fun t ht heq => hran ⟨t, ht, heq⟩
    have hreach : profileDue u (.fixed offset) profile now =
        timeReached u (.fixed offset) text now := by
      rw [hdue]
      cases lastRun with
      | none => rfl
      | some t => exact if_neg (hdate t rfl)
    by_cases hreached : Reached offset hour minute now
    · exact .inl ⟨visit_of_yes (hreach.trans (htime.trans (if_pos hreached))), hdate⟩
    · exact .inr ⟨visit_of_no (hreach.trans (htime.trans (if_neg hreached))),
        fun h => absurd h hreached⟩

theorem attempts_cons (u : DigitTable) (zone : LocalTime) (profile : Profile) (now : ℤ)
    (ticks : List ℤ) :
    attempts u zone profile (now :: ticks) =
      if (visit u zone profile now).2 then
        now :: attempts u zone (visit u zone profile now).1 ticks
      else attempts u zone (visit u zone profile now).1 ticks := rfl

theorem Daily.attempts_dates (h : Daily u hour minute profile)
    (hlast : profile.lastRun = ranAt lastRun)
    (hforward : (lastRun.toList ++ ticks).Pairwise (· ≤ ·)) :
    (attempts u (.fixed offset) profile ticks).Pairwise
        (fun s t => localDate offset s < localDate offset t) ∧
      ∀ t ∈ attempts u (.fixed offset) profile ticks, t ∈ ticks ∧
        ∀ r ∈ lastRun, localDate offset r < localDate offset t := by
  induction ticks generalizing profile lastRun with
  | nil =>
    refine ⟨List.Pairwise.nil, ?_⟩
    intro t ht
    cases ht
  | cons now ticks ih =>
    rw [attempts_cons]
    rcases List.pairwise_append.mp hforward with ⟨hfirst, hticks, hbefore⟩
    rcases h.visit_cases hlast now with ⟨hvisit, hdates⟩ | ⟨hvisit, _⟩
    · rw [hvisit, if_pos rfl]
      have hmarked : (profile.mark now).lastRun = ranAt (some now) := rfl
      rcases ih (h.mark now) hmarked hticks with ⟨hpairs, hall⟩
      have hnow : ∀ r ∈ lastRun, localDate offset r < localDate offset now := by
        intro r hr
        have hle := hbefore r (Option.mem_toList.mpr hr) now List.mem_cons_self
        exact lt_of_le_of_ne (localDate_mono offset hle) (hdates r hr)
      refine ⟨List.pairwise_cons.mpr ⟨fun t ht => (hall t ht).2 now rfl, hpairs⟩, ?_⟩
      refine List.forall_mem_cons.mpr ⟨⟨List.mem_cons_self, hnow⟩, ?_⟩
      intro t ht
      refine ⟨List.mem_cons_of_mem _ (hall t ht).1, fun r hr => ?_⟩
      exact (hnow r hr).trans ((hall t ht).2 now rfl)
    · rw [hvisit, if_neg Bool.false_ne_true]
      have hrest : (lastRun.toList ++ ticks).Pairwise (· ≤ ·) :=
        hforward.sublist ((List.sublist_cons_self now ticks).append_left _)
      rcases ih h hlast hrest with ⟨hpairs, hall⟩
      exact ⟨hpairs, fun t ht => ⟨List.mem_cons_of_mem _ (hall t ht).1, (hall t ht).2⟩⟩

theorem Daily.exists_attempt (h : Daily u hour minute profile)
    (hlast : profile.lastRun = ranAt lastRun) (ht : t ∈ ticks)
    (hreached : Reached offset hour minute t)
    (hdate : ∀ r ∈ lastRun, localDate offset r ≠ localDate offset t) :
    ∃ s ∈ attempts u (.fixed offset) profile ticks, localDate offset s = localDate offset t := by
  induction ticks generalizing profile lastRun with
  | nil => cases ht
  | cons now ticks ih =>
    rw [attempts_cons]
    rcases h.visit_cases hlast now with ⟨hvisit, _⟩ | ⟨hvisit, hran⟩
    · rw [hvisit, if_pos rfl]
      by_cases hnow : localDate offset now = localDate offset t
      · exact ⟨now, List.mem_cons_self, hnow⟩
      · rcases List.mem_cons.mp ht with rfl | ht
        · exact absurd rfl hnow
        have hother : ∀ r ∈ some now, localDate offset r ≠ localDate offset t := by
          intro r hr
          cases hr
          exact hnow
        have hmarked : (profile.mark now).lastRun = ranAt (some now) := rfl
        rcases ih (h.mark now) hmarked ht hother with ⟨s, hs, heq⟩
        exact ⟨s, List.mem_cons_of_mem _ hs, heq⟩
    · rw [hvisit, if_neg Bool.false_ne_true]
      rcases List.mem_cons.mp ht with rfl | ht
      · rcases hran hreached with ⟨r, hr, heq⟩
        exact absurd heq (hdate r hr)
      · exact ih h hlast ht hdate

theorem length_filter_date {l : List ℤ}
    (h : l.Pairwise fun s t => localDate offset s < localDate offset t) (date : ℤ) :
    (l.filter fun t => Ticks.date (localNow (.fixed offset) t) = date).length ≤ 1 := by
  have hfiltered := h.filter fun t => Ticks.date (localNow (.fixed offset) t) = date
  have hdate : ∀ t ∈ l.filter fun t => Ticks.date (localNow (.fixed offset) t) = date,
      localDate offset t = date := fun t ht => of_decide_eq_true (List.mem_filter.mp ht).2
  generalize l.filter (fun t => Ticks.date (localNow (.fixed offset) t) = date) = found at *
  rcases found with _ | ⟨s, _ | ⟨t, found⟩⟩
  · exact Nat.zero_le _
  · exact le_rfl
  · have hlt := (List.pairwise_cons.mp hfiltered).1 t List.mem_cons_self
    rw [hdate s List.mem_cons_self, hdate t (List.mem_cons_of_mem _ List.mem_cons_self)] at hlt
    exact absurd hlt (lt_irrefl _)

theorem Daily.onceADate (h : Daily u hour minute profile)
    (hlast : profile.lastRun = ranAt lastRun)
    (hforward : (lastRun.toList ++ ticks).Pairwise (· ≤ ·)) :
    OnceADate u (.fixed offset) hour minute profile ticks := by
  have hdates : (attempts u (.fixed offset) profile ticks).Pairwise
      fun s t => localDate offset s < localDate offset t :=
    (h.attempts_dates hlast hforward).1
  refine ⟨length_filter_date hdates, ?_⟩
  intro t ht hreached hother
  have hdate : ∀ r ∈ lastRun, localDate offset r ≠ localDate offset t := by
    intro r hr heq
    rw [Option.mem_def] at hr
    rw [hr] at hlast
    exact hother _ hlast (congrArg some heq)
  rcases h.exists_attempt hlast ht hreached hdate with ⟨s, hs, heq⟩
  refine Nat.le_antisymm (length_filter_date hdates _) ?_
  exact List.length_pos_of_mem (List.mem_filter.mpr ⟨hs, decide_eq_true heq⟩)

/-! ### Interval profiles -/

structure Periodic (hours : ℚ) (profile : Profile) : Prop where
  dailyAt : given profile.dailyAt = none
  interval : profile.hours = .finite hours
  positive : 0 < hours

variable {hours : ℚ}

theorem Periodic.mark (h : Periodic hours profile) (now : ℤ) :
    Periodic hours (profile.mark now) := ⟨h.dailyAt, h.interval, h.positive⟩

theorem Periodic.profileDue_eq (h : Periodic hours profile) (u : DigitTable) (zone : LocalTime)
    (now : ℤ) : profileDue u zone profile now =
      intervalDue (.finite hours) profile.lastRun now := by
  unfold profileDue
  simp only [h.dailyAt, h.interval]

theorem Periodic.visit_cases (h : Periodic hours profile)
    (hlast : profile.lastRun = ranAt lastRun) (u : DigitTable) (zone : LocalTime) (now : ℤ) :
    (lastRun = none ∧ visit u zone profile now = (profile.mark now, false)) ∨
    (∃ r, lastRun = some r ∧ hours * 3600 * 1000000 ≤ ((now - r : ℤ) : ℚ) ∧
      visit u zone profile now = (profile.mark now, true)) ∨
    (∃ r, lastRun = some r ∧ ¬ hours * 3600 * 1000000 ≤ ((now - r : ℤ) : ℚ) ∧
      visit u zone profile now = (profile, false)) := by
  have hpositive : (Hours.finite hours).positive = true := decide_eq_true h.positive
  have hdue := h.profileDue_eq u zone now
  rw [hlast] at hdue
  unfold intervalDue at hdue
  rw [if_pos hpositive] at hdue
  cases lastRun with
  | none =>
    refine .inl ⟨rfl, ?_⟩
    rw [visit, hdue]
    rfl
  | some r =>
    by_cases hpassed : hours * 3600 * 1000000 ≤ ((now - r : ℤ) : ℚ)
    · refine .inr (.inl ⟨r, rfl, hpassed, visit_of_yes (hdue.trans ?_)⟩)
      exact if_pos (decide_eq_true hpassed)
    · refine .inr (.inr ⟨r, rfl, hpassed, visit_of_no (hdue.trans ?_)⟩)
      exact if_neg fun hyes => hpassed (of_decide_eq_true hyes)

theorem Periodic.attempts_apart (h : Periodic hours profile)
    (hlast : profile.lastRun = ranAt lastRun) (ticks : List ℤ) :
    (attempts u zone profile ticks).Pairwise
        (fun s t => hours * 3600 * 1000000 ≤ ((t - s : ℤ) : ℚ)) ∧
      ∀ t ∈ attempts u zone profile ticks, ∀ r ∈ lastRun,
        hours * 3600 * 1000000 ≤ ((t - r : ℤ) : ℚ) := by
  induction ticks generalizing profile lastRun with
  | nil =>
    refine ⟨List.Pairwise.nil, ?_⟩
    intro t ht
    cases ht
  | cons now ticks ih =>
    have hmarked : (profile.mark now).lastRun = ranAt (some now) := rfl
    rcases ih (h.mark now) hmarked with ⟨hpairs, hall⟩
    rw [attempts_cons]
    rcases h.visit_cases hlast u zone now with
      ⟨hnone, hvisit⟩ | ⟨r, hr, hpassed, hvisit⟩ | ⟨r, hr, _, hvisit⟩
    · rw [hvisit, if_neg Bool.false_ne_true, hnone]
      refine ⟨hpairs, ?_⟩
      intro t _ r hr
      cases hr
    · rw [hvisit, if_pos rfl, hr]
      refine ⟨List.pairwise_cons.mpr ⟨fun t ht => hall t ht now rfl, hpairs⟩, ?_⟩
      have hpositive := h.positive
      intro t ht r' hr'
      cases hr'
      rcases List.mem_cons.mp ht with rfl | ht
      · exact hpassed
      · have hnext := hall t ht now rfl
        push_cast at hnext hpassed ⊢
        linarith
    · rw [hvisit, if_neg Bool.false_ne_true]
      exact ih h hlast

theorem Periodic.after (h : Periodic hours profile) (hlast : profile.lastRun = ranAt lastRun)
    (u : DigitTable) (zone : LocalTime) (ticks : List ℤ) :
    Periodic hours (after u zone profile ticks) ∧
      ∃ lastRun, (ProfileSchedule.after u zone profile ticks).lastRun = ranAt lastRun := by
  induction ticks generalizing profile lastRun with
  | nil => exact ⟨h, lastRun, hlast⟩
  | cons now ticks ih =>
    rw [ProfileSchedule.after, List.foldl_cons]
    have hmarked : (profile.mark now).lastRun = ranAt (some now) := rfl
    rcases h.visit_cases hlast u zone now with
      ⟨_, hvisit⟩ | ⟨_, _, _, hvisit⟩ | ⟨_, _, _, hvisit⟩
    · rw [hvisit]
      exact ih (h.mark now) hmarked
    · rw [hvisit]
      exact ih (h.mark now) hmarked
    · rw [hvisit]
      exact ih h hlast

theorem Periodic.oncePerInterval (h : Periodic hours profile)
    (hlast : profile.lastRun = ranAt lastRun) (u : DigitTable) (zone : LocalTime)
    (ticks : List ℤ) : OncePerInterval u zone hours profile ticks := by
  refine ⟨(h.attempts_apart hlast ticks).1, ?_⟩
  intro before now rest _ r hr hpassed
  rcases h.after hlast u zone before with ⟨hafter, lastRun', hlast'⟩
  have hrun : lastRun' = some r := by
    rw [hlast'] at hr
    cases lastRun' with
    | none => cases hr
    | some r' =>
      cases hr
      rfl
  rcases hafter.visit_cases hlast' u zone now with
    ⟨hnone, _⟩ | ⟨_, _, _, hvisit⟩ | ⟨r', hr', hearly, _⟩
  · rw [hrun] at hnone
    cases hnone
  · rw [hvisit]
  · rw [hrun] at hr'
    cases hr'
    exact absurd hpassed hearly

end

/-- The form is clean exactly on the texts whose numbers are legible; what it accepts runs once a
date under a clock that does not go back, and an interval profile once an interval. -/
theorem profile_schedule (u : DigitTable) :
    (∀ hours dailyAt, CleanlyValidated u hours dailyAt ↔ LegibleTime u dailyAt) ∧
    (∀ hours dailyAt hours' text,
      validateProfileSchedule u hours (some dailyAt) = .ok (hours', some text) →
      ∃ hour minute, readDailyAt u text = some (hour, minute) ∧
        ∀ offset profile lastRun ticks, profile.dailyAt = some text →
          profile.lastRun = ranAt lastRun → (lastRun.toList ++ ticks).Pairwise (· ≤ ·) →
          OnceADate u (.fixed offset) hour minute profile ticks) ∧
    (∀ hours profile lastRun offset ticks, given profile.dailyAt = none →
      profile.hours = .finite hours → 0 < hours → profile.lastRun = ranAt lastRun →
      OncePerInterval u (.fixed offset) hours profile ticks) := by
  refine ⟨cleanlyValidated_iff u, ?_, ?_⟩
  · intro hours dailyAt hours' text hvalid
    have hdaily : validateDailyAt u dailyAt = .ok (hours', some text) := by
      unfold validateProfileSchedule at hvalid
      split at hvalid
      case h_1 given hgiven =>
        unfold ProfileSchedule.given at hgiven
        split at hgiven
        · cases hgiven
        · cases hgiven
          exact hvalid
      case h_2 =>
        split at hvalid
        · cases hvalid
        · cases hvalid
    rcases validateDailyAt_ok hdaily with ⟨_, hne, hour, minute, hread, hrange⟩
    refine ⟨hour, minute, hread, ?_⟩
    intro offset profile lastRun ticks hprofile hlast hforward
    have hdue : Daily u hour minute profile := ⟨⟨text, hne, hprofile, hread⟩, hrange⟩
    exact hdue.onceADate hlast hforward
  · intro hours profile lastRun offset ticks hgiven hinterval hpositive hlast
    have hperiodic : Periodic hours profile := ⟨hgiven, hinterval, hpositive⟩
    exact hperiodic.oncePerInterval hlast u (.fixed offset) ticks

theorem isDigit_superscript : ∀ c : Char, c.toNat < 128 → (c.isDigit || c == '²') = c.isDigit := by
  intro c hc
  have hne : c ≠ '²' := by
    rintro rfl
    exact absurd hc (by decide)
  rw [beq_eq_false_iff_ne.mpr hne, Bool.or_false]

theorem value_superscript : ∀ c : Char, c.isDigit = true →
    c.toNat - '0'.toNat = c.toNat - '0'.toNat := by
  intro c _
  rfl

theorem isSpace_digit : ∀ c : Char, (c.isDigit || c == '²') = true →
    Backtracking.CharTable.ascii.isSpace c = false := by
  intro c hc
  have hlarge : 48 ≤ c.toNat := by
    rcases Bool.or_eq_true_iff.mp hc with hdigit | htwo
    · exact (Char.isDigit_iff_toNat.mp hdigit).1
    · rw [beq_iff_eq.mp htwo]
      decide
  exact Backtracking.CharTable.isSpace_ascii_table (by omega)

def superscriptTable : DigitTable where
  toCharTable := Backtracking.CharTable.ascii
  isDigit c := c.isDigit || c == '²'
  value c := c.toNat - '0'.toNat
  isDigit_of_isDecimal _ h := Bool.or_eq_true_iff.mpr (.inl h)
  isSpace_of_isDigit := isSpace_digit
  isDigit_ascii := isDigit_superscript
  value_ascii := value_superscript

/-- The form raises what it does not mean to raise. -/
theorem superscript_not_refused :
    ¬ CleanlyValidated superscriptTable (.finite 0) "²:00".toList := by
  rw [cleanlyValidated_iff]
  intro hlegible
  have htwo := (hlegible ['²'] ['0', '0'] (by decide) (by decide) (by decide)).1
  exact absurd htwo.1 (by decide)

end ProfileSchedule
