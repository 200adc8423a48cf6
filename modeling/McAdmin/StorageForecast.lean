import McAdmin.Binary64
import McAdmin.Dates

/-!
# When the volume is full

The free space of the first and of the last snapshot that tells it make a line, and the line is
followed to the day on which nothing is left.  The calendar ends with the year 9999, and a line
that hardly falls does not meet it.
-/

namespace StorageForecast

open Calendar (Text Date maxOrdinal)

structure StorageSnapshot where
  date : Text
  freeBytes : Option ℤ
deriving DecidableEq

inductive Error where
  /-- `ValueError`: the text is no date. -/
  | date
  /-- `OverflowError`: of a float, a duration or a date. -/
  | overflow
deriving DecidableEq

structure Measure where
  date : Text
  free : ℤ
deriving DecidableEq

def StorageSnapshot.measure (snapshot : StorageSnapshot) : Option Measure :=
  snapshot.freeBytes.map fun free => ⟨snapshot.date, free⟩

def orOverflow {α : Type} : Option α → Except Error α
  | none => .error .overflow
  | some a => .ok a

/-- `date.fromisoformat` -/
def readDate (text : Text) : Except Error Date :=
  match Date.fromisoformat text with
  | none => .error .date
  | some day => .ok day

def dayLength : ℤ := 86400 * 10 ^ 6

def truncate (q : ℚ) : ℤ := if 0 ≤ q then ⌊q⌋ else ⌈q⌉

/-- `timedelta(days=days).days`: the part of a day is multiplied as a float and rounded. -/
def timedeltaDays (days : ℚ) : Option ℤ :=
  let part := Binary64.nearest (dayLength * (days - truncate days))
  let total := (truncate days * dayLength + Binary64.roundEven part) / dayLength
  if |total| ≤ 999999999 then some total else none

/-- `day + timedelta` of so many days -/
def addDays (day : Date) (days : ℤ) : Option Date :=
  if h : 1 ≤ (day.ordinal + days).toNat ∧ (day.ordinal + days).toNat ≤ maxOrdinal then
    some ⟨(day.ordinal + days).toNat, h⟩
  else none

/-- `_project_saturation`, from its first and its last usable point. -/
def project (first last : Measure) : Except Error (Option Date) := do
  let lastDay ← readDate last.date
  let firstDay ← readDate first.date
  let spanDays : ℤ := lastDay.ordinal - firstDay.ordinal
  if spanDays ≤ 0 then return none
  let slopePerDay ← orOverflow (Binary64.round (((last.free - first.free : ℤ) : ℚ) / spanDays))
  if 0 ≤ slopePerDay then return none
  let free ← orOverflow (Binary64.round last.free)
  let daysLeft ← orOverflow (Binary64.round (free / -slopePerDay))
  let days ← orOverflow (timedeltaDays daysLeft)
  let full ← orOverflow (addDays lastDay days)
  return some full

def projectSaturation (history : List StorageSnapshot) : Except Error (Option Date) :=
  match history.filterMap StorageSnapshot.measure with
  | [] => .ok none
  | [_] => .ok none
  | first :: second :: rest =>
    project first ((second :: rest).getLast (List.cons_ne_nil second rest))

/-- `storage_overview`, of the history it is given if there is one. -/
def storageOverview (history : Option (List StorageSnapshot)) :
    Except Error (List StorageSnapshot × Option Date) :=
  match history with
  | none => .ok ([], none)
  | some history => do
    let saturation ← projectSaturation history
    return (history, saturation)

/-! ### The line -/

section

variable {history : List StorageSnapshot} {first last : Measure} {newest : StorageSnapshot}
  {firstDay lastDay : Date} {q rate : ℚ} {days : ℤ}

def dayOf (text : Text) : ℕ := ((Date.fromisoformat text).map Date.ordinal).getD 0

/-- The days from the last measure to the full volume, in floats. -/
def daysToFull (first last : Measure) : Option ℤ := do
  let rate ← Binary64.round
    (((first.free - last.free : ℤ) : ℚ) / ((dayOf last.date - dayOf first.date : ℤ) : ℚ))
  let free ← Binary64.round last.free
  let days ← Binary64.round (free / rate)
  timedeltaDays days

/-- The change by the day is a float, and a line that falls reaches zero on a day of the calendar,
and not before a day that is given. -/
structure Drawn (first last : Measure) (newest : ℕ) : Prop where
  change : (Binary64.round (((last.free - first.free : ℤ) : ℚ) /
    ((dayOf last.date - dayOf first.date : ℤ) : ℚ))).isSome = true
  full : last.free < first.free → ∃ days, daysToFull first last = some days ∧
    (newest : ℤ) ≤ dayOf last.date + days ∧ dayOf last.date + days ≤ (maxOrdinal : ℤ)

/-- The dates of a history are dates and its sizes are sizes. -/
structure Valid (history : List StorageSnapshot) : Prop where
  dates : ∀ snapshot ∈ history, ∃ day, Date.fromisoformat snapshot.date = some day
  sizes : ∀ snapshot ∈ history, ∀ free, snapshot.freeBytes = some free → 0 ≤ free

/-- What `_project_saturation` answers is no date, or no date before the last snapshot. -/
def Projects (answer : Except Error (Option Date)) (newest : ℕ) : Prop :=
  ∃ saturation, answer = .ok saturation ∧ ∀ full, saturation = some full → newest ≤ full.ordinal

def newestDay (history : List StorageSnapshot) : ℕ :=
  (history.getLast?.map fun snapshot => dayOf snapshot.date).getD 0

structure Projected (history : List StorageSnapshot) : Prop where
  returned : Projects (projectSaturation history) (newestDay history)
  shown : ∃ overview, storageOverview (some history) = .ok overview

theorem timedeltaDays_nonneg (hq : 0 ≤ q) (h : timedeltaDays q = some days) : 0 ≤ days := by
  have htruncate : truncate q = ⌊q⌋ := if_pos hq
  have hfloor : 0 ≤ ⌊q⌋ := Int.floor_nonneg.mpr hq
  have hpart : 0 ≤ (dayLength : ℚ) * (q - truncate q) := by
    rw [htruncate]
    exact mul_nonneg (by norm_num [dayLength]) (by linarith [Int.floor_le q])
  have hround : 0 ≤ Binary64.roundEven (Binary64.nearest (dayLength * (q - truncate q))) :=
    Binary64.le_roundEven (by exact_mod_cast Binary64.nearest_nonneg hpart)
  rw [timedeltaDays] at h
  split_ifs at h
  rw [← Option.some.inj h, htruncate]
  rw [htruncate] at hround
  exact Int.ediv_nonneg (add_nonneg (mul_nonneg hfloor (by decide)) hround) (by decide)

theorem addDays_iff (hdays : 0 ≤ days) (newest : ℕ) :
    (∃ full, addDays lastDay days = some full ∧ newest ≤ full.ordinal) ↔
      (newest : ℤ) ≤ lastDay.ordinal + days ∧ lastDay.ordinal + days ≤ (maxOrdinal : ℤ) := by
  have hfirst := lastDay.valid.1
  rw [addDays]
  split_ifs with hrange
  · simp only [Option.some.injEq, exists_eq_left']
    omega
  · simp only [false_and, exists_false, false_iff]
    omega

theorem readDate_eq {text : Text} {day : Date} (h : Date.fromisoformat text = some day) :
    readDate text = .ok day ∧ dayOf text = day.ordinal := by
  rw [readDate, dayOf, h]
  exact ⟨rfl, rfl⟩

theorem slope_nonneg {span : ℤ} (hspan : 0 < span) (hgrows : first.free ≤ last.free)
    (h : Binary64.round (((last.free - first.free : ℤ) : ℚ) / span) = some q) : 0 ≤ q := by
  rw [Binary64.nearest_of_round h]
  refine Binary64.nearest_nonneg (div_nonneg ?_ ?_)
  · exact_mod_cast sub_nonneg.mpr hgrows
  · exact_mod_cast hspan.le

theorem slope_neg {span : ℤ} (hspan : 0 < span) (hlimit : span < 2 ^ 22)
    (hfalls : last.free < first.free)
    (h : Binary64.round (((last.free - first.free : ℤ) : ℚ) / span) = some q) : q < 0 := by
  have hone : (1 : ℚ) ≤ ((first.free - last.free : ℤ) : ℚ) := by
    exact_mod_cast (by omega : (1 : ℤ) ≤ first.free - last.free)
  have hspan' : (0 : ℚ) < span := by exact_mod_cast hspan
  have hlimit' : (span : ℚ) ≤ 2 ^ 22 := by exact_mod_cast hlimit.le
  have hrate : (2 : ℚ) ^ (-22 : ℤ) ≤ ((first.free - last.free : ℤ) : ℚ) / span := by
    rw [le_div_iff₀ hspan']
    calc (2 : ℚ) ^ (-22 : ℤ) * span ≤ 2 ^ (-22 : ℤ) * 2 ^ 22 :=
          mul_le_mul_of_nonneg_left hlimit' (by norm_num)
      _ ≤ ((first.free - last.free : ℤ) : ℚ) := by
        rw [show (2 : ℚ) ^ (-22 : ℤ) * 2 ^ 22 = 1 by norm_num]
        exact hone
  have hpositive := Binary64.nearest_pos (by norm_num) hrate
  have hsign : ((last.free - first.free : ℤ) : ℚ) / span =
      -(((first.free - last.free : ℤ) : ℚ) / span) := by
    rw [← neg_div, ← Int.cast_neg, neg_sub]
  rw [Binary64.nearest_of_round h, hsign, Binary64.nearest_neg]
  linarith

theorem project_of_dates (hlast : Date.fromisoformat last.date = some lastDay)
    (hfirst : Date.fromisoformat first.date = some firstDay) : project first last =
      if (lastDay.ordinal : ℤ) - firstDay.ordinal ≤ 0 then .ok none
      else do
        let slopePerDay ← orOverflow (Binary64.round
          (((last.free - first.free : ℤ) : ℚ) / ((lastDay.ordinal - firstDay.ordinal : ℤ) : ℚ)))
        if 0 ≤ slopePerDay then return none
        let free ← orOverflow (Binary64.round last.free)
        let daysLeft ← orOverflow (Binary64.round (free / -slopePerDay))
        let days ← orOverflow (timedeltaDays daysLeft)
        let full ← orOverflow (addDays lastDay days)
        return some full := by
  rw [project, (readDate_eq hlast).1, (readDate_eq hfirst).1]
  rfl

theorem projects_some {answer : Option Date} {newest : ℕ} :
    Projects (do
        let full ← orOverflow answer
        return some full) newest ↔ ∃ full, answer = some full ∧ newest ≤ full.ordinal := by
  cases answer with
  | none => simp [Projects, orOverflow, bind, Except.bind]
  | some full => simp [Projects, orOverflow, bind, Except.bind, pure, Except.pure]

theorem projects_none (newest : ℕ) : Projects (.ok none) newest :=
  ⟨none, rfl, fun _ hfull => by cases hfull⟩

theorem fall_iff {slope : ℚ} {newest : ℕ} (hfree : 0 ≤ last.free) (hslope : slope < 0) :
    Projects (do
        let free ← orOverflow (Binary64.round last.free)
        let daysLeft ← orOverflow (Binary64.round (free / -slope))
        let days ← orOverflow (timedeltaDays daysLeft)
        let full ← orOverflow (addDays lastDay days)
        return some full) newest ↔
      ∃ days, (do
        let free ← Binary64.round last.free
        let daysLeft ← Binary64.round (free / -slope)
        timedeltaDays daysLeft) = some days ∧
        (newest : ℤ) ≤ lastDay.ordinal + days ∧ lastDay.ordinal + days ≤ (maxOrdinal : ℤ) := by
  cases hamount : Binary64.round last.free with
  | none => simp [Projects, orOverflow, bind, Except.bind]
  | some free =>
    cases hleft : Binary64.round (free / -slope) with
    | none => simp [Projects, orOverflow, bind, Except.bind, hleft]
    | some daysLeft =>
      cases hdays : timedeltaDays daysLeft with
      | none => simp [Projects, orOverflow, bind, Except.bind, hleft, hdays]
      | some days =>
        have hpositive : 0 ≤ -slope := by linarith
        have hamount' : 0 ≤ free := by
          rw [Binary64.nearest_of_round hamount]
          exact Binary64.nearest_nonneg (by exact_mod_cast hfree)
        have hleft' : 0 ≤ daysLeft := by
          rw [Binary64.nearest_of_round hleft]
          exact Binary64.nearest_nonneg (div_nonneg hamount' hpositive)
        have hadd : (∃ full, addDays lastDay days = some full ∧ newest ≤ full.ordinal) ↔ _ :=
          addDays_iff (timedeltaDays_nonneg hleft' hdays) newest
        simp only [orOverflow, bind, Except.bind, Option.bind, hleft, hdays, Option.some.injEq,
          exists_eq_left']
        exact projects_some.trans hadd

theorem daysToFull_of_slope {slope : ℚ} (hday : dayOf last.date = lastDay.ordinal)
    (hday' : dayOf first.date = firstDay.ordinal)
    (hslope : Binary64.round
      (((last.free - first.free : ℤ) : ℚ) / ((lastDay.ordinal - firstDay.ordinal : ℤ) : ℚ)) =
        some slope) :
    daysToFull first last = (do
      let free ← Binary64.round last.free
      let daysLeft ← Binary64.round (free / -slope)
      timedeltaDays daysLeft) := by
  have hsign : ((first.free - last.free : ℤ) : ℚ) /
      ((lastDay.ordinal - firstDay.ordinal : ℤ) : ℚ) =
      -(((last.free - first.free : ℤ) : ℚ) /
        ((lastDay.ordinal - firstDay.ordinal : ℤ) : ℚ)) := by
    rw [← neg_div, ← Int.cast_neg, neg_sub]
  have hrate : Binary64.round (((first.free - last.free : ℤ) : ℚ) /
      ((lastDay.ordinal - firstDay.ordinal : ℤ) : ℚ)) = some (-slope) := by
    rw [hsign, Binary64.round_neg, hslope, Option.map_some]
  rw [daysToFull, hday, hday', hrate]
  rfl

theorem project_iff {newest : ℕ} (hlast : Date.fromisoformat last.date = some lastDay)
    (hfirst : Date.fromisoformat first.date = some firstDay)
    (hspan : firstDay.ordinal < lastDay.ordinal) (hfree : 0 ≤ last.free) :
    Projects (project first last) newest ↔ Drawn first last newest := by
  have hspan' : (0 : ℤ) < lastDay.ordinal - firstDay.ordinal := by omega
  have hlimit : (lastDay.ordinal : ℤ) - firstDay.ordinal < 2 ^ 22 := by
    have hmax := lastDay.valid.2
    rw [maxOrdinal] at hmax
    omega
  rw [project_of_dates hlast hfirst, if_neg hspan'.not_ge]
  have hday := (readDate_eq hlast).2
  have hday' := (readDate_eq hfirst).2
  cases hslope : Binary64.round
      (((last.free - first.free : ℤ) : ℚ) / ((lastDay.ordinal - firstDay.ordinal : ℤ) : ℚ)) with
  | none =>
    refine iff_of_false ?_ fun hdrawn => ?_
    · simp [Projects, orOverflow, bind, Except.bind]
    · have hchange := hdrawn.change
      rw [hday, hday', hslope] at hchange
      cases hchange
  | some slope =>
    have hchange : (Binary64.round (((last.free - first.free : ℤ) : ℚ) /
        ((dayOf last.date - dayOf first.date : ℤ) : ℚ))).isSome = true := by
      rw [hday, hday', hslope]
      rfl
    by_cases hfalls : last.free < first.free
    · have hneg := slope_neg hspan' hlimit hfalls hslope
      change Projects (if 0 ≤ slope then _ else _) newest ↔ _
      rw [if_neg hneg.not_ge]
      refine (fall_iff hfree hneg).trans ?_
      rw [← daysToFull_of_slope hday hday' hslope, ← hday]
      exact ⟨fun h => ⟨hchange, fun _ => h⟩, fun h => h.full hfalls⟩
    · have hnonneg := slope_nonneg hspan' (not_lt.mp hfalls) hslope
      refine iff_of_true ?_ ⟨hchange, fun h => absurd h hfalls⟩
      simp only [orOverflow, bind, Except.bind, if_pos hnonneg]
      exact projects_none newest

theorem mem_of_measure {snapshot : StorageSnapshot} {point : Measure}
    (h : snapshot.measure = some point) :
    point.date = snapshot.date ∧ snapshot.freeBytes = some point.free := by
  obtain ⟨free, hfree, rfl⟩ := Option.map_eq_some_iff.mp h
  exact ⟨rfl, hfree⟩

theorem Valid.of_measure {point : Measure} (h : Valid history)
    (hpoint : point ∈ history.filterMap StorageSnapshot.measure) :
    (∃ day, Date.fromisoformat point.date = some day) ∧ 0 ≤ point.free := by
  obtain ⟨snapshot, hsnapshot, hmeasure⟩ := List.mem_filterMap.mp hpoint
  obtain ⟨hdate, hfree⟩ := mem_of_measure hmeasure
  exact ⟨hdate ▸ h.dates snapshot hsnapshot, h.sizes snapshot hsnapshot _ hfree⟩

theorem project_of_span {newest : ℕ} (hlast : Date.fromisoformat last.date = some lastDay)
    (hfirst : Date.fromisoformat first.date = some firstDay)
    (hspan : ¬ firstDay.ordinal < lastDay.ordinal) : Projects (project first last) newest := by
  have hspan' : (lastDay.ordinal : ℤ) - firstDay.ordinal ≤ 0 := by omega
  rw [project_of_dates hlast hfirst, if_pos hspan']
  exact projects_none newest

theorem projectSaturation_iff {newest : ℕ} (h : Valid history) :
    Projects (projectSaturation history) newest ↔
      ∀ first last, (history.filterMap StorageSnapshot.measure).head? = some first →
        (history.filterMap StorageSnapshot.measure).getLast? = some last →
        dayOf first.date < dayOf last.date → Drawn first last newest := by
  have hvalid : ∀ point ∈ history.filterMap StorageSnapshot.measure,
      (∃ day, Date.fromisoformat point.date = some day) ∧ 0 ≤ point.free :=
    fun _ hpoint => h.of_measure hpoint
  rw [projectSaturation]
  generalize history.filterMap StorageSnapshot.measure = points at hvalid ⊢
  cases points with
  | nil =>
    refine iff_of_true (projects_none newest) fun first last hfirst => ?_
    cases hfirst
  | cons first rest =>
    cases rest with
    | nil =>
      refine iff_of_true (projects_none newest) fun first' last' hfirst hlast hspan => ?_
      obtain rfl := Option.some.inj hfirst
      obtain rfl := Option.some.inj hlast
      exact absurd hspan (lt_irrefl _)
    | cons second rest =>
      have hlast : (first :: second :: rest).getLast? =
          some ((second :: rest).getLast (List.cons_ne_nil second rest)) := by
        rw [List.getLast?_cons_cons, List.getLast?_eq_some_getLast]
      have hmem := List.mem_cons_of_mem first
        (List.getLast_mem (List.cons_ne_nil second rest))
      change Projects (project first ((second :: rest).getLast (List.cons_ne_nil second rest)))
        newest ↔ _
      generalize (second :: rest).getLast (List.cons_ne_nil second rest) = last at hlast hmem ⊢
      obtain ⟨⟨firstDay, hfirstDay⟩, -⟩ := hvalid first List.mem_cons_self
      obtain ⟨⟨lastDay, hlastDay⟩, hfree⟩ := hvalid last hmem
      have hends : (∀ first' last', (first :: second :: rest).head? = some first' →
          (first :: second :: rest).getLast? = some last' →
          dayOf first'.date < dayOf last'.date → Drawn first' last' newest) ↔
          (dayOf first.date < dayOf last.date → Drawn first last newest) := by
        rw [hlast, List.head?_cons]
        simp
      rw [hends, (readDate_eq hfirstDay).2, (readDate_eq hlastDay).2]
      -- the forecast needs two days, the first and the last measure
      by_cases hspan : firstDay.ordinal < lastDay.ordinal
      · rw [project_iff hlastDay hfirstDay hspan hfree]
        exact ⟨fun hdrawn _ => hdrawn, fun hdrawn => hdrawn hspan⟩
      · exact iff_of_true (project_of_span hlastDay hfirstDay hspan) fun h => absurd h hspan

theorem projected_iff (history : List StorageSnapshot) (h : Valid history) :
    Projected history ↔
      ∀ first last, (history.filterMap StorageSnapshot.measure).head? = some first →
        (history.filterMap StorageSnapshot.measure).getLast? = some last →
        dayOf first.date < dayOf last.date → Drawn first last (newestDay history) := by
  rw [← projectSaturation_iff h]
  refine ⟨Projected.returned, fun hreturned => ⟨hreturned, ?_⟩⟩
  obtain ⟨saturation, hsaturation, -⟩ := hreturned
  exact ⟨(history, saturation), by rw [storageOverview, hsaturation]; rfl⟩

end

/-! ### Lines that hardly fall -/

def idle : List StorageSnapshot :=
  [⟨"2026-07-01".toList, some 500000000001⟩, ⟨"2026-07-02".toList, some 500000000000⟩]

def filling : List StorageSnapshot :=
  [⟨"2026-07-01".toList, some 100⟩, ⟨"2026-07-02".toList, some 90⟩]

theorem valid_of_all {snapshots : List StorageSnapshot}
    (hdates : ∀ snapshot ∈ snapshots, (Date.fromisoformat snapshot.date).isSome = true)
    (hsizes : ∀ snapshot ∈ snapshots, ∀ free, snapshot.freeBytes = some free → 0 ≤ free) :
    Valid snapshots :=
  ⟨fun snapshot hsnapshot => Option.isSome_iff_exists.mp (hdates snapshot hsnapshot), hsizes⟩

theorem filling_valid : Valid filling :=
  valid_of_all (by decide +kernel) (by simp [filling])

theorem filling_projected : Projected filling := by
  refine (projected_iff filling filling_valid).mpr ?_
  intro first last hfirst hlast _
  obtain rfl := Option.some.inj hfirst
  obtain rfl := Option.some.inj hlast
  exact ⟨by decide +kernel, fun _ => ⟨9, by decide +kernel, by decide +kernel, by decide +kernel⟩⟩

/-- A line that falls by a byte in a day leaves the calendar. -/
theorem idle_not_projected : Valid idle ∧ ¬ Projected idle := by
  refine ⟨valid_of_all (by decide +kernel) (by simp [idle]), fun h => ?_⟩
  have hraises : projectSaturation idle = .error .overflow := by decide +kernel
  obtain ⟨saturation, hsaturation, -⟩ := h.returned
  rw [hraises] at hsaturation
  cases hsaturation

end StorageForecast
