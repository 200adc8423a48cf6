import McAdmin.Binary64

/-!
# The window of the performance graph

`mspt_range` of the service brings the bounds it is asked for into what the metrics keep, one
adjustment after the other; that of the adapter chooses the step of its two queries by the width
of the window.  Numbers are exact.
-/

namespace PerformanceWindow

/-- What `float(bound)` is, unless it raises. -/
inductive Bound where
  | finite (value : ℚ)
  | infinite (negative : Bool)
  | nan
  | unreadable
deriving DecidableEq

structure Window where
  debut : ℚ
  fin : ℚ
deriving DecidableEq

/-! ### The service -/

/-- `PERFORMANCE_SPAN_MIN` -/
def spanMin : ℚ := 900

/-- `PERFORMANCE_SPAN_MAX` -/
def spanMax : ℚ := 30 * 24 * 3600

/-- `PERFORMANCE_RETENTION` -/
def retention : ℚ := 30 * 24 * 3600

/-- Bounds that are not both finite numbers are replaced by the last 24 hours. -/
def readBounds (maintenant : ℚ) : Bound → Bound → Window
  | .finite debut, .finite fin => ⟨debut, fin⟩
  | _, _ => ⟨maintenant - 24 * 3600, maintenant⟩

def adjustFin (maintenant fin : ℚ) : ℚ :=
  max (min fin maintenant) (maintenant - retention + spanMin)

def adjustDebut (maintenant debut fin : ℚ) : ℚ :=
  min (max debut (maintenant - retention)) (fin - spanMin)

def adjustSpan (debut fin : ℚ) : Window :=
  if spanMax < fin - debut then ⟨fin - spanMax, fin⟩ else ⟨debut, fin⟩

def clamp (maintenant : ℚ) (window : Window) : Window :=
  adjustSpan (adjustDebut maintenant window.debut (adjustFin maintenant window.fin))
    (adjustFin maintenant window.fin)

/-- The window that `mspt_range` passes to the metrics. -/
def msptRange (start end_ : Bound) (maintenant : ℚ) : Window :=
  clamp maintenant (readBounds maintenant start end_)

/-! ### The adapter -/

/-- `_PAS_ECHELLE`, of which each step has its name in a query -/
def pasEchelle : List (ℕ × String) :=
  [(60, "1m"), (120, "2m"), (300, "5m"), (600, "10m"), (900, "15m"), (1800, "30m"), (3600, "1h"),
    (7200, "2h"), (21600, "6h"), (43200, "12h"), (86400, "1d")]

def ciblePoints : ℚ := 150

def pasPour (largeur : ℚ) : ℕ × String :=
  (pasEchelle.find? fun pas => largeur / pas.1 ≤ ciblePoints).getD (86400, "1d")

/-- The times and the step of a `query_range`, and the window of its `max_over_time`. -/
structure RangeQuery where
  start : ℤ
  end_ : ℤ
  step : ℕ
  fenetre : String
deriving DecidableEq

/-- Both queries of `mspt_range`; a time is written with no decimals. -/
def rangeQuery (window : Window) : RangeQuery where
  start := Binary64.roundEven window.debut
  end_ := Binary64.roundEven window.fin
  step := (pasPour (max (window.fin - window.debut) 1)).1
  fenetre := (pasPour (max (window.fin - window.debut) 1)).2

/-- The times a `query_range` is evaluated at: from its start in steps, up to its end. -/
def RangeQuery.instants (query : RangeQuery) : List ℤ :=
  (List.range ((query.end_ - query.start) / query.step + 1).toNat).map
    fun k : ℕ => query.start + k * query.step

/-! ### Windows that can be served -/

/-- A window inside what is kept, of a span that is allowed. -/
structure Admissible (maintenant : ℚ) (window : Window) : Prop where
  kept : maintenant - retention ≤ window.debut
  past : window.fin ≤ maintenant
  wide : spanMin ≤ window.fin - window.debut
  narrow : window.fin - window.debut ≤ spanMax

section

variable {maintenant : ℚ} {window : Window}

theorem spans : 0 < spanMin ∧ spanMin ≤ retention ∧ retention ≤ spanMax := by
  unfold spanMin spanMax retention
  norm_num

theorem adjustFin_between (maintenant fin : ℚ) :
    maintenant - retention + spanMin ≤ adjustFin maintenant fin ∧
      adjustFin maintenant fin ≤ maintenant := by
  obtain ⟨-, hroom, -⟩ := spans
  constructor
  · exact le_max_right _ _
  · exact max_le (min_le_right _ _) (by linarith)

theorem adjustDebut_between {fin : ℚ} (h : maintenant - retention + spanMin ≤ fin) (debut : ℚ) :
    maintenant - retention ≤ adjustDebut maintenant debut fin ∧
      adjustDebut maintenant debut fin ≤ fin - spanMin := by
  constructor
  · exact le_min (le_max_right _ _) (by linarith)
  · exact min_le_right _ _

theorem clamp_admissible (maintenant : ℚ) (window : Window) :
    Admissible maintenant (clamp maintenant window) := by
  obtain ⟨-, -, hlong⟩ := spans
  obtain ⟨hroomy, hpast⟩ := adjustFin_between maintenant window.fin
  rw [clamp]
  generalize adjustFin maintenant window.fin = fin at hroomy hpast
  obtain ⟨hkept, hwide⟩ := adjustDebut_between hroomy window.debut
  generalize adjustDebut maintenant window.debut fin = debut at hkept hwide
  have hnarrow : fin - debut ≤ spanMax := by linarith
  rw [adjustSpan, if_neg (not_lt.mpr hnarrow)]
  exact ⟨hkept, hpast, by linarith, hnarrow⟩

theorem clamp_of_admissible (h : Admissible maintenant window) :
    clamp maintenant window = window := by
  obtain ⟨hkept, hpast, hwide, hnarrow⟩ := h
  have hfin : adjustFin maintenant window.fin = window.fin := by
    rw [adjustFin, min_eq_left hpast]
    exact max_eq_left (by linarith)
  have hdebut : adjustDebut maintenant window.debut window.fin = window.debut := by
    rw [adjustDebut, max_eq_left hkept]
    exact min_eq_left (by linarith)
  rw [clamp, hfin, hdebut, adjustSpan]
  exact if_neg (not_lt.mpr hnarrow)

/-! ### Points -/

theorem width_le_step {largeur : ℚ} (h : largeur ≤ spanMax) :
    60 ≤ (pasPour largeur).1 ∧ largeur ≤ ciblePoints * (pasPour largeur).1 := by
  have hlast : largeur / (86400 : ℕ) ≤ ciblePoints := by
    unfold spanMax at h
    unfold ciblePoints
    rw [div_le_iff₀ (by norm_num)]
    exact h.trans (by norm_num)
  have hleast : ∀ pas ∈ pasEchelle, 60 ≤ pas.1 := by decide
  obtain ⟨pas, hpas⟩ : ∃ pas, pasEchelle.find? (fun pas => largeur / pas.1 ≤ ciblePoints) =
      some pas := by
    rw [← Option.isSome_iff_exists, List.find?_isSome]
    exact ⟨(86400, "1d"), by decide, by simpa using hlast⟩
  have hstep : 60 ≤ pas.1 := hleast pas (List.mem_of_find?_eq_some hpas)
  have hpositive : (0 : ℚ) < pas.1 := by exact_mod_cast (by omega : 0 < pas.1)
  have hwidth : largeur / pas.1 ≤ ciblePoints := by simpa using List.find?_some hpas
  rw [pasPour, hpas, Option.getD_some]
  exact ⟨hstep, (div_le_iff₀ hpositive).mp hwidth⟩

theorem rounded_width (window : Window) :
    (((rangeQuery window).end_ - (rangeQuery window).start : ℤ) : ℚ) ≤
      window.fin - window.debut + 1 := by
  have hend := (abs_le.mp (Binary64.abs_roundEven_sub_le window.fin)).2
  have hstart := (abs_le.mp (Binary64.abs_roundEven_sub_le window.debut)).1
  rw [rangeQuery, Int.cast_sub]
  linarith

theorem length_instants (h : Admissible maintenant window) :
    (rangeQuery window).instants.length ≤ 151 := by
  have hlong : max (window.fin - window.debut) 1 ≤ spanMax :=
    max_le h.narrow (by unfold spanMax; norm_num)
  obtain ⟨hstep, hwidth⟩ := width_le_step hlong
  have hrounded := rounded_width window
  have hspan : (rangeQuery window).end_ - (rangeQuery window).start <
      151 * ((rangeQuery window).step : ℤ) := by
    have hle := (le_max_left _ _).trans hwidth
    have hsixty : (60 : ℚ) ≤ (pasPour (max (window.fin - window.debut) 1)).1 := by
      exact_mod_cast hstep
    have hlt : (((rangeQuery window).end_ - (rangeQuery window).start : ℤ) : ℚ) <
        151 * ((rangeQuery window).step : ℚ) := by
      have hsame : (rangeQuery window).step = (pasPour (max (window.fin - window.debut) 1)).1 := rfl
      unfold ciblePoints at hle
      rw [hsame]
      linarith
    exact_mod_cast hlt
  have hpoints : ((rangeQuery window).end_ - (rangeQuery window).start) /
      ((rangeQuery window).step : ℤ) < 151 :=
    Int.ediv_lt_of_lt_mul (by exact_mod_cast (by omega : 0 < (pasPour _).1)) hspan
  rw [RangeQuery.instants, List.length_map, List.length_range]
  omega

/-- Whatever is asked for, the window that is served is inside what is kept and of a span that is
allowed; one that already is so is served as it is, and what was served once is served again.  Its
queries have at most 151 points. -/
theorem window_served (start end_ : Bound) (maintenant : ℚ) :
    Admissible maintenant (msptRange start end_ maintenant) ∧
      (∀ window, start = .finite window.debut → end_ = .finite window.fin →
        Admissible maintenant window → msptRange start end_ maintenant = window) ∧
      msptRange (.finite (msptRange start end_ maintenant).debut)
          (.finite (msptRange start end_ maintenant).fin) maintenant =
        msptRange start end_ maintenant ∧
      (rangeQuery (msptRange start end_ maintenant)).instants.length ≤ 151 := by
  have hadmissible : Admissible maintenant (msptRange start end_ maintenant) :=
    clamp_admissible maintenant _
  refine ⟨hadmissible, ?_, clamp_of_admissible hadmissible, length_instants hadmissible⟩
  rintro window rfl rfl hwindow
  exact clamp_of_admissible hwindow

end

end PerformanceWindow
