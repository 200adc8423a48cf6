import McAdmin.Runs
import McAdmin.Ticks

/-!
# The daily restart

Each tick arms the one-shot restart of today's appointment when it comes within the
lead, and then carries out or leaves alone the one-shot that is due.  Local time is
the clock's time at a fixed offset.
-/

namespace RecurringRestart

open Runs Ticks

/-! ### The tick -/

/-- What `set_recurring_restart` accepts: the two halves of the text as `int` reads them,
and the lead in seconds. -/
structure Config where
  hour : ℕ
  minute : ℕ
  leadSeconds : ℕ
  deferIfPlayers : Bool
  hour_lt : hour < 24
  minute_lt : minute < 60
  leadSeconds_pos : 0 < leadSeconds

structure ScheduledRestart where
  restartAt : ℤ
  deferIfPlayers : Bool
deriving DecidableEq

structure State where
  config : Option Config
  /-- The date the appointment was last dealt with. -/
  lastFired : Option ℤ := none
  pending : Option ScheduledRestart := none
  /-- The instants the one-shot was armed for so far. -/
  armed : List ℤ := []

structure Moment where
  now : ℤ
  /-- The server answers that nobody is connected. -/
  confirmedEmpty : Bool := true
  /-- Operator levels are being applied, or that cannot be read. -/
  opLevelsBusy : Bool := false

def tickRecurringRestart (m : Moment) (s : State) : State :=
  match s.config with
  | none => s
  | some config =>
    let today := date m.now
    if s.lastFired = some today then s
    else
      let target := appointment today config.hour config.minute
      if target ≤ m.now then { s with lastFired := some today }
      else if config.leadSeconds * second < target - m.now then s
      else if s.pending = none then
        { s with
          pending := some ⟨target, config.deferIfPlayers⟩
          armed := s.armed ++ [target]
          lastFired := some today }
      else { s with lastFired := some today }

def tickPendingRestart (m : Moment) (s : State) : State :=
  match s.pending with
  | none => s
  | some pending =>
    if pending.restartAt ≤ m.now then
      if pending.deferIfPlayers ∧ m.confirmedEmpty = false then s
      else if m.opLevelsBusy then s
      else { s with pending := none }
    else s

def tickScheduledRestart (s : State) (m : Moment) : State :=
  tickPendingRestart m (tickRecurringRestart m s)

/-! ### What a run of ticks owes each day -/

section

variable (config : Config) (ticks : ℕ → Moment)

def state : ℕ → State := trace tickScheduledRestart { config := some config } ticks

def Config.lead : ℤ := config.leadSeconds * second

def Config.target (d : ℤ) : ℤ := appointment d config.hour config.minute

def clock (n : ℕ) : ℤ := (ticks n).now

def Arms (n : ℕ) (d : ℤ) : Prop :=
  (state config ticks (n + 1)).armed = (state config ticks n).armed ++ [config.target d]

/-- The first tick within the lead, and no other, arms the restart of a date, and each date
whose time the ticks pass is armed exactly once. -/
def Kept : Prop :=
  (∀ n d, Arms config ticks n d ↔ FirstInLead config.lead (config.target d) (clock ticks) n) ∧
    ∀ d, clock ticks 0 < config.target d → (∃ n, config.target d ≤ clock ticks n) →
      ∃! n, Arms config ticks n d

/-- The first tick within the lead of a date is on that date and finds no one-shot
waiting. -/
def Timely : Prop :=
  ∀ n d, FirstInLead config.lead (config.target d) (clock ticks) n →
    date (clock ticks n) = d ∧ (state config ticks n).pending = none

end

/-! ### One tick -/

section

variable {config : Config} {m : Moment} {s : State}

theorem tickPendingRestart_keeps (m : Moment) (s : State) :
    (tickPendingRestart m s).armed = s.armed ∧
      (tickPendingRestart m s).lastFired = s.lastFired ∧
      (tickPendingRestart m s).config = s.config := by
  simp only [tickPendingRestart]
  split
  · exact ⟨rfl, rfl, rfl⟩
  · split
    · split
      · exact ⟨rfl, rfl, rfl⟩
      · split
        · exact ⟨rfl, rfl, rfl⟩
        · exact ⟨rfl, rfl, rfl⟩
    · exact ⟨rfl, rfl, rfl⟩

def Open (config : Config) (m : Moment) (s : State) : Prop :=
  s.lastFired ≠ some (date m.now) ∧ InLead config.lead (config.target (date m.now)) m.now

theorem tick_cases (hconfig : s.config = some config) (m : Moment) :
    (Open config m s ∧ s.pending = none ∧
      (tickScheduledRestart s m).armed = s.armed ++ [config.target (date m.now)] ∧
      (tickScheduledRestart s m).lastFired = some (date m.now)) ∨
    (¬ (Open config m s ∧ s.pending = none) ∧ (tickScheduledRestart s m).armed = s.armed ∧
      ((tickScheduledRestart s m).lastFired = s.lastFired ∧ ¬ Open config m s ∨
        (tickScheduledRestart s m).lastFired = some (date m.now) ∧
          (Open config m s ∨ config.target (date m.now) ≤ m.now))) := by
  rcases tickPendingRestart_keeps m (tickRecurringRestart m s) with ⟨harmed, hfired, -⟩
  simp only [tickScheduledRestart]
  rw [harmed, hfired]
  simp only [tickRecurringRestart]
  simp only [hconfig]
  -- the guards of the tick in their order: dealt with, past, too far
  by_cases hfired : s.lastFired = some (date m.now)
  · right
    simp [hfired, Open]
  · by_cases hpast : config.target (date m.now) ≤ m.now
    · right
      have hclosed : ¬ Open config m s := fun h => absurd h.2.2 (not_lt.mpr hpast)
      simp only [Config.target] at hpast
      simp [hfired, hpast, hclosed, Config.target]
    · by_cases hfar : config.lead < config.target (date m.now) - m.now
      · right
        have hclosed : ¬ Open config m s := by
          intro h
          have hnear := h.2.1
          omega
        unfold Config.target Config.lead at hfar
        simp only [Config.target] at hpast
        simp [hfired, hpast, hfar, hclosed]
      · have hopen : Open config m s := ⟨hfired, by omega, not_le.mp hpast⟩
        unfold Config.target Config.lead at hfar
        simp only [Config.target] at hpast
        by_cases hpending : s.pending = none
        · left
          simp [hfired, hpast, hfar, hpending, hopen, Config.target]
        · right
          simp [hfired, hpast, hfar, hpending, hopen]

end

/-! ### Runs of ticks -/

section

variable {config : Config} {ticks : ℕ → Moment} {n i : ℕ} {d : ℤ}

theorem state_succ (config : Config) (ticks : ℕ → Moment) (n : ℕ) :
    state config ticks (n + 1) = tickScheduledRestart (state config ticks n) (ticks n) := rfl

theorem state_config (config : Config) (ticks : ℕ → Moment) (n : ℕ) :
    (state config ticks n).config = some config := by
  induction n with
  | zero => rfl
  | succ n ih =>
    rw [state_succ, tickScheduledRestart, (tickPendingRestart_keeps _ _).2.2]
    simp only [tickRecurringRestart]
    simp only [ih]
    split
    · exact ih
    · split
      · rfl
      · split
        · exact ih
        · split
          · rfl
          · rfl

theorem lastFired_succ (config : Config) (ticks : ℕ → Moment) (n : ℕ) :
    (state config ticks (n + 1)).lastFired = (state config ticks n).lastFired ∨
      (state config ticks (n + 1)).lastFired = some (date (clock ticks n)) ∧
        (InLead config.lead (config.target (date (clock ticks n))) (clock ticks n) ∨
          config.target (date (clock ticks n)) ≤ clock ticks n) := by
  rw [state_succ]
  rcases tick_cases (state_config config ticks n) (ticks n) with
    ⟨hopen, -, -, hfired⟩ | ⟨-, -, ⟨hfired, -⟩ | ⟨hfired, hopen | hpast⟩⟩
  · exact .inr ⟨hfired, .inl hopen.2⟩
  · exact .inl hfired
  · exact .inr ⟨hfired, .inl hopen.2⟩
  · exact .inr ⟨hfired, .inr hpast⟩

theorem exists_of_lastFired (h : (state config ticks n).lastFired = some d) :
    ∃ i < n, InLead config.lead (config.target d) (clock ticks i) ∨
      config.target d ≤ clock ticks i := by
  induction n with
  | zero => cases h
  | succ n ih =>
    rcases lastFired_succ config ticks n with hsame | ⟨hfired, htime⟩
    · rw [hsame] at h
      rcases ih h with ⟨i, hi, htime⟩
      exact ⟨i, by omega, htime⟩
    · rw [hfired] at h
      obtain rfl := Option.some.inj h
      exact ⟨n, by omega, htime⟩

theorem lastFired_of_le (hmono : Forward (clock ticks)) (hi : i ≤ n)
    (hfired : (state config ticks i).lastFired = some d) (hstart : d ≤ date (clock ticks i))
    (hend : date (clock ticks n) = d) : (state config ticks n).lastFired = some d := by
  induction n with
  | zero =>
    obtain rfl : i = 0 := by omega
    exact hfired
  | succ n ih =>
    rcases Nat.lt_or_ge n i with hlt | hge
    · obtain rfl : i = n + 1 := by omega
      exact hfired
    · have hdate : date (clock ticks n) = d := by
        have hafter := date_mono (hmono hge)
        have hbefore := date_mono (hmono (Nat.le_succ n))
        rw [← Nat.add_one] at hbefore
        omega
      rcases lastFired_succ config ticks n with hsame | ⟨hown, -⟩
      · rw [hsame]
        exact ih hge hdate
      · rw [hown, hdate]

theorem arms_iff (config : Config) (ticks : ℕ → Moment) (n : ℕ) (d : ℤ) :
    Arms config ticks n d ↔ date (clock ticks n) = d ∧
      Open config (ticks n) (state config ticks n) ∧ (state config ticks n).pending = none := by
  simp only [Arms]
  rw [state_succ]
  rcases tick_cases (state_config config ticks n) (ticks n) with
    ⟨hopen, hpending, harmed, -⟩ | ⟨hclosed, harmed, -⟩
  · rw [harmed]
    constructor
    · intro h
      have htarget := List.append_cancel_left h
      simp only [List.cons.injEq, and_true] at htarget
      exact ⟨appointment_inj htarget, hopen, hpending⟩
    · rintro ⟨rfl, -, -⟩
      rfl
  · rw [harmed]
    constructor
    · intro h
      have hlength := congrArg List.length h
      simp at hlength
    · rintro ⟨-, hopen⟩
      exact absurd hopen hclosed

theorem open_of_first (hmono : Forward (clock ticks)) (hdate : date (clock ticks n) = d)
    (hfirst : FirstInLead config.lead (config.target d) (clock ticks) n) :
    Open config (ticks n) (state config ticks n) := by
  have hnow : (ticks n).now = clock ticks n := rfl
  simp only [Open]
  rw [hnow, hdate]
  refine ⟨?_, hfirst.1⟩
  intro hfired
  obtain ⟨i, hi, hlead | hpast⟩ := exists_of_lastFired hfired
  · exact hfirst.2 i hi hlead
  · have hlater := hmono (Nat.le_of_lt hi)
    have hbefore := hfirst.1.2
    omega

theorem Timely.fired (h : Timely config ticks) (hmono : Forward (clock ticks))
    (hfirst : FirstInLead config.lead (config.target d) (clock ticks) i) :
    (state config ticks (i + 1)).lastFired = some d := by
  rcases h i d hfirst with ⟨hdate, hpending⟩
  have hopen := open_of_first hmono hdate hfirst
  rw [state_succ]
  rcases tick_cases (state_config config ticks i) (ticks i) with
    ⟨-, -, -, hfired⟩ | ⟨hclosed, -⟩
  · rw [hfired]
    exact congrArg some hdate
  · exact absurd ⟨hopen, hpending⟩ hclosed

theorem Timely.arms_iff (h : Timely config ticks) (hmono : Forward (clock ticks)) (n : ℕ)
    (d : ℤ) :
    Arms config ticks n d ↔ FirstInLead config.lead (config.target d) (clock ticks) n := by
  rw [RecurringRestart.arms_iff]
  constructor
  · rintro ⟨hdate, hopen, -⟩
    have hnow : (ticks n).now = clock ticks n := rfl
    simp only [Open] at hopen
    rw [hnow, hdate] at hopen
    refine ⟨hopen.2, ?_⟩
    intro i hi hlead
    -- the first tick within the lead would have dealt with the date
    rcases exists_firstInLead ⟨i, hlead⟩ with ⟨j, hfirst⟩
    have hj : j < n := by
      rcases Nat.lt_or_ge i j with hlt | hge
      · exact absurd hlead (hfirst.2 i hlt)
      · omega
    have hstart : d ≤ date (clock ticks (j + 1)) := by
      rw [← (h j d hfirst).1]
      exact date_mono (hmono (Nat.le_succ j))
    exact hopen.1 (lastFired_of_le hmono hj (h.fired hmono hfirst) hstart hdate)
  · intro hfirst
    rcases h n d hfirst with ⟨hdate, hpending⟩
    exact ⟨hdate, open_of_first hmono hdate hfirst, hpending⟩

def Free (m : Moment) : Prop := m.confirmedEmpty = true ∧ m.opLevelsBusy = false

theorem pending_recurring {s : State} (hconfig : s.config = some config) (m : Moment) :
    (tickRecurringRestart m s).pending = s.pending ∨
      config.target (date m.now) - config.lead ≤ m.now ∧ (tickRecurringRestart m s).pending =
        some ⟨config.target (date m.now), config.deferIfPlayers⟩ := by
  simp only [tickRecurringRestart]
  rw [hconfig]
  dsimp only
  split
  · exact .inl rfl
  · split
    · exact .inl rfl
    · split
      · exact .inl rfl
      · rename_i hfar
        split
        · refine .inr ⟨?_, rfl⟩
          unfold Config.target Config.lead
          omega
        · exact .inl rfl

theorem pending_due {s : State} {m : Moment} (hfree : Free m) {p : ScheduledRestart}
    (h : (tickPendingRestart m s).pending = some p) : s.pending = some p ∧ m.now < p.restartAt := by
  unfold tickPendingRestart at h
  split at h
  · rename_i hnone
    cases hnone.symm.trans h
  · rename_i pending hsome
    split at h
    · rw [if_neg fun hdefer => Bool.false_ne_true (hdefer.2.symm.trans hfree.1),
        if_neg fun hbusy => Bool.false_ne_true (hfree.2.symm.trans hbusy)] at h
      cases h
    · rename_i hearly
      obtain rfl := Option.some.inj (hsome.symm.trans h)
      exact ⟨hsome, not_le.mp hearly⟩

theorem pending_inLead (hfree : ∀ n, Free (ticks n)) (hmono : Forward (clock ticks))
    {p : ScheduledRestart} (h : (state config ticks (n + 1)).pending = some p) :
    ∃ d, InLead config.lead (config.target d) (clock ticks n) := by
  suffices hwaits : ∃ d, p.restartAt = config.target d ∧
      config.target d - config.lead ≤ clock ticks n ∧ clock ticks n < config.target d from
    hwaits.imp fun d hd => hd.2
  induction n with
  | zero =>
    obtain ⟨harmed, hearly⟩ := pending_due (hfree 0) h
    rcases pending_recurring (state_config config ticks 0) (ticks 0) with hsame | ⟨hlead, harm⟩
    · cases hsame.symm.trans harmed
    · obtain rfl := Option.some.inj (harm.symm.trans harmed)
      exact ⟨_, rfl, hlead, hearly⟩
  | succ n ih =>
    obtain ⟨harmed, hearly⟩ := pending_due (hfree (n + 1)) h
    rcases pending_recurring (state_config config ticks (n + 1)) (ticks (n + 1)) with
      hsame | ⟨hlead, harm⟩
    · obtain ⟨d, htarget, hlead, -⟩ := ih (hsame.symm.trans harmed)
      refine ⟨d, htarget, hlead.trans (hmono (Nat.le_succ n)), ?_⟩
      rw [← htarget]
      exact hearly
    · obtain rfl := Option.some.inj (harm.symm.trans harmed)
      exact ⟨_, rfl, hlead, hearly⟩

theorem timely_of_lead_le (hsteady : Steady config.lead (clock ticks))
    (hfree : ∀ n, Free (ticks n)) (hlead : config.lead ≤ timeOfDay config.hour config.minute)
    (hshort : 2 * config.lead ≤ day) : Timely config ticks := by
  intro n d hfirst
  refine ⟨date_of_inLead config.hour_lt config.minute_lt hlead hfirst.1, ?_⟩
  cases n with
  | zero => rfl
  | succ n =>
    cases hpending : (state config ticks (n + 1)).pending with
    | none => rfl
    | some p =>
      exfalso
      obtain ⟨d', hd'⟩ := pending_inLead hfree hsteady.forward hpending
      obtain ⟨hforth, hgap⟩ := hsteady n
      have hd := hfirst.1
      have hapart : d ≠ d' := fun heq => hfirst.2 n (Nat.lt_succ_self n) (heq ▸ hd')
      -- the leads of two dates are further apart than two ticks
      simp only [InLead, Config.target, appointment] at hd hd'
      simp only [day] at hd hd' hshort
      omega

end

/-- Every day gets its restart, armed once and at the first tick within the lead, exactly
when each of these ticks is on the day itself and finds no one-shot waiting. -/
theorem recurring_restart_kept_iff (config : Config) (ticks : ℕ → Moment)
    (hsteady : Steady config.lead (clock ticks)) : Kept config ticks ↔ Timely config ticks := by
  have hmono := hsteady.forward
  constructor
  · intro hkept n d hfirst
    rcases (arms_iff config ticks n d).mp ((hkept.1 n d).mpr hfirst) with ⟨hdate, -, hpending⟩
    exact ⟨hdate, hpending⟩
  · intro htimely
    refine ⟨htimely.arms_iff hmono, ?_⟩
    rintro d hstart ⟨n, hpast⟩
    rcases exists_firstInLead (hsteady.exists_inLead hstart hpast) with ⟨i, hfirst⟩
    refine ⟨i, (htimely.arms_iff hmono i d).mpr hfirst, ?_⟩
    intro j hj
    exact ((htimely.arms_iff hmono j d).mp hj).unique hfirst

/-- Two minutes past midnight, with the lead of five minutes the form proposes. -/
def shortlyAfterMidnight : Config where
  hour := 0
  minute := 2
  leadSeconds := 300
  deferIfPlayers := false
  hour_lt := by decide
  minute_lt := by decide
  leadSeconds_pos := by decide

/-- A tick each minute from three minutes before midnight on. -/
def eachMinute (n : ℕ) : Moment where
  now := day + (n - 3) * (60 * second)

theorem eachMinute_steady : Steady shortlyAfterMidnight.lead (clock eachMinute) := by
  intro n
  simp only [clock, eachMinute, Config.lead, shortlyAfterMidnight, day, second]
  omega

def noon : Config where
  hour := 12
  minute := 0
  leadSeconds := 300
  deferIfPlayers := false
  hour_lt := by decide
  minute_lt := by decide
  leadSeconds_pos := by decide

theorem noon_steady : Steady noon.lead (clock eachMinute) := eachMinute_steady

theorem recurring_restart_kept_iff_sample : Kept noon eachMinute :=
  (recurring_restart_kept_iff noon eachMinute noon_steady).mpr
    (timely_of_lead_le noon_steady (fun _ => ⟨rfl, rfl⟩) (by decide) (by decide))

/-- The first tick within the lead, at three minutes to midnight, arms nothing. -/
theorem restart_after_midnight_not_armed :
    ¬ ∀ (config : Config) (ticks : ℕ → Moment), Steady config.lead (clock ticks) →
      Kept config ticks := by
  intro h
  have hkept := h shortlyAfterMidnight eachMinute eachMinute_steady
  have hfirst : FirstInLead shortlyAfterMidnight.lead (shortlyAfterMidnight.target 1)
      (clock eachMinute) 0 := ⟨by decide +kernel, nofun⟩
  have harms := (hkept.1 0 1).mpr hfirst
  simp only [Arms] at harms
  exact absurd harms (by decide +kernel)

end RecurringRestart
