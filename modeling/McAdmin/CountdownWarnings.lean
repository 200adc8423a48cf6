import Mathlib.Algebra.Order.Field.Rat
import Mathlib.Data.Finset.Basic
import Mathlib.Data.List.Sort
import Mathlib.Order.Bounds.Basic
import Mathlib.Tactic.NormNum

/-!
# The warnings of a countdown

A restart and a maintenance are announced, and warnings follow as the time runs out.  Which
thresholds are behind is settled when the countdown begins, and from then on each poll takes
the largest that is left: the thresholds go out in order, one at a poll.
-/

namespace CountdownWarnings

/-! ### The two adapters -/

def defaultThresholds : List ℤ := [600, 300, 60, 30, 10]

/-- `(deadline - now).total_seconds()`, of instants in microseconds -/
def remaining (deadline now : ℤ) : ℚ := ((deadline - now : ℤ) : ℚ) / 1000000

/-- `tuple(sorted(warning_thresholds, reverse=True))` -/
def descending (warningThresholds : List ℤ) : List ℤ := warningThresholds.insertionSort (· ≥ ·)

/-- `{t for t in self._thresholds if t > total_seconds}` -/
def above (thresholds : List ℤ) (totalSeconds : ℚ) : Finset ℤ :=
  (thresholds.filter fun t : ℤ => totalSeconds < (t : ℚ)).toFinset

/-- The loop of both `take_due_warning`. -/
def firstDue (thresholds : List ℤ) (announced : Finset ℤ) (remaining : ℚ) : Option ℤ :=
  thresholds.find? fun threshold => remaining ≤ threshold ∧ threshold ∉ announced

structure ScheduledRestart where
  restartAt : ℤ
  scheduledBy : String
  deferIfPlayers : Bool := false
deriving DecidableEq

structure InMemoryRestartSchedule where
  state : Option ScheduledRestart := none
  thresholds : List ℤ
  announced : Finset ℤ := ∅

namespace InMemoryRestartSchedule

def init (warningThresholds : List ℤ) : InMemoryRestartSchedule :=
  { thresholds := descending warningThresholds }

def schedule (restartAt : ℤ) (username : String) (totalSeconds : ℚ) (deferIfPlayers : Bool)
    (s : InMemoryRestartSchedule) : InMemoryRestartSchedule :=
  { s with
    state := some ⟨restartAt, username, deferIfPlayers⟩
    announced := above s.thresholds totalSeconds }

def cancel (s : InMemoryRestartSchedule) : Bool × InMemoryRestartSchedule :=
  (s.state.isSome, { s with state := none, announced := ∅ })

def takeDueWarning (now : ℤ) (s : InMemoryRestartSchedule) :
    Option ℤ × InMemoryRestartSchedule :=
  match s.state with
  | none => (none, s)
  | some pending =>
    match firstDue s.thresholds s.announced (remaining pending.restartAt now) with
    | none => (none, s)
    | some threshold => (some threshold, { s with announced := insert threshold s.announced })

end InMemoryRestartSchedule

structure PendingMaintenance where
  engageAt : ℤ
  requestedBy : String
  motd : String
  kick : String
  operationId : String := ""
  deferIfPlayers : Bool := false
deriving DecidableEq

structure InMemoryPendingMaintenance where
  state : Option PendingMaintenance := none
  thresholds : List ℤ
  announced : Finset ℤ := ∅

namespace InMemoryPendingMaintenance

def init (warningThresholds : List ℤ) : InMemoryPendingMaintenance :=
  { thresholds := descending warningThresholds }

def schedule (isoformat : ℤ → String) (engageAt : ℤ) (username motd kick : String)
    (totalSeconds : ℚ) (deferIfPlayers : Bool) (s : InMemoryPendingMaintenance) :
    InMemoryPendingMaintenance :=
  { s with
    state := some
      ⟨engageAt, username, motd, kick, "maintenance::" ++ isoformat engageAt, deferIfPlayers⟩
    announced := above s.thresholds totalSeconds }

def cancel (s : InMemoryPendingMaintenance) : Bool × InMemoryPendingMaintenance :=
  (s.state.isSome, { s with state := none, announced := ∅ })

def takeDueWarning (now : ℤ) (s : InMemoryPendingMaintenance) :
    Option ℤ × InMemoryPendingMaintenance :=
  match s.state with
  | none => (none, s)
  | some pending =>
    match firstDue s.thresholds s.announced (remaining pending.engageAt now) with
    | none => (none, s)
    | some threshold => (some threshold, { s with announced := insert threshold s.announced })

end InMemoryPendingMaintenance

/-! ### Their uses -/

/-- What a countdown is begun with; the texts are for a maintenance only. -/
structure Request where
  deadline : ℤ
  username : String
  motd : String := ""
  kick : String := ""
  totalSeconds : ℚ
  deferIfPlayers : Bool := false

inductive Event where
  | schedule (r : Request)
  | cancel
  | poll (now : ℤ)

def InMemoryRestartSchedule.step (s : InMemoryRestartSchedule) :
    Event → Option ℤ × InMemoryRestartSchedule
  | .schedule r => (none, s.schedule r.deadline r.username r.totalSeconds r.deferIfPlayers)
  | .cancel => (none, s.cancel.2)
  | .poll now => s.takeDueWarning now

def InMemoryPendingMaintenance.step (isoformat : ℤ → String) (s : InMemoryPendingMaintenance) :
    Event → Option ℤ × InMemoryPendingMaintenance
  | .schedule r =>
    (none, s.schedule isoformat r.deadline r.username r.motd r.kick r.totalSeconds
      r.deferIfPlayers)
  | .cancel => (none, s.cancel.2)
  | .poll now => s.takeDueWarning now

section

variable {σ τ : Type}

def after (step : σ → Event → Option ℤ × σ) (s : σ) (events : List Event) : σ :=
  events.foldl (fun s event => (step s event).2) s

def warnings (step : σ → Event → Option ℤ × σ) : σ → List Event → List ℤ
  | _, [] => []
  | s, event :: events => (step s event).1.toList ++ warnings step (step s event).2 events

variable {step : σ → Event → Option ℤ × σ} {step' : τ → Event → Option ℤ × τ} {view : σ → τ}

theorem after_append (s : σ) (events events' : List Event) :
    after step s (events ++ events') = after step (after step s events) events' :=
  List.foldl_append

theorem after_view
    (hview : ∀ s event, step' (view s) event = ((step s event).1, view (step s event).2))
    (s : σ) (events : List Event) : after step' (view s) events = view (after step s events) := by
  induction events generalizing s with
  | nil => rfl
  | cons event events ih =>
    have hnext : (step' (view s) event).2 = view (step s event).2 := by rw [hview]
    exact (congrArg (after step' · events) hnext).trans (ih _)

theorem warnings_view
    (hview : ∀ s event, step' (view s) event = ((step s event).1, view (step s event).2))
    (s : σ) (events : List Event) : warnings step' (view s) events = warnings step s events := by
  induction events generalizing s with
  | nil => rfl
  | cons event events ih => rw [warnings, hview, ih, warnings]

end

/-! ### What they have in common -/

structure Countdown where
  deadline : Option ℤ := none
  thresholds : List ℤ
  announced : Finset ℤ := ∅

def Countdown.poll (now : ℤ) (c : Countdown) : Option ℤ × Countdown :=
  match c.deadline with
  | none => (none, c)
  | some deadline =>
    match firstDue c.thresholds c.announced (remaining deadline now) with
    | none => (none, c)
    | some threshold => (some threshold, { c with announced := insert threshold c.announced })

def Countdown.step (c : Countdown) : Event → Option ℤ × Countdown
  | .schedule r =>
    (none, { c with deadline := some r.deadline, announced := above c.thresholds r.totalSeconds })
  | .cancel => (none, { c with deadline := none, announced := ∅ })
  | .poll now => c.poll now

def InMemoryRestartSchedule.countdown (s : InMemoryRestartSchedule) : Countdown :=
  ⟨s.state.map (·.restartAt), s.thresholds, s.announced⟩

def InMemoryPendingMaintenance.countdown (s : InMemoryPendingMaintenance) : Countdown :=
  ⟨s.state.map (·.engageAt), s.thresholds, s.announced⟩

theorem InMemoryRestartSchedule.step_countdown (s : InMemoryRestartSchedule) (event : Event) :
    s.countdown.step event = ((s.step event).1, (s.step event).2.countdown) := by
  cases event with
  | schedule r => rfl
  | cancel => rfl
  | poll now =>
    rcases s with ⟨_ | pending, thresholds, announced⟩
    · rfl
    · simp only [countdown, Countdown.step, Countdown.poll, step, takeDueWarning, Option.map_some]
      cases firstDue thresholds announced (remaining pending.restartAt now) with
      | none => rfl
      | some threshold => rfl

theorem InMemoryPendingMaintenance.step_countdown (isoformat : ℤ → String)
    (s : InMemoryPendingMaintenance) (event : Event) :
    s.countdown.step event =
      ((s.step isoformat event).1, (s.step isoformat event).2.countdown) := by
  cases event with
  | schedule r => rfl
  | cancel => rfl
  | poll now =>
    rcases s with ⟨_ | pending, thresholds, announced⟩
    · rfl
    · simp only [countdown, Countdown.step, Countdown.poll, step, takeDueWarning, Option.map_some]
      cases firstDue thresholds announced (remaining pending.engageAt now) with
      | none => rfl
      | some threshold => rfl

/-- The thresholds within the total that the time has reached and that were not returned. -/
def Outstanding (thresholds : List ℤ) (totalSeconds remaining : ℚ) (returned : List ℤ) : Set ℤ :=
  {t | t ∈ thresholds ∧ remaining ≤ t ∧ (t : ℚ) ≤ totalSeconds ∧ t ∉ returned}

def Applying (thresholds : List ℤ) (remaining : ℚ) : Set ℤ :=
  {t | t ∈ thresholds ∧ remaining ≤ t}

section

variable {thresholds returned : List ℤ} {announced : Finset ℤ} {total left : ℚ} {c : Countdown}
  {t deadline now : ℤ}

theorem mem_descending : t ∈ descending thresholds ↔ t ∈ thresholds :=
  (List.perm_insertionSort _ _).mem_iff

theorem descending_sorted (thresholds : List ℤ) : (descending thresholds).Pairwise (· ≥ ·) :=
  List.pairwise_insertionSort _ _

theorem mem_above : t ∈ above thresholds total ↔ t ∈ thresholds ∧ total < t := by
  simp [above]

theorem firstDue_eq_some (hsorted : thresholds.Pairwise (· ≥ ·)) :
    firstDue thresholds announced left = some t ↔
      IsGreatest {t | t ∈ thresholds ∧ left ≤ t ∧ t ∉ announced} t := by
  induction thresholds with
  | nil => simp [firstDue, IsGreatest]
  | cons first thresholds ih =>
    rcases List.pairwise_cons.mp hsorted with ⟨hfirst, hrest⟩
    by_cases hdue : left ≤ first ∧ first ∉ announced
    · have hgreatest :
          IsGreatest {t | t ∈ first :: thresholds ∧ left ≤ t ∧ t ∉ announced} first := by
        refine ⟨⟨List.mem_cons_self, hdue⟩, ?_⟩
        rintro other ⟨hmem, _⟩
        rcases List.mem_cons.mp hmem with rfl | hmem
        · exact le_refl _
        · exact hfirst other hmem
      have hfound : firstDue (first :: thresholds) announced left = some first := by
        simp [firstDue, hdue]
      rw [hfound, Option.some_inj]
      exact ⟨fun h => h ▸ hgreatest, fun h => hgreatest.unique h⟩
    · have hskip : firstDue (first :: thresholds) announced left =
          firstDue thresholds announced left := by
        rw [firstDue, List.find?_cons_of_neg (by simpa using hdue), firstDue]
      have hset : {t | t ∈ first :: thresholds ∧ left ≤ t ∧ t ∉ announced} =
          {t | t ∈ thresholds ∧ left ≤ t ∧ t ∉ announced} := by
        ext other
        constructor
        · rintro ⟨hmem, hother⟩
          rcases List.mem_cons.mp hmem with rfl | hmem
          · exact absurd hother hdue
          · exact ⟨hmem, hother⟩
        · rintro ⟨hmem, hother⟩
          exact ⟨List.mem_cons_of_mem _ hmem, hother⟩
      rw [hskip, hset, ih hrest]

/-! ### A countdown under way -/

structure Underway (thresholds : List ℤ) (total : ℚ) (deadline : ℤ) (returned : List ℤ)
    (c : Countdown) : Prop where
  pending : c.deadline = some deadline
  configured : c.thresholds = descending thresholds
  announced : ∀ t ∈ thresholds, t ∈ c.announced ↔ total < t ∨ t ∈ returned
  within : ∀ t ∈ returned, (t : ℚ) ≤ total
  /-- The larger thresholds go out before. -/
  inOrder : ∀ t ∈ returned, ∀ t' ∈ thresholds, t < t' → (t' : ℚ) ≤ total → t' ∈ returned
  decreasing : returned.Pairwise (· > ·)

theorem underway_schedule (r : Request) (hthresholds : c.thresholds = descending thresholds) :
    Underway thresholds r.totalSeconds r.deadline [] (c.step (.schedule r)).2 where
  pending := rfl
  configured := hthresholds
  announced t ht := by
    simp only [Countdown.step, hthresholds, mem_above, mem_descending, ht, true_and,
      List.not_mem_nil, or_false]
  within t ht := by cases ht
  inOrder t ht := by cases ht
  decreasing := List.Pairwise.nil

theorem Underway.poll_eq_some (h : Underway thresholds total deadline returned c) :
    (c.poll now).1 = some t ↔
      IsGreatest (Outstanding thresholds total (remaining deadline now) returned) t := by
  have hanswer : (c.poll now).1 =
      firstDue (descending thresholds) c.announced (remaining deadline now) := by
    simp only [Countdown.poll, h.pending, h.configured]
    cases firstDue (descending thresholds) c.announced (remaining deadline now) with
    | none => rfl
    | some t => rfl
  have hset : {t | t ∈ descending thresholds ∧ remaining deadline now ≤ t ∧ t ∉ c.announced} =
      Outstanding thresholds total (remaining deadline now) returned := by
    ext t
    constructor
    · rintro ⟨hmem, hreached, hnew⟩
      rw [mem_descending] at hmem
      rw [h.announced t hmem, not_or, not_lt] at hnew
      exact ⟨hmem, hreached, hnew⟩
    · rintro ⟨hmem, hreached, hnew⟩
      refine ⟨mem_descending.mpr hmem, hreached, ?_⟩
      rw [h.announced t hmem, not_or, not_lt]
      exact hnew
  rw [hanswer, firstDue_eq_some (descending_sorted _), hset]

theorem Underway.poll (h : Underway thresholds total deadline returned c) (now : ℤ) :
    Underway thresholds total deadline (returned ++ (c.poll now).1.toList) (c.poll now).2 := by
  cases hanswer : (c.poll now).1 with
  | none =>
    have hsame : (c.poll now).2 = c := by
      simp only [Countdown.poll, h.pending] at hanswer ⊢
      cases hdue : firstDue c.thresholds c.announced (remaining deadline now) with
      | none => rfl
      | some t => simp [hdue] at hanswer
    rw [hsame]
    simpa using h
  | some t =>
    have hnext : (c.poll now).2 = { c with announced := insert t c.announced } := by
      simp only [Countdown.poll, h.pending] at hanswer ⊢
      cases hdue : firstDue c.thresholds c.announced (remaining deadline now) with
      | none => simp [hdue] at hanswer
      | some t' =>
        simp only [hdue, Option.some_inj] at hanswer
        rw [hanswer]
    rcases h.poll_eq_some.mp hanswer with ⟨⟨hmem, hreached, hwithin, hnew⟩, hgreatest⟩
    rw [hnext]
    refine ⟨h.pending, h.configured, ?_, ?_, ?_, ?_⟩
    · intro t' ht'
      rw [Finset.mem_insert, h.announced t' ht', Option.toList_some, List.mem_append,
        List.mem_singleton]
      tauto
    · intro t' ht'
      rcases List.mem_append.mp ht' with ht' | ht'
      · exact h.within t' ht'
      · exact (List.mem_singleton.mp ht') ▸ hwithin
    · intro t' ht' other hother hlarger hbelow
      rcases List.mem_append.mp ht' with ht' | ht'
      · exact List.mem_append_left _ (h.inOrder t' ht' other hother hlarger hbelow)
      · -- a larger one that was left would have gone out in its place
        obtain rfl := List.mem_singleton.mp ht'
        apply List.mem_append_left
        by_contra hleft
        have hlater : remaining deadline now ≤ other :=
          hreached.trans (by exact_mod_cast hlarger.le)
        exact not_le.mpr hlarger (hgreatest ⟨hother, hlater, hbelow, hleft⟩)
    · refine List.pairwise_append.mpr ⟨h.decreasing, List.pairwise_singleton _ _, ?_⟩
      intro t' ht' other hother
      obtain rfl := List.mem_singleton.mp hother
      by_contra hsmaller
      rcases lt_or_eq_of_le (not_lt.mp hsmaller) with hlarger | heq
      · exact hnew (h.inOrder t' ht' other hmem hlarger hwithin)
      · exact hnew (heq ▸ ht')

theorem Underway.polls (h : Underway thresholds total deadline returned c) (polls : List ℤ) :
    Underway thresholds total deadline (returned ++ warnings Countdown.step c (polls.map .poll))
      (after Countdown.step c (polls.map .poll)) := by
  induction polls generalizing returned c with
  | nil => simpa [warnings, after] using h
  | cons now polls ih =>
    have hnext := ih (h.poll now)
    rw [List.append_assoc] at hnext
    exact hnext

theorem Underway.tightest_iff (h : Underway thresholds total deadline returned c)
    (hanswer : (c.poll now).1 = some t) :
    IsLeast (Applying thresholds (remaining deadline now)) t ↔
      Outstanding thresholds total (remaining deadline now) returned = {t} := by
  rcases h.poll_eq_some.mp hanswer with ⟨hdue, hgreatest⟩
  rcases hdue with ⟨hmem, hreached, hwithin, hnew⟩
  constructor
  · intro hleast
    refine Set.Subset.antisymm (fun other hother => ?_) ?_
    · exact le_antisymm (hgreatest hother) (hleast.2 ⟨hother.1, hother.2.1⟩)
    · exact Set.singleton_subset_iff.mpr ⟨hmem, hreached, hwithin, hnew⟩
  · intro honly
    refine ⟨⟨hmem, hreached⟩, ?_⟩
    rintro other ⟨hother, happlies⟩
    by_contra hsmaller
    have hlt : other < t := not_le.mp hsmaller
    have hbelow : (other : ℚ) ≤ total := le_trans (by exact_mod_cast hlt.le) hwithin
    by_cases hreturned : other ∈ returned
    · exact hnew (h.inOrder other hreturned t hmem hlt hwithin)
    · have hmember : other ∈ Outstanding thresholds total (remaining deadline now) returned :=
        ⟨hother, happlies, hbelow, hreturned⟩
      rw [honly] at hmember
      exact hlt.ne hmember

theorem after_thresholds (c : Countdown) (events : List Event) :
    (after Countdown.step c events).thresholds = c.thresholds := by
  induction events generalizing c with
  | nil => rfl
  | cons event events ih =>
    refine (ih _).trans ?_
    cases event with
    | schedule r => rfl
    | cancel => rfl
    | poll now =>
      simp only [Countdown.step, Countdown.poll]
      cases c.deadline with
      | none => rfl
      | some deadline =>
        cases hdue : firstDue c.thresholds c.announced (remaining deadline now) with
        | none => simp only [hdue]
        | some t => simp only [hdue]

end

/-- The restart's countdown after any use of it, a scheduling and some polls. -/
def scheduled (thresholds : List ℤ) (earlier : List Event) (r : Request) :
    InMemoryRestartSchedule :=
  after InMemoryRestartSchedule.step (.init thresholds) (earlier ++ [.schedule r])

/-- Since the scheduling the thresholds within the total go out from the largest on, each once:
a poll returns the largest one reached that is left.  It is the tightest that applies when it
is the only one left.  The restart and the maintenance return the same. -/
theorem take_due_warning_greatest (thresholds : List ℤ) (isoformat : ℤ → String) :
    (∀ (earlier : List Event) (r : Request) (polls : List ℤ) (now : ℤ),
      let s := scheduled thresholds earlier r
      let returned := warnings InMemoryRestartSchedule.step s (polls.map .poll)
      let s' := after InMemoryRestartSchedule.step s (polls.map .poll)
      let due := Outstanding thresholds r.totalSeconds (remaining r.deadline now) returned
      returned.Pairwise (· > ·) ∧
        ∀ t, ((s'.takeDueWarning now).1 = some t ↔ IsGreatest due t) ∧
          ((s'.takeDueWarning now).1 = some t →
            (IsLeast (Applying thresholds (remaining r.deadline now)) t ↔ due = {t}))) ∧
    ∀ events, warnings InMemoryRestartSchedule.step (.init thresholds) events =
      warnings (InMemoryPendingMaintenance.step isoformat) (.init thresholds) events := by
  refine ⟨fun earlier r polls now => ?_, fun events => ?_⟩
  · have hview := InMemoryRestartSchedule.step_countdown
    have hthresholds : (after Countdown.step (InMemoryRestartSchedule.init thresholds).countdown
        earlier).thresholds = descending thresholds := after_thresholds _ _
    have hschedule := (underway_schedule r hthresholds).polls polls
    have hstart : (scheduled thresholds earlier r).countdown =
        ((after Countdown.step (InMemoryRestartSchedule.init thresholds).countdown earlier).step
          (.schedule r)).2 := by
      rw [scheduled, ← after_view hview, after_append]
      rfl
    rw [← hstart, after_view hview, warnings_view hview, List.nil_append] at hschedule
    have hpoll : ∀ s : InMemoryRestartSchedule,
        (s.takeDueWarning now).1 = (s.countdown.poll now).1 :=
      fun s => (congrArg Prod.fst (hview s (.poll now))).symm
    refine ⟨hschedule.decreasing, fun t => ?_⟩
    rw [hpoll]
    exact ⟨hschedule.poll_eq_some, hschedule.tightest_iff⟩
  · rw [← warnings_view InMemoryRestartSchedule.step_countdown,
      ← warnings_view (InMemoryPendingMaintenance.step_countdown isoformat)]
    rfl

/-- Four minutes are announced, and nothing asks between 59 seconds before the end and 160
after it. -/
def fourMinutes : Request := { deadline := 240000000, username := "jeremy", totalSeconds := 240 }

/-- The second poll says thirty seconds, though ten apply as well. -/
theorem thirty_before_ten :
    ¬ ∀ (r : Request) (polls : List ℤ) (now t : ℤ), (polls ++ [now]).Pairwise (· ≤ ·) →
      ((after InMemoryRestartSchedule.step (scheduled defaultThresholds [] r)
        (polls.map .poll)).takeDueWarning now).1 = some t →
      ¬ ∃ t' ∈ defaultThresholds, t' < t ∧ remaining r.deadline now ≤ t' := by
  intro h
  refine h fourMinutes [181000000] 400000000 30 (by decide) (by decide +kernel)
    ⟨10, by decide, by decide, ?_⟩
  norm_num [remaining, fourMinutes]

end CountdownWarnings
