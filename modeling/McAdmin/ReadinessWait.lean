import Mathlib.Algebra.Order.Field.Rat
import Mathlib.Data.Rat.Floor
import Mathlib.Tactic.Linarith

/-!
# Waiting for the server to be ready

After a restoration the worker starts the container and looks at it until it is healthy, or,
when it has no health check, until it has run for a while.  The deadline bounds the looks
whatever they show, and the clock of the running starts anew whenever the container is seen in
another status.
-/

namespace ReadinessWait

abbrev Text := List Char

/-! ### The controller -/

inductive Error where
  /-- Docker does not answer, or refuses. -/
  | docker
  | restoreWorker (message : String)
deriving DecidableEq

/-- `^[A-Za-z0-9][A-Za-z0-9_.-]{0,127}$`, of the whole text -/
def validName : Text → Bool
  | [] => false
  | c :: cs =>
    isAlphanum c && decide (cs.length ≤ 127) &&
      cs.all fun c => isAlphanum c || c = '_' || c = '.' || c = '-'
where
  isAlphanum (c : Char) : Bool := c.isUpper || c.isLower || c.isDigit

structure DockerContainerController where
  name : Text
  startupTimeout : ℚ
  pollInterval : ℚ
  name_valid : validName name = true
  startupTimeout_pos : 0 < startupTimeout
  pollInterval_pos : 0 < pollInterval

def DockerContainerController.init (containerName : Text) (startupTimeout pollInterval : ℚ) :
    Except Error DockerContainerController :=
  if hname : validName containerName = true then
    if hdelays : startupTimeout ≤ 0 ∨ pollInterval ≤ 0 then
      .error (.restoreWorker "délais de démarrage Minecraft invalides")
    else
      .ok ⟨containerName, startupTimeout, pollInterval, hname,
        not_le.mp fun h => hdelays (.inl h), not_le.mp fun h => hdelays (.inr h)⟩
  else .error (.restoreWorker "nom de conteneur Minecraft invalide")

/-- What `reload` reads of the container. -/
structure Inspection where
  /-- `attrs["State"]["Status"]` -/
  stateStatus : Option String := none
  /-- `attrs["State"]["Health"]["Status"]` -/
  healthStatus : Option String := none
  /-- `attrs["Config"]["Healthcheck"]["Test"]` -/
  healthTest : Option (List String) := none
  /-- `container.status` -/
  status : String := ""

/-- `_readiness`: the status, the health, and whether a health is to be expected -/
def readiness (container : Inspection) : String × Option String × Bool :=
  (match container.stateStatus with
    | some status => if status = "" then container.status else status
    | none => container.status,
    container.healthStatus,
    match container.healthTest with
    | some test => test ≠ [] && test ≠ ["NONE"]
    | none => false)

/-- A look at the container; `reload` may raise. -/
structure Look where
  container : Option Inspection
  now : ℚ

structure Docker where
  /-- The name of the container that `get` finds. -/
  found : Option Text
  /-- `container.status` after the first `reload` -/
  status : Option String
  /-- `container.start` returns. -/
  starts : Bool := true
  began : ℚ
  looks : ℕ → Look

inductive Outcome where
  | returned
  | raised (e : Error)
deriving DecidableEq

/-- A turn of the wait ends it, or goes to sleep with the instant since which the container
has been running. -/
inductive Turn where
  | ends (o : Outcome)
  | sleeps (runningSince : Option ℚ)

/-- `text.removeprefix("/")` -/
def removeSlash : Text → Text
  | '/' :: text => text
  | text => text

namespace DockerContainerController

variable (c : DockerContainerController)

def window : ℚ := min 2 c.startupTimeout

def untilDeadline (deadline now : ℚ) (runningSince : Option ℚ) : Turn :=
  if deadline ≤ now then
    .ends (.raised (.restoreWorker "Minecraft n'est pas devenu healthy dans le délai prévu"))
  else .sleeps runningSince

def turn (deadline : ℚ) (runningSince : Option ℚ) (look : Look) : Turn :=
  match look.container with
  | none => .ends (.raised .docker)
  | some container =>
    let (status, health, healthExpected) := readiness container
    if status = "running" then
      if healthExpected then
        if health = some "healthy" then .ends .returned
        else if health = some "unhealthy" then
          .ends (.raised (.restoreWorker "Minecraft est devenu unhealthy après son démarrage"))
        else untilDeadline deadline look.now runningSince
      else
        match runningSince with
        | none => untilDeadline deadline look.now (some look.now)
        | some since =>
          if c.window ≤ look.now - since then .ends .returned
          else untilDeadline deadline look.now (some since)
    else if status ∈ ["dead", "exited", "removing"] then
      .ends (.raised
        (.restoreWorker s!"Minecraft s'est arrêté pendant son démarrage ({status})"))
    else untilDeadline deadline look.now none

def wait (deadline : ℚ) (looks : ℕ → Look) : ℕ → ℕ → Option ℚ → Option (ℕ × Outcome)
  | 0, _, _ => none
  | fuel + 1, k, runningSince =>
    match c.turn deadline runningSince (looks k) with
    | .ends o => some (k + 1, o)
    | .sleeps runningSince => wait deadline looks fuel (k + 1) runningSince

def start (fuel : ℕ) (docker : Docker) : Option (ℕ × Outcome) :=
  match docker.found with
  | none => some (0, .raised .docker)
  | some found =>
    if removeSlash found ≠ c.name then
      some (0, .raised
        (.restoreWorker "le conteneur Docker résolu ne correspond pas à la cible"))
    else
      match docker.status with
      | none => some (0, .raised .docker)
      | some status =>
        if status ≠ "running" ∧ docker.starts = false then some (0, .raised .docker)
        else c.wait (docker.began + c.startupTimeout) docker.looks fuel 0 none

end DockerContainerController

/-! ### What the looks show -/

namespace Look

def Running (look : Look) : Prop :=
  ∃ container, look.container = some container ∧ (readiness container).1 = "running"

def Checked (look : Look) : Prop :=
  ∃ container, look.container = some container ∧ (readiness container).2.2 = true

def Healthy (look : Look) : Prop :=
  ∃ container, look.container = some container ∧ (readiness container).2.1 = some "healthy"

end Look

namespace DockerContainerController

variable (c : DockerContainerController)

/-- Running at each look, from one without a health check on, for the whole window. -/
def Stable (looks : ℕ → Look) (n : ℕ) : Prop :=
  ∃ first ≤ n, ¬ (looks first).Checked ∧ c.window ≤ (looks n).now - (looks first).now ∧
    ∀ i, first ≤ i → i ≤ n → (looks i).Running

def Ready (looks : ℕ → Look) (n : ℕ) : Prop :=
  (looks n).Running ∧ ((looks n).Checked ∧ (looks n).Healthy ∨
    ¬ (looks n).Checked ∧ c.Stable looks n)

structure Keeps (docker : Docker) : Prop where
  began : docker.began ≤ (docker.looks 0).now
  slept : ∀ k, (docker.looks k).now + c.pollInterval ≤ (docker.looks (k + 1)).now

/-- What is known before a look of the instant since which the container has been running. -/
structure Since (looks : ℕ → Look) (k : ℕ) (runningSince : Option ℚ) : Prop where
  sound : ∀ since, runningSince = some since → ∃ first < k, (looks first).now = since ∧
    ¬ (looks first).Checked ∧ ∀ i, first ≤ i → i < k → (looks i).Running
  earliest : ∀ first < k, ¬ (looks first).Checked →
    (∀ i, first ≤ i → i < k → (looks i).Running) →
    ∃ since, runningSince = some since ∧ since ≤ (looks first).now

section

variable {c} {docker : Docker} {looks : ℕ → Look} {deadline : ℚ} {runningSince : Option ℚ}
  {look : Look} {k n fuel : ℕ} {o : Outcome}

theorem window_pos : 0 < c.window := lt_min (by norm_num) c.startupTimeout_pos

/-! ### One look -/

theorem untilDeadline_ne_returned (deadline now : ℚ) (runningSince : Option ℚ) :
    untilDeadline deadline now runningSince ≠ .ends .returned := by
  rw [untilDeadline]
  split_ifs <;> simp

theorem untilDeadline_sleeps {now : ℚ} {next : Option ℚ}
    (h : untilDeadline deadline now runningSince = .sleeps next) :
    now < deadline ∧ next = runningSince := by
  rw [untilDeadline] at h
  split_ifs at h with hlate
  cases h
  exact ⟨not_le.mp hlate, rfl⟩

theorem not_running (h : look.container = none) : ¬ look.Running := by
  rintro ⟨container, hcontainer, _⟩
  rw [h] at hcontainer
  cases hcontainer

theorem running_iff {container : Inspection} (h : look.container = some container) :
    look.Running ↔ (readiness container).1 = "running" := by
  simp [Look.Running, h]

theorem checked_iff {container : Inspection} (h : look.container = some container) :
    look.Checked ↔ (readiness container).2.2 = true := by
  simp [Look.Checked, h]

theorem healthy_iff {container : Inspection} (h : look.container = some container) :
    look.Healthy ↔ (readiness container).2.1 = some "healthy" := by
  simp [Look.Healthy, h]

theorem turn_returned_iff :
    c.turn deadline runningSince look = .ends .returned ↔
      look.Running ∧ (look.Checked ∧ look.Healthy ∨
        ¬ look.Checked ∧ ∃ since, runningSince = some since ∧ c.window ≤ look.now - since) := by
  cases hcontainer : look.container with
  | none => simp [turn, hcontainer, not_running hcontainer]
  | some container =>
    rw [running_iff hcontainer, checked_iff hcontainer, healthy_iff hcontainer]
    simp only [turn, hcontainer]
    rcases readiness container with ⟨status, health, healthExpected⟩
    have hwaits := untilDeadline_ne_returned deadline look.now
    simp only
    by_cases hrunning : status = "running"
    · cases healthExpected with
      | true =>
        by_cases hhealthy : health = some "healthy"
        · simp [hrunning, hhealthy]
        · by_cases hunhealthy : health = some "unhealthy"
          · simp [hrunning, hunhealthy]
          · simp [hrunning, hhealthy, hunhealthy, hwaits]
      | false =>
        cases runningSince with
        | none => simp [hrunning, hwaits]
        | some since =>
          by_cases hwindow : c.window ≤ look.now - since
          · simp [hrunning, hwindow]
          · simp [hrunning, hwindow, hwaits]
    · by_cases hstopped : status ∈ ["dead", "exited", "removing"]
      · simp only [hrunning, hstopped, if_true, if_false, false_and, iff_false]
        simp
      · simp only [hrunning, hstopped, if_false, false_and, iff_false]
        exact hwaits none

theorem turn_sleeps {next : Option ℚ} (h : c.turn deadline runningSince look = .sleeps next) :
    look.now < deadline ∧
      (look.Running ∧ look.Checked ∧ next = runningSince ∨
        look.Running ∧ ¬ look.Checked ∧ next = some (runningSince.getD look.now) ∨
        ¬ look.Running ∧ next = none) := by
  cases hcontainer : look.container with
  | none => simp [turn, hcontainer] at h
  | some container =>
    rw [running_iff hcontainer, checked_iff hcontainer]
    simp only [turn, hcontainer] at h
    rcases hread : readiness container with ⟨status, health, healthExpected⟩
    simp only [hread] at h ⊢
    by_cases hrunning : status = "running"
    · rw [if_pos hrunning] at h
      cases healthExpected with
      | true =>
        rw [if_pos rfl] at h
        split_ifs at h
        rcases untilDeadline_sleeps h with ⟨hbefore, hnext⟩
        exact ⟨hbefore, .inl ⟨hrunning, rfl, hnext⟩⟩
      | false =>
        rw [if_neg Bool.false_ne_true] at h
        cases runningSince with
        | none =>
          rcases untilDeadline_sleeps h with ⟨hbefore, hnext⟩
          exact ⟨hbefore, .inr (.inl ⟨hrunning, Bool.false_ne_true, hnext⟩)⟩
        | some since =>
          simp only at h
          split_ifs at h
          rcases untilDeadline_sleeps h with ⟨hbefore, hnext⟩
          exact ⟨hbefore, .inr (.inl ⟨hrunning, Bool.false_ne_true, hnext⟩)⟩
    · rw [if_neg hrunning] at h
      split_ifs at h
      rcases untilDeadline_sleeps h with ⟨hbefore, hnext⟩
      exact ⟨hbefore, .inr (.inr ⟨hrunning, hnext⟩)⟩

theorem turn_late (h : deadline ≤ look.now) : ∃ o, c.turn deadline runningSince look = .ends o := by
  cases hturn : c.turn deadline runningSince look with
  | ends o => exact ⟨o, rfl⟩
  | sleeps next => exact absurd (turn_sleeps hturn).1 (not_lt.mpr h)

/-! ### The clock -/

theorem Keeps.lt_succ (h : c.Keeps docker) (k : ℕ) :
    (docker.looks k).now < (docker.looks (k + 1)).now :=
  (lt_add_of_pos_right _ c.pollInterval_pos).trans_le (h.slept k)

theorem Keeps.strictMono (h : c.Keeps docker) : StrictMono fun k => (docker.looks k).now :=
  strictMono_nat_of_lt_succ h.lt_succ

theorem Keeps.elapsed (h : c.Keeps docker) (k : ℕ) :
    docker.began + k * c.pollInterval ≤ (docker.looks k).now := by
  induction k with
  | zero => simpa using h.began
  | succ k ih =>
    have hslept := h.slept k
    push_cast
    linarith

theorem Keeps.late (h : c.Keeps docker) :
    docker.began + c.startupTimeout ≤
      (docker.looks ⌈c.startupTimeout / c.pollInterval⌉₊).now := by
  have helapsed := h.elapsed ⌈c.startupTimeout / c.pollInterval⌉₊
  have hceil : c.startupTimeout ≤ ⌈c.startupTimeout / c.pollInterval⌉₊ * c.pollInterval :=
    (div_le_iff₀ c.pollInterval_pos).mp (Nat.le_ceil _)
  linarith

/-! ### Since when the container has been running -/

theorem since_zero : Since looks 0 none where
  sound since h := by cases h
  earliest first h := absurd h (Nat.not_lt_zero first)

theorem Since.next (h : Since docker.looks k runningSince) (hkeeps : c.Keeps docker)
    {next : Option ℚ} (hturn : c.turn deadline runningSince (docker.looks k) = .sleeps next) :
    Since docker.looks (k + 1) next := by
  -- a look that sees it running lengthens the stretch by one
  have hextend : ∀ first, (∀ i, first ≤ i → i < k → (docker.looks i).Running) →
      (docker.looks k).Running → ∀ i, first ≤ i → i < k + 1 → (docker.looks i).Running := by
    intro first hbefore hnow i hfirst hi
    rcases Nat.lt_succ_iff_lt_or_eq.mp hi with hi | rfl
    · exact hbefore i hfirst hi
    · exact hnow
  rcases (turn_sleeps hturn).2 with ⟨hrunning, hchecked, rfl⟩ | ⟨hrunning, hchecked, rfl⟩ |
    ⟨hrunning, rfl⟩
  · constructor
    · intro since hsince
      rcases h.sound since hsince with ⟨first, hfirst, hnow, hunchecked, hbefore⟩
      exact ⟨first, Nat.lt_succ_of_lt hfirst, hnow, hunchecked, hextend first hbefore hrunning⟩
    · intro first hfirst hunchecked hbefore
      have hne : first ≠ k := by
        rintro rfl
        exact hunchecked hchecked
      apply h.earliest first (by omega) hunchecked
      exact fun i hi hlt => hbefore i hi (Nat.lt_succ_of_lt hlt)
  · constructor
    · intro since hsince
      obtain rfl := Option.some_inj.mp hsince
      cases hbegun : runningSince with
      | none =>
        refine ⟨k, Nat.lt_succ_self k, rfl, hchecked, hextend k ?_ hrunning⟩
        exact fun i hi hlt => absurd hlt (not_lt.mpr hi)
      | some since =>
        rcases h.sound since hbegun with ⟨first, hfirst, hnow, hunchecked, hbefore⟩
        exact ⟨first, Nat.lt_succ_of_lt hfirst, hnow, hunchecked, hextend first hbefore hrunning⟩
    · intro first hfirst hunchecked hbefore
      refine ⟨_, rfl, ?_⟩
      rcases Nat.lt_succ_iff_lt_or_eq.mp hfirst with hlt | rfl
      · rcases h.earliest first hlt hunchecked fun i hi hik =>
          hbefore i hi (Nat.lt_succ_of_lt hik) with ⟨since, rfl, hle⟩
        exact hle
      · cases hbegun : runningSince with
        | none => exact le_refl _
        | some since =>
          rcases h.sound since hbegun with ⟨earlier, hearlier, rfl, _⟩
          exact hkeeps.strictMono.monotone hearlier.le
  · constructor
    · intro since hsince
      cases hsince
    · intro first hfirst _ hbefore
      exact absurd (hbefore k (Nat.lt_succ_iff.mp hfirst) (Nat.lt_succ_self k)) hrunning

theorem Since.stable_iff (h : Since docker.looks k runningSince)
    (hrunning : (docker.looks k).Running) :
    c.Stable docker.looks k ↔
      ∃ since, runningSince = some since ∧ c.window ≤ (docker.looks k).now - since := by
  constructor
  · rintro ⟨first, hfirst, hunchecked, hwindow, hall⟩
    have hne : first ≠ k := by
      rintro rfl
      rw [sub_self] at hwindow
      exact not_lt.mpr hwindow window_pos
    rcases h.earliest first (lt_of_le_of_ne hfirst hne) hunchecked
      fun i hi hlt => hall i hi hlt.le with ⟨since, hsince, hle⟩
    exact ⟨since, hsince, hwindow.trans (sub_le_sub_left hle _)⟩
  · rintro ⟨since, hsince, hwindow⟩
    rcases h.sound since hsince with ⟨first, hfirst, rfl, hunchecked, hbefore⟩
    refine ⟨first, hfirst.le, hunchecked, hwindow, fun i hi hle => ?_⟩
    rcases lt_or_eq_of_le hle with hlt | rfl
    · exact hbefore i hi hlt
    · exact hrunning

/-! ### The wait -/

theorem wait_returned_iff (hkeeps : c.Keeps docker) (h : Since docker.looks k runningSince)
    (hwait : c.wait deadline docker.looks fuel k runningSince = some (n, o)) :
    o = .returned ↔ ∃ m, n = m + 1 ∧ c.Ready docker.looks m := by
  induction fuel generalizing k runningSince with
  | zero => cases hwait
  | succ fuel ih =>
    rw [wait] at hwait
    cases hturn : c.turn deadline runningSince (docker.looks k) with
    | sleeps next =>
      rw [hturn] at hwait
      exact ih (h.next hkeeps hturn) hwait
    | ends last =>
      rw [hturn] at hwait
      obtain ⟨rfl, rfl⟩ := Prod.mk.inj (Option.some_inj.mp hwait)
      have hreturned : last = .returned ↔ c.Ready docker.looks k := by
        have hiff := @turn_returned_iff c deadline runningSince (docker.looks k)
        rw [hturn, Turn.ends.injEq] at hiff
        rw [hiff, Ready]
        exact and_congr_right fun hrunning =>
          or_congr_right (and_congr_right fun _ => (h.stable_iff hrunning).symm)
      rw [hreturned]
      constructor
      · intro hready
        exact ⟨k, rfl, hready⟩
      · rintro ⟨m, hm, hready⟩
        exact (Nat.succ.inj hm) ▸ hready

theorem wait_ends (left k : ℕ) (runningSince : Option ℚ)
    (hlate : deadline ≤ (looks (k + left)).now) :
    ∃ n o, n ≤ k + left + 1 ∧
      ∀ fuel, left + 1 ≤ fuel → c.wait deadline looks fuel k runningSince = some (n, o) := by
  induction left generalizing k runningSince with
  | zero =>
    have hends : ∃ o, c.turn deadline runningSince (looks (k + 0)) = .ends o := turn_late hlate
    rcases hends with ⟨o, hturn⟩
    refine ⟨k + 1, o, le_refl _, fun fuel hfuel => ?_⟩
    obtain ⟨fuel, rfl⟩ := Nat.exists_eq_add_of_le' hfuel
    rw [Nat.add_zero] at hturn
    rw [wait, hturn]
  | succ left ih =>
    cases hturn : c.turn deadline runningSince (looks k) with
    | ends o =>
      refine ⟨k + 1, o, by omega, fun fuel hfuel => ?_⟩
      obtain ⟨fuel, rfl⟩ := Nat.exists_eq_add_of_le' (le_trans (Nat.le_add_left 1 _) hfuel)
      rw [wait, hturn]
    | sleeps next =>
      have hlater : deadline ≤ (looks (k + 1 + left)).now := by
        rw [Nat.add_right_comm]
        exact hlate
      rcases ih (k + 1) next hlater with ⟨n, o, hn, hall⟩
      refine ⟨n, o, by omega, fun fuel hfuel => ?_⟩
      obtain ⟨fuel, rfl⟩ := Nat.exists_eq_add_of_le' (le_trans (Nat.le_add_left 1 _) hfuel)
      rw [wait, hturn]
      exact hall fuel (by omega)

theorem start_cases (c : DockerContainerController) (docker : Docker) :
    (∃ e, ∀ fuel, c.start fuel docker = some (0, .raised e)) ∨
      ∀ fuel, c.start fuel docker =
        c.wait (docker.began + c.startupTimeout) docker.looks fuel 0 none := by
  cases hfound : docker.found with
  | none => exact .inl ⟨.docker, fun fuel => by rw [start, hfound]⟩
  | some found =>
    by_cases hname : removeSlash found ≠ c.name
    · exact .inl ⟨_, fun fuel => by simp only [start, hfound, if_pos hname]; rfl⟩
    cases hstatus : docker.status with
    | none => exact .inl ⟨.docker, fun fuel => by simp only [start, hfound, if_neg hname, hstatus]⟩
    | some status =>
      by_cases hfails : status ≠ "running" ∧ docker.starts = false
      · refine .inl ⟨.docker, fun fuel => ?_⟩
        simp only [start, hfound, if_neg hname, hstatus, if_pos hfails]
      · refine .inr fun fuel => ?_
        simp only [start, hfound, if_neg hname, hstatus, if_neg hfails]

theorem Ready.window {last : ℕ} (h : c.Ready docker.looks last) (hkeeps : c.Keeps docker) :
    (docker.looks last).Checked ∧ (docker.looks last).Healthy ∨
      ¬ (docker.looks last).Checked ∧ ∀ i ≤ last,
        (docker.looks last).now - (docker.looks i).now ≤ c.window → (docker.looks i).Running := by
  refine h.2.imp_right fun ⟨hunchecked, first, _, _, hwindow, hall⟩ => ⟨hunchecked, ?_⟩
  intro i hi hrecent
  have hlater : (docker.looks first).now ≤ (docker.looks i).now := by linarith
  exact hall i (hkeeps.strictMono.le_iff_le.mp hlater) hi

end

end DockerContainerController

open DockerContainerController

/-- The start ends after so many looks whatever they show.  It returns when the last one is
healthy, or unchecked after a whole window of running, and raises otherwise. -/
theorem start_ends (c : DockerContainerController) (docker : Docker) (h : c.Keeps docker) :
    ∃ n o, n ≤ ⌈c.startupTimeout / c.pollInterval⌉₊ + 1 ∧
      (∀ fuel, ⌈c.startupTimeout / c.pollInterval⌉₊ + 1 ≤ fuel →
        c.start fuel docker = some (n, o)) ∧
      (o = .returned ↔ ∃ last, n = last + 1 ∧ c.Ready docker.looks last) ∧
      (o = .returned → ∃ last, n = last + 1 ∧ (docker.looks last).Running ∧
        ((docker.looks last).Checked ∧ (docker.looks last).Healthy ∨
          ¬ (docker.looks last).Checked ∧ ∀ i ≤ last,
            (docker.looks last).now - (docker.looks i).now ≤ c.window →
              (docker.looks i).Running)) := by
  rcases start_cases c docker with ⟨e, hstart⟩ | hstart
  · exact ⟨0, .raised e, Nat.zero_le _, fun fuel _ => hstart fuel, by simp, by simp⟩
  · have hlate : docker.began + c.startupTimeout ≤
        (docker.looks (0 + ⌈c.startupTimeout / c.pollInterval⌉₊)).now := by
      rw [Nat.zero_add]
      exact h.late
    rcases wait_ends (c := c) ⌈c.startupTimeout / c.pollInterval⌉₊ 0 none hlate with
      ⟨n, o, hn, hall⟩
    rw [Nat.zero_add] at hn
    have hreturned := wait_returned_iff h since_zero (hall _ (le_refl _))
    refine ⟨n, o, hn, fun fuel hfuel => (hstart fuel).trans (hall fuel hfuel), hreturned, ?_⟩
    intro ho
    rcases hreturned.mp ho with ⟨last, hlast, hready⟩
    exact ⟨last, hlast, hready.1, hready.window h⟩

def minecraft : DockerContainerController where
  name := "minecraft".toList
  startupTimeout := 10
  pollInterval := 1
  name_valid := by decide
  startupTimeout_pos := by norm_num
  pollInterval_pos := by norm_num

/-- A container without a health check that runs, but is seen restarting at the second look. -/
def flapping : Docker where
  found := some "/minecraft".toList
  status := some "exited"
  began := 0
  looks k := ⟨some { status := if k = 1 then "restarting" else "running" }, k⟩

/-- It is the third second of running that counts. -/
theorem start_ends_flapping :
    minecraft.start 20 flapping = some (5, .returned) ∧
    ∃ n o, n ≤ ⌈minecraft.startupTimeout / minecraft.pollInterval⌉₊ + 1 ∧
      (∀ fuel, ⌈minecraft.startupTimeout / minecraft.pollInterval⌉₊ + 1 ≤ fuel →
        minecraft.start fuel flapping = some (n, o)) ∧
      (o = .returned ↔ ∃ last, n = last + 1 ∧ minecraft.Ready flapping.looks last) := by
  have hkeeps : minecraft.Keeps flapping := by
    refine ⟨by simp [flapping], fun k => ?_⟩
    have hsecond : ((k + 1 : ℕ) : ℚ) = k + 1 := Nat.cast_succ k
    exact hsecond.ge
  rcases start_ends minecraft flapping hkeeps with ⟨n, o, hn, hstart, hreturned, _⟩
  exact ⟨by decide +kernel, n, o, hn, hstart, hreturned⟩

end ReadinessWait
