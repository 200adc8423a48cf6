import McAdmin.BackupProfiles

/-!
# The instructions of a backup run

The container of the profiles sources one file, at some moment between its start and
its end.  A trigger writes that file before it knows whether the container can be
started.
-/

namespace BackupProfiles

open Runs

/-- The container, whenever it reads the file, reads what its run was started for. -/
def InForce (s : State) : Prop := ∀ c ∈ s.running, s.consigne = some c

instance (s : State) : Decidable (InForce s) :=
  inferInstanceAs (Decidable (∀ c ∈ s.running, s.consigne = some c))

/-- While the container runs, a trigger writes other instructions than those of its run. -/
def Overwrites (site : Site) (s : State) (event : Event) : Prop :=
  ∃ c ∈ s.running, ∃ c' ≠ c, match event with
    | .nextProfile m => ∃ now p, dueVisit site s = some (now, p) ∧ s.strict ∧
        m.mark = .done ∧ Writes site m p.id s c'
    | .trigger id m => s.tick = none ∧ Writes site m id s c'
    | _ => False

/-! ### What a trigger does to the file -/

@[simp] theorem recordStart_consigne (m : Moment) (id : String) (started : Bool) (s : State) :
    (recordStart m id started s).consigne = s.consigne := by
  simp only [recordStart]
  split <;> rfl

@[simp] theorem recordStart_running (m : Moment) (id : String) (started : Bool) (s : State) :
    (recordStart m id started s).running = s.running := by
  simp only [recordStart]
  split <;> rfl

theorem inForce_congr {s s' : State} (hconsigne : s'.consigne = s.consigne)
    (hrunning : s'.running = s.running) : InForce s' ↔ InForce s := by
  simp only [InForce]
  rw [hconsigne, hrunning]

theorem inForce_trigger_iff {site : Site} {m : Moment} {id : String} {s : State}
    (h : InForce s) :
    InForce (triggerProfileBackup site m id s).1 ↔
      ¬ ∃ c ∈ s.running, ∃ c' ≠ c, Writes site m id s c' := by
  -- the file is written before the status is read, so that a run at work sees it change
  have hfile : ∀ c, Writes site m id s c →
      (InForce { s with consigne := some c } ↔
        ¬ ∃ c ∈ s.running, ∃ c' ≠ c, Writes site m id s c') := by
    intro c' hwrites
    constructor
    · rintro hforce ⟨c, hc, c'', hne, hwrites'⟩
      rw [hwrites'.eq hwrites] at hne
      exact hne (Option.some.inj (hforce c hc))
    · intro hfree c hc
      by_contra hne
      exact hfree ⟨c, hc, c', fun heq => hne (congrArg some heq), hwrites⟩
  rcases triggerProfileBackup_cases site m id s with ⟨hnot, hsame⟩ | ⟨c', hwrites, hstep⟩
  · rw [hsame]
    refine iff_of_true h ?_
    rintro ⟨c, -, c', -, hwrites⟩
    exact hnot ⟨c', hwrites⟩
  · rcases hstep with ⟨_, hstep⟩ | ⟨_, _, hstep⟩ | ⟨_, hidle, hstep⟩
    · rw [hstep]
      exact hfile c' hwrites
    · rw [hstep]
      exact (inForce_congr (recordStart_consigne m id false _)
        (recordStart_running m id false _)).trans (hfile c' hwrites)
    · have hstarted : InForce (triggerProfileBackup site m id s).1 := by
        rcases hstep with ⟨_, hstep⟩ | ⟨_, hstep⟩
        · rw [hstep]
          apply (inForce_congr (recordStart_consigne m id true _)
            (recordStart_running m id true _)).mpr
          rintro c ⟨⟩
          rfl
        · rw [hstep]
          rintro c ⟨⟩
          rfl
      refine iff_of_true hstarted ?_
      rintro ⟨c, hc, -⟩
      rw [hidle] at hc
      cases hc

/-! ### Every step -/

theorem writes_marked {site : Site} {m : Moment} {id : String} {s : State} (now : Time)
    (c : Consigne) : Writes site m id (s.marked id now) c ↔ Writes site m id s c := by
  unfold Writes State.marked
  simp only [getProfile_setLastRun, Option.mem_def, Option.map_eq_some_iff]
  constructor
  · rintro ⟨hrefused, hissues, hdisk, hvalid, _, ⟨p, hp, rfl⟩, hc⟩
    exact ⟨hrefused, hissues, hdisk, hvalid, p, hp, hc⟩
  · rintro ⟨hrefused, hissues, hdisk, hvalid, p, hp, hc⟩
    exact ⟨hrefused, hissues, hdisk, hvalid, _, ⟨p, hp, rfl⟩, hc⟩

theorem markRun_container (m : Moment) (id : String) (now : Time) (s : State) :
    (markRun m id now s).1.consigne = s.consigne ∧
      (markRun m id now s).1.running = s.running := by
  simp only [markRun]
  split
  · cases m.mark <;> exact ⟨rfl, rfl⟩
  · exact ⟨rfl, rfl⟩

theorem nextProfile_quiet {site : Site} {m : Moment} {s : State}
    (h : ∀ now p, dueVisit site s = some (now, p) → ¬ (s.strict ∧ m.mark = .done)) :
    (nextProfile site m s).consigne = s.consigne ∧
      (nextProfile site m s).running = s.running := by
  simp only [nextProfile]
  split
  · exact ⟨rfl, rfl⟩
  · exact ⟨rfl, rfl⟩
  · rename_i now p rest htick
    rcases markRun_container m p.id now s.advanced with ⟨hconsigne, hrunning⟩
    simp only [visit]
    split
    · exact ⟨rfl, rfl⟩
    · rename_i henabled
      split
      · exact ⟨rfl, rfl⟩
      · exact ⟨rfl, rfl⟩
      · split
        · rename_i s' hmark
          rw [hmark] at hconsigne hrunning
          exact ⟨hconsigne, hrunning⟩
        · rename_i s' hmark
          rw [hmark] at hconsigne hrunning
          exact ⟨hconsigne, hrunning⟩
      · rename_i hdue
        split
        · rename_i s' hmark
          rcases markRun_true hmark with ⟨hstrict, hdone, -⟩
          refine absurd ⟨hstrict, hdone⟩ (h now p ?_)
          simp only [dueVisit]
          rw [htick]
          exact if_pos ⟨by simpa using henabled, hdue⟩
        · rename_i s' hmark
          rw [hmark] at hconsigne hrunning
          exact ⟨hconsigne, hrunning⟩

theorem scanOutcomes_container (s : State) :
    (scanOutcomes s).consigne = s.consigne ∧ (scanOutcomes s).running = s.running := by
  simp only [scanOutcomes]
  split
  · exact ⟨rfl, rfl⟩
  · rename_i hidle
    clear hidle
    generalize s.profiles = profiles
    induction profiles generalizing s with
    | nil => exact ⟨rfl, rfl⟩
    | cons p profiles ih => exact ih _

theorem inForce_nextProfile_iff {site : Site} {s : State} {m : Moment} (h : InForce s) :
    InForce (step site s (.nextProfile m)) ↔ ¬ Overwrites site s (.nextProfile m) := by
  by_cases hvisit : ∃ now p, dueVisit site s = some (now, p) ∧ s.strict ∧ m.mark = .done
  · rcases hvisit with ⟨now, p, hdue, hstrict, hmark⟩
    have hmarked : InForce (s.marked p.id now) := h
    rw [step_dueVisit hdue hstrict hmark, inForce_trigger_iff hmarked]
    refine not_congr ?_
    constructor
    · rintro ⟨c, hc, c', hne, hwrites⟩
      exact ⟨c, hc, c', hne, now, p, hdue, hstrict, hmark, (writes_marked now c').mp hwrites⟩
    · rintro ⟨c, hc, c', hne, now', p', hdue', -, -, hwrites⟩
      rcases Prod.mk.inj (Option.some.inj (hdue.symm.trans hdue')) with ⟨rfl, rfl⟩
      exact ⟨c, hc, c', hne, (writes_marked now c').mpr hwrites⟩
  · have hquiet : ∀ now p, dueVisit site s = some (now, p) → ¬ (s.strict ∧ m.mark = .done) := by
      intro now p hdue hdone
      exact hvisit ⟨now, p, hdue, hdone⟩
    rcases nextProfile_quiet hquiet with ⟨hconsigne, hrunning⟩
    refine iff_of_true ((inForce_congr hconsigne hrunning).mpr h) ?_
    rintro ⟨c, -, c', -, now, p, hdue, hstrict, hmark, -⟩
    exact hvisit ⟨now, p, hdue, hstrict, hmark⟩

theorem inForce_step_iff {site : Site} {s : State} {event : Event} (h : InForce s) :
    InForce (step site s event) ↔ ¬ Overwrites site s event := by
  cases event with
  | nextProfile m => exact inForce_nextProfile_iff h
  | trigger id m =>
    unfold step Overwrites
    simp only
    split
    · rename_i htick
      refine iff_of_true h ?_
      rintro ⟨c, -, c', -, hnone, -⟩
      rw [hnone] at htick
      cases htick
    · rename_i htick
      have hnone : s.tick = none := by simpa using htick
      rw [inForce_trigger_iff h]
      simp only [hnone, true_and]
  | beginTick m =>
    refine iff_of_true ?_ ?_
    · unfold step beginTick
      simp only
      split
      · exact h
      · split
        · exact h
        · exact h
    · rintro ⟨c, -, c', -, hfalse⟩
      exact hfalse
  | ended =>
    refine iff_of_true nofun ?_
    rintro ⟨c, -, c', -, hfalse⟩
    exact hfalse
  | scanOutcomes =>
    rcases scanOutcomes_container s with ⟨hconsigne, hrunning⟩
    refine iff_of_true ((inForce_congr hconsigne hrunning).mpr h) ?_
    rintro ⟨c, -, c', -, hfalse⟩
    exact hfalse
  | edit profiles damaged =>
    refine iff_of_true h ?_
    rintro ⟨c, -, c', -, hfalse⟩
    exact hfalse

/-- Every run reads its own instructions, exactly when no trigger writes others while the
container runs. -/
theorem own_instructions_iff (site : Site) (profiles : List BackupProfile) (damaged : Bool)
    (events : ℕ → Event) :
    (∀ n, InForce (trace (step site) { profiles, damaged } events n)) ↔
      ∀ n, ¬ Overwrites site (trace (step site) { profiles, damaged } events n) (events n) := by
  constructor
  · intro hforce n
    exact (inForce_step_iff (hforce n)).mp (hforce (n + 1))
  · intro hfree n
    induction n with
    | zero => nofun
    | succ n ih => exact (inForce_step_iff ih).mpr (hfree n)

def secondButton : ℕ → Event
  | 0 => .trigger "monde" {}
  | 1 => .trigger "mods" {}
  | _ => .ended

/-- The container of the first profile, if it reads the file now, reads the second's. -/
theorem instructions_overwritten :
    ¬ ∀ (site : Site) (profiles : List BackupProfile) (damaged : Bool) (events : ℕ → Event) (n : ℕ),
      InForce (trace (step site) { profiles, damaged } events n) := by
  intro h
  exact absurd (h utc [worldProfile, modsProfile] false secondButton 2) (by decide +kernel)

end BackupProfiles
