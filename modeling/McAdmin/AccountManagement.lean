import McAdmin.AuthSteps

/-!
# Somebody can always manage the accounts

Nobody may change or delete the account they act with, so that whoever acts keeps the permission.
But it is looked up when a request begins and not when it writes: two administrators who demote
each other at once both succeed.  `administered_run` is what holds of the runs in which who acts
has the permission still when the account is written.
-/

namespace AuthRoutes

open Backtracking Calls McAdmin

/-! ### Who manages the accounts -/

variable (cfg : Config)

def manages (users : Dict String Role) (username : String) : Bool :=
  (users.lookup username).any (·.allows .userManage)

def managesFile (file : Dict String String) (username : String) : Bool :=
  ((file.lookup username).bind cfg.roles).any (·.allows .userManage)

structure Administered (s : App) : Prop where
  memory : ∃ username, manages s.users username = true
  file : ∃ username, managesFile cfg s.usersFile username = true

def IsAccountChange (r : Request) : Prop :=
  match r.form with
  | .userRole .. | .userDelete _ => True
  | _ => False

instance (r : Request) : Decidable (IsAccountChange r) :=
  decidable_of_iff
    ((match r.form with
      | .userRole .. | .userDelete _ => true
      | _ => false) = true)
    (by unfold IsAccountChange; split <;> simp)

/-- Who acts may manage the accounts where one is written. -/
def stillManages (s : App) (actor : Option String) : Call → Bool
  | .usersSet .. | .usersPop _ => actor.any (manages s.users)
  | .usersStoreAdd .. | .usersStoreRemove _ => actor.any (managesFile cfg s.usersFile)
  | _ => true

abbrev StillManages (w : AppWorld) (k : Caller App Request) (_ : List AppStep) (c : Call) : Prop :=
  stillManages cfg w.state k.request.session.user c = true

/-! ### Each step -/

variable {cfg} {r : Request} {past : List MadeCall} {username actor : String}

theorem Writes.actsOn (hr : IsAccountChange r) (h : Writes r past username) :
    ActsOn r username := by
  cases h with
  | setup name password passwordConfirm hform => simp [IsAccountChange, hform] at hr
  | add name role password hform => simp [IsAccountChange, hform] at hr
  | role name _ hacts => exact hacts

theorem manages_set (role : Role) {users : Dict String Role} (h : manages users actor = true)
    (hne : actor ≠ username) : manages (Dict.set users username role) actor = true := by
  rwa [manages, Dict.lookup_set, if_neg hne]

theorem manages_erase {users : Dict String Role} (h : manages users actor = true)
    (hne : actor ≠ username) : manages (users.erase username) actor = true := by
  rwa [manages, AList.lookup_erase_ne hne]

theorem managesFile_set (name : String) {file : Dict String String}
    (h : managesFile cfg file actor = true) (hne : actor ≠ username) :
    managesFile cfg (Dict.set file username name) actor = true := by
  rwa [managesFile, Dict.lookup_set, if_neg hne]

theorem managesFile_erase {file : Dict String String} (h : managesFile cfg file actor = true)
    (hne : actor ≠ username) : managesFile cfg (file.erase username) actor = true := by
  rwa [managesFile, AList.lookup_erase_ne hne]

variable {w w' : AppWorld}

theorem administered_move (h : Administered cfg w.state)
    (hmove : Move (server cfg) (duty cfg) IsAccountChange .none (StillManages cfg) w w') :
    Administered cfg w'.state := by
  cases hmove with
  | stay => exact h
  | result k past result =>
    change Administered cfg (deliver result w.state)
    rw [deliver_eq]
    exact ⟨h.memory, h.file⟩
  | call k past c choice hk hgrounds hstill _ =>
    constructor
    · change ∃ username, manages (respond cfg choice c w.state).2.users username = true
      rcases @users_respond cfg choice c w.state with husers | ⟨username, role, rfl, husers⟩ |
        ⟨username, rfl, husers⟩
      · rw [husers]
        exact h.memory
      · obtain ⟨actor, hactor, hne⟩ := Writes.actsOn hk.requested hgrounds.1
        simp only [StillManages, hactor] at hstill
        exact ⟨actor, by rw [husers]; exact manages_set role hstill hne⟩
      · obtain ⟨actor, hactor, hne⟩ := hgrounds.2
        simp only [StillManages, hactor] at hstill
        exact ⟨actor, by rw [husers]; exact manages_erase hstill hne⟩
    · change ∃ username, managesFile cfg (respond cfg choice c w.state).2.usersFile username = true
      rcases @usersFile_respond cfg choice c w.state with hfile | ⟨username, name, rfl, hfile⟩ |
        ⟨username, rfl, hfile⟩
      · rw [hfile]
        exact h.file
      · obtain ⟨actor, hactor, hne⟩ := Writes.actsOn hk.requested hgrounds
        simp only [StillManages, hactor] at hstill
        exact ⟨actor, by rw [hfile]; exact managesFile_set name hstill hne⟩
      · obtain ⟨actor, hactor, hne⟩ := hgrounds.2
        simp only [StillManages, hactor] at hstill
        exact ⟨actor, by rw [hfile]; exact managesFile_erase hstill hne⟩

/-- Of role changes and deletions in any number and in any order, when who acts may still manage
the accounts at each write: somebody always may, in memory and on disk. -/
theorem administered_run (cfg : Config) (start : App) (hstart : Administered cfg start)
    (events : List AppEvent)
    (h : Runs.Along (server cfg).step (Meets IsAccountChange (StillManages cfg)) (Pool.start start)
      events) :
    Administered cfg (Runs.run (server cfg).step (Pool.start start) events).world.state :=
  (run_invariant (server_does cfg) grows_none (fun w => Administered cfg w.state)
    (fun _ _ _ h hmove => administered_move h hmove) hstart h).2

/-! ### Two owners -/

def demotion (actor username : String) : Request where
  form := .userRole username "viewer"
  session := sessionFor actor
  csrfToken := "token"

/-- Both demote the other, and both are allowed to before either has done it. -/
def twoDemotions : List AppEvent :=
  [.arrive (demotion "ada" "eve"), .arrive (demotion "eve" "ada")] ++
    List.replicate 4 (.proceed 0 {}) ++ List.replicate 4 (.proceed 1 {}) ++
    List.replicate 4 (.proceed 0 {}) ++ List.replicate 4 (.proceed 1 {})

theorem nobody_manages :
    ¬∀ (cfg : Config) (start : App), Administered cfg start → ∀ events : List AppEvent,
      (∀ event ∈ events, event.Asks IsAccountChange) →
        ∃ username ∈ (Runs.run (server cfg).step (Pool.start start) events).world.state.users.keys,
          manages (Runs.run (server cfg).step (Pool.start start) events).world.state.users username
            = true := by
  intro h
  have hstart : Administered sampleConfig (openFor sampleConfig owner ["ada", "eve"]) :=
    ⟨⟨"ada", by decide +kernel⟩, ⟨"ada", by decide +kernel⟩⟩
  exact absurd (h sampleConfig _ hstart twoDemotions (by decide)) (by decide +kernel)

/-- One demotion alone. -/
theorem administered_run_sample :
    Administered sampleConfig (Runs.run (server sampleConfig).step
      (Pool.start (openFor sampleConfig owner ["ada", "eve"]))
      (twoDemotions.filter fun event => event matches .arrive _ | .proceed 0 _)).world.state :=
  administered_run sampleConfig _ ⟨⟨"ada", by decide +kernel⟩, ⟨"ada", by decide +kernel⟩⟩ _
    (by decide +kernel)

end AuthRoutes
