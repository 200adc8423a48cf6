import McAdmin.AuthSteps

/-!
# The first account

A setup request looks whether there is an account and creates one some calls later.  Nothing holds
the two together: `setup_creates_one` is what is true of the runs in which no other name was entered
in between, and `setup_creates_two` a run of two requests in which one was.
-/

namespace AuthRoutes

open Backtracking Calls McAdmin

/-! ### The runs -/

def IsSetup (r : Request) : Prop :=
  match r.form with
  | .setupForm | .setupCreate .. => True
  | _ => False

instance (r : Request) : Decidable (IsSetup r) :=
  decidable_of_iff
    ((match r.form with
      | .setupForm | .setupCreate .. => true
      | _ => false) = true)
    (by unfold IsSetup; split <;> simp)

/-- Since the request found no account, and there was none in the file either, accounts were
entered under its name alone. -/
def aloneSince (s : App) (past : List AppStep) (username : String) : Bool :=
  past.all fun look => look.call != .usersEmpty ||
    look.before.usersFile.entries.isEmpty &&
      (s.entered.take (s.entered.length - look.before.entered.length)).all (· == username)

def alone (s : App) (past : List AppStep) : Call → Bool
  | .usersStoreAdd username _ | .usersSet username _ => aloneSince s past username
  | _ => true

abbrev Alone (w : AppWorld) (_ : Caller App Request) (past : List AppStep) (c : Call) : Prop :=
  alone w.state past c = true

def Call.creates : Call → Bool
  | .usersStoreAdd .. | .usersSet .. => true
  | _ => false

def OneMore {α : Type} (before after : Dict String α) : Prop :=
  after.entries = before.entries ∨
    before.entries = [] ∧ ∃ username value, after.entries = [⟨username, value⟩]

def OnlyNamed {α : Type} (username : String) (d : Dict String α) : Prop :=
  ∀ entry ∈ d.entries, entry.1 = username

structure Extends {α : Type} (names : List String) (d d' : Dict String α) : Prop where
  stays : d.entries ≠ [] → d'.entries ≠ []
  named : ∀ username, (∀ name ∈ names, name = username) → OnlyNamed username d →
    OnlyNamed username d'

theorem Extends.refl {α : Type} (names : List String) (d : Dict String α) : Extends names d d :=
  ⟨fun h => h, fun _ _ h => h⟩

theorem Extends.trans {α : Type} {names names' : List String} {d d' d'' : Dict String α}
    (h : Extends names d d') (h' : Extends names' d' d'') : Extends (names' ++ names) d d'' := by
  refine ⟨fun hne => h'.stays (h.stays hne), ?_⟩
  intro username hnames honly
  have hd' := h.named username (fun name hname => hnames name (List.mem_append_right _ hname)) honly
  exact h'.named username (fun name hname => hnames name (List.mem_append_left _ hname)) hd'

theorem OnlyNamed.set {α : Type} {username : String} {d : Dict String α}
    (h : OnlyNamed username d) (value : α) : OnlyNamed username (Dict.set d username value) := by
  rintro ⟨name, value'⟩ hentry
  have hlookup : (Dict.set d username value).lookup name = some value' :=
    AList.mem_lookup_iff.mpr hentry
  rw [Dict.lookup_set] at hlookup
  split at hlookup
  · assumption
  · exact h ⟨name, value'⟩ (AList.mem_lookup_iff.mp hlookup)

theorem extends_set {α : Type} (username : String) (value : α) (d : Dict String α) :
    Extends [username] d (Dict.set d username value) := by
  refine ⟨fun _ => Dict.entries_set_ne_nil _ _ _, ?_⟩
  intro name hnames honly
  obtain rfl := hnames username (List.mem_singleton_self _)
  exact honly.set value

theorem OnlyNamed.entries_set {α : Type} {username : String} {d : Dict String α}
    (h : OnlyNamed username d) (value : α) :
    (Dict.set d username value).entries = [⟨username, value⟩] := by
  have honly := h.set value
  have hlookup : (Dict.set d username value).lookup username = some value := by simp
  have hmem := AList.mem_lookup_iff.mp hlookup
  have hnodup := (Dict.set d username value).nodupKeys
  generalize hentries : (Dict.set d username value).entries = entries at hmem hnodup
  rw [OnlyNamed, hentries] at honly
  match entries with
  | [] => exact absurd hmem List.not_mem_nil
  | [entry] => rw [List.mem_singleton.mp hmem]
  | first :: second :: rest =>
    have hfirst := honly first List.mem_cons_self
    have hsecond := honly second (List.mem_cons_of_mem _ List.mem_cons_self)
    exact absurd (hfirst.trans hsecond.symm) fun heq =>
      (List.nodupKeys_cons.mp hnodup).1 (by simp [heq])

def accountsGrow : Growth App where
  le s s' := ∃ names, s'.entered = names ++ s.entered ∧ Extends names s.users s'.users ∧
    Extends names s.usersFile s'.usersFile
  refl _ := ⟨[], rfl, .refl _ _, .refl _ _⟩
  trans := by
    rintro s s' s'' ⟨names, hentered, husers, hfile⟩ ⟨names', hentered', husers', hfile'⟩
    exact ⟨names' ++ names, by rw [hentered', hentered, List.append_assoc], husers.trans husers',
      hfile.trans hfile'⟩

variable {cfg : Config} {w w' : AppWorld}

/-! ### Each step -/

theorem IsSetup.not_delete {r : Request} {username : String} (h : IsSetup r) :
    r.form ≠ .userDelete username := by
  intro hform
  simp [IsSetup, hform] at h

theorem setup_grows : Grows (server cfg) (duty cfg) IsSetup accountsGrow Alone := by
  intro w w' hw hmove
  cases hmove with
  | stay => exact accountsGrow.refl _
  | result k past result =>
    change accountsGrow.le w.state (deliver result w.state)
    rw [deliver_eq]
    exact ⟨[], rfl, .refl _ _, .refl _ _⟩
  | call k past c choice hk hgrounds _ _ =>
    change accountsGrow.le w.state (respond cfg choice c w.state).2
    rcases @respond_state cfg choice c w.state with h | h
    · rw [h]
      exact accountsGrow.refl _
    · rw [h]
      cases c with
      | usersSet username role => exact ⟨[username], rfl, extends_set _ _ _, .refl _ _⟩
      | usersStoreAdd username role => exact ⟨[username], rfl, .refl _ _, extends_set _ _ _⟩
      | usersPop username => exact absurd hgrounds.1 hk.requested.not_delete
      | usersStoreRemove username => exact absurd hgrounds.1 hk.requested.not_delete
      | _ => exact ⟨[], rfl, .refl _ _, .refl _ _⟩

theorem Writes.found_none {r : Request} {past : List MadeCall} {username : String}
    (hsetup : IsSetup r) (h : Writes r past username) : ⟨.usersEmpty, .ok true⟩ ∈ past := by
  cases h with
  | setup name password passwordConfirm _ hempty => exact hempty
  | add name role password hform => simp [IsSetup, hform] at hsetup
  | role name hform => simp [IsSetup, hform] at hsetup

structure SetUp (start : App) (w : AppWorld) : Prop where
  file : OneMore start.usersFile w.state.usersFile
  memory : OneMore start.users w.state.users
  grown : accountsGrow.le start w.state
  since : ∀ record ∈ w.trace, accountsGrow.le start record.before

theorem SetUp.found_none {start : App} (h : SetUp start w)
    (hw : w.Sound (server cfg) (duty cfg) IsSetup accountsGrow) {k : Caller App Request}
    {past : List AppStep} {username : String}
    (hk : Credible (server cfg) IsSetup accountsGrow w k past)
    (hwrites : Writes k.request (made past) username)
    (halone : aloneSince w.state past username = true) :
    (start.users.entries = [] ∧ OnlyNamed username w.state.users) ∧
      start.usersFile.entries = [] ∧ OnlyNamed username w.state.usersFile := by
  obtain ⟨look, choice, hlook, -, hempty⟩ := answered_ok hk (hwrites.found_none hk.requested)
  obtain ⟨record, hrecord, hstep, -⟩ := hk.recorded _ hlook
  have hbefore : record.before = look := congrArg Step.before hstep
  have hsince := List.all_eq_true.mp halone _ hlook
  simp only [bne_self_eq_false, Bool.false_or, Bool.and_eq_true, List.all_eq_true,
    beq_iff_eq] at hsince
  obtain ⟨names, hentered, husers, hfile⟩ := (hw.trace record hrecord).before
  obtain ⟨_, _, husersStart, hfileStart⟩ := h.since record hrecord
  rw [hbefore] at hentered husers hfile husersStart hfileStart
  have hnames : ∀ name ∈ names, name = username := by
    intro name hname
    refine hsince.2 name ?_
    rwa [hentered, List.length_append, Nat.add_sub_cancel, List.take_left]
  have hnone : look.users.entries = [] := List.isEmpty_iff.mp hempty
  have hnoneFile : look.usersFile.entries = [] := List.isEmpty_iff.mp hsince.1
  refine ⟨⟨by_contra fun hne => husersStart.stays hne hnone, ?_⟩,
    by_contra fun hne => hfileStart.stays hne hnoneFile, ?_⟩
  · exact husers.named username hnames (by simp [OnlyNamed, hnone])
  · exact hfile.named username hnames (by simp [OnlyNamed, hnoneFile])

theorem setUp_move {start : App} (hw : w.Sound (server cfg) (duty cfg) IsSetup accountsGrow)
    (h : SetUp start w)
    (hmove : Move (server cfg) (duty cfg) IsSetup accountsGrow Alone w w') : SetUp start w' := by
  have hgrown : accountsGrow.le start w'.state :=
    accountsGrow.trans h.grown (setup_grows w w' hw hmove)
  cases hmove with
  | stay => exact h
  | result k past result =>
    refine ⟨?_, ?_, hgrown, h.since⟩
    · change OneMore start.usersFile (deliver result w.state).usersFile
      rw [deliver_eq]
      exact h.file
    · change OneMore start.users (deliver result w.state).users
      rw [deliver_eq]
      exact h.memory
  | call k past c choice hk hgrounds halone _ =>
    refine ⟨?_, ?_, hgrown, fun record hrecord => ?_⟩
    · change OneMore start.usersFile (respond cfg choice c w.state).2.usersFile
      rcases @usersFile_respond cfg choice c w.state with hfile | ⟨username, role, rfl, hfile⟩ |
        ⟨username, rfl, -⟩
      · rw [hfile]
        exact h.file
      -- the request found no account, and none of another name came since
      · obtain ⟨-, hstart, honly⟩ := h.found_none hw hk hgrounds halone
        exact .inr ⟨hstart, username, role, by rw [hfile, honly.entries_set]⟩
      · exact absurd hgrounds.1 hk.requested.not_delete
    · change OneMore start.users (respond cfg choice c w.state).2.users
      rcases @users_respond cfg choice c w.state with husers | ⟨username, role, rfl, husers⟩ |
        ⟨username, rfl, -⟩
      · rw [husers]
        exact h.memory
      · obtain ⟨⟨hstart, honly⟩, -⟩ := h.found_none hw hk hgrounds.1 halone
        exact .inr ⟨hstart, username, role, by rw [husers, honly.entries_set]⟩
      · exact absurd hgrounds.1 hk.requested.not_delete
    · rcases List.mem_append.mp hrecord with hrecord | hrecord
      · exact h.since record hrecord
      · obtain rfl := List.mem_singleton.mp hrecord
        exact h.grown

theorem arrival_empty (hw : w.Sound (server cfg) (duty cfg) IsSetup accountsGrow)
    {record : AppRecord} (hrecord : record ∈ w.trace)
    (hcreates : record.call.creates = true) :
    record.caller.arrival.users.entries = [] := by
  have hsound := hw.trace record hrecord
  have hfound : (⟨.usersEmpty, .ok true⟩ : MadeCall) ∈ made record.past := by
    have hcalled := hsound.called
    have hsetup := hsound.credible.requested
    obtain ⟨⟨⟨c, answer⟩, before, choice⟩, caller, past⟩ := record
    cases c with
    | usersStoreAdd username role => exact Writes.found_none hsetup hcalled
    | usersSet username role => exact Writes.found_none hsetup hcalled.1
    | _ => simp [Call.creates] at hcreates
  obtain ⟨s, choice, hs, -, hempty⟩ := answered_ok hsound.credible hfound
  obtain ⟨record', hrecord', hstep, hcaller⟩ := hsound.credible.recorded _ hs
  have hbefore : record'.before.users.entries = [] := by
    rw [hstep]
    exact List.isEmpty_iff.mp hempty
  by_contra hsome
  have harrived := (hw.trace record' hrecord').arrived
  rw [hcaller] at harrived
  obtain ⟨_, _, husers, _⟩ := harrived
  exact husers.stays hsome hbefore

/-- Of setup requests in any number and in any order, when no other name is entered between the
check of a request and its creation, and the check finds the file without an account as well: one
account is created at most, none if there was one, and none by a request that arrived when there was
one. -/
theorem setup_creates_one (cfg : Config) (start : App) (events : List AppEvent)
    (h : Runs.Along (server cfg).step (Meets IsSetup Alone) (Pool.start start) events) :
    let w := (Runs.run (server cfg).step (Pool.start start) events).world
    OneMore start.usersFile w.state.usersFile ∧ OneMore start.users w.state.users ∧
      ∀ record ∈ w.trace, record.call.creates = true →
        record.caller.arrival.users.entries = [] := by
  have hstart : SetUp start ⟨start, []⟩ :=
    ⟨.inl rfl, .inl rfl, accountsGrow.refl _, fun _ hrecord => absurd hrecord List.not_mem_nil⟩
  obtain ⟨hsound, hsetUp⟩ := run_invariant (server_does cfg) setup_grows (SetUp start)
    (fun _ _ hw h hmove => setUp_move hw h hmove) hstart h
  exact ⟨hsetUp.file, hsetUp.memory, fun _ hrecord hcreates =>
    arrival_empty hsound.world hrecord hcreates⟩

/-! ### Two requests at once -/

def setupOf (name : String) : Request where
  form := .setupCreate name "password" "password"
  session := { csrf := some "token" }
  csrfToken := "token"

/-- What is left of a setup request that found no account. -/
def creation (i : ℕ) (sid : String) : List AppEvent :=
  List.replicate 5 (.proceed i { text := "hash of password" }) ++
    [.proceed i { text := sid }, .proceed i {}]

/-- A visitor is shown the form; it is sent twice, and both requests look before either creates. -/
def twoSetups (name name' : String) : List AppEvent :=
  [.arrive ⟨.setupForm, {}, "", "", ""⟩, .proceed 0 {}, .proceed 0 { text := "token" },
    .proceed 0 {}, .arrive (setupOf name), .arrive (setupOf name'), .proceed 1 {},
    .proceed 2 {}] ++ creation 1 "first" ++ creation 2 "second"

theorem setup_creates_two :
    ¬∀ (cfg : Config) (events : List AppEvent), (∀ event ∈ events, event.Asks IsSetup) →
      (Runs.run (server cfg).step (Pool.start {}) events).world.state.users.entries.length ≤ 1 :=
  fun h => absurd (h sampleConfig (twoSetups "ada" "eve") (by decide)) (by decide +kernel)

/-- A double click enters one name twice. -/
theorem setup_creates_one_sample :
    let w := (Runs.run (server sampleConfig).step (Pool.start {}) (twoSetups "ada" "ada")).world
    w.state.entered.length = 4 ∧ w.state.users.entries.length = 1 ∧
      OneMore ({} : App).users w.state.users :=
  ⟨by decide +kernel, by decide +kernel,
    (setup_creates_one sampleConfig {} (twoSetups "ada" "ada") (by decide +kernel)).2.1⟩

end AuthRoutes
