import McAdmin.AuthRoutes

/-!
# The state behind the routes of authentication

The accounts in memory and on disk, the password hashes, the secrets of the second factor and
the open sessions, and what each call of the routes answers and does.  Any call may fail, before
or after its effect.  A tolerant read of a file that cannot be read finds it empty.

Some parts of the state are no part of the application: the sessions issued so far, which a
client may send again at any time, and what tells whether something came between two calls of a
request, how often the password or the secret of a user changed, under which names accounts were
entered and which were taken out of memory.
-/

namespace AuthRoutes

open Backtracking Calls McAdmin

/-! ### The state -/

structure TotpEntry where
  secret : Text
  confirmed : Bool
deriving DecidableEq

structure App where
  /-- `app.state.users` -/
  users : Dict String Role := ∅
  /-- `users.json` -/
  usersFile : Dict String String := ∅
  passwords : Dict String Hash := ∅
  totp : Dict String TotpEntry := ∅
  sessions : SessionRegistry.Registry := {}
  issued : List Session := []
  /-- The identifiers of sessions drawn so far. -/
  drawn : List String := []
  /-- How often the password was replaced or removed. -/
  epoch : String → ℕ := fun _ => 0
  /-- The names under which accounts were entered in the file or in memory, the last one first. -/
  entered : List String := []
  /-- How often the secret of the second factor was stored, confirmed or removed. -/
  secretWrites : String → ℕ := fun _ => 0
  /-- The password of the account, each time it was taken out of memory. -/
  removals : String → List ℕ := fun _ => []

structure Choice where
  failure : Option Fault := none
  /-- The call fails once its effect took place. -/
  late : Bool := false
  unreadable : Bool := false
  now : ℚ := 0
  /-- What is drawn at random. -/
  text : String := ""
  /-- What the limiter grants. -/
  token : Option ℕ := none

variable (cfg : Config)

/-! ### The calls -/

def App.entry (s : App) (choice : Choice) (username : String) : Option TotpEntry :=
  if choice.unreadable then none
  else (s.totp.lookup username).filter fun entry => !entry.secret.isEmpty

def App.active (s : App) (username : String) : Option Text :=
  ((s.totp.lookup username).filter fun entry => entry.confirmed && !entry.secret.isEmpty).map
    (·.secret)

/-- `JsonTotp.confirm`, on what the file holds. -/
def confirm (totp : Dict String TotpEntry) (username : String) : Dict String TotpEntry :=
  match totp.lookup username with
  | none => totp
  | some entry =>
    if entry.secret.isEmpty then totp
    else Dict.set totp username { entry with confirmed := true }

def App.replaced (s : App) (username : String) : App :=
  { s with epoch := Function.update s.epoch username (s.epoch username + 1) }

def App.enter (s : App) (username : String) : App := { s with entered := username :: s.entered }

def App.wroteSecret (s : App) (username : String) : App :=
  { s with secretWrites :=
      Function.update s.secretWrites username (s.secretWrites username + 1) }

def App.tookAway (s : App) (username : String) : App :=
  { s with removals :=
      Function.update s.removals username (s.epoch username :: s.removals username) }

/-- What a call that does not fail answers, and the state after it. -/
def App.serve (choice : Choice) (s : App) : (c : Call) → Answer c × App
  | .newCsrfToken => (choice.text, s)
  | .time => (choice.now, s)
  | .begin .. => (choice.token, s)
  | .success _ | .failure _ | .cancel _ | .record .. => ((), s)
  | .usersEmpty => (s.users.entries.isEmpty, s)
  | .usersGet username => (s.users.lookup username, s)
  | .usersSet username role =>
    ((), { s.enter username with users := Dict.set s.users username role })
  | .usersPop username => ((), { s.tookAway username with users := s.users.erase username })
  | .usersStoreAdd username role =>
    ((), { s.enter username with usersFile := Dict.set s.usersFile username role })
  | .usersStoreRemove username =>
    ((s.usersFile.lookup username).isSome, { s with usersFile := s.usersFile.erase username })
  | .passwordGet username =>
    (if choice.unreadable then none else (s.passwords.lookup username).filter (· != ""), s)
  | .passwordSet username hash =>
    ((), { s.replaced username with passwords := Dict.set s.passwords username hash })
  | .passwordRemove username =>
    ((s.passwords.lookup username).isSome,
      { s.replaced username with passwords := s.passwords.erase username })
  | .hash _ => (choice.text, s)
  | .verify hash password => (cfg.verifies hash password, s)
  | .totpIsEnabled username => ((s.entry choice username).any (·.confirmed), s)
  | .totpHasPending username => ((s.entry choice username).any (!·.confirmed), s)
  | .totpSecret username => ((s.entry choice username).map (·.secret), s)
  | .totpSetPending username secret =>
    ((), { s.wroteSecret username with totp := Dict.set s.totp username ⟨secret, false⟩ })
  | .totpConfirm username =>
    ((s.totp.lookup username).any (!·.secret.isEmpty),
      { s.wroteSecret username with totp := confirm s.totp username })
  | .totpRemove username =>
    ((s.totp.lookup username).isSome,
      { s.wroteSecret username with totp := s.totp.erase username })
  | .generateSecret => (choice.text.toList, s)
  | .register username clientIp userAgent =>
    (choice.text, { s with
      sessions :=
        SessionRegistry.register cfg.sessions choice.text username clientIp userAgent choice.now
          s.sessions
      drawn := choice.text :: s.drawn })
  | .isValid sid username =>
    ((SessionRegistry.isValid cfg.sessions sid username choice.now s.sessions).1,
      { s with sessions :=
          (SessionRegistry.isValid cfg.sessions sid username choice.now s.sessions).2 })
  | .touch sid => ((), { s with sessions := SessionRegistry.touch sid choice.now s.sessions })
  | .revoke sid username =>
    ((SessionRegistry.revoke sid username s.sessions).1,
      { s with sessions := (SessionRegistry.revoke sid username s.sessions).2 })
  | .revokeOthers keepSid username =>
    ((SessionRegistry.revokeOthers keepSid username s.sessions).1,
      { s with sessions := (SessionRegistry.revokeOthers keepSid username s.sessions).2 })
  | .revokeAll username =>
    ((SessionRegistry.revokeAll username s.sessions).1,
      { s with sessions := (SessionRegistry.revokeAll username s.sessions).2 })

def respond (choice : Choice) (c : Call) (s : App) : Except Fault (Answer c) × App :=
  match choice.failure with
  | none => (.ok (s.serve cfg choice c).1, (s.serve cfg choice c).2)
  | some f => (.error f, if choice.late then (s.serve cfg choice c).2 else s)

def allows (choice : Choice) (c : Call) (s : App) : Bool :=
  match c with
  | .hash password => cfg.verifies choice.text password && choice.text != ""
  | .generateSecret => choice.text != ""
  | .register .. => choice.text != "" && choice.text ∉ s.drawn
  | _ => true

def sessionOf : Except Raised Reply → Option Session
  | .ok reply => some reply.session
  | .error (.http _ _ session) => some session
  | .error _ => none

def deliver (result : Except Raised Reply) (s : App) : App :=
  match sessionOf result with
  | some session => { s with issued := session :: s.issued }
  | none => s

/-- Clients send the sessions they were issued, or none. -/
def server : Server App Call Answer Fault Raised Reply Request Choice where
  handler := handler cfg
  admits r s := r.session = {} || r.session ∈ s.issued
  allows := allows cfg
  respond := respond cfg
  deliver _ := deliver

abbrev AppWorld := World App Call Answer Fault Request Choice

abbrev AppStep := Step App Call Answer Fault Choice

abbrev AppRecord := Record App Call Answer Fault Request Choice

abbrev AppEvent := Event Request Choice

/-! ### What a call leaves -/

variable {cfg} {choice : Choice} {c : Call} {s : App}

theorem respond_state :
    (respond cfg choice c s).2 = s ∨ (respond cfg choice c s).2 = (s.serve cfg choice c).2 := by
  rw [respond]
  cases choice.failure with
  | none => exact .inr rfl
  | some f =>
    dsimp only
    split
    · exact .inr rfl
    · exact .inl rfl

theorem issued_respond : (respond cfg choice c s).2.issued = s.issued := by
  rcases @respond_state cfg choice c s with h | h
  · rw [h]
  · rw [h]
    cases c <;> rfl

theorem users_respond :
    (respond cfg choice c s).2.users = s.users ∨
      (∃ username role, c = .usersSet username role ∧
        (respond cfg choice c s).2.users = Dict.set s.users username role) ∨
      ∃ username, c = .usersPop username ∧
        (respond cfg choice c s).2.users = s.users.erase username := by
  rcases @respond_state cfg choice c s with h | h
  · exact .inl (by rw [h])
  · rw [h]
    cases c with
    | usersSet username role => exact .inr (.inl ⟨username, role, rfl, rfl⟩)
    | usersPop username => exact .inr (.inr ⟨username, rfl, rfl⟩)
    | _ => exact .inl rfl

theorem usersFile_respond :
    (respond cfg choice c s).2.usersFile = s.usersFile ∨
      (∃ username role, c = .usersStoreAdd username role ∧
        (respond cfg choice c s).2.usersFile = Dict.set s.usersFile username role) ∨
      ∃ username, c = .usersStoreRemove username ∧
        (respond cfg choice c s).2.usersFile = s.usersFile.erase username := by
  rcases @respond_state cfg choice c s with h | h
  · exact .inl (by rw [h])
  · rw [h]
    cases c with
    | usersStoreAdd username role => exact .inr (.inl ⟨username, role, rfl, rfl⟩)
    | usersStoreRemove username => exact .inr (.inr ⟨username, rfl, rfl⟩)
    | _ => exact .inl rfl

theorem totp_respond :
    (respond cfg choice c s).2.totp = s.totp ∨
      (∃ username secret, c = .totpSetPending username secret ∧
        (respond cfg choice c s).2.totp = Dict.set s.totp username ⟨secret, false⟩) ∨
      (∃ username, c = .totpConfirm username ∧
        (respond cfg choice c s).2.totp = confirm s.totp username) ∨
      ∃ username, c = .totpRemove username ∧
        (respond cfg choice c s).2.totp = s.totp.erase username := by
  rcases @respond_state cfg choice c s with h | h
  · exact .inl (by rw [h])
  · rw [h]
    cases c with
    | totpSetPending username secret => exact .inr (.inl ⟨username, secret, rfl, rfl⟩)
    | totpConfirm username => exact .inr (.inr (.inl ⟨username, rfl, rfl⟩))
    | totpRemove username => exact .inr (.inr (.inr ⟨username, rfl, rfl⟩))
    | _ => exact .inl rfl

theorem App.active_eq_some {username : String} {secret : Text} : s.active username = some secret ↔
    s.totp.lookup username = some ⟨secret, true⟩ ∧ secret ≠ [] := by
  rw [App.active]
  cases s.totp.lookup username with
  | none => simp
  | some entry =>
    obtain ⟨stored, confirmed⟩ := entry
    cases confirmed with
    | false => simp [Option.filter]
    | true =>
      cases stored with
      | nil => simp [Option.filter, eq_comm]
      | cons c stored =>
        simp only [Option.filter, List.isEmpty_cons, Bool.not_false, Bool.and_true, if_true,
          Option.map_some, Option.some.injEq, TotpEntry.mk.injEq, and_true]
        exact ⟨fun h => ⟨h, h ▸ List.cons_ne_nil c stored⟩, fun h => h.1⟩

theorem view_respond {e : SessionRegistry.Entry}
    (h : e ∈ SessionRegistry.view (respond cfg choice c s).2.sessions.sessions) :
    e ∈ SessionRegistry.view s.sessions.sessions ∨
      ∃ clientIp userAgent, c = .register e.username clientIp userAgent ∧ e.sid = choice.text := by
  rcases @respond_state cfg choice c s with hstate | hstate
  · rw [hstate] at h
    exact .inl h
  · rw [hstate] at h
    cases c with
    | register username clientIp userAgent =>
      rcases SessionRegistry.mem_view_register h with hold | rfl
      · exact .inl hold
      · exact .inr ⟨clientIp, userAgent, rfl, rfl⟩
    | isValid sid username => exact .inl (SessionRegistry.view_isValid_subset _ _ _ _ _ h)
    | touch sid =>
      refine .inl ?_
      rwa [App.serve, SessionRegistry.view_touch] at h
    | revoke sid username => exact .inl (SessionRegistry.view_revoke_subset _ _ _ h)
    | revokeOthers keepSid username => exact .inl (SessionRegistry.mem_view_revokeOthers h).1
    | revokeAll username => exact .inl (SessionRegistry.mem_view_revokeOthers h).1
    | _ => exact .inl h

theorem respond_ok {a : Answer c} (h : (respond cfg choice c s).1 = .ok a) :
    respond cfg choice c s = (.ok (s.serve cfg choice c).1, (s.serve cfg choice c).2) ∧
      (s.serve cfg choice c).1 = a := by
  rw [respond] at h ⊢
  cases hfailure : choice.failure with
  | none =>
    rw [hfailure] at h
    exact ⟨rfl, Except.ok.inj h⟩
  | some f =>
    rw [hfailure] at h
    exact absurd h (by simp)

theorem stepOf_ok {c' : Call} {a : Answer c'}
    (h : ((server cfg).stepOf choice c s).toMade = ⟨c', .ok a⟩) :
    c = c' ∧
      respond cfg choice c' s = (.ok (s.serve cfg choice c').1, (s.serve cfg choice c').2) ∧
      (s.serve cfg choice c').1 = a := by
  obtain rfl : c = c' := congrArg Made.call h
  simp only [Server.stepOf, Made.mk.injEq, heq_eq_eq, true_and] at h
  exact ⟨rfl, respond_ok h⟩

theorem answered_ok {R : Request → Prop} {G : Growth App} {w : AppWorld}
    {k : Caller App Request} {past : List AppStep} {a : Answer c}
    (hk : Credible (server cfg) R G w k past) (h : ⟨c, .ok a⟩ ∈ made past) :
    ∃ s choice, ⟨⟨c, .ok a⟩, s, choice⟩ ∈ past ∧ allows cfg choice c s = true ∧
      (s.serve cfg choice c).1 = a := by
  obtain ⟨⟨⟨c', answer⟩, s, choice⟩, hstep, hmade⟩ := List.mem_map.mp h
  obtain ⟨hallows, hanswer⟩ := hk.answered _ hstep
  have hok := (congrArg (fun step : AppStep => step.toMade) hanswer).symm.trans hmade
  cases hmade
  exact ⟨s, choice, hstep, hallows, (stepOf_ok hok).2.2⟩

theorem deliver_eq (result : Except Raised Reply) (s : App) :
    deliver result s =
      { s with issued := (sessionOf result).toList ++ s.issued } := by
  unfold deliver
  cases sessionOf result <;> rfl

/-! ### Accounts that are signed in -/

def sessionFor (username : String) : Session :=
  { user := some username, sid := some ("sid of " ++ username), csrf := some "token" }

/-- Accounts of the same role, each with one open session. -/
def openFor (cfg : Config) (role : Role) (usernames : List String) : App :=
  usernames.foldl (fun s username =>
    { s with
      users := Dict.set s.users username role
      usersFile := Dict.set s.usersFile username role.name
      passwords := Dict.set s.passwords username "hash of password"
      sessions := SessionRegistry.register cfg.sessions ("sid of " ++ username) username "" "" 0
        s.sessions
      issued := sessionFor username :: s.issued
      drawn := ("sid of " ++ username) :: s.drawn }) {}

end AuthRoutes
