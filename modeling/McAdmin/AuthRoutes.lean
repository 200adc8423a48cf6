import McAdmin.Calls
import McAdmin.Roles
import McAdmin.SessionRegistry
import McAdmin.Totp

/-!
# The routes of authentication and of the accounts

`api/routes/auth.py` and the stores behind it.  A handler is a program of calls to the state of
the application; between two calls of one request the other requests go on.  A session is the
content of a signed cookie: a client cannot forge one, but it can send again any that was issued.

The accounts live in memory and in `users.json`, the password hashes, the two-factor secrets and
the open sessions in files of their own.  A file is read tolerantly for an answer and strictly
before a change: one that cannot be read answers as if it were empty, and is never written.
-/

namespace AuthRoutes

open Backtracking Calls McAdmin

/-! ### Sessions and requests -/

abbrev Hash := String

/-- `session["pending_2fa"]` -/
structure Pending where
  user : String
  exp : ℚ
deriving DecidableEq, Repr

structure Session where
  user : Option String := none
  sid : Option String := none
  pendingTwofa : Option Pending := none
  csrf : Option String := none
  flash : Option String := none
deriving DecidableEq, Repr

inductive Form where
  | setupForm
  | loginForm
  | accountPage
  | setupCreate (username password passwordConfirm : String)
  | login (username password : String)
  | loginVerify (code : Text)
  | logout
  | password (currentPassword newPassword redirectTo : String)
  | userAdd (username role password : String)
  | userResetPassword (username password : String)
  | userRole (username role : String)
  | userDelete (username : String)
  | userResetTwofa (username : String)
  | securityStart
  | securityEnable (code : Text)
  | securityCancel
  | securityDisable (currentPassword : String)
deriving DecidableEq, Repr

/-- `clientIp` is the address the request is counted for. -/
structure Request where
  form : Form
  session : Session
  csrfToken : String := ""
  clientIp : String := ""
  userAgent : String := ""
deriving DecidableEq, Repr

inductive Page where
  | redirect (path : String)
  | template (name : String) (status : ℕ) (error : Option String)
deriving DecidableEq, Repr

structure Reply where
  page : Page
  session : Session
deriving DecidableEq, Repr

inductive Fault where
  /-- An `OSError` or a `ValueError`. -/
  | persistence
  /-- Another `Exception`. -/
  | exception
  /-- What is no `Exception`. -/
  | baseException
deriving DecidableEq, Repr

inductive Raised where
  | fault (f : Fault)
  | permissionDenied (username permission : String)
  /-- `HTTPException`, and the session the answer goes out with. -/
  | http (status : ℕ) (detail : String) (session : Session)
deriving DecidableEq, Repr

def Raised.isException : Raised → Bool
  | .fault .baseException => false
  | _ => true

/-! ### The calls -/

inductive Call where
  | newCsrfToken
  | time
  | begin (clientIp username : String)
  | success (attempt : ℕ)
  | failure (attempt : ℕ)
  | cancel (attempt : ℕ)
  | usersEmpty
  | usersGet (username : String)
  | usersSet (username : String) (role : Role)
  | usersPop (username : String)
  | usersStoreAdd (username role : String)
  | usersStoreRemove (username : String)
  | passwordGet (username : String)
  | passwordSet (username : String) (hash : Hash)
  | passwordRemove (username : String)
  | hash (password : String)
  | verify (hash : Hash) (password : String)
  | totpIsEnabled (username : String)
  | totpHasPending (username : String)
  | totpSecret (username : String)
  | totpSetPending (username : String) (secret : Text)
  | totpConfirm (username : String)
  | totpRemove (username : String)
  | generateSecret
  | register (username clientIp userAgent : String)
  | isValid (sid username : String)
  | touch (sid : String)
  | revoke (sid username : String)
  | revokeOthers (keepSid username : String)
  | revokeAll (username : String)
  | record (username role action outcome detail : String)
deriving DecidableEq, Repr

abbrev Answer : Call → Type
  | .newCsrfToken | .hash _ | .register .. => String
  | .time => ℚ
  | .begin .. => Option ℕ
  | .usersEmpty | .usersStoreRemove _ | .passwordRemove _ | .verify .. | .totpIsEnabled _
  | .totpHasPending _ | .totpConfirm _ | .totpRemove _ | .isValid .. | .revoke .. => Bool
  | .usersGet _ => Option Role
  | .passwordGet _ => Option Hash
  | .totpSecret _ => Option Text
  | .generateSecret => Text
  | .revokeOthers .. | .revokeAll _ => ℕ
  | .success _ | .failure _ | .cancel _ | .usersSet .. | .usersPop _ | .usersStoreAdd ..
  | .passwordSet .. | .totpSetPending .. | .touch _ | .record .. => Unit

abbrev MadeCall := Made Call Answer Fault

abbrev Program (α : Type) := Prog Call Answer Fault Raised α

def call (c : Call) : Program (Answer c) := .perform .fault c

section

variable {P : List MadeCall → Call → Prop} {c : Call} {α : Type}
  {past : List MadeCall}

theorem obeys_call {Q : List MadeCall → Except Raised (Answer c) → Prop} :
    Obeys P Q past (call c) ↔
      P past c ∧ (∀ a, Q (past ++ [⟨c, .ok a⟩]) (.ok a)) ∧
        ∀ e, Q (past ++ [⟨c, .error e⟩]) (.error (.fault e)) := obeys_perform

theorem obeys_call_bind {Q : List MadeCall → Except Raised α → Prop}
    {f : Answer c → Program α} :
    Obeys P Q past (call c >>= f) ↔
      P past c ∧ (∀ a, Obeys P Q (past ++ [⟨c, .ok a⟩]) (f a)) ∧
        ∀ e, Q (past ++ [⟨c, .error e⟩]) (.error (.fault e)) := by
  rw [obeys_bind, obeys_call]

end

structure Config where
  lib : Totp.Library
  /-- `app.state.roles` -/
  roles : String → Option Role
  /-- `roles.get("owner")` -/
  ownerRole : Role
  /-- `app.state.login_dummy_hash` -/
  loginDummyHash : Hash
  /-- Argon2: the password has this hash. -/
  verifies : Hash → String → Bool
  sessions : SessionRegistry.Settings

/-! ### The helpers of the routes -/

variable (cfg : Config)

/-- `except _PERSISTENCE_ERRORS` -/
def exceptPersistence {α : Type} (body : Program α) (handler : Program α) : Program α :=
  tryCatch body fun e => if e = .fault .persistence then handler else throw e

def registerSession (r : Request) (session : Session) (username : String) : Program Session := do
  let sid ← call (.register username r.clientIp r.userAgent)
  return { session with sid := some sid }

/-- The user of the session, if it is still one, and what becomes of the session. -/
def current (r : Request) : Program (Option User × Session) :=
  match r.session.user with
  | none | some "" => return (none, r.session)
  | some username => do
    match ← call (.usersGet username) with
    | none => return (none, r.session)
    | some role =>
      match r.session.sid with
      | none | some "" => do
        let session ← registerSession r r.session username
        return (some ⟨username, role⟩, session)
      | some sid => do
        if ← call (.isValid sid username) then
          call (.touch sid)
          return (some ⟨username, role⟩, r.session)
        else return (none, {})

/-- `_csrf`, for the session of a page. -/
def csrf (session : Session) : Program Session :=
  match session.csrf with
  | none | some "" => do
    let token ← call .newCsrfToken
    return { session with csrf := some token }
  | some _ => return session

/-- `csrf_ok` raises on a token that is not of ASCII characters. -/
def requireCsrf (session : Session) (token : String) : Program Unit :=
  let refuse : Program Unit := throw (.http 400 "Jeton CSRF invalide" session)
  match session.csrf with
  | none => refuse
  | some expected =>
    if expected = "" ∨ token = "" then refuse
    else if ¬(Totp.isAscii expected.toList ∧ Totp.isAscii token.toList) then
      throw (.fault .exception)
    else if expected = token then return ()
    else refuse

theorem requireCsrf_cases (session : Session) (token : String) :
    requireCsrf session token = pure () ∨
      ∃ e, requireCsrf session token = throw e ∧
        (e = .http 400 "Jeton CSRF invalide" session ∨ e = .fault .exception) := by
  unfold requireCsrf
  cases session.csrf with
  | none => exact .inr ⟨_, rfl, .inl rfl⟩
  | some expected =>
    dsimp only
    split_ifs
    · exact .inr ⟨_, rfl, .inl rfl⟩
    · exact .inl rfl
    · exact .inr ⟨_, rfl, .inl rfl⟩
    · exact .inr ⟨_, rfl, .inr rfl⟩

def record (user : User) (outcome detail : String) : Program Unit :=
  call (.record user.username user.role.name Permission.userManage.value outcome detail)

def authorizeUserManagement (user : User) : Program Unit :=
  if user.can .userManage then return ()
  else do
    record user "denied" ""
    throw (.permissionDenied user.username Permission.userManage.value)

def recordAccountChange (actor : User) (detail : String) : Program Unit := do
  authorizeUserManagement actor
  record actor "allowed" detail

def signedIn (r : Request) (body : User → Session → Program Reply) : Program Reply := do
  let (user, session) ← current r
  match user with
  | none => return ⟨.redirect "/login", session⟩
  | some user => do
    requireCsrf session r.csrfToken
    body user session

/-- What a route of the accounts does for a user who may manage them, and what it tells. -/
def managing (r : Request) (body : User → Session → Program String) : Program Reply :=
  signedIn r fun user session => do
    tryCatch (authorizeUserManagement user) fun e =>
      match e with
      | .permissionDenied username permission => throw (.http 403
          s!"user '{username}' n'a pas la permission {permission}" session)
      | e => throw e
    let flash ← body user session
    return ⟨.redirect "/users", { session with flash := some flash }⟩

def strip (text : String) : String := .ofList (cfg.lib.strip text.toList)

/-- `_USERNAME_RE`, for a stripped name. -/
def validUsername (username : String) : Bool :=
  3 ≤ username.length && username.length ≤ 16 && username.toList.all fun c =>
    c.isAlphanum || c == '_' || c == '-'

def redirectTarget (value default : String) : String :=
  match (strip cfg value).toList with
  | '/' :: rest =>
    if rest.head? ≠ some '/' ∧ rest.length ≤ 120 ∧
        rest.all (fun c => c.isAlphanum || c ∈ ['/', '_', '.', '-']) then strip cfg value
    else default
  | _ => default

/-- The password hash before the account, and taken back when the account cannot be added. -/
def persistNewAccount (username role password : String) : Program Unit := do
  let hash ← call (.hash password)
  call (.passwordSet username hash)
  tryCatch (call (.usersStoreAdd username role)) fun e =>
    if e.isException then do
      tryCatch (do let _ ← call (.passwordRemove username)) fun e =>
        if e.isException then return () else throw e
      throw e
    else throw e

def forgetAccountTraces (username : String) : Program Unit := do
  let _ ← call (.totpRemove username)
  let _ ← call (.revokeAll username)

def revokeOtherSessions (session : Session) (username : String) : Program ℕ :=
  call (.revokeOthers (session.sid.getD "") username)

def verifyOwnPassword (user : User) (password : String) : Program Bool := do
  match ← call (.passwordGet user.username) with
  | none => return false
  | some hash => call (.verify hash password)

def authenticate (stored : Option Hash) (username password : String) :
    Program (Option User) := do
  let role ← call (.usersGet username)
  match stored, role with
  | some hash, some role =>
    if ← call (.verify hash password) then return some ⟨username, role⟩ else return none
  | _, _ => do
    let _ ← call (.verify cfg.loginDummyHash password)
    return none

/-- `totp.verify`, which reads the clock once the code is six digits. -/
def verifyCode (secret code : Text) : Program Bool :=
  match Totp.decodeSecret cfg.lib secret with
  | none => return false
  | some key =>
    if Totp.wellFormed cfg.lib code then do
      let now ← call .time
      match Totp.verifyAt cfg.lib key code now with
      | .ok valid => return valid
      | .error _ => throw (.fault .exception)
    else return false

def completeLogin (r : Request) (username : String) : Program Reply := do
  let session ← registerSession r { user := some username } username
  return ⟨.redirect "/", session⟩

theorem verifyCode_cases (secret code : Text) :
    (verifyCode cfg secret code = pure false ∧
        ∀ now, Totp.verify cfg.lib secret code now = .ok false) ∨
      verifyCode cfg secret code = (do
        let now ← call .time
        match Totp.verify cfg.lib secret code now with
        | .ok valid => return valid
        | .error _ => throw (.fault .exception)) := by
  simp only [verifyCode, Totp.verify]
  cases Totp.decodeSecret cfg.lib secret with
  | none => exact .inl ⟨rfl, fun _ => rfl⟩
  | some key =>
    by_cases hcode : Totp.wellFormed cfg.lib code = true
    · exact .inr (by simp [hcode])
    · exact .inl ⟨by simp [hcode], fun _ => by simp [hcode]⟩

/-! ### The routes -/

def setupForm (r : Request) : Program Reply := do
  if ← call .usersEmpty then
    let session ← csrf r.session
    return ⟨.template "setup.html" 200 none, session⟩
  else return ⟨.redirect "/login", r.session⟩

def setupError (username password passwordConfirm : String) : Option String :=
  if ¬validUsername username then
    some "Nom invalide : 3 à 16 caractères (lettres, chiffres, - et _)."
  else if password.length < 8 then some "Mot de passe trop court (8 caractères minimum)."
  else if password ≠ passwordConfirm then some "Les deux mots de passe ne correspondent pas."
  else none

/-- `setup_create`, for the stripped name. -/
def createFirst (r : Request) (username password passwordConfirm : String) : Program Reply :=
  match setupError username password passwordConfirm with
  | some error => return ⟨.template "setup.html" 400 (some error), r.session⟩
  | none => do
    let persisted ← exceptPersistence
      (do persistNewAccount username "owner" password; return true) (return false)
    if persisted then
      call (.usersSet username cfg.ownerRole)
      call (.record username "owner" "SETUP" "allowed"
        s!"phase=first_account username={username}")
      let session ← registerSession r { r.session with user := some username } username
      let flash := s!"Bienvenue, {username}. Prochaine étape : brancher le serveur."
      return ⟨.redirect "/servers", { session with flash := some flash }⟩
    else return ⟨.template "setup.html" 503 (some ("Impossible d'enregistrer le compte pour " ++
      "le moment. Les données existantes ont été conservées.")), r.session⟩

def setupCreate (r : Request) (username password passwordConfirm : String) : Program Reply := do
  requireCsrf r.session r.csrfToken
  if ← call .usersEmpty then createFirst cfg r (strip cfg username) password passwordConfirm
  else return ⟨.redirect "/login", r.session⟩

def loginForm (r : Request) : Program Reply := do
  if ← call .usersEmpty then return ⟨.redirect "/setup", r.session⟩
  else
    let (user, session) ← current r
    match user with
    | some _ => return ⟨.redirect "/", session⟩
    | none => do
      let session ← csrf session
      return ⟨.template "login.html" 200 none, session⟩

/-- A page of the application gives its session a token and shows its message. -/
def accountPage (r : Request) : Program Reply := do
  let (user, session) ← current r
  match user with
  | none => return ⟨.redirect "/login", session⟩
  | some _ => do
    let session ← csrf session
    return ⟨.template "compte.html" 200 none, { session with flash := none }⟩

def pendingTwofaTtlSeconds : ℚ := 300

def tooManyAttempts : String := "Trop de tentatives — réessayer dans quelques minutes."

/-- The part of `login` whose failure gives the attempt back. -/
def loginAttempt (attempt : ℕ) (username password : String) : Program (Option User) :=
  tryCatch
    (do
      let stored ← call (.passwordGet username)
      authenticate cfg stored username password)
    fun e => if e.isException then do
      call (.cancel attempt)
      throw e
    else throw e

def login (r : Request) (username password : String) : Program Reply := do
  requireCsrf r.session r.csrfToken
  match ← call (.begin r.clientIp username) with
  | none => return ⟨.template "login.html" 429 (some tooManyAttempts), r.session⟩
  | some attempt => do
    match ← loginAttempt cfg attempt username password with
    | none => do
      call (.failure attempt)
      return ⟨.template "login.html" 401 (some "Identifiants invalides"), r.session⟩
    | some user => do
      if ← call (.totpIsEnabled user.username) then
        -- The second factor is still owed: the count of failures stays.
        call (.cancel attempt)
        let now ← call .time
        return ⟨.template "login_totp.html" 200 none, { r.session with
          pendingTwofa := some ⟨user.username, now + pendingTwofaTtlSeconds⟩ }⟩
      else
        call (.success attempt)
        completeLogin r user.username

/-- The part of `login_verify` that holds an attempt. -/
def verifyAttempt (r : Request) (attempt : ℕ) (username : String) (code : Text) :
    Program Reply := do
  let secret ← call (.totpSecret username)
  if ← verifyCode cfg (secret.getD []) code then
    call (.success attempt)
    completeLogin r username
  else
    call (.failure attempt)
    return ⟨.template "login_totp.html" 401 (some "Code invalide"), r.session⟩

def loginVerify (r : Request) (code : Text) : Program Reply := do
  requireCsrf r.session r.csrfToken
  match r.session.pendingTwofa with
  | none => return ⟨.redirect "/login", r.session⟩
  | some pending => do
    let now ← call .time
    if pending.exp < now then
      return ⟨.redirect "/login", { r.session with pendingTwofa := none }⟩
    else
      match ← call (.begin r.clientIp pending.user) with
      | none => return ⟨.template "login_totp.html" 429 (some tooManyAttempts), r.session⟩
      | some attempt => verifyAttempt cfg r attempt pending.user code

def logout (r : Request) : Program Reply := do
  requireCsrf r.session r.csrfToken
  match r.session.sid with
  | none | some "" => return ⟨.redirect "/login", {}⟩
  | some sid => do
    let _ ← call (.revoke sid (r.session.user.getD ""))
    return ⟨.redirect "/login", {}⟩

def actionPassword (r : Request) (currentPassword newPassword redirectTo : String) :
    Program Reply :=
  signedIn r fun user session => do
    let tell (flash : String) : Reply :=
      ⟨.redirect (redirectTarget cfg redirectTo "/"), { session with flash := some flash }⟩
    if ← verifyOwnPassword user currentPassword then
      if newPassword.length < 8 then
        return tell "Le nouveau mot de passe doit faire au moins 8 caractères."
      else
        let changed ← exceptPersistence
          (do
            let hash ← call (.hash newPassword)
            call (.passwordSet user.username hash)
            return true) (return false)
        if changed then
          let revoked ← revokeOtherSessions session user.username
          return tell ("Mot de passe mis à jour." ++ if revoked = 0 then "" else
            s!" Les autres appareils connectés ({revoked}) ont été déconnectés.")
        else return tell "Échec : le mot de passe n'a pas été modifié."
    else return tell "Mot de passe actuel incorrect."

/-- `action_user_add`, for the stripped name. -/
def addAccount (user : User) (username role password : String) : Program String := do
  if ¬validUsername username then
    return "Échec : nom invalide (3 à 16 caractères, lettres/chiffres/-/_)."
  else
    match ← call (.usersGet username) with
    | some _ => return s!"Échec : le compte « {username} » existe déjà."
    | none =>
      match cfg.roles role with
      | none => return s!"Échec : rôle inconnu « {role} »."
      | some roleObj =>
        if password.length < 8 then
          return "Échec : mot de passe trop court (8 caractères minimum)."
        else
          let added ← exceptPersistence
            (do
              forgetAccountTraces username
              persistNewAccount username role password
              return true) (return false)
          if added then
            call (.usersSet username roleObj)
            recordAccountChange user s!"phase=account_created account={username} role={role}"
            return s!"Compte « {username} » créé ({role})."
          else return "Échec : stockage local indisponible. Aucun compte n'a été ajouté."

def actionUserAdd (r : Request) (username role password : String) : Program Reply :=
  managing r fun user _ => addAccount cfg user (strip cfg username) role password

def revokeOnReset (user : User) (session : Session) (username : String) : Program ℕ :=
  if username = user.username then revokeOtherSessions session username
  else call (.revokeAll username)

def actionUserResetPassword (r : Request) (username password : String) : Program Reply :=
  managing r fun user session => do
    match ← call (.usersGet username) with
    | none => return s!"Échec : compte inconnu « {username} »."
    | some _ =>
      if password.length < 8 then
        return "Échec : mot de passe trop court (8 caractères minimum)."
      else
        let changed ← exceptPersistence
          (do
            let hash ← call (.hash password)
            call (.passwordSet username hash)
            return true) (return false)
        if changed then
          let revoked ← revokeOnReset user session username
          recordAccountChange user
            s!"phase=password_reset account={username} sessions_revoked={revoked}"
          return s!"Mot de passe de « {username} » réinitialisé." ++
            if revoked = 0 then "" else s!" {revoked} appareil(s) déconnecté(s)."
        else return "Échec : le mot de passe n'a pas été modifié."

def actionUserRole (r : Request) (username role : String) : Program Reply :=
  managing r fun user _ => do
    if username = user.username then
      return "Échec : impossible de modifier son propre rôle."
    else
      match ← call (.usersGet username) with
      | none => return s!"Échec : compte inconnu « {username} »."
      | some _ =>
        match cfg.roles role with
        | none => return s!"Échec : rôle inconnu « {role} »."
        | some roleObj =>
          let changed ← exceptPersistence
            (do call (.usersStoreAdd username role); return true) (return false)
          if changed then
            call (.usersSet username roleObj)
            recordAccountChange user s!"phase=role_changed account={username} role={role}"
            return s!"« {username} » est maintenant {role}."
          else return "Échec : le rôle n'a pas été modifié."

def actionUserDelete (r : Request) (username : String) : Program Reply :=
  managing r fun user _ => do
    if username = user.username then
      return "Échec : impossible de supprimer son propre compte."
    else
      match ← call (.usersGet username) with
      | none => return s!"Échec : compte inconnu « {username} »."
      | some _ =>
        let removed ← exceptPersistence
          (do return some (← call (.usersStoreRemove username))) (return none)
        match removed with
        | none => return "Échec : le compte n'a pas été supprimé."
        | some false => return "Échec : le compte n'existe plus dans le stockage local."
        | some true =>
          call (.usersPop username)
          -- The second clean-up is tried whatever becomes of the first.
          let passwordRemoved ← exceptPersistence
            (do let _ ← call (.passwordRemove username); return true) (return false)
          let tracesRemoved ← exceptPersistence
            (do forgetAccountTraces username; return true) (return false)
          let credentialsRemoved := passwordRemoved && tracesRemoved
          recordAccountChange user (s!"phase=account_deleted account={username} " ++
            s!"credentials_removed={credentialsRemoved}")
          if credentialsRemoved then return s!"Compte « {username} » supprimé."
          else return s!"Compte « {username} » supprimé, mais le nettoyage de ses " ++
            "anciens identifiants doit être vérifié."

def actionUserResetTwofa (r : Request) (username : String) : Program Reply :=
  managing r fun user _ => do
    if username = user.username then
      return "Échec : la double authentification se gère depuis la page Compte."
    else
      match ← call (.usersGet username) with
      | none => return s!"Échec : compte inconnu « {username} »."
      | some _ =>
        let removed ← exceptPersistence
          (do return some (← call (.totpRemove username))) (return none)
        match removed with
        | none => return "Échec : la double authentification n'a pas été modifiée."
        | some true =>
          recordAccountChange user s!"phase=twofa_reset account={username}"
          return s!"Double authentification de « {username} » désactivée : " ++
            "le compte se connecte avec son seul mot de passe."
        | some false => return s!"« {username} » n'avait pas de double authentification."

def security : Page := .redirect "/compte#securite"

def securityStart (r : Request) : Program Reply :=
  signedIn r fun user session => do
    if ← call (.totpIsEnabled user.username) then return ⟨security, session⟩
    else
      let secret ← call .generateSecret
      call (.totpSetPending user.username secret)
      return ⟨security, session⟩

def pendingSecret (username : String) : Program (Option Text) := do
  if ← call (.totpHasPending username) then call (.totpSecret username) else return none

def securityEnable (r : Request) (code : Text) : Program Reply :=
  signedIn r fun user session => do
    let tell (flash : String) : Reply := ⟨security, { session with flash := some flash }⟩
    match ← pendingSecret user.username with
    | none | some [] => return tell "Commence par générer un secret."
    | some secret =>
      if ← verifyCode cfg secret code then
        let _ ← call (.totpConfirm user.username)
        return tell "Double authentification activée."
      else return tell "Code invalide — vérifier l'heure du téléphone, puis réessayer."

def securityCancel (r : Request) : Program Reply :=
  signedIn r fun user session => do
    if ← call (.totpHasPending user.username) then
      if ← call (.totpIsEnabled user.username) then return ⟨security, session⟩
      else
        let _ ← call (.totpRemove user.username)
        return ⟨security, session⟩
    else return ⟨security, session⟩

def securityDisable (r : Request) (currentPassword : String) : Program Reply :=
  signedIn r fun user session => do
    let tell (flash : String) : Reply := ⟨security, { session with flash := some flash }⟩
    if ← verifyOwnPassword user currentPassword then
      let _ ← call (.totpRemove user.username)
      return tell "Double authentification désactivée."
    else return tell "Mot de passe incorrect : la 2FA reste active."

def handler (r : Request) : Program Reply :=
  match r.form with
  | .setupForm => setupForm r
  | .loginForm => loginForm r
  | .accountPage => accountPage r
  | .setupCreate username password passwordConfirm =>
    setupCreate cfg r username password passwordConfirm
  | .login username password => login cfg r username password
  | .loginVerify code => loginVerify cfg r code
  | .logout => logout r
  | .password currentPassword newPassword redirectTo =>
    actionPassword cfg r currentPassword newPassword redirectTo
  | .userAdd username role password => actionUserAdd cfg r username role password
  | .userResetPassword username password => actionUserResetPassword r username password
  | .userRole username role => actionUserRole cfg r username role
  | .userDelete username => actionUserDelete r username
  | .userResetTwofa username => actionUserResetTwofa r username
  | .securityStart => securityStart r
  | .securityEnable code => securityEnable cfg r code
  | .securityCancel => securityCancel r
  | .securityDisable currentPassword => securityDisable r currentPassword

/-! ### A configuration -/

/-- ASCII tables with the Arabic digits, and the codes of one secret for the first minute and a
half. -/
def sampleLibrary : Totp.Library where
  toCharTable := .ascii
  isDigit c := c.isDigit || (0x660 ≤ c.toNat && c.toNat ≤ 0x669)
  upper t := t.map Char.toUpper
  b32decode t := if t = List.replicate 32 'A' then some (List.replicate 20 0) else none
  hmacSha1 _ counter i :=
    let mac : List UInt8 := match counter with
      | 0 => [218, 182, 154, 217, 142, 40, 118, 79, 151, 126, 226, 72, 126, 79, 63, 104, 115, 178,
          162, 151]
      | 1 => [238, 176, 11, 11, 204, 134, 70, 121, 255, 45, 141, 211, 11, 236, 73, 92, 181, 242,
          238, 158]
      | _ => [177, 111, 139, 209, 46, 204, 48, 149, 241, 100, 19, 190, 113, 82, 213, 229, 8, 196,
          23, 206]
    mac.getD i 0
  isDigit_ascii := Totp.isDigit_of_ascii
  upper_nil := rfl

def owner : Role := ⟨"owner", [], true⟩

def viewer : Role := ⟨"viewer", [.status], false⟩

def sampleConfig : Config where
  lib := sampleLibrary
  roles name := if name = "owner" then some owner else if name = "viewer" then some viewer else none
  ownerRole := owner
  loginDummyHash := "hash of nothing"
  verifies hash password := hash == "hash of " ++ password
  sessions := .default

end AuthRoutes
