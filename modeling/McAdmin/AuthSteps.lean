import McAdmin.AuthApp

/-!
# What the calls of a request rest on

`Grounds` says, for the calls that change something, which request makes them and on what
answers; `Outcome` says which session a request can be answered with.  Every handler keeps to
both, whatever its calls answer: the theorems about runs look at no handler again.
-/

namespace AuthRoutes

open Backtracking Calls McAdmin

variable (cfg : Config) (r : Request) (past : List MadeCall)

/-! ### The grounds of a call -/

def PasswordPassed (username password : String) : Prop :=
  ∃ hash, ⟨.passwordGet username, .ok (some hash)⟩ ∈ past ∧
    (∃ role, ⟨.usersGet username, .ok (some role)⟩ ∈ past) ∧
    ⟨.verify hash password, .ok true⟩ ∈ past

/-- The code that was given is valid for the account's secret. -/
def CodePassed (username : String) (code : Text) (secret : Text) : Prop :=
  ∃ now, ⟨.totpSecret username, .ok (some secret)⟩ ∈ past ∧ ⟨.time, .ok now⟩ ∈ past ∧
    Totp.verify cfg.lib secret code now = .ok true

def Unregistered (username : String) : Prop :=
  r.session.user = some username ∧ username ≠ "" ∧ ∀ sid, r.session.sid = some sid → sid = ""

inductive Opens (username : String) : Prop where
  | setup (name password passwordConfirm : String) :
    r.form = .setupCreate name password passwordConfirm → strip cfg name = username →
    ⟨.usersSet username cfg.ownerRole, .ok ()⟩ ∈ past → Opens username
  | login (password : String) :
    r.form = .login username password → PasswordPassed past username password →
    ⟨.totpIsEnabled username, .ok false⟩ ∈ past → Opens username
  | verify (code secret : Text) (exp now : ℚ) :
    r.form = .loginVerify code → r.session.pendingTwofa = some ⟨username, exp⟩ →
    ⟨.time, .ok now⟩ ∈ past → now ≤ exp → CodePassed cfg past username code secret →
    Opens username
  | enrol : Unregistered r username → Opens username

def ActsOn (username : String) : Prop :=
  ∃ actor, r.session.user = some actor ∧ actor ≠ username

inductive Writes (username : String) : Prop where
  | setup (name password passwordConfirm : String) :
    r.form = .setupCreate name password passwordConfirm →
    ⟨.usersEmpty, .ok true⟩ ∈ past → Writes username
  | add (name role password : String) : r.form = .userAdd name role password → Writes username
  | role (name : String) : r.form = .userRole username name → ActsOn r username → Writes username

def Enters (username : String) : Prop :=
  (∃ hash, ⟨.passwordSet username hash, .ok ()⟩ ∈ past) ∨
    ∃ role, ⟨.usersGet username, .ok (some role)⟩ ∈ past

inductive Removes (username : String) : Prop where
  | cancel : r.form = .securityCancel → ⟨.totpIsEnabled username, .ok false⟩ ∈ past →
    Removes username
  | disable (password : String) : r.form = .securityDisable password → Removes username
  | reset : r.form = .userResetTwofa username → Removes username
  | delete : r.form = .userDelete username → Removes username
  | add (name role password : String) : r.form = .userAdd name role password → Removes username

def OwnSid (sid : String) : Prop :=
  r.session.sid = some sid ∨ ∃ username ip userAgent, Unregistered r username ∧
    ⟨.register username ip userAgent, .ok sid⟩ ∈ past

def Grounds : Call → Prop
  | .time => ∀ username password, r.form = .login username password →
      PasswordPassed past username password
  | .register username _ _ => Opens cfg r past username
  | .usersStoreAdd username _ => Writes r past username
  | .usersSet username _ => Writes r past username ∧ Enters past username
  | .usersStoreRemove username | .usersPop username =>
    r.form = .userDelete username ∧ ActsOn r username
  | .totpSetPending username _ =>
    r.form = .securityStart ∧ ⟨.totpIsEnabled username, .ok false⟩ ∈ past
  | .totpConfirm username => ∃ code secret,
      r.form = .securityEnable code ∧ CodePassed cfg past username code secret
  | .totpRemove username => Removes r past username
  | .revokeOthers keepSid _ => OwnSid r past keepSid
  | _ => True

/-! ### The session of an answer -/

/-- The user of a session is that of the request, or has just been given the session. -/
def UserKept (session : Session) : Prop :=
  session.user = none ∨ (session.user = r.session.user ∧ session.sid = r.session.sid) ∨
    ∃ username sid ip userAgent, session.user = some username ∧ session.sid = some sid ∧
      ⟨.register username ip userAgent, .ok sid⟩ ∈ past

def PendingKept (session : Session) : Prop :=
  session.pendingTwofa = none ∨ session.pendingTwofa = r.session.pendingTwofa ∨
    ∃ username password now, r.form = .login username password ∧ ⟨.time, .ok now⟩ ∈ past ∧
      session.pendingTwofa = some ⟨username, now + pendingTwofaTtlSeconds⟩

def Outcome (result : Except Raised Reply) : Prop :=
  ∀ session ∈ sessionOf result, UserKept r past session ∧ PendingKept r past session

def duty : Duty Call Answer Fault Raised Reply Request := ⟨Grounds cfg, Outcome⟩

/-! ### The helpers -/

variable {cfg r past}

theorem UserKept.same : UserKept r past r.session := .inr (.inl ⟨rfl, rfl⟩)

theorem PendingKept.same : PendingKept r past r.session := .inr (.inl rfl)

theorem outcome_fault (f : Fault) : Outcome r past (.error (.fault f)) := by
  simp [Outcome, sessionOf]

theorem outcome_ok {reply : Reply} : Outcome r past (.ok reply) ↔
    UserKept r past reply.session ∧ PendingKept r past reply.session := by
  simp [Outcome, sessionOf]

theorem outcome_http {status : ℕ} {detail : String} {session : Session} :
    Outcome r past (.error (.http status detail session)) ↔
      UserKept r past session ∧ PendingKept r past session := by
  simp [Outcome, sessionOf]

theorem Outcome.of_session {session session' : Session} {page : Page}
    (hsession : UserKept r past session ∧ PendingKept r past session)
    (huser : session'.user = session.user) (hsid : session'.sid = session.sid)
    (hpending : session'.pendingTwofa = session.pendingTwofa) :
    Outcome r past (.ok ⟨page, session'⟩) := by
  rw [outcome_ok]
  simpa only [UserKept, PendingKept, huser, hsid, hpending] using hsession

/-- What `_current` found: the user, if there is one, and the session. -/
structure Current (r : Request) (past : List MadeCall) (user : Option User) (session : Session) :
    Prop where
  kept : UserKept r past session ∧ PendingKept r past session
  named : ∀ u ∈ user, r.session.user = some u.username
  enrolled : user ≠ none → ∃ sid, session.sid = some sid ∧ OwnSid r past sid

theorem UserKept.later {past' : List MadeCall} {session : Session} (h : UserKept r past session)
    (hlater : past ⊆ past') : UserKept r past' session := by
  rcases h with h | h | ⟨username, sid, ip, userAgent, huser, hsid, hmade⟩
  · exact .inl h
  · exact .inr (.inl h)
  · exact .inr (.inr ⟨username, sid, ip, userAgent, huser, hsid, hlater hmade⟩)

theorem PendingKept.later {past' : List MadeCall} {session : Session}
    (h : PendingKept r past session) (hlater : past ⊆ past') : PendingKept r past' session := by
  rcases h with h | h | ⟨username, password, now, hform, hmade, hpending⟩
  · exact .inl h
  · exact .inr (.inl h)
  · exact .inr (.inr ⟨username, password, now, hform, hlater hmade, hpending⟩)

theorem Current.later {past' : List MadeCall} {user : Option User} {session : Session}
    (h : Current r past user session) (hlater : past ⊆ past') :
    Current r past' user session where
  kept := ⟨h.kept.1.later hlater, h.kept.2.later hlater⟩
  named := h.named
  enrolled huser := by
    obtain ⟨sid, hsid, hown⟩ := h.enrolled huser
    refine ⟨sid, hsid, ?_⟩
    rcases hown with hown | ⟨username, ip, userAgent, hunregistered, hmade⟩
    · exact .inl hown
    · exact .inr ⟨username, ip, userAgent, hunregistered, hlater hmade⟩

def Faulty {α : Type} (Q : List MadeCall → α → Prop) (past : List MadeCall) :
    Except Raised α → Prop
  | .ok a => Q past a
  | .error e => ∃ f, e = .fault f

theorem obeys_call_then {c : Call} {f : Answer c → Program Reply} (hc : Grounds cfg r past c)
    (hf : ∀ a, Obeys (Grounds cfg r) (Outcome r) (past ++ [⟨c, .ok a⟩]) (f a)) :
    Obeys (Grounds cfg r) (Outcome r) past (call c >>= f) :=
  obeys_call_bind.mpr ⟨hc, hf, fun f => outcome_fault f⟩

theorem obeys_helper_then {α : Type} {Q : List MadeCall → α → Prop} {p : Program α}
    {f : α → Program Reply} (hp : Obeys (Grounds cfg r) (Faulty Q) past p)
    (hf : ∀ past a, Q past a → Obeys (Grounds cfg r) (Outcome r) past (f a)) :
    Obeys (Grounds cfg r) (Outcome r) past (p >>= f) := by
  refine obeys_bind.mpr (hp.mono (fun _ _ h => h) fun past result h => ?_)
  cases result with
  | ok a => exact hf past a h
  | error e =>
    obtain ⟨f, rfl⟩ := h
    exact outcome_fault f

theorem obeys_current : Obeys (Grounds cfg r) (Faulty fun past x => Current r past x.1 x.2) past
    (current r) := by
  have hnobody : ∀ past, Current r past none r.session := fun past =>
    ⟨⟨.same, .same⟩, by simp, fun h => absurd rfl h⟩
  unfold current
  split
  · exact hnobody past
  · exact hnobody past
  · rename_i username hne huser
    refine obeys_call_bind.mpr ⟨trivial, fun role => ?_, fun f => ⟨f, rfl⟩⟩
    cases role with
    | none => exact hnobody _
    | some role =>
      have henrol : ∀ past, (∀ sid, r.session.sid = some sid → sid = "") →
          Obeys (Grounds cfg r) (Faulty fun past x => Current r past x.1 x.2) past (do
            let session ← registerSession r r.session username
            return (some (⟨username, role⟩ : User), session)) := by
        intro past hsid
        rw [registerSession, obeys_bind]
        have hunregistered : Unregistered r username := ⟨huser, hne, hsid⟩
        refine obeys_call_bind.mpr ⟨.enrol hunregistered, fun sid => ?_, fun f => ⟨f, rfl⟩⟩
        have hmade : (⟨.register username r.clientIp r.userAgent, .ok sid⟩ : MadeCall) ∈
            past ++ [⟨.register username r.clientIp r.userAgent, .ok sid⟩] := by simp
        exact ⟨⟨.inr (.inr ⟨username, sid, _, _, huser, rfl, hmade⟩), .inr (.inl rfl)⟩,
          by simpa using huser, fun _ => ⟨sid, rfl, .inr ⟨username, _, _, hunregistered, hmade⟩⟩⟩
      dsimp only
      split
      · rename_i hsid
        exact henrol _ (by simp [hsid])
      · rename_i hsid
        exact henrol _ (by simp [hsid])
      · rename_i sid hne' hsid
        refine obeys_call_bind.mpr ⟨trivial, fun valid => ?_, fun f => ⟨f, rfl⟩⟩
        cases valid with
        | false => exact ⟨⟨.inl rfl, .inl rfl⟩, by simp, fun h => absurd rfl h⟩
        | true =>
          refine obeys_call_bind.mpr ⟨trivial, fun _ => ?_, fun f => ⟨f, rfl⟩⟩
          exact ⟨⟨.same, .same⟩, by simpa using huser, fun _ => ⟨sid, hsid, .inl hsid⟩⟩

theorem obeys_requireCsrf {session : Session} {p : Program Reply}
    (hkept : UserKept r past session ∧ PendingKept r past session)
    (hp : Obeys (Grounds cfg r) (Outcome r) past p) :
    Obeys (Grounds cfg r) (Outcome r) past (do requireCsrf session r.csrfToken; p) := by
  refine obeys_bind.mpr ?_
  rcases requireCsrf_cases session r.csrfToken with hcsrf | ⟨e, hcsrf, he⟩
  · rw [hcsrf, obeys_pure]
    exact hp
  · rw [hcsrf, obeys_throw]
    rcases he with rfl | rfl
    · exact outcome_http.mpr hkept
    · exact outcome_fault _

theorem obeys_signedIn {body : User → Session → Program Reply}
    (hbody : ∀ user session past, Current r past (some user) session →
      Obeys (Grounds cfg r) (Outcome r) past (body user session)) :
    Obeys (Grounds cfg r) (Outcome r) [] (signedIn r body) := by
  refine obeys_helper_then obeys_current ?_
  rintro past ⟨user, session⟩ h
  cases user with
  | none => exact .of_session h.kept rfl rfl rfl
  | some user => exact obeys_requireCsrf h.kept (hbody user session past h)

theorem outcome_same (page : Page) : Outcome r past (.ok ⟨page, r.session⟩) :=
  .of_session ⟨.same, .same⟩ rfl rfl rfl

/-! ### Programs whose calls rest on what came before them -/

def Raised.silent : Raised → Bool
  | .http .. => false
  | _ => true

def Reports {α : Type} (Q : List MadeCall → α → Prop) (past : List MadeCall) :
    Except Raised α → Prop
  | .ok a => Q past a
  | .error e => e.silent = true

/-- Whatever else was answered since `base`, the program keeps to the grounds, and its value
satisfies `Q`. -/
def Within {α : Type} (cfg : Config) (r : Request) (base : List MadeCall) (Q : α → Prop)
    (p : Program α) : Prop :=
  ∀ past, base ⊆ past → Obeys (Grounds cfg r) (Reports fun _ => Q) past p

section

variable {α β : Type} {base : List MadeCall} {Q : α → Prop}

theorem Within.pure {a : α} (h : Q a) : Within cfg r base Q (pure a) := fun _ _ => h

theorem Within.call {c : Call} (h : ∀ past, base ⊆ past → Grounds cfg r past c) :
    Within cfg r base (fun _ => True) (call c) :=
  fun past hbase => obeys_call.mpr ⟨h past hbase, fun _ => trivial, fun _ => rfl⟩

theorem Within.bind {p : Program β} {f : β → Program α}
    (hp : Within cfg r base (fun _ => True) p) (hf : ∀ b, Within cfg r base Q (f b)) :
    Within cfg r base Q (p >>= f) := by
  intro past hbase
  refine obeys_bind.mpr ((hp past hbase).later.mono (fun _ _ h => h) ?_)
  rintro past' result ⟨hlater, h⟩
  cases result with
  | ok b => exact hf b past' fun _ hmade => hlater (hbase hmade)
  | error e => exact h

theorem Within.bind_reports {P : List MadeCall → β → Prop} {p : Program β} {f : β → Program α}
    (hp : ∀ past, base ⊆ past → Obeys (Grounds cfg r) (Reports P) past p)
    (hf : ∀ past b, base ⊆ past → P past b → Within cfg r past Q (f b)) :
    Within cfg r base Q (p >>= f) := by
  intro past hbase
  refine obeys_bind.mpr ((hp past hbase).later.mono (fun _ _ h => h) ?_)
  rintro past' result ⟨hlater, h⟩
  cases result with
  | ok b => exact hf past' b (fun _ hmade => hlater (hbase hmade)) h past' fun _ hmade => hmade
  | error e => exact h

theorem Within.call_bind {c : Call} {f : Answer c → Program α}
    (hc : ∀ past, base ⊆ past → Grounds cfg r past c)
    (hf : ∀ past a, base ⊆ past → ⟨c, .ok a⟩ ∈ past → Within cfg r past Q (f a)) :
    Within cfg r base Q (AuthRoutes.call c >>= f) := by
  refine .bind_reports (P := fun past a => ⟨c, .ok a⟩ ∈ past) (fun past hbase => ?_) hf
  exact obeys_call.mpr ⟨hc past hbase, fun a => by simp [Reports], fun _ => rfl⟩

theorem Within.tryCatch {p : Program α} {h : Raised → Program α} (hp : Within cfg r base Q p)
    (hh : ∀ e, e.silent = true → Within cfg r base Q (h e)) :
    Within cfg r base Q (tryCatch p h) := by
  intro past hbase
  refine obeys_tryCatch.mpr ((hp past hbase).later.mono (fun _ _ h => h) ?_)
  rintro past' result ⟨hlater, hresult⟩
  cases result with
  | ok a => exact hresult
  | error e => exact hh e hresult past' fun _ hmade => hlater (hbase hmade)

theorem Within.throw {e : Raised} (h : e.silent = true) :
    Within cfg r base Q (throw e : Program α) := fun _ _ => h

theorem Within.exceptPersistence {p h : Program α} (hp : Within cfg r base Q p)
    (hh : Within cfg r base Q h) : Within cfg r base Q (exceptPersistence p h) := by
  refine hp.tryCatch fun e he => ?_
  by_cases hpersistence : e = .fault .persistence
  · simpa only [hpersistence, if_true] using hh
  · simpa only [if_neg hpersistence] using Within.throw he

theorem Within.ite {b : Prop} [Decidable b] {p q : Program α} (hp : Within cfg r base Q p)
    (hq : Within cfg r base Q q) : Within cfg r base Q (if b then p else q) := by
  split
  · exact hp
  · exact hq

end

def Replies (session : Session) (reply : Reply) : Prop :=
  reply.session.user = session.user ∧ reply.session.sid = session.sid ∧
    reply.session.pendingTwofa = session.pendingTwofa

theorem outcome_silent {e : Raised} (h : e.silent = true) : Outcome r past (.error e) := by
  cases e with
  | http => exact absurd h (by simp [Raised.silent])
  | fault f => exact outcome_fault f
  | permissionDenied => simp [Outcome, sessionOf]

theorem Current.obeys {user : Option User} {session : Session} {p : Program Reply}
    (h : Current r past user session) (hp : Within cfg r past (Replies session) p) :
    Obeys (Grounds cfg r) (Outcome r) past p := by
  refine (hp past fun _ h => h).later.mono (fun _ _ h => h) ?_
  rintro past' result ⟨hlater, hresult⟩
  cases result with
  | ok reply => exact .of_session (h.later hlater).kept hresult.1 hresult.2.1 hresult.2.2
  | error e => exact outcome_silent hresult

theorem obeys_managing {body : User → Session → Program String}
    (hbody : ∀ user session past, Current r past (some user) session →
      Within cfg r past (fun _ => True) (body user session)) :
    Obeys (Grounds cfg r) (Outcome r) [] (managing r body) := by
  refine obeys_signedIn fun user session past hcurrent => ?_
  have hafter : Within cfg r past (Replies session) (do
      let flash ← body user session
      return (⟨.redirect "/users", { session with flash := some flash }⟩ : Reply)) :=
    (hbody user session past hcurrent).bind fun _ => .pure ⟨rfl, rfl, rfl⟩
  refine obeys_bind.mpr (obeys_tryCatch.mpr ?_)
  unfold authorizeUserManagement
  refine obeys_ite.mpr ⟨fun _ => hcurrent.obeys hafter, fun _ => ?_⟩
  refine obeys_bind.mpr (obeys_call.mpr ⟨trivial, fun _ => ?_, fun f => outcome_fault f⟩)
  exact outcome_http.mpr (hcurrent.later fun _ h => List.mem_append_left _ h).kept

theorem Current.ownSid {user : User} {session : Session}
    (h : Current r past (some user) session) : OwnSid r past (session.sid.getD "") := by
  obtain ⟨sid, hsid, hown⟩ := h.enrolled (by simp)
  rw [hsid]
  exact hown

theorem Current.actsOn {user : User} {session : Session} {username : String}
    (h : Current r past (some user) session) (hother : username ≠ user.username) :
    ActsOn r username := ⟨user.username, h.named user rfl, fun heq => hother heq.symm⟩

/-! ### The routes of the accounts -/

section

variable {base : List MadeCall} {user : User} {username : String}

theorem within_recordAccountChange {detail : String} :
    Within cfg r base (fun _ => True) (recordAccountChange user detail) := by
  refine Within.bind ?_ fun _ => .call fun _ _ => trivial
  exact .ite (.pure trivial) (.bind (.call fun _ _ => trivial) fun _ => .throw rfl)

theorem within_forgetAccountTraces (h : ∀ past, Removes r past username) :
    Within cfg r base (fun _ => True) (forgetAccountTraces username) :=
  .bind (.call fun past _ => h past) fun _ => .bind (.call fun _ _ => trivial) fun _ =>
    .pure trivial

theorem obeys_persistNewAccount {role password : String}
    (h : ∀ past', past ⊆ past' → Writes r past' username) :
    Obeys (Grounds cfg r)
      (Reports fun past _ => ∃ hash, ⟨.passwordSet username hash, .ok ()⟩ ∈ past) past
      (persistNewAccount username role password) := by
  refine obeys_call_bind.mpr ⟨trivial, fun hash => ?_, fun _ => rfl⟩
  refine obeys_call_bind.mpr ⟨trivial, fun _ => ?_, fun _ => rfl⟩
  have hadd : Within cfg r past (fun _ => True)
      (tryCatch (call (.usersStoreAdd username role)) fun e =>
        if e.isException then do
          tryCatch (do let _ ← call (.passwordRemove username)) fun e =>
            if e.isException then return () else throw e
          throw e
        else throw e) := by
    refine .tryCatch (.call h) fun e he => .ite ?_ (.throw he)
    refine .bind (.tryCatch ?_ fun e he => .ite (.pure trivial) (.throw he)) fun _ => .throw he
    exact .bind (.call fun _ _ => trivial) fun _ => .pure trivial
  refine (hadd _ ?_).later.mono (fun _ _ h => h) ?_
  · exact fun _ hmade => List.mem_append_left _ (List.mem_append_left _ hmade)
  · rintro past' result ⟨hlater, hresult⟩
    cases result with
    | ok _ => exact ⟨hash, hlater (by simp)⟩
    | error e => exact hresult

theorem obeys_reported {role password : String}
    (h : ∀ past', past ⊆ past' → Writes r past' username) :
    Obeys (Grounds cfg r)
      (Reports fun past _ => ∃ hash, ⟨.passwordSet username hash, .ok ()⟩ ∈ past) past
      (do persistNewAccount username role password; return true) := by
  refine obeys_bind.mpr ((obeys_persistNewAccount h).mono (fun _ _ h => h) ?_)
  intro past' result hresult
  cases result with
  | ok _ => exact hresult
  | error e => exact hresult

theorem obeys_exceptPersistence {Q : List MadeCall → Prop} {body : Program Bool}
    (hbody : Obeys (Grounds cfg r) (Reports fun past _ => Q past) past body) :
    Obeys (Grounds cfg r) (Reports fun past done => done = true → Q past) past
      (exceptPersistence body (return false)) := by
  refine obeys_tryCatch.mpr (hbody.mono (fun _ _ h => h) ?_)
  intro past' result hresult
  cases result with
  | ok _ => exact fun _ => hresult
  | error e => exact obeys_ite.mpr ⟨fun _ hfalse => by simp at hfalse, fun _ => hresult⟩

theorem obeys_userAdd {name role password : String} (hform : r.form = .userAdd name role password) :
    Obeys (Grounds cfg r) (Outcome r) [] (actionUserAdd cfg r name role password) := by
  rw [actionUserAdd]
  refine obeys_managing fun user session past hcurrent => ?_
  generalize strip cfg name = username
  refine .ite (.pure trivial) (.bind (.call fun _ _ => trivial) fun found => ?_)
  cases found with
  | some _ => exact .pure trivial
  | none =>
    cases cfg.roles role with
    | none => exact .pure trivial
    | some roleObj =>
      have hpersist : ∀ past', past ⊆ past' → Obeys (Grounds cfg r)
          (Reports fun past _ => ∃ hash, ⟨.passwordSet username hash, .ok ()⟩ ∈ past) past'
          (do
            forgetAccountTraces username
            persistNewAccount username role password
            return true) := by
        intro past' _
        refine obeys_bind.mpr ((within_forgetAccountTraces (fun _ => .add _ _ _ hform) past'
          fun _ h => h).mono (fun _ _ h => h) fun past'' result hresult => ?_)
        cases result with
        | ok _ => exact obeys_reported fun _ _ => .add _ _ _ hform
        | error e => exact hresult
      refine .ite (.pure trivial) (.bind_reports (fun past' hlater => obeys_exceptPersistence
        (hpersist past' hlater)) fun past' added _ hadded => ?_)
      cases added with
      | false => exact .pure trivial
      | true =>
        refine .bind (.call fun past'' hlater => ⟨.add _ _ _ hform, .inl ?_⟩) fun _ => ?_
        · obtain ⟨hash, hset⟩ := hadded rfl
          exact ⟨hash, hlater hset⟩
        · exact .bind within_recordAccountChange fun _ => .pure trivial

theorem obeys_userResetPassword {password : String} :
    Obeys (Grounds cfg r) (Outcome r) [] (actionUserResetPassword r username password) := by
  refine obeys_managing fun user session past hcurrent => ?_
  refine .bind (.call fun _ _ => trivial) fun found => ?_
  cases found with
  | none => exact .pure trivial
  | some _ =>
    refine .ite (.pure trivial) (.bind (.exceptPersistence ?_ (.pure trivial)) fun changed => ?_)
    · exact .bind (.call fun _ _ => trivial) fun _ => .bind (.call fun _ _ => trivial) fun _ =>
        .pure trivial
    · have hrevoke : Within cfg r past (fun _ => True) (revokeOnReset user session username) :=
        .ite (.call fun past' hlater => (hcurrent.later hlater).ownSid) (.call fun _ _ => trivial)
      refine .ite (.bind hrevoke fun revoked => ?_) (.pure trivial)
      exact .bind within_recordAccountChange fun _ => .pure trivial

theorem obeys_userRole {role : String} (hform : r.form = .userRole username role) :
    Obeys (Grounds cfg r) (Outcome r) [] (actionUserRole cfg r username role) := by
  refine obeys_managing fun user session past hcurrent => ?_
  by_cases hself : username = user.username
  · simp only [hself, if_true]
    exact .pure trivial
  · have hacts : ActsOn r username := hcurrent.actsOn hself
    simp only [if_neg hself]
    refine .call_bind (fun _ _ => trivial) fun past' found _ hfound => ?_
    cases found with
    | none => exact .pure trivial
    | some before =>
      cases cfg.roles role with
      | none => exact .pure trivial
      | some roleObj =>
        refine .bind (.exceptPersistence ?_ (.pure trivial)) fun changed => ?_
        · exact .bind (.call fun _ _ => .role _ hform hacts) fun _ => .pure trivial
        · refine .ite (.bind (.call fun _ hlater => ?_) fun _ => ?_) (.pure trivial)
          · exact ⟨.role _ hform hacts, .inr ⟨before, hlater hfound⟩⟩
          · exact .bind within_recordAccountChange fun _ => .pure trivial

theorem obeys_userDelete (hform : r.form = .userDelete username) :
    Obeys (Grounds cfg r) (Outcome r) [] (actionUserDelete r username) := by
  refine obeys_managing fun user session past hcurrent => ?_
  by_cases hself : username = user.username
  · simp only [hself, if_true]
    exact .pure trivial
  · have hacts : ActsOn r username := hcurrent.actsOn hself
    simp only [if_neg hself]
    refine .bind (.call fun _ _ => trivial) fun found => ?_
    cases found with
    | none => exact .pure trivial
    | some _ =>
      refine .bind (.exceptPersistence ?_ (.pure trivial)) fun removed => ?_
      · exact .bind (.call fun _ _ => ⟨hform, hacts⟩) fun _ => .pure trivial
      · match removed with
        | none => exact .pure trivial
        | some false => exact .pure trivial
        | some true =>
          refine .bind (.call fun _ _ => ⟨hform, hacts⟩) fun _ => ?_
          refine .bind (.exceptPersistence ?_ (.pure trivial)) fun passwordRemoved => ?_
          · exact .bind (.call fun _ _ => trivial) fun _ => .pure trivial
          · refine .bind (.exceptPersistence ?_ (.pure trivial)) fun tracesRemoved => ?_
            · exact .bind (within_forgetAccountTraces fun _ => .delete hform) fun _ =>
                .pure trivial
            · exact .bind within_recordAccountChange fun _ =>
                .ite (.pure trivial) (.pure trivial)

theorem obeys_userResetTwofa (hform : r.form = .userResetTwofa username) :
    Obeys (Grounds cfg r) (Outcome r) [] (actionUserResetTwofa r username) := by
  refine obeys_managing fun user session past hcurrent => ?_
  refine .ite (.pure trivial) (.bind (.call fun _ _ => trivial) fun found => ?_)
  cases found with
  | none => exact .pure trivial
  | some _ =>
    refine .bind (.exceptPersistence ?_ (.pure trivial)) fun removed => ?_
    · exact .bind (.call fun _ _ => .reset hform) fun _ => .pure trivial
    · match removed with
      | none => exact .pure trivial
      | some false => exact .pure trivial
      | some true => exact .bind within_recordAccountChange fun _ => .pure trivial

end

/-! ### The routes of one's own account -/

section

variable {user : User} {session : Session} {base : List MadeCall} {username password : String}

theorem within_verifyOwnPassword :
    Within cfg r base (fun _ => True) (verifyOwnPassword user password) := by
  refine .bind (.call fun _ _ => trivial) fun stored => ?_
  cases stored with
  | none => exact .pure trivial
  | some hash => exact .call fun _ _ => trivial

theorem obeys_password {newPassword redirectTo : String} :
    Obeys (Grounds cfg r) (Outcome r) []
      (actionPassword cfg r password newPassword redirectTo) := by
  refine obeys_signedIn fun user session past hcurrent => hcurrent.obeys ?_
  refine .bind within_verifyOwnPassword fun correct => .ite (.ite ?_ ?_) (.pure ⟨rfl, rfl, rfl⟩)
  · exact .pure ⟨rfl, rfl, rfl⟩
  · refine .bind (.exceptPersistence ?_ (.pure trivial)) fun changed => .ite ?_ ?_
    · exact .bind (.call fun _ _ => trivial) fun _ => .bind (.call fun _ _ => trivial) fun _ =>
        .pure trivial
    · refine .bind (.call fun past' hlater => (hcurrent.later hlater).ownSid) fun revoked => ?_
      exact .pure ⟨rfl, rfl, rfl⟩
    · exact .pure ⟨rfl, rfl, rfl⟩

theorem obeys_securityStart (hform : r.form = .securityStart) :
    Obeys (Grounds cfg r) (Outcome r) [] (securityStart r) := by
  refine obeys_signedIn fun user session past hcurrent => hcurrent.obeys ?_
  refine .call_bind (fun _ _ => trivial) fun past' enabled _ henabled => ?_
  cases enabled with
  | true => exact .pure ⟨rfl, rfl, rfl⟩
  | false =>
    refine .bind (.call fun _ _ => trivial) fun secret => ?_
    refine .bind (.call fun _ hlater => ⟨hform, hlater henabled⟩) fun _ => ?_
    exact .pure ⟨rfl, rfl, rfl⟩

theorem obeys_securityCancel (hform : r.form = .securityCancel) :
    Obeys (Grounds cfg r) (Outcome r) [] (securityCancel r) := by
  refine obeys_signedIn fun user session past hcurrent => hcurrent.obeys ?_
  refine .bind (.call fun _ _ => trivial) fun pending => .ite ?_ (.pure ⟨rfl, rfl, rfl⟩)
  refine .call_bind (fun _ _ => trivial) fun past' enabled _ henabled => ?_
  cases enabled with
  | true => exact .pure ⟨rfl, rfl, rfl⟩
  | false =>
    refine .bind (.call fun _ hlater => .cancel hform (hlater henabled)) fun _ => ?_
    exact .pure ⟨rfl, rfl, rfl⟩

theorem obeys_securityDisable (hform : r.form = .securityDisable password) :
    Obeys (Grounds cfg r) (Outcome r) [] (securityDisable r password) := by
  refine obeys_signedIn fun user session past hcurrent => hcurrent.obeys ?_
  refine .bind within_verifyOwnPassword fun correct => .ite ?_ (.pure ⟨rfl, rfl, rfl⟩)
  exact .bind (.call fun _ _ => .disable _ hform) fun _ => .pure ⟨rfl, rfl, rfl⟩

theorem obeys_verifyCode {secret code : Text} {f : Bool → Program Reply}
    (hlogin : ∀ username password, r.form ≠ .login username password)
    (hf : ∀ past' valid, past ⊆ past' →
      (valid = true → ∃ now, ⟨.time, .ok now⟩ ∈ past' ∧
        Totp.verify cfg.lib secret code now = .ok true) →
      Obeys (Grounds cfg r) (Outcome r) past' (f valid)) :
    Obeys (Grounds cfg r) (Outcome r) past (verifyCode cfg secret code >>= f) := by
  rcases verifyCode_cases cfg secret code with ⟨hverify, -⟩ | hverify
  · rw [hverify, obeys_bind, obeys_pure]
    exact hf past false (fun _ h => h) (by simp)
  · rw [hverify, obeys_bind, obeys_bind]
    refine obeys_call.mpr ⟨fun username password h => absurd h (hlogin username password),
      fun now => ?_, fun f => outcome_fault f⟩
    dsimp only
    cases hvalid : Totp.verify cfg.lib secret code now with
    | error e => exact outcome_fault _
    | ok valid =>
      refine hf _ valid (fun _ h => List.mem_append_left _ h) fun htrue => ⟨now, by simp, ?_⟩
      rw [hvalid, htrue]

theorem obeys_securityEnable {code : Text} (hform : r.form = .securityEnable code) :
    Obeys (Grounds cfg r) (Outcome r) [] (securityEnable cfg r code) := by
  refine obeys_signedIn fun user session past hcurrent => ?_
  have htell : ∀ past' flash, past ⊆ past' →
      Outcome r past' (.ok ⟨security, { session with flash := some flash }⟩) :=
    fun past' flash hlater => .of_session (hcurrent.later hlater).kept rfl rfl rfl
  refine obeys_bind.mpr (obeys_call_bind.mpr ⟨trivial, fun pending => ?_, fun f => outcome_fault f⟩)
  cases pending with
  | false => exact htell _ _ fun _ h => List.mem_append_left _ h
  | true =>
    refine obeys_call.mpr ⟨trivial, fun secret => ?_, fun f => outcome_fault f⟩
    have hnone : ∀ secret flash, Outcome r (past ++ [⟨.totpHasPending user.username, .ok true⟩] ++
        [⟨.totpSecret user.username, .ok secret⟩])
        (.ok ⟨security, { session with flash := some flash }⟩) := fun secret flash =>
      htell _ flash fun _ h => List.mem_append_left _ (List.mem_append_left _ h)
    match secret with
    | none => exact hnone none _
    | some [] => exact hnone (some []) _
    | some (c :: rest) =>
      refine obeys_verifyCode (by simp [hform]) fun past' valid hlater hvalid => ?_
      have hlater' : past ⊆ past' := fun _ h =>
        hlater (List.mem_append_left _ (List.mem_append_left _ h))
      cases valid with
      | false => exact htell past' _ hlater'
      | true =>
        obtain ⟨now, htime, hverify⟩ := hvalid rfl
        have hsecret := hlater (List.mem_append_right _ (List.mem_singleton_self _))
        refine obeys_call_then ⟨code, _, hform, now, hsecret, htime, hverify⟩ fun _ => ?_
        exact htell _ _ fun _ h => List.mem_append_left _ (hlater' h)

end

/-! ### The routes that open and close sessions -/

section

variable {username password : String}

theorem outcome_opened {sid : String} {session : Session} {page : Page}
    (huser : session.user = some username) (hsid : session.sid = some sid)
    (hpending : PendingKept r past session)
    (hmade : ⟨.register username r.clientIp r.userAgent, .ok sid⟩ ∈ past) :
    Outcome r past (.ok ⟨page, session⟩) :=
  outcome_ok.mpr ⟨.inr (.inr ⟨username, sid, _, _, huser, hsid, hmade⟩), hpending⟩

theorem obeys_registerSession {session : Session} (hopens : Opens cfg r past username) :
    Obeys (Grounds cfg r) (Faulty fun past registered => ∃ sid,
      registered = { session with sid := some sid } ∧
        ⟨.register username r.clientIp r.userAgent, .ok sid⟩ ∈ past) past
      (registerSession r session username) :=
  obeys_call_bind.mpr ⟨hopens, fun sid => ⟨sid, rfl, by simp⟩, fun f => ⟨f, rfl⟩⟩

theorem obeys_completeLogin (hopens : Opens cfg r past username) :
    Obeys (Grounds cfg r) (Outcome r) past (completeLogin r username) := by
  refine obeys_helper_then (obeys_registerSession hopens) ?_
  rintro past session ⟨sid, rfl, hmade⟩
  exact outcome_opened rfl rfl (.inl rfl) hmade

theorem obeys_csrf {session : Session}
    (hkept : UserKept r past session ∧ PendingKept r past session) :
    Obeys (Grounds cfg r)
      (Faulty fun past session => UserKept r past session ∧ PendingKept r past session) past
      (csrf session) := by
  have hnew : Obeys (Grounds cfg r)
      (Faulty fun past session => UserKept r past session ∧ PendingKept r past session) past (do
        let token ← call .newCsrfToken
        return { session with csrf := some token }) := by
    refine obeys_call_bind.mpr ⟨trivial, fun token => ?_, fun f => ⟨f, rfl⟩⟩
    exact ⟨hkept.1.later fun _ h => List.mem_append_left _ h,
      hkept.2.later fun _ h => List.mem_append_left _ h⟩
  unfold csrf
  split
  · exact hnew
  · exact hnew
  · exact hkept

theorem obeys_csrfPage {session : Session} {page : Page}
    (hkept : UserKept r past session ∧ PendingKept r past session) :
    Obeys (Grounds cfg r) (Outcome r) past (do
      let session ← csrf session
      return (⟨page, session⟩ : Reply)) :=
  obeys_helper_then (obeys_csrf hkept) fun _ _ h => .of_session h rfl rfl rfl

theorem obeys_setupForm : Obeys (Grounds cfg r) (Outcome r) [] (setupForm r) := by
  refine obeys_call_then trivial fun empty => ?_
  exact obeys_ite.mpr ⟨fun _ => obeys_csrfPage ⟨.same, .same⟩, fun _ => outcome_same _⟩

theorem obeys_loginForm : Obeys (Grounds cfg r) (Outcome r) [] (loginForm r) := by
  refine obeys_call_then trivial fun empty => ?_
  refine obeys_ite.mpr ⟨fun _ => outcome_same _, fun _ => obeys_helper_then obeys_current ?_⟩
  rintro past ⟨user, session⟩ h
  cases user with
  | some user => exact .of_session h.kept rfl rfl rfl
  | none => exact obeys_csrfPage h.kept

theorem obeys_accountPage : Obeys (Grounds cfg r) (Outcome r) [] (accountPage r) := by
  refine obeys_helper_then obeys_current ?_
  rintro past ⟨user, session⟩ h
  cases user with
  | none => exact .of_session h.kept rfl rfl rfl
  | some user =>
    exact obeys_helper_then (obeys_csrf h.kept) fun _ _ h => .of_session h rfl rfl rfl

theorem obeys_logout : Obeys (Grounds cfg r) (Outcome r) [] (logout r) := by
  refine obeys_requireCsrf ⟨.same, .same⟩ ?_
  have hempty : ∀ past page, Outcome r past (.ok ⟨page, {}⟩) := fun past page =>
    outcome_ok.mpr ⟨.inl rfl, .inl rfl⟩
  split
  · exact hempty _ _
  · exact hempty _ _
  · exact obeys_call_then trivial fun _ => hempty _ _

theorem obeys_createFirst {name password passwordConfirm : String}
    (hform : r.form = .setupCreate name password passwordConfirm)
    (hname : strip cfg name = username)
    (hempty : ⟨.usersEmpty, .ok true⟩ ∈ past) :
    Obeys (Grounds cfg r) (Outcome r) past
      (createFirst cfg r username password passwordConfirm) := by
  have hwrites : ∀ past', past ⊆ past' → Writes r past' username := fun past' hlater =>
    .setup name password passwordConfirm hform (hlater hempty)
  rw [createFirst]
  cases setupError username password passwordConfirm with
  | some error => exact outcome_same _
  | none =>
    refine obeys_bind.mpr ((obeys_exceptPersistence (obeys_reported hwrites)).later.mono
      (fun _ _ h => h) ?_)
    rintro past' result ⟨hlater, hresult⟩
    cases result with
    | error e => exact outcome_silent hresult
    | ok persisted =>
      refine obeys_ite.mpr ⟨fun hpersisted => ?_, fun _ => outcome_same _⟩
      refine obeys_call_then ⟨hwrites past' hlater, .inl (hresult hpersisted)⟩ fun _ => ?_
      refine obeys_call_then trivial fun _ => ?_
      refine obeys_helper_then (obeys_registerSession
        (.setup name password passwordConfirm hform hname (by simp))) ?_
      rintro past session ⟨sid, rfl, hmade⟩
      exact outcome_opened rfl rfl (.inr (.inl rfl)) hmade

theorem obeys_setupCreate {name password passwordConfirm : String}
    (hform : r.form = .setupCreate name password passwordConfirm) :
    Obeys (Grounds cfg r) (Outcome r) [] (setupCreate cfg r name password passwordConfirm) := by
  rw [setupCreate]
  generalize hname : strip cfg name = username
  refine obeys_requireCsrf ⟨.same, .same⟩ ?_
  refine obeys_call_then trivial fun empty => ?_
  refine obeys_ite.mpr ⟨fun hempty => ?_, fun _ => outcome_same _⟩
  have hmade : (⟨.usersEmpty, .ok true⟩ : MadeCall) ∈ [] ++ [⟨.usersEmpty, .ok empty⟩] := by
    rw [hempty]
    exact List.mem_append_right _ (List.mem_singleton_self _)
  exact obeys_createFirst hform hname hmade

theorem obeys_authenticate {stored : Option Hash}
    (hstored : ∀ hash ∈ stored, ⟨.passwordGet username, .ok (some hash)⟩ ∈ past) :
    Obeys (Grounds cfg r) (Faulty fun past user => ∀ u ∈ user, u.username = username ∧
      PasswordPassed past username password) past (authenticate cfg stored username password) := by
  refine obeys_call_bind.mpr ⟨trivial, fun role => ?_, fun f => ⟨f, rfl⟩⟩
  have hrefused : ∀ past, Obeys (Grounds cfg r) (Faulty fun past user => ∀ u ∈ user,
      u.username = username ∧ PasswordPassed past username password) past (do
        let _ ← call (.verify cfg.loginDummyHash password)
        return none : Program (Option User)) := fun past =>
    obeys_call_bind.mpr ⟨trivial, fun _ _ h => by simp at h, fun f => ⟨f, rfl⟩⟩
  cases stored with
  | none => exact hrefused _
  | some hash =>
    cases role with
    | none => exact hrefused _
    | some role =>
      refine obeys_call_bind.mpr ⟨trivial, fun valid => ?_, fun f => ⟨f, rfl⟩⟩
      cases valid with
      | false => exact fun u hu => by simp at hu
      | true =>
        intro u hu
        obtain rfl := Option.some.inj hu
        exact ⟨rfl, hash, by simp [hstored hash rfl], ⟨role, by simp⟩, by simp⟩

theorem obeys_check :
    Obeys (Grounds cfg r) (Faulty fun past user => ∀ u ∈ user, u.username = username ∧
      PasswordPassed past username password) past (do
        let stored ← call (.passwordGet username)
        authenticate cfg stored username password) := by
  refine obeys_call_bind.mpr ⟨trivial, fun stored => obeys_authenticate ?_, fun f => ⟨f, rfl⟩⟩
  intro hash hhash
  rw [Option.mem_def.mp hhash]
  exact List.mem_append_right _ (List.mem_singleton_self _)

theorem obeys_loginAttempt {attempt : ℕ} :
    Obeys (Grounds cfg r) (Faulty fun past user => ∀ u ∈ user, u.username = username ∧
      PasswordPassed past username password) past (loginAttempt cfg attempt username password) := by
  refine obeys_tryCatch.mpr (obeys_check.mono (fun _ _ h => h) fun past result h => ?_)
  cases result with
  | ok user => exact h
  | error e =>
    obtain ⟨f, rfl⟩ := h
    refine obeys_ite.mpr ⟨fun _ => ?_, fun _ => ⟨f, rfl⟩⟩
    exact obeys_call_bind.mpr ⟨trivial, fun _ => ⟨f, rfl⟩, fun f => ⟨f, rfl⟩⟩

theorem PasswordPassed.later {past' : List MadeCall} (h : PasswordPassed past username password)
    (hlater : past ⊆ past') : PasswordPassed past' username password := by
  obtain ⟨hash, hstored, ⟨role, hrole⟩, hverify⟩ := h
  exact ⟨hash, hlater hstored, ⟨role, hlater hrole⟩, hlater hverify⟩

theorem grounds_time (hform : r.form = .login username password)
    (h : PasswordPassed past username password) : Grounds cfg r past .time := by
  intro username' password' hform'
  rw [hform] at hform'
  obtain ⟨rfl, rfl⟩ := Form.login.inj hform'
  exact h

theorem obeys_login (hform : r.form = .login username password) :
    Obeys (Grounds cfg r) (Outcome r) [] (login cfg r username password) := by
  refine obeys_requireCsrf ⟨.same, .same⟩ ?_
  refine obeys_call_then trivial fun attempt => ?_
  cases attempt with
  | none => exact outcome_same _
  | some attempt =>
    refine obeys_helper_then obeys_loginAttempt fun past user h => ?_
    cases user with
    | none => exact obeys_call_then trivial fun _ => outcome_same _
    | some user =>
      obtain ⟨rfl, hpassed⟩ := h user rfl
      refine obeys_call_then trivial fun enabled => ?_
      refine obeys_ite.mpr ⟨fun _ => ?_, fun henabled => ?_⟩
      · refine obeys_call_then trivial fun _ => ?_
        refine obeys_call_then (grounds_time hform (hpassed.later ?_)) fun now => ?_
        · exact fun _ h => List.mem_append_left _ (List.mem_append_left _ h)
        · exact outcome_ok.mpr ⟨.inr (.inl ⟨rfl, rfl⟩),
            .inr (.inr ⟨user.username, password, now, hform, by simp, rfl⟩)⟩
      · obtain rfl : enabled = false := by simpa using henabled
        refine obeys_call_then trivial fun _ => ?_
        refine obeys_completeLogin (.login password hform (hpassed.later ?_) (by simp))
        exact fun _ h => List.mem_append_left _ (List.mem_append_left _ h)

theorem obeys_verifyAttempt {attempt : ℕ} {code : Text} {exp now : ℚ}
    (hform : r.form = .loginVerify code)
    (hpending : r.session.pendingTwofa = some ⟨username, exp⟩)
    (htime : ⟨.time, .ok now⟩ ∈ past) (hexp : now ≤ exp) :
    Obeys (Grounds cfg r) (Outcome r) past (verifyAttempt cfg r attempt username code) := by
  refine obeys_call_then trivial fun secret => ?_
  refine obeys_verifyCode (by simp [hform]) fun past' valid hlater hvalid => ?_
  refine obeys_ite.mpr ⟨fun htrue => ?_, fun _ => ?_⟩
  · obtain ⟨moment, hmoment, hverify⟩ := hvalid htrue
    have hsecret : ∃ text, secret = some text := by
      cases secret with
      | some text => exact ⟨text, rfl⟩
      | none =>
        rw [Option.getD_none, Totp.verify_nil] at hverify
        exact absurd hverify (by simp)
    obtain ⟨text, rfl⟩ := hsecret
    refine obeys_call_then trivial fun _ => ?_
    refine obeys_completeLogin (.verify code text exp now hform hpending ?_ hexp ?_)
    · exact List.mem_append_left _ (hlater (List.mem_append_left _ htime))
    · refine ⟨moment, ?_, List.mem_append_left _ hmoment, hverify⟩
      exact List.mem_append_left _ (hlater (by simp))
  · exact obeys_call_then trivial fun _ => outcome_same _

theorem obeys_loginVerify {code : Text} (hform : r.form = .loginVerify code) :
    Obeys (Grounds cfg r) (Outcome r) [] (loginVerify cfg r code) := by
  refine obeys_requireCsrf ⟨.same, .same⟩ ?_
  cases hpending : r.session.pendingTwofa with
  | none => exact outcome_same _
  | some pending =>
    refine obeys_call_then (fun username password h => by simp [hform] at h) fun now => ?_
    refine obeys_ite.mpr ⟨fun _ => ?_, fun hexp => ?_⟩
    · exact outcome_ok.mpr ⟨.inr (.inl ⟨rfl, rfl⟩), .inl rfl⟩
    · refine obeys_call_then trivial fun attempt => ?_
      cases attempt with
      | none => exact outcome_same _
      | some attempt => exact obeys_verifyAttempt hform hpending (by simp) (not_lt.mp hexp)

end

/-! ### All of them -/

theorem server_does (cfg : Config) : (server cfg).Does (duty cfg) := by
  intro r
  change Obeys (Grounds cfg r) (Outcome r) [] (handler cfg r)
  unfold handler
  cases hform : r.form with
  | setupForm => exact obeys_setupForm
  | loginForm => exact obeys_loginForm
  | accountPage => exact obeys_accountPage
  | setupCreate => exact obeys_setupCreate hform
  | login => exact obeys_login hform
  | loginVerify => exact obeys_loginVerify hform
  | logout => exact obeys_logout
  | password => exact obeys_password
  | userAdd => exact obeys_userAdd hform
  | userResetPassword => exact obeys_userResetPassword
  | userRole => exact obeys_userRole hform
  | userDelete => exact obeys_userDelete hform
  | userResetTwofa => exact obeys_userResetTwofa hform
  | securityStart => exact obeys_securityStart hform
  | securityEnable => exact obeys_securityEnable hform
  | securityCancel => exact obeys_securityCancel hform
  | securityDisable => exact obeys_securityDisable hform

end AuthRoutes
