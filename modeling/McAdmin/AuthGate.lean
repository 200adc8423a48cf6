import McAdmin.AuthSteps

/-!
# How a session comes to have a user

A client may send again any session it was issued, the marker of an unfinished login included.
`gate_holds` follows every session with a user back to the request that was given it, and that
request to the password, the code or the creation of the account it rests on.  Whether a second
factor is asked for is a tolerant read: `unreadable_factor` is a run in which it could not be made.
-/

namespace AuthRoutes

open Backtracking Calls McAdmin

/-! ### What a request has shown -/

/-- The password is the one the account had when it was read. -/
def PasswordPresented (cfg : Config) (past : List AppStep) (username password : String) : Prop :=
  ∃ step ∈ past, step.call = .passwordGet username ∧
    ∃ hash, step.before.passwords.lookup username = some hash ∧ cfg.verifies hash password = true

/-- The code is valid, at a moment of the request, for the secret stored when it was read. -/
def CodePresented (cfg : Config) (past : List AppStep) (username : String) (code : Text) : Prop :=
  ∃ read ∈ past, read.call = .totpSecret username ∧
    ∃ entry, read.before.totp.lookup username = some entry ∧
      ∃ clock ∈ past, clock.call = .time ∧
        Totp.verify cfg.lib entry.secret code clock.choice.now = .ok true

/-- No second factor was active when the request asked. -/
def FactorOff (username : String) (step : AppStep) : Prop := step.before.active username = none

def FactorUnseen (username : String) (step : AppStep) : Prop :=
  FactorOff username step ∨ step.choice.unreadable = true

instance (username : String) (step : AppStep) : Decidable (FactorOff username step) :=
  inferInstanceAs (Decidable (_ = _))

/-- The marker was set by a login with the password of its user, and expires 300 s later. -/
def Marked (cfg : Config) (w : AppWorld) (pending : Pending) : Prop :=
  ∃ record ∈ w.trace, ∃ password, record.caller.request.form = .login pending.user password ∧
    record.call = .time ∧ pending.exp = record.choice.now + pendingTwofaTtlSeconds ∧
    PasswordPresented cfg record.past pending.user password

inductive Admitted (cfg : Config) (off : String → AppStep → Prop) (w : AppWorld)
    (username : String) (k : Caller App Request) (past : List AppStep) : Prop where
  | created (name password passwordConfirm : String) :
    k.request.form = .setupCreate name password passwordConfirm → strip cfg name = username →
    (∃ step ∈ past, step.call = .usersSet username cfg.ownerRole) →
    Admitted cfg off w username k past
  | password (password : String) :
    k.request.form = .login username password → PasswordPresented cfg past username password →
    (∃ step ∈ past, step.call = .totpIsEnabled username ∧ off username step) →
    Admitted cfg off w username k past
  | code (code : Text) (exp : ℚ) :
    k.request.form = .loginVerify code → CodePresented cfg past username code →
    k.request.session.pendingTwofa = some ⟨username, exp⟩ → Marked cfg w ⟨username, exp⟩ →
    (∃ step ∈ past, step.call = .time ∧ step.choice.now ≤ exp) →
    Admitted cfg off w username k past

def Registers (username sid : String) (record : AppRecord) : Prop :=
  ∃ clientIp userAgent, record.toMade = ⟨.register username clientIp userAgent, .ok sid⟩

/-- Every session with a user that was issued was registered by a request that was admitted. -/
def Gated (cfg : Config) (off : String → AppStep → Prop) (w : AppWorld) : Prop :=
  ∀ session ∈ w.state.issued, ∀ username, session.user = some username →
    ∃ sid, session.sid = some sid ∧ ∃ record ∈ w.trace, Registers username sid record ∧
      Admitted cfg off w username record.caller record.past

/-! ### What the answers show -/

def issuedStay : Growth App where
  le s s' := s.issued ⊆ s'.issued
  refl _ _ h := h
  trans h h' _ hs := h' (h hs)

variable {cfg : Config} {R : Request → Prop} {w w' : AppWorld} {k : Caller App Request}
  {past : List AppStep} {username password : String}

theorem PasswordPassed.presented {G : Growth App} (hk : Credible (server cfg) R G w k past)
    (h : PasswordPassed (made past) username password) :
    PasswordPresented cfg past username password := by
  obtain ⟨hash, hget, -, hverify⟩ := h
  obtain ⟨s, choice, hstep, -, hanswer⟩ := answered_ok hk hget
  obtain ⟨_, _, _, _, hverifies⟩ := answered_ok hk hverify
  refine ⟨_, hstep, rfl, hash, ?_, hverifies⟩
  simp only [App.serve] at hanswer
  split at hanswer
  · exact absurd hanswer (by simp)
  · exact (Option.filter_eq_some_iff.mp hanswer).1

theorem CodePassed.presented {G : Growth App} {code secret : Text}
    (hk : Credible (server cfg) R G w k past)
    (h : CodePassed cfg (made past) username code secret) :
    CodePresented cfg past username code := by
  obtain ⟨now, hsecret, htime, hverify⟩ := h
  obtain ⟨s, choice, hread, -, hanswer⟩ := answered_ok hk hsecret
  obtain ⟨_, _, hclock, _, rfl⟩ := answered_ok hk htime
  simp only [App.serve, App.entry] at hanswer
  split at hanswer
  · exact absurd hanswer (by simp)
  · obtain ⟨entry, hentry, rfl⟩ := Option.map_eq_some_iff.mp hanswer
    exact ⟨_, hread, rfl, entry, (Option.filter_eq_some_iff.mp hentry).1, _, hclock, rfl, hverify⟩

theorem factor_unseen {G : Growth App} (hk : Credible (server cfg) R G w k past)
    (h : ⟨.totpIsEnabled username, .ok false⟩ ∈ made past) :
    ∃ step ∈ past, step.call = .totpIsEnabled username ∧ FactorUnseen username step := by
  obtain ⟨s, choice, hstep, -, hanswer⟩ := answered_ok hk h
  refine ⟨_, hstep, rfl, ?_⟩
  by_cases hunreadable : choice.unreadable = true
  · exact .inr hunreadable
  · refine .inl ?_
    by_contra hactive
    obtain ⟨secret, hsecret⟩ := Option.ne_none_iff_exists'.mp hactive
    obtain ⟨hlookup, hne⟩ := App.active_eq_some.mp hsecret
    simp [App.serve, App.entry, hunreadable, hlookup, hne] at hanswer

/-! ### Each step -/

theorem Marked.later {pending : Pending} (h : Marked cfg w pending) (hlater : w.trace ⊆ w'.trace) :
    Marked cfg w' pending := by
  obtain ⟨record, hrecord, password, hmarked⟩ := h
  exact ⟨record, hlater hrecord, password, hmarked⟩

theorem Admitted.later {off : String → AppStep → Prop} (h : Admitted cfg off w username k past)
    (hlater : w.trace ⊆ w'.trace) : Admitted cfg off w' username k past := by
  cases h with
  | created name password passwordConfirm hform hname hset =>
    exact .created name password passwordConfirm hform hname hset
  | password password hform hpresented hoff => exact .password password hform hpresented hoff
  | code code exp hform hpresented hpending hmarked htime =>
    exact .code code exp hform hpresented hpending (hmarked.later hlater) htime

/-- What the sessions in the hands of clients, and the registered ones, rest on. -/
structure Vouched (cfg : Config) (w : AppWorld) : Prop where
  user : ∀ session ∈ w.state.issued, ∀ username, session.user = some username →
    ∃ sid, session.sid = some sid ∧ ∃ record ∈ w.trace, Registers username sid record
  pending : ∀ session ∈ w.state.issued, ∀ pending, session.pendingTwofa = some pending →
    Marked cfg w pending
  registered : ∀ record ∈ w.trace, ∀ username sid, Registers username sid record →
    sid ≠ "" ∧ Admitted cfg FactorUnseen w username record.caller record.past

theorem Vouched.gated (h : Vouched cfg w) : Gated cfg FactorUnseen w := by
  intro session hsession username huser
  obtain ⟨sid, hsid, record, hrecord, hregisters⟩ := h.user session hsession username huser
  exact ⟨sid, hsid, record, hrecord, hregisters,
    (h.registered record hrecord username sid hregisters).2⟩

theorem request_issued (hk : Credible (server cfg) R issuedStay w k past) :
    k.request.session = {} ∨ k.request.session ∈ w.state.issued := by
  rcases (by simpa [server] using hk.admitted : k.request.session = {} ∨
    k.request.session ∈ k.arrival.issued) with hempty | hissued
  · exact .inl hempty
  · exact .inr (hk.arrived hissued)

theorem Vouched.of_request (h : Vouched cfg w) (hk : Credible (server cfg) R issuedStay w k past)
    (huser : k.request.session.user = some username) : ∃ sid,
      k.request.session.sid = some sid ∧ ∃ record ∈ w.trace, Registers username sid record := by
  rcases request_issued hk with hempty | hissued
  · simp [hempty] at huser
  · exact h.user _ hissued username huser

theorem Vouched.not_unregistered (h : Vouched cfg w)
    (hk : Credible (server cfg) R issuedStay w k past) : ¬Unregistered k.request username := by
  rintro ⟨huser, -, hsid⟩
  obtain ⟨sid, hsome, record, hrecord, hregisters⟩ := h.of_request hk huser
  exact absurd (hsid sid hsome) (h.registered record hrecord username sid hregisters).1

theorem Vouched.of_pending (h : Vouched cfg w) (hk : Credible (server cfg) R issuedStay w k past)
    {pending : Pending} (hpending : k.request.session.pendingTwofa = some pending) :
    Marked cfg w pending := by
  rcases request_issued hk with hempty | hissued
  · simp [hempty] at hpending
  · exact h.pending _ hissued pending hpending

theorem Opens.admitted (h : Vouched cfg w) (hk : Credible (server cfg) R issuedStay w k past)
    (hopens : Opens cfg k.request (made past) username) :
    Admitted cfg FactorUnseen w username k past := by
  cases hopens with
  | setup name password passwordConfirm hform hname hset =>
    obtain ⟨s, choice, hstep, -⟩ := answered_ok hk hset
    exact .created name password passwordConfirm hform hname ⟨_, hstep, rfl⟩
  | login password hform hpassed hoff =>
    exact .password password hform (hpassed.presented hk) (factor_unseen hk hoff)
  | verify code secret exp now hform hpending htime hexp hpassed =>
    obtain ⟨s, choice, hclock, -, rfl⟩ := answered_ok hk htime
    exact .code code exp hform (hpassed.presented hk) hpending (h.of_pending hk hpending)
      ⟨_, hclock, rfl, hexp⟩
  | enrol hunregistered => exact absurd hunregistered (h.not_unregistered hk)

theorem recorded_ok {G : Growth App} {c : Call} {a : Answer c}
    (hk : Credible (server cfg) R G w k past) (h : ⟨c, .ok a⟩ ∈ made past) :
    ∃ record ∈ w.trace, record.toMade = ⟨c, .ok a⟩ ∧ record.caller = k := by
  obtain ⟨step, hstep, hmade⟩ := List.mem_map.mp h
  obtain ⟨record, hrecord, rfl, hcaller⟩ := hk.recorded step hstep
  exact ⟨record, hrecord, hmade, hcaller⟩

theorem marked_of_time (hw : w.Sound (server cfg) (duty cfg) R issuedStay)
    (hk : Credible (server cfg) R issuedStay w k past) {now : ℚ}
    (hform : k.request.form = .login username password)
    (htime : ⟨.time, .ok now⟩ ∈ made past) :
    Marked cfg w ⟨username, now + pendingTwofaTtlSeconds⟩ := by
  obtain ⟨record, hrecord, hmade, rfl⟩ := recorded_ok hk htime
  have hsound := hw.trace record hrecord
  have hok := (congrArg (fun step : AppStep => step.toMade) hsound.answered.2).symm.trans hmade
  obtain ⟨hcall, -, hnow⟩ := stepOf_ok hok
  have hcalled := hsound.called
  rw [hcall] at hcalled
  exact ⟨record, hrecord, password, hform, hcall, by rw [← hnow]; rfl,
    (hcalled username password hform).presented hsound.credible⟩

theorem UserKept.registered (h : Vouched cfg w)
    (hk : Credible (server cfg) R issuedStay w k past) {session : Session}
    (hkept : UserKept k.request (made past) session) (huser : session.user = some username) :
    ∃ sid, session.sid = some sid ∧ ∃ record ∈ w.trace, Registers username sid record := by
  rcases hkept with hnone | ⟨hsame, hsid⟩ | ⟨name, sid, clientIp, userAgent, hname, hsid, hmade⟩
  · simp [hnone] at huser
  · rw [hsid]
    exact h.of_request hk (hsame ▸ huser)
  · obtain rfl := Option.some.inj (hname.symm.trans huser)
    obtain ⟨record, hrecord, hregistered, -⟩ := recorded_ok hk hmade
    exact ⟨sid, hsid, record, hrecord, clientIp, userAgent, hregistered⟩

theorem PendingKept.marked (hw : w.Sound (server cfg) (duty cfg) R issuedStay)
    (h : Vouched cfg w) (hk : Credible (server cfg) R issuedStay w k past) {session : Session}
    {pending : Pending} (hkept : PendingKept k.request (made past) session)
    (hpending : session.pendingTwofa = some pending) : Marked cfg w pending := by
  rcases hkept with hnone | hsame | ⟨name, password, now, hform, htime, hmarker⟩
  · simp [hnone] at hpending
  · exact h.of_pending hk (hsame ▸ hpending)
  · obtain rfl := Option.some.inj (hmarker.symm.trans hpending)
    exact marked_of_time hw hk hform htime

theorem vouched_move (hw : w.Sound (server cfg) (duty cfg) R issuedStay) (h : Vouched cfg w)
    {K : Condition App Call Answer Fault Request Choice}
    (hmove : Move (server cfg) (duty cfg) R issuedStay K w w') : Vouched cfg w' := by
  have hlater := hmove.trace_subset
  cases hmove with
  | stay => exact h
  | call k past c choice hk hgrounds _ hallows =>
    have hissued : ((server cfg).reply choice k past c w).state.issued = w.state.issued :=
      issued_respond
    refine ⟨fun session hsession username huser => ?_, fun session hsession pending hpending => ?_,
      fun record hrecord username sid hregisters => ?_⟩
    · rw [hissued] at hsession
      obtain ⟨sid, hsid, record, hrecord, hregisters⟩ := h.user session hsession username huser
      exact ⟨sid, hsid, record, hlater hrecord, hregisters⟩
    · rw [hissued] at hsession
      exact (h.pending session hsession pending hpending).later hlater
    -- a session registered now rests on what the request has seen
    · rcases List.mem_append.mp hrecord with hrecord | hrecord
      · obtain ⟨hsid, hadmitted⟩ := h.registered record hrecord username sid hregisters
        exact ⟨hsid, hadmitted.later hlater⟩
      · obtain rfl := List.mem_singleton.mp hrecord
        obtain ⟨clientIp, userAgent, hmade⟩ := hregisters
        obtain ⟨rfl, -, rfl⟩ := stepOf_ok hmade
        simp only [server, allows, Bool.and_eq_true, bne_iff_ne] at hallows
        exact ⟨hallows.1, (Opens.admitted h hk hgrounds).later hlater⟩
  | result k past result hk houtcome =>
    have hissued : ∀ session ∈ (deliver result w.state).issued,
        session ∈ sessionOf result ∨ session ∈ w.state.issued := by
      intro session hsession
      rw [deliver_eq] at hsession
      simpa using hsession
    refine ⟨fun session hsession username huser => ?_, fun session hsession pending hpending => ?_,
      fun record hrecord username sid hregisters => ?_⟩
    -- a session issued now is the request's own outcome
    · rcases hissued session hsession with hnew | hold
      · exact (houtcome session hnew).1.registered h hk huser
      · exact h.user session hold username huser
    · rcases hissued session hsession with hnew | hold
      · exact (houtcome session hnew).2.marked hw h hk hpending
      · exact h.pending session hold pending hpending
    · obtain ⟨hsid, hadmitted⟩ := h.registered record hrecord username sid hregisters
      exact ⟨hsid, hadmitted.later hlater⟩

theorem vouched_grows {K : Condition App Call Answer Fault Request Choice} :
    Grows (server cfg) (duty cfg) R issuedStay K := by
  intro w w' hw hmove
  cases hmove with
  | stay => exact fun _ h => h
  | call k past c choice =>
    change w.state.issued ⊆ (respond cfg choice c w.state).2.issued
    rw [issued_respond]
    exact fun _ h => h
  | result k past result =>
    change w.state.issued ⊆ (deliver result w.state).issued
    rw [deliver_eq]
    exact fun _ h => List.mem_append_right _ h

/-- Of requests of every kind in any number and in any order, with every session that was issued
sent again at will: a session with a user is issued only to a request that created the account,
that presented its password when no second factor was active or none could be seen, or that
presented a code for its secret with a marker, at most 300 s old, of its password. -/
theorem gate_holds (cfg : Config) (start : App) (hstart : start.issued = [])
    (events : List AppEvent) :
    Gated cfg FactorUnseen (Runs.run (server cfg).step (Pool.start start) events).world := by
  have hnone : Vouched cfg ⟨start, []⟩ := by
    refine ⟨?_, ?_, ?_⟩ <;> simp [hstart]
  refine (run_invariant (server_does cfg) (R := fun _ => True) (K := fun _ _ _ _ => True)
    vouched_grows (Vouched cfg) (fun _ _ hw h hmove => vouched_move hw h hmove) hnone
    (Runs.Along.of_forall ?_ _ _)).2.gated
  rintro p (request | ⟨i, choice⟩)
  · trivial
  · exact fun _ _ _ _ => trivial

/-! ### A login while the file cannot be read -/

/-- An account with an active second factor, and nobody signed in. -/
def guarded : App where
  users := Dict.set ∅ "ada" viewer
  passwords := Dict.set ∅ "ada" "hash of password"
  totp := Dict.set ∅ "ada" ⟨List.replicate 32 'A', true⟩

def loginOf (unreadable : Bool) : List AppEvent :=
  [.arrive ⟨.loginForm, {}, "", "", ""⟩, .proceed 0 {}, .proceed 0 { text := "token" },
    .proceed 0 {}, .arrive ⟨.login "ada" "password", { csrf := some "token" }, "token", "", ""⟩,
    .proceed 1 { token := some 1 }, .proceed 1 {}, .proceed 1 {}, .proceed 1 {},
    .proceed 1 { unreadable }, .proceed 1 {}, .proceed 1 { text := "sid" }, .proceed 1 {}]

theorem unreadable_factor :
    ¬∀ (cfg : Config) (start : App), start.issued = [] → ∀ events : List AppEvent,
      Gated cfg FactorOff (Runs.run (server cfg).step (Pool.start start) events).world := by
  intro h
  have hlogin : ∀ record ∈ (Runs.run (server sampleConfig).step (Pool.start guarded)
      (loginOf true)).world.trace, (record.call matches .register ..) = true →
        record.caller.request.form = .login "ada" "password" ∧
          ∀ step ∈ record.past, step.call = .totpIsEnabled "ada" → ¬FactorOff "ada" step := by
    decide +kernel
  obtain ⟨sid, -, record, hrecord, ⟨clientIp, userAgent, hmade⟩, hadmitted⟩ :=
    h sampleConfig guarded rfl (loginOf true) { user := some "ada", sid := some "sid" }
      (by decide +kernel) "ada" rfl
  have hcall : record.call = .register "ada" clientIp userAgent := congrArg Made.call hmade
  obtain ⟨hform, hfactor⟩ := hlogin record hrecord (by rw [hcall])
  cases hadmitted with
  | created name password passwordConfirm hsetup => simp [hform] at hsetup
  | password password _ _ hoff =>
    obtain ⟨step, hstep, hasked, hoff⟩ := hoff
    exact hfactor step hstep hasked hoff
  | code code exp hverify => simp [hform] at hverify

/-- An account that asks for no second factor. -/
theorem gate_holds_sample :
    let start := { guarded with totp := ∅ }
    let w := (Runs.run (server sampleConfig).step (Pool.start start) (loginOf false)).world
    { user := some "ada", sid := some "sid" } ∈ w.state.issued ∧
      Gated sampleConfig FactorUnseen w :=
  ⟨by decide +kernel, gate_holds sampleConfig _ rfl _⟩

end AuthRoutes
