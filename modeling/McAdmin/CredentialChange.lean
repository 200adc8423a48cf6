import McAdmin.AuthGate

/-!
# What a change of the password leaves open

A change or a reset of a password revokes the sessions that are registered by then, and a deletion
takes the account away.  A login whose password was checked before registers its session all the
same, at once or, with a marker and a code, up to five minutes later.  `cut_off` is what is true of
the runs in which nothing happens to the account between the password step of a login and the
registration of its session, and `late_registration` a run in which something does.

Passwords are told apart by how often the password of the user was replaced or removed before.
-/

namespace AuthRoutes

open Backtracking Calls McAdmin

/-! ### Changes and password steps -/

def readEpochs (username : String) (past : List AppStep) : List ℕ :=
  past.filterMap fun step =>
    if step.call = .passwordGet username then some (step.before.epoch username) else none

def setEpochs (username : String) (past : List AppStep) : List ℕ :=
  past.filterMap fun step =>
    match step.toMade with
    | ⟨.passwordSet name _, .ok _⟩ =>
      if name = username then some (step.before.epoch username + 1) else none
    | _ => none

/-- The change that a step completes, by the first password it leaves: of the password, with the
revocation after it, or of the account. -/
def cuts (username : String) (record : AppRecord) : List ℕ :=
  match record.toMade with
  | ⟨.revokeAll name, .ok _⟩ | ⟨.revokeOthers _ name, .ok _⟩ =>
    if name = username then setEpochs username record.past else []
  | ⟨.usersPop name, .ok _⟩ => if name = username then [record.before.epoch username + 1] else []
  | _ => []

def marks (pending : Pending) (record : AppRecord) : Bool :=
  match record.toMade, record.caller.request.form with
  | ⟨.time, .ok now⟩, .login username _ => pending = ⟨username, now + pendingTwofaTtlSeconds⟩
  | _, _ => false

/-- The passwords that a session was opened with: that the login read, or a login that the marker
can come from. -/
def openingEpochs (trace : List AppRecord) (k : Caller App Request) (past : List AppStep)
    (username : String) : List ℕ :=
  match k.request.form, k.request.session.pendingTwofa with
  | .login .., _ => readEpochs username past
  | .loginVerify _, some pending =>
    (trace.filter (marks pending)).flatMap fun record => readEpochs username record.past
  | _, _ => []

/-- The reads of a password step: of the password, and of the account. -/
def passwordReads (username : String) (past : List AppStep) : List AppStep :=
  past.filter fun step => step.call = .passwordGet username || step.call = .usersGet username

/-- The reads that a session rests on: those of the login, or of a login that the marker can come
from. -/
def openingReads (trace : List AppRecord) (k : Caller App Request) (past : List AppStep)
    (username : String) : List AppStep :=
  match k.request.form, k.request.session.pendingTwofa with
  | .login .., _ => passwordReads username past
  | .loginVerify _, some pending =>
    (trace.filter (marks pending)).flatMap fun record => passwordReads username record.past
  | _, _ => []

/-- Since the read no password of the user was set or removed, and the account was not taken out of
memory. -/
def uninterruptedSince (s : App) (username : String) (read : AppStep) : Bool :=
  read.before.epoch username == s.epoch username &&
    read.before.removals username == s.removals username

/-- Nothing happens to the account between a password step and the registration of a session that
rests on it.  An account is not taken away while a request is about to enter it, and it is entered
anew only with no session left of that name. -/
def uninterrupted (w : AppWorld) (k : Caller App Request) (past : List AppStep) : Call → Bool
  | .register username _ _ =>
    (openingReads w.trace k past username).all (uninterruptedSince w.state username)
  | .usersSet username _ => k.arrival.removals username == w.state.removals username &&
      ((w.state.users.lookup username).isSome ||
        w.state.sessions.sessions.entries.all fun entry => entry.2.username != username)
  | _ => true

abbrev Uninterrupted (w : AppWorld) (k : Caller App Request) (past : List AppStep) (c : Call) :
    Prop := uninterrupted w k past c = true

structure Open (s : App) (sid username : String) : Prop where
  named : sid ≠ ""
  account : (s.users.lookup username).isSome = true
  registered : ∃ e ∈ SessionRegistry.view s.sessions.sessions, e.sid = sid ∧ e.username = username

/-- The session was registered for a request with a password from the `n`-th on. -/
def OpenedFrom (w : AppWorld) (n : ℕ) (sid username : String) : Prop :=
  ∃ earlier record later, w.trace = earlier ++ record :: later ∧
    (∃ clientIp userAgent, record.call = .register username clientIp userAgent) ∧
    record.choice.text = sid ∧
    ∀ e ∈ openingEpochs earlier record.caller record.past username, n ≤ e

/-- Once a change is complete, every session that is open for its user made the change or was
opened with a password since. -/
def CutOff (w : AppWorld) : Prop :=
  ∀ change ∈ w.trace, ∀ username, ∀ n ∈ cuts username change, ∀ sid,
    Open w.state sid username → change.caller.request.session.sid = some sid ∨
      OpenedFrom w n sid username

variable {cfg : Config} {R : Request → Prop} {w w' : AppWorld} {k : Caller App Request}
  {past : List AppStep} {username sid : String} {n : ℕ}

/-! ### The accounts -/

/-- Passwords only get newer, and an account is there until it is taken away. -/
def accountsLast : Growth App where
  le s s' := s.issued ⊆ s'.issued ∧ ∀ username, s.epoch username ≤ s'.epoch username ∧
    s.removals username <:+ s'.removals username ∧
    (s.removals username = s'.removals username → (s.users.lookup username).isSome = true →
      (s'.users.lookup username).isSome = true)
  refl _ := ⟨fun _ h => h, fun _ => ⟨le_rfl, List.suffix_rfl, fun _ h => h⟩⟩
  trans := by
    rintro s s' s'' ⟨hissued, h⟩ ⟨hissued', h'⟩
    refine ⟨fun _ hs => hissued' (hissued hs), fun username => ?_⟩
    obtain ⟨hepoch, hremovals, hthere⟩ := h username
    obtain ⟨hepoch', hremovals', hthere'⟩ := h' username
    refine ⟨hepoch.trans hepoch', hremovals.trans hremovals', fun heq hsome => ?_⟩
    have hsame : s.removals username = s'.removals username :=
      hremovals.eq_of_length_le (heq ▸ hremovals'.length_le)
    exact hthere' (hsame ▸ heq) (hthere hsame hsome)

theorem App.le_epoch_replaced (s : App) (name username : String) :
    s.epoch username ≤ (s.replaced name).epoch username := by
  by_cases hname : username = name
  · simp [App.replaced, hname]
  · simp [App.replaced, Function.update_of_ne hname]

theorem accountsLast_issued (s s' : App) (h : accountsLast.le s s') : issuedStay.le s s' := h.1

theorem removals_between {s s' s'' : App} (h : accountsLast.le s s') (h' : accountsLast.le s' s'')
    (heq : s.removals username = s''.removals username) :
    s'.removals username = s''.removals username :=
  (h'.2 username).2.1.eq_of_length_le (heq ▸ (h.2 username).2.1.length_le)

theorem accountsLast_respond (c : Call) (choice : Choice) (s : App) :
    accountsLast.le s (respond cfg choice c s).2 := by
  rcases @respond_state cfg choice c s with h | h
  · rw [h]
    exact accountsLast.refl _
  · rw [h]
    cases c with
    | passwordSet name hash | passwordRemove name =>
      exact ⟨fun _ h => h, fun username =>
        ⟨s.le_epoch_replaced name username, List.suffix_rfl, fun _ h => h⟩⟩
    | usersSet name role =>
      refine ⟨fun _ h => h, fun username => ⟨le_rfl, List.suffix_rfl, fun _ hsome => ?_⟩⟩
      change ((Dict.set s.users name role).lookup username).isSome = true
      rw [Dict.lookup_set]
      split
      · rfl
      · exact hsome
    | usersPop name =>
      refine ⟨fun _ h => h, fun username => ?_⟩
      change _ ∧ s.removals username <:+ (s.tookAway name).removals username ∧
        (s.removals username = (s.tookAway name).removals username → _ →
          ((s.users.erase name).lookup username).isSome = true)
      by_cases hname : username = name
      · subst hname
        simp only [App.tookAway, Function.update_self]
        exact ⟨le_rfl, List.suffix_cons _ _, fun heq => absurd heq.symm (List.cons_ne_self _ _)⟩
      · simp only [App.tookAway, Function.update_of_ne hname]
        refine ⟨le_rfl, List.suffix_rfl, fun _ hsome => ?_⟩
        rwa [AList.lookup_erase_ne hname]
    | _ => exact ⟨fun _ h => h, fun _ => ⟨le_rfl, List.suffix_rfl, fun _ h => h⟩⟩

theorem accounts_grow {K : Condition App Call Answer Fault Request Choice} :
    Grows (server cfg) (duty cfg) R accountsLast K := by
  intro w w' hw hmove
  cases hmove with
  | stay => exact accountsLast.refl _
  | result k past result =>
    change accountsLast.le w.state (deliver result w.state)
    rw [deliver_eq]
    exact ⟨fun _ h => List.mem_append_right _ h, fun _ => ⟨le_rfl, List.suffix_rfl, fun _ h => h⟩⟩
  | call k past c choice => exact accountsLast_respond c choice w.state

/-- An account that is there has a newer password than each time it was taken away. -/
structure Settled (s : App) : Prop where
  removed : ∀ username, ∀ n ∈ s.removals username, n ≤ s.epoch username
  account : ∀ username, (s.users.lookup username).isSome = true →
    ∀ n ∈ s.removals username, n < s.epoch username

structure Ledger (w : AppWorld) : Prop where
  now : Settled w.state
  before : ∀ record ∈ w.trace, Settled record.before
  set : ∀ record ∈ w.trace, ∀ username hash, record.toMade = ⟨.passwordSet username hash, .ok ()⟩ →
    record.before.epoch username < w.state.epoch username
  popped : ∀ record ∈ w.trace, ∀ username, record.toMade = ⟨.usersPop username, .ok ()⟩ →
    record.before.epoch username ∈ w.state.removals username

theorem Enters.newer (hw : w.Sound (server cfg) (duty cfg) R accountsLast) (h : Ledger w)
    (hk : Credible (server cfg) R accountsLast w k past) (henters : Enters (made past) username)
    (hkept : k.arrival.removals username = w.state.removals username) :
    ∀ n ∈ w.state.removals username, n < w.state.epoch username := by
  rcases henters with ⟨hash, hset⟩ | ⟨role, hget⟩
  · obtain ⟨record, hrecord, hmade, rfl⟩ := recorded_ok hk hset
    have hsound := hw.trace record hrecord
    have hsame := removals_between hsound.arrived hsound.before hkept
    intro n hn
    have hbefore := (h.before record hrecord).removed username n (hsame ▸ hn)
    exact lt_of_le_of_lt hbefore (h.set record hrecord username hash hmade)
  · obtain ⟨s, choice, hstep, -, hanswer⟩ := answered_ok hk hget
    obtain ⟨record, hrecord, hrecorded, rfl⟩ := hk.recorded _ hstep
    have hbefore : record.before = s := congrArg Step.before hrecorded
    have hsound := hw.trace record hrecord
    have hsame := removals_between hsound.arrived hsound.before hkept
    refine h.now.account username ((hsound.before.2 username).2.2 hsame ?_)
    change s.users.lookup username = some role at hanswer
    rw [hbefore, hanswer]
    rfl

theorem Settled.replaced {s : App} (h : Settled s) (name : String) : Settled (s.replaced name) :=
  ⟨fun username n hn => (h.removed username n hn).trans (s.le_epoch_replaced name username),
    fun username hsome n hn =>
      (h.account username hsome n hn).trans_le (s.le_epoch_replaced name username)⟩

theorem Settled.respond {s : App} (h : Settled s) (c : Call) (choice : Choice)
    (henters : ∀ username role, c = .usersSet username role →
      ∀ n ∈ s.removals username, n < s.epoch username) :
    Settled (respond cfg choice c s).2 := by
  rcases @respond_state cfg choice c s with hstate | hstate
  · rwa [hstate]
  · rw [hstate]
    cases c with
    | passwordSet name hash | passwordRemove name =>
      exact ⟨(h.replaced name).removed, (h.replaced name).account⟩
    | usersSet name role =>
      refine ⟨h.removed, fun username hsome => ?_⟩
      -- an account is entered with a password newer than its removals
      by_cases hname : username = name
      · exact hname ▸ henters name role rfl
      · refine h.account username ?_
        change ((Dict.set s.users name role).lookup username).isSome = true at hsome
        rwa [Dict.lookup_set, if_neg hname] at hsome
    | usersPop name =>
      constructor
      · intro username n hn
        change n ∈ (s.tookAway name).removals username at hn
        change n ≤ s.epoch username
        by_cases hname : username = name
        · subst hname
          simp only [App.tookAway, Function.update_self] at hn
          rcases List.mem_cons.mp hn with rfl | hn
          · exact le_rfl
          · exact h.removed username n hn
        · simp only [App.tookAway, Function.update_of_ne hname] at hn
          exact h.removed username n hn
      · intro username hsome n hn
        change ((s.users.erase name).lookup username).isSome = true at hsome
        change n ∈ (s.tookAway name).removals username at hn
        by_cases hname : username = name
        · subst hname
          rw [AList.lookup_erase] at hsome
          exact absurd hsome (by simp)
        · rw [AList.lookup_erase_ne hname] at hsome
          simp only [App.tookAway, Function.update_of_ne hname] at hn
          exact h.account username hsome n hn
    | _ => exact ⟨h.removed, h.account⟩

theorem ledger_move (hw : w.Sound (server cfg) (duty cfg) R accountsLast) (h : Ledger w)
    (hmove : Move (server cfg) (duty cfg) R accountsLast Uninterrupted w w') : Ledger w' := by
  have hgrown := accounts_grow w w' hw hmove
  cases hmove with
  | stay => exact h
  | result k past result =>
    change Ledger ⟨deliver result w.state, w.trace⟩
    rw [deliver_eq]
    exact ⟨⟨h.now.removed, h.now.account⟩, h.before, h.set, h.popped⟩
  | call k past c choice hk hgrounds huninterrupted _ =>
    refine ⟨?_, fun record hrecord => ?_, fun record hrecord username hash hmade => ?_,
      fun record hrecord username hmade => ?_⟩
    · refine h.now.respond c choice ?_
      rintro username role rfl
      simp only [Uninterrupted, uninterrupted, Bool.and_eq_true, beq_iff_eq] at huninterrupted
      exact Enters.newer hw h hk hgrounds.2 huninterrupted.1
    · rcases List.mem_append.mp hrecord with hrecord | hrecord
      · exact h.before record hrecord
      · obtain rfl := List.mem_singleton.mp hrecord
        exact h.now
    · rcases List.mem_append.mp hrecord with hrecord | hrecord
      · exact (h.set record hrecord username hash hmade).trans_le (hgrown.2 username).1
      · obtain rfl := List.mem_singleton.mp hrecord
        obtain ⟨rfl, hrespond, -⟩ := stepOf_ok hmade
        change w.state.epoch username < (respond cfg choice _ w.state).2.epoch username
        rw [hrespond]
        simp [App.serve, App.replaced]
    · rcases List.mem_append.mp hrecord with hrecord | hrecord
      · exact (hgrown.2 username).2.1.subset (h.popped record hrecord username hmade)
      · obtain rfl := List.mem_singleton.mp hrecord
        obtain ⟨rfl, hrespond, -⟩ := stepOf_ok hmade
        change w.state.epoch username ∈ (respond cfg choice _ w.state).2.removals username
        rw [hrespond]
        simp [App.serve, App.tookAway]

/-! ### Each step -/

theorem OpenedFrom.later {record : AppRecord} (h : OpenedFrom w n sid username)
    (hlater : w'.trace = w.trace ++ [record]) : OpenedFrom w' n sid username := by
  obtain ⟨earlier, opening, later, htrace, hopening⟩ := h
  exact ⟨earlier, opening, later ++ [record], by rw [hlater, htrace]; simp, hopening⟩

theorem account_respond {c : Call} {choice : Choice} {s : App}
    (h : ((respond cfg choice c s).2.users.lookup username).isSome = true) :
    (s.users.lookup username).isSome = true ∨ ∃ role, c = .usersSet username role := by
  rcases @users_respond cfg choice c s with husers | ⟨name, role, rfl, husers⟩ |
    ⟨name, rfl, husers⟩
  · rw [husers] at h
    exact .inl h
  · rw [husers, Dict.lookup_set] at h
    by_cases hname : username = name
    · exact .inr ⟨role, by rw [hname]⟩
    · rw [if_neg hname] at h
      exact .inl h
  · rw [husers] at h
    by_cases hname : username = name
    · rw [hname, AList.lookup_erase] at h
      exact absurd h (by simp)
    · rw [AList.lookup_erase_ne hname] at h
      exact .inl h

theorem Open.before {c : Call} {choice : Choice} {s : App}
    (h : Open (respond cfg choice c s).2 sid username) :
    Open s sid username ∨
      (∃ clientIp userAgent, c = .register username clientIp userAgent ∧ sid = choice.text) ∨
      ∃ role, c = .usersSet username role ∧ (s.users.lookup username).isSome = false ∧
        ∃ e ∈ SessionRegistry.view s.sessions.sessions, e.username = username := by
  obtain ⟨hnamed, haccount, e, he, rfl, rfl⟩ := h
  rcases view_respond he with hold | ⟨clientIp, userAgent, hcall, hsid⟩
  · by_cases hbefore : (s.users.lookup e.username).isSome = true
    · exact .inl ⟨hnamed, hbefore, e, hold, rfl, rfl⟩
    · rcases account_respond haccount with haccount | ⟨role, hcall⟩
      · exact absurd haccount hbefore
      · exact .inr (.inr ⟨role, hcall, by simpa using hbefore, e, hold, rfl⟩)
  · exact .inr (.inl ⟨clientIp, userAgent, hcall, hsid⟩)

theorem mem_cuts {record : AppRecord} (h : n ∈ cuts username record) :
    ((∃ count, record.toMade = ⟨.revokeAll username, .ok count⟩) ∨
        ∃ keepSid count, record.toMade = ⟨.revokeOthers keepSid username, .ok count⟩) ∧
      n ∈ setEpochs username record.past ∨
    record.toMade = ⟨.usersPop username, .ok ()⟩ ∧ n = record.before.epoch username + 1 := by
  unfold cuts at h
  split at h
  · rename_i name count hmade
    split at h
    · rename_i hname
      exact .inl ⟨.inl ⟨count, hname ▸ hmade⟩, h⟩
    · exact absurd h List.not_mem_nil
  · rename_i keepSid name count hmade
    split at h
    · rename_i hname
      exact .inl ⟨.inr ⟨keepSid, count, hname ▸ hmade⟩, h⟩
    · exact absurd h List.not_mem_nil
  · rename_i name answer hmade
    split at h
    · rename_i hname
      exact .inr ⟨hname ▸ hmade, List.mem_singleton.mp h⟩
    · exact absurd h List.not_mem_nil
  · exact absurd h List.not_mem_nil

theorem mem_setEpochs (h : n ∈ setEpochs username past) : ∃ step ∈ past, ∃ hash,
    step.toMade = ⟨.passwordSet username hash, .ok ()⟩ ∧ n = step.before.epoch username + 1 := by
  obtain ⟨step, hstep, hn⟩ := List.mem_filterMap.mp h
  split at hn
  · rename_i name hash answer hmade
    split at hn
    · rename_i hname
      exact ⟨step, hstep, hash, hname ▸ hmade, (Option.some.inj hn).symm⟩
    · exact absurd hn (by simp)
  · exact absurd hn (by simp)

theorem newer_of_reads (hw : w.Sound (server cfg) (duty cfg) R accountsLast) (h : Ledger w)
    (hk : Credible (server cfg) R accountsLast w k past) {password : String}
    (hpassed : PasswordPassed (made past) username password)
    (hreads : ∀ read ∈ passwordReads username past, uninterruptedSince w.state username read = true)
    {change : AppRecord} (hchange : change ∈ w.trace) (hn : n ∈ cuts username change) {e : ℕ}
    (he : e ∈ readEpochs username past) : n ≤ e := by
  obtain ⟨read, hread, hepoch⟩ := List.mem_filterMap.mp he
  split at hepoch
  · rename_i hcall
    have hsince := hreads read (List.mem_filter.mpr ⟨hread, by simp [hcall]⟩)
    simp only [uninterruptedSince, Bool.and_eq_true, beq_iff_eq] at hsince
    obtain rfl := Option.some.inj hepoch
    rw [hsince.1]
    rcases mem_cuts hn with ⟨-, hset⟩ | ⟨hpop, rfl⟩
    · obtain ⟨step, hstep, hash, hmade, rfl⟩ := mem_setEpochs hset
      obtain ⟨record, hrecord, rfl, -⟩ := (hw.trace change hchange).credible.recorded step hstep
      exact h.set record hrecord username hash hmade
    · -- The account was read while it was there, after it had been taken away.
      obtain ⟨-, -, ⟨role, hget⟩, -⟩ := hpassed
      obtain ⟨s, choice, hstep, -, hanswer⟩ := answered_ok hk hget
      obtain ⟨record, hrecord, hrecorded, -⟩ := hk.recorded _ hstep
      have hbefore : record.before = s := congrArg Step.before hrecorded
      have hsince := hreads _ (List.mem_filter.mpr ⟨hstep, by simp⟩)
      simp only [uninterruptedSince, Bool.and_eq_true, beq_iff_eq] at hsince
      have haccount := (h.before record hrecord).account username
      rw [hbefore, hsince.1, hsince.2] at haccount
      change s.users.lookup username = some role at hanswer
      exact haccount (by rw [hanswer]; rfl) _ (h.popped change hchange username hpop)
  · exact absurd hepoch (by simp)

theorem passed_of_marks (hw : w.Sound (server cfg) (duty cfg) R accountsLast) {exp : ℚ}
    {record : AppRecord} (hrecord : record ∈ w.trace)
    (hmarks : marks ⟨username, exp⟩ record = true) :
    ∃ password, PasswordPassed (made record.past) username password := by
  have hcalled := (hw.trace record hrecord).called
  unfold marks at hmarks
  split at hmarks
  · rename_i now name password hmade hform
    obtain ⟨rfl, -⟩ := Pending.mk.inj (of_decide_eq_true hmarks)
    have hcall : record.call = .time := congrArg Made.call hmade
    rw [hcall] at hcalled
    exact ⟨password, hcalled username password hform⟩
  · exact absurd hmarks Bool.false_ne_true

theorem newer_of_uninterrupted (hw : w.Sound (server cfg) (duty cfg) R accountsLast)
    (hvouched : Vouched cfg w) (h : Ledger w) (hk : Credible (server cfg) R accountsLast w k past)
    (hopens : Opens cfg k.request (made past) username)
    (huninterrupted : (openingReads w.trace k past username).all
      (uninterruptedSince w.state username) = true)
    {change : AppRecord} (hchange : change ∈ w.trace) (hn : n ∈ cuts username change) {e : ℕ}
    (he : e ∈ openingEpochs w.trace k past username) : n ≤ e := by
  have hreads := List.all_eq_true.mp huninterrupted
  unfold openingReads at hreads
  unfold openingEpochs at he
  split at he
  · rename_i name password hform
    simp only [hform] at hreads
    cases hopens with
    | login password hform' hpassed _ =>
      exact newer_of_reads hw h hk hpassed hreads hchange hn he
    | setup _ _ _ hform' => exact absurd (hform.symm.trans hform') (by simp)
    | verify _ _ _ _ hform' => exact absurd (hform.symm.trans hform') (by simp)
    | enrol hunregistered =>
      exact absurd hunregistered (hvouched.not_unregistered (hk.weaken accountsLast_issued))
  · rename_i code pending hform hpending
    simp only [hform, hpending] at hreads
    cases hopens with
    | verify _ _ exp _ _ hpending' _ _ _ =>
      obtain rfl := Option.some.inj (hpending.symm.trans hpending')
      obtain ⟨record, hmarked, hread⟩ := List.mem_flatMap.mp he
      obtain ⟨hrecord, hmarks⟩ := List.mem_filter.mp hmarked
      obtain ⟨password, hpassed⟩ := passed_of_marks hw hrecord hmarks
      refine newer_of_reads hw h (hw.trace record hrecord).credible hpassed ?_ hchange hn hread
      exact fun read hread => hreads read (List.mem_flatMap.mpr ⟨record, hmarked, hread⟩)
    | login _ hform' => exact absurd (hform.symm.trans hform') (by simp)
    | setup _ _ _ hform' => exact absurd (hform.symm.trans hform') (by simp)
    | enrol hunregistered =>
      exact absurd hunregistered (hvouched.not_unregistered (hk.weaken accountsLast_issued))
  · exact absurd he List.not_mem_nil

theorem open_after_cut (hvouched : Vouched cfg w)
    (hk : Credible (server cfg) R issuedStay w k past) {c : Call} {choice : Choice}
    (hgrounds : Grounds cfg k.request (made past) c)
    (hn : n ∈ cuts username ⟨(server cfg).stepOf choice c w.state, k, past⟩)
    (h : Open (respond cfg choice c w.state).2 sid username) :
    k.request.session.sid = some sid := by
  obtain ⟨hnamed, haccount, e, he, rfl, husername⟩ := h
  rcases mem_cuts hn with ⟨⟨count, hmade⟩ | ⟨keepSid, count, hmade⟩, -⟩ | ⟨hmade, -⟩
  · obtain ⟨rfl, hrespond, -⟩ := stepOf_ok hmade
    rw [hrespond] at he
    exact absurd ((SessionRegistry.mem_view_revokeOthers he).2 husername) hnamed
  · obtain ⟨rfl, hrespond, -⟩ := stepOf_ok hmade
    rw [hrespond] at he
    rw [(SessionRegistry.mem_view_revokeOthers he).2 husername]
    rcases hgrounds with hown | ⟨name, clientIp, userAgent, hunregistered, -⟩
    · exact hown
    · exact absurd hunregistered (hvouched.not_unregistered hk)
  · obtain ⟨rfl, hrespond, -⟩ := stepOf_ok hmade
    rw [hrespond] at haccount
    simp only [App.serve, AList.lookup_erase, Option.isSome_none, Bool.false_eq_true] at haccount

theorem mem_entries_of_view {d : SessionRegistry.Sessions} {e : SessionRegistry.Entry}
    (h : e ∈ SessionRegistry.view d) : ∃ entry ∈ d.entries, entry.2.username = e.username := by
  obtain ⟨entry, hentry, rfl⟩ := List.mem_map.mp h
  exact ⟨entry, hentry, rfl⟩

theorem cutOff_move (hw : w.Sound (server cfg) (duty cfg) R accountsLast)
    (hvouched : Vouched cfg w) (hledger : Ledger w) (h : CutOff w)
    (hmove : Move (server cfg) (duty cfg) R accountsLast Uninterrupted w w') : CutOff w' := by
  intro change hchange username n hn sid hopen
  cases hmove with
  | stay => exact h change hchange username n hn sid hopen
  | result k past result =>
    change Open (deliver result w.state) sid username at hopen
    rw [deliver_eq] at hopen
    exact h change hchange username n hn sid ⟨hopen.named, hopen.account, hopen.registered⟩
  | call k past c choice hk hgrounds huninterrupted _ =>
    rcases List.mem_append.mp hchange with hbefore | hnow
    · rcases hopen.before with hstill | ⟨clientIp, userAgent, rfl, rfl⟩ |
        ⟨role, rfl, hnew, e, he, rfl⟩
      · rcases h change hbefore username n hn sid hstill with hown | hopened
        · exact .inl hown
        · exact .inr (hopened.later rfl)
      · refine .inr ⟨w.trace, _, [], rfl, ⟨clientIp, userAgent, rfl⟩, rfl, fun e he => ?_⟩
        exact newer_of_uninterrupted hw hvouched hledger hk hgrounds huninterrupted hbefore hn he
      · simp only [Uninterrupted, uninterrupted, hnew, Bool.false_or, Bool.and_eq_true,
          List.all_eq_true] at huninterrupted
        obtain ⟨entry, hentry, husername⟩ := mem_entries_of_view he
        exact absurd husername (by simpa using huninterrupted.2 entry hentry)
    · obtain rfl := List.mem_singleton.mp hnow
      exact .inl (open_after_cut hvouched (hk.weaken accountsLast_issued) hgrounds hn hopen)

/-- Of requests of every kind in any number and in any order, with every session that was issued
sent again at will, when nothing happens to an account between the password step of a login and the
registration of a session that rests on it, or while a request is about to enter it, and an account
is entered anew with no session left of its name: once a change of a password, a reset or a deletion
is complete, the sessions open for its user are the one that made it and those opened with a
password since. -/
theorem cut_off (cfg : Config) (start : App) (hstart : start.issued = [])
    (hremovals : ∀ username, start.removals username = []) (events : List AppEvent)
    (h : Runs.Along (server cfg).step (Meets (fun _ => True) Uninterrupted) (Pool.start start)
      events) :
    CutOff (Runs.run (server cfg).step (Pool.start start) events).world := by
  have hvouched : Vouched cfg ⟨start, []⟩ := by
    refine ⟨?_, ?_, ?_⟩ <;> simp [hstart]
  have hledger : Ledger ⟨start, []⟩ := by
    refine ⟨⟨?_, ?_⟩, ?_, ?_, ?_⟩ <;> simp [hremovals]
  refine (run_invariant (server_does cfg) accounts_grow
    (fun w => Vouched cfg w ∧ Ledger w ∧ CutOff w) ?_ ⟨hvouched, hledger, by simp [CutOff]⟩ h).2.2.2
  rintro w w' hw ⟨hvouched, hledger, hcut⟩ hmove
  refine ⟨?_, ledger_move hw hledger hmove, cutOff_move hw hvouched hledger hcut hmove⟩
  exact vouched_move (hw.weaken accountsLast_issued) hvouched (hmove.weaken accountsLast_issued)

/-! ### A login on its way -/

def twoAccounts : App where
  users := Dict.set (Dict.set ∅ "ada" viewer) "eve" owner
  passwords := Dict.set (Dict.set ∅ "ada" "hash of password") "eve" "hash of password"

/-- A login up to the registration of its session, which is left to come. -/
def loginUpTo (i : ℕ) (username : String) : List AppEvent :=
  [.arrive ⟨.login username "password", { csrf := some "token" }, "token", "", ""⟩,
    .proceed i { token := some 1 }] ++ List.replicate 5 (.proceed i {})

def registration (i : ℕ) (sid : String) : List AppEvent :=
  [.proceed i { text := sid }, .proceed i {}]

def eveSignedIn : List AppEvent :=
  [.arrive ⟨.loginForm, {}, "", "", ""⟩, .proceed 0 {}, .proceed 0 { text := "token" },
    .proceed 0 {}] ++ loginUpTo 1 "eve" ++ registration 1 "sid of eve" ++
    .arrive ⟨.accountPage, { user := some "eve", sid := some "sid of eve" }, "", "", ""⟩ ::
      List.replicate 5 (.proceed 2 { text := "token" })

def reset (i : ℕ) : List AppEvent :=
  .arrive ⟨.userResetPassword "ada" "new password", sessionFor "eve", "token", "", ""⟩ ::
    List.replicate 9 (.proceed i { text := "hash of new password" })

/-- Ada's login has checked her password when it is reset, and registers its session after. -/
def resetInBetween : List AppEvent :=
  eveSignedIn ++ loginUpTo 3 "ada" ++ reset 4 ++ registration 3 "sid of ada"

theorem late_registration :
    ¬∀ (cfg : Config) (start : App), start.issued = [] → ∀ events : List AppEvent,
      CutOff (Runs.run (server cfg).step (Pool.start start) events).world := by
  intro h
  have hchange : ∃ change ∈ (Runs.run (server sampleConfig).step (Pool.start twoAccounts)
      resetInBetween).world.trace, 1 ∈ cuts "ada" change ∧
        change.caller.request.session.sid ≠ some "sid of ada" := by
    decide +kernel
  have hopening : ∀ record ∈ (Runs.run (server sampleConfig).step (Pool.start twoAccounts)
      resetInBetween).world.trace, record.choice.text = "sid of ada" →
        record.caller.request.form = .login "ada" "password" ∧
          0 ∈ readEpochs "ada" record.past := by
    decide +kernel
  obtain ⟨change, hmem, hcut, hother⟩ := hchange
  rcases h sampleConfig twoAccounts rfl resetInBetween change hmem "ada" 1 hcut "sid of ada"
    ⟨by decide, by decide +kernel, by decide +kernel⟩ with
    hown | ⟨earlier, record, later, htrace, -, htext, hfrom⟩
  · exact hother hown
  · obtain ⟨hform, hread⟩ := hopening record (by simp [htrace]) htext
    exact absurd (hfrom 0 (by simpa [openingEpochs, hform] using hread)) (by decide)

/-- Ada is signed in when the password is reset. -/
theorem cut_off_sample :
    let w := (Runs.run (server sampleConfig).step (Pool.start twoAccounts)
      (eveSignedIn ++ loginUpTo 3 "ada" ++ registration 3 "sid of ada" ++ reset 4)).world
    w.trace.flatMap (cuts "ada") = [1] ∧ CutOff w :=
  ⟨by decide +kernel,
    cut_off sampleConfig twoAccounts rfl (fun _ => rfl) _ (by decide +kernel)⟩

end AuthRoutes
