import McAdmin.AuthRoutes
import McAdmin.LoginSecurity

/-!
# Every granted attempt of a login is settled

The password step and the second-factor step ask the limiter for an attempt and must give it
back, by `success`, `failure` or `cancel`, before they answer.  Both have calls in between that
nothing catches, and so has the verification of a code.  `attempts_settled_iff` says when an
attempt stays in flight, whatever the calls answer.
-/

namespace AuthRoutes

open Backtracking Calls McAdmin

/-! ### Grants and settlements -/

def granted : MadeCall → Option ℕ
  | ⟨.begin .., .ok (some attempt)⟩ => some attempt
  | _ => none

def settles (attempt : ℕ) : MadeCall → Bool
  | ⟨.success a, _⟩ | ⟨.failure a, _⟩ | ⟨.cancel a, _⟩ => a == attempt
  | _ => false

/-- Exactly one settlement follows each attempt that is granted. -/
def AllSettled : List MadeCall → Prop
  | [] => True
  | made :: rest =>
    (∀ attempt ∈ granted made, rest.countP (settles attempt) = 1) ∧ AllSettled rest

instance : ∀ calls, Decidable (AllSettled calls)
  | [] => isTrue trivial
  | made :: rest =>
    have : Decidable (AllSettled rest) := instDecidableAllSettled rest
    inferInstanceAs
      (Decidable ((∀ attempt ∈ granted made, rest.countP (settles attempt) = 1) ∧ AllSettled rest))

def unsettled : List MadeCall → List MadeCall
  | [] => []
  | made :: rest =>
    match granted made with
    | some attempt => rest.takeWhile fun made => !settles attempt made
    | none => unsettled rest

/-- The call raises and nothing catches it: `login` catches an `Exception` that stops the check
of the password, and that is all. -/
def escapes : MadeCall → Bool
  | ⟨.passwordGet _, .error .baseException⟩ | ⟨.usersGet _, .error .baseException⟩
  | ⟨.verify .., .error .baseException⟩ => true
  | ⟨.totpIsEnabled _, .error _⟩ | ⟨.totpSecret _, .error _⟩ | ⟨.time, .error _⟩ => true
  | _ => false

/-- No call made meanwhile escapes, nor does the verification of the code. -/
structure Undisturbed (lib : Totp.Library) (code : Text) (meanwhile : List MadeCall) : Prop where
  calls : ∀ made ∈ meanwhile, escapes made = false
  verification : ∀ username secret moment, ⟨.totpSecret username, .ok secret⟩ ∈ meanwhile →
    ⟨.time, .ok moment⟩ ∈ meanwhile →
      ∃ valid, Totp.verify lib (secret.getD []) code moment = .ok valid

theorem undisturbed_nil {lib : Totp.Library} {code : Text} : Undisturbed lib code [] :=
  ⟨by simp, by simp⟩

def Settles (lib : Totp.Library) (code : Text) (calls : List MadeCall) : Prop :=
  AllSettled calls ↔ Undisturbed lib code (unsettled calls)

variable {cfg : Config} {lib : Totp.Library} {r : Request} {username password : String}
  {code : Text} {past done rest : List MadeCall} {attempt : ℕ}

/-! ### The check of the password -/

/-- The calls that `login` makes within its `try`. -/
def Call.checks : Call → Bool
  | .passwordGet _ | .usersGet _ | .verify .. => true
  | _ => false

def Checks (done : List MadeCall) : Prop :=
  ∀ made ∈ done, made.call.checks = true ∧ made.answer.isOk = true

def Checked {α : Type} (past calls : List MadeCall) : Except Raised α → Prop
  | .ok _ => ∃ done, calls = past ++ done ∧ Checks done
  | .error e => ∃ done c f, calls = past ++ done ++ [⟨c, .error f⟩] ∧ Checks done ∧
      c.checks = true ∧ e = .fault f

def Checking {α : Type} (p : Program α) : Prop :=
  ∀ past, Obeys (fun _ _ => True) (Checked past) past p

theorem Checking.pure {α : Type} (a : α) : Checking (pure a : Program α) :=
  fun past => ⟨[], (List.append_nil past).symm, by simp [Checks]⟩

theorem Checking.call {c : Call} (h : c.checks = true) : Checking (call c) := by
  intro past
  refine obeys_call.mpr ⟨trivial, fun a => ?_, fun f => ?_⟩
  · exact ⟨[⟨c, .ok a⟩], rfl, by simp [Checks, h, Except.isOk, Except.toBool]⟩
  · exact ⟨[], c, f, by simp, by simp [Checks], h, rfl⟩

theorem Checking.bind {α β : Type} {p : Program α} {f : α → Program β} (hp : Checking p)
    (hf : ∀ a, Checking (f a)) : Checking (p >>= f) := by
  intro past
  refine obeys_bind.mpr ((hp past).mono (fun _ _ h => h) fun calls result h => ?_)
  cases result with
  | error e => exact h
  | ok a =>
    obtain ⟨done, rfl, hdone⟩ := h
    refine (hf a _).mono (fun _ _ h => h) fun calls result h => ?_
    cases result with
    | ok b =>
      obtain ⟨done', rfl, hdone'⟩ := h
      exact ⟨done ++ done', List.append_assoc .., List.forall_mem_append.mpr ⟨hdone, hdone'⟩⟩
    | error e =>
      obtain ⟨done', c, fault, rfl, hdone', hc, he⟩ := h
      exact ⟨done ++ done', c, fault, by simp, List.forall_mem_append.mpr ⟨hdone, hdone'⟩, hc, he⟩

theorem checking_authenticate (stored : Option Hash) :
    Checking (authenticate cfg stored username password) := by
  refine .bind (.call rfl) fun role => ?_
  have hrefused : Checking (do
      let _ ← call (.verify cfg.loginDummyHash password)
      return none : Program (Option User)) := .bind (.call rfl) fun _ => .pure none
  cases stored with
  | none => exact hrefused
  | some hash =>
    cases role with
    | none => exact hrefused
    | some role =>
      refine .bind (.call rfl) fun verified => ?_
      cases verified with
      | false => exact .pure _
      | true => exact .pure _

theorem loginAttempt_settles : Obeys (fun _ _ => True)
    (fun calls result =>
      match result with
      | .ok _ => ∃ done, calls = past ++ done ∧ Checks done
      | .error _ => ∃ done c f, Checks done ∧ c.checks = true ∧
          if f = .baseException then calls = past ++ done ++ [⟨c, .error f⟩]
          else ∃ answer, calls = past ++ done ++ [⟨c, .error f⟩, ⟨.cancel attempt, answer⟩])
    past (loginAttempt cfg attempt username password) := by
  have hcheck : Checking (do
      let stored ← call (.passwordGet username)
      authenticate cfg stored username password) :=
    .bind (.call rfl) fun stored => checking_authenticate stored
  refine obeys_tryCatch.mpr ((hcheck past).mono (fun _ _ h => h) fun calls result h => ?_)
  cases result with
  | ok user => exact h
  | error e =>
    obtain ⟨done, c, f, rfl, hdone, hc, rfl⟩ := h
    by_cases hf : f = .baseException
    · subst hf
      exact ⟨done, c, .baseException, hdone, hc, by simp⟩
    · have hexception : (Raised.fault f).isException = true := by
        cases f <;> first | rfl | exact absurd rfl hf
      simp only [hexception, if_true]
      refine obeys_call_bind.mpr ⟨trivial, fun _ => ?_, fun _ => ?_⟩
      · exact ⟨done, c, f, hdone, hc, by simp [hf]⟩
      · exact ⟨done, c, f, hdone, hc, by simp [hf]⟩

/-! ### From a grant to its settlement -/

def Quiet (attempt : ℕ) (calls : List MadeCall) : Prop :=
  ∀ made ∈ calls, settles attempt made = false ∧ granted made = none

theorem allSettled_append (h : ∀ made ∈ done, granted made = none) :
    AllSettled (done ++ rest) ↔ AllSettled rest := by
  induction done with
  | nil => exact Iff.rfl
  | cons made done ih =>
    rw [List.forall_mem_cons] at h
    simp [AllSettled, h.1, ih h.2]

theorem unsettled_append (h : ∀ made ∈ done, granted made = none) :
    unsettled (done ++ rest) = unsettled rest := by
  induction done with
  | nil => rfl
  | cons made done ih =>
    rw [List.forall_mem_cons] at h
    simp [unsettled, h.1, ih h.2]

theorem Quiet.allSettled (h : Quiet attempt done) : AllSettled done := by
  have hnone : AllSettled (done ++ []) :=
    (allSettled_append fun made hmade => (h made hmade).2).mpr trivial
  rwa [List.append_nil] at hnone

theorem Quiet.countP (h : Quiet attempt done) : done.countP (settles attempt) = 0 :=
  List.countP_eq_zero.mpr fun made hmade => by simp [(h made hmade).1]

variable {clientIp : String}

theorem settles_settlement (before meanwhile rest : List MadeCall) {made : MadeCall}
    (hbefore : ∀ made ∈ before, granted made = none) (hmeanwhile : Quiet attempt meanwhile)
    (hrest : Quiet attempt rest) (hmade : settles attempt made = true)
    (hgrant : granted made = none) (h : Undisturbed lib code meanwhile) :
    Settles lib code (before ++
      ⟨.begin clientIp username, .ok (some attempt)⟩ :: (meanwhile ++ made :: rest)) := by
  rw [Settles, allSettled_append hbefore, unsettled_append hbefore]
  refine iff_of_true ⟨fun attempt' hattempt => ?_, ?_⟩ ?_
  · obtain rfl := Option.some.inj hattempt
    rw [List.countP_append, List.countP_cons, hmeanwhile.countP, hrest.countP, if_pos hmade]
  · refine (allSettled_append fun made hmem => (hmeanwhile made hmem).2).mpr ⟨?_, hrest.allSettled⟩
    simp [hgrant]
  · have htake : (meanwhile ++ made :: rest).takeWhile (fun made => !settles attempt made) =
        meanwhile := by
      rw [List.takeWhile_append_of_pos fun made hmem => by simp [(hmeanwhile made hmem).1],
        List.takeWhile_cons_of_neg (by simp [hmade]), List.append_nil]
    simp only [unsettled, granted, htake]
    exact h

theorem settles_interruption (before meanwhile : List MadeCall)
    (hbefore : ∀ made ∈ before, granted made = none) (hmeanwhile : Quiet attempt meanwhile)
    (h : ¬Undisturbed lib code meanwhile) :
    Settles lib code (before ++
      ⟨.begin clientIp username, .ok (some attempt)⟩ :: meanwhile) := by
  rw [Settles, allSettled_append hbefore, unsettled_append hbefore]
  refine iff_of_false (fun hsettled => ?_) ?_
  · have hone := hsettled.1 attempt rfl
    rw [hmeanwhile.countP] at hone
    exact absurd hone (by decide)
  · have htake : meanwhile.takeWhile (fun made => !settles attempt made) = meanwhile :=
      List.takeWhile_eq_self_iff.mpr fun made hmem => by simp [(hmeanwhile made hmem).1]
    simp only [unsettled, granted, htake]
    exact h

theorem settles_ungranted (h : ∀ made ∈ done, granted made = none) : Settles lib code done := by
  rw [Settles, ← List.append_nil done, allSettled_append h, unsettled_append h]
  exact iff_of_true trivial undisturbed_nil

def Calm {α : Type} (attempt : ℕ) (p : Program α) : Prop :=
  ∀ past, Obeys (fun _ _ => True)
    (fun calls _ => ∃ rest, calls = past ++ rest ∧ Quiet attempt rest) past p

theorem Calm.pure {α : Type} (a : α) : Calm attempt (pure a : Program α) :=
  fun past => ⟨[], (List.append_nil past).symm, by simp [Quiet]⟩

theorem Calm.call_bind {α : Type} {c : Call} {f : Answer c → Program α}
    (hc : ∀ answer, settles attempt ⟨c, answer⟩ = false ∧ granted ⟨c, answer⟩ = none)
    (hf : ∀ a, Calm attempt (f a)) : Calm attempt (call c >>= f) := by
  intro past
  refine obeys_call_bind.mpr ⟨trivial, fun a => ?_, fun f => ?_⟩
  · refine (hf a _).mono (fun _ _ h => h) ?_
    rintro calls result ⟨rest, rfl, hrest⟩
    exact ⟨⟨c, .ok a⟩ :: rest, by simp, List.forall_mem_cons.mpr ⟨hc (.ok a), hrest⟩⟩
  · exact ⟨[⟨c, .error f⟩], rfl, by simpa [Quiet] using hc (.error f)⟩

theorem calm_completeLogin : Calm attempt (completeLogin r username) := by
  intro past
  rw [completeLogin, registerSession, obeys_bind]
  refine obeys_call_bind.mpr ⟨trivial, fun sid => ?_, fun _ => ?_⟩ <;>
  exact ⟨[_], rfl, by simp [Quiet, settles, granted]⟩

theorem obeys_settlement (before meanwhile : List MadeCall) {c : Call}
    {f : Answer c → Program Reply} (hbefore : ∀ made ∈ before, granted made = none)
    (hmeanwhile : Quiet attempt meanwhile) (h : Undisturbed lib code meanwhile)
    (hc : ∀ answer, settles attempt ⟨c, answer⟩ = true ∧ granted ⟨c, answer⟩ = none)
    (hf : ∀ a, Calm attempt (f a)) :
    Obeys (fun _ _ => True) (fun calls _ => Settles lib code calls)
      (before ++ ⟨.begin clientIp username, .ok (some attempt)⟩ :: meanwhile)
      (call c >>= f) := by
  have hsettles : ∀ answer rest, Quiet attempt rest → Settles lib code
      (before ++ ⟨.begin clientIp username, .ok (some attempt)⟩ ::
        (meanwhile ++ ⟨c, answer⟩ :: rest)) := fun answer rest hrest =>
    settles_settlement before meanwhile rest hbefore hmeanwhile hrest (hc answer).1 (hc answer).2 h
  refine obeys_call_bind.mpr ⟨trivial, fun a => (hf a _).mono (fun _ _ h => h) ?_, fun f => ?_⟩
  · rintro calls result ⟨rest, rfl, hrest⟩
    simpa using hsettles (.ok a) rest hrest
  · simpa using hsettles (.error f) [] (by simp [Quiet])

/-! ### The password step -/

theorem Checks.quiet (h : Checks done) : Quiet attempt done := by
  intro made hmade
  obtain ⟨hchecks, -⟩ := h made hmade
  obtain ⟨c, answer⟩ := made
  cases c <;> first | exact ⟨rfl, rfl⟩ | exact absurd hchecks (by simp [Call.checks])

theorem Checks.undisturbed (h : Checks done) : Undisturbed lib code done where
  calls made hmade := by
    obtain ⟨hchecks, hok⟩ := h made hmade
    obtain ⟨c, answer⟩ := made
    cases answer with
    | error f => exact absurd hok (by simp [Except.isOk, Except.toBool])
    | ok a => cases c <;> rfl
  verification username secret _ hsecret := absurd (h _ hsecret).1 (by simp [Call.checks])

theorem undisturbed_snoc (hdone : Checks done) {c : Call} {answer : Except Fault (Answer c)}
    (hc : ∀ username, c ≠ .totpSecret username) :
    Undisturbed lib code (done ++ [⟨c, answer⟩]) ↔ escapes ⟨c, answer⟩ = false := by
  constructor
  · exact fun h => h.calls _ (List.mem_append_right _ (List.mem_singleton_self _))
  · intro hescapes
    refine ⟨fun made hmade => ?_, fun username secret moment hsecret htime => ?_⟩
    · rcases List.mem_append.mp hmade with hmade | hmade
      · have hundisturbed : Undisturbed lib code done := hdone.undisturbed
        exact hundisturbed.calls made hmade
      · rw [List.mem_singleton.mp hmade, hescapes]
    · rcases List.mem_append.mp hsecret with hsecret | hsecret
      · exact absurd (hdone _ hsecret).1 (by simp [Call.checks])
      · exact absurd (congrArg Made.call (List.mem_singleton.mp hsecret)).symm (hc username)

theorem settles_stopped {c : Call} {f : Fault} {calls : List MadeCall} (hdone : Checks done)
    (hc : c.checks = true)
    (hcalls : if f = .baseException then
        calls = [⟨.begin clientIp username, .ok (some attempt)⟩] ++ done ++ [⟨c, .error f⟩]
      else ∃ answer, calls = [⟨.begin clientIp username, .ok (some attempt)⟩] ++ done ++
        [⟨c, .error f⟩, ⟨.cancel attempt, answer⟩]) : Settles lib code calls := by
  have hsecret : ∀ username, c ≠ .totpSecret username := by
    rintro username rfl
    simp [Call.checks] at hc
  have hquiet : Quiet attempt (done ++ [⟨c, .error f⟩]) := by
    refine List.forall_mem_append.mpr ⟨hdone.quiet, ?_⟩
    cases c <;> simp_all [Call.checks, settles, granted]
  by_cases hf : f = .baseException
  · subst hf
    rw [if_pos rfl] at hcalls
    subst hcalls
    refine settles_interruption [] (done ++ [⟨c, .error .baseException⟩]) (by simp) hquiet ?_
    rw [undisturbed_snoc hdone hsecret]
    cases c <;> simp_all [Call.checks, escapes]
  · rw [if_neg hf] at hcalls
    obtain ⟨answer, rfl⟩ := hcalls
    have hundisturbed : Undisturbed lib code (done ++ [⟨c, .error f⟩]) := by
      rw [undisturbed_snoc hdone hsecret]
      cases c <;> simp_all [Call.checks, escapes]
    have hsettles : Settles lib code ([] ++ ⟨.begin clientIp username, .ok (some attempt)⟩ ::
        ((done ++ [⟨c, .error f⟩]) ++ ⟨.cancel attempt, answer⟩ :: [])) :=
      settles_settlement [] _ [] (by simp) hquiet (by simp [Quiet]) (by simp [settles]) rfl
        hundisturbed
    simpa using hsettles

theorem login_settles : Obeys (fun _ _ => True) (fun calls _ => Settles lib code calls) []
    (login cfg r username password) := by
  rw [login, obeys_bind]
  rcases requireCsrf_cases r.session r.csrfToken with hcsrf | ⟨e, hcsrf, -⟩
  · rw [hcsrf, obeys_pure]
    refine obeys_call_bind.mpr ⟨trivial, fun attempt => ?_, fun e => ?_⟩
    · cases attempt with
      | none => exact settles_ungranted (by simp [granted])
      | some attempt =>
        refine obeys_bind.mpr (loginAttempt_settles.mono (fun _ _ h => h) fun calls result h => ?_)
        cases result with
        | error e =>
          obtain ⟨done, c, f, hdone, hc, hcalls⟩ := h
          exact settles_stopped hdone hc hcalls
        | ok user =>
          obtain ⟨done, rfl, hdone⟩ := h
          rw [List.nil_append]
          cases user with
          | none =>
            exact obeys_settlement [] done (by simp) hdone.quiet hdone.undisturbed
              (by simp [settles, granted]) fun _ => .pure _
          | some user =>
            have hquiet : ∀ answer,
                Quiet attempt (done ++ [⟨.totpIsEnabled user.username, answer⟩]) := fun answer =>
              List.forall_mem_append.mpr ⟨hdone.quiet, by simp [settles, granted]⟩
            refine obeys_call_bind.mpr ⟨trivial, fun enabled => ?_, fun f => ?_⟩
            · have hundisturbed : Undisturbed lib code
                  (done ++ [⟨.totpIsEnabled user.username, .ok enabled⟩]) :=
                (undisturbed_snoc hdone (by simp)).mpr rfl
              cases enabled with
              | true =>
                exact obeys_settlement [] _ (by simp) (hquiet (.ok true)) hundisturbed
                  (by simp [settles, granted])
                  fun _ => .call_bind (by simp [settles, granted]) fun _ => .pure _
              | false =>
                exact obeys_settlement [] _ (by simp) (hquiet (.ok false)) hundisturbed
                  (by simp [settles, granted]) fun _ => calm_completeLogin
            · refine settles_interruption [] _ (by simp) (hquiet (.error f)) ?_
              simp [undisturbed_snoc hdone, escapes]
    · exact settles_ungranted (by simp [granted])
  · simpa [hcsrf] using settles_ungranted (by simp)

/-! ### The second-factor step -/

theorem verifyAttempt_settles {attempt : ℕ} {now : ℚ} :
    Obeys (fun _ _ => True) (fun calls _ => Settles cfg.lib code calls)
      [⟨.time, .ok now⟩, ⟨.begin clientIp username, .ok (some attempt)⟩]
      (verifyAttempt cfg r attempt username code) := by
  have hbefore : ∀ made ∈ [(⟨.time, .ok now⟩ : MadeCall)], granted made = none := by
    simp [granted]
  refine obeys_call_bind.mpr ⟨trivial, fun secret => ?_, fun f => ?_⟩
  · rcases verifyCode_cases cfg (secret.getD []) code with ⟨hverify, -⟩ | hverify
    · rw [hverify, obeys_bind, obeys_pure]
      have hundisturbed : Undisturbed cfg.lib code [⟨.totpSecret username, .ok secret⟩] :=
        ⟨by simp [escapes], by simp⟩
      exact obeys_settlement [_] [_] hbefore (by simp [Quiet, settles, granted]) hundisturbed
        (by simp [settles, granted]) fun _ => .pure _
    · rw [hverify, obeys_bind, obeys_bind]
      refine obeys_call.mpr ⟨trivial, fun moment => ?_, fun f => ?_⟩
      · dsimp only
        cases hvalid : Totp.verify cfg.lib (secret.getD []) code moment with
        | error e =>
          -- the code is no code at all: `verify` raises past the settlement
          have hcut : ¬Undisturbed cfg.lib code
              [⟨.totpSecret username, .ok secret⟩, ⟨.time, .ok moment⟩] := by
            intro h
            obtain ⟨valid, hok⟩ := h.verification username secret moment (by simp) (by simp)
            rw [hvalid] at hok
            exact absurd hok (by simp)
          exact settles_interruption [_] [_, _] hbefore (by simp [Quiet, settles, granted]) hcut
        | ok valid =>
          have hundisturbed : Undisturbed cfg.lib code
              [⟨.totpSecret username, .ok secret⟩, ⟨.time, .ok moment⟩] := by
            refine ⟨by simp [escapes], fun username' secret' moment' hs ht => ?_⟩
            obtain ⟨rfl, rfl⟩ : username' = username ∧ secret' = secret := by simpa using hs
            obtain rfl : moment' = moment := by simpa using ht
            exact ⟨valid, hvalid⟩
          have hquiet : Quiet attempt
              [⟨.totpSecret username, .ok secret⟩, ⟨.time, .ok moment⟩] := by
            simp [Quiet, settles, granted]
          rw [obeys_pure]
          cases valid with
          | true =>
            exact obeys_settlement [_] [_, _] hbefore hquiet hundisturbed
              (by simp [settles, granted]) fun _ => calm_completeLogin
          | false =>
            exact obeys_settlement [_] [_, _] hbefore hquiet hundisturbed
              (by simp [settles, granted]) fun _ => .pure _
      · exact settles_interruption [_] [_, ⟨.time, .error f⟩] hbefore
          (by simp [Quiet, settles, granted])
          fun h => absurd (h.calls ⟨.time, .error f⟩ (by simp)) (by simp [escapes])
  · exact settles_interruption [_] [⟨.totpSecret username, .error f⟩] hbefore
      (by simp [Quiet, settles, granted])
      fun h => absurd (h.calls _ (List.mem_singleton_self _)) (by simp [escapes])

theorem loginVerify_settles : Obeys (fun _ _ => True)
    (fun calls _ => Settles cfg.lib code calls) [] (loginVerify cfg r code) := by
  rw [loginVerify, obeys_bind]
  rcases requireCsrf_cases r.session r.csrfToken with hcsrf | ⟨e, hcsrf, -⟩
  · rw [hcsrf, obeys_pure]
    cases r.session.pendingTwofa with
    | none => exact settles_ungranted (by simp)
    | some pending =>
      refine obeys_call_bind.mpr ⟨trivial, fun now => ?_, fun e => ?_⟩
      · refine obeys_ite.mpr ⟨fun _ => ?_, fun _ => ?_⟩
        · exact settles_ungranted (by simp [granted])
        · refine obeys_call_bind.mpr ⟨trivial, fun attempt => ?_, fun e => ?_⟩
          · cases attempt with
            | none => exact settles_ungranted (by simp [granted])
            | some attempt => exact verifyAttempt_settles
          · exact settles_ungranted (by simp [granted])
      · exact settles_ungranted (by simp [granted])
  · simpa [hcsrf] using settles_ungranted (by simp)

/-! ### The limiter's side -/

def limiterStep (c : LoginAttemptLimiter.Settings) (now : ℚ) (s : LoginAttemptLimiter.Limiter) :
    Call → Option LoginAttemptLimiter.Limiter
  | .success attempt => LoginAttemptLimiter.step c s (.success attempt now)
  | .failure attempt => LoginAttemptLimiter.step c s (.failure attempt now)
  | .cancel attempt => LoginAttemptLimiter.step c s (.cancel attempt now)
  | _ => some s

theorem lookup_endLease {now : ℚ} {s s' : LoginAttemptLimiter.Limiter}
    (h : LoginAttemptLimiter.endLease now s attempt = some s') :
    s'.leases.lookup attempt = none := by
  simp only [LoginAttemptLimiter.endLease, LoginAttemptLimiter.releaseLease,
    Option.bind_eq_bind, Option.bind_eq_some_iff, Option.pure_def, Option.some.injEq] at h
  obtain ⟨lease, -, _, -, _, -, rfl⟩ := h
  simp

theorem lookup_step {c : LoginAttemptLimiter.Settings} {now : ℚ}
    {s s' : LoginAttemptLimiter.Limiter} {call : LoginAttemptLimiter.Call}
    (hcall : call = .success attempt now ∨ call = .failure attempt now ∨
      call = .cancel attempt now)
    (h : LoginAttemptLimiter.step c s call = some s') : s'.leases.lookup attempt = none := by
  cases hlease : s.leases.lookup attempt with
  | none =>
    obtain rfl : s = s' := by
      rcases hcall with rfl | rfl | rfl <;>
      simpa [LoginAttemptLimiter.step, LoginAttemptLimiter.success, LoginAttemptLimiter.failure,
        LoginAttemptLimiter.cancel, hlease] using h
    exact hlease
  | some lease =>
    have hended : ∃ s₁, LoginAttemptLimiter.endLease now s attempt = some s₁ ∧
        s'.leases = s₁.leases := by
      rcases hcall with rfl | rfl | rfl <;>
      · simp only [LoginAttemptLimiter.step, LoginAttemptLimiter.success,
          LoginAttemptLimiter.failure, LoginAttemptLimiter.cancel, hlease, Option.bind_eq_bind,
          Option.bind_eq_some_iff, Option.pure_def, Option.some.injEq] at h
        obtain ⟨s₁, hs₁, rfl⟩ := h
        exact ⟨s₁, hs₁, rfl⟩
    obtain ⟨s₁, hs₁, hleases⟩ := hended
    rw [hleases]
    exact lookup_endLease hs₁

theorem limiterStep_releases {c : LoginAttemptLimiter.Settings} {now : ℚ}
    {s s' : LoginAttemptLimiter.Limiter} {made : MadeCall} (hmade : settles attempt made = true)
    (h : limiterStep c now s made.call = some s') : s'.leases.lookup attempt = none := by
  obtain ⟨call, answer⟩ := made
  cases call with
  | success a =>
    obtain rfl : a = attempt := by simpa [settles] using hmade
    exact lookup_step (.inl rfl) h
  | failure a =>
    obtain rfl : a = attempt := by simpa [settles] using hmade
    exact lookup_step (.inr (.inl rfl)) h
  | cancel a =>
    obtain rfl : a = attempt := by simpa [settles] using hmade
    exact lookup_step (c := c) (.inr (.inr rfl)) h
  | _ => simp [settles] at hmade

/-! ### Both steps -/

/-- Whatever the calls of the password step and of the second-factor step answer, each attempt
granted is followed by exactly one settlement if and only if nothing escapes meanwhile; and a
settlement leaves nothing in flight. -/
theorem attempts_settled_iff (cfg : Config) (r : Request) (username password : String)
    (code : Text) (answers : List MadeCall → (c : Call) → Except Fault (Answer c)) :
    let first := (exec answers [] (login cfg r username password)).1
    let second := (exec answers [] (loginVerify cfg r code)).1
    (AllSettled first ↔ Undisturbed cfg.lib code (unsettled first)) ∧
      (AllSettled second ↔ Undisturbed cfg.lib code (unsettled second)) ∧
      ∀ made attempt, settles attempt made = true → ∀ c now s,
        ∀ s' ∈ limiterStep c now s made.call, s'.leases.lookup attempt = none :=
  ⟨exec_of_obeys login_settles answers, exec_of_obeys loginVerify_settles answers,
    fun _ _ hmade _ _ _ _ hstep => limiterStep_releases hmade hstep⟩

def sampleAnswers (_ : List MadeCall) : (c : Call) → Except Fault (Answer c)
  | .time => .ok (59 : ℚ)
  | .begin .. => .ok (some 1)
  | .totpSecret _ => .ok (some (List.replicate 32 'A'))
  | .register .. => .ok "sid"
  | _ => .error .exception

def sampleVerify : Request where
  form := .loginVerify "".toList
  session := { pendingTwofa := some ⟨"ada", 300⟩, csrf := some "token" }
  csrfToken := "token"

/-- Six digits that are not of ASCII leave the attempt in flight. -/
theorem attempt_stays_in_flight :
    ¬∀ (cfg : Config) (r : Request) (code : Text)
      (answers : List MadeCall → (c : Call) → Except Fault (Answer c)),
      AllSettled (exec answers [] (loginVerify cfg r code)).1 := fun h =>
  absurd (h sampleConfig sampleVerify "١٢٣٤٥٦".toList sampleAnswers) (by decide +kernel)

end AuthRoutes
