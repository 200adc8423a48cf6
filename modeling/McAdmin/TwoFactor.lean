import McAdmin.AuthSteps

/-!
# The second factor and the secret that was proved

A start request looks whether a second factor is active and stores a new secret some calls later;
a cancel request looks and removes; an enable request verifies a code and confirms whatever secret
is stored by then.  Nothing holds the look and the write together: `factor_run` is what is true of
the runs in which no other request wrote the secret in between, and `other_secret_confirmed` a run
of two tabs in which one did.
-/

namespace AuthRoutes

open Backtracking Calls McAdmin

/-! ### The runs -/

def IsTwofa (r : Request) : Prop :=
  match r.form with
  | .securityStart | .securityEnable _ | .securityCancel | .securityDisable _
  | .userResetTwofa _ => True
  | _ => False

instance (r : Request) : Decidable (IsTwofa r) :=
  decidable_of_iff
    ((match r.form with
      | .securityStart | .securityEnable _ | .securityCancel | .securityDisable _
      | .userResetTwofa _ => true
      | _ => false) = true)
    (by unfold IsTwofa; split <;> simp)

def looks (past : List AppStep) (c : Call) : List AppStep :=
  past.filter fun step => step.call = c

/-- The request could read the file, and no secret of the user was stored, confirmed or removed
since. -/
def unwritten (s : App) (username : String) (look : AppStep) : Bool :=
  !look.choice.unreadable && look.before.secretWrites username == s.secretWrites username

/-- Nothing comes between what a request looked at and its write. -/
def untouched (s : App) (form : Form) (past : List AppStep) : Call → Bool
  | .totpSetPending username _ =>
    (looks past (.totpIsEnabled username)).all (unwritten s username)
  | .totpRemove username =>
    form != .securityCancel || (looks past (.totpIsEnabled username)).all (unwritten s username)
  | .totpConfirm username => (looks past (.totpSecret username)).all (unwritten s username)
  | _ => true

abbrev Untouched (w : AppWorld) (k : Caller App Request) (past : List AppStep) (c : Call) : Prop :=
  untouched w.state k.request.form past c = true

/-- A confirmation, by a request with a valid code for the secret. -/
def Activates (cfg : Config) (username : String) (secret : Text)
    (record : AppRecord) : Prop :=
  record.call = .totpConfirm username ∧ ∃ code,
    record.caller.request.form = .securityEnable code ∧
      CodePassed cfg (made record.past) username code secret

def Deactivates (username : String) (record : AppRecord) : Prop :=
  record.call = .totpRemove username ∧
    ((∃ password, record.caller.request.form = .securityDisable password) ∨
      record.caller.request.form = .userResetTwofa username)

/-- Nobody loses an active secret but by the step that ends it. -/
def ActiveKept (w w' : AppWorld) : Prop :=
  ∀ username secret, w.state.active username = some secret →
    w'.state.active username = some secret ∨
      ∃ record, w'.trace = w.trace ++ [record] ∧ Deactivates username record

def secretsStay : Growth App where
  le s s' := ∀ username, s.secretWrites username ≤ s'.secretWrites username ∧
    (s.secretWrites username = s'.secretWrites username →
      s'.totp.lookup username = s.totp.lookup username)
  refl _ _ := ⟨le_rfl, fun _ => rfl⟩
  trans := by
    intro s s' s'' h h' username
    refine ⟨(h username).1.trans (h' username).1, fun heq => ?_⟩
    have hmid : s.secretWrites username = s'.secretWrites username :=
      le_antisymm (h username).1 (heq ▸ (h' username).1)
    rw [(h' username).2 (hmid ▸ heq), (h username).2 hmid]

variable {cfg : Config} {w w' : AppWorld}

/-! ### The secrets after a call -/

section

variable {username name : String} {secret : Text}

theorem lookup_confirm_of_ne {totp : Dict String TotpEntry} (h : username ≠ name) :
    (confirm totp username).lookup name = totp.lookup name := by
  unfold confirm
  cases totp.lookup username with
  | none => rfl
  | some entry =>
    dsimp only
    split
    · rfl
    · rw [Dict.lookup_set, if_neg (Ne.symm h)]

theorem lookup_confirm_self {totp : Dict String TotpEntry} (hsecret : secret ≠ []) :
    (confirm totp username).lookup username = some ⟨secret, true⟩ ↔
      ∃ confirmed, totp.lookup username = some ⟨secret, confirmed⟩ := by
  unfold confirm
  cases h : totp.lookup username with
  | none => simp [h]
  | some entry =>
    obtain ⟨stored, confirmed⟩ := entry
    dsimp only
    by_cases hstored : stored = []
    · subst hstored
      simp [h, Ne.symm hsecret]
    · rw [if_neg (by simpa using hstored), Dict.lookup_set, if_pos rfl]
      simp

end

/-! ### Each step -/

theorem secretsStay_update {s : App} {username : String} {totp : Dict String TotpEntry}
    (h : ∀ name, name ≠ username → totp.lookup name = s.totp.lookup name) :
    secretsStay.le s { s.wroteSecret username with totp := totp } := by
  intro name
  by_cases hname : name = username
  · subst hname
    simp [App.wroteSecret]
  · simp only [App.wroteSecret, Function.update_of_ne hname, le_refl, true_and]
    exact fun _ => h name hname

theorem secrets_grow {R : Request → Prop} :
    Grows (server cfg) (duty cfg) R secretsStay Untouched := by
  intro w w' hw hmove
  cases hmove with
  | stay => exact secretsStay.refl _
  | result k past result =>
    change secretsStay.le w.state (deliver result w.state)
    rw [deliver_eq]
    exact fun _ => ⟨le_rfl, fun _ => rfl⟩
  | call k past c choice =>
    change secretsStay.le w.state (respond cfg choice c w.state).2
    rcases @respond_state cfg choice c w.state with h | h
    · rw [h]
      exact secretsStay.refl _
    · rw [h]
      cases c with
      | totpSetPending username secret =>
        exact secretsStay_update fun name hname => by rw [Dict.lookup_set, if_neg hname]
      | totpConfirm username =>
        exact secretsStay_update fun name hname => lookup_confirm_of_ne hname.symm
      | totpRemove username =>
        exact secretsStay_update fun name hname => AList.lookup_erase_ne hname
      | _ => exact fun _ => ⟨le_rfl, fun _ => rfl⟩

theorem lookup_of_look (hw : w.Sound (server cfg) (duty cfg) IsTwofa secretsStay)
    {k : Caller App Request} {past : List AppStep}
    (hk : Credible (server cfg) IsTwofa secretsStay w k past) {username : String} {c : Call}
    {look : AppStep} (hlook : look ∈ past) (hcall : look.call = c)
    (hunwritten : (looks past c).all (unwritten w.state username) = true) :
    look.choice.unreadable = false ∧
      w.state.totp.lookup username = look.before.totp.lookup username := by
  have hsame := List.all_eq_true.mp hunwritten look
    (List.mem_filter.mpr ⟨hlook, decide_eq_true hcall⟩)
  simp only [unwritten, Bool.and_eq_true, Bool.not_eq_true', beq_iff_eq] at hsame
  obtain ⟨record, hrecord, hstep, -⟩ := hk.recorded look hlook
  have hbefore : record.before = look.before := congrArg Step.before hstep
  have hgrown := (hw.trace record hrecord).before username
  rw [hbefore] at hgrown
  exact ⟨hsame.1, hgrown.2 hsame.2⟩

theorem inactive_of_look (hw : w.Sound (server cfg) (duty cfg) IsTwofa secretsStay)
    {k : Caller App Request} {past : List AppStep}
    (hk : Credible (server cfg) IsTwofa secretsStay w k past) {username : String}
    (hlook : ⟨.totpIsEnabled username, .ok false⟩ ∈ made past)
    (hunwritten : (looks past (.totpIsEnabled username)).all (unwritten w.state username) = true) :
    w.state.active username = none := by
  obtain ⟨s, choice, hstep, -, hanswer⟩ := answered_ok hk hlook
  obtain ⟨hreadable, hlookup⟩ := lookup_of_look hw hk hstep rfl hunwritten
  by_contra hactive
  obtain ⟨secret, hsecret⟩ := Option.ne_none_iff_exists'.mp hactive
  obtain ⟨hstored, hne⟩ := App.active_eq_some.mp hsecret
  rw [hlookup] at hstored
  change choice.unreadable = false at hreadable
  change s.totp.lookup username = _ at hstored
  simp [App.serve, App.entry, hreadable, hstored, hne] at hanswer

theorem active_respond {c : Call} {choice : Choice} {s : App} {username : String} {secret : Text}
    (h : (respond cfg choice c s).2.active username = some secret) :
    s.active username = some secret ∨
      c = .totpConfirm username ∧ ∃ confirmed,
        s.totp.lookup username = some ⟨secret, confirmed⟩ := by
  obtain ⟨hlookup, hsecret⟩ := App.active_eq_some.mp h
  rcases @totp_respond cfg choice c s with htotp | ⟨name, pending, rfl, htotp⟩ |
    ⟨name, rfl, htotp⟩ | ⟨name, rfl, htotp⟩
  · rw [htotp] at hlookup
    exact .inl (App.active_eq_some.mpr ⟨hlookup, hsecret⟩)
  · rw [htotp, Dict.lookup_set] at hlookup
    by_cases hname : username = name
    · simp [hname] at hlookup
    · rw [if_neg hname] at hlookup
      exact .inl (App.active_eq_some.mpr ⟨hlookup, hsecret⟩)
  · rw [htotp] at hlookup
    by_cases hname : name = username
    · subst hname
      exact .inr ⟨rfl, (lookup_confirm_self hsecret).mp hlookup⟩
    · rw [lookup_confirm_of_ne hname] at hlookup
      exact .inl (App.active_eq_some.mpr ⟨hlookup, hsecret⟩)
  · rw [htotp] at hlookup
    by_cases hname : username = name
    · rw [hname, AList.lookup_erase] at hlookup
      exact absurd hlookup (by simp)
    · rw [AList.lookup_erase_ne hname] at hlookup
      exact .inl (App.active_eq_some.mpr ⟨hlookup, hsecret⟩)

theorem active_lost {c : Call} {choice : Choice} {s : App} {username : String} {secret : Text}
    (h : s.active username = some secret)
    (hlost : (respond cfg choice c s).2.active username ≠ some secret) :
    (∃ pending, c = .totpSetPending username pending) ∨ c = .totpRemove username := by
  obtain ⟨hlookup, hsecret⟩ := App.active_eq_some.mp h
  rw [Ne, App.active_eq_some, not_and, not_not] at hlost
  by_contra hother
  rw [not_or, not_exists] at hother
  refine hsecret (hlost ?_)
  rcases @totp_respond cfg choice c s with htotp | ⟨name, pending, rfl, htotp⟩ |
    ⟨name, rfl, htotp⟩ | ⟨name, rfl, htotp⟩
  · rw [htotp, hlookup]
  · have hname : username ≠ name := fun hname => hother.1 pending (hname ▸ rfl)
    rw [htotp, Dict.lookup_set, if_neg hname, hlookup]
  · rw [htotp]
    by_cases hname : name = username
    · subst hname
      exact (lookup_confirm_self hsecret).mpr ⟨true, hlookup⟩
    · rw [lookup_confirm_of_ne hname, hlookup]
  · have hname : username ≠ name := fun hname => hother.2 (hname ▸ rfl)
    rw [htotp, AList.lookup_erase_ne hname, hlookup]

/-- An active secret was active from the start or was proved. -/
def Proved (cfg : Config) (start : App) (w : AppWorld) : Prop :=
  ∀ username secret, w.state.active username = some secret →
    start.active username = some secret ∨ ∃ record ∈ w.trace, Activates cfg username secret record

theorem proved_move {start : App} (hw : w.Sound (server cfg) (duty cfg) IsTwofa secretsStay)
    (h : Proved cfg start w)
    (hmove : Move (server cfg) (duty cfg) IsTwofa secretsStay Untouched w w') :
    Proved cfg start w' := by
  intro username secret hactive
  have hkept : w.state.active username = some secret → start.active username = some secret ∨
      ∃ record ∈ w'.trace, Activates cfg username secret record := by
    intro hbefore
    rcases h username secret hbefore with hstart | ⟨record, hrecord, hactivates⟩
    · exact .inl hstart
    · exact .inr ⟨record, hmove.trace_subset hrecord, hactivates⟩
  cases hmove with
  | stay => exact hkept hactive
  | result k past result =>
    refine hkept ?_
    change (deliver result w.state).active username = some secret at hactive
    rwa [deliver_eq] at hactive
  | call k past c choice hk hgrounds huntouched _ =>
    rcases active_respond hactive with hbefore | ⟨rfl, confirmed, hstored⟩
    · exact hkept hbefore
    · obtain ⟨code, read, hform, now, hread, hpassed⟩ := hgrounds
      -- The secret that is confirmed is the one that was read.
      obtain ⟨s, choice', hlook, -, hanswer⟩ := answered_ok hk hread
      obtain ⟨hreadable, hlookup⟩ := lookup_of_look hw hk hlook rfl huntouched
      change choice'.unreadable = false at hreadable
      change _ = s.totp.lookup username at hlookup
      obtain ⟨-, hne⟩ := App.active_eq_some.mp hactive
      have hsame : secret = read := by
        simpa [App.serve, App.entry, hreadable, ← hlookup, hstored, hne] using hanswer
      subst hsame
      exact .inr ⟨_, List.mem_append_right _ (List.mem_singleton_self _), rfl, code, hform, now,
        hread, hpassed⟩

theorem activeKept_move (hw : w.Sound (server cfg) (duty cfg) IsTwofa secretsStay)
    (hmove : Move (server cfg) (duty cfg) IsTwofa secretsStay Untouched w w') :
    ActiveKept w w' := by
  intro username secret hactive
  cases hmove with
  | stay => exact .inl hactive
  | result k past result =>
    change (deliver result w.state).active username = some secret ∨ _
    rw [deliver_eq]
    exact .inl hactive
  | call k past c choice hk hgrounds huntouched _ =>
    by_cases hkept : (respond cfg choice c w.state).2.active username = some secret
    · exact .inl hkept
    · refine .inr ⟨_, rfl, ?_⟩
      rcases active_lost hactive hkept with ⟨pending, rfl⟩ | rfl
      · have hnone := inactive_of_look hw hk hgrounds.2 huntouched
        exact absurd (hnone.symm.trans hactive) (by simp)
      · refine ⟨rfl, ?_⟩
        have hform := hk.requested
        cases hgrounds with
        | cancel hcancel hlook =>
          simp only [Untouched, untouched, hcancel, bne_self_eq_false, Bool.false_or] at huntouched
          have hnone := inactive_of_look hw hk hlook huntouched
          exact absurd (hnone.symm.trans hactive) (by simp)
        | disable password hdisable => exact .inl ⟨password, hdisable⟩
        | reset hreset => exact .inr hreset
        | delete hdelete => simp [IsTwofa, hdelete] at hform
        | add name role password hadd => simp [IsTwofa, hadd] at hform

/-- Of requests about the second factor in any number and in any order, when the file could be read
where a request looks and no secret of the user is written between the look and the write: an active
secret was active from the start or was confirmed by a request with a valid code for it, and every
step keeps it but a removal by a request that disables or resets. -/
theorem factor_run (cfg : Config) (start : App) (events : List AppEvent)
    (h : Runs.Along (server cfg).step (Meets IsTwofa Untouched) (Pool.start start) events) :
    Proved cfg start (Runs.run (server cfg).step (Pool.start start) events).world ∧
      Runs.Along (server cfg).step
        (fun p event => ActiveKept p.world ((server cfg).step p event).world)
        (Pool.start start) events := by
  have hstart : Proved cfg start ⟨start, []⟩ := fun _ _ hactive => .inl hactive
  refine ⟨(run_invariant (server_does cfg) secrets_grow (Proved cfg start)
    (fun _ _ hw h hmove => proved_move hw h hmove) hstart h).2, ?_⟩
  exact Runs.Along.of_invariant (P := fun _ => True) (fun _ _ _ _ => trivial)
    (fun _ _ _ hmove => activeKept_move hmove.1 hmove.2) trivial
    (along_move (server_does cfg) secrets_grow h)

/-! ### Two tabs -/

def inTab (form : Form) : AppEvent :=
  .arrive { form, session := sessionFor "ada", csrfToken := "token" }

def secretOf (c : Char) : String := .ofList (List.replicate 32 c)

/-- A code is verified for the secret of one tab; before it is confirmed the other tab starts again
with a secret of its own. -/
def twoTabs : List AppEvent :=
  inTab .securityStart :: List.replicate 6 (.proceed 0 { text := secretOf 'A' }) ++
    inTab (.securityEnable "812658".toList) :: List.replicate 6 (.proceed 1 { now := 59 }) ++
    inTab .securityStart :: List.replicate 6 (.proceed 2 { text := secretOf 'B' }) ++
    [.proceed 1 {}]

def readSecrets (past : List MadeCall) (username : String) : List Text :=
  past.filterMap fun made =>
    match made with
    | ⟨.totpSecret name, .ok (some secret)⟩ => if name = username then some secret else none
    | _ => none

theorem mem_readSecrets {past : List MadeCall} {username : String} {secret : Text}
    (h : ⟨.totpSecret username, .ok (some secret)⟩ ∈ past) :
    secret ∈ readSecrets past username :=
  List.mem_filterMap.mpr ⟨_, h, by simp⟩

theorem other_secret_confirmed :
    ¬∀ (cfg : Config) (start : App) (events : List AppEvent),
      (∀ event ∈ events, event.Asks IsTwofa) →
        Proved cfg start (Runs.run (server cfg).step (Pool.start start) events).world := by
  intro h
  have hactive : (Runs.run (server sampleConfig).step
      (Pool.start (openFor sampleConfig viewer ["ada"])) twoTabs).world.state.active "ada" =
        some (secretOf 'B').toList := by
    decide +kernel
  rcases h sampleConfig _ twoTabs (by decide) "ada" _ hactive with hstart |
    ⟨record, hrecord, hcall, code, hform, now, hread, hpassed⟩
  · exact absurd hstart (by decide +kernel)
  · exact absurd (mem_readSecrets hread) ((by decide +kernel : ∀ record ∈ (Runs.run
      (server sampleConfig).step (Pool.start (openFor sampleConfig viewer ["ada"]))
      twoTabs).world.trace, record.call = .totpConfirm "ada" →
        (secretOf 'B').toList ∉ readSecrets (made record.past) "ada") record hrecord hcall)

/-- One tab alone. -/
theorem factor_run_sample :
    let w := (Runs.run (server sampleConfig).step
      (Pool.start (openFor sampleConfig viewer ["ada"])) (twoTabs.take 14 ++ [.proceed 1 {}])).world
    w.state.active "ada" = some (secretOf 'A').toList ∧
      Proved sampleConfig (openFor sampleConfig viewer ["ada"]) w :=
  ⟨by decide +kernel, (factor_run sampleConfig _ _ (by decide +kernel)).1⟩

end AuthRoutes
