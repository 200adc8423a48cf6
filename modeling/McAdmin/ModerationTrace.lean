import McAdmin.Moderation

/-!
# What an operation of moderation leaves behind

The command for the game cannot be taken back, and what comes after it can fail.
`moderation_traced_iff` says after which calls an operation has still left its entry in the audit
log and a temporary ban its timer, and `ban_untraced` is a ban that left none.
-/

namespace Moderation

open Backtracking Calls McAdmin ServiceCore TempBans

/-! ### The operations -/

inductive Operation where
  | whitelistAdd (player : String)
  | whitelistRemove (player : String)
  | opAdd (player : String) (level : ℤ)
  | opRemove (player : String)
  | kick (player reason : String)
  | ban (player reason : String)
  | banTemporary (player : String) (hours : Hours) (reason : String)
  | pardon (player : String)
deriving DecidableEq, Repr

namespace Operation

def program (cfg : Config) (user : User) : Operation → Program String
  | .whitelistAdd player => Moderation.whitelistAdd cfg user player
  | .whitelistRemove player => Moderation.whitelistRemove cfg user player
  | .opAdd player level => Moderation.opAdd cfg user player level
  | .opRemove player => Moderation.opRemove cfg user player
  | .kick player reason => Moderation.kick cfg user player reason
  | .ban player reason => Moderation.ban cfg user player reason
  | .banTemporary player hours reason => Moderation.banTemporary cfg user player hours reason
  | .pardon player => Moderation.pardon cfg user player

def permission : Operation → Permission
  | .whitelistAdd _ | .whitelistRemove _ => .whitelistManage
  | .opAdd .. | .opRemove _ => .opManage
  | .kick .. => .kick
  | .ban .. | .banTemporary .. | .pardon _ => .banManage

def subject : Operation → String
  | .whitelistAdd player => s!"add {player}"
  | .whitelistRemove player => s!"remove {player}"
  | .opAdd player _ => s!"op {player}"
  | .opRemove player => s!"deop {player}"
  | .kick player _ => s!"kick {player}"
  | .ban player _ | .banTemporary player .. => s!"ban {player}"
  | .pardon player => s!"pardon {player}"

end Operation

/-! ### What was done -/

def happened {α : Type} : Except Fault α → Bool
  | .ok _ => true
  | .error f => f.late

def succeeds : MadeCall → Bool
  | ⟨.port (.game _), .ok _⟩ => true
  | _ => false

def traces (user : User) (op : Operation) : MadeCall → Bool
  | ⟨.record entry, answer⟩ => happened answer && entry.username == user.username &&
    entry.action == op.permission.value && op.subject.toList.isPrefixOf entry.detail.toList
  | _ => false

def spoils : MadeCall → Bool
  | ⟨.now, .error _⟩ | ⟨.port (.cancel _), .error _⟩ | ⟨.port (.schedule ..), .error _⟩ => true
  | ⟨.record _, answer⟩ => !happened answer
  | _ => false

def tookLate : MadeCall → Bool
  | ⟨.port (.game _), .error f⟩ => f.late
  | _ => false

def timersAfter (entries : List PendingUnban) : MadeCall → List PendingUnban
  | ⟨.port (.cancel player), answer⟩ =>
    if happened answer then TempBans.cancel player entries else entries
  | ⟨.port (.schedule player unbanAt), answer⟩ =>
    if happened answer then TempBans.schedule player unbanAt entries else entries
  | _ => entries

def hasTimer (player : String) (entries : List PendingUnban) : Bool :=
  entries.any (·.player == player)

def firstReading (made : List MadeCall) : Option ℚ :=
  made.findSome? fun
    | ⟨.now, .ok now⟩ => some now
    | _ => none

/-- The operation raised, and the player is banned, or was to be unbanned, without a timer. -/
def HalfDone (op : Operation) (entries : List PendingUnban) (made : List MadeCall)
    (result : Except (Raised Fault Refusal) String) : Prop :=
  match op with
  | .banTemporary player .. => (∀ a, result ≠ .ok a) ∧
      (made.any succeeds || made.any tookLate || hasTimer player entries) = true ∧
      hasTimer player (made.foldl timersAfter entries) = false
  | _ => False

/-- A command that succeeded is in the log, and no temporary ban is left half done. -/
def LeavesTrace (user : User) (op : Operation) (entries : List PendingUnban)
    (made : List MadeCall) (result : Except (Raised Fault Refusal) String) : Prop :=
  (made.any succeeds = true → made.any (traces user op) = true) ∧
    ¬HalfDone op entries made result

def Operation.endsInTime (op : Operation) (made : List MadeCall) : Prop :=
  match op with
  | .banTemporary _ hours _ => ∀ now ∈ firstReading made, hours.after now ≠ none
  | _ => True

/-- Once the command succeeded no call fails that the entry waits for, and a temporary ban whose
command failed was not taken all the same, unless the player has a timer already. -/
def Undisturbed (op : Operation) (entries : List PendingUnban) (made : List MadeCall) : Prop :=
  (made.any succeeds = true → made.any spoils = false ∧ op.endsInTime made) ∧
    match op with
    | .banTemporary player .. => made.any tookLate = true → hasTimer player entries = true
    | _ => True

/-! ### The rules of the calls -/

section

variable {cfg : Config} {user : User} {op : Operation} {α β : Type}

structure Looked (user : User) (op : Operation) (made : List MadeCall) : Prop where
  succeeded : made.any succeeds = false
  traced : made.any (traces user op) = false
  spoiled : made.any spoils = false

structure Owed (user : User) (op : Operation) (made : List MadeCall) : Prop where
  succeeded : made.any succeeds = true
  traced : made.any (traces user op) = false
  spoiled : made.any spoils = false

def Settled (user : User) (op : Operation) (made : List MadeCall) : Prop :=
  made.any (traces user op) = !made.any spoils

def Over (user : User) (op : Operation) (made : List MadeCall) : Prop :=
  made.any succeeds = true → Settled user op made

/-- The program leads from one stage to another, or raises where an operation may end. -/
def Leads (user : User) (op : Operation) (s s' : List MadeCall → Prop) (p : Program α) : Prop :=
  ∀ past, s past → Obeys (fun _ _ => True)
    (fun made result =>
      match result with
      | .ok _ => s' made
      | .error _ => Over user op made) past p

variable {s s' s'' : List MadeCall → Prop}

theorem Leads.pure {a : α} (h : ∀ made, s made → s' made) :
    Leads user op s s' (pure a : Program α) := fun past hpast => h past hpast

theorem Leads.bind {p : Program α} {f : α → Program β} (hp : Leads user op s s' p)
    (hf : ∀ a, Leads user op s' s'' (f a)) : Leads user op s s'' (p >>= f) := by
  intro past hpast
  refine obeys_bind.mpr ((hp past hpast).mono (fun _ _ h => h) fun made result h => ?_)
  cases result with
  | ok a => exact hf a made h
  | error e => exact h

theorem obeys_port {past : List MadeCall} {c : Port}
    {Q : List MadeCall → Except (Raised Fault Refusal) (PortAnswer c) → Prop}
    (h : ∀ answer, Q (past ++ [⟨.port c, answer⟩]) (answer.mapError .fault)) :
    Obeys (fun _ _ => True) Q past (port c) :=
  ServiceCore.obeys_call.mpr ⟨trivial, fun a => h (.ok a), fun f => h (.error f)⟩

/-! What the writing of an entry adds. -/

variable {entry : ℚ → AuditEntry} {outcome detail : String} {permission : Permission}
  {new past : List MadeCall} {result : Except (Raised Fault Refusal) Unit}

theorem any_succeeds_of_writes (h : Writes entry new result) : new.any succeeds = false := by
  cases h <;> rfl

theorem any_tookLate_of_writes (h : Writes entry new result) : new.any tookLate = false := by
  cases h <;> rfl

theorem timersAfter_of_writes (h : Writes entry new result) (entries : List PendingUnban) :
    new.foldl timersAfter entries = entries := by
  cases h <;> rfl

theorem any_traces_of_writes
    (h : Writes (auditEntry cfg.containerName user op.permission outcome detail) new result)
    (hdetail : op.subject.toList <+: detail.toList) :
    new.any (traces user op) = !new.any spoils := by
  have hsubject := List.isPrefixOf_iff_prefix.mpr hdetail
  cases h <;> simp [traces, spoils, happened, auditEntry, hsubject]

/-! The stages of an operation. -/

theorem Over.of_succeeded (h : past.any succeeds = false) : Over user op past := by
  intro hsucceeded
  rw [h] at hsucceeded
  exact absurd hsucceeded (by simp)

theorem Looked.over (h : Looked user op past) : Over user op past := .of_succeeded h.succeeded

theorem Looked.append (h : Looked user op past) {made : MadeCall}
    (hsucceeds : succeeds made = false) (htraces : traces user op made = false)
    (hspoils : spoils made = false) : Looked user op (past ++ [made]) := by
  constructor <;>
    simp [List.any_append, h.succeeded, h.traced, h.spoiled, hsucceeds, htraces, hspoils]

theorem Owed.append (h : Owed user op past) {made : MadeCall}
    (htraces : traces user op made = false) (hspoils : spoils made = false) :
    Owed user op (past ++ [made]) := by
  constructor <;> simp [List.any_append, h.succeeded, h.traced, h.spoiled, htraces, hspoils]

theorem Looked.over_of_writes (h : Looked user op past) (hw : Writes entry new result) :
    Over user op (past ++ new) :=
  .of_succeeded (by rw [List.any_append, h.succeeded, any_succeeds_of_writes hw]; rfl)

theorem leads_refuseUnless {condition : Prop} [Decidable condition] {e : Refusal} :
    Leads user op (Looked user op) (Looked user op) (refuseUnless condition e) := by
  intro past hpast
  exact obeys_ite.mpr ⟨fun _ => hpast, fun _ => hpast.over⟩

theorem leads_refuse {e : Raised Fault Refusal} :
    Leads user op (Looked user op) s (do
      record cfg.containerName user permission outcome detail
      throw e : Program α) := by
  intro past hpast
  refine obeys_bind.mpr (obeys_record fun new result hw => ?_)
  have hover := hpast.over_of_writes hw
  cases result with
  | ok _ => exact hover
  | error _ => exact hover

theorem leads_authorize :
    Leads user op (Looked user op) (Looked user op)
      (authorize cfg.containerName user permission) := by
  cases hcan : user.can permission with
  | true =>
    rw [authorize_of_can hcan]
    exact .pure fun _ h => h
  | false =>
    rw [authorize_of_not_can hcan]
    exact leads_refuse

theorem leads_command {c : Command} :
    Leads user op (Looked user op) (Owed user op) (command cfg user permission detail c) := by
  intro past hpast
  refine obeys_tryCatch.mpr (obeys_port fun answer => ?_)
  cases answer with
  | ok text =>
    constructor <;>
      simp [List.any_append, hpast.succeeded, hpast.traced, hpast.spoiled, succeeds, traces, spoils]
  | error f => exact leads_refuse (s := Owed user op) _ (hpast.append rfl rfl rfl)

theorem leads_cancel {player : String} :
    Leads user op (Owed user op) (Owed user op) (port (.cancel player)) := by
  intro past hpast
  refine obeys_port fun answer => ?_
  cases answer with
  | ok _ => exact hpast.append rfl rfl
  | error f => exact fun _ => by simp [Settled, List.any_append, hpast.traced, traces, spoils]

theorem leads_record (hpermission : permission = op.permission)
    (hdetail : op.subject.toList <+: detail.toList) :
    Leads user op (Owed user op) (Settled user op)
      (record cfg.containerName user permission outcome detail) := by
  intro past hpast
  refine obeys_record fun new result hw => ?_
  have hsettled : Settled user op (past ++ new) := by
    rw [hpermission] at hw
    rw [Settled, List.any_append, List.any_append, hpast.traced, hpast.spoiled, Bool.false_or,
      Bool.false_or]
    exact any_traces_of_writes hw hdetail
  cases result with
  | ok _ => exact hsettled
  | error _ => exact fun _ => hsettled

theorem leads_notify {message : String} :
    Leads user op (Settled user op) (Settled user op) (port (.notify message)) := by
  intro past hpast
  refine obeys_port fun answer => ?_
  have hsettled : Settled user op (past ++ [⟨.port (.notify message), answer⟩]) := by
    simpa [Settled, List.any_append, traces, spoils] using hpast
  cases answer with
  | ok _ => exact hsettled
  | error _ => exact fun _ => hsettled

theorem leads_opLevelsBusy :
    Leads user op (Looked user op) (Looked user op) (opLevelsBusy cfg) := by
  intro past hpast
  unfold opLevelsBusy
  refine obeys_ite.mpr ⟨fun _ => hpast, fun _ => obeys_ite.mpr ⟨fun _ => hpast, fun _ => ?_⟩⟩
  refine obeys_bind.mpr (obeys_tryCatch.mpr (obeys_bind.mpr (obeys_port fun answer => ?_)))
  have hlooked : Looked user op (past ++ [⟨.port .opLevelsRunning, answer⟩]) :=
    hpast.append rfl rfl rfl
  match answer with
  | .ok true => exact hlooked
  | .ok false => exact hlooked
  | .error f => exact hlooked

theorem leads_ensureOpLevelsIdle :
    Leads user op (Looked user op) (Looked user op) (ensureOpLevelsIdle cfg user detail) := by
  refine leads_opLevelsBusy.bind fun busy => ?_
  cases busy with
  | none => exact .pure fun _ h => h
  | some message => exact leads_refuse

theorem leads_currentLevel {player : String} :
    Leads user op (Looked user op) (Looked user op) (currentLevel cfg player) := by
  intro past hpast
  refine obeys_tryCatch.mpr (obeys_bind.mpr (obeys_port fun answer => ?_))
  have hlooked : Looked user op (past ++ [⟨.port .listOps, answer⟩]) := hpast.append rfl rfl rfl
  cases answer with
  | ok _ => exact hlooked
  | error f => exact hlooked

def KeepsOwed (user : User) (op : Operation) (p : Program Unit) : Prop :=
  ∀ past, Owed user op past → Obeys (fun _ _ => True) (fun made _ => Owed user op made) past p

theorem keepsOwed_keepLevel {player : String} {level : ℤ} {immediate : Bool} :
    KeepsOwed user op (keepLevel cfg player level immediate) := by
  intro past hpast
  unfold keepLevel
  refine obeys_ite.mpr ⟨fun _ => obeys_ite.mpr ⟨fun _ => hpast, fun _ => hpast⟩, fun _ => ?_⟩
  exact obeys_ite.mpr ⟨fun _ => obeys_port fun _ => hpast.append rfl rfl,
    fun _ => obeys_port fun _ => hpast.append rfl rfl⟩

theorem leads_orUnavailable {body : Program Unit} {message : String}
    (hbody : KeepsOwed user op body) (hpermission : op.permission = .opManage)
    (hdetail : op.subject.toList <+: detail.toList) :
    Leads user op (Owed user op) (Owed user op) (orUnavailable cfg body user detail message) := by
  intro past hpast
  refine obeys_tryCatch.mpr ((hbody past hpast).mono (fun _ _ h => h) fun made result howed => ?_)
  cases result with
  | ok _ => exact howed
  | error e =>
    refine obeys_bind.mpr ((leads_record hpermission.symm hdetail made howed).mono
      (fun _ _ h => h) fun made result h => ?_)
    cases result with
    | ok _ => exact fun _ => h
    | error _ => exact h

end

/-! ### The operations but one -/

section

variable {cfg : Config} {user : User}

theorem subject_append (text rest : String) : text.toList <+: (text ++ rest).toList := by
  rw [String.toList_append]
  exact List.prefix_append _ _

theorem leads_changeWhitelist {word player : String} {c : String → Command} {op : Operation}
    (hpermission : op.permission = .whitelistManage) (hsubject : op.subject = s!"{word} {player}") :
    Leads user op (Looked user op) (Settled user op) (changeWhitelist cfg word c user player) := by
  have hdetail : op.subject.toList <+: (s!"{word} {player}").toList := hsubject ▸ List.prefix_rfl
  refine leads_authorize.bind fun _ => leads_refuseUnless.bind fun _ => ?_
  refine leads_command.bind fun result => ?_
  exact (leads_record hpermission.symm hdetail).bind fun _ => .pure fun _ h => h

theorem leads_opAdd {player : String} {level : ℤ} :
    Leads user (.opAdd player level) (Looked user (.opAdd player level))
      (Settled user (.opAdd player level)) (opAdd cfg user player level) := by
  refine leads_authorize.bind fun _ => leads_refuseUnless.bind fun _ => ?_
  refine leads_refuseUnless.bind fun _ => leads_ensureOpLevelsIdle.bind fun _ => ?_
  refine leads_currentLevel.bind fun current => leads_command.bind fun result => ?_
  have hdetail : ∀ rest, (Operation.opAdd player level).subject.toList <+:
      (s!"op {player}" ++ rest).toList := fun rest => subject_append _ rest
  refine (leads_orUnavailable keepsOwed_keepLevel rfl ?_).bind fun _ => ?_
  · simpa only [String.append_assoc] using hdetail _
  · refine (leads_record rfl ?_).bind fun _ => leads_notify.bind fun _ => .pure fun _ h => h
    simpa only [String.append_assoc] using hdetail _

theorem leads_opRemove {player : String} :
    Leads user (.opRemove player) (Looked user (.opRemove player))
      (Settled user (.opRemove player)) (opRemove cfg user player) := by
  refine leads_authorize.bind fun _ => leads_refuseUnless.bind fun _ => ?_
  refine leads_ensureOpLevelsIdle.bind fun _ => leads_command.bind fun result => ?_
  have hkeeps : KeepsOwed user (.opRemove player)
      (if cfg.pendingOpLevels then port (.pendingRemove player) else return ()) := fun past hpast =>
    obeys_ite.mpr ⟨fun _ => obeys_port fun _ => hpast.append rfl rfl, fun _ => hpast⟩
  refine (leads_orUnavailable hkeeps rfl (subject_append _ _)).bind fun _ => ?_
  exact (leads_record rfl List.prefix_rfl).bind fun _ => .pure fun _ h => h

theorem leads_kick {player reason : String} :
    Leads user (.kick player reason) (Looked user (.kick player reason))
      (Settled user (.kick player reason)) (kick cfg user player reason) := by
  refine leads_authorize.bind fun _ => leads_refuseUnless.bind fun _ => ?_
  refine leads_command.bind fun result => ?_
  refine (leads_record rfl (subject_append _ _)).bind fun _ => ?_
  exact leads_notify.bind fun _ => .pure fun _ h => h

theorem leads_ban {player reason : String} :
    Leads user (.ban player reason) (Looked user (.ban player reason))
      (Settled user (.ban player reason)) (ban cfg user player reason) := by
  refine leads_authorize.bind fun _ => leads_refuseUnless.bind fun _ => ?_
  refine leads_command.bind fun result => leads_cancel.bind fun _ => ?_
  refine (leads_record rfl (subject_append _ _)).bind fun _ => ?_
  exact leads_notify.bind fun _ => .pure fun _ h => h

theorem leads_pardon {player : String} :
    Leads user (.pardon player) (Looked user (.pardon player))
      (Settled user (.pardon player)) (pardon cfg user player) := by
  refine leads_authorize.bind fun _ => leads_refuseUnless.bind fun _ => ?_
  refine leads_command.bind fun result => leads_cancel.bind fun _ => ?_
  refine (leads_record rfl List.prefix_rfl).bind fun _ => ?_
  exact leads_notify.bind fun _ => .pure fun _ h => h

end

/-! ### The temporary ban -/

section

variable {cfg : Config} {user : User} {player reason : String} {hours : Hours}
  {entries : List PendingUnban} {past new : List MadeCall}
  {result : Except (Raised Fault Refusal) String}

theorem hasTimer_schedule (unbanAt : ℚ) (entries : List PendingUnban) :
    hasTimer player (schedule player unbanAt entries) = true := by
  simp [hasTimer, schedule]

theorem leavesTrace_of_idle (hsucceeds : past.any succeeds = false)
    (hlate : past.any tookLate = false) (htimers : past.foldl timersAfter entries = entries) :
    LeavesTrace user (.banTemporary player hours reason) entries past result ↔
      Undisturbed (.banTemporary player hours reason) entries past := by
  simp [LeavesTrace, HalfDone, Undisturbed, hsucceeds, hlate, htimers]

theorem leavesTrace_of_failed {c : Command} {f : Fault} {e : Raised Fault Refusal}
    {entry : ℚ → AuditEntry} {written : Except (Raised Fault Refusal) Unit}
    (hw : Writes entry new written) :
    LeavesTrace user (.banTemporary player hours reason) entries
        ([⟨.port (.game c), .error f⟩] ++ new) (.error e) ↔
      Undisturbed (.banTemporary player hours reason) entries
        ([⟨.port (.game c), .error f⟩] ++ new) := by
  cases hlate : f.late <;> cases htimer : hasTimer player entries <;>
    simp [LeavesTrace, HalfDone, Undisturbed, succeeds, tookLate, timersAfter,
      any_succeeds_of_writes hw, any_tookLate_of_writes hw, timersAfter_of_writes hw, hlate, htimer]

theorem leavesTrace_of_spoiled (hsucceeds : past.any succeeds = true)
    (htraces : past.any (traces user (.banTemporary player hours reason)) = false)
    (hspoils : past.any spoils = true ∨
      ∃ now, firstReading past = some now ∧ hours.after now = none) :
    LeavesTrace user (.banTemporary player hours reason) entries past result ↔
      Undisturbed (.banTemporary player hours reason) entries past := by
  constructor
  · rintro ⟨htraced, -⟩
    rw [htraced hsucceeds] at htraces
    exact absurd htraces (by simp)
  · rintro ⟨hundisturbed, -⟩
    obtain ⟨hnone, hends⟩ := hundisturbed hsucceeds
    rcases hspoils with hspoils | ⟨now, hnow, hafter⟩
    · rw [hnone] at hspoils
      exact absurd hspoils (by simp)
    · exact absurd hafter (hends now hnow)

theorem leavesTrace_of_scheduled {c : Command} {text : String} {now unbanAt : ℚ} {detail : String}
    {written : Except (Raised Fault Refusal) Unit} (hafter : hours.after now = some unbanAt)
    (hdetail : (s!"ban {player}").toList <+: detail.toList)
    (hw : Writes (auditEntry cfg.containerName user .banManage "allowed" detail) new written) :
    let made : List MadeCall := [⟨.port (.game c), .ok text⟩, ⟨.now, .ok now⟩,
      ⟨.port (.cancel player), .ok ()⟩, ⟨.port (.schedule player unbanAt), .ok ()⟩] ++ new
    LeavesTrace user (.banTemporary player hours reason) entries made result ↔
      Undisturbed (.banTemporary player hours reason) entries made := by
  intro made
  have htraces : made.any (traces user (.banTemporary player hours reason)) = !made.any spoils := by
    have hnew : new.any (traces user (.banTemporary player hours reason)) = !new.any spoils :=
      any_traces_of_writes hw hdetail
    simpa [made, traces, spoils] using hnew
  have hlate : made.any tookLate = false := by simp [made, tookLate, any_tookLate_of_writes hw]
  have htimer : hasTimer player (made.foldl timersAfter entries) = true := by
    simp [made, timersAfter, happened, timersAfter_of_writes hw, hasTimer_schedule]
  have hends : (Operation.banTemporary player hours reason).endsInTime made := by
    simp [Operation.endsInTime, firstReading, made, hafter]
  simp [LeavesTrace, HalfDone, Undisturbed, htraces, hlate, htimer, hends]

theorem obeys_refuseUnless {condition : Prop} [Decidable condition] {e : Refusal}
    {f : Unit → Program String}
    {Q : List MadeCall → Except (Raised Fault Refusal) String → Prop}
    (hrefused : Q past (.error (.refused e)))
    (hf : Obeys (fun _ _ => True) Q past (f ())) :
    Obeys (fun _ _ => True) Q past (refuseUnless condition e >>= f) :=
  obeys_bind.mpr (obeys_ite.mpr ⟨fun _ => hf, fun _ => hrefused⟩)

theorem obeys_deadline {Q : List MadeCall → Except (Raised Fault Refusal) ℚ → Prop}
    (hclock : ∀ f, Q (past ++ [⟨.now, .error f⟩]) (.error (.fault f)))
    (hnone : ∀ now : ℚ, hours.after now = none →
      Q (past ++ [⟨.now, .ok now⟩]) (.error (.refused .dateOutOfRange)))
    (hsome : ∀ now unbanAt : ℚ, hours.after now = some unbanAt →
      Q (past ++ [⟨.now, .ok now⟩]) (.ok unbanAt)) :
    Obeys (fun _ _ => True) Q past (deadline hours) := by
  refine (ServiceCore.obeys_call_bind (c := .now)).mpr ⟨trivial, fun now => ?_, hclock⟩
  cases hafter : hours.after now with
  | none => exact hnone now hafter
  | some unbanAt => exact hsome now unbanAt hafter

theorem obeys_banTemporary :
    Obeys (fun _ _ => True) (fun made result =>
      LeavesTrace user (.banTemporary player hours reason) entries made result ↔
        Undisturbed (.banTemporary player hours reason) entries made)
      [] (banTemporary cfg user player hours reason) := by
  rw [banTemporary]
  cases hcan : user.can .banManage with
  | false =>
    rw [authorize_of_not_can hcan]
    refine obeys_bind.mpr (obeys_bind.mpr (obeys_record fun new result hw => ?_))
    have hidle : ∀ result, LeavesTrace user (.banTemporary player hours reason) entries new result ↔
        Undisturbed (.banTemporary player hours reason) entries new := fun result =>
      leavesTrace_of_idle (any_succeeds_of_writes hw) (any_tookLate_of_writes hw)
        (timersAfter_of_writes hw entries)
    cases result with
    | ok _ => exact hidle _
    | error _ => exact hidle _
  | true =>
    rw [authorize_of_can hcan]
    refine obeys_bind.mpr ?_
    refine obeys_refuseUnless (leavesTrace_of_idle rfl rfl rfl) ?_
    refine obeys_refuseUnless (leavesTrace_of_idle rfl rfl rfl) ?_
    refine obeys_bind.mpr (obeys_tryCatch.mpr (obeys_port fun answer => ?_))
    cases answer with
    | error f =>
      refine obeys_bind.mpr (obeys_record fun new result hw => ?_)
      cases result with
      | ok _ => exact leavesTrace_of_failed hw
      | error _ => exact leavesTrace_of_failed hw
    | ok text =>
      refine obeys_bind.mpr (obeys_deadline
        (fun f => leavesTrace_of_spoiled rfl rfl (.inl rfl))
        (fun now hafter => leavesTrace_of_spoiled rfl rfl (.inr ⟨now, rfl, hafter⟩))
        fun now unbanAt hafter => ?_)
      refine obeys_bind.mpr (obeys_port fun answer => ?_)
      cases answer with
      | error f => exact leavesTrace_of_spoiled rfl rfl (.inl rfl)
      | ok _ =>
        refine obeys_bind.mpr (obeys_port fun answer => ?_)
        cases answer with
        | error f => exact leavesTrace_of_spoiled rfl rfl (.inl rfl)
        | ok _ =>
          refine obeys_bind.mpr (obeys_record fun new result hw => ?_)
          -- the entry begins with the command, which the timer follows
          have hdetail : (s!"ban {player}").toList <+: (withReason
              s!"ban {player} pendant {cfg.showHours hours}h"
              (sanitizeReason cfg reason)).toList := by
            simp [withReason, String.toList_append]
          cases result with
          | ok _ => exact leavesTrace_of_scheduled hafter hdetail hw
          | error _ => exact leavesTrace_of_scheduled hafter hdetail hw

end

/-! ### All of them -/

theorem Leads.leavesTrace {user : User} {op : Operation} {p : Program String}
    (hop : ∀ player hours reason, op ≠ .banTemporary player hours reason)
    (h : Leads user op (Looked user op) (Settled user op) p) (entries : List PendingUnban) :
    Obeys (fun _ _ => True) (fun made result =>
      LeavesTrace user op entries made result ↔ Undisturbed op entries made) [] p := by
  refine (h [] ⟨rfl, rfl, rfl⟩).mono (fun _ _ h => h) fun made result h => ?_
  have hover : Over user op made := by
    cases result with
    | ok _ => exact fun _ => h
    | error _ => exact h
  have hhalf : ¬HalfDone op entries made result := by
    cases op with
    | banTemporary player hours reason => exact absurd rfl (hop player hours reason)
    | _ => exact id
  have hundisturbed : Undisturbed op entries made ↔
      (made.any succeeds = true → made.any spoils = false) := by
    cases op with
    | banTemporary player hours reason => exact absurd rfl (hop player hours reason)
    | _ => simp only [Undisturbed, Operation.endsInTime, and_true]
  rw [hundisturbed, LeavesTrace, and_iff_left hhalf]
  refine forall_congr' fun hsucceeds => ?_
  rw [hover hsucceeds]
  cases made.any spoils <;> simp

/-- Whatever the calls of an operation answer: its entry is in the log if its command succeeded, and
a temporary ban that raises leaves the player neither banned nor deprived of a timer without one,
exactly when no call fails that the entry waits for. -/
theorem moderation_traced_iff (cfg : Config) (user : User) (op : Operation)
    (entries : List PendingUnban)
    (answers : List MadeCall → (c : Call Port) → Except Fault (Answer PortAnswer c)) :
    let run := exec answers [] (op.program cfg user)
    LeavesTrace user op entries run.1 run.2 ↔ Undisturbed op entries run.1 := by
  have hobeys : Obeys (fun _ _ => True) (fun made result =>
      LeavesTrace user op entries made result ↔ Undisturbed op entries made) []
      (op.program cfg user) := by
    cases op with
    | banTemporary => exact obeys_banTemporary
    | whitelistAdd => exact Leads.leavesTrace (by simp) (leads_changeWhitelist rfl rfl) entries
    | whitelistRemove => exact Leads.leavesTrace (by simp) (leads_changeWhitelist rfl rfl) entries
    | opAdd => exact Leads.leavesTrace (by simp) leads_opAdd entries
    | opRemove => exact Leads.leavesTrace (by simp) leads_opRemove entries
    | kick => exact Leads.leavesTrace (by simp) leads_kick entries
    | ban => exact Leads.leavesTrace (by simp) leads_ban entries
    | pardon => exact Leads.leavesTrace (by simp) leads_pardon entries
  exact exec_of_obeys hobeys answers

/-! ### A ban whose timers cannot be read -/

def sampleConfig : Config where
  containerName := "minecraft"
  chars := .ascii
  opLevelsUnderWay := false
  opLevelsApply := true
  pendingOpLevels := true
  showHours _ := "24"

def owner : User := ⟨"ada", ⟨"owner", [], true⟩⟩

def unreadableTimers (_ : List MadeCall) : (c : Call Port) → Except Fault (Answer PortAnswer c)
  | .now => .ok (0 : ℚ)
  | .record _ => .ok ()
  | .port (.game _) => .ok "Banned Steve"
  | .port .listOps => .ok []
  | .port .opLevelsRunning => .ok false
  | .port (.cancel _) | .port (.schedule ..) => .error ⟨false⟩
  | .port (.pendingRemove _) | .port (.pendingSetLevel ..) | .port (.notify _) => .ok ()

theorem ban_untraced :
    ¬∀ (cfg : Config) (user : User) (op : Operation) (entries : List PendingUnban)
      (answers : List MadeCall → (c : Call Port) → Except Fault (Answer PortAnswer c)),
      LeavesTrace user op entries (exec answers [] (op.program cfg user)).1
        (exec answers [] (op.program cfg user)).2 := by
  intro h
  have htrace := (h sampleConfig owner (.ban "Steve" "grief") [] unreadableTimers).1
  exact absurd (htrace (by decide +kernel)) (by decide +kernel)

end Moderation
