import McAdmin.RestoreGrounds

/-!
# The tally of updates

An operation launches an update of the server once at most, and enters it once at most, after the
launch; it ends without the entry only where the clock or the journal fails.
-/

namespace Markers

open AdminService Calls McAdmin ServiceCore

variable {cfg : Config} {user : User} {α β : Type} {past : List MadeCall}

def isEntered (m : MadeCall) : Bool := isUpdateMarker m && plain m.call

/-- Why an update that was launched may not be entered: the clock or the journal fails, the
attribute cannot be set, or the entry misleads. -/
def isExcuse : MadeCall → Bool
  | ⟨.now, .error _⟩ | ⟨.record _, .error _⟩ => true
  | ⟨.port (.memory (.setUpdateOperation _)), .error _⟩ => true
  | ⟨.record entry, .ok _⟩ => misleads entry
  | _ => false

structure Tally (past : List MadeCall) : Prop where
  entered : past.countP isEntered ≤ past.countP isLaunch
  once : past.countP isLaunch ≤ 1

def Settled (past : List MadeCall) : Prop :=
  past.countP isLaunch ≤ past.countP isEntered ∨ past.any isExcuse = true

def duty : Duty (Call Port) (Answer PortAnswer) Failure Error Unit Request where
  call _ past c := Warranted past c ∧ Tally past
  result _ past _ := Tally past ∧ Settled past

theorem countP_snoc {f : MadeCall → Bool} {m : MadeCall} (h : f m = false) :
    (past ++ [m]).countP f = past.countP f := by
  rw [List.countP_append, List.countP_singleton, h]
  rfl

/-! ### Operations that launch nothing -/

structure Idle (past : List MadeCall) : Prop where
  launched : past.countP isLaunch = 0
  entered : past.countP isEntered = 0

theorem idle_nil : Idle [] := ⟨rfl, rfl⟩

theorem Idle.tally (h : Idle past) : Tally past :=
  ⟨by rw [h.entered]; exact Nat.zero_le _, by rw [h.launched]; exact Nat.zero_le _⟩

theorem Idle.settled (h : Idle past) : Settled past :=
  .inl (by rw [h.launched]; exact Nat.zero_le _)

theorem call_of_isLaunch {m : MadeCall} (h : isLaunch m = true) :
    m.call = .port (.outside .startUpdater) := by
  unfold isLaunch at h
  split at h
  · rfl
  · exact absurd h (by simp)

theorem value_inj {p p' : Permission} (h : p.value = p'.value) : p = p' := by
  cases p <;> cases p' <;> first | rfl | exact absurd h (by decide)

theorem marker_update {action detail : String} (h : marker action detail = some "update") :
    action = Permission.update.value ∧ contains detail "phase=app_update_applied" = false := by
  unfold marker at h
  split_ifs at h with hbackup hdone hrestart hupdate happlied
  · exact absurd h (by decide)
  · exact absurd h (by decide)
  · exact ⟨hupdate, Bool.eq_false_iff.mpr happlied⟩

theorem launched_of_isEntered {c : Call Port} {answer : Except Failure (Answer PortAnswer c)}
    (hc : Warranted past c) (h : isEntered ⟨c, answer⟩ = true) :
    answered .startUpdater () ∈ past := by
  unfold isEntered isUpdateMarker at h
  split at h
  · rename_i entry _ heq
    obtain ⟨rfl, -⟩ := Made.mk.inj heq
    simp only [Bool.and_eq_true, beq_iff_eq, plain, Bool.not_eq_true'] at h
    obtain ⟨⟨houtcome, hmarker⟩, hplain⟩ := h
    obtain ⟨haction, happlied⟩ := marker_update hmarker
    obtain ⟨permission, hpermission, hground⟩ := hc houtcome hplain
    obtain rfl : permission = .update := value_inj (hpermission.symm.trans haction)
    rcases hground with happlied' | hlaunched
    · exact absurd happlied' (by simp [happlied])
    · exact hlaunched
  · exact absurd h (by simp)

theorem Idle.step {c : Call Port} (answer : Except Failure (Answer PortAnswer c))
    (hc : Routine past c) (h : Idle past) : Idle (past ++ [⟨c, answer⟩]) := by
  have hlaunch : isLaunch ⟨c, answer⟩ = false := by
    rw [Bool.eq_false_iff]
    intro hlaunch
    exact hc.2 (call_of_isLaunch hlaunch)
  have hentered : isEntered ⟨c, answer⟩ = false := by
    rw [Bool.eq_false_iff]
    intro hentered
    have hmem := launched_of_isEntered hc.1 hentered
    exact List.countP_eq_zero.mp h.launched _ hmem rfl
  exact ⟨(countP_snoc hlaunch).trans h.launched, (countP_snoc hentered).trans h.entered⟩

abbrev Dutiful (past : List MadeCall) (p : Program α) : Prop :=
  Obeys (fun past c => Warranted past c ∧ Tally past) (fun past _ => Tally past ∧ Settled past)
    past p

theorem idle_obeys {p : Program α} (h : Safe Routine p) (hpast : Idle past) :
    Obeys (fun past c => Warranted past c ∧ Tally past) (fun past _ => Idle past) past p :=
  ((h.obeys past).keep (fun _ _ answer hc h => h.step answer hc) hpast).mono
    (fun _ _ hc => ⟨hc.1.1, hc.2.tally⟩) fun _ _ h => h.2

theorem dutiful_of_safe {p : Program α} (h : Safe Routine p) (hpast : Idle past) :
    Dutiful past p :=
  (idle_obeys h hpast).mono (fun _ _ hc => hc) fun _ _ h => ⟨h.tally, h.settled⟩

theorem idle_bind {Q : List MadeCall → Except Error β → Prop} {p : Program α}
    {f : α → Program β} (h : Safe Routine p) (hpast : Idle past)
    (hf : ∀ a past, Idle past → Obeys (fun past c => Warranted past c ∧ Tally past) Q past (f a))
    (herror : ∀ e past, Idle past → Q past (.error e)) :
    Obeys (fun past c => Warranted past c ∧ Tally past) Q past (p >>= f) := by
  apply obeys_bind.mpr
  apply (idle_obeys h hpast).mono fun _ _ hc => hc
  intro past' result hidle
  cases result with
  | ok a => exact hf a past' hidle
  | error e => exact herror e past' hidle

theorem Dutiful.after {p : Program α} {f : α → Program β} (h : Safe Routine p)
    (hpast : Idle past) (hf : ∀ a past, Idle past → Dutiful past (f a)) :
    Dutiful past (p >>= f) :=
  idle_bind h hpast hf fun _ _ hidle => ⟨hidle.tally, hidle.settled⟩

/-! ### The update of the server -/

structure Launched (past : List MadeCall) : Prop where
  launched : past.countP isLaunch = 1
  entered : past.countP isEntered = 0

theorem Launched.tally (h : Launched past) : Tally past :=
  ⟨by rw [h.entered]; exact Nat.zero_le _, h.launched.le⟩

theorem Launched.mem (h : Launched past) : answered .startUpdater () ∈ past := by
  have hpos : 0 < past.countP isLaunch := by rw [h.launched]; exact Nat.one_pos
  obtain ⟨m, hm, hlaunch⟩ := List.countP_pos_iff.mp hpos
  unfold isLaunch at hlaunch
  split at hlaunch
  · exact hm
  · exact absurd hlaunch (by simp)

theorem Launched.step {m : MadeCall} (h : Launched past) (hlaunch : isLaunch m = false)
    (hentered : isEntered m = false) : Launched (past ++ [m]) :=
  ⟨(countP_snoc hlaunch).trans h.launched, (countP_snoc hentered).trans h.entered⟩

theorem Launched.excused {m : MadeCall} (h : Launched past) (hlaunch : isLaunch m = false)
    (hentered : isEntered m = false) (hexcuse : isExcuse m = true) :
    Tally (past ++ [m]) ∧ Settled (past ++ [m]) := by
  refine ⟨(h.step hlaunch hentered).tally, .inr ?_⟩
  rw [List.any_append]
  simp [hexcuse]

theorem Launched.recorded {m : MadeCall} (h : Launched past) (entry : AuditEntry)
    (hm : m = ⟨.record entry, .ok ()⟩) (houtcome : entry.outcome = "allowed")
    (haction : entry.action = Permission.update.value)
    (hstart : startsWith entry.detail "phase=update_started " = true) :
    Tally (past ++ [m]) ∧ Settled (past ++ [m]) := by
  have hmisleads : misleads entry = contains entry.detail "phase=app_update_applied" := by
    have hannounces : announces "UPDATE" entry.detail = false := rfl
    simp [misleads, misleadsUpdate, houtcome, haction, hannounces, hstart, Permission.value]
  have hlaunch : isLaunch m = false := by rw [hm]; rfl
  cases hcontains : contains entry.detail "phase=app_update_applied" with
  | true =>
    apply h.excused hlaunch
    · simp [hm, isEntered, plain, hmisleads, hcontains]
    · rw [hm, isExcuse, hmisleads, hcontains]
  | false =>
    have hentered : isEntered m = true := by
      simp [hm, isEntered, isUpdateMarker, marker, plain, houtcome, haction, hmisleads, hcontains,
        Permission.value]
    have hlaunches : (past ++ [m]).countP isLaunch = 1 := (countP_snoc hlaunch).trans h.launched
    have hentries : (past ++ [m]).countP isEntered = 1 := by
      rw [List.countP_append, h.entered, List.countP_singleton, hentered]
      rfl
    refine ⟨⟨?_, hlaunches.le⟩, .inl ?_⟩
    · rw [hlaunches, hentries]
    · rw [hlaunches, hentries]

theorem Settled.step {m : MadeCall} (htally : Tally past) (h : Settled past)
    (hlaunch : isLaunch m = false) (hentered : isEntered m = false) :
    Tally (past ++ [m]) ∧ Settled (past ++ [m]) := by
  refine ⟨⟨?_, ?_⟩, h.imp ?_ ?_⟩
  · rw [countP_snoc hentered, countP_snoc hlaunch]
    exact htally.entered
  · rw [countP_snoc hlaunch]
    exact htally.once
  · rw [countP_snoc hentered, countP_snoc hlaunch]
    exact id
  · intro hany
    rw [List.any_append, hany, Bool.true_or]

theorem dutiful_notify {title message level : String} {event : Option String}
    (htally : Tally past) (h : Settled past) :
    Dutiful past (notify title message level event) := by
  apply (obeys_call (A := PortAnswer)
    (c := .port (.outside (.notify ⟨title, message, level, event⟩)))).mpr
  exact ⟨⟨trivial, htally⟩, fun _ => h.step htally rfl rfl, fun _ => h.step htally rfl rfl⟩

theorem dutiful_entry {detail title message level : String} {event : Option String}
    (hstart : startsWith detail "phase=update_started " = true) (h : Launched past) :
    Dutiful past (do
      AdminService.record cfg user .update "allowed" detail
      notify title message level event) := by
  apply obeys_bind.mpr
  apply obeys_call_bind.mpr
  refine ⟨⟨trivial, h.tally⟩, fun t => ?_, fun f => h.excused rfl rfl rfl⟩
  have hnow : Launched (past ++ [⟨.now, .ok t⟩]) := h.step rfl rfl
  apply (obeys_call (A := PortAnswer) (c := .record _)).mpr
  refine ⟨⟨fun _ _ => ⟨.update, rfl, .inr hnow.mem⟩, hnow.tally⟩, fun _ => ?_,
    fun f => hnow.excused rfl rfl rfl⟩
  obtain ⟨htally, hsettled⟩ :=
    hnow.recorded (auditEntry cfg.containerName user .update "allowed" detail t) rfl rfl rfl hstart
  exact dutiful_notify htally hsettled

theorem dutiful_launched {requester steps : String} {version : Option String}
    (h : Launched past) : Dutiful past (do
      let operationId := s!"update::{cfg.isoformat (← now)}"
      memory (.setUpdateOperation (some ⟨operationId, version⟩))
      AdminService.record cfg user .update "allowed"
        (s!"phase=update_started requested_by={requester} operation_id={operationId} " ++ steps)
      notify "Mise à jour du serveur lancée" steps "info" (some "update")) := by
  apply obeys_call_bind.mpr
  refine ⟨⟨trivial, h.tally⟩, fun t => ?_, fun f => h.excused rfl rfl rfl⟩
  have hnow : Launched (past ++ [⟨.now, .ok t⟩]) := h.step rfl rfl
  apply obeys_call_bind.mpr
  refine ⟨⟨trivial, hnow.tally⟩, fun a => ?_, fun f => hnow.excused rfl rfl rfl⟩
  apply dutiful_entry
  · repeat apply startsWith_append
    decide
  · exact hnow.step rfl rfl

theorem dutiful_applyUpdate {force : Bool} (hpast : Idle past) :
    Dutiful past (applyUpdate cfg user force) := by
  refine Dutiful.after (Safe.routine authorize_safe) hpast fun _ past hpast => ?_
  refine Dutiful.after (Safe.routine refuseUpdateInMaintenance_safe) hpast fun _ past hpast => ?_
  refine Dutiful.after (Safe.routine refuseWithPlayers_safe) hpast fun _ past hpast => ?_
  refine Dutiful.after (Safe.routine warnBeforeUpdate_safe) hpast fun steps past hpast => ?_
  refine Dutiful.after (Safe.routine currentVersion_safe) hpast fun version past hpast => ?_
  apply obeys_bind.mpr
  apply obeys_tryCatch.mpr
  apply (obeys_call (A := PortAnswer) (c := .port (.outside .startUpdater))).mpr
  refine ⟨⟨trivial, hpast.tally⟩, fun _ => ?_, fun f => ?_⟩
  · refine dutiful_launched ⟨?_, ?_⟩
    · rw [List.countP_append, hpast.launched]
      rfl
    · exact (countP_snoc rfl).trans hpast.entered
  · -- the container did not start, so that the update is over with nothing launched
    have hidle : Idle (past ++ [⟨.port (.outside .startUpdater), .error f⟩]) :=
      ⟨(countP_snoc rfl).trans hpast.launched, (countP_snoc rfl).trans hpast.entered⟩
    have hover (e : Error) (past : List MadeCall) (h : Idle past) : Tally past ∧ Settled past :=
      ⟨h.tally, h.settled⟩
    refine idle_bind (Safe.routine (record_other (by decide))) hidle (fun _ past hidle => ?_) hover
    refine idle_bind (Safe.routine notify_safe) hidle (fun _ past hidle => ?_) hover
    exact hover (.fault f) past hidle

theorem service_does : (server cfg).Does duty := by
  have hignored {γ : Type} {p : Program γ} (h : Safe Routine p) : Dutiful [] (ignored p) :=
    dutiful_of_safe (h.bind fun _ => Safe.pure) idle_nil
  intro request
  cases request with
  | restart user => exact hignored restart_safe
  | start user => exact dutiful_of_safe start_safe idle_nil
  | scheduleRestart user minutes deferIfPlayers =>
    exact dutiful_of_safe (Safe.routine scheduleRestart_safe) idle_nil
  | cancelScheduledRestart user => exact dutiful_of_safe (Safe.routine cancelScheduledRestart_safe) idle_nil
  | setRecurringRestart user timeHhmm leadSeconds deferIfPlayers =>
    exact dutiful_of_safe (Safe.routine setRecurringRestart_safe) idle_nil
  | clearRecurringRestart user => exact dutiful_of_safe (Safe.routine clearRecurringRestart_safe) idle_nil
  | tickScheduledRestart user => exact dutiful_of_safe tickScheduledRestart_safe idle_nil
  | enterMaintenance user message until_ grace deferIfPlayers =>
    exact dutiful_of_safe enterMaintenance_safe idle_nil
  | cancelPendingMaintenance user =>
    exact dutiful_of_safe (Safe.routine cancelPendingMaintenance_safe) idle_nil
  | exitMaintenance user => exact dutiful_of_safe exitMaintenance_safe idle_nil
  | addScheduledMaintenance user form => exact hignored (Safe.routine addScheduledMaintenance_safe)
  | removeScheduledMaintenance user id =>
    exact dutiful_of_safe (Safe.routine removeScheduledMaintenance_safe) idle_nil
  | tickMaintenance user => exact dutiful_of_safe tickMaintenance_safe idle_nil
  | updateStatus user => exact hignored (Safe.routine updateStatus_safe)
  | applyUpdate user force => exact dutiful_applyUpdate idle_nil
  | snoozeAppUpdate user hours => exact dutiful_of_safe (Safe.routine snoozeAppUpdate_safe) idle_nil
  | applyAppUpdate user => exact dutiful_of_safe (Safe.routine applyAppUpdate_safe) idle_nil
  | triggerProfileBackup user id => exact hignored (Safe.routine triggerProfileBackup_safe)
  | tickBackupProfiles user => exact dutiful_of_safe (Safe.routine tickBackupProfiles_safe) idle_nil
  | backupProgress user => exact hignored (Safe.routine backupProgress_safe)
  | applyBackupRetention user dailyDays monthlyMonths folder =>
    exact hignored (Safe.routine applyBackupRetention_safe)
  | restoreBackup user filename => exact hignored (Safe.routine restoreBackup_safe)
  | tickPendingRestore user => exact hignored tickPendingRestore_safe
  | dismissActivityResult user => exact hignored (Safe.routine dismissActivityResult_safe)

end Markers
