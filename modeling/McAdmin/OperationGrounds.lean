import McAdmin.MarkerGrounds

/-!
# The operations and their grounds

Each operation by each of its parts: the entries of a launch come after it, and what an entry tells
of an operation under way was read from its attribute.
-/

namespace Markers

open AdminService Calls McAdmin ServiceCore

variable {cfg : Config} {user : User} {α β : Type}

/-! ### Updates -/

theorem not_startsWith {text start' : String} (start : String) (h : startsWith text start = true)
    (hne : ¬(startsWith start start' = true ∨ startsWith start' start = true)) :
    startsWith text start' = false := by
  rw [Bool.eq_false_iff]
  intro h'
  simp only [startsWith, List.isPrefixOf_iff_prefix] at h h' hne
  exact hne (List.prefix_or_prefix_of_prefix h' h)

theorem record_update_safe {outcome detail start : String}
    (hstart : start = "phase=update_done " ∨ start = "phase=app_update_snoozed ")
    (h : startsWith detail start = true) :
    Safe Ordinary (AdminService.record cfg user .update outcome detail) := by
  apply record_safe
  intro _
  by_cases hcontains : contains detail "phase=app_update_applied" = true
  · exact .inr fun _ => .inl hcontains
  · left
    intro entry houtcome haction hdetail
    have hlaunch : startsWith detail "phase=update_started " = false := by
      rcases hstart with rfl | rfl
      · exact not_startsWith _ h (by decide)
      · exact not_startsWith _ h (by decide)
    have hother : (startsWith detail "phase=update_done " ||
        startsWith detail "phase=app_update_snoozed ") = true := by
      rcases hstart with rfl | rfl
      · rw [h, Bool.true_or]
      · rw [h, Bool.or_true]
    simp [misleads, misleadsUpdate, houtcome, haction, hdetail, hlaunch, hother, hcontains]

theorem catching_safe {c : ErrorClass} {p : Program α} (h : Safe Ordinary p) :
    Safe Ordinary (catching c p) := by
  apply Safe.tryCatch (h.bind fun _ => Safe.pure)
  intro e
  apply Safe.ite
  · intro _
    exact Safe.pure
  · intro _
    exact Safe.throw

theorem currentVersion_safe : Safe Ordinary currentVersion :=
  (attempt_safe (outside_safe rfl)).bind fun _ => Safe.pure

theorem concludeUpdate_safe {operation : UpdateOperation} :
    Safe Ordinary (concludeUpdate cfg operation) := by
  refine Safe.bind (memory_safe rfl) fun _ => ?_
  refine Safe.bind (attempt_safe (outside_safe rfl)) fun code => ?_
  split
  · exact (record_other (by decide)).bind fun _ => notify_safe
  · refine currentVersion_safe.bind fun versionAfter => ?_
    refine Safe.bind (record_update_safe (.inl rfl) ?_) fun _ => notify_safe
    repeat apply startsWith_append
    decide

theorem scanUpdateOutcome_safe : Safe Ordinary (scanUpdateOutcome cfg) := by
  refine Safe.bind (memory_safe rfl) fun seen => ?_
  apply Safe.ite
  · intro _
    exact Safe.pure
  · intro _
    refine Safe.bind (attempt_safe (outside_safe rfl)) fun running => ?_
    split
    · refine Safe.bind (memory_safe rfl) fun operation => ?_
      split
      · exact refuse_safe
      · exact concludeUpdate_safe
    · exact Safe.pure

theorem updateStatus_safe : Safe Ordinary (updateStatus cfg user) :=
  authorize_safe.bind fun _ => scanUpdateOutcome_safe.bind fun _ => outside_safe rfl

theorem doormanRunning_safe : Safe Ordinary (doormanRunning cfg) :=
  Safe.ite (fun _ => outside_safe rfl) fun _ => Safe.pure

theorem refuseUpdateInMaintenance_safe :
    Safe Ordinary (refuseUpdateInMaintenance cfg user) := by
  refine doormanRunning_safe.bind fun closed => ?_
  apply Safe.ite
  · intro _
    exact deny_safe
  · intro _
    exact Safe.pure

theorem refuseWithPlayers_safe {force : Bool} :
    Safe Ordinary (refuseWithPlayers cfg user force) := by
  refine (catching_safe (outside_safe rfl)).bind fun players => ?_
  apply Safe.ite
  · intro _
    exact Safe.pure
  · intro _
    exact deny_safe

theorem warnBeforeUpdate_safe : Safe Ordinary warnBeforeUpdate := by
  refine (catching_safe (outside_safe rfl)).bind fun said => ?_
  split
  · exact Safe.pure
  · refine (catching_safe (outside_safe rfl)).bind fun saved => ?_
    split
    · exact Safe.pure
    · exact Safe.pure

theorem knownRelease_safe : Safe Ordinary (knownRelease cfg) :=
  Safe.ite (fun _ => outside_safe rfl) fun _ => Safe.pure

theorem snoozeAppUpdate_safe {hours : ProfileSchedule.Hours} :
    Safe Ordinary (snoozeAppUpdate cfg user hours) := by
  refine authorize_safe.bind fun _ => knownRelease_safe.bind fun known => ?_
  split
  · exact refuse_safe
  · apply Safe.ite
    · intro _
      exact refuse_safe
    · intro _
      refine now_safe.bind fun t => ?_
      split
      · exact refuse_safe
      · refine Safe.bind (outside_safe rfl) fun _ => record_update_safe (.inr rfl) ?_
        repeat apply startsWith_append
        decide

theorem appUpdateInapplicable_safe : Safe Ordinary (appUpdateInapplicable cfg) := by
  apply Safe.ite
  · intro _
    exact Safe.pure
  · intro _
    have himage : Safe Ordinary (ownImage cfg) :=
      Safe.ite (fun _ => outside_safe rfl) fun _ => Safe.pure
    refine himage.bind fun image => ?_
    exact Safe.ite (fun _ => Safe.pure) fun _ => Safe.ite (fun _ => Safe.pure) fun _ => Safe.pure

theorem appBusy_safe : Safe Ordinary (appBusy cfg) := by
  refine restoreInProgress_safe.bind fun restoring => ?_
  apply Safe.ite
  · intro _
    exact Safe.pure
  · intro _
    have hclosed : Safe Ordinary (doormanEngagedOrUnknown cfg) :=
      (attempt_safe doormanRunning_safe).bind fun _ => Safe.pure
    refine hclosed.bind fun closed => ?_
    apply Safe.ite
    · intro _
      exact Safe.pure
    · intro _
      apply Safe.ite
      · intro _
        exact Safe.pure
      · intro _
        refine (attempt_safe (outside_safe rfl)).bind fun running => ?_
        split
        · exact Safe.pure
        · exact Safe.pure
        · exact Safe.pure

theorem startAppUpdater_safe {version : String} :
    Safe Ordinary (startAppUpdater cfg user version) := by
  apply Safe.tryCatch (outside_safe rfl)
  intro e
  apply Safe.ite
  · intro _
    exact (record_other (by decide)).bind fun _ => notify_safe.bind fun _ => Safe.throw
  · intro _
    exact Safe.throw

theorem applyAppUpdate_safe : Safe Ordinary (applyAppUpdate cfg user) := by
  refine authorize_safe.bind fun _ => knownRelease_safe.bind fun known => ?_
  split
  · exact deny_safe
  · refine appUpdateInapplicable_safe.bind fun reason => ?_
    split
    · exact deny_safe
    · refine appBusy_safe.bind fun busy => ?_
      split
      · exact deny_safe
      · refine startAppUpdater_safe.bind fun _ => Safe.bind ?_ fun _ => notify_safe
        apply record_safe
        intro _
        right
        intro past
        left
        apply contains_of_startsWith
        repeat apply startsWith_append
        decide

/-! ### Restarts -/

theorem begun_triple {operation : OpLevelsOperation} :
    Triple Routine (fun _ => True) (memory (.beginOpLevels operation)) fun begun past =>
      accessed (.beginOpLevels operation) begun ∈ past := by
  apply Triple.perform
  · intro _ _
    exact ⟨trivial, fun h => by cases h⟩
  · intro past _ _
    exact List.mem_append_right past (List.mem_singleton_self _)

theorem beginOpLevels_triple {operation : OpLevelsOperation} :
    Triple Routine (fun _ => True) (beginOpLevelsApply cfg operation) fun _ past =>
      accessed (.beginOpLevels operation) true ∈ past := by
  apply Triple.ite
  · intro _
    exact Triple.throw
  · intro _
    apply Triple.bind begun_triple
    intro begun
    apply Triple.ite
    · intro _
      exact Triple.throw
    · intro hbegun
      rw [Bool.not_eq_false] at hbegun
      subst hbegun
      exact Triple.pure fun _ h => h

theorem opLevelsExit_safe : Safe Ordinary opLevelsExit := by
  refine Safe.bind (attempt_safe ?_) fun _ => Safe.pure
  refine Safe.bind (outside_safe rfl) fun running => ?_
  exact Safe.ite (fun _ => Safe.pure) fun _ => outside_safe rfl

theorem reportOpLevels_safe {operation : OpLevelsOperation} {exitCode : ℤ} :
    Triple Ordinary (fun past => accessed (.concludeOpLevels operation) true ∈ past)
      (reportOpLevels cfg operation exitCode) fun _ _ => True := by
  apply Triple.ite
  · intro _
    refine Triple.bind (record_triple (Lasting.mem _) fun _ => .inr fun past hpast => ?_)
      fun _ => notify_safe
    rcases hlaunch : operation.launches with h | h
    · rw [h]
      exact .inr ⟨operation, h, .inr hpast⟩
    · rw [h]
      trivial
  · intro _
    exact (Safe.bind (record_other (by decide)) fun _ => notify_safe).pre fun _ _ => trivial

theorem concludeOpLevels_safe {operation : OpLevelsOperation} :
    Safe Ordinary (concludeOpLevels cfg operation) := by
  refine opLevelsExit_safe.bind fun exitCode => ?_
  split
  · exact Safe.pure
  · refine Triple.bind (memory_accessed rfl) fun concluded => ?_
    apply Triple.ite
    · intro hconcluded
      subst hconcluded
      exact reportOpLevels_safe
    · intro _
      exact Triple.pure fun _ _ => trivial

theorem tickOpLevelsOperation_safe : Safe Ordinary (tickOpLevelsOperation cfg) := by
  refine Safe.bind (memory_safe rfl) fun operation => ?_
  split
  · exact Safe.pure
  · exact Safe.ite (fun _ => concludeOpLevels_safe) fun _ => Safe.pure

theorem bringUp_triple {operation : OpLevelsOperation} {container : Program Unit}
    {failed : String} {K : List MadeCall → Prop}
    (hcontainer : Triple Routine (fun _ => True) container fun _ past => K past) :
    Triple Routine (fun _ => True) (bringUp cfg operation container failed) fun _ past =>
      K past ∨ accessed (.beginOpLevels operation) true ∈ past := by
  apply Triple.tryCatch Lasting.true
  · have hpending : Safe Ordinary (pendingLevels cfg) :=
      Safe.ite (fun _ => outside_safe rfl) fun _ => Safe.pure
    refine Triple.bind (Safe.routine hpending) fun pending => Triple.bind ?_ fun _ =>
      Triple.pure fun past hpast => hpast
    apply Triple.ite
    · intro _
      exact hcontainer.weaken (fun _ h => h) fun _ _ h => .inl h
    · intro _
      exact beginOpLevels_triple.weaken (fun _ h => h) fun _ _ h => .inr h
  · intro e
    exact Triple.bind (Safe.routine (record_other (by decide))) fun _ =>
      Triple.bind (Safe.routine notify_safe) fun _ => Triple.throw

theorem launchIdOr_safe {id : Option String} {requester : String} :
    Safe Ordinary (launchIdOr cfg id requester) := by
  unfold launchIdOr
  split
  · exact Safe.pure
  · exact now_safe.bind fun _ => Safe.pure

theorem restartContainer_triple :
    Triple Routine (fun _ => True) (outside .restartContainer) fun _ past =>
      answered .restartContainer () ∈ past :=
  outside_routine rfl fun past _ _ => List.mem_append_right past (List.mem_singleton_self _)

theorem lasting_restarted {operation : OpLevelsOperation} :
    Lasting fun past => answered .restartContainer () ∈ past ∨
      accessed (.beginOpLevels operation) true ∈ past :=
  (Lasting.mem _).or (Lasting.mem _)

theorem restart_triple {id requestedBy : Option String} :
    Triple Routine (fun _ => True) (restart cfg user id requestedBy) fun _ past =>
      ∃ operation : OpLevelsOperation, operation.permission = .restart ∧
        (answered .restartContainer () ∈ past ∨
          accessed (.beginOpLevels operation) true ∈ past) := by
  refine (Safe.routine authorize_safe).then Lasting.true fun _ =>
    (Safe.routine refuseIfMaintenance_safe).then Lasting.true fun _ =>
      (Safe.routine launchIdOr_safe).then Lasting.true fun opId => ?_
  refine Triple.bind (bringUp_triple restartContainer_triple) fun pending => ?_
  refine Triple.then (routine_of_ordinary (record_triple lasting_restarted fun _ => .inr ?_))
    lasting_restarted fun _ => ?_
  · rintro past (h | h)
    · exact .inl h
    · exact .inr ⟨_, rfl, .inl h⟩
  · refine Triple.bind (Triple.keep (lasting_restarted.and Lasting.true)
      (Triple.pre (Safe.routine notify_safe) fun _ _ => trivial)) fun _ => ?_
    exact Triple.pure fun past h => ⟨_, rfl, h.1.1⟩

theorem restart_safe {id requestedBy : Option String} :
    Safe Routine (restart cfg user id requestedBy) := restart_triple.safe

theorem start_safe : Safe Routine (start cfg user) := by
  refine (Safe.routine authorize_safe).bind fun _ =>
    (Safe.routine refuseIfMaintenance_safe).bind fun _ => ?_
  refine (Safe.routine (now_safe.bind fun _ => Safe.pure)).bind fun opId => ?_
  have hcontainer : Safe Routine (outside .startContainer) :=
    outside_routine rfl fun _ _ _ => trivial
  refine Safe.bind (bringUp_triple hcontainer).safe fun pending => ?_
  exact Safe.routine (record_safe fun _ => .inr fun _ => trivial)

theorem heldByPlayers_safe {deferIfPlayers : Bool} :
    Safe Ordinary (heldByPlayers deferIfPlayers) :=
  Safe.ite (fun _ => serverConfirmedEmpty_safe.bind fun _ => Safe.pure) fun _ => Safe.pure

theorem noteDeferredOnce_safe {permission : Permission} {operationId label : String}
    (h : (permission, "phase=deferred_players_online ") ∈ announcements) :
    Safe Ordinary (noteDeferredOnce cfg user permission operationId label) := by
  refine Safe.bind (memory_safe rfl) fun announced => ?_
  apply Safe.ite
  · intro _
    exact Safe.pure
  · intro _
    refine Safe.bind (memory_safe rfl) fun _ => say_safe.bind fun _ => notify_safe.bind fun _ => ?_
    apply record_misleading
    apply misleads_of_announcement _ h
    repeat apply startsWith_append
    decide

theorem scheduleRestart_safe {minutes : ProfileSchedule.Hours} {deferIfPlayers : Bool} :
    Safe Ordinary (scheduleRestart cfg user minutes deferIfPlayers) := by
  refine authorize_safe.bind fun _ => refuseIf_safe.bind fun _ => now_safe.bind fun t => ?_
  split
  · exact refuse_safe
  · refine Safe.bind (outside_safe rfl) fun _ => say_safe.bind fun _ => ?_
    apply record_misleading
    apply misleads_of_announcement "phase=restart_scheduled " (by decide)
    repeat apply startsWith_append
    decide

theorem cancelScheduledRestart_safe : Safe Ordinary (cancelScheduledRestart cfg user) := by
  refine authorize_safe.bind fun _ => Safe.bind (outside_safe rfl) fun pending =>
    Safe.bind (outside_safe rfl) fun had => ?_
  split
  · refine Safe.bind (memory_safe rfl) fun _ => record_misleading ?_
    apply misleads_of_announcement "phase=restart_cancelled " (by decide)
    repeat apply startsWith_append
    decide
  · exact record_misleading
      (misleads_of_announcement "rien à annuler" (by decide) (by decide))

theorem opLevelsInTheWay_safe : Safe Ordinary (opLevelsInTheWay cfg) := by
  refine Safe.bind (memory_safe rfl) fun operation => ?_
  apply Safe.ite
  · intro _
    exact Safe.pure
  · intro _
    apply Safe.ite
    · intro _
      exact Safe.pure
    · intro _
      exact (attempt_safe (outside_safe rfl)).bind fun _ => Safe.pure

theorem sayAndSave_safe {message : String} :
    Safe Ordinary (do outside (.say message); outside .saveAll) :=
  Safe.bind (outside_safe rfl) fun _ => outside_safe rfl

theorem performRestart_safe {pending : ScheduledRestart} :
    Safe Routine (performRestart cfg user pending) := by
  refine (Safe.routine (bestEffort_safe sayAndSave_safe)).bind fun _ => ?_
  refine (Safe.routine (outside_safe rfl)).bind fun _ => Triple.bind restart_triple fun applies => ?_
  apply Triple.ite
  · intro _
    exact Triple.pure fun _ _ => trivial
  · intro _
    apply routine_of_ordinary
    apply record_triple
    · rintro past past' ⟨operation, hpermission, h⟩ hsubset
      exact ⟨operation, hpermission, h.imp (@hsubset _) (@hsubset _)⟩
    · intro _
      right
      rintro past ⟨operation, hpermission, h | h⟩
      · exact .inl h
      · exact .inr ⟨operation, hpermission, .inl h⟩

theorem dueRestart_safe {pending : ScheduledRestart} :
    Safe Routine (dueRestart cfg user pending) := by
  refine (Safe.routine heldByPlayers_safe).bind fun held => ?_
  apply Safe.ite
  · intro _
    exact Safe.routine (noteDeferredOnce_safe (by decide))
  · intro _
    refine (Safe.routine (memory_safe rfl)).bind fun _ =>
      (Safe.routine opLevelsInTheWay_safe).bind fun inTheWay => ?_
    exact Safe.ite (fun _ => Safe.pure) fun _ => performRestart_safe

theorem recurring_misleads {detail : String}
    (h : startsWith detail "redémarrage récurrent " = true) : Misleads .restart detail :=
  misleads_of_announcement "redémarrage récurrent " (by decide) h

theorem setRecurringRestart_safe {timeHhmm : String} {leadSeconds : ℤ} {deferIfPlayers : Bool} :
    Safe Ordinary (setRecurringRestart cfg user timeHhmm leadSeconds deferIfPlayers) := by
  refine authorize_safe.bind fun _ => refuseIf_safe.bind fun _ => refuseIf_safe.bind fun _ =>
    refuseIf_safe.bind fun _ => Safe.bind (outside_safe rfl) fun _ => record_misleading ?_
  apply recurring_misleads
  repeat apply startsWith_append
  decide

theorem clearRecurringRestart_safe : Safe Ordinary (clearRecurringRestart cfg user) := by
  refine authorize_safe.bind fun _ => Safe.bind ?_ fun _ =>
    record_misleading (recurring_misleads (by decide))
  exact Safe.ite (fun _ => outside_safe rfl) fun _ => Safe.pure

theorem armRecurringRestart_safe {config : RecurringRestart} {target remaining : ℚ} :
    Safe Ordinary (armRecurringRestart cfg user config target remaining) := by
  refine Safe.bind (outside_safe rfl) fun pending => ?_
  apply Safe.ite
  · intro _
    exact Safe.pure
  · intro _
    refine Safe.bind (outside_safe rfl) fun _ => say_safe.bind fun _ => record_misleading ?_
    apply recurring_misleads
    repeat apply startsWith_append
    decide

theorem visitRecurringRestart_safe {config : RecurringRestart} {t : Instant} {today : String} :
    Safe Ordinary (visitRecurringRestart cfg user config t today) := by
  unfold visitRecurringRestart
  split
  · exact refuse_safe
  · apply Safe.ite
    · intro _
      exact outside_safe rfl
    · intro _
      apply Safe.ite
      · intro _
        exact Safe.pure
      · intro _
        exact armRecurringRestart_safe.bind fun _ => outside_safe rfl

theorem tickRecurringRestart_safe : Safe Ordinary (tickRecurringRestart cfg user) := by
  have hconfig : Safe Ordinary (recurringConfig cfg) :=
    Safe.ite (fun _ => outside_safe rfl) fun _ => Safe.pure
  refine hconfig.bind fun config => ?_
  split
  · exact Safe.pure
  · refine now_safe.bind fun t => Safe.bind (outside_safe rfl) fun fired => ?_
    exact Safe.ite (fun _ => Safe.pure) fun _ => visitRecurringRestart_safe

theorem warnOfRestart_safe {t : Instant} : Safe Ordinary (warnOfRestart t) := by
  refine Safe.bind (outside_safe rfl) fun threshold => ?_
  split
  · exact Safe.pure
  · exact say_safe

theorem tickPlannedRestart_safe : Safe Routine (tickPlannedRestart cfg user) := by
  refine (Safe.routine (outside_safe rfl)).bind fun pending => ?_
  split
  · exact Safe.pure
  · refine (Safe.routine now_safe).bind fun t => ?_
    exact Safe.ite (fun _ => dueRestart_safe) fun _ => Safe.routine warnOfRestart_safe

theorem tickScheduledRestart_safe : Safe Routine (tickScheduledRestart cfg user) :=
  (Safe.routine authorize_safe).bind fun _ => (Safe.routine tickOpLevelsOperation_safe).bind fun _ =>
    (Safe.routine scanUpdateOutcome_safe).bind fun _ =>
      (Safe.routine tickRecurringRestart_safe).bind fun _ => tickPlannedRestart_safe

/-! ### Maintenance -/

theorem restoring_safe : Safe Ordinary (restoring cfg) :=
  (attempt_safe restoreInProgress_safe).bind fun _ => Safe.pure

theorem doormanUnfitIssues_safe : Safe Ordinary (doormanUnfitIssues cfg) := by
  apply Safe.ite
  · intro _
    exact Safe.pure
  · intro _
    exact (attempt_safe (outside_safe rfl)).bind fun _ => Safe.pure

theorem orReport_triple {p : Program Unit} {H K : List MadeCall → Prop} {detail title : String}
    {message : Raised Failure Failure → String} {event : Option String} (hH : Lasting H)
    (h : Triple Routine H p fun _ past => K past) :
    Triple Routine H (orReport cfg p user detail title message event) fun _ past => K past := by
  apply Triple.tryCatch hH h
  intro e
  refine Safe.then (Safe.routine (record_other (by decide))) hH fun _ => ?_
  exact Safe.then (Safe.routine notify_safe) hH fun _ => Triple.throw

theorem engage_triple {H : List MadeCall → Prop} {motd kick : String} :
    Triple Routine H (outside (.engage motd kick)) fun _ past => Maintained past :=
  outside_routine rfl fun past _ _ =>
    .engaged motd kick (List.mem_append_right past (List.mem_singleton_self _))

theorem lasting_maintained : Lasting Maintained := by
  rintro past past' (⟨motd, kick, h⟩ | ⟨hrelease, hstart⟩) hsubset
  · exact .engaged motd kick (hsubset h)
  · exact .reopened (hsubset hrelease) (hsubset hstart)

theorem maintained_triple {detail title message : String} :
    Triple Routine Maintained
      (do
        AdminService.record cfg user .maintenance "allowed" detail
        notify title message "info" (some "restart"))
      fun _ _ => True :=
  routine_of_ordinary
    (Triple.bind (record_triple lasting_maintained fun _ => .inr fun _ h => h) fun _ => notify_safe)

theorem engageMaintenance_safe {motd kick requestedBy operationId : String} :
    Safe Routine (engageMaintenance cfg user motd kick requestedBy operationId) := by
  have hid : Safe Ordinary (maintenanceIdOr cfg operationId) :=
    Safe.ite (fun _ => Safe.pure) fun _ => now_safe.bind fun _ => Safe.pure
  refine (Safe.routine hid).bind fun opId => ?_
  refine (Safe.routine (bestEffort_safe sayAndSave_safe)).bind fun _ => ?_
  have hstop : Safe Routine (outside (.stopContainer maintenanceStopTimeoutSeconds)) :=
    outside_routine rfl fun _ _ _ => trivial
  refine Triple.bind (orReport_triple Lasting.true hstop) fun _ => ?_
  exact Triple.bind (orReport_triple Lasting.true engage_triple) fun _ => maintained_triple

theorem refuseToClose_safe {grace : ProfileSchedule.Hours} {negative : Bool} :
    Safe Ordinary (refuseToClose cfg user grace negative) := by
  refine refuseIf_safe.bind fun _ => refuseIf_safe.bind fun _ => restoring_safe.bind fun r => ?_
  refine Safe.bind (Safe.ite (fun _ => deny_safe) fun _ => Safe.pure) fun _ => ?_
  refine Safe.bind (outside_safe rfl) fun closed => refuseIf_safe.bind fun _ => ?_
  refine doormanUnfitIssues_safe.bind fun unfit => ?_
  exact Safe.ite (fun _ => Safe.pure) fun _ => deny_safe

theorem announceMaintenance_safe {motd kick : String} {grace : ProfileSchedule.Hours}
    {deferIfPlayers : Bool} :
    Safe Ordinary (announceMaintenance cfg user motd kick grace deferIfPlayers) := by
  refine refuseIf_safe.bind fun _ => now_safe.bind fun t => ?_
  split
  · exact refuse_safe
  · refine Safe.bind (outside_safe rfl) fun _ => say_safe.bind fun _ => record_misleading ?_
    apply misleads_of_announcement "phase=maintenance_scheduled " (by decide)
    repeat apply startsWith_append
    decide

theorem enterMaintenance_safe {message until_ : String} {grace : ProfileSchedule.Hours}
    {deferIfPlayers : Bool} :
    Safe Routine (enterMaintenance cfg user message until_ grace deferIfPlayers) := by
  refine (Safe.routine authorize_safe).bind fun _ =>
    (Safe.routine refuseToClose_safe).bind fun _ => ?_
  exact Safe.ite (fun _ => Safe.routine announceMaintenance_safe) fun _ => engageMaintenance_safe

theorem pendingMaintenance_safe : Safe Ordinary (pendingMaintenance cfg) :=
  Safe.ite (fun _ => outside_safe rfl) fun _ => Safe.pure

theorem cancelMaintenance_safe : Safe Ordinary (cancelMaintenance cfg) :=
  Safe.ite (fun _ => outside_safe rfl) fun _ => Safe.pure

theorem cancelPendingMaintenance_safe : Safe Ordinary (cancelPendingMaintenance cfg user) := by
  refine authorize_safe.bind fun _ => pendingMaintenance_safe.bind fun pending =>
    cancelMaintenance_safe.bind fun had => ?_
  split
  · refine say_safe.bind fun _ => record_misleading ?_
    apply misleads_of_announcement "phase=maintenance_cancelled " (by decide)
    repeat apply startsWith_append
    decide
  · exact record_misleading
      (misleads_of_announcement "rien à annuler" (by decide) (by decide))

theorem release_triple :
    Triple Routine (fun _ => True) (outside .release) fun _ past => answered .release () ∈ past :=
  outside_routine rfl fun past _ _ => List.mem_append_right past (List.mem_singleton_self _)

theorem reopen_triple :
    Triple Routine (fun past => answered .release () ∈ past) (outside .startContainer)
      fun _ past => Maintained past :=
  outside_routine rfl fun past _ hrelease =>
    .reopened (List.mem_append_left _ hrelease)
      (List.mem_append_right past (List.mem_singleton_self _))

theorem exitMaintenance_safe : Safe Routine (exitMaintenance cfg user) := by
  refine (Safe.routine authorize_safe).bind fun _ => (Safe.routine refuseIf_safe).bind fun _ =>
    (Safe.routine restoring_safe).bind fun r => ?_
  refine (Safe.routine (Safe.ite (fun _ => deny_safe) fun _ => Safe.pure)).bind fun _ => ?_
  refine (Safe.routine cancelMaintenance_safe).bind fun _ => ?_
  refine Triple.bind (orReport_triple Lasting.true release_triple) fun _ => ?_
  exact Triple.bind (orReport_triple (Lasting.mem _) reopen_triple) fun _ => maintained_triple

theorem listed_misleads {detail : String} (h : startsWith detail "maintenance programmée " = true) :
    Misleads .maintenance detail :=
  misleads_of_announcement "maintenance programmée " (by decide) h

theorem cleanWhen_safe {kind date : String} {weekdays : List ℤ} :
    Safe Ordinary (cleanWhen cfg kind date weekdays) := by
  apply Safe.ite
  · intro _
    split
    · exact refuse_safe
    · refine now_safe.bind fun t => ?_
      exact Safe.ite (fun _ => refuse_safe) fun _ => Safe.pure
  · intro _
    exact Safe.ite (fun _ => refuse_safe) fun _ => Safe.pure

theorem addScheduledMaintenance_safe {form : ScheduledMaintenance} :
    Safe Ordinary (addScheduledMaintenance cfg user form) := by
  refine authorize_safe.bind fun _ => refuseIf_safe.bind fun _ => refuseIf_safe.bind fun _ =>
    refuseIf_safe.bind fun _ => refuseIf_safe.bind fun _ => cleanWhen_safe.bind fun clean => ?_
  refine Safe.bind (outside_safe rfl) fun id => Safe.bind (record_misleading ?_) fun _ => Safe.pure
  apply listed_misleads
  repeat apply startsWith_append
  decide

theorem removeScheduledMaintenance_safe {id : String} :
    Safe Ordinary (removeScheduledMaintenance cfg user id) := by
  have hremove : Safe Ordinary (removeListed cfg id) :=
    Safe.ite (fun _ => outside_safe rfl) fun _ => Safe.pure
  refine authorize_safe.bind fun _ => hremove.bind fun had => record_misleading ?_
  split
  · apply listed_misleads
    repeat apply startsWith_append
    decide
  · exact misleads_of_announcement "rien à retirer" (by decide) (by decide)

theorem scheduledTargetToday_safe {entry : ScheduledMaintenance} {t : Instant} :
    Safe Ordinary (scheduledTargetToday cfg entry t) := by
  unfold scheduledTargetToday
  split
  · exact Safe.pure
  · apply Safe.ite
    · intro _
      exact Safe.pure
    · intro _
      split
      · exact refuse_safe
      · exact Safe.pure

theorem armScheduledMaintenance_safe {entry : ScheduledMaintenance} {target : Instant}
    {remaining : ℚ} {today : String} :
    Safe Ordinary (armScheduledMaintenance cfg user entry target remaining today) := by
  refine doormanUnfitIssues_safe.bind fun unfit => ?_
  apply Safe.ite
  · intro _
    refine Safe.bind (outside_safe rfl) fun _ => ?_
    exact Safe.bind (record_other (by decide)) fun _ => notify_safe
  · intro _
    refine Safe.bind (outside_safe rfl) fun _ => say_safe.bind fun _ =>
      Safe.bind (record_misleading ?_) fun _ => outside_safe rfl
    apply listed_misleads
    repeat apply startsWith_append
    decide

theorem visitEntry_safe {t : Instant} {today : String} {entry : ScheduledMaintenance} :
    Safe Ordinary (visitEntry cfg user t today entry) := by
  have honce : Safe Ordinary (removeIfOnce entry) :=
    Safe.ite (fun _ => Safe.bind (outside_safe rfl) fun _ => Safe.pure) fun _ => Safe.pure
  apply Safe.ite
  · intro _
    exact Safe.bind (outside_safe rfl) fun _ => Safe.pure
  · intro _
    refine scheduledTargetToday_safe.bind fun target => ?_
    split
    · exact Safe.pure
    · refine Safe.bind (outside_safe rfl) fun fired => Safe.ite (fun _ => Safe.pure) fun _ => ?_
      apply Safe.ite
      · intro _
        exact Safe.bind (outside_safe rfl) fun _ => honce.bind fun _ => Safe.pure
      · intro _
        refine Safe.ite (fun _ => Safe.pure) fun _ => ?_
        exact armScheduledMaintenance_safe.bind fun _ => Safe.pure

theorem visitEntries_safe {t : Instant} {today : String} (entries : List ScheduledMaintenance) :
    Safe Ordinary (visitEntries cfg user t today entries) := by
  induction entries with
  | nil => exact Safe.pure
  | cons entry entries ih =>
    refine visitEntry_safe.bind fun goesOn => ?_
    exact Safe.ite (fun _ => ih) fun _ => Safe.pure

theorem closureInTheWay_safe : Safe Ordinary (closureInTheWay cfg) := by
  refine Safe.bind (outside_safe rfl) fun pending => Safe.ite (fun _ => Safe.pure) fun _ => ?_
  refine (attempt_safe (outside_safe rfl)).bind fun running => ?_
  exact Safe.ite (fun _ => Safe.pure) fun _ => restoring_safe

theorem tickScheduledMaintenance_safe : Safe Ordinary (tickScheduledMaintenance cfg user) := by
  refine Safe.ite (fun _ => Safe.pure) fun _ => Safe.bind (outside_safe rfl) fun entries => ?_
  refine Safe.ite (fun _ => Safe.pure) fun _ => closureInTheWay_safe.bind fun inTheWay => ?_
  refine Safe.ite (fun _ => Safe.pure) fun _ => now_safe.bind fun t => ?_
  exact visitEntries_safe entries

theorem deferForRestore_safe {pending : PendingMaintenance} :
    Safe Ordinary (deferForRestore cfg user pending) := by
  refine Safe.bind (memory_safe rfl) fun announced => Safe.ite (fun _ => Safe.pure) fun _ => ?_
  refine Safe.bind (memory_safe rfl) fun _ => Safe.bind (record_misleading ?_) fun _ => notify_safe
  apply misleads_of_announcement "phase=maintenance_deferred " (by decide)
  repeat apply startsWith_append
  decide

theorem performMaintenance_safe {pending : PendingMaintenance} :
    Safe Routine (performMaintenance cfg user pending) := by
  refine (Safe.routine (memory_safe rfl)).bind fun _ => (Safe.routine (memory_safe rfl)).bind fun _ =>
    (Safe.routine (outside_safe rfl)).bind fun _ =>
      (Safe.routine doormanUnfitIssues_safe).bind fun unfit => ?_
  apply Safe.ite
  · intro _
    exact Safe.routine
      (say_safe.bind fun _ => Safe.bind (record_other (by decide)) fun _ => notify_safe)
  · intro _
    exact engageMaintenance_safe

theorem dueMaintenance_safe {pending : PendingMaintenance} :
    Safe Routine (dueMaintenance cfg user pending) := by
  refine (Safe.routine restoring_safe).bind fun r =>
    Safe.ite (fun _ => Safe.routine deferForRestore_safe) fun _ => ?_
  refine (Safe.routine heldByPlayers_safe).bind fun held => ?_
  exact Safe.ite (fun _ => Safe.routine (noteDeferredOnce_safe (by decide))) fun _ =>
    performMaintenance_safe

theorem warnOfMaintenance_safe {t : Instant} : Safe Ordinary (warnOfMaintenance t) := by
  refine Safe.bind (outside_safe rfl) fun threshold => ?_
  split
  · exact Safe.pure
  · exact say_safe

theorem tickMaintenance_safe : Safe Routine (tickMaintenance cfg user) := by
  refine (Safe.routine authorize_safe).bind fun _ =>
    (Safe.routine tickScheduledMaintenance_safe).bind fun _ =>
      (Safe.routine pendingMaintenance_safe).bind fun pending => ?_
  split
  · exact Safe.pure
  · refine (Safe.routine now_safe).bind fun t => ?_
    exact Safe.ite (fun _ => dueMaintenance_safe) fun _ => Safe.routine warnOfMaintenance_safe

end Markers
