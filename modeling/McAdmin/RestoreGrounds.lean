import McAdmin.BackupGrounds

/-!
# Restores and their grounds

What is entered of a restore follows its launch, or an attribute in which it was found under way.
-/

namespace Markers

open AdminService Calls McAdmin ServiceCore

variable {cfg : Config} {user : User} {α : Type}

/-! ### The entries -/

theorem restoreDetail_startsWith (phase : String) (fields : List (String × String)) :
    startsWith (restoreDetail cfg phase fields) s!"phase={phase}" = true := by
  have hfold (text : String) (h : startsWith text s!"phase={phase}" = true) :
      startsWith (fields.foldl
        (fun text field => text ++ s!" {field.1}={shownField cfg field.2}") text)
        s!"phase={phase}" = true := by
    induction fields generalizing text with
    | nil => exact h
    | cons field fields ih => exact ih _ (startsWith_append h _)
  apply hfold
  unfold startsWith
  rw [List.isPrefixOf_iff_prefix]

theorem restoreEvent_misleading {phase outcome : String} {fields : List (String × String)}
    (h : (Permission.backupRestore, s!"phase={phase}") ∈ announcements) :
    Safe Ordinary (restoreEvent cfg user phase outcome fields) :=
  record_misleading (misleads_of_announcement _ h (restoreDetail_startsWith phase fields))

theorem restoreEvent_other {phase outcome : String} {fields : List (String × String)}
    (h : outcome ≠ "allowed") : Safe Ordinary (restoreEvent cfg user phase outcome fields) :=
  record_other h

theorem notifyRestore_safe {title message level : String} :
    Safe Ordinary (notifyRestore title message level) := notify_safe

/-! ### The checks -/

theorem portRunning_safe {running : Program Bool} {label : String} (h : Safe Ordinary running) :
    Safe Ordinary (portRunning running label) :=
  Safe.tryCatch h fun _ => refuse_safe

theorem attemptOr_safe {p : Program α} (h : Safe Ordinary p) : Safe Ordinary (attemptOr p) :=
  Safe.tryCatch (h.bind fun _ => Safe.pure) fun _ => Safe.pure

theorem archiveIssues_safe {filename : String} : Safe Ordinary (archiveIssues cfg filename) := by
  have hfound : Safe Ordinary (do
      let archives ← outside .listArchives
      let path ← outside (.archivePath filename)
      return (findArchive filename archives).filter fun _ => path.isSome) :=
    Safe.bind (outside_safe rfl) fun _ => Safe.bind (outside_safe rfl) fun _ => Safe.pure
  have hverdict : Safe Ordinary (do
      let statuses ← outside .archiveStatuses
      let checking ← outside .archiveChecking
      return (statuses.lookup filename, checking)) :=
    Safe.bind (outside_safe rfl) fun _ => Safe.bind (outside_safe rfl) fun _ => Safe.pure
  refine (attemptOr_safe hfound).bind fun found => ?_
  split
  · exact Safe.pure
  · exact Safe.pure
  · apply Safe.ite
    · intro _
      exact Safe.pure
    · intro _
      refine (attemptOr_safe hverdict).bind fun verdict => ?_
      split
      · exact Safe.pure
      · exact Safe.pure

theorem allIssues_safe {checks : List (Program (List String))}
    (h : ∀ check ∈ checks, Safe Ordinary check) : Safe Ordinary (allIssues checks) := by
  induction checks with
  | nil => exact Safe.pure
  | cons check checks ih =>
    refine Safe.bind (h check List.mem_cons_self) fun _ => Safe.bind (ih ?_) fun _ => Safe.pure
    intro check' hmem
    exact h check' (List.mem_cons_of_mem _ hmem)

theorem doormanIssues_safe : Safe Ordinary (doormanIssues cfg) := by
  refine Safe.ite (fun _ => Safe.pure) fun _ =>
    (attempt_safe (outside_safe rfl)).bind fun running => ?_
  split
  · exact Safe.pure
  · exact Safe.pure
  · exact Safe.pure

theorem preflightIssues_safe {filename : String} :
    Safe Ordinary (preflightIssues cfg filename) := by
  apply allIssues_safe
  intro check hcheck
  simp only [List.mem_cons, List.not_mem_nil, or_false] at hcheck
  rcases hcheck with rfl | rfl | rfl | rfl | rfl | rfl | rfl | rfl | rfl | rfl
  · exact Safe.bind (memory_safe rfl) fun _ => Safe.pure
  · exact Safe.ite (fun _ => Safe.pure) fun _ => Safe.bind (outside_safe rfl) fun _ => Safe.pure
  · exact Safe.ite (fun _ => Safe.pure) fun _ =>
      (portRunning_safe (outside_safe rfl)).bind fun _ => Safe.pure
  · exact Safe.pure
  · exact doormanIssues_safe
  · exact Safe.ite (fun _ => Safe.pure) fun _ => Safe.bind (outside_safe rfl) fun _ => Safe.pure
  · exact archiveIssues_safe
  · exact (portRunning_safe (outside_safe rfl)).bind fun _ => Safe.pure
  · exact Safe.ite (fun _ => Safe.pure) fun _ =>
      (portRunning_safe (outside_safe rfl)).bind fun _ => Safe.pure
  · exact Safe.ite (fun _ => outside_safe rfl) fun _ => Safe.pure

/-! ### Accepting a restore -/

theorem forgetOutcome_safe : Safe Ordinary forgetOutcome :=
  Safe.bind (memory_safe rfl) fun _ => Safe.ite (fun _ => memory_safe rfl) fun _ => Safe.pure

theorem startSafety_safe {filename operationId : String} :
    Safe Ordinary (startSafety cfg user filename operationId) := by
  apply Safe.tryCatch
  · refine Safe.bind (outside_safe rfl) fun result => refuseIf_safe.bind fun _ => ?_
    refine now_safe.bind fun _ => Safe.bind (memory_safe rfl) fun _ =>
      Safe.bind (memory_safe rfl) fun _ => ?_
    exact restoreEvent_misleading (by decide)
  · intro e
    exact (restoreEvent_other (by decide)).bind fun _ => notifyRestore_safe.bind fun _ =>
      refuse_safe

theorem acceptRestore_safe {filename : String} :
    Safe Ordinary (acceptRestore cfg user filename) := by
  refine Safe.bind (now_safe.bind fun _ => Safe.pure) fun operationId => ?_
  refine (restoreEvent_misleading (by decide)).bind fun _ => ?_
  refine Safe.bind (outside_safe rfl) fun archives => startSafety_safe.bind fun _ => ?_
  refine now_safe.bind fun t => Safe.bind (outside_safe rfl) fun _ => ?_
  exact (restoreEvent_misleading (by decide)).bind fun _ => notifyRestore_safe

theorem restoreBackup_safe {filename : String} :
    Safe Ordinary (restoreBackup cfg user filename) := by
  refine authorize_safe.bind fun _ => Safe.bind ?_ fun _ => Safe.pure
  refine forgetOutcome_safe.bind fun _ => Safe.bind (outside_safe rfl) fun path => ?_
  apply Safe.ite
  · intro _
    exact (restoreEvent_other (by decide)).bind fun _ => refuse_safe
  · intro _
    refine preflightIssues_safe.bind fun issues => ?_
    apply Safe.ite
    · intro _
      exact acceptRestore_safe
    · intro _
      exact (restoreEvent_other (by decide)).bind fun _ => refuse_safe

theorem dismissActivityResult_safe : Safe Ordinary (dismissActivityResult cfg user) := by
  refine authorize_safe.bind fun _ => Safe.bind (memory_safe rfl) fun result =>
    Safe.bind (memory_safe rfl) fun _ => ?_
  refine Safe.ite (fun _ => Safe.pure) fun _ => Safe.bind (memory_safe rfl) fun operation => ?_
  exact Safe.ite (fun _ => Safe.bind (memory_safe rfl) fun _ => Safe.pure) fun _ => Safe.pure

/-! ### The restore under way -/

def UnderWay (op : RestoreOperation) (past : List MadeCall) : Prop :=
  accessed .restoreOperation (some op) ∈ past ∧ op.over = false

theorem lasting_underWay {op : RestoreOperation} : Lasting (UnderWay op) :=
  fun _ _ h hsubset => ⟨hsubset h.1, h.2⟩

theorem restoreEvent_underWay {op : RestoreOperation} {phase outcome : String}
    {fields : List (String × String)} :
    Triple Ordinary (UnderWay op) (restoreEvent cfg user phase outcome fields)
      fun _ _ => True :=
  record_triple lasting_underWay fun _ => .inr fun _ h => .inr ⟨op, h⟩

theorem finishRestore_safe {phase message : String} (h : phase = "success" ∨ phase = "failed") :
    Safe Ordinary (finishRestore phase message) := by
  refine Safe.bind (memory_safe rfl) fun operation => ?_
  split
  · exact Safe.pure
  · refine now_safe.bind fun t => Safe.bind (memory_ordinary fun past => ⟨.inl ?_, rfl⟩) fun _ =>
      Safe.pure
    rcases h with rfl | rfl
    · rfl
    · rfl

theorem restoreTimeout_safe {op : RestoreOperation} :
    Safe Ordinary (restoreTimeout cfg user op) := by
  apply Safe.ite
  · intro _
    exact (restoreEvent_other (by decide)).bind fun _ => finishRestore_safe (.inr rfl)
  · intro _
    exact (restoreEvent_other (by decide)).bind fun _ =>
      (restoreEvent_other (by decide)).bind fun _ => finishRestore_safe (.inr rfl)

theorem serverBack_safe : Safe Ordinary serverBack := by
  refine (attempt_safe (outside_safe rfl)).bind fun state => ?_
  split
  · exact Safe.pure
  · exact Safe.ite (fun _ => Safe.pure) fun _ =>
      (attempt_safe (outside_safe rfl)).bind fun _ => Safe.pure

theorem awaitMinecraft_triple {op op' : RestoreOperation} :
    Triple Ordinary (UnderWay op') (awaitMinecraft cfg user op) fun _ _ => True := by
  refine serverBack_safe.then lasting_underWay fun state => ?_
  split
  · exact Triple.pure fun _ _ => trivial
  · refine Triple.then restoreEvent_underWay lasting_underWay fun _ => ?_
    refine Triple.bind (restoreEvent_underWay.pre fun _ h => h.1) fun _ => ?_
    exact finishRestore_safe (.inl rfl)

theorem failedRestore_safe {op : RestoreOperation} {fields : List (String × String)} :
    Safe Ordinary (failedRestore cfg user op fields) := restoreEvent_other (by decide)

theorem restoreDone_triple {op : RestoreOperation} {t : Instant} :
    Triple Ordinary (UnderWay op) (restoreDone cfg user op t) fun _ _ => True := by
  refine Triple.then restoreEvent_underWay lasting_underWay fun _ => ?_
  refine Triple.then (restoreEvent_underWay.pre fun _ h => h.1)
    (lasting_underWay.and Lasting.true) fun _ => ?_
  refine Triple.then (J := fun _ _ => True) (memory_triple ?_ fun _ _ _ => trivial)
    ((lasting_underWay.and Lasting.true).and Lasting.true) fun _ => ?_
  · intro past h
    exact ⟨.inr (.inr ⟨op, h.1.1.1, h.1.1.2, rfl⟩), rfl⟩
  · exact awaitMinecraft_triple.pre fun _ h => h.1.1.1

theorem restoreRunning_safe : Safe Ordinary (restoreRunning cfg) :=
  attemptOr_safe (Safe.ite (fun _ => outside_safe rfl) fun _ => Safe.pure)

theorem restoreExit_safe : Safe Ordinary (restoreExit cfg) :=
  attemptOr_safe (Safe.ite (fun _ => outside_safe rfl) fun _ => Safe.pure)

theorem watchWorker_triple {op : RestoreOperation} {t : Instant} :
    Triple Ordinary (UnderWay op) (watchWorker cfg user op t) fun _ _ => True := by
  have hfailed {message : String} : Safe Ordinary (finishRestore "failed" message) :=
    finishRestore_safe (.inr rfl)
  refine restoreRunning_safe.then lasting_underWay fun running => ?_
  split
  · exact Triple.pure fun _ _ => trivial
  · exact (failedRestore_safe.bind fun _ => hfailed).pre fun _ _ => trivial
  · refine restoreExit_safe.then lasting_underWay fun exitCode => ?_
    split
    · exact (failedRestore_safe.bind fun _ => notifyRestore_safe.bind fun _ => hfailed).pre
        fun _ _ => trivial
    · apply Triple.ite
      · intro _
        exact restoreDone_triple
      · intro _
        exact (failedRestore_safe.bind fun _ => notifyRestore_safe.bind fun _ => hfailed).pre
          fun _ _ => trivial

theorem tickRestoreOperation_safe : Safe Ordinary (tickRestoreOperation cfg user) := by
  refine Triple.bind (memory_accessed rfl) fun operation => ?_
  split
  · exact Triple.pure fun _ _ => trivial
  · rename_i op
    refine now_safe.then (Lasting.mem _) fun t => ?_
    apply Triple.ite
    · intro _
      exact Triple.pure fun _ _ => trivial
    · intro hover
      have hunder (past : List MadeCall) (h : accessed .restoreOperation (some op) ∈ past) :
          UnderWay op past := ⟨h, Bool.eq_false_iff.mpr hover⟩
      apply Triple.ite
      · intro _
        exact restoreTimeout_safe.pre fun _ _ => trivial
      · intro _
        apply Triple.ite
        · intro _
          exact watchWorker_triple.pre hunder
        · intro _
          apply Triple.ite
          · intro _
            exact awaitMinecraft_triple.pre hunder
          · intro _
            exact Triple.pure fun _ _ => trivial

/-! ### The pending restore -/

theorem primeDoorman_safe : Safe Ordinary (primeDoorman cfg) :=
  Safe.ite (fun _ => bestEffort_safe (outside_safe rfl)) fun _ => Safe.pure

theorem restoreIdOr_safe {operationId filename : String} :
    Safe Ordinary (restoreIdOr cfg operationId filename) :=
  Safe.ite (fun _ => now_safe.bind fun _ => Safe.pure) fun _ => Safe.pure

theorem lasting_offered : Lasting Offered := by
  rintro past past' ⟨pending, h⟩ hsubset
  exact ⟨pending, hsubset h⟩

theorem startRestoreAfterBackup_triple {pending : PendingRestore} :
    Triple Routine Offered (startRestoreAfterBackup cfg user pending) fun _ _ => True := by
  have hstarted := Lasting.mem (C := Call Port) (A := Answer PortAnswer) (φ := Failure)
    (answered (.startRestore pending.filename) ())
  have hstart : Triple Routine Offered (outside (.startRestore pending.filename))
      fun _ past => answered (.startRestore pending.filename) () ∈ past :=
    Triple.perform (fun _ h => ⟨h, fun h' => by cases h'⟩)
      fun past _ _ => List.mem_append_right past (List.mem_singleton_self _)
  refine (Safe.routine primeDoorman_safe).then lasting_offered fun _ => Triple.bind hstart fun _ => ?_
  apply routine_of_ordinary
  refine now_safe.then hstarted fun t => restoreIdOr_safe.then hstarted fun operationId => ?_
  refine Triple.then (J := fun _ _ => True)
    (memory_triple (fun _ h => ⟨.inr (.inl h), rfl⟩) fun _ _ _ => trivial) hstarted fun _ => ?_
  exact record_triple (hstarted.and Lasting.true) fun _ => .inr fun _ h => .inl ⟨_, h.1⟩

theorem rememberFailure_safe {pending : PendingRestore} {message : String} :
    Safe Ordinary (rememberFailure pending message) :=
  now_safe.bind fun _ => memory_ordinary fun _ => ⟨.inl rfl, rfl⟩

theorem abandon_safe {pending : PendingRestore} {phase title message : String}
    {fields : List (String × String)} :
    Safe Ordinary (abandon cfg user pending phase title message fields) := by
  refine Safe.bind (outside_safe rfl) fun _ => (restoreEvent_other (by decide)).bind fun _ => ?_
  exact rememberFailure_safe.bind fun _ => notifyRestore_safe.bind fun _ => Safe.pure

theorem validate_safe {filename : String} : Safe Ordinary (validate filename) := by
  refine Safe.bind (memory_safe rfl) fun _ =>
    Safe.bind (Safe.tryCatch (outside_safe rfl) fun e => ?_)
    fun check => Safe.bind (memory_safe rfl) fun _ => Safe.pure
  exact Safe.bind (memory_safe rfl) fun _ => Safe.throw

theorem validateNewSafetyArchive_safe {pending : PendingRestore} :
    Safe Ordinary (validateNewSafetyArchive cfg pending) := by
  have hnew : Safe Ordinary (newSafetyArchive pending) :=
    Safe.bind (outside_safe rfl) fun _ => Safe.pure
  have hverdict {check : ArchiveCheck} {current : BackupArchive} :
      Safe Ordinary (refuseVerdict cfg check current) :=
    refuseIf_safe.bind fun _ => refuseIf_safe.bind fun _ => refuseIf_safe.bind fun _ => Safe.pure
  refine hnew.bind fun archive => ?_
  split
  · exact refuse_safe
  · refine refuseIf_safe.bind fun _ => validate_safe.bind fun check => ?_
    refine Safe.bind (outside_safe rfl) fun archives => ?_
    split
    · exact refuse_safe
    · exact hverdict

theorem launchRestore_triple {pending : PendingRestore} {safety : BackupArchive} :
    Triple Routine Offered (launchRestore cfg user pending safety) fun _ _ => True := by
  refine Triple.bind (Triple.tryCatch lasting_offered ?_ fun e => ?_) fun _ =>
    Safe.routine (notifyRestore_safe.bind fun _ => Safe.pure)
  · exact (Safe.routine (restoreEvent_misleading (by decide))).then lasting_offered fun _ =>
      Triple.bind startRestoreAfterBackup_triple fun _ => Safe.routine (outside_safe rfl)
  · refine Triple.pre (Safe.routine ?_) fun _ _ => trivial
    exact Safe.bind (outside_safe rfl) fun _ => (restoreEvent_other (by decide)).bind fun _ =>
      notifyRestore_safe.bind fun _ => Safe.throw

theorem afterSafety_triple {pending : PendingRestore} :
    Triple Routine Offered (afterSafety cfg user pending) fun _ _ => True := by
  have habandon {phase title message : String} {fields : List (String × String)} :
      Triple Routine Offered (abandon cfg user pending phase title message fields) fun _ _ => True :=
    Triple.pre (Safe.routine abandon_safe) fun _ _ => trivial
  refine (Safe.routine (attemptOr_safe validateNewSafetyArchive_safe)).then lasting_offered
    fun safety => ?_
  split
  · exact habandon
  · refine (Safe.routine archiveIssues_safe).then lasting_offered fun issues => ?_
    exact Triple.ite (fun _ => launchRestore_triple) fun _ => habandon

theorem safetyExit_safe : Safe Ordinary safetyExit := by
  refine (attempt_safe (outside_safe rfl)).bind fun running => ?_
  split
  · exact attempt_safe (outside_safe rfl)
  · exact Safe.pure

theorem tickAccepted_triple {pending : PendingRestore} :
    Triple Routine Offered (tickAccepted cfg user pending) fun _ _ => True := by
  have habandon {phase title message : String} {fields : List (String × String)} :
      Triple Routine Offered (abandon cfg user pending phase title message fields) fun _ _ => True :=
    Triple.pre (Safe.routine abandon_safe) fun _ _ => trivial
  refine (Safe.routine now_safe).then lasting_offered fun t => ?_
  refine Triple.ite (fun _ => habandon) fun _ => ?_
  refine (Safe.routine safetyExit_safe).then lasting_offered fun exitCode => ?_
  split
  · exact Triple.pure fun _ _ => trivial
  · exact Triple.ite (fun _ => afterSafety_triple) fun _ => habandon

theorem pendingRestore_triple :
    Triple Ordinary (fun _ => True) (pendingRestore cfg) fun pending past =>
      (cfg.hasPendingRestore = true ∨ pending.isSome = true) →
        answered .getPendingRestore pending ∈ past := by
  apply Triple.ite
  · intro _
    exact (outside_answered rfl).weaken (fun _ h => h) fun _ _ h _ => h
  · intro hno
    refine Triple.pure fun _ _ h => ?_
    rcases h with h | h
    · exact absurd h hno
    · cases h

theorem tickPendingRestore_safe : Safe Routine (tickPendingRestore cfg user) := by
  refine (Safe.routine authorize_safe).bind fun _ => (Safe.routine scanBackupOutcomes_safe).bind
    fun _ => Triple.bind (routine_of_ordinary pendingRestore_triple) fun pending => ?_
  split
  · exact Triple.pre (Safe.routine tickRestoreOperation_safe) fun _ _ => trivial
  · rename_i pending
    exact tickAccepted_triple.pre fun _ h => ⟨pending, h (.inr rfl)⟩

end Markers
