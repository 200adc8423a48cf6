import McAdmin.OperationGrounds

/-!
# Backups, restores and their grounds

The outcome of a backup is entered once an archive of it is found, and what is entered of a restore
follows its launch.
-/

namespace Markers

open AdminService Calls McAdmin ServiceCore

variable {cfg : Config} {user : User}

/-! ### Backups -/

theorem record_backup_safe {outcome detail : String}
    (h : startsWith detail "phase=backup_done " = false) :
    Safe Ordinary (AdminService.record cfg user .backupTrigger outcome detail) := by
  apply record_safe
  intro _
  cases hcontains : contains detail "phase=backup_done" with
  | false => exact .inr fun _ => .inl hcontains
  | true =>
    left
    intro entry houtcome haction hdetail
    simp [misleads, misleadsBackup, houtcome, haction, hdetail, hcontains, h]

theorem getProfile_safe {id : String} : Safe Ordinary (getProfile cfg id) :=
  Safe.ite (fun _ => outside_safe rfl) fun _ => Safe.pure

theorem isNewCycle_safe {result : BackupResult} {id : String} :
    Safe Ordinary (isNewCycle result id) :=
  Safe.ite (fun _ => Safe.pure) fun _ => Safe.bind (memory_safe rfl) fun _ => Safe.pure

theorem rememberCycle_safe {id : String} : Safe Ordinary (rememberCycle cfg id) :=
  now_safe.bind fun _ => Safe.bind (memory_safe rfl) fun _ => Safe.bind (memory_safe rfl) fun _ =>
    Safe.bind (memory_safe rfl) fun _ => Safe.bind (memory_safe rfl) fun _ => memory_safe rfl

theorem startProfileBackup_safe {profile : BackupProfile} :
    Safe Ordinary (startProfileBackup cfg user profile) := by
  apply Safe.tryCatch (outside_safe rfl)
  intro e
  exact Safe.bind (record_other (by decide)) fun _ => notify_safe.bind fun _ => Safe.throw

theorem backUp_safe {profile : BackupProfile} : Safe Ordinary (backUp cfg user profile) := by
  refine startProfileBackup_safe.bind fun result => isNewCycle_safe.bind fun fresh => ?_
  refine Safe.bind (Safe.ite (fun _ => rememberCycle_safe) fun _ => Safe.pure) fun _ => ?_
  refine Safe.bind (memory_safe rfl) fun id => Safe.bind (record_backup_safe ?_) fun _ => Safe.pure
  apply not_startsWith "phase=backup_started kind=" _ (by decide)
  repeat apply startsWith_append
  decide

theorem triggerLocked_safe {id : String} : Safe Ordinary (triggerLocked cfg user id) := by
  have hrestore : Safe Ordinary (refuseDuringRestore cfg) :=
    restoreInProgress_safe.bind fun _ => refuseIf_safe
  have hsafety : Safe Ordinary refuseDuringSafety := by
    refine Safe.bind (Safe.tryCatch (outside_safe rfl) fun e => ?_) fun _ => refuseIf_safe
    exact Safe.ite (fun _ => Safe.throw) fun _ => refuse_safe
  have hunfit : Safe Ordinary (refuseUnfitBackup cfg) :=
    Safe.ite (fun _ => Safe.pure) fun _ => Safe.bind (outside_safe rfl) fun _ => refuseIf_safe
  refine hrestore.bind fun _ => hsafety.bind fun _ => getProfile_safe.bind fun profile => ?_
  split
  · exact refuse_safe
  · exact hunfit.bind fun _ => backUp_safe

theorem triggerProfileBackup_safe {id : String} :
    Safe Ordinary (triggerProfileBackup cfg user id) :=
  authorize_safe.bind fun _ => triggerLocked_safe

theorem profileDue_safe {profile : BackupProfile} {t : Instant} :
    Safe Ordinary (profileDue cfg profile t) := by
  unfold profileDue
  split
  · refine Safe.ite (fun _ => Safe.pure) fun _ => ?_
    split
    · exact refuse_safe
    · exact Safe.pure
  · refine Safe.ite (fun _ => Safe.pure) fun _ => ?_
    split
    · exact Safe.bind (outside_safe rfl) fun _ => Safe.pure
    · exact Safe.pure

theorem visitProfile_safe {t : Instant} {profile : BackupProfile} :
    Safe Ordinary (visitProfile cfg user t profile) := by
  refine Safe.ite (fun _ => Safe.pure) fun _ => profileDue_safe.bind fun due => ?_
  refine Safe.ite (fun _ => Safe.pure) fun _ => Safe.bind (outside_safe rfl) fun _ => ?_
  exact (attempt_safe triggerLocked_safe).bind fun _ => Safe.pure

theorem visitProfiles_safe {t : Instant} (profiles : List BackupProfile) :
    Safe Ordinary (visitProfiles cfg user t profiles) := by
  induction profiles with
  | nil => exact Safe.pure
  | cons profile profiles ih => exact visitProfile_safe.bind fun _ => ih

theorem tickBackupProfiles_safe : Safe Ordinary (tickBackupProfiles cfg user) := by
  refine authorize_safe.bind fun _ => Safe.ite (fun _ => Safe.pure) fun _ => ?_
  refine restoreInProgress_safe.bind fun r => Safe.ite (fun _ => Safe.pure) fun _ => ?_
  refine (attempt_safe (outside_safe rfl)).bind fun running => ?_
  split
  · exact now_safe.bind fun t => Safe.bind (outside_safe rfl) fun profiles =>
      visitProfiles_safe profiles
  · exact Safe.pure

theorem retentionPlan_safe {dailyDays monthlyMonths : ℤ} {folder : String} :
    Safe Ordinary (retentionPlan cfg user dailyDays monthlyMonths folder) :=
  authorize_safe.bind fun _ => now_safe.bind fun _ => Safe.bind (outside_safe rfl) fun _ =>
    Safe.pure

theorem deleteAll_safe (archives : List RestoreGate.BackupArchive) :
    Safe Ordinary (deleteAll archives) := by
  induction archives with
  | nil => exact Safe.pure
  | cons archive archives ih =>
    exact Safe.bind (outside_safe rfl) fun _ => ih.bind fun _ => Safe.pure

theorem applyBackupRetention_safe {dailyDays monthlyMonths : ℤ} {folder : String} :
    Safe Ordinary (applyBackupRetention cfg user dailyDays monthlyMonths folder) := by
  refine retentionPlan_safe.bind fun plan => (deleteAll_safe plan).bind fun done => ?_
  exact Safe.bind (record_safe fun _ => .inr fun _ => trivial) fun _ => Safe.pure

theorem autoRetention_safe {kind operationId : String} :
    Safe Ordinary (autoRetention cfg kind operationId) := by
  refine getProfile_safe.bind fun profile => ?_
  split
  · exact Safe.pure
  · refine Safe.ite (fun _ => Safe.pure) fun _ => Safe.ite (fun _ => Safe.pure) fun _ => ?_
    refine bestEffort_safe (retentionPlan_safe.bind fun plan => (deleteAll_safe plan).bind
      fun done => Safe.ite (fun _ => Safe.pure) fun _ => record_backup_safe ?_)
    apply not_startsWith "phase=retention_applied kind=" _ (by decide)
    repeat apply startsWith_append
    decide

/-! ### Their outcomes -/

theorem lasting_backedUp : Lasting BackedUp := by
  rintro past past' ⟨profiles, hprofiles, profile, hprofile, startedAt, hstarted, archives,
    harchives, harchive⟩ hsubset
  exact ⟨profiles, hsubset hprofiles, profile, hprofile, startedAt, hsubset hstarted, archives,
    hsubset harchives, harchive⟩

theorem reportBackup_safe {kind label operationId : String} {archive : Option BackupArchive} :
    Triple Ordinary (fun past => archive.isSome = true → BackedUp past)
      (reportBackup cfg kind label operationId archive) fun _ _ => True := by
  cases archive with
  | some archive =>
    have hlasting : Lasting fun past => (some archive).isSome = true → BackedUp past :=
      fun past past' h hsubset hsome => lasting_backedUp past past' (h hsome) hsubset
    refine Triple.bind (record_triple hlasting fun _ => .inr fun past h => .inr (h rfl)) fun _ => ?_
    exact notify_safe.bind fun _ => autoRetention_safe
  | none =>
    exact (Safe.bind (record_other (by decide)) fun _ => notify_safe).pre fun _ _ => trivial

def Listed (profile : BackupProfile) (past : List MadeCall) : Prop :=
  ∃ profiles, answered .listProfiles profiles ∈ past ∧ profile ∈ profiles

theorem lasting_listed {profile : BackupProfile} : Lasting (Listed profile) := by
  rintro past past' ⟨profiles, hlisted, hprofile⟩ hsubset
  exact ⟨profiles, hsubset hlisted, hprofile⟩

theorem newest_mem {archives : List BackupArchive} {archive : BackupArchive}
    (h : newest archives = some archive) : archive ∈ archives := List.argmax_mem h

theorem finalizeBackup_safe {profile : BackupProfile} {label : String} :
    Triple Ordinary (Listed profile)
      (finalizeBackup cfg profile.id s!"{profile.dest}/" label) fun _ _ => True := by
  refine Triple.then (memory_accessed rfl) lasting_listed fun startedAt => ?_
  split
  · exact Triple.pure fun _ _ => trivial
  · rename_i startedAt
    have hlisted : Lasting fun past => Listed profile past ∧
        accessed (.popStartedAt profile.id) (some startedAt) ∈ past :=
      lasting_listed.and (Lasting.mem _)
    refine Safe.then (memory_safe rfl) hlisted fun _ =>
      Triple.then (outside_answered (p := .listArchives) rfl) hlisted fun archives => ?_
    have hknown := hlisted.and (Lasting.mem (answered .listArchives archives))
    refine Safe.then (memory_safe rfl) hknown fun operationId => Safe.then now_safe hknown fun t =>
      Safe.then (memory_safe rfl) hknown fun _ => ?_
    refine reportBackup_safe.pre ?_
    rintro past ⟨⟨⟨profiles, hprofiles, hprofile⟩, hstarted⟩, harchives⟩ hsome
    obtain ⟨archive, harchive⟩ := Option.isSome_iff_exists.mp hsome
    exact ⟨profiles, hprofiles, profile, hprofile, startedAt, hstarted, archives, harchives,
      archive, newest_mem harchive⟩

def Watches (watched : Watched) (past : List MadeCall) : Prop :=
  watched.kind = "safety" ∨ ∃ profile, Listed profile past ∧ watched.kind = profile.id ∧
    watched.folder = s!"{profile.dest}/"

theorem lasting_watches {watched : Watched} : Lasting (Watches watched) := by
  rintro past past' (h | ⟨profile, hlisted, hwatched⟩) hsubset
  · exact .inl h
  · exact .inr ⟨profile, lasting_listed past past' hlisted hsubset, hwatched⟩

theorem forgetSafety_safe : Safe Ordinary forgetSafety :=
  Safe.bind (memory_safe rfl) fun _ => Safe.bind (memory_safe rfl) fun _ =>
    Safe.bind (memory_safe rfl) fun _ =>
    Safe.pure

theorem finalizeWatched_safe {watched : Watched} (hkind : watched.kind ≠ "safety") :
    Triple Ordinary (Watches watched)
      (finalizeBackup cfg watched.kind watched.folder watched.label) fun _ _ => True := by
  rintro past (h | ⟨profile, hlisted, hid, hfolder⟩)
  · exact absurd h hkind
  · rw [hid, hfolder]
    exact finalizeBackup_safe past hlisted

theorem scanOne_safe {watched : Watched} :
    Triple Ordinary (Watches watched) (scanOne cfg watched) fun _ _ => True := by
  refine Safe.then (memory_safe rfl) lasting_watches fun startedAt => ?_
  apply Triple.ite
  · intro _
    exact Triple.pure fun _ _ => trivial
  · intro _
    refine Safe.then (attempt_safe (Safe.ite (fun _ => outside_safe rfl) fun _ => outside_safe rfl))
      lasting_watches fun running => ?_
    split
    · apply Triple.ite
      · intro _
        exact forgetSafety_safe.pre fun _ _ => trivial
      · intro hkind
        exact finalizeWatched_safe hkind
    · exact Triple.pure fun _ _ => trivial

theorem scanAll_safe (list : List Watched) :
    Triple Ordinary (fun past => ∀ watched ∈ list, Watches watched past) (scanAll cfg list)
      fun _ _ => True := by
  induction list with
  | nil => exact Triple.pure fun _ _ => trivial
  | cons watched rest ih =>
    have hrest : Lasting fun past => ∀ watched ∈ rest, Watches watched past :=
      fun past past' h hsubset watched hmem => lasting_watches past past' (h watched hmem) hsubset
    have hone : Triple Ordinary (fun past => ∀ watched ∈ rest, Watches watched past)
        (scanAll cfg rest) fun _ _ => True := ih
    intro past hpast
    have hfirst : Triple Ordinary
        (fun past => Watches watched past ∧ ∀ watched ∈ rest, Watches watched past)
        (scanOne cfg watched) fun _ _ => True := scanOne_safe.pre fun _ h => h.1
    refine Triple.then hfirst (lasting_watches.and hrest) (fun _ => hone.pre fun _ h => h.1.2)
      past ⟨hpast watched List.mem_cons_self, fun w hw => hpast w (List.mem_cons_of_mem _ hw)⟩

theorem profiles_triple {H : List MadeCall → Prop} :
    Triple Ordinary H (profiles cfg) fun listed past =>
      ∀ profile ∈ listed, Listed profile past := by
  apply Triple.ite
  · intro _
    exact Triple.weaken (outside_answered (p := .listProfiles) rfl) (fun _ h => h)
      fun listed _ h profile hprofile => ⟨listed, h, hprofile⟩
  · intro _
    exact Triple.pure fun _ _ profile hprofile => absurd hprofile List.not_mem_nil

theorem scanBackupOutcomes_safe : Safe Ordinary (scanBackupOutcomes cfg) := by
  refine Triple.bind profiles_triple fun listed => (scanAll_safe _).pre ?_
  intro past hlisted watched hwatched
  rcases List.mem_cons.mp hwatched with rfl | hwatched
  · exact .inl rfl
  · obtain ⟨profile, hprofile, rfl⟩ := List.mem_map.mp hwatched
    exact .inr ⟨profile, hlisted profile hprofile, rfl, rfl⟩

theorem estimate_safe {kind : String} {current baseline : BackupArchive} :
    Safe Ordinary (estimate kind current baseline) :=
  Safe.bind (memory_safe rfl) fun _ => Safe.bind (memory_safe rfl) fun _ => Safe.pure

theorem backupProgressFor_safe {kind folder label : String} {running : Program Bool}
    (h : Safe Ordinary running) :
    Safe Ordinary (backupProgressFor kind folder label running) := by
  refine (attempt_safe h).bind fun running => ?_
  split
  · refine Safe.bind (memory_safe rfl) fun startedAt =>
      Safe.bind (outside_safe rfl) fun archives => ?_
    dsimp only
    split
    · exact estimate_safe.bind fun _ => Safe.pure
    · exact Safe.pure
  · exact Safe.pure

theorem progressOf_safe (profiles : List BackupProfile) :
    Safe Ordinary (progressOf profiles) := by
  induction profiles with
  | nil => exact Safe.pure
  | cons profile profiles ih =>
    refine Safe.bind (memory_safe rfl) fun startedAt => Safe.ite (fun _ => ih) fun _ => ?_
    refine (backupProgressFor_safe (outside_safe rfl)).bind fun progress => ?_
    split
    · exact Safe.pure
    · exact ih

theorem backupProgress_safe : Safe Ordinary (backupProgress cfg user) := by
  refine authorize_safe.bind fun _ => Safe.bind profiles_triple.safe fun listed =>
    (progressOf_safe listed).bind fun progress => ?_
  have hscan (found : Option BackupProgress) : Safe Ordinary
      (do scanBackupOutcomes cfg; return found) :=
    scanBackupOutcomes_safe.bind fun _ => Safe.pure
  split
  · exact Safe.pure.bind hscan
  · exact (backupProgressFor_safe (outside_safe rfl)).bind hscan

end Markers
