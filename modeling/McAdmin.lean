import McAdmin.RestoreSafety
import McAdmin.OpLevelsSafety
import McAdmin.TempBans
import McAdmin.PlayerWatcher
import McAdmin.BackupInstructions
import McAdmin.UpdateOutcome
import McAdmin.LoginLimiterBound
import McAdmin.RecurringRestart
import McAdmin.ScheduledMaintenance
import McAdmin.CancelledOperations
import McAdmin.RestoreGate
import McAdmin.BackupRetention
import McAdmin.RestoreMaintenance
import McAdmin.BackupOutcomes
import McAdmin.RestoreOwnership
import McAdmin.OpLevelsOwnership
import McAdmin.Reopening
import McAdmin.FailClosed
import McAdmin.MaintenanceOnce
import McAdmin.NewestWins
import McAdmin.WithdrawnOpLevels
import McAdmin.RefusedRestores
import McAdmin.ProfileEdits
import McAdmin.LogTail
import McAdmin.StoppedWrites
import McAdmin.ClientIp
import McAdmin.LoginAttempts
import McAdmin.FirstSetup
import McAdmin.AccountManagement
import McAdmin.TwoFactor
import McAdmin.CredentialChange
import McAdmin.DenyByDefault
import McAdmin.RetentionConfluence
import McAdmin.RestoreUndo
import McAdmin.ExtractionConfinement
import McAdmin.RestoreTarget
import McAdmin.NotificationClosure
import McAdmin.IncidentBookkeeping
import McAdmin.VerifierProgress
import McAdmin.DetailRecovery
import McAdmin.JournalDurability
import McAdmin.RetentionPlan
import McAdmin.ReadinessWait
import McAdmin.CountdownWarnings
import McAdmin.Timeline
import McAdmin.FileLog
import McAdmin.ProfileTick
import McAdmin.OpLevelsApplication
import McAdmin.DeletionPerimeter
import McAdmin.DeathPatterns
import McAdmin.DeathMessages
import McAdmin.AuditRows
import McAdmin.Procedures
import McAdmin.Sockets
import McAdmin.PackedInts
import McAdmin.Utf8Cuts
import McAdmin.Rcon
import McAdmin.RconFragments
import McAdmin.Varints
import McAdmin.DoormanServer
import McAdmin.DoormanConversation
import McAdmin.DoormanCodec
import McAdmin.Base32
import McAdmin.TotpWindow
import McAdmin.Binary64
import McAdmin.Dates
import McAdmin.SessionTable
import McAdmin.PlayerSummaries
import McAdmin.StorageForecast
import McAdmin.LegacyImport
import McAdmin.LegacyDating
import McAdmin.LegacySessions
import McAdmin.LegacyFolder
import McAdmin.Urls
import McAdmin.Urllib
import McAdmin.MapRelay
import McAdmin.LastItems
import McAdmin.RequestedLevels
import McAdmin.PerformanceWindow
import McAdmin.StoredTimes
import McAdmin.PlayerStatsFiles
import McAdmin.DamagedFiles
import McAdmin.LegacyInsertion
import McAdmin.UniqueRows
import McAdmin.GameEventImport
import McAdmin.GameEventReplay
import McAdmin.Substitution
import McAdmin.Brackets
import McAdmin.ReleaseNotes
import McAdmin.ReleaseMarks
import McAdmin.SafeHtml
import McAdmin.SafeNotes
import McAdmin.CallRules
import McAdmin.AdminService
import McAdmin.Markers
import McAdmin.MarkerGrounds
import McAdmin.OperationGrounds
import McAdmin.BackupGrounds
import McAdmin.RestoreGrounds
import McAdmin.UpdateTally
import McAdmin.MarkerTruth
import McAdmin.MarkerCounts
import McAdmin.DataDirectory
import McAdmin.ApiAccess
