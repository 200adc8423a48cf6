import Mathlib.Tactic.TypeStar

/-!
# Accounts and what their roles allow
-/

namespace McAdmin

inductive Permission where
  | status | logsView | restart | start | backupTrigger | backupDownload | backupRestore
  | backupRetention | rconRaw | opManage | stop | update | auditView | whitelistManage | kick
  | banManage | gameSettings | backupManage | serverManage | userManage | maintenance
deriving DecidableEq, Repr

def Permission.value : Permission → String
  | status => "STATUS"
  | logsView => "LOGS_VIEW"
  | restart => "RESTART"
  | start => "START"
  | backupTrigger => "BACKUP_TRIGGER"
  | backupDownload => "BACKUP_DOWNLOAD"
  | backupRestore => "BACKUP_RESTORE"
  | backupRetention => "BACKUP_RETENTION"
  | rconRaw => "RCON_RAW"
  | opManage => "OP_MANAGE"
  | stop => "STOP"
  | update => "UPDATE"
  | auditView => "AUDIT_VIEW"
  | whitelistManage => "WHITELIST_MANAGE"
  | kick => "KICK"
  | banManage => "BAN_MANAGE"
  | gameSettings => "GAME_SETTINGS"
  | backupManage => "BACKUP_MANAGE"
  | serverManage => "SERVER_MANAGE"
  | userManage => "USER_MANAGE"
  | maintenance => "MAINTENANCE"

structure Role where
  name : String
  permissions : List Permission
  /-- The role was given the wildcard. -/
  grantsAll : Bool := false
deriving DecidableEq, Repr

def Role.allows (role : Role) (permission : Permission) : Bool :=
  role.grantsAll || permission ∈ role.permissions

structure User where
  username : String
  role : Role
deriving DecidableEq, Repr

def User.can (user : User) (permission : Permission) : Bool := user.role.allows permission

end McAdmin
