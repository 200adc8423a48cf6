import McAdmin.LockedFiles
import McAdmin.NotificationConfig

/-!
# The files of the data directory

`users_store.py`, `credentials_store.py`, `totp_store.py`, `api_tokens.py`, `display_names.py`,
`servers_store.py` and `watched_store.py`, method by method, over `atomic_json.py`.  A method either
reads its file as it finds it, a damaged one as an empty one, or reads it strictly under the lock
and may write it.

A file is its decoded value.  What the methods get from the clock and from `secrets` is an argument
of the call.  A file whose reading fails is damaged to the call, and one that `os.path.exists` cannot
look at is absent to it.
-/

namespace DataFiles

open LockedFiles
open Backtracking (CharTable)
open OpLevelsWorker (Json)
open NotificationConfig (Fields truthy textObject)

inductive Store where
  | users
  | passwords
  | totp
  | apiTokens
  | displayNames
  | servers
  | watched
deriving DecidableEq

inductive Error where
  /-- `CorruptJsonError` -/
  | corrupt (text : String)
  /-- `ValueError` -/
  | value (text : String)
  /-- `TypeError` -/
  | type
  /-- `OverflowError` -/
  | overflow
deriving DecidableEq

structure ApiTokenInfo where
  tokenId : String
  label : String
  role : String
  createdAt : Option ℚ
deriving DecidableEq

structure Config where
  path : Store → String
  u : CharTable
  /-- `str(value)` -/
  str : Json → String
  str_text : ∀ s, str (.str s) = s
  /-- `float(value)`; a float that is no number, or infinite, is `none`. -/
  float : Json → Except Error (Option ℚ)
  float_float : ∀ x, float (.float x) = .ok x
  /-- `hashlib.sha256(raw.encode("utf-8")).hexdigest()` -/
  sha256 : String → String
  /-- `infos.sort(key=lambda info: info.created_at, reverse=True)` -/
  newestFirst : List ApiTokenInfo → List ApiTokenInfo
  newestFirst_finite : ∀ infos, (∀ info ∈ infos, info.createdAt ≠ none) →
    newestFirst infos =
      infos.mergeSort fun a b => decide (b.createdAt.getD 0 ≤ a.createdAt.getD 0)

/-! ### Dictionaries -/

section

variable {β : Type}

/-- `data[key] = value` -/
def put (key : String) (value : β) : List (String × β) → List (String × β)
  | [] => [(key, value)]
  | (key', value') :: data =>
    if key' = key then (key, value) :: data else (key', value') :: put key value data

/-- `data.pop(key, None)` -/
def del (key : String) (data : List (String × β)) : List (String × β) :=
  data.filter fun entry => entry.1 ≠ key

/-- `key in data` -/
def has (key : String) (data : List (String × β)) : Bool := (data.lookup key).isSome

/-- `data.setdefault(key, value)` -/
def setDefault (key : String) (value : β) (data : List (String × β)) : List (String × β) :=
  if has key data then data else data ++ [(key, value)]

end

/-- `data.get(key) or default` -/
def getOr (data : Fields) (key : String) (default : Json) : Json :=
  match data.lookup key with
  | some value => if truthy value then value else default
  | none => default

/-! ### `atomic_json.py` -/

/-- `load_json(path, expected_type=dict, default_factory=dict)` -/
def loadJson : Content Json → Fields
  | .value (.obj data) => data
  | _ => []

/-- `load_json(…, strict=True)` -/
def loadStrict (path : String) : Content Json → Except Error Fields
  | .absent => .ok []
  | .unreadable => .error (.corrupt ("état JSON illisible : " ++ path))
  | .value (.obj data) => .ok data
  | .value _ => .error (.corrupt ("type JSON inattendu : " ++ path))

/-- `schéma JSON inattendu` -/
def unexpectedSchema (path : String) : Error := .corrupt ("schéma JSON inattendu : " ++ path)

structure ServerEntry where
  id : String
  name : String
  mode : String := "docker"
  container : String := ""
  rconHost : String := ""
  rconPort : ℤ := 25575
  logFile : String := ""
  worldDir : String := "world"
  address : String := ""
  mapUrl : String := ""
deriving DecidableEq

inductive Answer where
  | none
  | flag (b : Bool)
  | text (s : Option String)
  | texts (l : List String)
  | accounts (users : List (String × String))
  | created (tokenId raw : String)
  | resolved (info : Option ApiTokenInfo)
  | tokens (l : List ApiTokenInfo)
  | servers (l : List ServerEntry)
deriving DecidableEq

abbrev Outcome := Except Error Answer × Option Json

def answers (a : Answer) : Outcome := (.ok a, .none)

def raises (e : Error) : Outcome := (.error e, .none)

def writes (value : Json) (a : Answer) : Outcome := (.ok a, some value)

/-- The three kinds of methods; the second one may also look whether the file is there, and the third
one only does that. -/
inductive Work where
  | reads (read : Fields → Except Error Answer)
  | edits (edit : Bool → Fields → Outcome)
  | seeds (value : Option Json)

def Work.run (path : String) (work : Work) (sight : Sight) (c : Content Json) : Outcome :=
  match work with
  | .reads read => (read (loadJson (sight.content c)), none)
  | .edits edit =>
    match loadStrict path (sight.content c) with
    | .error e => raises e
    | .ok data => edit (sight.finds c) data
  | .seeds value =>
    match value, sight.finds c with
    | some value, false => writes value (.flag true)
    | _, _ => answers (.flag false)

def Work.locks : Work → Bool
  | .reads _ => false
  | _ => true

def Work.method (store : Store) (path : String) (work : Work) : Method Store Json Error Answer where
  path := store
  locks := work.locks
  run := work.run path
  reads h sight c := by
    cases work with
    | reads read => rfl
    | edits edit => simp [Work.locks] at h
    | seeds value => simp [Work.locks] at h

variable (cfg : Config)

/-! ### `users_store.py` -/

namespace JsonUsers

inductive Call where
  | all
  | add (username role : String)
  | remove (username : String)
  | yamlImportDone
  | legacyRemoved
  | importYamlUsers (entries : List (String × String))
deriving DecidableEq

structure Data where
  users : List (String × String)
  removed : List String
  yamlImportDone : Bool
deriving DecidableEq

def load (data : Fields) : Data :=
  let data := if !has "users" data && !has "removed" data then [("users", .obj data)] else data
  { users := match data.lookup "users" with
      | some (.obj users) => users.map fun entry => (entry.1, cfg.str entry.2)
      | _ => []
    removed := match data.lookup "removed" with
      | some (.arr removed) => removed.map cfg.str
      | _ => []
    yamlImportDone := truthy ((data.lookup "yaml_import_done").getD (.bool false)) }

/-- `_write` -/
def written (data : Data) : Json :=
  .obj [("users", textObject data.users), ("yaml_import_done", .bool data.yamlImportDone)]

def work : Call → Work
  | .all => .reads fun data => .ok (.accounts (load cfg data).users)
  | .add username role => .edits fun _ data =>
    let data := load cfg data
    writes (written { data with users := put username role data.users }) .none
  | .remove username => .edits fun _ data =>
    let data := load cfg data
    if !has username data.users then answers (.flag false)
    else writes (written { data with users := del username data.users }) (.flag true)
  | .yamlImportDone => .reads fun data => .ok (.flag (load cfg data).yamlImportDone)
  | .legacyRemoved => .reads fun data => .ok (.texts (load cfg data).removed)
  | .importYamlUsers entries => .edits fun _ data =>
    let data := load cfg data
    writes (written { data with
      users := entries.foldl (fun users entry => setDefault entry.1 entry.2 users) data.users
      yamlImportDone := true }) .none

end JsonUsers

/-! ### `credentials_store.py` -/

/-- `h if isinstance(h, str) and h else None` -/
def textOf : Option Json → Option String
  | some (.str s) => if s = "" then none else some s
  | _ => none

namespace JsonCredentials

inductive Call where
  | get (username : String)
  | set (username passwordHash : String)
  | remove (username : String)
deriving DecidableEq

def work : Call → Work
  | .get username => .reads fun data => .ok (.text (textOf (data.lookup username)))
  | .set username passwordHash => .edits fun _ data =>
    writes (.obj (put username (.str passwordHash) data)) .none
  | .remove username => .edits fun _ data =>
    if !has username data then answers (.flag false)
    else writes (.obj (del username data)) (.flag true)

end JsonCredentials

/-! ### `totp_store.py` -/

namespace JsonTotp

inductive Call where
  | isEnabled (username : String)
  | hasPending (username : String)
  | secret (username : String)
  | setPending (username secret : String)
  | confirm (username : String)
  | remove (username : String)
deriving DecidableEq

structure Entry where
  secret : String
  confirmed : Bool
deriving DecidableEq

def entry (data : Fields) (username : String) : Option Entry :=
  match data.lookup username with
  | some (.obj entry) =>
    (textOf (entry.lookup "secret")).map fun secret =>
      ⟨secret, truthy ((entry.lookup "confirmed").getD .null)⟩
  | _ => none

def work : Call → Work
  | .isEnabled username => .reads fun data =>
    .ok (.flag ((entry data username).any (·.confirmed)))
  | .hasPending username => .reads fun data =>
    .ok (.flag ((entry data username).any (!·.confirmed)))
  | .secret username => .reads fun data => .ok (.text ((entry data username).map (·.secret)))
  | .setPending username secret => .edits fun _ data =>
    let entry := .obj [("secret", .str secret), ("confirmed", .bool false)]
    writes (.obj (put username entry data)) .none
  | .confirm username => .edits fun _ data =>
    match data.lookup username with
    | some (.obj entry) =>
      if !truthy ((entry.lookup "secret").getD .null) then answers (.flag false)
      else
        let entry := .obj (put "confirmed" (.bool true) entry)
        writes (.obj (put username entry data)) (.flag true)
    | _ => answers (.flag false)
  | .remove username => .edits fun _ data =>
    if !has username data then answers (.flag false)
    else writes (.obj (del username data)) (.flag true)

end JsonTotp

/-! ### `api_tokens.py` -/

namespace ApiTokenStore

inductive Call where
  | create (tokenId raw label role : String) (now : ℚ)
  | resolve (raw : String)
  | list
  | revoke (tokenId : String)
deriving DecidableEq

/-- `" ".join((label or "").split())[:64] or "sans nom"` -/
def cleanLabel (u : CharTable) (label : String) : String :=
  let words := (label.toList.splitOnP u.isSpace).filter (· ≠ [])
  let joined := [' '].intercalate words
  if joined = [] then "sans nom" else .ofList (joined.take 64)

/-- `hmac.compare_digest(a, b)`, which takes text of ASCII only. -/
def compareDigest (a b : String) : Except Error Bool :=
  if (a.toList ++ b.toList).all fun c => c.toNat < 128 then .ok (a = b) else .error .type

def info (tokenId : String) (entry : Fields) : Except Error ApiTokenInfo := do
  let createdAt ← cfg.float (getOr entry "created_at" (.float (some 0)))
  return {
    tokenId := tokenId
    label := cfg.str (getOr entry "label" (.str "sans nom"))
    role := cfg.str (getOr entry "role" (.str ""))
    createdAt := createdAt }

/-- The loop of `resolve`. -/
def resolveIn (wanted : String) : Fields → Except Error (Option ApiTokenInfo)
  | [] => .ok none
  | (tokenId, .obj entry) :: rest =>
    match entry.lookup "token_hash" with
    | some (.str stored) => do
      if ← compareDigest stored wanted then return some (← info cfg tokenId entry)
      else resolveIn wanted rest
    | _ => resolveIn wanted rest
  | _ :: rest => resolveIn wanted rest

/-- The comprehension of `list`. -/
def infosOf : Fields → Except Error (List ApiTokenInfo)
  | [] => .ok []
  | (tokenId, .obj entry) :: rest => do
    let first ← info cfg tokenId entry
    let others ← infosOf rest
    return first :: others
  | _ :: rest => infosOf rest

def newEntry (raw label role : String) (now : ℚ) : Fields :=
  [("label", .str (cleanLabel cfg.u label)), ("role", .str role),
    ("token_hash", .str (cfg.sha256 raw)), ("created_at", .float (some now))]

def work : Call → Work
  | .create tokenId raw label role now => .edits fun _ data =>
    writes (.obj (put tokenId (.obj (newEntry cfg raw label role now)) data)) (.created tokenId raw)
  | .resolve raw => .reads fun data =>
    if raw = "" then .ok (.resolved none)
    else .resolved <$> resolveIn cfg (cfg.sha256 raw) data
  | .list => .reads fun data => (fun infos => .tokens (cfg.newestFirst infos)) <$> infosOf cfg data
  | .revoke tokenId => .edits fun _ data =>
    if !has tokenId data then answers (.flag false)
    else writes (.obj (del tokenId data)) (.flag true)

end ApiTokenStore

/-! ### `display_names.py` -/

namespace JsonDisplayNames

inductive Call where
  | get (username : String)
  | set (username displayName : String)
deriving DecidableEq

def work : Call → Work
  | .get username => .reads fun data => .ok (.text (textOf (data.lookup username)))
  | .set username displayName => .edits fun _ data =>
    if displayName ≠ "" then writes (.obj (put username (.str displayName) data)) .none
    else writes (.obj (del username data)) .none

end JsonDisplayNames

/-! ### `servers_store.py` -/

namespace JsonServers

/-- What `seed_from_env` uses of the settings. -/
structure Settings where
  minecraftContainer : String
  rconHost : String
  rconPort : ℤ
  mcLogFile : String
  worldDir : String
deriving DecidableEq

inductive Call where
  | listServers
  | add (entry : ServerEntry)
  | setAddress (serverId address : String)
  | setMapUrl (serverId mapUrl : String)
  | seedFromEnv (settings : Settings)
deriving DecidableEq

/-- `isinstance(raw.get(key, default), str)`, where the default is a string -/
def isTextOrAbsent : Option Json → Bool
  | none | some (.str _) => true
  | _ => false

/-- `_validate_raw`, which raises where this is false. -/
def validateRaw (raw : Fields) : Bool :=
  (textOf (raw.lookup "id")).isSome &&
  (["name", "mode", "container", "rcon_host", "log_file", "world_dir", "address", "map_url"].all
    fun key => isTextOrAbsent (raw.lookup key)) &&
  match raw.lookup "rcon_port" with
  | none | some (.int _) => true
  | _ => false

/-- `raw.get(key, default)`, of a raw entry that is valid -/
def textIn (raw : Fields) (key default : String) : String :=
  match raw.lookup key with
  | some (.str s) => s
  | _ => default

def toEntry (raw : Fields) : ServerEntry where
  id := textIn raw "id" ""
  name := textIn raw "name" (textIn raw "id" "")
  mode := textIn raw "mode" "docker"
  container := textIn raw "container" ""
  rconHost := textIn raw "rcon_host" ""
  rconPort := match raw.lookup "rcon_port" with
    | some (.int port) => port
    | _ => 25575
  logFile := textIn raw "log_file" ""
  worldDir := textIn raw "world_dir" "world"
  address := textIn raw "address" ""
  mapUrl := textIn raw "map_url" ""

/-- `_load()`: what is not valid is passed over. -/
def load (data : Fields) : List Fields :=
  match (data.lookup "servers").getD (.arr []) with
  | .arr servers => servers.filterMap fun
    | .obj raw => if validateRaw raw then some raw else none
    | _ => none
  | _ => []

/-- The loop of `_load(strict=True)`; `seen` are the identifiers so far. -/
def loadEach : List String → List Json → Option (List Fields)
  | _, [] => some []
  | seen, .obj raw :: rest =>
    if validateRaw raw && !seen.contains (toEntry raw).id then
      (loadEach ((toEntry raw).id :: seen) rest).map (raw :: ·)
    else none
  | _, _ :: _ => none

/-- `_load(strict=True)`, which raises where this is absent. -/
def loadAll (data : Fields) : Option (List Fields) :=
  match (data.lookup "servers").getD (.arr []) with
  | .arr servers => loadEach [] servers
  | _ => none

/-- `_write` -/
def written (servers : List Fields) : Json := .obj [("servers", .arr (servers.map .obj))]

def rawEntry (entry : ServerEntry) : Fields :=
  [("id", .str entry.id), ("name", .str entry.name), ("mode", .str entry.mode),
    ("container", .str entry.container), ("rcon_host", .str entry.rconHost),
    ("rcon_port", .int entry.rconPort), ("log_file", .str entry.logFile),
    ("world_dir", .str entry.worldDir), ("address", .str entry.address),
    ("map_url", .str entry.mapUrl)]

/-- `raw[key] = value`, in the first entry of that identifier. -/
def setIn (serverId key : String) (value : Json) : List Fields → Option (List Fields)
  | [] => none
  | raw :: rest =>
    if (toEntry raw).id = serverId then some (put key value raw :: rest)
    else (setIn serverId key value rest).map (raw :: ·)

def edits (edit : List Fields → Outcome) : Work :=
  .edits fun _ data =>
    match loadAll data with
    | none => raises (unexpectedSchema (cfg.path .servers))
    | some servers => edit servers

def setsField (serverId key value : String) (servers : List Fields) : Outcome :=
  match setIn serverId key (.str value) servers with
  | some servers => writes (written servers) (.flag true)
  | none => answers (.flag false)

def seed (settings : Settings) : ServerEntry where
  id := "principal"
  name := "Serveur principal"
  container := settings.minecraftContainer
  rconHost := settings.rconHost
  rconPort := settings.rconPort
  logFile := settings.mcLogFile
  worldDir := settings.worldDir

def work : Call → Work
  | .listServers => .reads fun data => .ok (.servers ((load data).map toEntry))
  | .add entry => edits cfg fun servers =>
    if servers.any fun raw => (toEntry raw).id = entry.id then
      raises (.value ("serveur déjà enregistré : " ++ entry.id))
    else writes (written (servers ++ [rawEntry entry])) .none
  | .setAddress serverId address => edits cfg (setsField serverId "address" address)
  | .setMapUrl serverId mapUrl => edits cfg (setsField serverId "map_url" mapUrl)
  | .seedFromEnv settings =>
    if settings.minecraftContainer = "" then .seeds none
    else .seeds (some (written [(rawEntry (seed settings)).dropLast]))

end JsonServers

/-! ### `watched_store.py` -/

namespace JsonWatched

inductive Call where
  | all
  | add (name : String)
  | remove (name : String)
  | importFromEnv (names : List String)
deriving DecidableEq

structure Data where
  containers : List String
  envImportDone : Bool
deriving DecidableEq

def load (data : Fields) : Data where
  containers := match data.lookup "containers" with
    | some (.arr containers) => containers.map cfg.str
    | _ => []
  envImportDone := truthy ((data.lookup "env_import_done").getD (.bool false))

def isText : Json → Bool
  | .str _ => true
  | _ => false

/-- The schema that `_load(strict=True)` asks for. -/
def validSchema (data : Fields) : Bool :=
  (match data.lookup "containers" with
    | none | some .null => true
    | some (.arr containers) => containers.all isText
    | _ => false) &&
  match data.lookup "env_import_done" with
  | none | some (.bool _) => true
  | _ => false

/-- `_write` -/
def written (data : Data) : Json :=
  .obj [("containers", .arr (data.containers.map .str)),
    ("env_import_done", .bool data.envImportDone)]

def edits (edit : Bool → Data → Outcome) : Work :=
  .edits fun present data =>
    if validSchema data then edit present (load cfg data)
    else raises (unexpectedSchema (cfg.path .watched))

def work : Call → Work
  | .all => .reads fun data => .ok (.texts (load cfg data).containers)
  | .add name => edits cfg fun _ data =>
    if data.containers.contains name then answers (.flag false)
    else writes (written { data with containers := data.containers ++ [name] }) (.flag true)
  | .remove name => edits cfg fun _ data =>
    if !data.containers.contains name then answers (.flag false)
    else writes (written { data with containers := data.containers.erase name }) (.flag true)
  | .importFromEnv names => edits cfg fun present data =>
    if data.envImportDone then answers (.texts [])
    else
      let imported := names.filter fun n => n ≠ "" && !data.containers.contains n
      if imported = [] && !present then answers (.texts [])
      else writes (written ⟨data.containers ++ imported, true⟩) (.texts imported)

end JsonWatched

/-! ### All of them -/

inductive Call where
  | users (c : JsonUsers.Call)
  | passwords (c : JsonCredentials.Call)
  | totp (c : JsonTotp.Call)
  | apiTokens (c : ApiTokenStore.Call)
  | displayNames (c : JsonDisplayNames.Call)
  | servers (c : JsonServers.Call)
  | watched (c : JsonWatched.Call)
deriving DecidableEq

def Call.store : Call → Store
  | .users _ => .users
  | .passwords _ => .passwords
  | .totp _ => .totp
  | .apiTokens _ => .apiTokens
  | .displayNames _ => .displayNames
  | .servers _ => .servers
  | .watched _ => .watched

def Call.work : Call → Work
  | .users c => JsonUsers.work cfg c
  | .passwords c => JsonCredentials.work c
  | .totp c => JsonTotp.work c
  | .apiTokens c => ApiTokenStore.work cfg c
  | .displayNames c => JsonDisplayNames.work c
  | .servers c => JsonServers.work cfg c
  | .watched c => JsonWatched.work cfg c

def method (c : Call) : Method Store Json Error Answer :=
  (c.work cfg).method c.store (cfg.path c.store)

end DataFiles
