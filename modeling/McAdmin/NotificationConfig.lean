import McAdmin.OpLevelsWorker
import McAdmin.ProfileStore

/-!
# The notification channels

`JsonNotificationConfig` keeps the channels in a file, and reads it strictly before it
writes it.  Each call is made under the lock of the file.  A file is its decoded value.
-/

namespace NotificationConfig

open Backtracking (CharTable)
open OpLevelsWorker (Json)
open ProfileStore (slugify freshSlug)

abbrev Fields := List (String × Json)

/-- `bool(value)` -/
def truthy : Json → Bool
  | .null => false
  | .bool b => b
  | .int n => n ≠ 0
  | .float value => value ≠ some 0
  | .str s => s ≠ ""
  | .arr items => !items.isEmpty
  | .obj fields => !fields.isEmpty

/-! ### Channels -/

inductive ChannelType where
  | discord
  | telegram
deriving DecidableEq

def ChannelType.name : ChannelType → String
  | .discord => "discord"
  | .telegram => "telegram"

/-- `NOTIFICATION_CHANNEL_TYPES` -/
def ChannelType.fields : ChannelType → List String
  | .discord => ["webhook_url"]
  | .telegram => ["bot_token", "chat_id"]

def channelType : Option Json → Option ChannelType
  | some (.str "discord") => some .discord
  | some (.str "telegram") => some .telegram
  | _ => none

def eventKeys : List String :=
  ["player", "new_player", "moderation", "backup", "restart", "update", "app_update", "health",
    "performance", "disk", "restore"]

/-- `EVENT_LEGACY_DEFAULTS.get(key, False)` -/
def eventLegacyDefault (key : String) : Bool := key = "update"

def normEvents (raw : Option Json) : List (String × Bool) :=
  let raw : Fields := match raw with
    | some (.obj fields) => fields
    | _ => []
  eventKeys.map fun k => (k, match raw.lookup k with
    | some value => truthy value
    | none => eventLegacyDefault k)

structure Channel where
  id : String
  type : ChannelType
  label : String
  config : List (String × String)
  events : List (String × Bool)
  enabled : Bool
deriving DecidableEq

def textObject (fields : List (String × String)) : Json := .obj (fields.map fun (k, v) => (k, .str v))

def flagObject (fields : List (String × Bool)) : Json := .obj (fields.map fun (k, b) => (k, .bool b))

def Channel.fields (ch : Channel) : Fields :=
  [("id", .str ch.id), ("type", .str ch.type.name), ("label", .str ch.label),
    ("config", textObject ch.config), ("events", flagObject ch.events), ("enabled", .bool ch.enabled)]

/-- `str(value or "")` of a value that is a string if there is one. -/
def text : Option Json → String
  | some (.str s) => s
  | _ => ""

def orElse (first other : String) : String := if first = "" then other else first

/-- `_norm_channel`, of values that have been found to be of their types. -/
def normChannel (u : CharTable) (raw : Fields) : Option Channel :=
  (channelType (raw.lookup "type")).map fun type =>
    let config : Fields := match raw.lookup "config" with
      | some (.obj fields) => fields
      | _ => []
    let label := orElse (text (raw.lookup "label")) type.name
    { id := orElse (text (raw.lookup "id")) (slugify u label.toList)
      type := type
      label := label
      config := type.fields.map fun k => (k, text (config.lookup k))
      events := normEvents (raw.lookup "events")
      enabled := truthy ((raw.lookup "enabled").getD (.bool true)) }

/-! ### The strict reading -/

inductive Error where
  /-- `CorruptJsonError` -/
  | corrupt (text : String)
  /-- `ValueError`: "type de canal inconnu", with the type. -/
  | unknownType (type : String)
  /-- `TypeError`: a list or a dictionary is looked up in a dictionary. -/
  | unhashable
deriving DecidableEq

def isText : Json → Bool
  | .str _ => true
  | _ => false

def isFlag : Json → Bool
  | .bool _ => true
  | _ => false

/-- `raw.get(key) is None or isinstance(raw.get(key), str)` -/
def isTextOrNone : Option Json → Bool
  | none | some .null | some (.str _) => true
  | _ => false

def validConfig (type : ChannelType) : Json → Bool
  | .obj config => type.fields.all fun field => isText ((config.lookup field).getD (.str ""))
  | _ => false

def validEvents : Json → Bool
  | .obj events => events.all fun event => decide (event.1 ∈ eventKeys) && isFlag event.2
  | _ => false

def validV2Channel (raw : Fields) : Except Error Bool :=
  match raw.lookup "type" with
  | some (.arr _) | some (.obj _) => .error .unhashable
  | ctype => .ok <| match channelType ctype with
    | none => false
    | some type => isTextOrNone (raw.lookup "id") && isTextOrNone (raw.lookup "label") &&
        validConfig type ((raw.lookup "config").getD (.obj [])) &&
        validEvents ((raw.lookup "events").getD (.obj [])) &&
        isFlag ((raw.lookup "enabled").getD (.bool true))

inductive File where
  | absent
  /-- It cannot be opened, or is no JSON. -/
  | unreadable
  | json (value : Json)

structure Data where
  channels : List Channel
  envImportDone : Bool

def ids (channels : List Channel) : List String := channels.map (·.id)

section

variable (u : CharTable) (path : String)

def unexpectedSchema : Error := .corrupt ("schéma JSON inattendu : " ++ path)

def duplicateId : Error := .corrupt ("identifiant de canal dupliqué : " ++ path)

/-- `load_json(path, expected_type=dict, default_factory=dict, strict=True)` -/
def loadJson : File → Except Error Fields
  | .absent => .ok []
  | .unreadable => .error (.corrupt ("état JSON illisible : " ++ path))
  | .json (.obj fields) => .ok fields
  | .json _ => .error (.corrupt ("type JSON inattendu : " ++ path))

/-- `_from_v1`: one dictionary for each channel that is configured. -/
def fromV1 (channels : Fields) (events : Option Json) : List Json :=
  let value := fun key => (channels.lookup key).getD .null
  let events := flagObject (normEvents events)
  (if truthy (value "discord_webhook_url") then
      [.obj [("id", .str "discord-importe"), ("type", .str "discord"),
        ("label", .str "Discord (importé)"),
        ("config", .obj [("webhook_url", value "discord_webhook_url")]),
        ("events", events), ("enabled", .bool true)]]
    else []) ++
  if truthy (value "telegram_bot_token") && truthy (value "telegram_chat_id") then
    [.obj [("id", .str "telegram-importe"), ("type", .str "telegram"),
      ("label", .str "Telegram (importé)"),
      ("config", .obj [("bot_token", value "telegram_bot_token"),
        ("chat_id", value "telegram_chat_id")]),
      ("events", events), ("enabled", .bool true)]]
  else []

/-- The loop of `_load`; `out` is what it has read. -/
def loadChannels : List Channel → List Json → Except Error (List Channel)
  | out, [] => .ok out
  | out, .obj raw :: rest => do
    let valid ← validV2Channel raw
    if !valid then .error (unexpectedSchema path)
    else match normChannel u raw with
      | none => .error (unexpectedSchema path)
      | some ch =>
        if ch.id ∈ ids out then .error (duplicateId path) else loadChannels (out ++ [ch]) rest
  | _, _ :: _ => .error (unexpectedSchema path)

/-- The dictionaries of the channels, those of the older schema as they are migrated. -/
def rawChannels (data : Fields) : Except Error (List Json) :=
  match data.lookup "channels" with
  | some (.obj channels) => .ok (fromV1 channels (data.lookup "events"))
  | none | some .null => .ok []
  | some (.arr items) => .ok items
  | some _ => .error (unexpectedSchema path)

def importDone (data : Fields) : Except Error Bool :=
  match data.lookup "env_import_done" with
  | none => .ok false
  | some (.bool done) => .ok done
  | some _ => .error (unexpectedSchema path)

/-- `_load(strict=True)` -/
def load (file : File) : Except Error Data := do
  let data ← loadJson path file
  let done ← importDone path data
  let raw ← rawChannels path data
  let channels ← loadChannels u path [] raw
  return { channels := channels, envImportDone := done }

/-- `_write` -/
def written (channels : List Json) (envImportDone : Bool) : File :=
  .json (.obj [("version", .int 2), ("channels", .arr channels),
    ("env_import_done", .bool envImportDone)])

def Data.file (data : Data) : File :=
  written (data.channels.map fun ch => .obj ch.fields) data.envImportDone

/-! ### The calls -/

/-- The file that is written, and the identifier of the channel. -/
def addChannel (type label : String) (config : List (String × String)) (events : Fields)
    (enabled : Bool) (file : File) : Except Error (File × String) := do
  let data ← load u path file
  let cid := freshSlug (ids data.channels) (slugify u (orElse label type).toList)
  match normChannel u [("id", .str cid), ("type", .str type), ("label", .str label),
      ("config", textObject config), ("events", .obj events), ("enabled", .bool enabled)] with
  | none => .error (.unknownType type)
  | some ch => return ({ data with channels := data.channels ++ [ch] }.file, cid)

/-- What an update sets; `none` leaves a field alone. -/
structure Update where
  label : Option String := none
  config : Option (List (String × String)) := none
  events : Option Fields := none
  enabled : Option Bool := none

def Update.apply (edit : Update) (ch : Channel) : Channel :=
  { ch with
    label := edit.label.getD ch.label
    config := match edit.config with
      | none => ch.config
      | some config => ch.type.fields.map fun k => (k, (config.lookup k).getD "")
    events := match edit.events with
      | none => ch.events
      | some events => normEvents (some (.obj events))
    enabled := edit.enabled.getD ch.enabled }

def updateIn (channelId : String) (edit : Update) : List Channel → Option (List Channel)
  | [] => none
  | ch :: channels =>
    if ch.id = channelId then some (edit.apply ch :: channels)
    else (updateIn channelId edit channels).map (ch :: ·)

def updateChannel (channelId : String) (edit : Update) (file : File) :
    Except Error (Option File) := do
  let data ← load u path file
  return (updateIn channelId edit data.channels).map fun channels =>
    { data with channels := channels }.file

def removeChannel (channelId : String) (file : File) : Except Error (Option File) := do
  let data ← load u path file
  let kept := data.channels.filter (·.id ≠ channelId)
  if kept.length = data.channels.length then return none
  else return some { data with channels := kept }.file

def textFields (channels : List (String × String)) : Fields := channels.map fun (k, v) => (k, .str v)

def importFromEnv (channels : List (String × String)) (events : Fields) (file : File) :
    Except Error (Option File) := do
  let data ← load u path file
  if data.envImportDone then return none
  else
    let hasContent := channels.any (fun entry => entry.2 ≠ "") || events.any (truthy ·.2)
    match hasContent, file with
    | false, .absent => return none
    | _, _ =>
      return some (written ((data.channels.map fun ch => .obj ch.fields) ++
        fromV1 (textFields channels) (some (.obj events))) true)

end

end NotificationConfig
