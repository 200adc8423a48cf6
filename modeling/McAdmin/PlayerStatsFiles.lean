import Mathlib.Algebra.Ring.Int.Defs
import Mathlib.Data.List.Sort
import Mathlib.Data.Sum.Basic
import McAdmin.Calendar
import McAdmin.Dict

/-!
# The statistics of the players

`adapters/player_stats.py`.  The server keeps a file of counters for each player and a cache of
names; a third file has names of former times.  Any of the three can hold any value.

Floats are a parameter, with the operations of Python that meet them.
-/

namespace PlayerStatsFiles

open Calendar (Time)

/-! ### Values -/

inductive Json (F : Type) where
  | null
  | bool (b : Bool)
  | int (n : ℤ)
  | float (x : F)
  | str (s : String)
  | arr (items : List (Json F))
  | obj (fields : List (String × Json F))

abbrev Fields (F : Type) := List (String × Json F)

abbrev Number (F : Type) := ℤ ⊕ F

/-- What is built in.  A result is absent where an integer is too large for a float. -/
structure Builtins (F : Type) where
  isZero : F → Bool
  /-- `number / 20` -/
  twentieth : Number F → Option F
  /-- `sum(numbers)` -/
  sum : List (Number F) → Option (Number F)
  sum_ints : ∀ l : List ℤ, sum (l.map .inl) = some (.inl l.sum)
  /-- `==` -/
  equal : Number F → Number F → Bool
  /-- `str(value)`, of a value that is no text -/
  str : Json F → String

inductive Exc where
  | os
  | value
  | recursion
  | type_
  | attribute
  | overflow
deriving DecidableEq

section

variable {F : Type}

/-- A `bool` is an `int`. -/
def Json.int? : Json F → Option ℤ
  | .bool b => some (if b then 1 else 0)
  | .int n => some n
  | _ => none

def Json.number? : Json F → Option (Number F)
  | .float x => some (.inr x)
  | v => v.int?.map .inl

variable (py : Builtins F)

def Json.truthy : Json F → Bool
  | .null => false
  | .bool b => b
  | .int n => n ≠ 0
  | .float x => !py.isZero x
  | .str s => s ≠ ""
  | .arr items => !items.isEmpty
  | .obj fields => !fields.isEmpty

/-- `str(value)` -/
def text : Json F → String
  | .str s => s
  | v => py.str v

end

/-! ### Files -/

/-- What there is to read in a file.  The reader of JSON recurses into what is nested. -/
inductive Reading (F : Type) where
  | missing
  | notJson
  | tooDeep
  | json (v : Json F)

structure File (F : Type) where
  name : String
  lastPlayed : Time
  reading : Reading F

structure Folder (F : Type) where
  files : List (File F)
  nodup : (files.map File.name).Nodup

structure Content (F : Type) where
  /-- `none` if the folder cannot be listed -/
  folder : Option (Folder F)
  usercache : Reading F
  /-- `none` without a file of aliases -/
  aliases : Option (Reading F)

structure PlayerStats (F : Type) where
  player : Json F
  playTimeSeconds : F
  deaths : Json F
  mobKills : Json F
  playerKills : Json F
  distanceCm : ℤ
  jumps : Json F
  blocksMined : Number F
  itemsCrafted : Number F
  uuid : String
  lastPlayed : Time

/-! ### Reading -/

section

variable {F : Type} (py : Builtins F)

/-- `json.load(fh)` -/
def load : Reading F → Except Exc (Json F)
  | .missing => .error .os
  | .notJson => .error .value
  | .tooDeep => .error .recursion
  | .json v => .ok v

/-- `except (OSError, ValueError, TypeError)` -/
def caught {α : Type} (default : α) : Except Exc α → Except Exc α
  | .error .os => .ok default
  | .error .value => .ok default
  | .error .type_ => .ok default
  | result => result

/-- What `.get` or `.values` of `v or {}` finds. -/
def contents : Option (Json F) → Except Exc (Fields F)
  | none => .ok []
  | some (.obj fields) => .ok fields
  | some v => if v.truthy py then .error .attribute else .ok []

def allNumbers (values : List (Json F)) : Bool := values.all fun v => v.number?.isSome

def leading (values : List (Json F)) : List (Number F) :=
  (values.takeWhile fun v => v.number?.isSome).filterMap Json.number?

/-- `sum(values)`: the numbers are added up to the first value that is none. -/
def total (values : List (Json F)) : Except Exc (Number F) :=
  match py.sum (leading values) with
  | none => .error .overflow
  | some sum => if allNumbers values then .ok sum else .error .type_

/-- `custom.get(key, 0)` -/
def counter (custom : Fields F) (key : String) : Json F := (custom.lookup key).getD (.int 0)

/-- `value / 20` -/
def seconds (v : Json F) : Except Exc F :=
  match v.number? with
  | none => .error .type_
  | some n =>
    match py.twentieth n with
    | none => .error .overflow
    | some x => .ok x

def endsWith (suffix name : String) : Bool := suffix.toList.isSuffixOf name.toList

def customSum (counts : Fields F) (suffix : String) : ℤ :=
  ((counts.filter fun field => endsWith suffix field.1).filterMap fun field => field.2.int?).sum

def valuesOf (fields : Fields F) : List (Json F) := fields.map Prod.snd

/-- The `try` of `_parse` -/
def parseFields (file : File F) (player : Json F) (uuid : String) :
    Except Exc (PlayerStats F) := do
  let payload ← load file.reading
  let top ← contents py (some payload)
  let stats ← contents py (top.lookup "stats")
  let custom ← contents py (stats.lookup "minecraft:custom")
  let playTimeSeconds ← seconds py (counter custom "minecraft:play_time")
  let mined ← contents py (stats.lookup "minecraft:mined")
  let blocksMined ← total py (valuesOf mined)
  let crafted ← contents py (stats.lookup "minecraft:crafted")
  let itemsCrafted ← total py (valuesOf crafted)
  return {
    player
    playTimeSeconds
    deaths := counter custom "minecraft:deaths"
    mobKills := counter custom "minecraft:mob_kills"
    playerKills := counter custom "minecraft:player_kills"
    distanceCm := customSum custom "_one_cm"
    jumps := counter custom "minecraft:jump"
    blocksMined
    itemsCrafted
    uuid
    lastPlayed := file.lastPlayed }

def parse (file : File F) (player : Json F) (uuid : String) :
    Except Exc (Option (PlayerStats F)) :=
  caught none ((parseFields py file player uuid).map some)

/-! ### Names -/

abbrev Names (F : Type) := Dict String (Json F)

/-- What a `for` goes through. -/
def iterate : Json F → Except Exc (List (Json F))
  | .arr items => .ok items
  | .obj fields => .ok (fields.map fun field => .str field.1)
  | .str s => .ok (s.toList.map fun c => .str (String.singleton c))
  | _ => .error .type_

/-- `filename[:-5]` -/
def File.uuid (file : File F) : String :=
  String.ofList (file.name.toList.take (file.name.toList.length - 5))

/-- `uuid[:8]` -/
def truncated (uuid : String) : String := String.ofList (uuid.toList.take 8)

/-- `sorted(f for f in os.listdir(...) if f.endswith(".json"))` -/
def statsFiles (folder : Folder F) : List (File F) :=
  (folder.files.filter fun file => endsWith ".json" file.name).insertionSort
    fun file file' => file.name ≤ file'.name

end

end PlayerStatsFiles
