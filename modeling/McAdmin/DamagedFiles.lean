import Mathlib.Data.List.Forall2
import Mathlib.Data.List.ReduceOption
import Mathlib.Data.List.TakeWhile
import McAdmin.PlayerStatsFiles

/-!
# Damaged files

When the page of the players shows all it should: each player whose file of counters has the
format of the server, once, under the right name.  What a damaged file does to the others depends
on where it is damaged.
-/

namespace PlayerStatsFiles

variable {F : Type}

/-! ### What has the format -/

def Json.isNumber : Json F → Bool
  | .int _ => true
  | .float _ => true
  | _ => false

def category (stats : Fields F) (key : String) : Option (Fields F) :=
  match stats.lookup key with
  | none => some []
  | some (.obj fields) => if fields.all fun field => field.2.isNumber then some fields else none
  | some _ => none

structure Counters (F : Type) where
  custom : Fields F
  mined : Fields F
  crafted : Fields F

/-- The counters of a file that has the format of the server. -/
def countersOf : Reading F → Option (Counters F)
  | .json (.obj fields) =>
    match fields.lookup "stats" with
    | none => some ⟨[], [], []⟩
    | some (.obj stats) => do
      let custom ← category stats "minecraft:custom"
      let mined ← category stats "minecraft:mined"
      let crafted ← category stats "minecraft:crafted"
      return ⟨custom, mined, crafted⟩
    | some _ => none
  | _ => none

/-- The entries of `usercache.json`. -/
def cacheEntries : Reading F → List (Json F)
  | .json (.arr items) => items
  | _ => []

def aliasEntries : Option (Reading F) → Fields F
  | some (.json (.obj fields)) =>
    match fields.lookup "aliases" with
    | some (.obj aliases) => aliases
    | _ => []
  | _ => []

/-- The player and the name of a cache entry that is well formed. -/
def cacheEntry : Json F → Option (String × String)
  | .obj fields =>
    match fields.lookup "uuid", fields.lookup "name" with
    | some (.str uuid), some (.str name) =>
      if uuid ≠ "" ∧ name ≠ "" then some (uuid, name) else none
    | _, _ => none
  | _ => none

/-- The player and the name of an alias that is well formed. -/
def aliasEntry (entry : String × Json F) : Option (String × String) :=
  match entry.2 with
  | .str name => if entry.1 ≠ "" ∧ name ≠ "" then some (entry.1, name) else none
  | _ => none

def lastOf {α : Type} (key : String) (pairs : List (String × α)) : Option α :=
  pairs.reverse.lookup key

def nameOf (content : Content F) (uuid : String) : String :=
  ((lastOf uuid ((cacheEntries content.usercache).filterMap cacheEntry)).or
    (lastOf uuid ((aliasEntries content.aliases).filterMap aliasEntry))).getD (truncated uuid)

/-- An entry of one of the two files is for the player and is not well formed. -/
def IllNamed (content : Content F) (uuid : String) : Prop :=
  (∃ fields, .obj fields ∈ cacheEntries content.usercache ∧
      fields.lookup "uuid" = some (.str uuid) ∧ cacheEntry (.obj fields) = none) ∨
    ∃ name, (uuid, name) ∈ aliasEntries content.aliases ∧ aliasEntry (uuid, name) = none

/-! ### What should be shown -/

section

variable (py : Builtins F)

def IsSum (numbers : List (Number F)) (total : Number F) : Prop :=
  ∃ sum, py.sum numbers = some sum ∧ (sum = total ∨ py.equal sum total = true)

def numbersOf (fields : Fields F) : List (Number F) := fields.filterMap fun field => field.2.number?

structure Totals (counters : Counters F) (entry : PlayerStats F) : Prop where
  playTime : (counter counters.custom "minecraft:play_time").number?.bind py.twentieth =
    some entry.playTimeSeconds
  deaths : entry.deaths = counter counters.custom "minecraft:deaths"
  mobKills : entry.mobKills = counter counters.custom "minecraft:mob_kills"
  playerKills : entry.playerKills = counter counters.custom "minecraft:player_kills"
  jumps : entry.jumps = counter counters.custom "minecraft:jump"
  distance : IsSum py
    (numbersOf (counters.custom.filter fun field => endsWith "_one_cm" field.1))
    (.inl entry.distanceCm)
  blocks : IsSum py (numbersOf counters.mined) entry.blocksMined
  items : IsSum py (numbersOf counters.crafted) entry.itemsCrafted

structure Sound (content : Content F) (folder : Folder F) (result : List (PlayerStats F)) :
    Prop where
  /-- A player whose file has the format is listed once, with name and totals. -/
  listed : ∀ file ∈ statsFiles folder, ∀ counters, countersOf file.reading = some counters →
    ∃ entry, (result.filter fun entry => entry.uuid = file.uuid) = [entry] ∧
      entry.player = .str (nameOf content file.uuid) ∧ Totals py counters entry
  /-- What is ill-formed changes no name but that of its own player. -/
  others : ∀ entry ∈ result, ¬ IllNamed content entry.uuid →
    entry.player = .str (nameOf content entry.uuid)

/-- An entry of the cache that ends the loop over it: no object, or one whose player is a list or
an object that is not empty. -/
def stops : Json F → Bool
  | .obj fields =>
    ((fields.lookup "name").getD .null).truthy py &&
      match (fields.lookup "uuid").getD .null with
      | .arr items => !items.isEmpty
      | .obj fields => !fields.isEmpty
      | _ => false
  | _ => true

def walked : Reading F → List (Json F)
  | .json v => (iterate v).toOption.getD []
  | _ => []

def stop (content : Content F) : Option (Json F) := (walked content.usercache).find? (stops py)

/-- The player and the name of an entry that the loop takes. -/
def taken : Json F → Option (String × Json F)
  | .obj fields =>
    match (fields.lookup "uuid").getD .null with
    | .str uuid =>
      if uuid ≠ "" ∧ ((fields.lookup "name").getD .null).truthy py then
        some (uuid, (fields.lookup "name").getD .null)
      else none
    | _ => none
  | _ => none

/-- The player and the name of an alias that is taken, whatever it is. -/
def spelled (entry : String × Json F) : Option (String × String) :=
  if entry.1 ≠ "" ∧ entry.2.truthy py then some (entry.1, text py entry.2) else none

/-- A file of counters that makes nothing raise: where it is looked into there are objects or
nothing, and its numbers are not too large. -/
def Legible (payload : Json F) : Prop :=
  ∃ top, contents py (some payload) = .ok top ∧
  ∃ stats, contents py (top.lookup "stats") = .ok stats ∧
  ∃ custom, contents py (stats.lookup "minecraft:custom") = .ok custom ∧
    ∀ ticks, (counter custom "minecraft:play_time").number? = some ticks →
      py.twentieth ticks ≠ none ∧
      ∃ mined, contents py (stats.lookup "minecraft:mined") = .ok mined ∧
        py.sum (leading (valuesOf mined)) ≠ none ∧
        (allNumbers (valuesOf mined) = true →
          ∃ crafted, contents py (stats.lookup "minecraft:crafted") = .ok crafted ∧
            py.sum (leading (valuesOf crafted)) ≠ none)

def Summable (values : List (Json F)) : Prop :=
  allNumbers values = true ∧ py.sum (leading values) ≠ none

/-- A file of counters that gives an entry: what is divided or added up are numbers. -/
def Shown (payload : Json F) : Prop :=
  ∃ top, contents py (some payload) = .ok top ∧
  ∃ stats, contents py (top.lookup "stats") = .ok stats ∧
  ∃ custom, contents py (stats.lookup "minecraft:custom") = .ok custom ∧
    (counter custom "minecraft:play_time").number?.bind py.twentieth ≠ none ∧
  ∃ mined, contents py (stats.lookup "minecraft:mined") = .ok mined ∧
    Summable py (valuesOf mined) ∧
  ∃ crafted, contents py (stats.lookup "minecraft:crafted") = .ok crafted ∧
    Summable py (valuesOf crafted)

end

/-! ### The names that are read -/

section

variable {py : Builtins F} {content : Content F} {folder : Folder F} {uuid : String}

@[simp] theorem lastOf_nil {α : Type} (key : String) : lastOf key ([] : List (String × α)) = none :=
  rfl

def found (py : Builtins F) (content : Content F) (uuid : String) : Option (Json F) :=
  (if (stop py content).isSome then none
    else lastOf uuid ((walked content.usercache).filterMap (taken py))).or
  ((lastOf uuid ((aliasEntries content.aliases).filterMap (spelled py))).map .str)

end

/-! ### One file -/

def Quiet {α : Type} (result : Except Exc α) : Prop :=
  ∀ exc, result = .error exc → exc = .os ∨ exc = .value ∨ exc = .type_

section

variable {py : Builtins F} {file : File F} {player : Json F} {uuid : String} {α β : Type}
  {first : Except Exc α} {rest : α → Except Exc β}

@[simp] theorem quiet_error {exc : Exc} :
    Quiet (.error exc : Except Exc α) ↔ exc = .os ∨ exc = .value ∨ exc = .type_ := by
  constructor
  · intro h
    exact h exc rfl
  · intro h exc' hexc
    cases hexc
    exact h

@[simp] theorem quiet_ok (a : α) : Quiet (.ok a : Except Exc α) := by
  intro exc hexc
  cases hexc

def given (result : Except Exc (Option α)) : Option α := result.toOption.join

end

/-! ### All statistics -/

section

variable {py : Builtins F} {content : Content F} {folder : Folder F} {names : Names F}
  {file : File F} {entry : PlayerStats F}

def entryOf (py : Builtins F) (names : Names F) (file : File F) :
    Except Exc (Option (PlayerStats F)) :=
  parse py file ((names.lookup file.uuid).getD (.str (truncated file.uuid))) file.uuid

end

/-! ### A cache with an entry that is no object -/

end PlayerStatsFiles
