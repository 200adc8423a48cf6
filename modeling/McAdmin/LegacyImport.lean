import Mathlib.Data.List.Infix
import Mathlib.Data.List.Sort
import McAdmin.Dates
import McAdmin.Dict
import McAdmin.IntText

/-!
# The import of old logs

The files of a folder are read in the order of their dates.  A line tells only the time of the
day: the day is that of the file, and one later each time the clock goes back.  What is read opens
and closes sessions; at the end those that are open are closed at the last line of the last file.
-/

namespace LegacyImport

open Backtracking
open Calendar (Date Time)
open IntText (DigitTable)

inductive Error where
  /-- `ValueError`: no such date or time. -/
  | date
  /-- `OverflowError`: the calendar ends. -/
  | overflow
  /-- `UnboundLocalError`: there was no file, and so no `last_seen`. -/
  | unbound
deriving DecidableEq

/-! ### Times -/

abbrev Clock := ℕ ×ₗ ℕ ×ₗ ℕ

def clock (hour minute second : ℕ) : Clock := toLex (hour, toLex (minute, second))

/-- `datetime` in the time zone of the server -/
structure Moment where
  day : Date
  hour : ℕ
  minute : ℕ
  second : ℕ
  valid : hour < 24 ∧ minute < 60 ∧ second < 60
deriving DecidableEq

def Moment.clock (t : Moment) : Clock := LegacyImport.clock t.hour t.minute t.second

/-- Seconds of local time; two times of one zone are compared by them. -/
def Moment.wall (t : Moment) : ℕ :=
  ((t.day.ordinal * 24 + t.hour) * 60 + t.minute) * 60 + t.second

/-- `datetime(day.year, day.month, day.day, *clock)` -/
def Moment.make (day : Date) (c : Clock) : Except Error Moment :=
  if h : (ofLex c).1 < 24 ∧ (ofLex (ofLex c).2).1 < 60 ∧ (ofLex (ofLex c).2).2 < 60 then
    .ok ⟨day, (ofLex c).1, (ofLex (ofLex c).2).1, (ofLex (ofLex c).2).2, h⟩
  else .error .date

/-- `day + timedelta(days=1)` -/
def nextDay (day : Date) : Except Error Date :=
  if h : 1 ≤ day.ordinal + 1 ∧ day.ordinal + 1 ≤ Calendar.maxOrdinal then
    .ok ⟨day.ordinal + 1, h⟩
  else .error .overflow

/-- The local time when something happens, and `moment.astimezone(utc)`. -/
structure Zone where
  localTime : ℤ → Moment
  utc : Moment → Time

/-! ### Lines -/

section

variable (u : DigitTable)

/-- `(\d{2})` -/
def twoDigits : Pattern := .group (.many true u.isDecimal 2 (some 2))

/-- `(.*)` -/
def anyText : Pattern := .group (.many true (· != '\n') 0 none)

/-- `(\S+)` -/
def word : Pattern := .group (.many true (fun c => !u.isSpace c) 1 none)

def lineRe : Pattern :=
  .str "[" ++ twoDigits u ++ .str ":" ++ twoDigits u ++ .str ":" ++ twoDigits u ++
    .str "] [Server thread/INFO]: " ++ anyText ++ .stop

def joinedRe : Pattern := word u ++ .str " joined the game" ++ .stop

def leftRe : Pattern := word u ++ .str " left the game" ++ .stop

def commandRe : Pattern := word u ++ .str " issued server command: " ++ anyText ++ .stop

def bootMarker : Text := "Starting minecraft server".toList

/-- `int`, of decimal digits -/
def int (digits : Text) : ℕ := digits.foldl (fun n c => n * 10 + u.value c) 0

def matchLine (raw : Text) : Option (Clock × Text) :=
  ((lineRe u).atStart (raw.rdropWhile (· == '\n'))).map fun m =>
    (clock (int u (m.group 1)) (int u (m.group 2)) (int u (m.group 3)), m.group 4)

inductive Kind where
  | boot
  | joined (player : Text)
  | left (player : Text)
  | command (player command : Text)
  | other
deriving DecidableEq

def kind (message : Text) : Kind :=
  if bootMarker <:+: message then .boot
  else
    match (joinedRe u).atStart message with
    | some m => .joined (m.group 1)
    | none =>
      match (leftRe u).atStart message with
      | some m => .left (m.group 1)
      | none =>
        match (commandRe u).atStart message with
        | some m => .command (m.group 1) (m.group 2)
        | none => .other

/-! ### Sessions -/

structure Session where
  player : Text
  joinedAt : Text
  leftAt : Text
deriving DecidableEq

structure Command where
  player : Text
  at_ : Text
  command : Text
deriving DecidableEq

structure Read where
  openSessions : Dict Text Moment := ∅
  sessions : List Session := []
  commands : List Command := []

/-- `moment.astimezone(utc).isoformat()` -/
def Zone.text (zone : Zone) (t : Moment) : Text := Calendar.isoformat (zone.utc t)

variable (zone : Zone)

/-- `close`: a session that would end before it begins is dropped. -/
def close (read : Read) (player : Text) (at_ : Moment) : Read :=
  match read.openSessions.lookup player with
  | none => read
  | some started =>
    { read with
      openSessions := read.openSessions.erase player
      sessions :=
        if started.wall ≤ at_.wall then
          read.sessions ++ [⟨player, zone.text started, zone.text at_⟩]
        else read.sessions }

/-- The open sessions are closed, in the order they were opened. -/
def closeAll (read : Read) (at_ : Moment) : Read :=
  read.openSessions.keys.foldl (fun read player => close zone read player at_) read

def handle (read : Read) (moment : Moment) (message : Text) : Read :=
  match kind u message with
  | .boot => closeAll zone read moment
  | .joined player =>
    let read := close zone read player moment
    { read with openSessions := Dict.set read.openSessions player moment }
  | .left player => close zone read player moment
  | .command player command =>
    { read with commands := read.commands ++ [⟨player, zone.text moment, command⟩] }
  | .other => read

/-! ### Files -/

structure Dating where
  day : Date
  previous : Option Clock := none

def Dating.dayAt (dating : Dating) (c : Clock) : Except Error Date :=
  if dating.previous.any (c < ·) then nextDay dating.day else .ok dating.day

def stamp (dating : Dating) (raw : Text) : Except Error (Dating × Option (Moment × Text)) :=
  match matchLine u raw with
  | none => .ok (dating, none)
  | some (clock, message) => do
    let day ← dating.dayAt clock
    let moment ← Moment.make day clock
    return (⟨day, some clock⟩, some (moment, message))

/-- A line, and when it was written, which it does not say. -/
structure Line where
  instant : ℤ
  text : Text
deriving DecidableEq

/-- A path of the folder, the date it was last changed and its lines. -/
structure LogPath where
  name : Text
  modified : Date
  lines : List Line
deriving DecidableEq

def datedLines (dating : Dating) : List Line → Except Error (List (Moment × Text))
  | [] => .ok []
  | line :: lines => do
    let (dating, stamped) ← stamp u dating line.text
    let rest ← datedLines dating lines
    return stamped.toList ++ rest

/-- The loop over the lines of a file, with `last_seen`. -/
def readLines (dating : Dating) (lastSeen : Option Moment) (read : Read) :
    List Line → Except Error (Option Moment × Read)
  | [] => .ok (lastSeen, read)
  | line :: lines => do
    let (dating, stamped) ← stamp u dating line.text
    match stamped with
    | none => readLines dating lastSeen read lines
    | some (moment, message) =>
      readLines dating (some moment) (handle u zone read moment message) lines

structure LogFile where
  date : Date
  seq : ℕ
  path : LogPath
deriving DecidableEq

def filenameRe : Pattern :=
  .group (.many true u.isDecimal 4 (some 4)) ++ .str "-" ++ twoDigits u ++ .str "-" ++
    twoDigits u ++ .str "-" ++ .group (.many true u.isDecimal 1 none) ++ .str ".log.gz" ++ .stop

/-- `date(year, month, day)` -/
def makeDate (year month day : ℕ) : Except Error Date :=
  if h : Calendar.IsDate year month day then
    .ok ⟨Calendar.dayNumber year month day, Calendar.dayNumber_range h⟩
  else .error .date

def fileOf (path : LogPath) : Except Error (Option LogFile) :=
  match (filenameRe u).atStart path.name with
  | some m => do
    let date ← makeDate (int u (m.group 1)) (int u (m.group 2)) (int u (m.group 3))
    return some ⟨date, int u (m.group 4), path⟩
  | none =>
    if path.name = "latest.log".toList then .ok (some ⟨path.modified, 10000, path⟩) else .ok none

def LogFile.key (file : LogFile) : ℕ ×ₗ ℕ ×ₗ Text :=
  toLex (file.date.ordinal, toLex (file.seq, file.path.name))

def orderedFiles (folder : List LogPath) : Except Error (List LogFile) := do
  let found ← folder.mapM (fileOf u)
  return found.reduceOption.insertionSort fun a b => a.key ≤ b.key

/-- The loop over the files: each begins without `last_seen`. -/
def readFiles (lastSeen : Option (Option Moment)) (read : Read) :
    List LogFile → Except Error (Option (Option Moment) × Read)
  | [] => .ok (lastSeen, read)
  | file :: files => do
    let (seen, read) ← readLines u zone ⟨file.date, none⟩ none read file.path.lines
    readFiles (some seen) read files

def parseFolder (folder : List LogPath) : Except Error (List Session × List Command) := do
  let files ← orderedFiles u folder
  let (lastSeen, read) ← readFiles u zone none {} files
  match lastSeen with
  | none => .error .unbound
  | some none => return (read.sessions, read.commands)
  | some (some last) =>
    let read := closeAll zone read last
    return (read.sessions, read.commands)

end

end LegacyImport
