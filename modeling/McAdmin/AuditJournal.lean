import Mathlib.Data.Char
import Mathlib.Data.List.DropRight
import Mathlib.Data.List.Lex
import McAdmin.Calendar
import McAdmin.Dict
import McAdmin.JsonText
import McAdmin.Utf8

/-!
# The journal of the audit

An entry is a line of JSON at the end of the file of its month.  What is shown is read from the
newest file back, as many lines as are asked for, and a line that cannot be read is left out.
-/

namespace AuditJournal

open Calendar (Time Month isoformat fromisoformat)
open JsonText PlainText

/-- `AuditEntry`, where the fields of what was read are what the JSON says. -/
structure AuditEntry (τ : Type) where
  timestamp : Time
  username : τ
  role : τ
  action : τ
  target : τ
  outcome : τ
  detail : τ
deriving DecidableEq

abbrev Entry := AuditEntry Text

def AuditEntry.asRead (e : Entry) : AuditEntry Json :=
  ⟨e.timestamp, .text e.username, .text e.role, .text e.action, .text e.target, .text e.outcome,
    .text e.detail⟩

/-! ### Files -/

abbrev Bytes := List UInt8

structure Files where
  month : Month
  monthly : Dict Text Bytes
  legacy : Option Bytes

inductive Path where
  | monthly (name : Text)
  | legacy

namespace Files

def content (s : Files) : Path → Option Bytes
  | .monthly name => s.monthly.lookup name
  | .legacy => s.legacy

/-- `_read_paths`, the newest first -/
def readPaths (s : Files) : List Path :=
  (s.monthly.keys.mergeSort fun name name' => name' ≤ name).map .monthly ++
    if s.legacy.isSome then [.legacy] else []

end Files

/-! ### Writing -/

/-- What `record` writes of an entry. -/
def payload (e : Entry) : List (Text × Text) :=
  [("timestamp".toList, isoformat e.timestamp), ("username".toList, e.username),
    ("role".toList, e.role), ("action".toList, e.action), ("target".toList, e.target),
    ("outcome".toList, e.outcome), ("detail".toList, e.detail)]

def line (e : Entry) : Text := dumps (payload e) ++ ['\n']

/-- The file of the month, which is there once it has been opened. -/
def Files.current (s : Files) : Bytes := (s.monthly.lookup s.month.name).getD []

/-- `record`, of which so many bytes reach the file: all of them, unless the process is killed. -/
def Files.record (s : Files) (e : Entry) (kept : ℕ) : Files :=
  { s with monthly := s.monthly.set s.month.name (s.current ++ (encode (line e)).take kept) }

/-! ### Reading -/

/-- The lines of a text file without their ends, after the start of one. -/
def linesFrom (begun : Text) : Text → List Text
  | [] => if begun = [] then [] else [begun]
  | '\r' :: '\n' :: text => begun :: linesFrom [] text
  | c :: text =>
    if c = '\n' ∨ c = '\r' then begun :: linesFrom [] text else linesFrom (begun ++ [c]) text

/-- `tail[-missing:]` -/
def slice (missing : ℕ) (tail : List Text) : List Text :=
  if missing = 0 then tail else tail.rtake missing

/-- The last lines, from the newest file back; `none` where a file is not UTF-8. -/
def Files.collect (s : Files) (limit : ℕ) : List Path → List Text → Option (List Text)
  | [], collected => some collected
  | path :: paths, collected =>
    match s.content path with
    | none => s.collect limit paths collected
    | some bytes =>
      match decode bytes with
      | none => none
      | some text =>
        let tail := (linesFrom [] text).rtake limit
        let collected := slice (limit - collected.length) tail ++ collected
        if limit ≤ collected.length then some collected else s.collect limit paths collected

def timeOf : Json → Option Time
  | .text s => fromisoformat s
  | _ => none

def entryOf (data : Json) : Option (AuditEntry Json) := do
  let timestamp ← (data.get "timestamp".toList).bind timeOf
  let username ← data.get "username".toList
  let role ← data.get "role".toList
  let action ← data.get "action".toList
  let target ← data.get "target".toList
  let outcome ← data.get "outcome".toList
  let detail := (data.get "detail".toList).getD (.text [])
  some ⟨timestamp, username, role, action, target, outcome, detail⟩

/-- The entry of a line, unless the line is empty or unreadable. -/
def readLine (raw : Text) : Option (AuditEntry Json) :=
  if strip raw = [] then none else (loads (strip raw)).bind entryOf

def Files.recent (s : Files) (limit : ℕ) : Option (List (AuditEntry Json)) :=
  (s.collect limit s.readPaths []).map (·.filterMap readLine)

/-! ### Runs -/

inductive Event where
  | record (e : Entry) (kept : ℕ)
  | rollover (m : Month)

/-- A run from the file of an older version, if there is one, in which the steps are `Allowed`. -/
inductive Run (Allowed : Files → Event → Prop) (old : Option (List Entry)) :
    List Event → Files → Prop
  | start (m : Month) : Run Allowed old [] ⟨m, ∅, old.map fun es => encode (es.flatMap line)⟩
  | record {events : List Event} {s : Files} {e : Entry} {kept : ℕ} (run : Run Allowed old events s)
      (part : kept ≤ (encode (line e)).length) (allowed : Allowed s (.record e kept)) :
      Run Allowed old (events ++ [.record e kept]) (s.record e kept)
  | rollover {events : List Event} {s : Files} {m : Month} (run : Run Allowed old events s)
      (later : s.month.Before m) (allowed : Allowed s (.rollover m)) :
      Run Allowed old (events ++ [.rollover m]) { s with month := m }

/-! ### What is to be shown -/

/-- An entry in the journal, and how many of its bytes there are. -/
structure Write where
  entry : Entry
  kept : ℕ

def Write.Whole (w : Write) : Prop := (encode (dumps (payload w.entry))).length ≤ w.kept

instance (w : Write) : Decidable w.Whole := inferInstanceAs (Decidable (_ ≤ _))

def Event.left : Event → List Write
  | .record e kept => if kept = 0 then [] else [⟨e, kept⟩]
  | .rollover _ => []

def journal (old : Option (List Entry)) (events : List Event) : List Write :=
  ((old.getD []).map fun e => ⟨e, (encode (line e)).length⟩) ++ events.flatMap Event.left

def lastEntries (limit : ℕ) (writes : List Write) : List (AuditEntry Json) :=
  (writes.rtake limit).filterMap fun w => if w.Whole then some w.entry.asRead else none

def Files.torn (s : Files) : Bool :=
  match s.current.getLast? with
  | none => false
  | some b => b ≠ 10

/-- Nothing goes behind a line that is torn, and no character is torn. -/
def Intact (s : Files) : Event → Prop
  | .record e kept =>
    (kept = 0 ∨ s.torn = false) ∧ ∃ n, kept = (encode ((line e).take n)).length
  | .rollover _ => True

end AuditJournal
