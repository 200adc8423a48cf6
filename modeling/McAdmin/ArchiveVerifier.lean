import McAdmin.Dict
import McAdmin.PlainText
import Mathlib.Data.Int.Order.Basic
import Mathlib.Data.List.DropRight

/-!
# The verifier of the archives

`ArchiveVerifier` reads one archive at a time and records its verdict, on which the
preflight of a restore relies.  What is made of a content is a parameter, as it is in the
constructor of the verifier.  A verdict whose texts UTF-8 cannot write is not recorded.
-/

namespace ArchiveVerifier

/-! ### Texts -/

/-- A character of a Python text.  A byte of a name that is not UTF-8 is a lone surrogate there. -/
inductive CodePoint where
  | char (c : Char)
  /-- The code point `0xD800 + n`. -/
  | surrogate (n : Fin 2048)
deriving DecidableEq

abbrev PyText := List CodePoint

def text (literal : String) : PyText := literal.toList.map .char

/-- `str.encode` does not raise. -/
def encodes (t : PyText) : Bool :=
  t.all fun
    | .char _ => true
    | .surrogate _ => false

def isBlank : CodePoint → Bool
  | .char c => PlainText.isSpace c
  | .surrogate _ => false

def strip (t : PyText) : PyText := (t.dropWhile isBlank).rdropWhile isBlank

/-! ### The verdicts -/

structure BackupArchive where
  filename : PyText
  sizeBytes : ℕ
  createdAt : ℤ
deriving DecidableEq

/-- `ArchiveInspection` -/
structure Inspection where
  ok : Bool
  restorable : Bool
  detail : PyText := []
  worldName : PyText := []
deriving DecidableEq

/-- `archiveCreatedAt` and `restorable` are not there in the oldest verdicts. -/
structure ArchiveCheck where
  filename : PyText
  ok : Bool
  checkedAt : ℤ
  sizeBytes : ℕ
  detail : PyText
  restorable : Option Bool
  worldName : PyText
  archiveCreatedAt : Option ℤ
deriving DecidableEq

def ArchiveCheck.encodes (check : ArchiveCheck) : Bool :=
  ArchiveVerifier.encodes check.filename && ArchiveVerifier.encodes check.detail &&
    ArchiveVerifier.encodes check.worldName

/-- `json.dump` into a file in UTF-8, without escapes, raises on lone surrogates. -/
inductive Exn where
  | unicodeEncodeError
deriving DecidableEq

structure JsonArchiveChecks where
  statuses : Dict PyText ArchiveCheck := ∅
  checking : Option PyText := none

namespace JsonArchiveChecks

def encodes (data : JsonArchiveChecks) : Bool :=
  data.statuses.entries.all (fun entry =>
    ArchiveVerifier.encodes entry.1 && entry.2.encodes) &&
      data.checking.all ArchiveVerifier.encodes

def write (data : JsonArchiveChecks) : Except Exn JsonArchiveChecks :=
  if data.encodes then .ok data else .error .unicodeEncodeError

def marked (filename : Option PyText) (data : JsonArchiveChecks) : JsonArchiveChecks :=
  { data with checking := filename }

def recorded (check : ArchiveCheck) (data : JsonArchiveChecks) : JsonArchiveChecks :=
  { statuses := Dict.set data.statuses check.filename check, checking := none }

def kept (existing : List PyText) (data : JsonArchiveChecks) : JsonArchiveChecks :=
  { data with statuses := Dict.filter (fun filename _ => filename ∈ existing) data.statuses }

def markChecking (filename : Option PyText) (data : JsonArchiveChecks) :
    Except Exn JsonArchiveChecks :=
  if filename = none ∧ data.checking = none then .ok data else write (data.marked filename)

def record (check : ArchiveCheck) (data : JsonArchiveChecks) : Except Exn JsonArchiveChecks :=
  write (data.recorded check)

def forgetMissing (existing : List PyText) (data : JsonArchiveChecks) :
    Except Exn JsonArchiveChecks :=
  if (data.kept existing).statuses.keys.length = data.statuses.keys.length then .ok data
  else write (data.kept existing)

end JsonArchiveChecks

/-! ### One tick -/

def newestFirst (archives : List BackupArchive) : List BackupArchive :=
  archives.mergeSort fun a b => b.createdAt ≤ a.createdAt

/-- The verdict is complete, and the archive is as it was listed then. -/
def upToDate (check : ArchiveCheck) (archive : BackupArchive) : Bool :=
  check.sizeBytes = archive.sizeBytes && check.archiveCreatedAt = some archive.createdAt &&
    check.restorable ≠ none

def verified (known : Dict PyText ArchiveCheck) (archive : BackupArchive) : Bool :=
  match known.lookup archive.filename with
  | some check => upToDate check archive
  | none => false

/-- The verdict on what was read of the archive as it was listed. -/
def checkOf (now : ℤ) (archive : BackupArchive) (result : Inspection) : ArchiveCheck where
  filename := archive.filename
  ok := result.ok
  checkedAt := now
  sizeBytes := archive.sizeBytes
  detail := result.detail
  restorable := some result.restorable
  worldName := result.worldName
  archiveCreatedAt := some archive.createdAt

/-- The loop of `tick`: what it verifies, if anything. -/
def nextArchive (minAge now : ℤ) (known : Dict PyText ArchiveCheck) (archivePath : PyText → Bool) :
    List BackupArchive → Option BackupArchive
  | [] => none
  | archive :: archives =>
    if verified known archive then nextArchive minAge now known archivePath archives
    else if now - archive.createdAt < minAge then
      nextArchive minAge now known archivePath archives
    else if archivePath archive.filename then some archive
    else nextArchive minAge now known archivePath archives

/-- `tick`, when nothing changes meanwhile: the verdicts it leaves, and the name it returns unless
it raises.  `verify` is what is read under a name. -/
def tick (minAge now : ℤ) (listed : List BackupArchive) (archivePath : PyText → Bool)
    (verify : PyText → Inspection) (checks : JsonArchiveChecks) :
    JsonArchiveChecks × Except Exn (Option PyText) :=
  let archives := newestFirst listed
  match checks.forgetMissing (archives.map (·.filename)) with
  | .error exc => (checks, .error exc)
  | .ok checks =>
    match nextArchive minAge now checks.statuses archivePath archives with
    | some archive =>
      match checks.markChecking (some archive.filename) with
      | .error exc => (checks, .error exc)
      | .ok checks =>
        match checks.record (checkOf now archive (verify archive.filename)) with
        | .error exc => (checks, .error exc)
        | .ok checks => (checks, .ok (some archive.filename))
    | none =>
      match checks.markChecking none with
      | .error exc => (checks, .error exc)
      | .ok checks => (checks, .ok none)

/-! ### The preflight of a restore -/

/-- `text.strip() or other` -/
def stripped (detail : PyText) (other : String) : PyText :=
  if strip detail = [] then text other else strip detail

def findArchive (archives : List BackupArchive) (filename : PyText) : Option BackupArchive :=
  archives.find? fun archive => archive.filename = filename

/-- `_restore_archive_issues`: the listing with whether the path is found, and the verdicts if
they are configured; each may raise. -/
def restoreArchiveIssues (found : Except PyText (List BackupArchive × Bool))
    (checks : Option (Except PyText JsonArchiveChecks)) (filename : PyText) : List PyText :=
  match found with
  | .error exc => [text "accès aux sauvegardes impossible : " ++ exc]
  | .ok (archives, pathFound) =>
    match findArchive archives filename, pathFound with
    | some archive, true =>
      match checks with
      | none => [text "vérification d'intégrité des archives non configurée"]
      | some (.error exc) => [text "verdict d'intégrité illisible : " ++ exc]
      | some (.ok checks) =>
        match checks.statuses.lookup filename with
        | none =>
          if checks.checking = some filename then
            [text "vérification complète de l'archive en cours"]
          else [text "archive pas encore vérifiée ; attendre le badge « vérifiée »"]
        | some check =>
          if check.sizeBytes ≠ archive.sizeBytes ∨
              check.archiveCreatedAt ≠ some archive.createdAt then
            if checks.checking = some filename then
              [text "archive modifiée ; nouvelle vérification en cours"]
            else
              [text "archive modifiée depuis son dernier contrôle ; nouvelle vérification requise"]
          else if check.ok = false then
            [text "archive illisible ou dangereuse : " ++
              stripped check.detail "erreur de lecture"]
          else match check.restorable with
            | none => [text "ancien verdict incomplet ; nouvelle vérification requise"]
            | some false =>
              [text "archive non restaurable : " ++
                stripped check.detail "monde Minecraft complet absent"]
            | some true => []
    | _, _ => [text "archive introuvable : " ++ filename]

/-! ### The verifier among others

The files change while the verifier lists them, reads one and records its verdict. -/

/-- `since` is when the file came to its size and date. -/
structure ArchiveFile (γ : Type) where
  content : γ
  sizeBytes : ℕ
  createdAt : ℤ
  /-- `archive_path` resolves its name. -/
  resolves : Bool
  since : ℕ

inductive Stage (γ : Type) where
  | idle
  | listing (seen : List BackupArchive)
  | purging (archives : List BackupArchive)
  | looking (archives : List BackupArchive)
  | scanning (now : ℤ) (known : Dict PyText ArchiveCheck) (archives : List BackupArchive)
  | marking (now : ℤ) (archive : BackupArchive)
  | opening (now : ℤ) (archive : BackupArchive)
  | verifying (now : ℤ) (archive : BackupArchive) (start : ℕ) (opened : Option (ArchiveFile γ))
  | recording (check : ArchiveCheck) (start : ℕ)

/-- `had` are the sizes and dates that the file of a name has had, and `readAt` is when the
reading began from which its verdict comes. -/
structure World (γ : Type) where
  time : ℕ := 0
  disk : PyText → Option (ArchiveFile γ) := fun _ => none
  had : PyText → List (ℕ × ℤ) := fun _ => []
  checks : JsonArchiveChecks := {}
  readAt : PyText → ℕ := fun _ => 0
  stage : Stage γ := .idle

inductive Event (γ : Type) where
  /-- A file is created, replaced or modified. -/
  | write (filename : PyText) (content : γ) (sizeBytes : ℕ) (createdAt : ℤ) (resolves : Bool)
  | delete (filename : PyText)
  /-- The listing of a tick comes to a file. -/
  | stat (filename : PyText)
  /-- A tick goes on.  The answer is what is read of a file that changes meanwhile. -/
  | next (now : ℤ) (answer : Inspection)
  /-- A tick raises, or the process ends. -/
  | abort

section

variable {γ : Type}

def ArchiveFile.listed (file : ArchiveFile γ) (filename : PyText) : BackupArchive :=
  ⟨filename, file.sizeBytes, file.createdAt⟩

def World.archivePath (s : World γ) (filename : PyText) : Bool :=
  match s.disk filename with
  | some file => file.resolves
  | none => false

def World.write (s : World γ) (filename : PyText) (file : ArchiveFile γ) : World γ :=
  { s with
    disk := Function.update s.disk filename (some file)
    had := Function.update s.had filename
      ((file.sizeBytes, file.createdAt) :: s.had filename) }

def World.stat (s : World γ) (filename : PyText) : World γ :=
  match s.stage, s.disk filename with
  | .listing seen, some file => { s with stage := .listing (seen ++ [file.listed filename]) }
  | _, _ => s

/-- What is read under a name: the file that was opened, if it is still the same in the end. -/
def World.verify (s : World γ) (inspect : γ → Inspection) (filename : PyText)
    (opened : Option (ArchiveFile γ)) (answer : Inspection) : Inspection :=
  match opened with
  | none => answer
  | some file =>
    if (s.disk filename).map (·.since) = some file.since then inspect file.content else answer

/-- What comes of a change of the verdicts; where it raises, the tick has ended. -/
def World.writes (s : World γ) (checks : Except Exn JsonArchiveChecks) (stage : Stage γ) :
    World γ :=
  match checks with
  | .ok checks => { s with checks := checks, stage := stage }
  | .error _ => { s with stage := .idle }

def World.next (inspect : γ → Inspection) (minAge : ℤ) (s : World γ) (now : ℤ)
    (answer : Inspection) : World γ :=
  match s.stage with
  | .idle => { s with stage := .listing [] }
  | .listing seen => { s with stage := .purging (newestFirst seen) }
  | .purging archives =>
    s.writes (s.checks.forgetMissing (archives.map (·.filename))) (.looking archives)
  | .looking archives => { s with stage := .scanning now s.checks.statuses archives }
  | .scanning now known (archive :: archives) =>
    if verified known archive then { s with stage := .scanning now known archives }
    else if now - archive.createdAt < minAge then
      { s with stage := .scanning now known archives }
    else if s.archivePath archive.filename then { s with stage := .marking now archive }
    else { s with stage := .scanning now known archives }
  | .scanning _ _ [] => s.writes (s.checks.markChecking none) .idle
  | .marking now archive =>
    s.writes (s.checks.markChecking (some archive.filename)) (.opening now archive)
  | .opening now archive =>
    { s with stage := .verifying now archive s.time (s.disk archive.filename) }
  | .verifying now archive start opened =>
    { s with
      stage := .recording
        (checkOf now archive (s.verify inspect archive.filename opened answer)) start }
  | .recording check start =>
    match s.checks.record check with
    | .ok checks =>
      { s with
        checks := checks
        readAt := Function.update s.readAt check.filename start
        stage := .idle }
    | .error _ => { s with stage := .idle }

def step (inspect : γ → Inspection) (minAge : ℤ) (s : World γ) (e : Event γ) : World γ :=
  let s := { s with time := s.time + 1 }
  match e with
  | .write filename content sizeBytes createdAt resolves =>
    s.write filename ⟨content, sizeBytes, createdAt, resolves, s.time⟩
  | .delete filename => { s with disk := Function.update s.disk filename none }
  | .stat filename => s.stat filename
  | .next now answer => s.next inspect minAge now answer
  | .abort => { s with stage := .idle }

end

end ArchiveVerifier
