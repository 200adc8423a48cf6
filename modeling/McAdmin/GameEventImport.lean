import McAdmin.GameEvents
import McAdmin.LegacyDating
import McAdmin.StoredTimes
import McAdmin.UniqueRows

/-!
# The import of game facts

The facts of a folder are dated as its sessions are: the day of a line is that of its file, and
one later for each time the clock went back before.  What is read is inserted unless the table has
the fact at that time.
-/

namespace GameEventImport

open Backtracking
open Calendar (Date Time isoformat)
open GameEvents (GameEvent parseLine)
open IntText (DigitTable)
open LegacyImport (Clock Dating Error Line LogFile LogPath Moment Zone clock fileOf int joinedRe
  matchLine orderedFiles twoDigits)
open StoredTimes (EventRow)

/-! ### The facts of a folder -/

/-- `import_game_events`, and what else it knows the players from: the names that the user cache
lists, and those of the sessions of the database. -/
structure Import where
  folder : List LogPath
  usercache : List Text
  sessions : List Text

structure Found where
  event : GameEvent
  at_ : Time
  killerType : String

section

variable (u : DigitTable) (zone : Zone)

def clockRe : Pattern :=
  .str "[" ++ twoDigits u ++ .str ":" ++ twoDigits u ++ .str ":" ++ twoDigits u ++ .str "] "

def clockOf (raw : Text) : Option Clock :=
  ((clockRe u).atStart raw).map fun m =>
    clock (int u (m.group 1)) (int u (m.group 2)) (int u (m.group 3))

def joined (raw : Text) : Option Text :=
  (matchLine u raw).bind fun m => ((joinedRe u).atStart m.2).map fun found => found.group 1

/-- `known_players`, in lower case -/
def knownPlayers (source : Import) : Except Error (List Text) := do
  let files ← orderedFiles u source.folder
  let names := files.flatMap fun file => file.path.lines.filterMap fun line => joined u line.text
  return (names ++ source.usercache ++ source.sessions).map u.lower

/-- A constant, for the membership test below. -/
local instance lawfulText : LawfulBEq Text := inferInstance

def killerType (players : List Text) (event : GameEvent) : String :=
  if event.kind = .death ∧ event.killer ≠ [] then
    if u.lower event.killer ∈ players then "player" else "mob"
  else ""

/-- A line of a file: the day goes on with each clock, whatever the line tells. -/
def readLine (players : List Text) (dating : Dating) (raw : Text) :
    Except Error (Dating × Option Found) :=
  match clockOf u raw with
  | none => .ok (dating, none)
  | some clock => do
    let day ← dating.dayAt clock
    match parseLine u.toCharTable raw with
    | none => return (⟨day, some clock⟩, none)
    | some event =>
      let moment ← Moment.make day clock
      return (⟨day, some clock⟩, some ⟨event, zone.utc moment, killerType u players event⟩)

def readFile (players : List Text) (dating : Dating) : List Line → Except Error (List Found)
  | [] => .ok []
  | line :: lines => do
    let (dating, found) ← readLine u zone players dating line.text
    let rest ← readFile players dating lines
    return found.toList ++ rest

def parseFolder (folder : List LogPath) (players : List Text) : Except Error (List Found) := do
  let files ← orderedFiles u folder
  let found ← files.mapM fun file => readFile u zone players ⟨file.date, none⟩ file.path.lines
  return found.flatten

/-! ### Writing -/

/-- `UNIQUE (at, kind, player, raw)` -/
def rowKey (row : EventRow) : Text × String × String × String :=
  (row.at_, row.kind, row.player, row.raw)

/-- `game_events` -/
abbrev Store := UniqueRows.Table rowKey

def kindName : GameEvents.Kind → String
  | .death => "death"
  | .advancement => "advancement"
  | .chat => "chat"

/-- What `record` inserts: a player who killed is no entity. -/
def eventRow (found : Found) : EventRow where
  at_ := isoformat found.at_
  kind := kindName found.event.kind
  player := String.ofList found.event.player
  messageKey := found.event.key
  cause := found.event.cause
  killer := String.ofList found.event.killer
  killerId := if found.killerType = "player" then "" else String.ofList found.event.killerId
  killerType := found.killerType
  weapon := String.ofList found.event.weapon
  detail := String.ofList found.event.detail
  raw := String.ofList found.event.raw

def record (store : Store) (found : Found) : Store := store.insert (eventRow found)

/-- What `main` finds. -/
def find (source : Import) : Except Error (List Found) := do
  let players ← knownPlayers u source
  parseFolder u zone source.folder players

/-- `main`, with `--apply`: where something raises, nothing is written. -/
def apply (store : Store) (source : Import) : Store :=
  match find u zone source with
  | .ok found => found.foldl record store
  | .error _ => store

end

/-! ### What a folder tells -/

def backs : List Clock → ℕ
  | c :: c' :: rest => (if c' < c then 1 else 0) + backs (c' :: rest)
  | _ => 0

section

variable (u : DigitTable) (zone : Zone)

def clocks (lines : List Line) : List Clock := lines.filterMap fun line => clockOf u line.text

def dateOf (path : LogPath) : Option Date :=
  match fileOf u path with
  | .ok (some file) => some file.date
  | _ => none

/-- The lines of a file tell a fact at a time: on the day of the file, and one later for each time
the clock went back. -/
def Tells (dating : Dating) (lines : List Line) (event : GameEvent) (at_ : Time) : Prop :=
  ∃ before line after, lines = before ++ line :: after ∧
    parseLine u.toCharTable line.text = some event ∧
    ∃ moment : Moment, clockOf u line.text = some moment.clock ∧
      moment.day.ordinal =
        dating.day.ordinal + backs (dating.previous.toList ++ clocks u (before ++ [line])) ∧
      at_ = zone.utc moment

def Told (folder : List LogPath) (event : GameEvent) (at_ : Time) : Prop :=
  ∃ path ∈ folder, ∃ day, dateOf u path = some day ∧ Tells u zone ⟨day, none⟩ path.lines event at_

/-- The calendar does not end in the lines, and what tells a fact tells a time of the day. -/
def ReadableLines (dating : Dating) (lines : List Line) : Prop :=
  ∀ before line after, lines = before ++ line :: after → ∀ c, clockOf u line.text = some c →
    (dating.day.ordinal + backs (dating.previous.toList ++ clocks u (before ++ [line])) ≤
        Calendar.maxOrdinal) ∧
      ((parseLine u.toCharTable line.text).isSome → ∃ moment : Moment, moment.clock = c)

/-- No name tells a date that there is not, and the lines of the logs can be read. -/
structure Readable (folder : List LogPath) : Prop where
  named : ∀ path ∈ folder, ∃ file, fileOf u path = .ok file
  lines : ∀ path ∈ folder, ∀ day, dateOf u path = some day →
    ReadableLines u ⟨day, none⟩ path.lines

/-- The name is that of a player who joined in the logs, or of one known from elsewhere. -/
def Knows (source : Import) (name : Text) : Prop :=
  (∃ path ∈ source.folder, dateOf u path ≠ none ∧ ∃ line ∈ path.lines, ∃ player,
      joined u line.text = some player ∧ u.lower player = u.lower name) ∨
    ∃ player, (player ∈ source.usercache ∨ player ∈ source.sessions) ∧
      u.lower player = u.lower name

end

section

variable {u : DigitTable} {zone : Zone} {players : List Text} {dating : Dating} {lines : List Line}
  {line : Line} {c : Clock} {event : GameEvent} {at_ : Time} {found : List Found}
  {folder : List LogPath} {path : LogPath}

/-! ### The lines of a file -/

theorem clocks_cons_none (h : clockOf u line.text = none) :
    clocks u (line :: lines) = clocks u lines := List.filterMap_cons_none h

theorem clocks_cons_some (h : clockOf u line.text = some c) :
    clocks u (line :: lines) = c :: clocks u lines := List.filterMap_cons_some h

theorem backs_cons (dating : Dating) (c : Clock) (rest : List Clock) :
    backs (dating.previous.toList ++ c :: rest) =
      (if dating.previous.any (c < ·) then 1 else 0) + backs (c :: rest) := by
  cases hprevious : dating.previous with
  | none => simp
  | some previous => simp [backs]

theorem dayAt_eq_ok_iff {day : Date} : dating.dayAt c = .ok day ↔
    day.ordinal = dating.day.ordinal + (if dating.previous.any (c < ·) then 1 else 0) := by
  rw [Dating.dayAt]
  split_ifs with hback
  · have hvalid := day.valid
    rw [LegacyImport.nextDay]
    split_ifs with hnext
    · rw [Except.ok.injEq]
      constructor
      · rintro rfl
        rfl
      · intro h
        exact LegacyImport.date_ext h.symm
    · refine iff_of_false (fun h => by cases h) fun h => hnext ?_
      omega
  · rw [Except.ok.injEq, add_zero]
    constructor
    · rintro rfl
      rfl
    · intro h
      exact LegacyImport.date_ext h.symm

theorem make_eq_ok_iff {day : Date} {moment : Moment} :
    Moment.make day c = .ok moment ↔ moment.day = day ∧ moment.clock = c := by
  constructor
  · intro h
    rw [Moment.make] at h
    split_ifs at h with hvalid
    cases h
    exact ⟨rfl, rfl⟩
  · rintro ⟨rfl, rfl⟩
    exact dif_pos moment.valid

theorem exists_split_cons {P : List Line → Line → Prop} :
    (∃ before line' after, line :: lines = before ++ line' :: after ∧ P before line') ↔
      P [] line ∨ ∃ before line' after, lines = before ++ line' :: after ∧
        P (line :: before) line' := by
  constructor
  · rintro ⟨_ | ⟨first, before⟩, line', after, heq, h⟩
    · obtain ⟨rfl, -⟩ := List.cons.inj heq
      exact .inl h
    · obtain ⟨rfl, rfl⟩ := List.cons.inj heq
      exact .inr ⟨before, line', after, rfl, h⟩
  · rintro (h | ⟨before, line', after, rfl, h⟩)
    · exact ⟨[], line, lines, rfl, h⟩
    · exact ⟨line :: before, line', after, rfl, h⟩

theorem forall_split_cons {P : List Line → Line → Prop} :
    (∀ before line' after, line :: lines = before ++ line' :: after → P before line') ↔
      P [] line ∧ ∀ before line' after, lines = before ++ line' :: after →
        P (line :: before) line' := by
  constructor
  · intro h
    refine ⟨h [] line lines rfl, ?_⟩
    rintro before line' after rfl
    exact h (line :: before) line' after rfl
  · rintro ⟨hfirst, hrest⟩ (_ | ⟨first, before⟩) line' after heq
    · obtain ⟨rfl, -⟩ := List.cons.inj heq
      exact hfirst
    · obtain ⟨rfl, rfl⟩ := List.cons.inj heq
      exact hrest before line' after rfl

theorem clocks_cons_append_none (h : clockOf u line.text = none) (before : List Line)
    (line' : Line) : clocks u (line :: before ++ [line']) = clocks u (before ++ [line']) :=
  clocks_cons_none h

theorem clocks_cons_append_some (h : clockOf u line.text = some c) (before : List Line)
    (line' : Line) : clocks u (line :: before ++ [line']) = c :: clocks u (before ++ [line']) :=
  clocks_cons_some h

theorem tells_cons_none (h : clockOf u line.text = none) :
    Tells u zone dating (line :: lines) event at_ ↔ Tells u zone dating lines event at_ := by
  simp only [Tells, exists_split_cons, clocks_cons_append_none h, h, reduceCtorEq, false_and,
    exists_false, and_false, false_or]

theorem tells_cons_some {day : Date} (h : clockOf u line.text = some c)
    (hday : dating.dayAt c = .ok day) :
    Tells u zone dating (line :: lines) event at_ ↔
      (parseLine u.toCharTable line.text = some event ∧
        ∃ moment : Moment, moment.day = day ∧ moment.clock = c ∧ at_ = zone.utc moment) ∨
      Tells u zone ⟨day, some c⟩ lines event at_ := by
  have hordinal := dayAt_eq_ok_iff.mp hday
  rw [Tells, exists_split_cons]
  refine or_congr ?_ ?_
  · refine and_congr_right fun _ => exists_congr fun moment => ?_
    rw [List.nil_append, clocks_cons_some h, backs_cons, h, Option.some.injEq]
    have hone : backs (c :: clocks u []) = 0 := rfl
    rw [hone, add_zero, ← hordinal, eq_comm (b := moment.clock), and_left_comm]
    refine and_congr_left fun _ => ⟨LegacyImport.date_ext, fun heq => by rw [heq]⟩
  · simp only [Tells, clocks_cons_append_some h, backs_cons, ← add_assoc, ← hordinal,
      Option.toList_some, List.singleton_append]

theorem readableLines_cons_none (h : clockOf u line.text = none) :
    ReadableLines u dating (line :: lines) ↔ ReadableLines u dating lines := by
  simp only [ReadableLines, forall_split_cons, clocks_cons_append_none h, h, reduceCtorEq,
    false_implies, implies_true, true_and]

theorem exists_dayAt_iff : (∃ day, dating.dayAt c = .ok day) ↔
    dating.day.ordinal + (if dating.previous.any (c < ·) then 1 else 0) ≤ Calendar.maxOrdinal := by
  constructor
  · rintro ⟨day, hday⟩
    rw [← dayAt_eq_ok_iff.mp hday]
    exact day.valid.2
  · intro h
    have hvalid := dating.day.valid
    exact ⟨⟨_, by omega, h⟩, dayAt_eq_ok_iff.mpr rfl⟩

theorem readableLines_cons_some (h : clockOf u line.text = some c) :
    ReadableLines u dating (line :: lines) ↔ ∃ day, dating.dayAt c = .ok day ∧
      ((parseLine u.toCharTable line.text).isSome → ∃ moment : Moment, moment.clock = c) ∧
        ReadableLines u ⟨day, some c⟩ lines := by
  have hone : backs (c :: clocks u []) = 0 := rfl
  simp only [ReadableLines, forall_split_cons, List.nil_append, clocks_cons_some h,
    clocks_cons_append_some h, backs_cons, h, Option.some.injEq, forall_eq', hone, add_zero,
    ← exists_dayAt_iff, ← add_assoc, Option.toList_some, List.singleton_append]
  constructor
  · rintro ⟨⟨⟨day, hday⟩, htime⟩, hrest⟩
    rw [← dayAt_eq_ok_iff.mp hday] at hrest
    exact ⟨day, hday, htime, hrest⟩
  · rintro ⟨day, hday, htime, hrest⟩
    rw [← dayAt_eq_ok_iff.mp hday]
    exact ⟨⟨⟨day, hday⟩, htime⟩, hrest⟩

/-! ### Reading a file -/

theorem readLine_none (h : clockOf u line.text = none) :
    readLine u zone players dating line.text = .ok (dating, none) := by
  rw [readLine, h]

theorem readLine_some {result : Dating × Option Found} (h : clockOf u line.text = some c) :
    readLine u zone players dating line.text = .ok result ↔
      ∃ day, dating.dayAt c = .ok day ∧
        (parseLine u.toCharTable line.text = none ∧ result = (⟨day, some c⟩, none) ∨
          ∃ event moment, parseLine u.toCharTable line.text = some event ∧
            Moment.make day c = .ok moment ∧ result = (⟨day, some c⟩,
              some ⟨event, zone.utc moment, killerType u players event⟩)) := by
  rw [readLine, h]
  cases hday : dating.dayAt c with
  | error e => simp [hday, bind, Except.bind]
  | ok day =>
    cases hparse : parseLine u.toCharTable line.text with
    | none => simp [hday, bind, Except.bind, pure, Except.pure, eq_comm]
    | some event =>
      cases hmake : Moment.make day c with
      | error e => simp [hday, hmake, bind, Except.bind]
      | ok moment => simp [hday, hmake, bind, Except.bind, pure, Except.pure, eq_comm]

theorem readFile_cons : readFile u zone players dating (line :: lines) = .ok found ↔
    ∃ result rest, readLine u zone players dating line.text = .ok result ∧
      readFile u zone players result.1 lines = .ok rest ∧ found = result.2.toList ++ rest := by
  rw [readFile]
  cases hline : readLine u zone players dating line.text with
  | error e => simp [bind, Except.bind]
  | ok result =>
    obtain ⟨dating', first⟩ := result
    cases hrest : readFile u zone players dating' lines with
    | error e => simp [hrest, bind, Except.bind]
    | ok rest => simp [hrest, bind, Except.bind, pure, Except.pure, eq_comm]

theorem exists_readFile_iff :
    (∃ found, readFile u zone players dating lines = .ok found) ↔ ReadableLines u dating lines := by
  induction lines generalizing dating with
  | nil =>
    refine iff_of_true ⟨[], rfl⟩ fun before line after hsplit => ?_
    cases before <;> cases hsplit
  | cons line lines ih =>
    simp only [readFile_cons]
    cases hclock : clockOf u line.text with
    | none =>
      rw [readableLines_cons_none hclock, ← ih]
      simp only [readLine_none hclock, Except.ok.injEq]
      constructor
      · rintro ⟨found, _, rest, rfl, hrest, -⟩
        exact ⟨rest, hrest⟩
      · rintro ⟨rest, hrest⟩
        exact ⟨rest, _, rest, rfl, hrest, rfl⟩
    | some c =>
      rw [readableLines_cons_some hclock]
      simp only [readLine_some hclock, ← ih]
      constructor
      · rintro ⟨found, _, rest, ⟨day, hday, ⟨hparse, rfl⟩ | ⟨event, moment, hparse, hmake, rfl⟩⟩,
          hrest, -⟩
        · refine ⟨day, hday, ?_, rest, hrest⟩
          rw [hparse]
          intro h
          cases h
        · exact ⟨day, hday, fun _ => ⟨moment, (make_eq_ok_iff.mp hmake).2⟩, rest, hrest⟩
      · rintro ⟨day, hday, htime, rest, hrest⟩
        cases hparse : parseLine u.toCharTable line.text with
        | none => exact ⟨rest, _, rest, ⟨day, hday, .inl ⟨rfl, rfl⟩⟩, hrest, rfl⟩
        | some event =>
          obtain ⟨moment, hmoment⟩ := htime (by rw [hparse]; rfl)
          have hmake : Moment.make day c = .ok { moment with day := day } :=
            make_eq_ok_iff.mpr ⟨rfl, hmoment⟩
          exact ⟨_, _, rest, ⟨day, hday, .inr ⟨event, _, rfl, hmake, rfl⟩⟩, hrest, rfl⟩

theorem mem_readFile (h : readFile u zone players dating lines = .ok found) (fact : Found) :
    fact ∈ found ↔ Tells u zone dating lines fact.event fact.at_ ∧
      fact.killerType = killerType u players fact.event := by
  induction lines generalizing dating found with
  | nil =>
    cases h
    refine iff_of_false List.not_mem_nil ?_
    rintro ⟨⟨before, line, after, hsplit, -⟩, -⟩
    cases before <;> cases hsplit
  | cons line lines ih =>
    obtain ⟨result, rest, hline, hrest, rfl⟩ := readFile_cons.mp h
    cases hclock : clockOf u line.text with
    | none =>
      rw [readLine_none hclock, Except.ok.injEq] at hline
      subst hline
      rw [tells_cons_none hclock]
      exact ih hrest
    | some c =>
      obtain ⟨day, hday, ⟨hparse, rfl⟩ | ⟨event, moment, hparse, hmake, rfl⟩⟩ :=
        (readLine_some hclock).mp hline
      · rw [tells_cons_some hclock hday, hparse]
        simpa using ih hrest
      · obtain ⟨rfl, hmoment⟩ := make_eq_ok_iff.mp hmake
        rw [tells_cons_some hclock hday, hparse, Option.toList_some, List.singleton_append,
          List.mem_cons, ih hrest, or_and_right]
        refine or_congr_left ?_
        constructor
        · rintro rfl
          exact ⟨⟨rfl, moment, rfl, hmoment, rfl⟩, rfl⟩
        · rintro ⟨⟨hevent, moment', hday', hmoment', hat⟩, hkiller⟩
          obtain rfl := Option.some.inj hevent
          have hsame := hmake.symm.trans (make_eq_ok_iff.mpr ⟨hday', hmoment'⟩)
          obtain rfl := Except.ok.inj hsame
          obtain ⟨event', at_, type⟩ := fact
          dsimp only at hat hkiller
          rw [hat, hkiller]

/-! ### Reading a folder -/

theorem mapM_eq_ok_iff {α β ε : Type} {g : α → Except ε β} {l : List α} {results : List β} :
    l.mapM g = .ok results ↔ List.Forall₂ (fun a b => g a = .ok b) l results := by
  induction l generalizing results with
  | nil => simp [pure, Except.pure, eq_comm]
  | cons a l ih =>
    rw [List.mapM_cons]
    cases ha : g a with
    | error e =>
      refine iff_of_false (by simp [bind, Except.bind]) fun h => ?_
      obtain ⟨b, rest, hb, -, -⟩ := List.forall₂_cons_left_iff.mp h
      cases ha.symm.trans hb
    | ok b =>
      cases hrest : l.mapM g with
      | error e =>
        refine iff_of_false (by simp [bind, Except.bind]) fun h => ?_
        obtain ⟨b', rest, -, hforall, -⟩ := List.forall₂_cons_left_iff.mp h
        cases hrest.symm.trans (ih.mpr hforall)
      | ok rest =>
        have hforall := ih.mp hrest
        constructor
        · intro h
          cases h
          exact .cons ha hforall
        · intro h
          obtain ⟨b', rest', hb, hforall', rfl⟩ := List.forall₂_cons_left_iff.mp h
          obtain rfl := Except.ok.inj (ha.symm.trans hb)
          obtain rfl := Except.ok.inj (hrest.symm.trans (ih.mpr hforall'))
          rfl

theorem exists_mapM_iff {α β ε : Type} {g : α → Except ε β} {l : List α} :
    (∃ results, l.mapM g = .ok results) ↔ ∀ a ∈ l, ∃ b, g a = .ok b := by
  simp only [mapM_eq_ok_iff]
  induction l with
  | nil => simp
  | cons a l ih =>
    rw [List.forall_mem_cons, ← ih]
    constructor
    · rintro ⟨results, h⟩
      obtain ⟨b, rest, hb, hrest, -⟩ := List.forall₂_cons_left_iff.mp h
      exact ⟨⟨b, hb⟩, rest, hrest⟩
    · rintro ⟨⟨b, hb⟩, rest, hrest⟩
      exact ⟨b :: rest, .cons hb hrest⟩

theorem mem_of_mapM {α β ε : Type} {g : α → Except ε β} {l : List α} {results : List β}
    (h : l.mapM g = .ok results) (b : β) : b ∈ results ↔ ∃ a ∈ l, g a = .ok b := by
  replace h := mapM_eq_ok_iff.mp h
  induction h with
  | nil => simp
  | cons ha _ ih => simp [ih, ha, eq_comm]

theorem dateOf_eq_some_iff {day : Date} :
    dateOf u path = some day ↔ ∃ file, fileOf u path = .ok (some file) ∧ file.date = day := by
  rw [dateOf]
  split
  · rename_i file heq
    simp [heq]
  · rename_i hnone
    refine iff_of_false (by simp) ?_
    rintro ⟨file, heq, -⟩
    exact hnone file heq

theorem path_of_fileOf {file : LogFile} (h : fileOf u path = .ok (some file)) :
    file.path = path := by
  rw [fileOf] at h
  split at h
  · cases hdate : LegacyImport.makeDate _ _ _ with
    | error e =>
      rw [hdate] at h
      cases h
    | ok date =>
      rw [hdate] at h
      cases h
      rfl
  · split_ifs at h <;> cases h
    rfl

theorem exists_orderedFiles_iff : (∃ files, orderedFiles u folder = .ok files) ↔
    ∀ path ∈ folder, ∃ file, fileOf u path = .ok file := by
  rw [← exists_mapM_iff, orderedFiles]
  cases folder.mapM (fileOf u) <;> simp [bind, Except.bind, pure, Except.pure]

theorem mem_orderedFiles {files : List LogFile} (h : orderedFiles u folder = .ok files)
    (file : LogFile) : file ∈ files ↔ ∃ path ∈ folder, fileOf u path = .ok (some file) := by
  rw [orderedFiles] at h
  cases hfound : folder.mapM (fileOf u) with
  | error e =>
    rw [hfound] at h
    cases h
  | ok found =>
    rw [hfound] at h
    cases h
    rw [(List.perm_insertionSort _ _).mem_iff, List.reduceOption_mem_iff, mem_of_mapM hfound]

theorem parseFolder_eq_ok_iff : parseFolder u zone folder players = .ok found ↔
    ∃ files, orderedFiles u folder = .ok files ∧ ∃ results,
      (files.mapM fun file => readFile u zone players ⟨file.date, none⟩ file.path.lines) =
        .ok results ∧ found = results.flatten := by
  rw [parseFolder]
  cases orderedFiles u folder with
  | error e => simp [bind, Except.bind]
  | ok files =>
    cases hresults : files.mapM fun file =>
        readFile u zone players ⟨file.date, none⟩ file.path.lines with
    | error e => simp [hresults, bind, Except.bind]
    | ok results => simp [hresults, bind, Except.bind, pure, Except.pure, eq_comm]

theorem exists_parseFolder_iff :
    (∃ found, parseFolder u zone folder players = .ok found) ↔ Readable u folder := by
  simp only [parseFolder_eq_ok_iff]
  constructor
  · rintro ⟨-, files, hfiles, results, hresults, rfl⟩
    refine ⟨exists_orderedFiles_iff.mp ⟨files, hfiles⟩, fun path hpath day hday => ?_⟩
    obtain ⟨file, hof, rfl⟩ := dateOf_eq_some_iff.mp hday
    obtain rfl := path_of_fileOf hof
    have hfile := (mem_orderedFiles hfiles file).mpr ⟨file.path, hpath, hof⟩
    exact exists_readFile_iff.mp (exists_mapM_iff.mp ⟨results, hresults⟩ file hfile)
  · intro h
    obtain ⟨files, hfiles⟩ := exists_orderedFiles_iff.mpr h.named
    have hread : ∀ file ∈ files, ∃ found,
        readFile u zone players ⟨file.date, none⟩ file.path.lines = .ok found := by
      intro file hfile
      obtain ⟨path, hpath, hof⟩ := (mem_orderedFiles hfiles file).mp hfile
      obtain rfl := path_of_fileOf hof
      exact exists_readFile_iff.mpr
        (h.lines file.path hpath file.date (dateOf_eq_some_iff.mpr ⟨file, hof, rfl⟩))
    obtain ⟨results, hresults⟩ := exists_mapM_iff.mpr hread
    exact ⟨_, files, hfiles, results, hresults, rfl⟩

theorem mem_parseFolder (h : parseFolder u zone folder players = .ok found) (fact : Found) :
    fact ∈ found ↔ Told u zone folder fact.event fact.at_ ∧
      fact.killerType = killerType u players fact.event := by
  obtain ⟨files, hfiles, results, hresults, rfl⟩ := parseFolder_eq_ok_iff.mp h
  have hmem := mem_orderedFiles hfiles
  rw [List.mem_flatten]
  constructor
  · rintro ⟨result, hresult, hfact⟩
    obtain ⟨file, hfile, hread⟩ := (mem_of_mapM hresults result).mp hresult
    obtain ⟨path, hpath, hof⟩ := (hmem file).mp hfile
    obtain rfl := path_of_fileOf hof
    obtain ⟨htells, hkiller⟩ := (mem_readFile hread fact).mp hfact
    exact ⟨⟨file.path, hpath, file.date, dateOf_eq_some_iff.mpr ⟨file, hof, rfl⟩, htells⟩, hkiller⟩
  · rintro ⟨⟨path, hpath, day, hday, htells⟩, hkiller⟩
    obtain ⟨file, hof, rfl⟩ := dateOf_eq_some_iff.mp hday
    obtain rfl := path_of_fileOf hof
    have hfile := (hmem file).mpr ⟨file.path, hpath, hof⟩
    obtain ⟨result, hread⟩ := exists_mapM_iff.mp ⟨results, hresults⟩ file hfile
    exact ⟨result, (mem_of_mapM hresults result).mpr ⟨file, hfile, hread⟩,
      (mem_readFile hread fact).mpr ⟨htells, hkiller⟩⟩

/-! ### Known players -/

theorem mem_knownPlayers {source : Import} (h : knownPlayers u source = .ok players)
    (name : Text) : u.lower name ∈ players ↔ Knows u source name := by
  rw [knownPlayers] at h
  cases hfiles : orderedFiles u source.folder with
  | error e =>
    rw [hfiles] at h
    cases h
  | ok files =>
    rw [hfiles] at h
    cases h
    have hmem := mem_orderedFiles hfiles
    simp only [List.mem_map, List.mem_append, List.mem_flatMap, List.mem_filterMap, Knows,
      or_assoc, or_and_right, exists_or]
    refine or_congr_left ?_
    constructor
    · rintro ⟨player, ⟨file, hfile, line, hline, hjoined⟩, hname⟩
      obtain ⟨path, hpath, hof⟩ := (hmem file).mp hfile
      obtain rfl := path_of_fileOf hof
      have hdate := dateOf_eq_some_iff.mpr ⟨file, hof, rfl⟩
      exact ⟨file.path, hpath, by simp [hdate], line, hline, player, hjoined, hname⟩
    · rintro ⟨path, hpath, hlog, line, hline, player, hjoined, hname⟩
      obtain ⟨day, hday⟩ := Option.ne_none_iff_exists'.mp hlog
      obtain ⟨file, hof, rfl⟩ := dateOf_eq_some_iff.mp hday
      obtain rfl := path_of_fileOf hof
      exact ⟨player, ⟨file, (hmem file).mpr ⟨file.path, hpath, hof⟩, line, hline, hjoined⟩, hname⟩

theorem exists_find_iff {source : Import} :
    (∃ found, find u zone source = .ok found) ↔ Readable u source.folder := by
  rw [find]
  cases hplayers : knownPlayers u source with
  | ok players => exact exists_parseFolder_iff
  | error e =>
    refine iff_of_false (by simp [bind, Except.bind]) fun h => ?_
    obtain ⟨files, hfiles⟩ := exists_orderedFiles_iff.mpr h.named
    rw [knownPlayers, hfiles] at hplayers
    cases hplayers

theorem mem_find {source : Import} (h : find u zone source = .ok found) (fact : Found) :
    fact ∈ found ↔ Told u zone source.folder fact.event fact.at_ ∧
      ∃ players, knownPlayers u source = .ok players ∧
        fact.killerType = killerType u players fact.event := by
  rw [find] at h
  cases hplayers : knownPlayers u source with
  | error e =>
    rw [hplayers] at h
    cases h
  | ok players =>
    rw [hplayers] at h
    rw [mem_parseFolder h fact]
    simp

theorem killerType_eq_iff {players' : List Text} :
    killerType u players event = killerType u players' event ↔
      (event.kind = .death → event.killer ≠ [] →
        (u.lower event.killer ∈ players ↔ u.lower event.killer ∈ players')) := by
  rw [killerType, killerType, ← and_imp]
  split_ifs with hkiller hmem hmem' hmem' <;> simp_all

end

end GameEventImport
