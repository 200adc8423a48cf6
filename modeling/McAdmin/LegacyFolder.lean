import McAdmin.LegacySessions

/-!
# The import of a folder

Each join of a regular folder becomes one session, across its files.  What the import does not do
is told at the end: a clock that is set back, and a last file that tells nothing.
-/

namespace LegacyImport

open Backtracking
open Calendar (Date Time)
open IntText (DigitTable)

section

variable (u : DigitTable) (zone : Zone) (folder : List LogPath) (files : List LogFile)

/-- The lines of all files, with the times when they were written. -/
def allStamps : List Stamp := files.flatMap fun file => entries u zone file.path.lines

def instants : List ℤ :=
  files.flatMap fun file =>
    (file.path.lines.filter fun line => (matchLine u line.text).isSome).map Line.instant

/-- Files in the order they are read, whose lines tell local time and were written one after the
other, less than a day apart. -/
structure Chronicle : Prop where
  ordered : orderedFiles u folder = .ok files
  truthful : ∀ file ∈ files, Truthful u zone file.path.lines
  near : (instants u files).IsChain fun a b => a ≤ b ∧ b < a + 86400

def expected (stamps : List Stamp) : List Stay :=
  (stamps.getLast?.map fun last => stays u last.1 stamps).getD []

/-- Every line is given its true time; every join has become the one session that ends with the
first line after it that ends it, or with the last line of all; and sessions of one player do not
overlap, in local time and, where the zone's times are in the order of the local ones, as they are
recorded. -/
structure Imported : Prop where
  dated : ∀ file ∈ files,
    datedLines u ⟨file.date, none⟩ file.path.lines = .ok (entries u zone file.path.lines)
  returned : ∃ sessions commands, parseFolder u zone folder = .ok (sessions, commands) ∧
    sessions.Perm ((expected u (allStamps u zone files)).map (Stay.session zone))
  apart : Apart (expected u (allStamps u zone files))
  recorded : (∀ stamp ∈ allStamps u zone files, ∀ stamp' ∈ allStamps u zone files,
      stamp.1.wall ≤ stamp'.1.wall → zone.text stamp.1 ≤ zone.text stamp'.1) →
    ((expected u (allStamps u zone files)).map (Stay.session zone)).Pairwise fun session session' =>
      session.player = session'.player → session.leftAt ≤ session'.joinedAt

/-- Files named by the days of their first lines, whose lines follow one another within a day of
local time; local time does not go back from file to file; and the last file tells something, or
nothing is open. -/
structure Regular : Prop where
  nonempty : files ≠ []
  steady : ∀ file ∈ files, Steady file.date (entries u zone file.path.lines)
  forward : Forward (allStamps u zone files)
  closed : (∀ file, files.getLast? = some file → entries u zone file.path.lines ≠ []) ∨
    ¬ LeftOpen u (allStamps u zone files)

end

section

variable {u : DigitTable} {zone : Zone} {folder : List LogPath} {files : List LogFile}
  {read : Read} {lastSeen : Option (Option Moment)} {stamps : List Stamp}

/-- The `last_seen` of the last file. -/
def lastSeenOf (u : DigitTable) (zone : Zone) (files : List LogFile) : Option (Option Moment) :=
  files.getLast?.map fun file => (entries u zone file.path.lines).getLast?.map Prod.fst

theorem allStamps_cons (file : LogFile) (files : List LogFile) :
    allStamps u zone (file :: files) =
      entries u zone file.path.lines ++ allStamps u zone files := rfl

theorem replay_append (stamps stamps' : List Stamp) :
    replay u zone read (stamps ++ stamps') =
      replay u zone (replay u zone read stamps) stamps' := List.foldl_append

theorem readFiles_of_dated (h : ∀ file ∈ files,
      datedLines u ⟨file.date, none⟩ file.path.lines = .ok (entries u zone file.path.lines)) :
    readFiles u zone lastSeen read files =
      .ok ((lastSeenOf u zone files).or lastSeen, replay u zone read (allStamps u zone files)) := by
  induction files generalizing lastSeen read with
  | nil => rfl
  | cons file files ih =>
    have hrest := fun later hlater => h later (List.mem_cons_of_mem _ hlater)
    have hfile : readLines u zone ⟨file.date, none⟩ none read file.path.lines =
        .ok (((entries u zone file.path.lines).getLast?.map Prod.fst).or none,
          replay u zone read (entries u zone file.path.lines)) :=
      readLines_of_dated (h file List.mem_cons_self)
    rw [Option.or_none] at hfile
    rw [readFiles, hfile]
    refine (ih hrest).trans ?_
    rw [allStamps_cons, replay_append, lastSeenOf, lastSeenOf, List.getLast?_cons]
    cases files.getLast? <;> rfl

theorem openBy_replay {t : Moment} (hstart : OpenBy read t)
    (hopen : ∀ stamp ∈ stamps, OpenBy read stamp.1) (hforward : Forward stamps)
    (hlast : ∀ stamp ∈ stamps, stamp.1.wall ≤ t.wall) : OpenBy (replay u zone read stamps) t := by
  induction stamps generalizing read with
  | nil => exact hstart
  | cons stamp stamps ih =>
    obtain ⟨hfirst, hrest⟩ := List.pairwise_cons.mp hforward
    have hnow : OpenBy (handle u zone read stamp.1 stamp.2) stamp.1 :=
      openBy_handle (hopen stamp List.mem_cons_self)
    exact ih (hnow.mono (hlast stamp List.mem_cons_self))
      (fun later hlater => hnow.mono (hfirst later hlater)) hrest
      fun later hlater => hlast later (List.mem_cons_of_mem _ hlater)

theorem openBy_empty (t : Moment) : OpenBy {} t := List.forall_mem_nil _

theorem Forward.le_last {last : Stamp} (hforward : Forward stamps)
    (hlast : stamps.getLast? = some last) : ∀ stamp ∈ stamps, stamp.1.wall ≤ last.1.wall := by
  obtain ⟨before, rfl⟩ := List.getLast?_eq_some_iff.mp hlast
  obtain ⟨-, -, hle⟩ := List.pairwise_append.mp hforward
  rw [List.forall_mem_append, List.forall_mem_singleton]
  exact ⟨fun stamp hstamp => hle stamp hstamp last (List.mem_singleton.mpr rfl), le_rfl⟩

theorem closed_perm {last : Stamp} (hforward : Forward stamps)
    (hlast : stamps.getLast? = some last) :
    ((closeAll zone (replay u zone {} stamps) last.1).sessions).Perm
      ((expected u stamps).map (Stay.session zone)) := by
  have hopen : OpenBy (replay u zone {} stamps) last.1 :=
    openBy_replay (openBy_empty _) (fun _ _ => openBy_empty _) hforward (hforward.le_last hlast)
  have hperm : ((replay u zone {} stamps).sessions ++
      pending zone (replay u zone {} stamps).openSessions fun _ => last.1).Perm
      ([] ++ [] ++ (stays u last.1 stamps).map (Stay.session zone)) :=
    replay_perm (fun stamp _ => openBy_empty stamp.1) hforward
  rw [closeAll_eq hopen, expected, hlast, Option.map_some, Option.getD_some]
  exact hperm

theorem closeAll_of_empty (h : read.openSessions = ∅) (t : Moment) :
    closeAll zone read t = read := by
  rw [closeAll, h]
  rfl

theorem not_open (hforward : Forward stamps) (h : ¬ LeftOpen u stamps) :
    (replay u zone {} stamps).openSessions = ∅ := by
  refine AList.ext (List.eq_nil_iff_forall_not_mem.mpr fun entry hentry => ?_)
  rcases leftOpen_of_mem (fun stamp _ => openBy_empty stamp.1) hforward hentry with hleft | hmem
  · exact h hleft
  · cases hmem.1

def finish (zone : Zone) (read : Read) (seen : Option Moment) : Read :=
  (seen.map (closeAll zone read)).getD read

theorem parseFolder_of_read {seen : Option Moment} (hfiles : orderedFiles u folder = .ok files)
    (hread : readFiles u zone none {} files = .ok (some seen, read)) :
    parseFolder u zone folder =
      .ok ((finish zone read seen).sessions, (finish zone read seen).commands) := by
  rw [parseFolder, hfiles]
  simp only [bind, Except.bind, hread]
  cases seen <;> rfl

theorem finish_perm {seen : Option Moment} (hforward : Forward stamps)
    (hseen : seen = stamps.getLast?.map Prod.fst ∨ seen = none ∧ ¬ LeftOpen u stamps) :
    (finish zone (replay u zone {} stamps) seen).sessions.Perm
      ((expected u stamps).map (Stay.session zone)) := by
  cases hlast : stamps.getLast? with
  | none =>
    obtain rfl := List.getLast?_eq_none_iff.mp hlast
    obtain rfl : seen = none := hseen.elim id And.left
    exact List.Perm.refl _
  | some last =>
    have hclosed : ((closeAll zone (replay u zone {} stamps) last.1).sessions).Perm
      ((expected u stamps).map (Stay.session zone)) := closed_perm hforward hlast
    rcases hseen with rfl | ⟨rfl, hopen⟩
    · rw [hlast]
      exact hclosed
    · rwa [closeAll_of_empty (not_open hforward hopen)] at hclosed

theorem returned_of_regular (hfiles : orderedFiles u folder = .ok files)
    (hdated : ∀ file ∈ files,
      datedLines u ⟨file.date, none⟩ file.path.lines = .ok (entries u zone file.path.lines))
    (h : Regular u zone files) :
    ∃ sessions commands, parseFolder u zone folder = .ok (sessions, commands) ∧
      sessions.Perm ((expected u (allStamps u zone files)).map (Stay.session zone)) := by
  obtain ⟨before, file, rfl⟩ : ∃ before file, files = before ++ [file] :=
    ⟨_, _, (List.dropLast_append_getLast h.nonempty).symm⟩
  have hread : readFiles u zone none {} (before ++ [file]) =
      .ok ((lastSeenOf u zone (before ++ [file])).or none,
        replay u zone {} (allStamps u zone (before ++ [file]))) := readFiles_of_dated hdated
  have hseen : lastSeenOf u zone (before ++ [file]) =
      some ((entries u zone file.path.lines).getLast?.map Prod.fst) := by
    rw [lastSeenOf, List.getLast?_concat, Option.map_some]
  have hlast : (allStamps u zone (before ++ [file])).getLast? =
      (entries u zone file.path.lines).getLast?.or (allStamps u zone before).getLast? := by
    rw [allStamps, List.flatMap_append, List.flatMap_singleton, List.getLast?_append]
    rfl
  rw [hseen, Option.or_none] at hread
  refine ⟨_, _, parseFolder_of_read hfiles hread, finish_perm h.forward ?_⟩
  rw [hlast]
  cases hfile : (entries u zone file.path.lines).getLast? with
  | some last => exact .inl rfl
  | none =>
    refine .inr ⟨rfl, h.closed.resolve_left fun hlines => ?_⟩
    exact hlines file List.getLast?_concat (List.getLast?_eq_none_iff.mp hfile)

theorem endOf_mem {player : Text} {final : Moment} :
    endOf u final player stamps = final ∨ ∃ stamp ∈ stamps, endOf u final player stamps = stamp.1 := by
  rw [endOf]
  cases hfound : stamps.find? fun stamp => ends u player stamp.2 with
  | none => exact .inl rfl
  | some stamp => exact .inr ⟨stamp, List.mem_of_find?_eq_some hfound, rfl⟩

theorem left_mem {stay : Stay} {final : Moment} (h : stay ∈ stays u final stamps) :
    stay.left = final ∨ ∃ stamp ∈ stamps, stay.left = stamp.1 := by
  induction stamps with
  | nil => cases h
  | cons stamp stamps ih =>
    have hrest : stay ∈ stays u final stamps →
        stay.left = final ∨ ∃ later ∈ stamp :: stamps, stay.left = later.1 := by
      intro hmem
      refine (ih hmem).imp_right ?_
      rintro ⟨later, hlater, hleft⟩
      exact ⟨later, List.mem_cons_of_mem _ hlater, hleft⟩
    rw [stays] at h
    cases hkind : kind u stamp.2 with
    | joined player =>
      rw [hkind] at h
      rcases List.mem_cons.mp h with rfl | h
      · refine endOf_mem.imp_right ?_
        rintro ⟨later, hlater, hleft⟩
        exact ⟨later, List.mem_cons_of_mem _ hlater, hleft⟩
      · exact hrest h
    | boot => exact hrest (by rwa [hkind] at h)
    | left player => exact hrest (by rwa [hkind] at h)
    | command player command => exact hrest (by rwa [hkind] at h)
    | other => exact hrest (by rwa [hkind] at h)

theorem apart_expected (hforward : Forward stamps) : Apart (expected u stamps) := by
  rw [expected]
  cases hlast : stamps.getLast? with
  | none => exact ⟨List.forall_mem_nil _, .nil⟩
  | some last => exact apart_stays hforward (hforward.le_last hlast)

theorem times_of_expected {stay : Stay} (h : stay ∈ expected u stamps) :
    (∃ stamp ∈ stamps, stay.joined = stamp.1) ∧ ∃ stamp ∈ stamps, stay.left = stamp.1 := by
  rw [expected] at h
  cases hlast : stamps.getLast? with
  | none =>
    rw [hlast] at h
    cases h
  | some last =>
    rw [hlast] at h
    obtain ⟨stamp, hstamp, -, hjoined⟩ := mem_stays h
    refine ⟨⟨stamp, hstamp, hjoined⟩, ?_⟩
    rcases left_mem h with hleft | hleft
    · exact ⟨last, List.mem_of_getLast? hlast, hleft⟩
    · exact hleft

theorem recorded_of_apart (hforward : Forward stamps)
    (hzone : ∀ stamp ∈ stamps, ∀ stamp' ∈ stamps,
      stamp.1.wall ≤ stamp'.1.wall → zone.text stamp.1 ≤ zone.text stamp'.1) :
    ((expected u stamps).map (Stay.session zone)).Pairwise fun session session' =>
      session.player = session'.player → session.leftAt ≤ session'.joinedAt := by
  rw [List.pairwise_map]
  refine (apart_expected hforward).apart.imp_of_mem fun {stay stay'} hstay hstay' hapart => ?_
  obtain ⟨-, stamp, hstamp, hleft⟩ := times_of_expected hstay
  obtain ⟨⟨stamp', hstamp', hjoined⟩, -⟩ := times_of_expected hstay'
  intro hplayer
  have hle := hapart hplayer
  rw [hleft, hjoined] at hle
  have htext := hzone stamp hstamp stamp' hstamp' hle
  rwa [← hleft, ← hjoined] at htext

/-- A regular folder is imported as it was. -/
theorem imported_of_regular (u : DigitTable) (zone : Zone) (folder : List LogPath)
    (files : List LogFile) (hlogs : Chronicle u zone folder files) (h : Regular u zone files) :
    Imported u zone folder files := by
  have hdated : ∀ file ∈ files,
      datedLines u ⟨file.date, none⟩ file.path.lines = .ok (entries u zone file.path.lines) :=
    fun file hfile => (datedLines_iff (hlogs.truthful file hfile)).mpr (h.steady file hfile)
  exact ⟨hdated, returned_of_regular hlogs.ordered hdated h, apart_expected h.forward,
    recorded_of_apart h.forward⟩

end

/-! ### A day with a change of the clock -/

theorem isSpace_of_digit (c : Char) (h : c.isDigit = true) :
    CharTable.ascii.isSpace c = false := by
  have hrange : 48 ≤ c.toNat ∧ c.toNat ≤ 57 := Char.isDigit_iff_toNat.mp h
  exact CharTable.isSpace_ascii_table (by omega)

def asciiDigits : DigitTable where
  toCharTable := CharTable.ascii
  isDigit := Char.isDigit
  value c := c.toNat - '0'.toNat
  isDigit_of_isDecimal _ h := h
  isSpace_of_isDigit := isSpace_of_digit
  isDigit_ascii := CharTable.ascii.isDecimal_ascii
  value_ascii _ _ := rfl

/-- The day on which Paris leaves the summer time of 2025. -/
def changeDay : Date := ⟨Calendar.dayNumber 2025 10 26, Calendar.dayNumber_range (by decide)⟩

theorem clock_of_second (n : ℤ) :
    (n / 3600 % 24).toNat < 24 ∧ (n / 60 % 60).toNat < 60 ∧ (n % 60).toNat < 60 := by
  omega

def second (n : ℤ) : Moment where
  day := changeDay
  hour := (n / 3600 % 24).toNat
  minute := (n / 60 % 60).toNat
  second := (n % 60).toNat
  valid := clock_of_second n

theorem time_of_second (n : ℤ) : Calendar.IsTime 2025 10 26 (n / 3600 % 24).toNat
    (n / 60 % 60).toNat (n % 60).toNat 0 := by
  obtain ⟨hhour, hminute, hsecond⟩ := clock_of_second n
  exact ⟨by decide, by decide, by decide, hhour, hminute, hsecond, by decide⟩

def utcSecond (n : ℤ) : Time := ⟨2025, 10, 26, _, _, _, 0, time_of_second n⟩

/-- Instants are in seconds of the day in UTC; the first hour is still of the summer. -/
def paris : Zone where
  localTime t := second (if t < 3600 then t + 7200 else t + 3600)
  utc m := utcSecond (if m.ofDay < 10800 then m.ofDay - 7200 else m.ofDay - 3600)

def setBack : LogPath where
  name := "2025-10-26-1.log.gz".toList
  modified := changeDay
  lines := [⟨3000, "[02:50:00] [Server thread/INFO]: Alex joined the game\n".toList⟩,
    ⟨4200, "[02:10:00] [Server thread/INFO]: Alex left the game\n".toList⟩]

def joining : LogPath where
  name := "2025-10-26-2.log.gz".toList
  modified := changeDay
  lines := [⟨36000, "[11:00:00] [Server thread/INFO]: Alex joined the game\n".toList⟩]

def failing : LogPath where
  name := "2025-10-26-3.log.gz".toList
  modified := changeDay
  lines := [⟨39600, "[12:00:00] [main/ERROR]: Failed to start the server\n".toList⟩]

def leaving : LogPath where
  name := "latest.log".toList
  modified := changeDay
  lines := [⟨43200, "[13:00:00] [Server thread/INFO]: Alex left the game\n".toList⟩]

theorem truthful_of_all {u : DigitTable} {zone : Zone} {lines : List Line}
    (h : ∀ line ∈ lines, (matchLine u line.text).all fun m =>
      m.1 = (zone.localTime line.instant).clock) : Truthful u zone lines := by
  intro line hline c message hmatch
  have hclock := h line hline
  rw [hmatch] at hclock
  exact of_decide_eq_true hclock

theorem steady_of_all {day : Date} {stamps : List Stamp}
    (h : stamps.head?.all fun stamp => stamp.1.day = day)
    (hchain : stamps.IsChain fun stamp stamp' => Follows stamp.1 stamp'.1) :
    Steady day stamps := by
  refine ⟨fun stamp hstamp => ?_, hchain⟩
  rw [hstamp] at h
  exact of_decide_eq_true h

instance (t t' : Moment) : Decidable (Follows t t') := inferInstanceAs (Decidable (_ ∧ _))

/-- The folder, not in order, and the files of the day after the change. -/
def afternoon : List LogFile := [⟨changeDay, 2, joining⟩, ⟨changeDay, 3, failing⟩,
  ⟨changeDay, 10000, leaving⟩]

theorem afternoon_chronicle :
    Chronicle asciiDigits paris [leaving, failing, joining] afternoon where
  ordered := by decide +kernel
  truthful := by
    have hall : ∀ file ∈ afternoon, ∀ line ∈ file.path.lines,
        (matchLine asciiDigits line.text).all fun m =>
          m.1 = (paris.localTime line.instant).clock := by decide +kernel
    exact fun file hfile => truthful_of_all (hall file hfile)
  near := by decide +kernel

theorem afternoon_regular : Regular asciiDigits paris afternoon where
  nonempty := List.cons_ne_nil _ _
  steady := by
    have hall : ∀ file ∈ afternoon,
        ((entries asciiDigits paris file.path.lines).head?.all fun stamp =>
          stamp.1.day = file.date) ∧
        (entries asciiDigits paris file.path.lines).IsChain fun stamp stamp' =>
          Follows stamp.1 stamp'.1 := by decide +kernel
    exact fun file hfile => steady_of_all (hall file hfile).1 (hall file hfile).2
  forward := by
    rw [Forward]
    decide +kernel
  closed := by
    refine .inl fun file hfile => ?_
    obtain rfl := Option.some.inj hfile
    decide +kernel

theorem afternoon_imported :
    Imported asciiDigits paris [leaving, failing, joining] afternoon :=
  imported_of_regular asciiDigits paris _ afternoon afternoon_chronicle afternoon_regular

/-- A clock that is set back is taken for midnight; and a last file that tells nothing loses what
is open. -/
theorem not_imported :
    (Chronicle asciiDigits paris [setBack] [⟨changeDay, 1, setBack⟩] ∧
      ¬ Imported asciiDigits paris [setBack] [⟨changeDay, 1, setBack⟩]) ∧
    (Chronicle asciiDigits paris [joining, failing]
        [⟨changeDay, 2, joining⟩, ⟨changeDay, 3, failing⟩] ∧
      ¬ Imported asciiDigits paris [joining, failing]
        [⟨changeDay, 2, joining⟩, ⟨changeDay, 3, failing⟩]) := by
  refine ⟨⟨⟨by decide +kernel, ?_, by decide +kernel⟩, fun h => ?_⟩,
    ⟨⟨by decide +kernel, ?_, by decide +kernel⟩, fun h => ?_⟩⟩
  · have hall : ∀ line ∈ setBack.lines, (matchLine asciiDigits line.text).all fun m =>
        m.1 = (paris.localTime line.instant).clock := by decide +kernel
    rw [List.forall_mem_singleton]
    exact truthful_of_all hall
  · have hdated := h.dated _ (List.mem_singleton.mpr rfl)
    have hwrong : ¬ datedLines asciiDigits ⟨changeDay, none⟩ setBack.lines =
        .ok (entries asciiDigits paris setBack.lines) := by decide +kernel
    exact hwrong hdated
  · have hall : ∀ path ∈ [joining, failing], ∀ line ∈ path.lines,
        (matchLine asciiDigits line.text).all fun m =>
          m.1 = (paris.localTime line.instant).clock := by decide +kernel
    rw [List.forall_mem_cons, List.forall_mem_singleton]
    exact ⟨truthful_of_all (hall joining (by simp)), truthful_of_all (hall failing (by simp))⟩
  · obtain ⟨sessions, commands, hparse, hperm⟩ := h.returned
    have hlost : parseFolder asciiDigits paris [joining, failing] = .ok ([], []) := by
      decide +kernel
    rw [hlost, Except.ok.injEq, Prod.mk.injEq] at hparse
    obtain ⟨rfl, -⟩ := hparse
    have hone : (expected asciiDigits (allStamps asciiDigits paris
        [⟨changeDay, 2, joining⟩, ⟨changeDay, 3, failing⟩])).length = 1 := by decide +kernel
    have hlength := hperm.length_eq
    rw [List.length_map, hone] at hlength
    cases hlength

end LegacyImport
