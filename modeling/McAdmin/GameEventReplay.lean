import McAdmin.GameEventImport
import McAdmin.LegacyFolder

/-!
# Replaying the import

An import after another leaves what it leaves alone, when what was new in the first folder is told
again at the same times, of killers who are known alike.  Archives tell the same again; `latest.log`
does while its date is the one that the second import reads it under.
-/

namespace GameEventImport

open Backtracking
open Calendar (Date Time isoformat)
open GameEvents (GameEvent parseLine)
open IntText (DigitTable)
open LegacyImport (Line LogPath Zone fileOf)
open UniqueRows (Coherent)

def latestName : Text := "latest.log".toList

section

variable (u : DigitTable) (zone : Zone)

/-- The second folder was taken after the first: the archives are there, and `latest.log` went on,
under its name or under the day of its first line. -/
structure Later (first second : List LogPath) : Prop where
  archived : ∀ path ∈ first, path.name ≠ latestName → dateOf u path ≠ none →
    ∃ path' ∈ second, path'.name = path.name ∧ path'.lines = path.lines
  latest : ∀ path ∈ first, path.name = latestName →
    ∃ path' ∈ second, path.lines <+: path'.lines ∧ (path'.name = latestName ∨
      ∃ line, path'.lines.head? = some line ∧
        dateOf u path' = some (zone.localTime line.instant).day)

/-- The two imports leave what the second one leaves alone. -/
def Replayable (store : Store) (first second : Import) : Prop :=
  (apply u zone (apply u zone store first) second).rows.Perm (apply u zone store second).rows

def Fresh (store : Store) (event : GameEvent) (at_ : Time) : Prop :=
  (isoformat at_, kindName event.kind, String.ofList event.player, String.ofList event.raw) ∉
    store.keys

/-- The date of `latest.log` is the one under which its lines are read later. -/
def SameDate (first second : List LogPath) : Prop :=
  ∀ path ∈ first, path.name = latestName →
    ∃ path' ∈ second, path.lines <+: path'.lines ∧ dateOf u path' = some path.modified

/-- What is new in `latest.log` is told later for the very times that its date gave it. -/
def ToldAgain (store : Store) (first second : List LogPath) : Prop :=
  ∀ path ∈ first, path.name = latestName → ∀ event at_,
    Tells u zone ⟨path.modified, none⟩ path.lines event at_ → Fresh store event at_ →
      Told u zone second event at_

/-- A killer of a fact that is new is known to both imports or to none. -/
def KnownAlike (store : Store) (first second : Import) : Prop :=
  ∀ event at_, Told u zone first.folder event at_ → Fresh store event at_ →
    event.kind = .death → event.killer ≠ [] →
      (Knows u first event.killer ↔ Knows u second event.killer)

end

section

variable {u : DigitTable} {zone : Zone} {store : Store} {first second : Import}
  {event event' : GameEvent} {at_ at' : Time} {found found' : List Found} {fact fact' : Found}
  {lines lines' : List Line} {day : Date} {folder : List LogPath}

/-! ### Facts and rows -/

theorem raw_of_parseFact {body : Text} (h : GameEvents.parseFact body = some event) :
    event.raw = body := by
  rw [GameEvents.parseFact] at h
  split at h
  · cases h
    rfl
  · obtain ⟨d, -, hd⟩ := List.exists_of_findSome?_eq_some h
    obtain ⟨hit, -, rfl⟩ := Option.map_eq_some_iff.mp hd
    rfl

theorem parseBody_cases {thread body : Text}
    (h : GameEvents.parseBody u.toCharTable thread body = some event) :
    (∃ hit, GameEvents.chatRe.atStart body = some hit ∧
      event = ⟨.chat, hit.group 1, "chat", "", [], [], [], hit.group 2, body⟩) ∨
    GameEvents.chatRe.atStart body = none ∧ GameEvents.parseFact body = some event := by
  rw [GameEvents.parseBody] at h
  split at h
  · cases h
  · split at h
    · rename_i hit hchat
      cases h
      exact .inl ⟨hit, hchat, rfl⟩
    · rename_i hchat
      split at h
      · cases h
      · split at h
        · cases h
        · exact .inr ⟨hchat, h⟩

theorem raw_of_parseBody {thread body : Text}
    (h : GameEvents.parseBody u.toCharTable thread body = some event) : event.raw = body := by
  rcases parseBody_cases h with ⟨hit, -, rfl⟩ | ⟨-, hfact⟩
  · rfl
  · exact raw_of_parseFact hfact

theorem parseBody_unique {thread thread' body : Text}
    (h : GameEvents.parseBody u.toCharTable thread body = some event)
    (h' : GameEvents.parseBody u.toCharTable thread' body = some event') : event = event' := by
  rcases parseBody_cases h with ⟨hit, hchat, rfl⟩ | ⟨hchat, hfact⟩ <;>
    rcases parseBody_cases h' with ⟨hit', hchat', rfl⟩ | ⟨hchat', hfact'⟩
  · obtain rfl := Option.some.inj (hchat.symm.trans hchat')
    rfl
  · cases hchat.symm.trans hchat'
  · cases hchat.symm.trans hchat'
  · exact Option.some.inj (hfact.symm.trans hfact')

theorem event_of_raw {line line' : Text} (h : parseLine u.toCharTable line = some event)
    (h' : parseLine u.toCharTable line' = some event') (hraw : event.raw = event'.raw) :
    event = event' := by
  rw [parseLine] at h h'
  split at h
  · cases h
  · split at h'
    · cases h'
    · rw [raw_of_parseBody h, raw_of_parseBody h'] at hraw
      rw [← hraw] at h'
      exact parseBody_unique h h'

theorem exists_line_of_told (h : Told u zone folder event at_) :
    ∃ line, parseLine u.toCharTable line = some event := by
  obtain ⟨path, -, day, -, before, line, after, -, hparse, -⟩ := h
  exact ⟨line.text, hparse⟩

theorem isoformat_injective {t t' : Time} (h : isoformat t = isoformat t') : t = t' := by
  have hread := congrArg Calendar.fromisoformat h
  rw [Calendar.fromisoformat_isoformat, Calendar.fromisoformat_isoformat] at hread
  exact Option.some.inj hread

theorem eq_of_rowKey (h : Told u zone folder fact.event fact.at_)
    {folder' : List LogPath} (h' : Told u zone folder' fact'.event fact'.at_)
    (hkey : rowKey (eventRow fact) = rowKey (eventRow fact')) :
    fact.event = fact'.event ∧ fact.at_ = fact'.at_ := by
  obtain ⟨line, hparse⟩ := exists_line_of_told h
  obtain ⟨line', hparse'⟩ := exists_line_of_told h'
  have hraw : String.ofList fact.event.raw = String.ofList fact'.event.raw :=
    congrArg (fun k => k.2.2.2) hkey
  exact ⟨event_of_raw hparse hparse' (String.ofList_inj.mp hraw),
    isoformat_injective (congrArg Prod.fst hkey)⟩

theorem coherent_find (h : find u zone first = .ok found) :
    Coherent rowKey (found.map eventRow) := by
  intro row hrow row' hrow' hkey
  obtain ⟨fact, hfact, rfl⟩ := List.mem_map.mp hrow
  obtain ⟨fact', hfact', rfl⟩ := List.mem_map.mp hrow'
  obtain ⟨htold, players, hplayers, hkiller⟩ := (mem_find h fact).mp hfact
  obtain ⟨htold', players', hplayers', hkiller'⟩ := (mem_find h fact').mp hfact'
  obtain ⟨hevent, hat⟩ := eq_of_rowKey htold htold' hkey
  obtain rfl := Except.ok.inj (hplayers.symm.trans hplayers')
  rw [hevent, ← hkiller'] at hkiller
  obtain ⟨event, at_, killerType⟩ := fact
  dsimp only at hevent hat hkiller
  rw [hevent, hat, hkiller]

theorem apply_of_ok (h : find u zone first = .ok found) (store : Store) :
    apply u zone store first = store.insertAll (found.map eventRow) := by
  rw [apply, h, UniqueRows.Table.insertAll, List.foldl_map]
  rfl

theorem apply_of_unreadable (h : ¬ Readable u first.folder) (store : Store) :
    apply u zone store first = store := by
  rw [apply]
  cases hfind : find u zone first with
  | error e => rfl
  | ok found => exact absurd (exists_find_iff.mp ⟨found, hfind⟩) h

/-! ### What is found again -/

theorem mem_rows_iff (h : find u zone first = .ok found) (h' : find u zone second = .ok found')
    (hfact : fact ∈ found) : eventRow fact ∈ found'.map eventRow ↔
      Told u zone second.folder fact.event fact.at_ ∧
        (fact.event.kind = .death → fact.event.killer ≠ [] →
          (Knows u first fact.event.killer ↔ Knows u second fact.event.killer)) := by
  obtain ⟨htold, players, hplayers, hkiller⟩ := (mem_find h fact).mp hfact
  simp only [← mem_knownPlayers hplayers]
  constructor
  · intro hrow
    obtain ⟨fact', hfact', heq⟩ := List.mem_map.mp hrow
    obtain ⟨htold', players', hplayers', hkiller'⟩ := (mem_find h' fact').mp hfact'
    obtain ⟨hevent, hat⟩ := eq_of_rowKey htold' htold (congrArg rowKey heq)
    simp only [← mem_knownPlayers hplayers']
    rw [hevent, hat] at htold'
    refine ⟨htold', killerType_eq_iff.mp ?_⟩
    have hsame : fact'.killerType = fact.killerType :=
      congrArg StoredTimes.EventRow.killerType heq
    rw [← hkiller, ← hsame, hkiller', hevent]
  · rintro ⟨htold', hknown⟩
    have hplayers' : ∃ players', knownPlayers u second = .ok players' := by
      have hread := exists_find_iff.mp ⟨found', h'⟩
      obtain ⟨files, hfiles⟩ := exists_orderedFiles_iff.mpr hread.named
      rw [knownPlayers, hfiles]
      exact ⟨_, rfl⟩
    obtain ⟨players', hplayers'⟩ := hplayers'
    simp only [← mem_knownPlayers hplayers'] at hknown
    have hverdict := hkiller.trans (killerType_eq_iff.mpr hknown)
    exact List.mem_map_of_mem ((mem_find h' fact).mpr ⟨htold', players', hplayers', hverdict⟩)

theorem tells_of_prefix {dating : LegacyImport.Dating} (h : lines <+: lines')
    (htells : Tells u zone dating lines event at_) : Tells u zone dating lines' event at_ := by
  obtain ⟨more, rfl⟩ := h
  obtain ⟨before, line, after, rfl, hfact⟩ := htells
  exact ⟨before, line, after ++ more, by simp, hfact⟩

theorem toldAgain_of_sameDate (h : SameDate u first.folder second.folder) :
    ToldAgain u zone store first.folder second.folder := by
  intro path hpath hname event at_ htells _
  obtain ⟨path', hpath', hprefix, hdate⟩ := h path hpath hname
  exact ⟨path', hpath', path.modified, hdate, tells_of_prefix hprefix htells⟩

/-! ### The dates of paths -/

theorem latestName_eq : latestName = ['l', 'a', 't', 'e', 's', 't', '.', 'l', 'o', 'g'] := by
  decide +kernel

theorem filenameRe_latest : (LegacyImport.filenameRe u).atStart latestName = none := by
  have hstarts : Starts (LegacyImport.filenameRe u) u.isDecimal := by
    unfold LegacyImport.filenameRe
    have hyear : Starts (.group (.many true u.isDecimal 4 (some 4))) u.isDecimal :=
      Starts.group (starts_many (by decide))
    exact hyear.append.append.append.append.append.append.append.append
  have hletter : u.isDecimal 'l' = false := u.isDecimal_ascii 'l' (by decide)
  rw [latestName_eq]
  exact hstarts.atStart_eq_none hletter _

theorem dateOf_latest {path : LogPath} (h : path.name = latestName) :
    dateOf u path = some path.modified := by
  refine dateOf_eq_some_iff.mpr ⟨⟨path.modified, 10000, path⟩, ?_, rfl⟩
  rw [fileOf, h, filenameRe_latest]
  exact if_pos rfl

theorem dateOf_congr {path path' : LogPath} (hname : path'.name = path.name)
    (hother : path.name ≠ latestName) : dateOf u path' = dateOf u path := by
  have hsome : ∀ day, dateOf u path' = some day ↔ dateOf u path = some day := by
    intro day
    simp only [dateOf_eq_some_iff, fileOf, hname]
    have hlog : ¬ path.name = "latest.log".toList := hother
    cases (LegacyImport.filenameRe u).atStart path.name with
    | none => simp only [if_neg hlog, Except.ok.injEq, reduceCtorEq, false_and, exists_false]
    | some m =>
      cases hdate : LegacyImport.makeDate (LegacyImport.int u (m.group 1))
        (LegacyImport.int u (m.group 2)) (LegacyImport.int u (m.group 3)) with
      | error e => simp [hdate, bind, Except.bind]
      | ok date => simp [hdate, bind, Except.bind, pure, Except.pure]
  exact Option.ext hsome

theorem told_of_archived (hlater : Later u zone first.folder second.folder) {path : LogPath}
    (hpath : path ∈ first.folder) (hother : path.name ≠ latestName)
    (hdate : dateOf u path = some day) (htells : Tells u zone ⟨day, none⟩ path.lines event at_) :
    Told u zone second.folder event at_ := by
  obtain ⟨path', hpath', hname, hlines⟩ := hlater.archived path hpath hother (by simp [hdate])
  refine ⟨path', hpath', day, ?_, ?_⟩
  · rw [dateOf_congr hname hother, hdate]
  · rw [hlines]
    exact htells

/-! ### Two imports -/

theorem exists_fact (h : find u zone first = .ok found)
    (htold : Told u zone first.folder event at_) :
    ∃ killerType, ⟨event, at_, killerType⟩ ∈ found := by
  have hread := exists_find_iff.mp ⟨found, h⟩
  obtain ⟨files, hfiles⟩ := exists_orderedFiles_iff.mpr hread.named
  have hplayers : ∃ players, knownPlayers u first = .ok players := by
    rw [knownPlayers, hfiles]
    exact ⟨_, rfl⟩
  obtain ⟨players, hplayers⟩ := hplayers
  exact ⟨killerType u players event, (mem_find h _).mpr ⟨htold, players, hplayers, rfl⟩⟩

/-- Two imports leave what the second leaves alone exactly when the first cannot be read or finds
nothing new, or when the second can be read, what is new in `latest.log` keeps its times, and the
killers are known alike. -/
theorem replayable_iff (hlater : Later u zone first.folder second.folder) :
    Replayable u zone store first second ↔
      ¬ Readable u first.folder ∨
        (∀ event at_, Told u zone first.folder event at_ → ¬ Fresh store event at_) ∨
        Readable u second.folder ∧
          (SameDate u first.folder second.folder ∨
            ToldAgain u zone store first.folder second.folder) ∧
          KnownAlike u zone store first second := by
  by_cases hfirst : Readable u first.folder
  swap
  · refine iff_of_true ?_ (.inl hfirst)
    rw [Replayable, apply_of_unreadable hfirst]
  rw [or_iff_right (not_not_intro hfirst)]
  obtain ⟨found, hfound⟩ := exists_find_iff.mpr hfirst
  have hfresh : ∀ P : GameEvent → Time → Prop,
      (∀ fact ∈ found, rowKey (eventRow fact) ∉ store.keys → P fact.event fact.at_) ↔
        ∀ event at_, Told u zone first.folder event at_ → Fresh store event at_ → P event at_ := by
    intro P
    constructor
    · intro h event at_ htold hnew
      obtain ⟨killerType, hmem⟩ := exists_fact hfound htold
      exact h _ hmem hnew
    · intro h fact hmem hnew
      exact h fact.event fact.at_ ((mem_find hfound fact).mp hmem).1 hnew
  by_cases hsecond : Readable u second.folder
  swap
  · rw [Replayable, apply_of_unreadable hsecond, apply_of_unreadable hsecond,
      apply_of_ok hfound]
    -- the second import adds nothing: the first must have found nothing new
    have hnil : Coherent rowKey ([] : List StoredTimes.EventRow) := fun row hrow => by cases hrow
    rw [or_iff_left (fun h => hsecond h.1)]
    refine (UniqueRows.insertAll_insertAll_perm_iff (coherent_find hfound) hnil).trans ?_
    simp only [List.forall_mem_map, List.not_mem_nil]
    exact hfresh fun _ _ => False
  obtain ⟨found', hfound'⟩ := exists_find_iff.mpr hsecond
  rw [Replayable, apply_of_ok hfound, apply_of_ok hfound', apply_of_ok hfound',
    UniqueRows.insertAll_insertAll_perm_iff (coherent_find hfound) (coherent_find hfound'),
    List.forall_mem_map]
  have hmem : (∀ fact ∈ found, rowKey (eventRow fact) ∉ store.keys →
      eventRow fact ∈ found'.map eventRow) ↔
      ∀ event at_, Told u zone first.folder event at_ → Fresh store event at_ →
        Told u zone second.folder event at_ ∧ (event.kind = .death → event.killer ≠ [] →
          (Knows u first event.killer ↔ Knows u second event.killer)) := by
    rw [← hfresh]
    exact forall₂_congr fun fact hfact => by rw [mem_rows_iff hfound hfound' hfact]
  rw [hmem]
  constructor
  · intro h
    refine .inr ⟨hsecond, .inr ?_, fun event at_ htold hnew => (h event at_ htold hnew).2⟩
    intro path hpath hname event at_ htells hnew
    exact (h event at_ ⟨path, hpath, path.modified, dateOf_latest hname, htells⟩ hnew).1
  · rintro (hnone | ⟨-, hdates, hknown⟩) event at_ htold hnew
    · exact absurd hnew (hnone event at_ htold)
    · have hagain : ToldAgain u zone store first.folder second.folder :=
        hdates.elim toldAgain_of_sameDate id
      refine ⟨?_, hknown event at_ htold hnew⟩
      obtain ⟨path, hpath, day, hday, htells⟩ := htold
      -- archived logs keep their dates; only `latest.log` can move
      by_cases hname : path.name = latestName
      · obtain rfl := Option.some.inj ((dateOf_latest hname).symm.trans hday)
        exact hagain path hpath hname event at_ htells hnew
      · exact told_of_archived hlater hpath hname hday htells

end

/-! ### A log that goes on after midnight -/

theorem date_range_first : 1 ≤ Calendar.dayNumber 2026 7 1 ∧
    Calendar.dayNumber 2026 7 1 ≤ Calendar.maxOrdinal := Calendar.dayNumber_range (by decide)

theorem date_range_next : 1 ≤ Calendar.dayNumber 2026 7 2 ∧
    Calendar.dayNumber 2026 7 2 ≤ Calendar.maxOrdinal := Calendar.dayNumber_range (by decide)

def firstDay : Date := ⟨Calendar.dayNumber 2026 7 1, date_range_first⟩

def secondDay : Date := ⟨Calendar.dayNumber 2026 7 2, date_range_next⟩

theorem isTime_first {hour minute second : ℕ} (h : hour < 24 ∧ minute < 60 ∧ second < 60) :
    Calendar.IsTime 2026 7 1 hour minute second 0 :=
  ⟨by decide, by decide, by decide, h.1, h.2.1, h.2.2, by decide⟩

theorem isTime_second {hour minute second : ℕ} (h : hour < 24 ∧ minute < 60 ∧ second < 60) :
    Calendar.IsTime 2026 7 2 hour minute second 0 :=
  ⟨by decide, by decide, by decide, h.1, h.2.1, h.2.2, by decide⟩

/-- A server in UTC, on these two days; instants are in seconds since the first begins. -/
def utcServer : Zone where
  localTime t := { LegacyImport.second t with day := if t < 86400 then firstDay else secondDay }
  utc m :=
    if m.day = firstDay then ⟨2026, 7, 1, m.hour, m.minute, m.second, 0, isTime_first m.valid⟩
    else ⟨2026, 7, 2, m.hour, m.minute, m.second, 0, isTime_second m.valid⟩

def drowning : Line := ⟨82800, "[23:00:00] [Server thread/INFO]: Trappeur drowned\n".toList⟩

def afterMidnight : Line :=
  ⟨86460, "[00:01:00] [Server thread/INFO]: Trappeur left the game\n".toList⟩

/-- `latest.log`, last changed on a day -/
def latestLog (modified : Date) (lines : List Line) : LogPath := ⟨latestName, modified, lines⟩

def evening : Import := ⟨[latestLog firstDay [drowning]], [], []⟩

def nextMorning : Import := ⟨[latestLog secondDay [drowning, afterMidnight]], [], []⟩

def emptyStore : Store := ⟨[], List.nodup_nil⟩

def Near (folder : List LogPath) : Prop :=
  ∀ path ∈ folder, path.lines.IsChain fun line line' =>
    line.instant ≤ line'.instant ∧ line'.instant < line.instant + 86400

theorem later_refl (folder : List LogPath) :
    Later LegacyImport.asciiDigits utcServer folder folder := by
  constructor
  · intro path hpath _ _
    exact ⟨path, hpath, rfl, rfl⟩
  · intro path hpath hname
    exact ⟨path, hpath, List.prefix_rfl, .inl hname⟩

theorem readable_evening : Readable LegacyImport.asciiDigits evening.folder := by
  have hfound : (find LegacyImport.asciiDigits utcServer evening).isOk = true := by decide +kernel
  cases hfind : find LegacyImport.asciiDigits utcServer evening with
  | ok found => exact exists_find_iff.mp ⟨found, hfind⟩
  | error e =>
    rw [hfind] at hfound
    cases hfound

/-- An import twice of one folder. -/
theorem evening_replayable :
    Replayable LegacyImport.asciiDigits utcServer emptyStore evening evening := by
  have hsame : SameDate LegacyImport.asciiDigits evening.folder evening.folder :=
    fun path hpath hname => ⟨path, hpath, List.prefix_rfl, dateOf_latest hname⟩
  exact (replayable_iff (later_refl evening.folder)).mpr
    (.inr (.inr ⟨readable_evening, .inl hsame, fun _ _ _ _ _ _ => Iff.rfl⟩))

theorem later_nextMorning :
    Later LegacyImport.asciiDigits utcServer evening.folder nextMorning.folder := by
  constructor
  · intro path hpath hname
    obtain rfl := List.mem_singleton.mp hpath
    exact absurd rfl hname
  · intro path hpath _
    obtain rfl := List.mem_singleton.mp hpath
    exact ⟨_, List.mem_singleton.mpr rfl, ⟨[afterMidnight], rfl⟩, .inl rfl⟩

/-- An archive in which a player is slain by one who has not joined yet. -/
def slaying : LogPath where
  name := "2026-07-01-1.log.gz".toList
  modified := firstDay
  lines := [⟨75600, "[21:00:00] [Server thread/INFO]: Trappeur was slain by Bucheron\n".toList⟩]

def joiningLater : LogPath where
  name := "2026-07-02-1.log.gz".toList
  modified := secondDay
  lines := [⟨90000, "[01:00:00] [Server thread/INFO]: Bucheron joined the game\n".toList⟩]

theorem later_joining :
    Later LegacyImport.asciiDigits utcServer [slaying] [slaying, joiningLater] := by
  constructor
  · intro path hpath _ _
    exact ⟨path, List.mem_append_left [joiningLater] hpath, rfl, rfl⟩
  · intro path hpath hname
    obtain rfl := List.mem_singleton.mp hpath
    exact absurd hname (by decide +kernel)

/-- What was read of `latest.log` before midnight is doubled; and who slew is a mob for good. -/
theorem not_replayable :
    (Later LegacyImport.asciiDigits utcServer evening.folder nextMorning.folder ∧
      Near evening.folder ∧ Near nextMorning.folder ∧
      ¬ Replayable LegacyImport.asciiDigits utcServer emptyStore evening nextMorning) ∧
    (Later LegacyImport.asciiDigits utcServer [slaying] [slaying, joiningLater] ∧
      Near [slaying] ∧ Near [slaying, joiningLater] ∧
      ¬ Replayable LegacyImport.asciiDigits utcServer emptyStore ⟨[slaying], [], []⟩
        ⟨[slaying, joiningLater], [], []⟩) := by
  refine ⟨⟨later_nextMorning, ?_, ?_, fun h => ?_⟩, later_joining, ?_, ?_, fun h => ?_⟩
  · rw [Near]
    decide +kernel
  · rw [Near]
    decide +kernel
  · have htwo : (apply LegacyImport.asciiDigits utcServer
        (apply LegacyImport.asciiDigits utcServer emptyStore evening) nextMorning).rows.length =
          2 := by decide +kernel
    have hone : (apply LegacyImport.asciiDigits utcServer emptyStore nextMorning).rows.length = 1 :=
      by decide +kernel
    rw [Replayable] at h
    rw [h.length_eq, hone] at htwo
    cases htwo
  · rw [Near]
    decide +kernel
  · rw [Near]
    decide +kernel
  · have hmob : ((apply LegacyImport.asciiDigits utcServer (apply LegacyImport.asciiDigits utcServer
        emptyStore ⟨[slaying], [], []⟩) ⟨[slaying, joiningLater], [], []⟩).rows.map
          StoredTimes.EventRow.killerType) = ["mob"] := by decide +kernel
    have hplayer : ((apply LegacyImport.asciiDigits utcServer emptyStore
        ⟨[slaying, joiningLater], [], []⟩).rows.map StoredTimes.EventRow.killerType) =
          ["player"] := by decide +kernel
    have hperm := h.map StoredTimes.EventRow.killerType
    rw [hmob, hplayer] at hperm
    exact absurd (List.singleton_perm_singleton.mp hperm) (by decide)

end GameEventImport
