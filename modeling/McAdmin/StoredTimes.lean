import Mathlib.Data.List.Perm.Basic
import McAdmin.Dates
import McAdmin.SessionTable

/-!
# Stored times

The tables of the players keep times as texts, and their queries compare and sort texts.  The
texts of two times are in the order of the times, with a fraction of a second or without one: a
query selects what a comparison of times would.
-/

namespace StoredTimes

open Calendar (Text Time isoformat fromisoformat dayNumber daysIn)
open NewestFirst
open PlayerHistory (SessionRow)
open Timeline (Sqlite PlayerSession PlayerCommand RecordedEvent instant)

/-! ### The tables -/

/-- A row of `player_commands`. -/
structure CommandRow where
  player : String
  at_ : Text
  command : String
deriving DecidableEq

/-- A row of `game_events`. -/
structure EventRow where
  at_ : Text
  kind : String
  player : String
  messageKey : String
  cause : String
  killer : String
  killerId : String
  killerType : String
  weapon : String
  detail : String
  raw : String
deriving DecidableEq

/-! ### The queries -/

/-- `column >= ?`, if there is a time -/
def atLeast (since : Option Time) (column : Text) : Bool :=
  since.all fun since => isoformat since ≤ column

/-- `kind IN (...)`, if there are kinds -/
def ofKinds (kinds : Option (List String)) (row : EventRow) : Bool :=
  kinds.all fun kinds => kinds.isEmpty || kinds.contains row.kind

/-- `player = ? COLLATE NOCASE` -/
def ofPlayer (player : String) (row : EventRow) : Bool :=
  row.player.toList.map Char.toLower = player.toList.map Char.toLower

section

variable (db : Sqlite)

/-- `SELECT ... WHERE ... ORDER BY column DESC LIMIT ?` -/
def query {ρ : Type} (column : ρ → Text) (condition : ρ → Bool) (limit : ℕ) (table : List ρ) :
    List ρ :=
  (db.orderByDesc column (table.filter condition)).take limit

def readSession (row : SessionRow) : Option PlayerSession := do
  let joinedAt ← fromisoformat row.joinedAt
  match row.leftAt with
  | none => return ⟨row.player, joinedAt, none⟩
  | some left =>
    let leftAt ← fromisoformat left
    return ⟨row.player, joinedAt, some leftAt⟩

def readCommand (row : CommandRow) : Option PlayerCommand := do
  let at_ ← fromisoformat row.at_
  return ⟨row.player, at_, row.command⟩

def readEvent (row : EventRow) : Option RecordedEvent := do
  let at_ ← fromisoformat row.at_
  return ⟨at_, row.kind, row.player, row.messageKey, row.cause, row.killer, row.killerId,
    row.killerType, row.weapon, row.detail, row.raw⟩

def recentSessions (limit : ℕ) (since : Option Time) (table : List SessionRow) :
    Option (List PlayerSession) :=
  (query db SessionRow.joinedAt (fun row => row.leftAt.all (atLeast since)) limit table).mapM
    readSession

def recentCommands (limit : ℕ) (since : Option Time) (table : List CommandRow) :
    Option (List PlayerCommand) :=
  (query db CommandRow.at_ (fun row => atLeast since row.at_) limit table).mapM readCommand

/-- `recent` -/
def recentEvents (limit : ℕ) (since : Option Time) (kinds : Option (List String))
    (table : List EventRow) : Option (List RecordedEvent) :=
  (query db EventRow.at_ (fun row => atLeast since row.at_ && ofKinds kinds row) limit table).mapM
    readEvent

def forPlayer (player : String) (limit : ℕ) (kinds : Option (List String))
    (table : List EventRow) : Option (List RecordedEvent) :=
  (query db EventRow.at_ (fun row => ofPlayer player row && ofKinds kinds row) limit table).mapM
    readEvent

end

/-- `kind = 'chat' AND at < ?` -/
def purged (before : Time) (row : EventRow) : Bool := row.kind == "chat" && row.at_ < isoformat before

/-- The table that is left, and the number of rows that are gone. -/
def purgeChat (before : Time) (table : List EventRow) : List EventRow × ℕ :=
  (table.filter fun row => !purged before row, table.countP (purged before))

/-- `MIN(at)` of the rows of a player -/
def firstSeen (player : String) (table : List EventRow) : Option Time :=
  ((table.filter (ofPlayer player)).map EventRow.at_).min?.bind fromisoformat

/-- `MAX(at)` of the rows of a player -/
def lastSeen (player : String) (table : List EventRow) : Option Time :=
  ((table.filter (ofPlayer player)).map EventRow.at_).max?.bind fromisoformat

/-! ### The order of times -/

section

variable {year year' month month' day day' : ℕ}

def before (year month : ℕ) : ℕ := ((List.range (month - 1)).map fun m => daysIn year (m + 1)).sum

def yearsBefore (year : ℕ) : ℕ :=
  (year - 1) * 365 + (year - 1) / 4 - (year - 1) / 100 + (year - 1) / 400

theorem yearsBefore_succ (h : 1 ≤ year) :
    yearsBefore (year + 1) = yearsBefore year + (337 + daysIn year 2) := by
  obtain ⟨k, rfl⟩ : ∃ k, year = k + 1 := ⟨year - 1, by omega⟩
  have hfebruary : daysIn (k + 1) 2 =
      if (k + 1) % 4 = 0 ∧ ((k + 1) % 100 ≠ 0 ∨ (k + 1) % 400 = 0) then 29 else 28 := if_pos rfl
  have hfour : (k + 1) / 4 = k / 4 + if (k + 1) % 4 = 0 then 1 else 0 := by split_ifs <;> omega
  have hhundred : (k + 1) / 100 = k / 100 + if (k + 1) % 100 = 0 then 1 else 0 := by
    split_ifs <;> omega
  have hlong : (k + 1) / 400 = k / 400 + if (k + 1) % 400 = 0 then 1 else 0 := by
    split_ifs <;> omega
  have hcentury : (k + 1) % 100 = 0 → (k + 1) % 4 = 0 := by omega
  have hfourth : (k + 1) % 400 = 0 → (k + 1) % 100 = 0 := by omega
  have hquotient : k / 100 ≤ k / 4 := Nat.div_le_div_left (by decide) (by decide)
  rw [yearsBefore, yearsBefore, Nat.add_sub_cancel, Nat.add_sub_cancel, hfour, hhundred, hlong,
    hfebruary]
  generalize k / 4 = four at *
  generalize k / 100 = hundred at *
  generalize k / 400 = long at *
  by_cases h4 : (k + 1) % 4 = 0
  · by_cases h100 : (k + 1) % 100 = 0
    · by_cases h400 : (k + 1) % 400 = 0
      · rw [if_pos h4, if_pos h100, if_pos h400, if_pos ⟨h4, .inr h400⟩]
        omega
      · rw [if_pos h4, if_pos h100, if_neg h400, if_neg fun h => h.2.elim (· h100) h400]
        omega
    · rw [if_pos h4, if_neg h100, if_neg (h100 ∘ hfourth), if_pos ⟨h4, .inl h100⟩]
      omega
  · rw [if_neg h4, if_neg (h4 ∘ hcentury), if_neg (h4 ∘ hcentury ∘ hfourth), if_neg (h4 ·.1)]
    omega

theorem yearsBefore_add (h : 1 ≤ year) (hlt : year < year') :
    yearsBefore year + (337 + daysIn year 2) ≤ yearsBefore year' := by
  induction year', hlt using Nat.le_induction with
  | base => exact (yearsBefore_succ h).ge
  | succ year' hle ih =>
    have hnext : yearsBefore (year' + 1) = yearsBefore year' + (337 + daysIn year' 2) :=
      yearsBefore_succ (by omega)
    omega

theorem before_add (hmonth : 1 ≤ month) (h : month < month') :
    before year month + daysIn year month ≤ before year month' := by
  obtain ⟨k, rfl⟩ : ∃ k, month' = month + 1 + k := ⟨month' - (month + 1), by omega⟩
  unfold before
  have hsplit : month + 1 + k - 1 = (month - 1 + 1) + k := by omega
  rw [hsplit, List.range_add, List.map_append, List.sum_append, List.range_succ, List.map_append,
    List.sum_append, List.map_singleton, List.sum_singleton, Nat.sub_add_cancel hmonth]
  exact Nat.le_add_right _ _

theorem dayNumber_eq (year month day : ℕ) :
    dayNumber year month day = yearsBefore year + before year month + day := rfl

theorem dayNumber_lt (h : Calendar.IsDate year month day) (h' : Calendar.IsDate year' month' day')
    (hlt : year < year' ∨ year = year' ∧ (month < month' ∨ month = month' ∧ day < day')) :
    dayNumber year month day < dayNumber year' month' day' := by
  obtain ⟨hpositive, hmonth, hday⟩ := h
  obtain ⟨-, -, hday'⟩ := h'
  rw [dayNumber_eq, dayNumber_eq]
  rcases hlt with hyear | ⟨rfl, hmonth' | ⟨rfl, hlt⟩⟩
  · have hlast : before year month + day ≤ 337 + daysIn year 2 :=
      Calendar.dayOfYear_le hmonth hday.2
    have hyears := yearsBefore_add hpositive.1 hyear
    omega
  · have hmonths : before year month + daysIn year month ≤ before year month' :=
      before_add hmonth.1 hmonth'
    omega
  · omega

end

section

variable {t t' : Time}

theorem isDate (t : Time) : Calendar.IsDate t.year t.month t.day :=
  ⟨t.valid.1, t.valid.2.1, t.valid.2.2.1⟩

theorem instant_lt (h : t.key < t'.key) : instant t < instant t' := by
  obtain ⟨-, -, -, hhour, hminute, hsecond, hmicro⟩ := t.valid
  simp only [Time.key, Prod.Lex.toLex_lt_toLex] at h
  have hdays : Timeline.ordinal t < Timeline.ordinal t' ∨
      (t.year = t'.year ∧ t.month = t'.month ∧ t.day = t'.day) := by
    by_cases hsame : t.year = t'.year ∧ t.month = t'.month ∧ t.day = t'.day
    · exact .inr hsame
    · exact .inl (dayNumber_lt (isDate t) (isDate t') (by omega))
  rw [instant, instant]
  rcases hdays with hdays | ⟨hyear, hmonth, hday⟩
  · omega
  · have hsame : Timeline.ordinal t = Timeline.ordinal t' := by
      unfold Timeline.ordinal
      rw [hyear, hmonth, hday]
    omega

theorem instant_le : instant t ≤ instant t' ↔ t.key ≤ t'.key := by
  rcases lt_trichotomy t.key t'.key with h | h | h
  · exact iff_of_true (instant_lt h).le h.le
  · rw [Time.key_injective h]
    exact iff_of_true le_rfl le_rfl
  · exact iff_of_false (instant_lt h).not_ge h.not_ge

theorem isoformat_le_iff : isoformat t ≤ isoformat t' ↔ instant t ≤ instant t' :=
  Calendar.isoformat_le.trans instant_le.symm

theorem isoformat_lt_iff : isoformat t < isoformat t' ↔ instant t < instant t' := by
  rw [← not_le, ← not_le, isoformat_le_iff]

end

/-! ### What a query selects -/

section

variable {ρ α : Type}

theorem mapM_of_forall₂ {read : ρ → Option α} {rows : List ρ} {items : List α}
    (h : List.Forall₂ (fun row item => read row = some item) rows items) :
    rows.mapM read = some items := by
  induction h with
  | nil => rfl
  | cons hread _ ih => simp [List.mapM_cons, hread, ih]

structure Tells (column : ρ → Text) (condition : ρ → Bool) (read : ρ → Option α) (time : α → Time)
    (counts : α → Bool) (row : ρ) (item : α) : Prop where
  column : column row = isoformat (time item)
  condition : condition row = counts item
  read : read row = some item

variable {column : ρ → Text} {condition : ρ → Bool} {read : ρ → Option α} {time : α → Time}
  {counts : α → Bool} {table rows : List ρ} {items : List α}

theorem map_column (h : List.Forall₂ (Tells column condition read time counts) rows items) :
    rows.map column = items.map fun item => isoformat (time item) := by
  rw [← List.forall₂_eq_eq_eq, List.forall₂_map_left_iff, List.forall₂_map_right_iff]
  exact h.imp fun _ _ hrow => hrow.column

theorem descending_of_tells
    (h : List.Forall₂ (Tells column condition read time counts) rows items)
    (hsorted : Descending column rows) : Descending (fun item => instant (time item)) items := by
  have htexts : (rows.map column).Pairwise fun a b => b ≤ a := List.pairwise_map.mpr hsorted
  rw [map_column h, List.pairwise_map] at htexts
  exact htexts.imp fun hle => isoformat_le_iff.mp hle

theorem query_isNewest (db : Sqlite) (limit : ℕ)
    (h : List.Forall₂ (Tells column condition read time counts) table items) :
    ∃ answer, (query db column condition limit table).mapM read = some answer ∧
      IsNewest (fun item => instant (time item)) limit (items.filter counts) answer := by
  have hfilter : List.Forall₂ (Tells column condition read time counts)
      (table.filter condition) (items.filter counts) := by
    refine List.rel_filter ?_ h
    intro row item hrow
    exact iff_of_eq (congrArg (· = true) hrow.condition)
  obtain ⟨ordered, hordered, hperm⟩ :=
    List.perm_comp_forall₂ (db.perm column (table.filter condition)) hfilter
  have hsorted := descending_of_tells hordered (db.sorted column (table.filter condition))
  refine ⟨ordered.take limit, ?_, hsorted.isNewest_take hperm limit⟩
  rw [query]
  exact mapM_of_forall₂ ((List.forall₂_take limit hordered).imp fun _ _ hrow => hrow.read)

end

/-! ### The tables and what was recorded -/

def commandRow (command : PlayerCommand) : CommandRow :=
  ⟨command.player, isoformat command.at_, command.command⟩

def eventRow (event : RecordedEvent) : EventRow :=
  ⟨isoformat event.at_, event.kind, event.player, event.key, event.cause, event.killer,
    event.killerId, event.killerType, event.weapon, event.detail, event.raw⟩

def Reaches (since : Option Time) (t : Time) : Prop := ∀ from_ ∈ since, instant from_ ≤ instant t

instance (since : Option Time) (t : Time) : Decidable (Reaches since t) :=
  inferInstanceAs (Decidable (∀ from_ ∈ since, instant from_ ≤ instant t))

def Overlaps (since : Option Time) (session : PlayerSession) : Prop :=
  ∀ left ∈ session.leftAt, Reaches since left

instance (since : Option Time) (session : PlayerSession) : Decidable (Overlaps since session) :=
  inferInstanceAs (Decidable (∀ left ∈ session.leftAt, Reaches since left))

def Outdated (before : Time) (event : RecordedEvent) : Prop :=
  event.kind = "chat" ∧ instant event.at_ < instant before

instance (before : Time) (event : RecordedEvent) : Decidable (Outdated before event) :=
  inferInstanceAs (Decidable (_ ∧ _))

section

variable {since : Option Time} {before t : Time} {row : SessionRow} {session : PlayerSession}
  {event : RecordedEvent}

theorem atLeast_isoformat (since : Option Time) (t : Time) :
    atLeast since (isoformat t) = decide (Reaches since t) := by
  cases since with
  | none => simp [atLeast, Reaches]
  | some since =>
    rw [atLeast, Option.all_some, decide_eq_decide, isoformat_le_iff]
    simp [Reaches]

theorem tells_session (h : PlayerHistory.Shows row session) :
    Tells SessionRow.joinedAt (fun row => row.leftAt.all (atLeast since)) readSession
      PlayerSession.joinedAt (fun session => Overlaps since session) row session := by
  obtain ⟨hplayer, hjoined, hleft⟩ := h
  refine ⟨hjoined, ?_, ?_⟩
  · rw [hleft]
    cases hsession : session.leftAt with
    | none => simp [Overlaps, hsession]
    | some left =>
      rw [Option.map_some, Option.all_some, atLeast_isoformat, decide_eq_decide, Overlaps, hsession]
      simp
  · rw [readSession, hjoined, hleft, hplayer, Calendar.fromisoformat_isoformat]
    obtain ⟨player, joinedAt, leftAt⟩ := session
    cases leftAt with
    | none => rfl
    | some left => simp [Calendar.fromisoformat_isoformat]

theorem tells_command (command : PlayerCommand) :
    Tells CommandRow.at_ (fun row => atLeast since row.at_) readCommand PlayerCommand.at_
      (fun command => Reaches since command.at_) (commandRow command) command := by
  refine ⟨rfl, atLeast_isoformat since command.at_, ?_⟩
  rw [readCommand, commandRow, Calendar.fromisoformat_isoformat]
  rfl

theorem readEvent_eventRow (event : RecordedEvent) : readEvent (eventRow event) = some event := by
  rw [readEvent, eventRow, Calendar.fromisoformat_isoformat]
  rfl

theorem purged_eventRow (before : Time) (event : RecordedEvent) :
    purged before (eventRow event) = decide (Outdated before event) := by
  rw [Bool.eq_iff_iff, decide_eq_true_iff]
  simp [purged, Outdated, eventRow, isoformat_lt_iff]

theorem pick_isoformat {pick : List Text → Option Text} {before : Text → Text → Prop}
    {earlier : Time → Time → Prop}
    (hpick : ∀ texts text, pick texts = some text ↔ text ∈ texts ∧ ∀ other ∈ texts, before text other)
    (hbefore : ∀ t t', before (isoformat t) (isoformat t') ↔ earlier t t') (times : List Time) :
    (pick (times.map isoformat)).bind fromisoformat = some t ↔
      t ∈ times ∧ ∀ t' ∈ times, earlier t t' := by
  rw [Option.bind_eq_some_iff]
  constructor
  · rintro ⟨text, hpicked, htext⟩
    obtain ⟨hmem, hfirst⟩ := (hpick _ _).mp hpicked
    obtain ⟨t₀, ht₀, rfl⟩ := List.mem_map.mp hmem
    obtain rfl : t₀ = t := by simpa [Calendar.fromisoformat_isoformat] using htext
    refine ⟨ht₀, ?_⟩
    intro t' ht'
    exact (hbefore t₀ t').mp (hfirst _ (List.mem_map_of_mem ht'))
  · rintro ⟨hmem, hfirst⟩
    refine ⟨isoformat t, (hpick _ _).mpr ⟨List.mem_map_of_mem hmem, ?_⟩,
      Calendar.fromisoformat_isoformat t⟩
    intro text htext
    obtain ⟨t', ht', rfl⟩ := List.mem_map.mp htext
    exact (hbefore t t').mpr (hfirst t' ht')

theorem min?_isoformat (times : List Time) :
    (times.map isoformat).min?.bind fromisoformat = some t ↔
      t ∈ times ∧ ∀ t' ∈ times, instant t ≤ instant t' :=
  pick_isoformat (fun _ _ => List.min?_eq_some_iff) (fun _ _ => isoformat_le_iff) times

theorem max?_isoformat (times : List Time) :
    (times.map isoformat).max?.bind fromisoformat = some t ↔
      t ∈ times ∧ ∀ t' ∈ times, instant t' ≤ instant t :=
  pick_isoformat (fun _ _ => List.max?_eq_some_iff) (fun _ _ => isoformat_le_iff) times

end

/-! ### Queries and times -/

theorem recentSessions_isNewest (db : Sqlite) (limit : ℕ) (since : Option Time)
    {table : List SessionRow} {sessions : List PlayerSession}
    (h : List.Forall₂ PlayerHistory.Shows table sessions) :
    ∃ answer, recentSessions db limit since table = some answer ∧
      IsNewest (fun session => instant session.joinedAt) limit
        (sessions.filter fun session => Overlaps since session) answer :=
  query_isNewest db limit (h.imp fun _ _ hrow => tells_session hrow)

theorem recentCommands_isNewest (db : Sqlite) (limit : ℕ) (since : Option Time)
    (commands : List PlayerCommand) :
    ∃ answer, recentCommands db limit since (commands.map commandRow) = some answer ∧
      IsNewest (fun command => instant command.at_) limit
        (commands.filter fun command => Reaches since command.at_) answer := by
  apply query_isNewest db limit
  rw [List.forall₂_map_left_iff]
  exact List.forall₂_same.mpr fun command _ => tells_command command

theorem events_isNewest (db : Sqlite) (limit : ℕ) (since : Option Time) (chosen : EventRow → Bool)
    (events : List RecordedEvent) :
    ∃ answer, (query db EventRow.at_ (fun row => atLeast since row.at_ && chosen row) limit
        (events.map eventRow)).mapM readEvent = some answer ∧
      IsNewest (fun event => instant event.at_) limit
        (events.filter fun event => Reaches since event.at_ ∧ chosen (eventRow event)) answer := by
  apply query_isNewest db limit
  rw [List.forall₂_map_left_iff]
  refine List.forall₂_same.mpr fun event _ => ⟨rfl, ?_, readEvent_eventRow event⟩
  rw [Bool.eq_iff_iff, decide_eq_true_iff]
  simp [eventRow, atLeast_isoformat]

theorem recentEvents_isNewest (db : Sqlite) (limit : ℕ) (since : Option Time)
    (kinds : Option (List String)) (events : List RecordedEvent) :
    ∃ answer, recentEvents db limit since kinds (events.map eventRow) = some answer ∧
      IsNewest (fun event => instant event.at_) limit
        (events.filter fun event => Reaches since event.at_ ∧ ofKinds kinds (eventRow event))
        answer :=
  events_isNewest db limit since (ofKinds kinds) events

theorem forPlayer_isNewest (db : Sqlite) (player : String) (limit : ℕ)
    (kinds : Option (List String)) (events : List RecordedEvent) :
    ∃ answer, forPlayer db player limit kinds (events.map eventRow) = some answer ∧
      IsNewest (fun event => instant event.at_) limit
        (events.filter fun event => ofPlayer player (eventRow event) ∧
          ofKinds kinds (eventRow event)) answer := by
  obtain ⟨answer, hanswer, hnewest⟩ := events_isNewest db limit none
    (fun row => ofPlayer player row && ofKinds kinds row) events
  refine ⟨answer, ?_, ?_⟩
  · rw [← hanswer, forPlayer]
    simp [atLeast]
  · simpa [Reaches] using hnewest

theorem purgeChat_eventRow (before : Time) (events : List RecordedEvent) :
    purgeChat before (events.map eventRow) =
      ((events.filter fun event => ¬ Outdated before event).map eventRow,
        events.countP fun event => Outdated before event) := by
  rw [purgeChat, List.filter_map, List.countP_map]
  simp only [Function.comp_def, purged_eventRow, decide_not]

theorem ofPlayer_map_at (player : String) (events : List RecordedEvent) :
    ((events.map eventRow).filter (ofPlayer player)).map EventRow.at_ =
      ((events.filter fun event => ofPlayer player (eventRow event)).map
        RecordedEvent.at_).map isoformat := by
  rw [List.filter_map, List.map_map, List.map_map]
  rfl

/-- The texts of times sort as the times do, so that the queries on the tables select what a
comparison of times selects: the newest sessions, commands and facts, the messages that are too
old, and the first and the last fact of a player. -/
theorem stored_times_sort_as_text :
    (∀ t t' : Time, isoformat t < isoformat t' ↔ instant t < instant t') ∧
      (∀ (db : Sqlite) (limit : ℕ) (since : Option Time) (table : List SessionRow)
        (sessions : List PlayerSession), List.Forall₂ PlayerHistory.Shows table sessions →
        ∃ answer, recentSessions db limit since table = some answer ∧
          IsNewest (fun session => instant session.joinedAt) limit
            (sessions.filter fun session => Overlaps since session) answer) ∧
      (∀ (db : Sqlite) (limit : ℕ) (since : Option Time) (commands : List PlayerCommand),
        ∃ answer, recentCommands db limit since (commands.map commandRow) = some answer ∧
          IsNewest (fun command => instant command.at_) limit
            (commands.filter fun command => Reaches since command.at_) answer) ∧
      (∀ (db : Sqlite) (limit : ℕ) (since : Option Time) (kinds : Option (List String))
        (events : List RecordedEvent),
        ∃ answer, recentEvents db limit since kinds (events.map eventRow) = some answer ∧
          IsNewest (fun event => instant event.at_) limit
            (events.filter fun event => Reaches since event.at_ ∧ ofKinds kinds (eventRow event))
            answer) ∧
      (∀ (db : Sqlite) (player : String) (limit : ℕ) (kinds : Option (List String))
        (events : List RecordedEvent),
        ∃ answer, forPlayer db player limit kinds (events.map eventRow) = some answer ∧
          IsNewest (fun event => instant event.at_) limit
            (events.filter fun event => ofPlayer player (eventRow event) ∧
              ofKinds kinds (eventRow event)) answer) ∧
      (∀ (before : Time) (events : List RecordedEvent),
        purgeChat before (events.map eventRow) =
          ((events.filter fun event => ¬ Outdated before event).map eventRow,
            events.countP fun event => Outdated before event)) ∧
      ∀ (player : String) (events : List RecordedEvent) (t : Time),
        (firstSeen player (events.map eventRow) = some t ↔
          t ∈ (events.filter fun event => ofPlayer player (eventRow event)).map
              RecordedEvent.at_ ∧
            ∀ t' ∈ (events.filter fun event => ofPlayer player (eventRow event)).map
              RecordedEvent.at_, instant t ≤ instant t') ∧
        (lastSeen player (events.map eventRow) = some t ↔
          t ∈ (events.filter fun event => ofPlayer player (eventRow event)).map
              RecordedEvent.at_ ∧
            ∀ t' ∈ (events.filter fun event => ofPlayer player (eventRow event)).map
              RecordedEvent.at_, instant t' ≤ instant t) := by
  refine ⟨fun t t' => isoformat_lt_iff, ?_, recentCommands_isNewest, recentEvents_isNewest,
    forPlayer_isNewest, purgeChat_eventRow, ?_⟩
  · intro db limit since table sessions hrows
    exact recentSessions_isNewest db limit since hrows
  · intro player events t
    rw [firstSeen, lastSeen, ofPlayer_map_at]
    exact ⟨min?_isoformat _, max?_isoformat _⟩

end StoredTimes
