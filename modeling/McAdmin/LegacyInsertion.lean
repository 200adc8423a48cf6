import McAdmin.LegacyFolder
import McAdmin.PlayerSummaries
import McAdmin.StoredTimes

/-!
# The import into the history

`apply_to_db` writes what was read of the old logs into the tables, unless a session of the table
begins in the period of the import.  Only where sessions begin is looked at: one that began before
the period may last into it.
-/

namespace LegacyImport

open Backtracking
open Calendar (Time isoformat fromisoformat)
open IntText (DigitTable)
open PlayerHistory (Represents Shows Table ended)
open StoredTimes (CommandRow isoformat_le_iff)
open Timeline (PlayerSession instant)

/-! ### Writing -/

structure Database where
  sessions : Table
  commands : List CommandRow

inductive Refusal where
  /-- `SystemExit` -/
  | overlap (count : ℕ) (first last : Text)
  /-- `ValueError`: there is no session to take the first of. -/
  | empty

structure Application where
  db : Database
  refusal : Option Refusal

/-- `INSERT INTO sessions (player, joined_at, left_at) VALUES (...)` -/
def insertSession (table : Table) (session : Session) : Table where
  rows := table.rows ++ [⟨table.lastId + 1, String.ofList session.player, session.joinedAt,
    some session.leftAt⟩]
  lastId := table.lastId + 1

def commandRow (command : Command) : CommandRow :=
  ⟨String.ofList command.player, command.at_, String.ofList command.command⟩

/-- `joined_at <= ? AND joined_at >= ?` -/
def within (first last : Text) (row : PlayerHistory.SessionRow) : Bool :=
  row.joinedAt ≤ last && first ≤ row.joinedAt

def applyToDb (sessions : List Session) (commands : List Command) (db : Database) : Application :=
  match (sessions.map Session.joinedAt).min?, (sessions.map Session.leftAt).max? with
  | some first, some last =>
    let overlap := db.sessions.rows.countP (within first last)
    if overlap ≠ 0 then ⟨db, some (.overlap overlap first last)⟩
    else
      ⟨⟨sessions.foldl insertSession db.sessions, db.commands ++ commands.map commandRow⟩, none⟩
  | _, _ => ⟨db, some .empty⟩

/-! ### What is read are times -/

def played (session : Session) : Option PlayerSession := do
  let joinedAt ← fromisoformat session.joinedAt
  let leftAt ← fromisoformat session.leftAt
  return ⟨String.ofList session.player, joinedAt, some leftAt⟩

structure Plays (session : Session) (playerSession : PlayerSession) : Prop where
  player : playerSession.player = String.ofList session.player
  joinedAt : session.joinedAt = isoformat playerSession.joinedAt
  leftAt : ∃ left, playerSession.leftAt = some left ∧ session.leftAt = isoformat left

section

variable {u : DigitTable} {zone : Zone} {read : Read} {session : Session}

def Timed (zone : Zone) (sessions : List Session) : Prop :=
  ∀ session ∈ sessions, ∃ started ended,
    session.joinedAt = zone.text started ∧ session.leftAt = zone.text ended

theorem timed_close (h : Timed zone read.sessions) (player : Text) (at_ : Moment) :
    Timed zone (close zone read player at_).sessions := by
  unfold close
  split
  · exact h
  · rename_i started _
    simp only
    split_ifs
    · intro session hsession
      rcases List.mem_append.mp hsession with hsession | hsession
      · exact h session hsession
      · obtain rfl := List.mem_singleton.mp hsession
        exact ⟨started, at_, rfl, rfl⟩
    · exact h

theorem timed_closeAll (h : Timed zone read.sessions) (at_ : Moment) :
    Timed zone (closeAll zone read at_).sessions := by
  unfold closeAll
  generalize read.openSessions.keys = players
  induction players generalizing read with
  | nil => exact h
  | cons player players ih => exact ih (timed_close h player at_)

theorem timed_handle (h : Timed zone read.sessions) (moment : Moment) (message : Text) :
    Timed zone (handle u zone read moment message).sessions := by
  unfold handle
  split
  · exact timed_closeAll h moment
  · exact timed_close h _ moment
  · exact timed_close h _ moment
  · exact h
  · exact h

theorem timed_readLines {lines : List Line} {dating : Dating} {lastSeen seen : Option Moment}
    {after : Read} (h : Timed zone read.sessions)
    (hread : readLines u zone dating lastSeen read lines = .ok (seen, after)) :
    Timed zone after.sessions := by
  induction lines generalizing dating lastSeen read with
  | nil =>
    cases hread
    exact h
  | cons line lines ih =>
    rw [readLines] at hread
    cases hstamp : stamp u dating line.text with
    | error e =>
      rw [hstamp] at hread
      cases hread
    | ok stamped =>
      rw [hstamp] at hread
      obtain ⟨dating', _ | ⟨moment, message⟩⟩ := stamped
      · exact ih h hread
      · exact ih (timed_handle h moment message) hread

theorem timed_readFiles {files : List LogFile} {lastSeen seen : Option (Option Moment)}
    {after : Read} (h : Timed zone read.sessions)
    (hread : readFiles u zone lastSeen read files = .ok (seen, after)) :
    Timed zone after.sessions := by
  induction files generalizing lastSeen read with
  | nil =>
    cases hread
    exact h
  | cons file files ih =>
    rw [readFiles] at hread
    cases hlines : readLines u zone ⟨file.date, none⟩ none read file.path.lines with
    | error e =>
      rw [hlines] at hread
      cases hread
    | ok result =>
      rw [hlines] at hread
      exact ih (timed_readLines h hlines) hread

theorem timed_parseFolder {folder : List LogPath} {sessions : List Session}
    {commands : List Command} (h : parseFolder u zone folder = .ok (sessions, commands)) :
    Timed zone sessions := by
  rw [parseFolder] at h
  cases hfiles : orderedFiles u folder with
  | error e =>
    rw [hfiles] at h
    cases h
  | ok files =>
    rw [hfiles] at h
    cases hread : readFiles u zone none {} files with
    | error e =>
      simp only [bind, Except.bind, hread] at h
      cases h
    | ok result =>
      obtain ⟨seen, read⟩ := result
      have hnone : Timed zone ({} : Read).sessions := List.forall_mem_nil _
      have htimed : Timed zone read.sessions := timed_readFiles hnone hread
      simp only [bind, Except.bind, hread] at h
      rcases seen with _ | _ | last
      · cases h
      · cases h
        exact htimed
      · cases h
        exact timed_closeAll htimed last

theorem plays_of_timed {sessions : List Session} (h : Timed zone sessions) :
    List.Forall₂ Plays sessions (sessions.filterMap played) := by
  induction sessions with
  | nil => exact .nil
  | cons session sessions ih =>
    obtain ⟨started, left, hjoined, hleft⟩ := h session List.mem_cons_self
    have hplayed : played session =
        some ⟨String.ofList session.player, zone.utc started, some (zone.utc left)⟩ := by
      rw [played, hjoined, hleft, Zone.text, Zone.text, Calendar.fromisoformat_isoformat,
        Calendar.fromisoformat_isoformat]
      rfl
    rw [List.filterMap_cons, hplayed]
    exact .cons ⟨rfl, hjoined, _, rfl, hleft⟩
      (ih fun session' hsession' => h session' (List.mem_cons_of_mem session hsession'))

end

/-! ### Sessions that share time -/

/-- Two sessions of a player last at one time; one that is open lasts until now. -/
def Overlap (now : Time) (session session' : PlayerSession) : Prop :=
  session.player = session'.player ∧
    max (instant session.joinedAt) (instant session'.joinedAt) <
      min (instant (ended now session)) (instant (ended now session'))

def NoOverlap (now : Time) (sessions : List PlayerSession) : Prop :=
  sessions.Pairwise fun session session' => ¬ Overlap now session session'

def Within (imported : List PlayerSession) (session : PlayerSession) : Prop :=
  (∃ first ∈ imported, instant first.joinedAt ≤ instant session.joinedAt) ∧
    ∃ last ∈ imported, ∃ left, last.leftAt = some left ∧ instant session.joinedAt ≤ instant left

def Earlier (imported : List PlayerSession) (session : PlayerSession) : Prop :=
  ∀ first ∈ imported, instant session.joinedAt < instant first.joinedAt

/-- The sessions of the import are apart, what the player began before is over when each of them
begins that lasts, and the period does not end before it begins. -/
structure Separate (now : Time) (existing imported : List PlayerSession) : Prop where
  apart : NoOverlap now imported
  ended : ∀ session ∈ existing, Earlier imported session → ∀ new ∈ imported,
    new.player = session.player → instant new.joinedAt < instant (ended now new) →
      instant (ended now session) ≤ instant new.joinedAt
  forward : ∃ session ∈ imported, Within imported session

/-- What is refused changes nothing; what is written adds a row for each session and each command
to those there were, and no two sessions of a player last at one time; and nothing is written
twice. -/
structure HistoryKept (now : Time) (existing : List PlayerSession) (db : Database)
    (sessions : List Session) (commands : List Command) : Prop where
  refused : (applyToDb sessions commands db).refusal ≠ none →
    (applyToDb sessions commands db).db = db
  written : (applyToDb sessions commands db).refusal = none →
    Represents (applyToDb sessions commands db).db.sessions
        (existing ++ sessions.filterMap played) ∧
      (applyToDb sessions commands db).db.commands = db.commands ++ commands.map commandRow ∧
      NoOverlap now (existing ++ sessions.filterMap played)
  twice : (applyToDb sessions commands (applyToDb sessions commands db).db).refusal ≠ none

section

variable {now : Time} {existing imported : List PlayerSession} {session new : PlayerSession}
  {db : Database} {sessions : List Session} {commands : List Command}
  {rows : List PlayerHistory.SessionRow}

/-! ### The guard -/

theorem within_iff {first last : Text} (hfirst : (sessions.map Session.joinedAt).min? = some first)
    (hlast : (sessions.map Session.leftAt).max? = some last) (row : PlayerHistory.SessionRow) :
    within first last row = true ↔ (∃ session ∈ sessions, session.joinedAt ≤ row.joinedAt) ∧
      ∃ session ∈ sessions, row.joinedAt ≤ session.leftAt := by
  obtain ⟨hfirstMem, hfirstLe⟩ := List.min?_eq_some_iff.mp hfirst
  obtain ⟨hlastMem, hlastLe⟩ := List.max?_eq_some_iff.mp hlast
  obtain ⟨firstSession, hfirstSession, rfl⟩ := List.mem_map.mp hfirstMem
  obtain ⟨lastSession, hlastSession, rfl⟩ := List.mem_map.mp hlastMem
  rw [within, Bool.and_eq_true, decide_eq_true_eq, decide_eq_true_eq, and_comm]
  refine and_congr ⟨fun h => ⟨firstSession, hfirstSession, h⟩, ?_⟩
    ⟨fun h => ⟨lastSession, hlastSession, h⟩, ?_⟩
  · rintro ⟨session, hsession, h⟩
    exact (hfirstLe _ (List.mem_map_of_mem hsession)).trans h
  · rintro ⟨session, hsession, h⟩
    exact h.trans (hlastLe _ (List.mem_map_of_mem hsession))

theorem exists_iff_of_forall₂ {α β : Type} {R : α → β → Prop} {P : α → Prop} {Q : β → Prop}
    {l : List α} {l' : List β} (h : List.Forall₂ R l l') (hiff : ∀ a b, R a b → (P a ↔ Q b)) :
    (∃ a ∈ l, P a) ↔ ∃ b ∈ l', Q b := by
  induction h with
  | nil => simp
  | cons hab _ ih => simp [hiff _ _ hab, ih]

theorem overlap_iff {first last : Text} (hfirst : (sessions.map Session.joinedAt).min? = some first)
    (hlast : (sessions.map Session.leftAt).max? = some last)
    (hplays : List.Forall₂ Plays sessions imported) (hrows : List.Forall₂ Shows rows existing) :
    rows.countP (within first last) ≠ 0 ↔ ∃ session ∈ existing, Within imported session := by
  rw [← Nat.pos_iff_ne_zero, List.countP_pos_iff]
  refine exists_iff_of_forall₂ hrows fun row session hshows => ?_
  rw [within_iff hfirst hlast, hshows.joinedAt, Within]
  refine and_congr (exists_iff_of_forall₂ hplays fun read new hnew => ?_)
    (exists_iff_of_forall₂ hplays fun read new hnew => ?_)
  · rw [hnew.joinedAt, isoformat_le_iff]
  · obtain ⟨left, hleft, htext⟩ := hnew.leftAt
    rw [htext, isoformat_le_iff]
    constructor
    · intro h
      exact ⟨left, hleft, h⟩
    · rintro ⟨left', hleft', h⟩
      obtain rfl := Option.some.inj (hleft.symm.trans hleft')
      exact h

theorem applyToDb_nil : applyToDb [] commands db = ⟨db, some .empty⟩ := rfl

theorem applyToDb_eq (commands : List Command) (db : Database) (hsessions : sessions ≠ [])
    (hplays : List.Forall₂ Plays sessions imported)
    (hrows : List.Forall₂ Shows db.sessions.rows existing) :
    ((∃ session ∈ existing, Within imported session) ∧
        ∃ refusal, applyToDb sessions commands db = ⟨db, some refusal⟩) ∨
      (¬ ∃ session ∈ existing, Within imported session) ∧
        applyToDb sessions commands db =
          ⟨⟨sessions.foldl insertSession db.sessions, db.commands ++ commands.map commandRow⟩,
            none⟩ := by
  obtain ⟨first, hfirst⟩ : ∃ first, (sessions.map Session.joinedAt).min? = some first := by
    rw [← Option.isSome_iff_exists, List.isSome_min?_iff]
    simpa using hsessions
  obtain ⟨last, hlast⟩ : ∃ last, (sessions.map Session.leftAt).max? = some last := by
    rw [← Option.isSome_iff_exists, List.isSome_max?_iff]
    simpa using hsessions
  have hoverlap := overlap_iff hfirst hlast hplays hrows
  rw [applyToDb, hfirst, hlast]
  by_cases h : db.sessions.rows.countP (within first last) ≠ 0
  · exact .inl ⟨hoverlap.mp h, _, if_pos h⟩
  · exact .inr ⟨fun hwithin => h (hoverlap.mpr hwithin), if_neg h⟩

/-! ### The rows -/

theorem represents_insertSession {table : Table} {read : Session}
    (h : Represents table existing) (hplays : Plays read new) :
    Represents (insertSession table read) (existing ++ [new]) := by
  obtain ⟨left, hleft, htext⟩ := hplays.leftAt
  refine ⟨?_, ?_, ?_⟩
  · refine List.rel_append h.rows (.cons ⟨hplays.player.symm, hplays.joinedAt, ?_⟩ .nil)
    rw [hleft, htext]
    rfl
  · rw [insertSession, List.pairwise_append]
    refine ⟨h.ids, List.pairwise_singleton _ _, ?_⟩
    intro row hrow row' hrow'
    obtain rfl := List.mem_singleton.mp hrow'
    exact Nat.lt_succ_of_le (h.ids_le row hrow)
  · intro row hrow
    rcases List.mem_append.mp hrow with hrow | hrow
    · exact (h.ids_le row hrow).trans (Nat.le_succ _)
    · obtain rfl := List.mem_singleton.mp hrow
      exact le_rfl

theorem represents_foldl {table : Table} (h : Represents table existing)
    (hplays : List.Forall₂ Plays sessions imported) :
    Represents (sessions.foldl insertSession table) (existing ++ imported) := by
  induction hplays generalizing table existing with
  | nil =>
    rw [List.append_nil]
    exact h
  | @cons read new sessions imported hread _ ih =>
    rw [List.foldl_cons, List.append_cons]
    exact ih (represents_insertSession h hread)

theorem closed_of_plays (hplays : List.Forall₂ Plays sessions imported) :
    ∀ new ∈ imported, ∃ left, new.leftAt = some left := by
  induction hplays with
  | nil => exact List.forall_mem_nil _
  | cons hread _ ih =>
    obtain ⟨left, hleft, -⟩ := hread.leftAt
    exact List.forall_mem_cons.mpr ⟨⟨left, hleft⟩, ih⟩

/-! ### Overlaps -/

theorem noOverlap_append : NoOverlap now (existing ++ imported) ↔ NoOverlap now existing ∧
    NoOverlap now imported ∧
      ∀ session ∈ existing, ∀ new ∈ imported, ¬ Overlap now session new :=
  List.pairwise_append

theorem overlap_earlier (h : Earlier imported session) (hnew : new ∈ imported) :
    ¬ Overlap now session new ↔ (new.player = session.player →
      instant new.joinedAt < instant (ended now new) →
        instant (ended now session) ≤ instant new.joinedAt) := by
  have hbegin := h new hnew
  rw [Overlap, max_eq_right hbegin.le, lt_min_iff, not_and, not_and']
  constructor
  · intro hover hplayer hlasts
    exact not_lt.mp (hover hplayer.symm hlasts)
  · intro hover hplayer hlasts
    exact not_lt.mpr (hover hplayer.symm hlasts)

theorem overlap_later {first : PlayerSession} (hfirst : first ∈ imported)
    (hbegin : instant first.joinedAt ≤ instant session.joinedAt)
    (hwithin : ¬ Within imported session) (hnew : new ∈ imported)
    (hclosed : ∃ left, new.leftAt = some left) : ¬ Overlap now session new := by
  obtain ⟨left, hleft⟩ := hclosed
  rintro ⟨-, hlt⟩
  have hafter : instant left < instant session.joinedAt := by
    by_contra hnot
    exact hwithin ⟨⟨first, hfirst, hbegin⟩, new, hnew, left, hleft, not_lt.mp hnot⟩
  have hended : ended now new = left := by rw [ended, hleft, Option.getD_some]
  have hmax := le_max_left (instant session.joinedAt) (instant new.joinedAt)
  have hmin := min_le_right (instant (ended now session)) (instant (ended now new))
  rw [hended] at hmin hlt
  omega

theorem apart_iff_over (now : Time) (hclosed : ∀ new ∈ imported, ∃ left, new.leftAt = some left)
    (hnone : ¬ ∃ session ∈ existing, Within imported session) :
    (∀ session ∈ existing, ∀ new ∈ imported, ¬ Overlap now session new) ↔
      ∀ session ∈ existing, Earlier imported session → ∀ new ∈ imported,
        new.player = session.player → instant new.joinedAt < instant (ended now new) →
          instant (ended now session) ≤ instant new.joinedAt := by
  refine forall₂_congr fun session hsession => ?_
  by_cases hearlier : Earlier imported session
  · constructor
    · intro h _ new hnew
      exact (overlap_earlier hearlier hnew).mp (h new hnew)
    · intro h new hnew
      exact (overlap_earlier hearlier hnew).mpr (h hearlier new hnew)
  · obtain ⟨first, hfirst, hbegin⟩ : ∃ first ∈ imported,
        instant first.joinedAt ≤ instant session.joinedAt := by
      simpa [Earlier] using hearlier
    have hwithin : ¬ Within imported session := fun h => hnone ⟨session, hsession, h⟩
    refine iff_of_true (fun new hnew => ?_) fun h => absurd h hearlier
    exact overlap_later hfirst hbegin hwithin hnew (hclosed new hnew)

/-! ### The history -/

/-- The history is kept exactly when the import is refused, or what it adds is apart. -/
theorem history_kept_iff {u : DigitTable} {zone : Zone} {folder : List LogPath}
    (hparse : parseFolder u zone folder = .ok (sessions, commands))
    (hdb : Represents db.sessions existing) (hapart : NoOverlap now existing) :
    HistoryKept now existing db sessions commands ↔
      sessions = [] ∨ (∃ session ∈ existing, Within (sessions.filterMap played) session) ∨
        Separate now existing (sessions.filterMap played) := by
  have hplays := plays_of_timed (timed_parseFolder hparse)
  have hclosed := closed_of_plays hplays
  by_cases hsessions : sessions = []
  · subst hsessions
    refine iff_of_true ⟨fun _ => rfl, ?_, ?_⟩ (.inl rfl)
    · intro h
      cases h
    · rw [applyToDb_nil, applyToDb_nil]
      exact Option.some_ne_none _
  rw [or_iff_right hsessions]
  rcases applyToDb_eq commands db hsessions hplays hdb.rows with
    ⟨hwithin, refusal, hrefused⟩ | ⟨hnone, hwritten⟩
  · refine iff_of_true ⟨fun _ => by rw [hrefused], ?_, ?_⟩ (.inl hwithin)
    · rw [hrefused]
      intro h
      cases h
    · rw [hrefused]
      change (applyToDb sessions commands db).refusal ≠ none
      rw [hrefused]
      exact Option.some_ne_none _
  · rw [or_iff_right hnone]
    have hrows := represents_foldl hdb hplays
    have hcross := apart_iff_over now hclosed hnone
    -- a second import is refused exactly when a session of the first is within its period
    have htwice : (applyToDb sessions commands (applyToDb sessions commands db).db).refusal ≠ none ↔
        ∃ session ∈ sessions.filterMap played, Within (sessions.filterMap played) session := by
      rw [hwritten]
      rcases applyToDb_eq commands ⟨sessions.foldl insertSession db.sessions,
        db.commands ++ commands.map commandRow⟩ hsessions hplays hrows.rows with
        ⟨⟨session, hmem, hwithin⟩, refusal, hagain⟩ | ⟨hnone', hagain⟩
      · rw [hagain]
        refine iff_of_true (Option.some_ne_none _) ⟨session, ?_, hwithin⟩
        exact (List.mem_append.mp hmem).resolve_left fun hold => hnone ⟨session, hold, hwithin⟩
      · rw [hagain]
        refine iff_of_false (fun h => h rfl) ?_
        rintro ⟨session, hsession, hwithin⟩
        exact hnone' ⟨session, List.mem_append_right _ hsession, hwithin⟩
    constructor
    · intro h
      obtain ⟨-, -, hall⟩ := h.written (by rw [hwritten])
      obtain ⟨-, hnew, hapart⟩ := noOverlap_append.mp hall
      exact ⟨hnew, hcross.mp hapart, htwice.mp h.twice⟩
    · intro h
      refine ⟨?_, fun _ => ?_, htwice.mpr h.forward⟩
      · rw [hwritten]
        intro hnot
        exact absurd rfl hnot
      · rw [hwritten]
        exact ⟨hrows, rfl, noOverlap_append.mpr ⟨hapart, h.apart, hcross.mpr h.ended⟩⟩

end

/-! ### A player who was there before -/

def early : PlayerSession := ⟨"Alex", utcSecond 28800, some (utcSecond 46800)⟩

def morning : PlayerSession := ⟨"Alex", utcSecond 28800, some (utcSecond 32400)⟩

def oneSession (session : PlayerSession) : Database where
  sessions := ⟨[⟨1, session.player, isoformat session.joinedAt, session.leftAt.map isoformat⟩], 1⟩
  commands := []

def found : List Session :=
  [⟨"Alex".toList, isoformat (utcSecond 36000), isoformat (utcSecond 43200)⟩]

def foundSession : PlayerSession := ⟨"Alex", utcSecond 36000, some (utcSecond 43200)⟩

theorem parseFolder_found :
    parseFolder asciiDigits paris [leaving, failing, joining] = .ok (found, []) := by
  decide +kernel

theorem played_found : found.filterMap played = [foundSession] := by
  rw [found, List.filterMap_cons, played, Calendar.fromisoformat_isoformat,
    Calendar.fromisoformat_isoformat]
  rfl

theorem represents_oneSession (session : PlayerSession) :
    Represents (oneSession session).sessions [session] where
  rows := .cons ⟨rfl, rfl, rfl⟩ .nil
  ids := List.pairwise_singleton _ _
  ids_le row hrow := by
    obtain rfl := List.mem_singleton.mp hrow
    exact le_rfl

theorem noOverlap_singleton (now : Time) (session : PlayerSession) : NoOverlap now [session] :=
  List.pairwise_singleton _ _

theorem separate_morning : Separate (utcSecond 50400) [morning] [foundSession] where
  apart := noOverlap_singleton _ _
  ended := by
    simp only [List.forall_mem_singleton]
    intro _ _ _
    decide +kernel
  forward := by
    refine ⟨foundSession, List.mem_singleton.mpr rfl, ⟨_, List.mem_singleton.mpr rfl, le_rfl⟩,
      _, List.mem_singleton.mpr rfl, _, rfl, ?_⟩
    decide +kernel

theorem morning_kept :
    HistoryKept (utcSecond 50400) [morning] (oneSession morning) found [] :=
  (history_kept_iff parseFolder_found (represents_oneSession morning)
    (noOverlap_singleton _ _)).mpr (.inr (.inr (by rw [played_found]; exact separate_morning)))

/-- The session of the table began before the period, so nothing refuses the other one. -/
theorem early_doubled :
    parseFolder asciiDigits paris [leaving, failing, joining] = .ok (found, []) ∧
      Represents (oneSession early).sessions [early] ∧ NoOverlap (utcSecond 50400) [early] ∧
      ¬ HistoryKept (utcSecond 50400) [early] (oneSession early) found [] := by
  refine ⟨parseFolder_found, represents_oneSession early, noOverlap_singleton _ _, fun h => ?_⟩
  have hwritten : (applyToDb found [] (oneSession early)).refusal = none := by
    have hfound : found ≠ [] := List.cons_ne_nil _ _
    obtain happlied | ⟨-, happlied⟩ := applyToDb_eq [] (oneSession early) hfound
      (plays_of_timed (timed_parseFolder parseFolder_found)) (represents_oneSession early).rows
    · obtain ⟨⟨session, hsession, ⟨first, hfirst, hbegin⟩, -⟩, -⟩ := happlied
      rw [played_found, List.mem_singleton] at hfirst
      obtain rfl := List.mem_singleton.mp hsession
      subst hfirst
      exact absurd hbegin (by decide +kernel)
    · rw [happlied]
  obtain ⟨-, -, hapart⟩ := h.written hwritten
  rw [played_found] at hapart
  have hoverlap : Overlap (utcSecond 50400) early foundSession := by
    refine ⟨rfl, ?_⟩
    decide +kernel
  exact (List.pairwise_pair.mp hapart) hoverlap

end LegacyImport
