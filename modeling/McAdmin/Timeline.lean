import Mathlib.Algebra.GroupWithZero.Nat
import Mathlib.Data.List.ReduceOption
import McAdmin.AuditJournal
import McAdmin.LastItems
import McAdmin.NewestFirst

/-!
# The timelines

What happened in the game, and all that happened, the newest first.  The stores cut their rows
before these are merged, the sessions by when they began: a session gives two events, and its
end may be newer than much of what is shown in its place.
-/

namespace Timeline

open AuditJournal (AuditEntry)
open Calendar (Text Time isoformat)
open LastItems
open NewestFirst

/-! ### The stores -/

/-- `ORDER BY column DESC`, of a column of texts; rows with one text come in any order. -/
structure Sqlite where
  orderByDesc : {α : Type} → (α → Text) → List α → List α
  perm : ∀ {α : Type} (column : α → Text) (rows : List α), (orderByDesc column rows).Perm rows
  sorted : ∀ {α : Type} (column : α → Text) (rows : List α),
    Descending column (orderByDesc column rows)

structure PlayerSession where
  player : String
  joinedAt : Time
  leftAt : Option Time
deriving DecidableEq

structure PlayerCommand where
  player : String
  at_ : Time
  command : String
deriving DecidableEq

structure RecordedEvent where
  at_ : Time
  kind : String
  player : String
  key : String := ""
  cause : String := ""
  killer : String := ""
  killerId : String := ""
  killerType : String := ""
  weapon : String := ""
  detail : String := ""
  raw : String := ""
deriving DecidableEq

structure Store where
  sessions : List PlayerSession
  commands : List PlayerCommand := []
  /-- `none` without a store of facts -/
  facts : Option (List RecordedEvent) := none

/-- `WHERE at >= ?`, if there is a time -/
def reaches (since : Option Time) (t : Time) : Bool :=
  since.all fun since => isoformat since ≤ isoformat t

/-- `WHERE (left_at IS NULL OR left_at >= ?)` -/
def overlaps (since : Option Time) (session : PlayerSession) : Bool :=
  session.leftAt.all fun left => reaches since left

section

variable (db : Sqlite)

/-- `ORDER BY ... DESC LIMIT ?` of the rows that a condition lets through -/
def select {α : Type} (column : α → Time) (counts : α → Bool) (limit : ℕ) (rows : List α) :
    List α :=
  (db.orderByDesc (fun row => isoformat (column row)) (rows.filter counts)).take limit

def beyond {α : Type} (column : α → Time) (counts : α → Bool) (limit : ℕ) (rows : List α) :
    List α :=
  (db.orderByDesc (fun row => isoformat (column row)) (rows.filter counts)).drop limit

def recentSessions (limit : ℕ) (since : Option Time) (sessions : List PlayerSession) :
    List PlayerSession :=
  select db (·.joinedAt) (overlaps since) limit sessions

def recentCommands (limit : ℕ) (since : Option Time) (commands : List PlayerCommand) :
    List PlayerCommand :=
  select db (·.at_) (reaches since ·.at_) limit commands

/-- `recent`, of all kinds -/
def recentFacts (limit : ℕ) (since : Option Time) (facts : List RecordedEvent) :
    List RecordedEvent :=
  select db (·.at_) (reaches since ·.at_) limit facts

/-- `recent` of the journal: of its last lines, those that can be read -/
def recentAudit (limit : ℕ) (journal : List (Option (AuditEntry String))) :
    List (AuditEntry String) :=
  (journal.rtake limit).reduceOption

/-! ### The events -/

/-- `date.toordinal` -/
def ordinal (t : Time) : ℕ :=
  (t.year - 1) * 365 + (t.year - 1) / 4 - (t.year - 1) / 100 + (t.year - 1) / 400 +
    ((List.range (t.month - 1)).map fun m => Calendar.daysIn t.year (m + 1)).sum + t.day

def instant (t : Time) : ℤ :=
  (((ordinal t * 24 + t.hour) * 60 + t.minute) * 60 + t.second) * 1000000 + t.microsecond

structure InGame where
  at_ : Time
  player : String
  kind : String
  text : String
deriving DecidableEq

def sessionEvents (session : PlayerSession) : List InGame :=
  ⟨session.joinedAt, session.player, "join", "s'est connecté"⟩ ::
    match session.leftAt with
    | none => []
    | some left =>
      [⟨left, session.player, "leave", s!"s'est déconnecté (session de {
        (instant left - instant session.joinedAt) / 60000000} min)"⟩]

def commandEvent (command : PlayerCommand) : InGame :=
  ⟨command.at_, command.player, "command", s!"commande : {command.command}"⟩

variable (describe : RecordedEvent → String)

def factEvent (fact : RecordedEvent) : InGame := ⟨fact.at_, fact.player, fact.kind, describe fact⟩

def ingameEvents (limit : ℕ) (since : Option Time) (store : Store) : List InGame :=
  (newestFirst (·.at_.key)
    ((recentSessions db limit since store.sessions).flatMap sessionEvents ++
      ((recentCommands db limit since store.commands).map commandEvent ++
        (recentFacts db limit since (store.facts.getD [])).map (factEvent describe)))).take limit

structure TimelineEvent where
  kind : String
  timestamp : Time
  title : String
  detail : String := ""
  outcome : String := ""
  actor : String := ""
deriving DecidableEq

def auditEvent (entry : AuditEntry String) : TimelineEvent where
  kind := "audit"
  timestamp := entry.timestamp
  title := entry.action
  actor := entry.username
  detail := entry.detail
  outcome := entry.outcome

def timelineEvents (session : PlayerSession) : List TimelineEvent :=
  { kind := "join"
    timestamp := session.joinedAt
    title := s!"{session.player} a rejoint le serveur" } ::
    match session.leftAt with
    | none => []
    | some left =>
      [{ kind := "leave"
         timestamp := left
         title := s!"{session.player} a quitté le serveur" }]

def events (limit : ℕ) (journal : List (Option (AuditEntry String)))
    (sessions : List PlayerSession) : List TimelineEvent :=
  (newestFirst (·.timestamp.key)
    ((recentAudit limit journal).map auditEvent ++
      (recentSessions db limit none sessions).flatMap timelineEvents)).take limit

/-! ### What they are the newest of -/

def othersRecorded (since : Option Time) (store : Store) : List InGame :=
  (store.commands.filter (reaches since ·.at_)).map commandEvent ++
    ((store.facts.getD []).filter (reaches since ·.at_)).map (factEvent describe)

/-- Everything recorded: of the sessions, with a time, those that are open or ended at or after
it. -/
def ingameRecorded (since : Option Time) (store : Store) : List InGame :=
  (store.sessions.filter (overlaps since)).flatMap sessionEvents ++
    othersRecorded describe since store

def allRecorded (journal : List (Option (AuditEntry String))) (sessions : List PlayerSession) :
    List TimelineEvent :=
  journal.reduceOption.map auditEvent ++ sessions.flatMap timelineEvents

def IngameLatest (limit : ℕ) (since : Option Time) (store : Store) : Prop :=
  IsNewest (fun e : InGame => e.at_.key) limit (ingameRecorded describe since store)
    (ingameEvents db describe limit since store)

def EventsLatest (limit : ℕ) (journal : List (Option (AuditEntry String)))
    (sessions : List PlayerSession) : Prop :=
  IsNewest (fun e : TimelineEvent => e.timestamp.key) limit (allRecorded journal sessions)
    (events db limit journal sessions)

/-- No session that began before the ones shown ended among the newest events. -/
def EndsCovered (limit : ℕ) (since : Option Time) (store : Store) : Prop :=
  ∀ session ∈ beyond db (·.joinedAt) (overlaps since) limit store.sessions,
    ∀ left ∈ session.leftAt, limit ≤ NewestFirst.since (fun e : InGame => e.at_.key) left.key
      ((recentSessions db limit since store.sessions).flatMap sessionEvents ++
        othersRecorded describe since store)

/-- So of the timeline, and no entry further up in the journal is among the newest events. -/
def TimelineCovered (limit : ℕ) (journal : List (Option (AuditEntry String)))
    (sessions : List PlayerSession) : Prop :=
  (∀ session ∈ beyond db (·.joinedAt) (overlaps none) limit sessions, ∀ left ∈ session.leftAt,
    limit ≤ NewestFirst.since (fun e : TimelineEvent => e.timestamp.key) left.key
      ((recentAudit limit journal).map auditEvent ++
        (recentSessions db limit none sessions).flatMap timelineEvents)) ∧
  ∀ entry ∈ (journal.rdrop limit).reduceOption,
    limit ≤ NewestFirst.since (fun e : TimelineEvent => e.timestamp.key) entry.timestamp.key
      ((recentAudit limit journal).map auditEvent ++
        (recentSessions db limit none sessions).flatMap timelineEvents)

/-! ### The rows that are cut off -/

section

variable {db describe} {α β : Type} {column : α → Time} {counts : α → Bool} {limit : ℕ}
  {rows : List α} {row : α} {kept : List β}

abbrev Key := ℕ ×ₗ ℕ ×ₗ ℕ ×ₗ ℕ ×ₗ ℕ ×ₗ ℕ ×ₗ ℕ

theorem descending_ordered (db : Sqlite) (column : α → Time) (rows : List α) :
    Descending (fun row => (column row).key)
      (db.orderByDesc (fun row => isoformat (column row)) rows) := by
  have hsorted := db.sorted (fun row => isoformat (column row)) rows
  exact hsorted.imp fun h => Calendar.isoformat_le.mp h

theorem cut_select (db : Sqlite) (column : α → Time) (counts : α → Bool) (limit : ℕ)
    (rows : List α) :
    Cut (fun row => (column row).key) limit (select db column counts limit rows)
      (beyond db column counts limit rows) (rows.filter counts) :=
  (descending_ordered db column _).cut (db.perm _ _) limit

theorem cut_sessions (db : Sqlite) (limit : ℕ) (since : Option Time)
    (sessions : List PlayerSession) :
    Cut (fun session : PlayerSession => session.joinedAt.key) limit
      (recentSessions db limit since sessions)
      (beyond db (·.joinedAt) (overlaps since) limit sessions)
      (sessions.filter (overlaps since)) := by
  rw [recentSessions]
  exact cut_select db _ _ limit sessions

theorem cut_commands (db : Sqlite) (limit : ℕ) (since : Option Time)
    (commands : List PlayerCommand) :
    Cut (fun command : PlayerCommand => command.at_.key) limit
      (recentCommands db limit since commands)
      (beyond db (·.at_) (reaches since ·.at_) limit commands)
      (commands.filter (reaches since ·.at_)) := by
  rw [recentCommands]
  exact cut_select db _ _ limit commands

theorem cut_facts (db : Sqlite) (limit : ℕ) (since : Option Time) (facts : List RecordedEvent) :
    Cut (fun fact : RecordedEvent => fact.at_.key) limit (recentFacts db limit since facts)
      (beyond db (·.at_) (reaches since ·.at_) limit facts)
      (facts.filter (reaches since ·.at_)) := by
  rw [recentFacts]
  exact cut_select db _ _ limit facts

theorem cut_others (db : Sqlite) (describe : RecordedEvent → String) (limit : ℕ)
    (since : Option Time) (store : Store) :
    ∃ left, Cut (fun e : InGame => e.at_.key) limit
      ((recentCommands db limit since store.commands).map commandEvent ++
        (recentFacts db limit since (store.facts.getD [])).map (factEvent describe)) left
      (othersRecorded describe since store) := by
  have hcommands : Cut (fun e : InGame => e.at_.key) limit
      ((recentCommands db limit since store.commands).map commandEvent) _ _ :=
    (cut_commands db limit since store.commands).map fun _ => rfl
  have hfacts : Cut (fun e : InGame => e.at_.key) limit
      ((recentFacts db limit since (store.facts.getD [])).map (factEvent describe)) _ _ :=
    (cut_facts db limit since (store.facts.getD [])).map fun _ => rfl
  exact ⟨_, hcommands.append hfacts⟩

/-! ### The events of a session -/

structure Renders (time : β → Key) (render : PlayerSession → List β) : Prop where
  join : ∀ session, ∃ e ∈ render session, time e = session.joinedAt.key
  leave : ∀ session, ∀ left ∈ session.leftAt, ∃ e ∈ render session, time e = left.key
  only : ∀ session, ∀ e ∈ render session, time e = session.joinedAt.key ∨
    ∃ left ∈ session.leftAt, time e = left.key

variable {time : β → Key} {render : PlayerSession → List β} {sessions : List PlayerSession}

theorem renders_of_times (h : ∀ session, (render session).map time =
    session.joinedAt.key :: session.leftAt.toList.map Time.key) : Renders time render := by
  have hmem : ∀ session key, (∃ e ∈ render session, time e = key) ↔
      key = session.joinedAt.key ∨ ∃ left ∈ session.leftAt, left.key = key := by
    intro session key
    rw [← List.mem_map, h, List.mem_cons, List.mem_map]
    simp only [Option.mem_toList, Option.mem_def]
  constructor
  · intro session
    exact (hmem session _).mpr (.inl rfl)
  · intro session left hleft
    exact (hmem session _).mpr (.inr ⟨left, hleft, rfl⟩)
  · intro session e he
    refine ((hmem session _).mp ⟨e, he, rfl⟩).imp_right ?_
    rintro ⟨left, hleft, hkey⟩
    exact ⟨left, hleft, hkey.symm⟩

theorem renders_sessionEvents : Renders (fun e : InGame => e.at_.key) sessionEvents := by
  refine renders_of_times fun session => ?_
  rw [sessionEvents]
  cases session.leftAt <;> rfl

theorem renders_timelineEvents :
    Renders (fun e : TimelineEvent => e.timestamp.key) timelineEvents := by
  refine renders_of_times fun session => ?_
  rw [timelineEvents]
  cases session.leftAt <;> rfl

theorem Renders.since_le (h : Renders time render) (sessions : List PlayerSession) (t : Key) :
    NewestFirst.since (fun session : PlayerSession => session.joinedAt.key) t sessions ≤
      NewestFirst.since time t (sessions.flatMap render) := by
  induction sessions with
  | nil => exact Nat.zero_le _
  | cons session sessions ih =>
    rw [List.flatMap_cons, since_append]
    by_cases hlate : t ≤ session.joinedAt.key
    · rcases h.join session with ⟨e, he, htime⟩
      have hone : 0 < NewestFirst.since time t (render session) :=
        List.countP_pos_iff.mpr ⟨e, he, by simpa [htime] using hlate⟩
      have hcount : NewestFirst.since (fun session : PlayerSession => session.joinedAt.key) t
          (session :: sessions) = NewestFirst.since (fun session : PlayerSession =>
            session.joinedAt.key) t sessions + 1 :=
        List.countP_cons_of_pos (by simpa using hlate)
      omega
    · have hcount : NewestFirst.since (fun session : PlayerSession => session.joinedAt.key) t
          (session :: sessions) = NewestFirst.since (fun session : PlayerSession =>
            session.joinedAt.key) t sessions :=
        List.countP_cons_of_neg (by simpa using hlate)
      omega

theorem Renders.beyond_iff (h : Renders time render) (since : Option Time)
    (hkept : ∀ t, NewestFirst.since time t ((recentSessions db limit since sessions).flatMap
      render) ≤ NewestFirst.since time t kept) :
    (∀ e ∈ (beyond db (·.joinedAt) (overlaps since) limit sessions).flatMap render,
      limit ≤ NewestFirst.since time (time e) kept) ↔
      ∀ session ∈ beyond db (·.joinedAt) (overlaps since) limit sessions,
        ∀ left ∈ session.leftAt, limit ≤ NewestFirst.since time left.key kept := by
  constructor
  · intro hall session hsession left hleft
    rcases h.leave session left hleft with ⟨e, he, htime⟩
    rw [← htime]
    exact hall e (List.mem_flatMap.mpr ⟨session, hsession, he⟩)
  · intro hends e he
    rcases List.mem_flatMap.mp he with ⟨session, hsession, he⟩
    rcases h.only session e he with htime | ⟨left, hleft, htime⟩
    · rw [htime]
      have hcut := cut_sessions db limit since sessions
      exact (hcut.covered session hsession).trans ((h.since_le _ _).trans (hkept _))
    · rw [htime]
      exact hends session hsession left hleft

/-! ### The two timelines -/

theorem Renders.perm (render : PlayerSession → List β) (db : Sqlite) (since : Option Time)
    (limit : ℕ) (sessions : List PlayerSession) :
    ((recentSessions db limit since sessions).flatMap render ++
      (beyond db (·.joinedAt) (overlaps since) limit sessions).flatMap render).Perm
      ((sessions.filter (overlaps since)).flatMap render) := by
  rw [← List.flatMap_append]
  have hperm := (cut_sessions db limit since sessions).perm
  exact hperm.flatMap_right render

theorem ingameLatest_iff (db : Sqlite) (describe : RecordedEvent → String) (limit : ℕ)
    (since : Option Time) (store : Store) :
    IngameLatest db describe limit since store ↔ EndsCovered db describe limit since store := by
  rcases cut_others db describe limit since store with ⟨left, hothers⟩
  have hsessions := (Renders.perm sessionEvents db since limit store.sessions).append_right
    (othersRecorded describe since store)
  have hnewest : IngameLatest db describe limit since store ↔
      IsNewest (fun e : InGame => e.at_.key) limit
        (((recentSessions db limit since store.sessions).flatMap sessionEvents ++
          (beyond db (·.joinedAt) (overlaps since) limit store.sessions).flatMap sessionEvents) ++
          othersRecorded describe since store) (ingameEvents db describe limit since store) :=
    ⟨fun h => h.of_perm hsessions.symm, fun h => h.of_perm hsessions⟩
  rw [hnewest, ingameEvents]
  refine hothers.isNewest_iff.trans ?_
  refine renders_sessionEvents.beyond_iff since fun t => ?_
  rw [since_append]
  exact Nat.le_add_right _ _

theorem filter_overlaps_none (sessions : List PlayerSession) :
    sessions.filter (overlaps none) = sessions := by
  refine List.filter_eq_self.mpr fun session _ => ?_
  cases hleft : session.leftAt <;> simp [overlaps, reaches, hleft]

theorem eventsLatest_iff (db : Sqlite) (limit : ℕ) (journal : List (Option (AuditEntry String)))
    (sessions : List PlayerSession) :
    EventsLatest db limit journal sessions ↔ TimelineCovered db limit journal sessions := by
  have hperm : (((recentAudit limit journal).map auditEvent ++
      (recentSessions db limit none sessions).flatMap timelineEvents) ++
      ((journal.rdrop limit).reduceOption.map auditEvent ++
        (beyond db (·.joinedAt) (overlaps none) limit sessions).flatMap timelineEvents)).Perm
      (allRecorded journal sessions) := by
    refine (append_shuffle _ _ _ _).trans (List.Perm.append ?_ ?_)
    · rw [← List.map_append, recentAudit, ← List.reduceOption_append]
      refine List.Perm.map _ (List.Perm.filterMap _ ?_)
      refine List.perm_append_comm.trans ?_
      rw [rdrop_append_rtake]
    · have hsessions := Renders.perm timelineEvents db none limit sessions
      rwa [filter_overlaps_none] at hsessions
  have hnewest : EventsLatest db limit journal sessions ↔
      IsNewest (fun e : TimelineEvent => e.timestamp.key) limit _
        (events db limit journal sessions) :=
    ⟨fun h => h.of_perm hperm.symm, fun h => h.of_perm hperm⟩
  have hkept : ∀ t, NewestFirst.since (fun e : TimelineEvent => e.timestamp.key) t
      ((recentSessions db limit none sessions).flatMap timelineEvents) ≤
      NewestFirst.since (fun e : TimelineEvent => e.timestamp.key) t
        ((recentAudit limit journal).map auditEvent ++
          (recentSessions db limit none sessions).flatMap timelineEvents) := by
    intro t
    rw [since_append]
    exact Nat.le_add_left _ _
  rw [hnewest, events, isNewest_iff]
  simp only [List.mem_append, or_imp, forall_and]
  rw [renders_timelineEvents.beyond_iff none hkept, TimelineCovered, and_comm, List.forall_mem_map]
  exact Iff.rfl

end

end

/-- Each timeline is the newest of what was recorded exactly when no session cut off ended among
the newest, and no entry of the journal cut off was written then. -/
theorem latest_iff_covered (db : Sqlite) (describe : RecordedEvent → String) (limit : ℕ)
    (since : Option Time) (store : Store) (journal : List (Option (AuditEntry String)))
    (sessions : List PlayerSession) :
    (IngameLatest db describe limit since store ↔ EndsCovered db describe limit since store) ∧
      (EventsLatest db limit journal sessions ↔ TimelineCovered db limit journal sessions) :=
  ⟨ingameLatest_iff db describe limit since store, eventsLatest_iff db limit journal sessions⟩

/-- Rows with one text in the order in which they were written. -/
def inOrder : Sqlite where
  orderByDesc := newestFirst
  perm := newestFirst_perm
  sorted := descending_newestFirst

def noon : Time := ⟨2026, 3, 14, 12, 0, 0, 0, by decide⟩

def longSession : PlayerSession where
  player := "Alex"
  joinedAt := ⟨2026, 3, 14, 10, 0, 0, 0, by decide⟩
  leftAt := some noon

def shortSession : PlayerSession where
  player := "Steve"
  joinedAt := ⟨2026, 3, 14, 11, 0, 0, 0, by decide⟩
  leftAt := some ⟨2026, 3, 14, 11, 30, 0, 0, by decide⟩

/-- With room for one event, the last one to leave is not shown. -/
theorem last_leave_missing :
    ¬ IngameLatest inOrder (·.kind) 1 none { sessions := [longSession, shortSession] } := by
  rw [ingameLatest_iff]
  intro hcovered
  have hlong := hcovered longSession (by decide) noon rfl
  revert hlong
  decide

end Timeline
