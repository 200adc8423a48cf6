import Mathlib.Data.List.Forall2
import McAdmin.Timeline

/-!
# The table of sessions

A join closes what its player left open and adds a session; a leave closes one open session.  The
table keeps texts and ids.  What it stands for is a list of sessions, in which the sessions of a
player come one after the other and only the last of them can be open.
-/

namespace PlayerHistory

open Calendar (Text Time isoformat)
open Timeline (Sqlite PlayerSession instant)

/-- A row of `sessions`. -/
structure SessionRow where
  id : ℕ
  player : String
  joinedAt : Text
  leftAt : Option Text
deriving DecidableEq

structure Table where
  rows : List SessionRow := []
  lastId : ℕ := 0

/-- `player = ? AND left_at IS NULL` -/
def isOpen (player : String) (row : SessionRow) : Bool := row.player == player && row.leftAt.isNone

/-- `UPDATE sessions SET left_at = ? WHERE ...` -/
def Table.update (table : Table) (at_ : Time) (chosen : SessionRow → Bool) : Table :=
  { table with
    rows := table.rows.map fun row =>
      if chosen row then { row with leftAt := some (isoformat at_) } else row }

/-- `INSERT INTO sessions (player, joined_at, left_at) VALUES (?, ?, NULL)` -/
def Table.insert (table : Table) (player : String) (at_ : Time) : Table where
  rows := table.rows ++ [⟨table.lastId + 1, player, isoformat at_, none⟩]
  lastId := table.lastId + 1

def recordJoin (player : String) (at_ : Time) (table : Table) : Table :=
  (table.update at_ (isOpen player)).insert player at_

/-- The row of `SELECT id ... ORDER BY joined_at DESC LIMIT 1` is closed. -/
def recordLeave (db : Sqlite) (player : String) (at_ : Time) (table : Table) : Table :=
  match (db.orderByDesc SessionRow.joinedAt (table.rows.filter (isOpen player))).head? with
  | none => table
  | some row => table.update at_ (·.id == row.id)

inductive Event where
  | join (player : String) (at_ : Time)
  | leave (player : String) (at_ : Time)
deriving DecidableEq

def Event.time : Event → Time
  | join _ at_ => at_
  | leave _ at_ => at_

def step (db : Sqlite) (table : Table) : Event → Table
  | .join player at_ => recordJoin player at_ table
  | .leave player at_ => recordLeave db player at_ table

def run (db : Sqlite) (events : List Event) : Table := events.foldl (step db) {}

/-! ### Sessions -/

section

variable {db : Sqlite} {sessions : List PlayerSession} {session session' : PlayerSession}
  {player : String} {at_ last : Time} {event : Event} {table : Table} {row : SessionRow}

def close (player : String) (at_ : Time) (session : PlayerSession) : PlayerSession :=
  if session.player = player ∧ session.leftAt = none then { session with leftAt := some at_ }
  else session

def next (sessions : List PlayerSession) : Event → List PlayerSession
  | .join player at_ => sessions.map (close player at_) ++ [⟨player, at_, none⟩]
  | .leave player at_ => sessions.map (close player at_)

def Before (session session' : PlayerSession) : Prop :=
  ∃ left, session.leftAt = some left ∧ instant left ≤ instant session'.joinedAt

def Forward (session : PlayerSession) : Prop :=
  ∀ left, session.leftAt = some left → instant session.joinedAt ≤ instant left

/-- Sessions of one player come one after the other, and all of them before some time. -/
structure Orderly (sessions : List PlayerSession) (last : ℤ) : Prop where
  forward : ∀ session ∈ sessions, Forward session
  apart : sessions.Pairwise fun session session' =>
    session.player = session'.player → Before session session'
  joined : ∀ session ∈ sessions, instant session.joinedAt ≤ last
  left : ∀ session ∈ sessions, ∀ left, session.leftAt = some left → instant left ≤ last

@[simp] theorem close_player : (close player at_ session).player = session.player := by
  rw [close]
  split_ifs <;> rfl

@[simp] theorem close_joinedAt : (close player at_ session).joinedAt = session.joinedAt := by
  rw [close]
  split_ifs <;> rfl

theorem close_of_left {left : Time} (h : session.leftAt = some left) :
    close player at_ session = session := by
  rw [close, if_neg]
  rintro ⟨-, hopen⟩
  rw [h] at hopen
  cases hopen

theorem close_leftAt {left : Time} (h : (close player at_ session).leftAt = some left) :
    session.leftAt = some left ∨
      session.player = player ∧ session.leftAt = none ∧ left = at_ := by
  rw [close] at h
  by_cases hopen : session.player = player ∧ session.leftAt = none
  · rw [if_pos hopen, Option.some.injEq] at h
    exact .inr ⟨hopen.1, hopen.2, h.symm⟩
  · rw [if_neg hopen] at h
    exact .inl h

theorem close_closed (h : session.player = player) :
    ∃ left, (close player at_ session).leftAt = some left := by
  cases hleft : session.leftAt with
  | none => exact ⟨at_, by rw [close, if_pos ⟨h, hleft⟩]⟩
  | some left => exact ⟨left, by rw [close_of_left hleft, hleft]⟩

theorem Orderly.map_close {before : ℤ} (h : Orderly sessions before)
    (hat : before ≤ instant at_) : Orderly (sessions.map (close player at_)) (instant at_) := by
  refine ⟨?_, ?_, ?_, ?_⟩
  · rw [List.forall_mem_map]
    intro session hsession left hleft
    rw [close_joinedAt]
    rcases close_leftAt hleft with hleft | ⟨-, -, rfl⟩
    · exact h.forward session hsession left hleft
    · exact (h.joined session hsession).trans hat
  · rw [List.pairwise_map]
    refine h.apart.imp fun hbefore hplayer => ?_
    rw [close_player, close_player] at hplayer
    obtain ⟨left, hleft, hle⟩ := hbefore hplayer
    exact ⟨left, by rw [close_of_left hleft, hleft], by rw [close_joinedAt]; exact hle⟩
  · rw [List.forall_mem_map]
    intro session hsession
    rw [close_joinedAt]
    exact (h.joined session hsession).trans hat
  · rw [List.forall_mem_map]
    intro session hsession left hleft
    rcases close_leftAt hleft with hleft | ⟨-, -, rfl⟩
    · exact (h.left session hsession left hleft).trans hat
    · exact le_rfl

theorem Orderly.add (h : Orderly sessions (instant at_))
    (hclosed : ∀ session ∈ sessions, session.player = player → ∃ left, session.leftAt = some left) :
    Orderly (sessions ++ [⟨player, at_, none⟩]) (instant at_) := by
  refine ⟨?_, ?_, ?_, ?_⟩
  · rw [List.forall_mem_append]
    refine ⟨h.forward, ?_⟩
    rw [List.forall_mem_singleton]
    intro left hleft
    cases hleft
  · rw [List.pairwise_append]
    refine ⟨h.apart, List.pairwise_singleton _ _, ?_⟩
    intro session hsession new hnew hplayer
    obtain rfl := List.mem_singleton.mp hnew
    obtain ⟨left, hleft⟩ := hclosed session hsession hplayer
    exact ⟨left, hleft, h.left session hsession left hleft⟩
  · rw [List.forall_mem_append]
    exact ⟨h.joined, by rw [List.forall_mem_singleton]⟩
  · rw [List.forall_mem_append]
    refine ⟨h.left, ?_⟩
    rw [List.forall_mem_singleton]
    intro left hleft
    cases hleft

theorem Orderly.next {before : ℤ} (h : Orderly sessions before)
    (hat : before ≤ instant event.time) : Orderly (next sessions event) (instant event.time) := by
  cases event with
  | leave player at_ => exact h.map_close hat
  | join player at_ =>
    refine (h.map_close hat).add ?_
    rw [List.forall_mem_map]
    intro session _ hplayer
    rw [close_player] at hplayer
    exact close_closed hplayer

theorem Orderly.open_unique {before : ℤ} (h : Orderly sessions before) (player : String) :
    (sessions.filter fun session => session.player = player ∧ session.leftAt = none).length ≤ 1 := by
  have hpairs := h.apart.filter fun session => session.player = player ∧ session.leftAt = none
  generalize hfound : sessions.filter (fun session =>
    session.player = player ∧ session.leftAt = none) = found at hpairs ⊢
  have hmem : ∀ session ∈ found, session.player = player ∧ session.leftAt = none := by
    intro session hsession
    rw [← hfound, List.mem_filter, decide_eq_true_eq] at hsession
    exact hsession.2
  cases found with
  | nil => exact Nat.zero_le 1
  | cons first rest =>
    cases rest with
    | nil => exact le_rfl
    | cons second rest =>
      have hfirst := hmem first List.mem_cons_self
      have hsecond := hmem second (List.mem_cons_of_mem _ List.mem_cons_self)
      obtain ⟨left, hleft, -⟩ := (List.pairwise_cons.mp hpairs).1 second List.mem_cons_self
        (hfirst.1.trans hsecond.1.symm)
      rw [hfirst.2] at hleft
      cases hleft

/-! ### The table and the sessions -/

structure Shows (row : SessionRow) (session : PlayerSession) : Prop where
  player : row.player = session.player
  joinedAt : row.joinedAt = isoformat session.joinedAt
  leftAt : row.leftAt = session.leftAt.map isoformat

/-- The rows are the texts of the sessions, each under its own id. -/
structure Represents (table : Table) (sessions : List PlayerSession) : Prop where
  rows : List.Forall₂ Shows table.rows sessions
  ids : table.rows.Pairwise fun row row' => row.id < row'.id
  ids_le : ∀ row ∈ table.rows, row.id ≤ table.lastId

theorem Shows.isOpen_iff (h : Shows row session) :
    isOpen player row = true ↔ session.player = player ∧ session.leftAt = none := by
  rw [isOpen, Bool.and_eq_true, beq_iff_eq, Option.isNone_iff_eq_none, h.player, h.leftAt,
    Option.map_eq_none_iff]

theorem Shows.close (h : Shows row session) :
    Shows (if isOpen player row then { row with leftAt := some (isoformat at_) } else row)
      (close player at_ session) := by
  by_cases hopen : session.player = player ∧ session.leftAt = none
  · rw [if_pos (h.isOpen_iff.mpr hopen), PlayerHistory.close, if_pos hopen]
    exact ⟨h.player, h.joinedAt, rfl⟩
  · rw [if_neg fun hrow => hopen (h.isOpen_iff.mp hrow), PlayerHistory.close, if_neg hopen]
    exact h

theorem Represents.update {chosen : SessionRow → Bool} (h : Represents table sessions)
    (hchosen : ∀ row ∈ table.rows, chosen row = isOpen player row) :
    Represents (table.update at_ chosen) (sessions.map (PlayerHistory.close player at_)) := by
  have hid : ∀ row : SessionRow,
      (if chosen row then { row with leftAt := some (isoformat at_) } else row).id = row.id := by
    intro row
    split_ifs <;> rfl
  refine ⟨?_, ?_, ?_⟩
  · have hrows : (table.update at_ chosen).rows = table.rows.map fun row =>
        if isOpen player row then { row with leftAt := some (isoformat at_) } else row := by
      refine List.map_congr_left fun row hrow => ?_
      rw [hchosen row hrow]
    rw [hrows, List.forall₂_map_left_iff, List.forall₂_map_right_iff]
    exact h.rows.imp fun row session hshows => hshows.close
  · rw [Table.update, List.pairwise_map]
    refine h.ids.imp fun {row row'} hlt => ?_
    rw [hid, hid]
    exact hlt
  · intro row hrow
    obtain ⟨old, hold, rfl⟩ := List.mem_map.mp hrow
    rw [hid]
    exact h.ids_le old hold

theorem Represents.insert (h : Represents table sessions) :
    Represents (table.insert player at_) (sessions ++ [⟨player, at_, none⟩]) := by
  refine ⟨?_, ?_, ?_⟩
  · exact List.rel_append h.rows (.cons ⟨rfl, rfl, rfl⟩ .nil)
  · rw [Table.insert, List.pairwise_append]
    refine ⟨h.ids, List.pairwise_singleton _ _, ?_⟩
    intro row hrow new hnew
    obtain rfl := List.mem_singleton.mp hnew
    exact Nat.lt_succ_of_le (h.ids_le row hrow)
  · intro row hrow
    rcases List.mem_append.mp hrow with hrow | hrow
    · exact (h.ids_le row hrow).trans (Nat.le_succ _)
    · obtain rfl := List.mem_singleton.mp hrow
      exact le_rfl

theorem length_filter_isOpen {rows : List SessionRow} (h : List.Forall₂ Shows rows sessions) :
    (rows.filter (isOpen player)).length =
      (sessions.filter fun session =>
        session.player = player ∧ session.leftAt = none).length := by
  induction h with
  | nil => rfl
  | @cons row session _ _ hshows _ ih =>
    have hiff : isOpen player row = true ↔
        decide (session.player = player ∧ session.leftAt = none) = true := by
      rw [decide_eq_true_eq]
      exact hshows.isOpen_iff
    rw [List.filter_cons, List.filter_cons]
    by_cases hopen : isOpen player row = true
    · rw [if_pos hopen, if_pos (hiff.mp hopen), List.length_cons, List.length_cons, ih]
    · rw [if_neg hopen, if_neg (hopen ∘ hiff.mpr), ih]

theorem Represents.eq_of_id (h : Represents table sessions) {row' : SessionRow}
    (hrow : row ∈ table.rows) (hrow' : row' ∈ table.rows) (hid : row.id = row'.id) :
    row = row' := by
  have hids : (table.rows.map SessionRow.id).Nodup := by
    rw [List.Nodup, List.pairwise_map]
    exact h.ids.imp fun hlt => hlt.ne
  exact List.inj_on_of_nodup_map hids hrow hrow' hid

theorem Represents.recordLeave {before : ℤ} (h : Represents table sessions)
    (horder : Orderly sessions before) :
    Represents (recordLeave db player at_ table)
      (sessions.map (PlayerHistory.close player at_)) := by
  have hperm := db.perm SessionRow.joinedAt (table.rows.filter (isOpen player))
  rw [PlayerHistory.recordLeave]
  cases hfound : (db.orderByDesc SessionRow.joinedAt
      (table.rows.filter (isOpen player))).head? with
  | none =>
    rw [List.head?_eq_none_iff.mp hfound] at hperm
    have hnone : ∀ row ∈ table.rows, false = isOpen player row := by
      intro row hrow
      have hempty := List.filter_eq_nil_iff.mp (List.nil_perm.mp hperm) row hrow
      simpa using hempty
    have hsame : table.update at_ (fun _ => false) = table := by simp [Table.update]
    have hupdate : Represents (table.update at_ fun _ => false) _ := h.update hnone
    rwa [hsame] at hupdate
  | some row =>
    have hmem := hperm.mem_iff.mp (List.mem_of_head? hfound)
    obtain ⟨hrow, hopen⟩ := List.mem_filter.mp hmem
    refine h.update fun row' hrow' => ?_
    -- a player has one open session at most, so that it does not matter which is taken
    have hone : table.rows.filter (isOpen player) = [row] := by
      have hle := horder.open_unique player
      rw [← length_filter_isOpen h.rows] at hle
      have hpos := List.length_pos_of_mem hmem
      obtain ⟨only, honly⟩ := List.length_eq_one_iff.mp (Nat.le_antisymm hle hpos)
      rw [honly, List.mem_singleton] at hmem
      rw [honly, hmem]
    rw [Bool.eq_iff_iff, beq_iff_eq]
    constructor
    · intro hid
      rw [h.eq_of_id hrow' hrow hid]
      exact hopen
    · intro hopen'
      have hmem' := List.mem_filter.mpr ⟨hrow', hopen'⟩
      rw [hone, List.mem_singleton] at hmem'
      rw [hmem']

theorem Represents.step {before : ℤ} (h : Represents table sessions)
    (horder : Orderly sessions before) :
    Represents (step db table event) (PlayerHistory.next sessions event) := by
  cases event with
  | join player at_ => exact (h.update fun _ _ => rfl).insert
  | leave player at_ => exact h.recordLeave horder

theorem foldl_represents {events : List Event} {before : ℤ} (h : Represents table sessions)
    (horder : Orderly sessions before) (hafter : ∀ event ∈ events, before ≤ instant event.time)
    (htimes : events.Pairwise fun event event' => instant event.time ≤ instant event'.time) :
    Represents (events.foldl (PlayerHistory.step db) table)
        (events.foldl PlayerHistory.next sessions) ∧
      ∃ last, Orderly (events.foldl PlayerHistory.next sessions) last := by
  induction events generalizing table sessions before with
  | nil => exact ⟨h, before, horder⟩
  | cons event events ih =>
    obtain ⟨hfirst, hrest⟩ := List.pairwise_cons.mp htimes
    have hat := hafter event List.mem_cons_self
    exact ih (h.step horder) (horder.next hat) hfirst hrest

theorem run_represents (db : Sqlite) {events : List Event}
    (htimes : events.Pairwise fun event event' => instant event.time ≤ instant event'.time) :
    Represents (run db events) (events.foldl PlayerHistory.next []) ∧
      ∃ last, Orderly (events.foldl PlayerHistory.next []) last := by
  have hempty : Represents {} [] := ⟨.nil, .nil, List.forall_mem_nil _⟩
  cases events with
  | nil =>
    exact ⟨hempty, 0, List.forall_mem_nil _, .nil, List.forall_mem_nil _, List.forall_mem_nil _⟩
  | cons event events =>
    have horder : Orderly [] (instant event.time) :=
      ⟨List.forall_mem_nil _, .nil, List.forall_mem_nil _, List.forall_mem_nil _⟩
    refine foldl_represents hempty horder ?_ htimes
    rw [List.forall_mem_cons]
    exact ⟨le_rfl, (List.pairwise_cons.mp htimes).1⟩

end

end PlayerHistory
