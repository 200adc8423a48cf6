import Mathlib.Algebra.BigOperators.Ring.Finset
import McAdmin.Binary64
import McAdmin.Dates
import McAdmin.SessionTable

/-!
# The summary of the players

One pass over the rows adds up, for each player, how long the sessions lasted, and keeps the time
of the last.  Seconds are doubles, so that the total is the sum of the durations up to rounding;
whole seconds are added up exactly.
-/

namespace PlayerHistory

open Calendar (Time isoformat fromisoformat)
open Timeline (Sqlite PlayerSession instant)

structure PlayerSummary where
  player : String
  totalSeconds : ℚ
  lastSeen : Time
  online : Bool
deriving DecidableEq

/-- `max((ended - joined).total_seconds(), 0.0)` -/
def duration (joined ended : Time) : ℚ :=
  max (Binary64.nearest (((instant ended - instant joined : ℤ) : ℚ) / 10 ^ 6)) 0

section

variable (now : Time)

def PlayerSummary.count (summary : PlayerSummary) (online : Bool) (joined ended : Time) :
    PlayerSummary :=
  let summary := { summary with
    totalSeconds := Binary64.nearest (summary.totalSeconds + duration joined ended) }
  if online then { summary with online := true, lastSeen := now }
  else if !summary.online && instant summary.lastSeen < instant ended then
    { summary with lastSeen := ended }
  else summary

/-- `by_player` with a row counted; the players are in the order of their first rows. -/
def add (byPlayer : List PlayerSummary) (player : String) (online : Bool) (joined ended : Time) :
    List PlayerSummary :=
  let byPlayer :=
    if byPlayer.any (·.player == player) then byPlayer else byPlayer ++ [⟨player, 0, ended, false⟩]
  byPlayer.map fun summary =>
    if summary.player = player then summary.count now online joined ended else summary

/-- A row is read and counted; nothing where a text is no time. -/
def read (byPlayer : List PlayerSummary) (row : SessionRow) : Option (List PlayerSummary) := do
  let joined ← fromisoformat row.joinedAt
  let ended ← row.leftAt.elim (some now) fromisoformat
  return add now byPlayer row.player row.leftAt.isNone joined ended

/-- `summary`, of the rows in the order they are read in. -/
def summary (rows : List SessionRow) : Option (List PlayerSummary) :=
  (rows.foldlM (read now) []).map fun summaries =>
    summaries.mergeSort fun a b => instant b.lastSeen ≤ instant a.lastSeen

end

/-! ### What a session adds -/

section

variable {now : Time} {session : PlayerSession} {sessions own : List PlayerSession}
  {entry : PlayerSummary} {player : String}

def ended (now : Time) (session : PlayerSession) : Time := session.leftAt.getD now

/-- How many seconds a session lasted; one that is open lasts until now. -/
def seconds (now : Time) (session : PlayerSession) : ℚ :=
  ((max (instant (ended now session) - instant session.joinedAt) 0 : ℤ) : ℚ) / 10 ^ 6

theorem amount_seconds (now : Time) (session : PlayerSession) :
    Binary64.Amount (seconds now session) := by
  rw [seconds]
  rcases le_or_gt (instant (ended now session) - instant session.joinedAt) 0 with h | h
  · rw [max_eq_right h]
    exact .inl (by norm_num)
  · rw [max_eq_left h.le]
    have hone : (1 : ℚ) ≤ ((instant (ended now session) - instant session.joinedAt : ℤ) : ℚ) := by
      exact_mod_cast h
    have hsmall : (2 : ℚ) ^ (-20 : ℤ) ≤ 1 / 10 ^ 6 := by norm_num
    exact Binary64.amount_of_le (by norm_num)
      (hsmall.trans (div_le_div_of_nonneg_right hone (by norm_num)))

theorem duration_eq (now : Time) (session : PlayerSession) :
    duration session.joinedAt (ended now session) = Binary64.nearest (seconds now session) := by
  rw [duration, seconds]
  rcases le_or_gt (instant (ended now session) - instant session.joinedAt) 0 with h | h
  · have hneg : ((instant (ended now session) - instant session.joinedAt : ℤ) : ℚ) ≤ 0 := by
      exact_mod_cast h
    have hround := Binary64.nearest_nonpos (div_nonpos_of_nonpos_of_nonneg hneg
      (by norm_num : (0 : ℚ) ≤ 10 ^ 6))
    rw [max_eq_right h, max_eq_right hround, Int.cast_zero, zero_div, Binary64.nearest_zero]
  · rw [max_eq_left h.le, max_eq_left]
    have hamount := (amount_seconds now session).nearest.nonneg
    rw [seconds, max_eq_left h.le] at hamount
    exact hamount

/-- What is told of a player, from the player's sessions in the order they were read in. -/
structure Counted (now : Time) (entry : PlayerSummary) (own : List PlayerSession) : Prop where
  total : entry.totalSeconds =
    Binary64.sum (own.map fun session => Binary64.nearest (seconds now session))
  online_iff : entry.online = true ↔ ∃ session ∈ own, session.leftAt = none
  seen_online : entry.online = true → entry.lastSeen = now
  seen_offline : entry.online = false →
    (∃ session ∈ own, session.leftAt = some entry.lastSeen) ∧
      ∀ session ∈ own, ∀ left, session.leftAt = some left → instant left ≤ instant entry.lastSeen

theorem count_total (h : entry.totalSeconds =
      Binary64.sum (own.map fun session => Binary64.nearest (seconds now session))) :
    (entry.count now session.leftAt.isNone session.joinedAt (ended now session)).totalSeconds =
      Binary64.sum ((own ++ [session]).map fun session =>
        Binary64.nearest (seconds now session)) := by
  have htotal : (entry.count now session.leftAt.isNone session.joinedAt
      (ended now session)).totalSeconds =
      Binary64.nearest (entry.totalSeconds + duration session.joinedAt (ended now session)) := by
    rw [PlayerSummary.count]
    split_ifs <;> rfl
  rw [htotal, h, duration_eq, List.map_append, List.map_singleton,
    Binary64.sum_append_singleton]

theorem Counted.count_open (h : Counted now entry own) (hopen : session.leftAt = none) :
    Counted now (entry.count now session.leftAt.isNone session.joinedAt (ended now session))
      (own ++ [session]) := by
  have htotal : (entry.count now session.leftAt.isNone session.joinedAt
      (ended now session)).totalSeconds = _ := count_total h.total
  rw [hopen] at htotal ⊢
  refine ⟨htotal, iff_of_true rfl ⟨session, by simp, hopen⟩, fun _ => rfl, fun hoffline => ?_⟩
  cases hoffline

theorem count_left_online (joined left : Time) :
    (entry.count now false joined left).online = entry.online := by
  rw [PlayerSummary.count]
  split_ifs <;> first | rfl | contradiction

theorem count_left_lastSeen (joined left : Time) :
    (entry.count now false joined left).lastSeen =
      if entry.online = false ∧ instant entry.lastSeen < instant left then left
      else entry.lastSeen := by
  have hiff : (!entry.online && decide (instant entry.lastSeen < instant left)) = true ↔
      entry.online = false ∧ instant entry.lastSeen < instant left := by simp
  by_cases hlater : entry.online = false ∧ instant entry.lastSeen < instant left
  · rw [if_pos hlater, PlayerSummary.count]
    simp only [Bool.false_eq_true, if_false, hiff.mpr hlater, if_true]
  · rw [if_neg hlater, PlayerSummary.count]
    simp only [Bool.false_eq_true, if_false, mt hiff.mp hlater]

theorem Counted.count_left {left : Time} (h : Counted now entry own)
    (hleft : session.leftAt = some left) :
    Counted now (entry.count now session.leftAt.isNone session.joinedAt (ended now session))
      (own ++ [session]) := by
  have htotal : (entry.count now session.leftAt.isNone session.joinedAt
      (ended now session)).totalSeconds = _ := count_total h.total
  have hended : ended now session = left := by rw [ended, hleft, Option.getD_some]
  have hmem : ∀ x ∈ own, x ∈ own ++ [session] := fun x => List.mem_append_left _
  have hopen : (∃ x ∈ own ++ [session], x.leftAt = none) ↔ ∃ x ∈ own, x.leftAt = none := by
    simp [hleft]
  rw [hleft, Option.isNone_some, hended] at htotal ⊢
  refine ⟨htotal, ?_, ?_, ?_⟩
  · rw [hopen, ← h.online_iff, count_left_online]
  · intro honline
    rw [count_left_online] at honline
    rw [count_left_lastSeen, if_neg (by simp [honline])]
    exact h.seen_online honline
  · intro hoffline
    rw [count_left_online] at hoffline
    obtain ⟨⟨latest, hlatest, hseen⟩, hall⟩ := h.seen_offline hoffline
    rw [count_left_lastSeen, List.forall_mem_append, List.forall_mem_singleton]
    by_cases hlater : instant entry.lastSeen < instant left
    · rw [if_pos ⟨hoffline, hlater⟩]
      refine ⟨⟨session, by simp, hleft⟩, ?_, ?_⟩
      · exact fun x hx left' hleft' => (hall x hx left' hleft').trans hlater.le
      · intro left' hleft'
        rw [hleft, Option.some.injEq] at hleft'
        rw [hleft']
    · rw [if_neg fun h => hlater h.2]
      refine ⟨⟨latest, hmem latest hlatest, hseen⟩, hall, ?_⟩
      intro left' hleft'
      rw [hleft, Option.some.injEq] at hleft'
      rw [← hleft']
      exact not_lt.mp hlater

theorem counted_first (now : Time) (player : String) (session : PlayerSession) :
    Counted now ((⟨player, 0, ended now session, false⟩ : PlayerSummary).count now
      session.leftAt.isNone session.joinedAt (ended now session)) [session] := by
  have htotal : ((⟨player, 0, ended now session, false⟩ : PlayerSummary).count now
      session.leftAt.isNone session.joinedAt (ended now session)).totalSeconds =
      Binary64.sum (([] ++ [session]).map fun session =>
        Binary64.nearest (seconds now session)) := count_total rfl
  cases hleft : session.leftAt with
  | none =>
    rw [hleft] at htotal
    refine ⟨htotal, iff_of_true rfl ⟨session, by simp, hleft⟩, fun _ => rfl, fun hoffline => ?_⟩
    cases hoffline
  | some left =>
    have hended : ended now session = left := by rw [ended, hleft, Option.getD_some]
    rw [hleft] at htotal
    rw [Option.isNone_some, hended] at htotal ⊢
    refine ⟨htotal, ?_, ?_, ?_⟩
    · rw [count_left_online]
      simp [hleft]
    · intro honline
      rw [count_left_online] at honline
      cases honline
    · intro _
      rw [count_left_lastSeen, ite_self, List.forall_mem_singleton]
      refine ⟨⟨session, by simp, hleft⟩, ?_⟩
      intro left' hleft'
      rw [hleft, Option.some.injEq] at hleft'
      rw [hleft']

theorem Counted.count (h : Counted now entry own) (session : PlayerSession) :
    Counted now (entry.count now session.leftAt.isNone session.joinedAt (ended now session))
      (own ++ [session]) := by
  cases hleft : session.leftAt with
  | none => exact hleft ▸ h.count_open hleft
  | some left => exact hleft ▸ h.count_left hleft

/-! ### The pass -/

def of (player : String) (sessions : List PlayerSession) : List PlayerSession :=
  sessions.filter (·.player == player)

structure Tally (now : Time) (sessions : List PlayerSession) (entries : List PlayerSummary) :
    Prop where
  players : (entries.map PlayerSummary.player).Nodup
  mem_iff : ∀ player, player ∈ entries.map PlayerSummary.player ↔
    ∃ session ∈ sessions, session.player = player
  counted : ∀ entry ∈ entries, Counted now entry (of entry.player sessions)

@[simp] theorem count_player (online : Bool) (joined ended : Time) :
    (entry.count now online joined ended).player = entry.player := by
  rw [PlayerSummary.count]
  split_ifs <;> rfl

theorem of_append_self (sessions : List PlayerSession) (session : PlayerSession) :
    of session.player (sessions ++ [session]) = of session.player sessions ++ [session] := by
  simp [of]

theorem of_append_other (h : session.player ≠ player) (sessions : List PlayerSession) :
    of player (sessions ++ [session]) = of player sessions := by
  simp [of, h]

theorem Tally.count {entries : List PlayerSummary} (h : Tally now sessions entries)
    (hknown : session.player ∈ entries.map PlayerSummary.player) :
    Tally now (sessions ++ [session]) (entries.map fun entry =>
      if entry.player = session.player then
        entry.count now session.leftAt.isNone session.joinedAt (ended now session)
      else entry) := by
  have hplayers : (entries.map fun entry =>
      if entry.player = session.player then
        entry.count now session.leftAt.isNone session.joinedAt (ended now session)
      else entry).map PlayerSummary.player = entries.map PlayerSummary.player := by
    rw [List.map_map]
    refine List.map_congr_left fun entry _ => ?_
    rw [Function.comp_apply, apply_ite PlayerSummary.player, count_player, ite_self]
  refine ⟨hplayers ▸ h.players, ?_, ?_⟩
  · intro player
    obtain ⟨old, hold, hsame⟩ := (h.mem_iff session.player).mp hknown
    rw [hplayers, h.mem_iff]
    constructor
    · rintro ⟨x, hx, hplayer⟩
      exact ⟨x, List.mem_append_left _ hx, hplayer⟩
    · rintro ⟨x, hx, hplayer⟩
      rcases List.mem_append.mp hx with hx | hx
      · exact ⟨x, hx, hplayer⟩
      · rw [List.mem_singleton.mp hx] at hplayer
        exact ⟨old, hold, hsame.trans hplayer⟩
  · rw [List.forall_mem_map]
    intro entry hentry
    have hcounted := h.counted entry hentry
    by_cases hplayer : entry.player = session.player
    · rw [if_pos hplayer, count_player, hplayer, of_append_self]
      rw [hplayer] at hcounted
      exact hcounted.count session
    · rw [if_neg hplayer, of_append_other (Ne.symm hplayer)]
      exact hcounted

theorem map_of_absent {entries : List PlayerSummary} {f : PlayerSummary → PlayerSummary}
    (h : player ∉ entries.map PlayerSummary.player) :
    (entries.map fun entry => if entry.player = player then f entry else entry) = entries := by
  refine (List.map_congr_left fun entry hentry => ?_).trans (List.map_id _)
  rw [if_neg, id]
  rintro rfl
  exact h (List.mem_map_of_mem hentry)

theorem Tally.enter {entries : List PlayerSummary} (h : Tally now sessions entries)
    (hnew : session.player ∉ entries.map PlayerSummary.player) :
    Tally now (sessions ++ [session]) (entries ++ [(⟨session.player, 0, ended now session, false⟩ :
      PlayerSummary).count now session.leftAt.isNone session.joinedAt (ended now session)]) := by
  have hnone : of session.player sessions = [] := by
    rw [of, List.filter_eq_nil_iff]
    intro x hx hplayer
    exact hnew ((h.mem_iff _).mpr ⟨x, hx, beq_iff_eq.mp hplayer⟩)
  refine ⟨?_, ?_, ?_⟩
  · rw [List.map_append, List.map_singleton, count_player]
    rw [List.nodup_append]
    refine ⟨h.players, List.nodup_singleton _, ?_⟩
    intro player hplayer entered hentered
    rw [List.mem_singleton.mp hentered]
    rintro rfl
    exact hnew hplayer
  · intro player
    rw [List.map_append, List.map_singleton, count_player, List.mem_append, h.mem_iff,
      List.mem_singleton]
    simp [or_and_right, exists_or, eq_comm]
  · rw [List.forall_mem_append, List.forall_mem_singleton]
    constructor
    · intro entry hentry
      have hother : session.player ≠ entry.player := by
        rintro hplayer
        exact hnew (hplayer ▸ List.mem_map_of_mem hentry)
      rw [of_append_other hother]
      exact h.counted entry hentry
    · rw [count_player, of_append_self, hnone, List.nil_append]
      exact counted_first now session.player session

theorem Tally.add {entries : List PlayerSummary} (h : Tally now sessions entries)
    (session : PlayerSession) :
    Tally now (sessions ++ [session]) (add now entries session.player session.leftAt.isNone
      session.joinedAt (ended now session)) := by
  have hany : (entries.any (·.player == session.player)) = true ↔
      session.player ∈ entries.map PlayerSummary.player := by
    simp [List.any_eq_true, List.mem_map]
  rw [PlayerHistory.add]
  by_cases hknown : session.player ∈ entries.map PlayerSummary.player
  · rw [if_pos (hany.mpr hknown)]
    exact h.count hknown
  · rw [if_neg (mt hany.mp hknown), List.map_append, map_of_absent hknown]
    simp only [List.map_singleton, if_true]
    exact h.enter hknown

theorem read_shows {row : SessionRow} (hrow : Shows row session) (entries : List PlayerSummary) :
    read now entries row = some (PlayerHistory.add now entries session.player
      session.leftAt.isNone session.joinedAt (ended now session)) := by
  rw [read, hrow.joinedAt, hrow.leftAt, hrow.player, Calendar.fromisoformat_isoformat]
  cases hleft : session.leftAt with
  | none => simp [ended, hleft]
  | some left => simp [ended, hleft, Calendar.fromisoformat_isoformat]

theorem foldlM_read {rows : List SessionRow} {seen : List PlayerSession}
    {entries : List PlayerSummary} (h : Tally now seen entries)
    (hrows : List.Forall₂ Shows rows sessions) :
    ∃ all, rows.foldlM (read now) entries = some all ∧ Tally now (seen ++ sessions) all := by
  induction hrows generalizing seen entries with
  | nil => exact ⟨entries, rfl, by rwa [List.append_nil]⟩
  | @cons row session rows sessions hrow _ ih =>
    obtain ⟨all, hall, htally⟩ := ih (h.add session)
    refine ⟨all, ?_, by rwa [List.append_assoc] at htally⟩
    rw [List.foldlM_cons, read_shows hrow]
    exact hall

theorem Tally.perm {entries entries' : List PlayerSummary} (h : Tally now sessions entries)
    (hperm : entries'.Perm entries) : Tally now sessions entries' := by
  refine ⟨((hperm.map _).nodup_iff).mpr h.players, fun player => ?_, fun entry hentry => ?_⟩
  · rw [(hperm.map _).mem_iff, h.mem_iff]
  · exact h.counted entry (hperm.mem_iff.mp hentry)

theorem summary_tally {rows : List SessionRow} (hrows : List.Forall₂ Shows rows sessions) :
    ∃ entries, summary now rows = some entries ∧ Tally now sessions entries := by
  have hempty : Tally now [] [] :=
    ⟨List.nodup_nil, fun player => by simp, List.forall_mem_nil _⟩
  obtain ⟨entries, hread, htally⟩ := foldlM_read hempty hrows
  refine ⟨_, by rw [summary, hread, Option.map_some], htally.perm (List.mergeSort_perm _ _)⟩

/-! ### Whole seconds -/

def endOfTime : ℤ := (Calendar.maxOrdinal + 1) * 86400 * 10 ^ 6

theorem instant_range (t : Time) : 0 ≤ instant t ∧ instant t ≤ endOfTime := by
  obtain ⟨hyear, hmonth, hday, hhour, hminute, hsecond, hmicro⟩ := t.valid
  have hordinal : Timeline.ordinal t ≤ Calendar.maxOrdinal :=
    (Calendar.dayNumber_range ⟨hyear, hmonth, hday⟩).2
  rw [instant, endOfTime]
  constructor
  · positivity
  · omega

def micros (now : Time) (session : PlayerSession) : ℤ :=
  max (instant (ended now session) - instant session.joinedAt) 0

theorem sum_micros_le {start : ℤ} (hapart : own.Pairwise Before)
    (hforward : ∀ session ∈ own, Forward session)
    (hstart : ∀ session ∈ own, start ≤ instant session.joinedAt) (hend : start ≤ endOfTime) :
    (own.map (micros now)).sum ≤ endOfTime - start := by
  induction own generalizing start with
  | nil => simpa using hend
  | cons session rest ih =>
    obtain ⟨hbefore, hrest⟩ := List.pairwise_cons.mp hapart
    have hfirst := hstart session List.mem_cons_self
    have hrange := (instant_range (ended now session)).2
    rw [List.map_cons, List.sum_cons]
    cases hleft : session.leftAt with
    | none =>
      have hlast : rest = [] := by
        refine List.eq_nil_iff_forall_not_mem.mpr fun later hlater => ?_
        obtain ⟨left, hleft', -⟩ := hbefore later hlater
        rw [hleft] at hleft'
        cases hleft'
      rw [hlast, List.map_nil, List.sum_nil, micros]
      omega
    | some left =>
      have hended : ended now session = left := by rw [ended, hleft, Option.getD_some]
      have hlasted := hforward session List.mem_cons_self left hleft
      have hlater : ∀ later ∈ rest, instant left ≤ instant later.joinedAt := by
        intro later hmem
        obtain ⟨left', hleft', hle⟩ := hbefore later hmem
        rw [hleft, Option.some.injEq] at hleft'
        rw [hleft']
        exact hle
      rw [hended] at hrange
      have hsum := ih hrest (fun x hx => hforward x (List.mem_cons_of_mem _ hx)) hlater hrange
      rw [micros, hended]
      omega

def Whole (now : Time) (session : PlayerSession) : Prop := 10 ^ 6 ∣ micros now session

def wholeSeconds (now : Time) (session : PlayerSession) : ℕ := (micros now session / 10 ^ 6).toNat

theorem wholeSeconds_mul (h : Whole now session) :
    (wholeSeconds now session : ℤ) * 10 ^ 6 = micros now session := by
  have hnonneg : 0 ≤ micros now session := le_max_right _ _
  obtain ⟨n, hn⟩ := h
  rw [wholeSeconds, hn, Int.mul_ediv_cancel_left _ (by norm_num)]
  omega

theorem seconds_eq_cast (h : Whole now session) :
    seconds now session = (wholeSeconds now session : ℚ) := by
  have hmul := wholeSeconds_mul h
  have hmicros : ((wholeSeconds now session : ℚ)) * 10 ^ 6 = (micros now session : ℚ) := by
    rw [← hmul, Int.cast_mul, Int.cast_natCast, Int.cast_pow, Int.cast_ofNat]
  have hseconds : seconds now session = (micros now session : ℚ) / 10 ^ 6 := rfl
  rw [hseconds, ← hmicros, mul_div_cancel_right₀ _ (by norm_num)]

theorem sum_wholeSeconds (h : ∀ session ∈ own, Whole now session) :
    (((own.map (wholeSeconds now)).sum : ℕ) : ℤ) * 10 ^ 6 = (own.map (micros now)).sum := by
  induction own with
  | nil => simp
  | cons session rest ih =>
    have hrest := ih fun x hx => h x (List.mem_cons_of_mem _ hx)
    have hfirst := wholeSeconds_mul (h session List.mem_cons_self)
    rw [List.map_cons, List.sum_cons, List.map_cons, List.sum_cons, Nat.cast_add, add_mul, hrest,
      hfirst]

theorem sum_whole (hwhole : ∀ session ∈ own, Whole now session)
    (hsum : (own.map (micros now)).sum ≤ endOfTime) :
    Binary64.sum (own.map fun session => Binary64.nearest (seconds now session)) =
      (own.map (seconds now)).sum := by
  have hcast : own.map (seconds now) =
      (own.map (wholeSeconds now)).map fun n : ℕ => (n : ℚ) := by
    rw [List.map_map]
    exact List.map_congr_left fun session hsession => seconds_eq_cast (hwhole session hsession)
  have hbound : (own.map (wholeSeconds now)).sum < 2 ^ 53 := by
    have htotal := sum_wholeSeconds hwhole
    have hend : endOfTime < 2 ^ 53 * 10 ^ 6 := by decide +kernel
    omega
  have hnearest : (own.map fun session => Binary64.nearest (seconds now session)) =
      ((own.map (wholeSeconds now)).map fun n : ℕ => (n : ℚ)).map Binary64.nearest := by
    rw [← hcast, List.map_map]
    rfl
  rw [hnearest, Binary64.sum_natCast hbound, hcast, Nat.cast_list_sum]

/-! ### The history -/

structure Told (now : Time) (entry : PlayerSummary) (own : List PlayerSession) : Prop
    extends Counted now entry own where
  /-- The sum of the durations, up to rounding -/
  near : (own.map (seconds now)).sum * (1 - Binary64.ulp) ^ (own.length + 1) ≤
      entry.totalSeconds ∧
    entry.totalSeconds ≤ (own.map (seconds now)).sum * (1 + Binary64.ulp) ^ (own.length + 1)
  exact : (∀ session ∈ own, Whole now session) →
    entry.totalSeconds = (own.map (seconds now)).sum

/-- The sessions that a table shows, in the order it is read in, and what is told of them. -/
structure Kept (now : Time) (rows : List SessionRow) (sessions : List PlayerSession) : Prop where
  shows_ : List.Forall₂ Shows rows sessions
  open_unique : ∀ player, (sessions.filter fun session =>
    session.player = player ∧ session.leftAt = none).length ≤ 1
  forward : ∀ session ∈ sessions, Forward session
  apart : sessions.Pairwise fun session session' =>
    session.player = session'.player → Before session session' ∨ Before session' session
  told : ∃ entries, summary now rows = some entries ∧
    (entries.map PlayerSummary.player).Nodup ∧
    (∀ player, player ∈ entries.map PlayerSummary.player ↔
      ∃ session ∈ sessions, session.player = player) ∧
    ∀ entry ∈ entries, Told now entry (of entry.player sessions)

theorem Tally.told {last : ℤ} {table : List PlayerSession} {entries : List PlayerSummary}
    (h : Tally now sessions entries) (horder : Orderly table last) (hperm : sessions.Perm table)
    (hentry : entry ∈ entries) : Told now entry (of entry.player sessions) := by
  have hcounted := h.counted entry hentry
  have hamount : ∀ x ∈ (of entry.player sessions).map (seconds now), Binary64.Amount x := by
    rw [List.forall_mem_map]
    exact fun session _ => amount_seconds now session
  have hbounds := Binary64.sum_bounds hamount
  rw [List.map_map, List.length_map] at hbounds
  refine ⟨hcounted, hcounted.total ▸ hbounds, fun hwhole => ?_⟩
  have hsame : (of entry.player table).Pairwise Before := by
    have hpairs := horder.apart.filter (·.player == entry.player)
    refine List.Pairwise.imp_of_mem (fun hx hy hxy => hxy ?_) hpairs
    have hplayer := (List.mem_filter.mp hx).2
    have hplayer' := (List.mem_filter.mp hy).2
    rw [beq_iff_eq.mp hplayer, beq_iff_eq.mp hplayer']
  have hfit : ((of entry.player table).map (micros now)).sum ≤ endOfTime - 0 :=
    sum_micros_le hsame (fun x hx => horder.forward x (List.mem_of_mem_filter hx))
      (fun x _ => (instant_range x.joinedAt).1) (by decide +kernel)
  rw [sub_zero] at hfit
  have hsum := (((hperm.filter (·.player == entry.player)).map (micros now)).sum_eq).trans_le hfit
  rw [hcounted.total, sum_whole hwhole hsum]

theorem kept_of_times (db : Sqlite) (events : List Event)
    (htimes : events.Pairwise fun event event' => instant event.time ≤ instant event'.time)
    (now : Time) (rows : List SessionRow) (hrows : rows.Perm (run db events).rows) :
    ∃ sessions, sessions.Perm (events.foldl next []) ∧ Kept now rows sessions := by
  obtain ⟨hrepresents, last, horder⟩ := run_represents db htimes
  obtain ⟨sessions, hshows, hperm⟩ := List.perm_comp_forall₂ hrows hrepresents.rows
  obtain ⟨entries, hsummary, htally⟩ : ∃ entries, summary now rows = some entries ∧
      Tally now sessions entries := summary_tally hshows
  refine ⟨sessions, hperm, hshows, fun player => ?_, fun session hsession => ?_, ?_, entries,
    hsummary, htally.players, htally.mem_iff, fun entry => htally.told horder hperm⟩
  · rw [(hperm.filter _).length_eq]
    exact horder.open_unique player
  · exact horder.forward session (hperm.mem_iff.mp hsession)
  · have hsymm := horder.apart.imp fun {a b} h => (fun hplayer : a.player = b.player =>
      (Or.inl (h hplayer) : Before a b ∨ Before b a))
    refine (hperm.pairwise_iff ?_).mpr hsymm
    intro a b h hplayer
    exact (h hplayer.symm).symm

/-! ### Tenths of seconds -/

def second : Time := ⟨2026, 3, 14, 12, 0, 1, 0, by decide⟩

def twoSeconds : Time := ⟨2026, 3, 14, 12, 0, 2, 0, by decide⟩

/-- A session of a tenth of a second, and one of two tenths. -/
def tenths : List Event :=
  [.join "Alex" Timeline.noon, .leave "Alex" ⟨2026, 3, 14, 12, 0, 0, 100000, by decide⟩,
    .join "Alex" second, .leave "Alex" ⟨2026, 3, 14, 12, 0, 1, 200000, by decide⟩]

theorem tenths_times :
    tenths.Pairwise fun event event' => instant event.time ≤ instant event'.time := by
  decide +kernel

theorem tenths_kept : ∃ sessions, sessions.Perm (tenths.foldl next []) ∧
    Kept twoSeconds (run Timeline.inOrder tenths).rows sessions :=
  kept_of_times Timeline.inOrder tenths tenths_times twoSeconds _ (List.Perm.refl _)

/-- The doubles next to a tenth and to two tenths add up to more than the double next to three. -/
theorem tenths_not_summed :
    ((summary twoSeconds (run Timeline.inOrder tenths).rows).map fun entries =>
        entries.map PlayerSummary.totalSeconds) = some [1351079888211149 / 2 ^ 52] ∧
      ((tenths.foldl next []).map (seconds twoSeconds)).sum = 3 / 10 ∧
      (1351079888211149 / 2 ^ 52 : ℚ) ≠ 3 / 10 := by
  refine ⟨?_, ?_, by norm_num⟩
  · decide +kernel
  · decide +kernel

end

end PlayerHistory
