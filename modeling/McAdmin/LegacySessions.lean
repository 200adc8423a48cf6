import McAdmin.LegacyDating

/-!
# The sessions of old lines

As long as local time does not go back, each join becomes one session, which ends at the first
line after it that ends a session of its player, or at the last line of all.
-/

namespace LegacyImport

open Backtracking
open IntText (DigitTable)

abbrev Stamp := Moment × Text

structure Stay where
  player : Text
  joined : Moment
  left : Moment
deriving DecidableEq

def Stay.session (zone : Zone) (stay : Stay) : Session :=
  ⟨stay.player, zone.text stay.joined, zone.text stay.left⟩

section

variable (u : DigitTable) (final : Moment)

/-- A boot, a leave of the player or a join of the player. -/
def ends (player : Text) (message : Text) : Bool :=
  kind u message = .boot ∨ kind u message = .joined player ∨ kind u message = .left player

/-- The time of the first line that ends a session of the player, or the last of all. -/
def endOf (player : Text) (stamps : List Stamp) : Moment :=
  ((stamps.find? fun stamp => ends u player stamp.2).map Prod.fst).getD final

def stays : List Stamp → List Stay
  | [] => []
  | stamp :: stamps =>
    match kind u stamp.2 with
    | .joined player => ⟨player, stamp.1, endOf u final player stamps⟩ :: stays stamps
    | _ => stays stamps

end

section

variable {u : DigitTable} {zone : Zone} {final t : Moment} {player : Text} {read : Read}
  {stamp : Stamp} {stamps : List Stamp}

theorem endOf_cons_of_ends (h : ends u player stamp.2 = true) :
    endOf u final player (stamp :: stamps) = stamp.1 := by
  simp only [endOf, List.find?_cons, h]
  rfl

theorem endOf_cons_of_not (h : ends u player stamp.2 = false) :
    endOf u final player (stamp :: stamps) = endOf u final player stamps := by
  simp only [endOf, List.find?_cons, h]

def pending (zone : Zone) (openSessions : Dict Text Moment) (at_ : Text → Moment) : List Session :=
  openSessions.entries.map fun entry =>
    ⟨entry.1, zone.text entry.2, zone.text (at_ entry.1)⟩

def OpenBy (read : Read) (t : Moment) : Prop :=
  ∀ entry ∈ read.openSessions.entries, entry.2.wall ≤ t.wall

theorem close_of_none (h : read.openSessions.lookup player = none) :
    close zone read player t = read := by
  rw [close, h]

theorem close_of_some {started : Moment} (h : read.openSessions.lookup player = some started)
    (hbefore : started.wall ≤ t.wall) : close zone read player t =
      { read with
        openSessions := read.openSessions.erase player
        sessions := read.sessions ++ [⟨player, zone.text started, zone.text t⟩] } := by
  rw [close, h]
  dsimp only
  rw [if_pos hbefore]

theorem started_le {started : Moment} (hopen : OpenBy read t)
    (h : read.openSessions.lookup player = some started) : started.wall ≤ t.wall :=
  hopen ⟨player, started⟩ (AList.mem_lookup_iff.mp h)

theorem close_perm (zone : Zone) (player : Text) (hopen : OpenBy read t) (at_ : Text → Moment) :
    ((close zone read player t).sessions ++
      pending zone (close zone read player t).openSessions at_).Perm
      (read.sessions ++ pending zone read.openSessions fun other =>
        if other = player then t else at_ other) := by
  cases hlookup : read.openSessions.lookup player with
  | none =>
    rw [close_of_none hlookup]
    refine List.Perm.of_eq (congrArg (read.sessions ++ ·) (List.map_congr_left ?_))
    intro entry hentry
    have hne : entry.1 ≠ player := by
      rintro rfl
      have hsome : read.openSessions.lookup entry.1 = some entry.2 :=
        AList.mem_lookup_iff.mpr hentry
      rw [hlookup] at hsome
      cases hsome
    dsimp only
    rw [if_neg hne]
  | some started =>
    have hperm := (Dict.perm_erase hlookup).map fun entry : Sigma fun _ : Text => Moment =>
      (⟨entry.1, zone.text entry.2, zone.text (if entry.1 = player then t else at_ entry.1)⟩ :
        Session)
    rw [close_of_some hlookup (started_le hopen hlookup)]
    have hothers : pending zone (read.openSessions.erase player) at_ =
        pending zone (read.openSessions.erase player) fun other =>
          if other = player then t else at_ other := by
      refine List.map_congr_left fun entry hentry => ?_
      rw [Dict.entries_erase, List.mem_filter, decide_eq_true_eq] at hentry
      dsimp only
      rw [if_neg hentry.2]
    dsimp only
    rw [hothers, List.append_assoc]
    refine (List.Perm.append_left _ ?_)
    refine List.Perm.trans ?_ hperm.symm
    rw [List.map_cons, if_pos rfl]
    rfl

theorem openBy_close (hopen : OpenBy read t) : OpenBy (close zone read player t) t := by
  cases hlookup : read.openSessions.lookup player with
  | none => rwa [close_of_none hlookup]
  | some started =>
    rw [close_of_some hlookup (started_le hopen hlookup)]
    intro entry hentry
    rw [Dict.entries_erase, List.mem_filter] at hentry
    exact hopen entry hentry.1

theorem not_mem_close (zone : Zone) (player : Text) (hopen : OpenBy read t) :
    player ∉ (close zone read player t).openSessions := by
  cases hlookup : read.openSessions.lookup player with
  | none =>
    rw [close_of_none hlookup]
    exact AList.lookup_eq_none.mp hlookup
  | some started =>
    rw [close_of_some hlookup (started_le hopen hlookup)]
    simp

theorem OpenBy.mono {t' : Moment} (hopen : OpenBy read t) (h : t.wall ≤ t'.wall) :
    OpenBy read t' :=
  fun entry hentry => (hopen entry hentry).trans h

theorem foldl_close {l : List (Sigma fun _ : Text => Moment)}
    (hentries : read.openSessions.entries = l) (hopen : OpenBy read t) :
    (l.map Sigma.fst).foldl (fun read player => close zone read player t) read =
      { read with
        openSessions := ∅
        sessions := read.sessions ++ pending zone read.openSessions fun _ => t } := by
  induction l generalizing read with
  | nil =>
    obtain ⟨opens, sessions, commands⟩ := read
    obtain rfl : opens = ∅ := AList.ext hentries
    simp [pending]
  | cons entry rest ih =>
    have hlookup : read.openSessions.lookup entry.1 = some entry.2 := by
      apply AList.mem_lookup_iff.mpr
      rw [hentries]
      exact List.mem_cons_self
    have herase : (read.openSessions.erase entry.1).entries = rest := by
      change read.openSessions.entries.kerase entry.1 = rest
      rw [hentries, List.kerase_cons_eq rfl]
    have hnext : OpenBy (close zone read entry.1 t) t := openBy_close hopen
    rw [close_of_some hlookup (started_le hopen hlookup)] at hnext
    rw [List.map_cons, List.foldl_cons, close_of_some hlookup (started_le hopen hlookup),
      ih herase hnext]
    simp only [pending, herase, hentries, List.map_cons, List.append_assoc, List.singleton_append]

theorem closeAll_eq (hopen : OpenBy read t) : closeAll zone read t =
    { read with
      openSessions := ∅
      sessions := read.sessions ++ pending zone read.openSessions fun _ => t } :=
  foldl_close rfl hopen

/-! ### The run -/

theorem ends_of_boot (h : kind u stamp.2 = .boot) : ends u player stamp.2 = true := by
  simp [ends, h]

theorem ends_of_joined {other : Text} (h : kind u stamp.2 = .joined player) :
    ends u other stamp.2 = decide (other = player) := by
  simp [ends, h, eq_comm]

theorem ends_of_left {other : Text} (h : kind u stamp.2 = .left player) :
    ends u other stamp.2 = decide (other = player) := by
  simp [ends, h, eq_comm]

theorem endOf_of_player {other : Text}
    (h : ends u other stamp.2 = decide (other = player)) :
    endOf u final other (stamp :: stamps) =
      if other = player then stamp.1 else endOf u final other stamps := by
  by_cases hother : other = player
  · rw [if_pos hother, endOf_cons_of_ends (by rw [h, decide_eq_true_eq]; exact hother)]
  · rw [if_neg hother, endOf_cons_of_not (by rw [h, decide_eq_false_iff_not]; exact hother)]

theorem openBy_handle {message : Text} (hopen : OpenBy read t) :
    OpenBy (handle u zone read t message) t := by
  rw [handle]
  cases kind u message with
  | boot =>
    dsimp only
    rw [closeAll_eq hopen]
    intro entry hentry
    cases hentry
  | joined player =>
    intro entry hentry
    dsimp only at hentry
    have hperm := Dict.perm_set (close zone read player t).openSessions player t
    rcases List.mem_cons.mp (hperm.mem_iff.mp hentry) with rfl | hentry
    · exact le_rfl
    · rw [Dict.entries_erase, List.mem_filter] at hentry
      exact openBy_close hopen entry hentry.1
  | left player => exact openBy_close hopen
  | command player command => exact hopen
  | other => exact hopen

theorem pending_congr {opens : Dict Text Moment} {at_ at_' : Text → Moment}
    (h : ∀ player, at_ player = at_' player) : pending zone opens at_ = pending zone opens at_' := by
  rw [funext h]

theorem pending_set (zone : Zone) {opens : Dict Text Moment} (t : Moment) (at_ : Text → Moment)
    (hnew : player ∉ opens) :
    (pending zone (Dict.set opens player t) at_).Perm
      (⟨player, zone.text t, zone.text (at_ player)⟩ :: pending zone opens at_) := by
  have hperm := (Dict.perm_set opens player t).map fun entry : Sigma fun _ : Text => Moment =>
    (⟨entry.1, zone.text entry.2, zone.text (at_ entry.1)⟩ : Session)
  rw [Dict.erase_of_lookup_eq_none (AList.lookup_eq_none.mpr hnew)] at hperm
  exact hperm

theorem endOf_of_none (h : ∀ player, ends u player stamp.2 = false) (player : Text) :
    endOf u final player (stamp :: stamps) = endOf u final player stamps :=
  endOf_cons_of_not (h player)

theorem handle_perm (hopen : OpenBy read stamp.1) :
    ((handle u zone read stamp.1 stamp.2).sessions ++
        pending zone (handle u zone read stamp.1 stamp.2).openSessions
          (fun player => endOf u final player stamps) ++
        (stays u final stamps).map (Stay.session zone)).Perm
      (read.sessions ++
        pending zone read.openSessions (fun player => endOf u final player (stamp :: stamps)) ++
        (stays u final (stamp :: stamps)).map (Stay.session zone)) := by
  rw [handle, stays]
  cases hkind : kind u stamp.2 with
  | boot =>
    have hends : ∀ player, endOf u final player (stamp :: stamps) = stamp.1 :=
      fun player => endOf_cons_of_ends (ends_of_boot hkind)
    dsimp only
    rw [closeAll_eq hopen, pending_congr hends]
    refine List.Perm.append_right _ (List.Perm.of_eq ?_)
    exact List.append_nil _
  | joined player =>
    have hends : ∀ other, endOf u final other (stamp :: stamps) =
        if other = player then stamp.1 else endOf u final other stamps :=
      fun other => endOf_of_player (ends_of_joined hkind)
    -- a join ends the stay that is open, and a new one is pending
    have hclose := close_perm zone player hopen fun other => endOf u final other stamps
    have hset := pending_set zone stamp.1 (fun other => endOf u final other stamps)
      (not_mem_close zone player hopen)
    rw [pending_congr hends, List.map_cons]
    refine ((hset.append_left _).append_right _).trans ?_
    refine List.Perm.trans ?_ (hclose.append_right _)
    rw [List.append_assoc, List.cons_append, List.append_assoc]
    refine List.Perm.append_left _ ?_
    exact List.perm_middle.symm
  | left player =>
    have hends : ∀ other, endOf u final other (stamp :: stamps) =
        if other = player then stamp.1 else endOf u final other stamps :=
      fun other => endOf_of_player (ends_of_left hkind)
    rw [pending_congr hends]
    exact (close_perm zone player hopen _).append_right _
  | command player command =>
    rw [pending_congr (endOf_of_none fun other => by simp [ends, hkind])]
  | other => rw [pending_congr (endOf_of_none fun other => by simp [ends, hkind])]

def replay (u : DigitTable) (zone : Zone) (read : Read) (stamps : List Stamp) : Read :=
  stamps.foldl (fun read stamp => handle u zone read stamp.1 stamp.2) read

def Forward (stamps : List Stamp) : Prop :=
  stamps.Pairwise fun stamp stamp' => stamp.1.wall ≤ stamp'.1.wall

theorem replay_perm (hopen : ∀ stamp ∈ stamps, OpenBy read stamp.1) (hforward : Forward stamps) :
    ((replay u zone read stamps).sessions ++
        pending zone (replay u zone read stamps).openSessions (fun _ => final)).Perm
      (read.sessions ++ pending zone read.openSessions (fun player => endOf u final player stamps) ++
        (stays u final stamps).map (Stay.session zone)) := by
  induction stamps generalizing read with
  | nil => exact List.Perm.of_eq (List.append_nil _).symm
  | cons stamp stamps ih =>
    obtain ⟨hfirst, hrest⟩ := List.pairwise_cons.mp hforward
    have hnow := hopen stamp List.mem_cons_self
    have hnext : ∀ later ∈ stamps, OpenBy (handle u zone read stamp.1 stamp.2) later.1 :=
      fun later hlater => (openBy_handle hnow).mono (hfirst later hlater)
    exact (ih hnext hrest).trans (handle_perm hnow)

/-! ### The stays -/

theorem endOf_le {stamp : Stamp} (hforward : Forward stamps) (hmem : stamp ∈ stamps)
    (hends : ends u player stamp.2 = true) :
    (endOf u final player stamps).wall ≤ stamp.1.wall := by
  induction stamps with
  | nil => cases hmem
  | cons first rest ih =>
    obtain ⟨hfirst, hrest⟩ := List.pairwise_cons.mp hforward
    cases hnow : ends u player first.2 with
    | true =>
      rw [endOf_cons_of_ends hnow]
      rcases List.mem_cons.mp hmem with rfl | hmem
      · exact le_rfl
      · exact hfirst stamp hmem
    | false =>
      rw [endOf_cons_of_not hnow]
      rcases List.mem_cons.mp hmem with rfl | hmem
      · rw [hnow] at hends
        cases hends
      · exact ih hrest hmem

theorem le_endOf (h : ∀ stamp ∈ stamps, t.wall ≤ stamp.1.wall) (hfinal : t.wall ≤ final.wall) :
    t.wall ≤ (endOf u final player stamps).wall := by
  rw [endOf]
  cases hfound : stamps.find? fun stamp => ends u player stamp.2 with
  | none => exact hfinal
  | some stamp => exact h stamp (List.mem_of_find?_eq_some hfound)

theorem mem_stays {stay : Stay} (h : stay ∈ stays u final stamps) :
    ∃ stamp ∈ stamps, kind u stamp.2 = .joined stay.player ∧ stay.joined = stamp.1 := by
  induction stamps with
  | nil => cases h
  | cons stamp stamps ih =>
    have hrest : stay ∈ stays u final stamps →
        ∃ later ∈ stamp :: stamps, kind u later.2 = .joined stay.player ∧
          stay.joined = later.1 := by
      intro hmem
      obtain ⟨later, hlater, hfacts⟩ := ih hmem
      exact ⟨later, List.mem_cons_of_mem _ hlater, hfacts⟩
    rw [stays] at h
    cases hkind : kind u stamp.2 with
    | joined player =>
      rw [hkind] at h
      rcases List.mem_cons.mp h with rfl | h
      · exact ⟨stamp, List.mem_cons_self, hkind, rfl⟩
      · exact hrest h
    | boot => exact hrest (by rwa [hkind] at h)
    | left player => exact hrest (by rwa [hkind] at h)
    | command player command => exact hrest (by rwa [hkind] at h)
    | other => exact hrest (by rwa [hkind] at h)

/-- Stays of one player come one after the other, and none ends before it begins. -/
structure Apart (found : List Stay) : Prop where
  forward : ∀ stay ∈ found, stay.joined.wall ≤ stay.left.wall
  apart : found.Pairwise fun stay stay' =>
    stay.player = stay'.player → stay.left.wall ≤ stay'.joined.wall

theorem apart_stays (hforward : Forward stamps)
    (hfinal : ∀ stamp ∈ stamps, stamp.1.wall ≤ final.wall) : Apart (stays u final stamps) := by
  induction stamps with
  | nil => exact ⟨List.forall_mem_nil _, .nil⟩
  | cons stamp stamps ih =>
    obtain ⟨hfirst, hrest⟩ := List.pairwise_cons.mp hforward
    have hapart := ih hrest fun later hlater => hfinal later (List.mem_cons_of_mem _ hlater)
    rw [stays]
    cases kind u stamp.2 with
    | boot => exact hapart
    | left player => exact hapart
    | command player command => exact hapart
    | other => exact hapart
    | joined player =>
      refine ⟨List.forall_mem_cons.mpr ⟨?_, hapart.forward⟩,
        List.pairwise_cons.mpr ⟨?_, hapart.apart⟩⟩
      · exact le_endOf hfirst (hfinal stamp List.mem_cons_self)
      · intro stay hstay hplayer
        obtain ⟨later, hlater, hkind, hjoined⟩ := mem_stays hstay
        rw [hjoined]
        refine endOf_le hrest hlater ?_
        rw [ends_of_joined hkind, decide_eq_true_eq]
        exact hplayer

/-! ### What stays open -/

def LeftOpen (u : DigitTable) (stamps : List Stamp) : Prop :=
  ∃ before stamp after player, stamps = before ++ stamp :: after ∧
    kind u stamp.2 = .joined player ∧ ∀ later ∈ after, ends u player later.2 = false

theorem mem_close {entry : Sigma fun _ : Text => Moment}
    (h : entry ∈ (close zone read player t).openSessions.entries) :
    entry ∈ read.openSessions.entries ∧ entry.1 ≠ player := by
  rw [close] at h
  cases hlookup : read.openSessions.lookup player with
  | none =>
    rw [hlookup] at h
    refine ⟨h, ?_⟩
    rintro rfl
    have hsome : read.openSessions.lookup entry.1 = some entry.2 := AList.mem_lookup_iff.mpr h
    rw [hlookup] at hsome
    cases hsome
  | some started =>
    rw [hlookup] at h
    dsimp only at h
    rw [Dict.entries_erase, List.mem_filter, decide_eq_true_eq] at h
    exact h

theorem mem_handle (hopen : OpenBy read stamp.1) {entry : Sigma fun _ : Text => Moment}
    (h : entry ∈ (handle u zone read stamp.1 stamp.2).openSessions.entries) :
    kind u stamp.2 = .joined entry.1 ∨
      entry ∈ read.openSessions.entries ∧ ends u entry.1 stamp.2 = false := by
  rw [handle] at h
  cases hkind : kind u stamp.2 with
  | boot =>
    rw [hkind] at h
    dsimp only at h
    rw [closeAll_eq hopen] at h
    cases h
  | joined player =>
    rw [hkind] at h
    have hperm := Dict.perm_set (close zone read player stamp.1).openSessions player stamp.1
    rcases List.mem_cons.mp (hperm.mem_iff.mp h) with rfl | h
    · exact .inl rfl
    · rw [Dict.entries_erase, List.mem_filter] at h
      obtain ⟨hmem, hne⟩ := mem_close h.1
      exact .inr ⟨hmem, by rw [ends_of_joined hkind, decide_eq_false_iff_not]; exact hne⟩
  | left player =>
    rw [hkind] at h
    obtain ⟨hmem, hne⟩ := mem_close h
    exact .inr ⟨hmem, by rw [ends_of_left hkind, decide_eq_false_iff_not]; exact hne⟩
  | command player command | other =>
    rw [hkind] at h
    exact .inr ⟨h, by simp [ends, hkind]⟩

theorem leftOpen_of_mem (hopen : ∀ stamp ∈ stamps, OpenBy read stamp.1)
    (hforward : Forward stamps) {entry : Sigma fun _ : Text => Moment}
    (h : entry ∈ (replay u zone read stamps).openSessions.entries) :
    LeftOpen u stamps ∨ entry ∈ read.openSessions.entries ∧
      ∀ stamp ∈ stamps, ends u entry.1 stamp.2 = false := by
  induction stamps generalizing read with
  | nil => exact .inr ⟨h, List.forall_mem_nil _⟩
  | cons stamp stamps ih =>
    obtain ⟨hfirst, hrest⟩ := List.pairwise_cons.mp hforward
    have hnow := hopen stamp List.mem_cons_self
    have hnext : ∀ later ∈ stamps, OpenBy (handle u zone read stamp.1 stamp.2) later.1 :=
      fun later hlater => (openBy_handle hnow).mono (hfirst later hlater)
    rcases ih hnext hrest h with ⟨before, found, after, player, hsplit, hfacts⟩ | ⟨hmem, hnone⟩
    · exact .inl ⟨stamp :: before, found, after, player, by rw [hsplit]; rfl, hfacts⟩
    · rcases mem_handle hnow hmem with hjoined | ⟨hmem, hends⟩
      · exact .inl ⟨[], stamp, stamps, entry.1, rfl, hjoined, hnone⟩
      · exact .inr ⟨hmem, List.forall_mem_cons.mpr ⟨hends, hnone⟩⟩

end

end LegacyImport
