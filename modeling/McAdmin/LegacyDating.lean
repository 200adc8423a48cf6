import Mathlib.Data.List.Chain
import McAdmin.LegacyImport

/-!
# The days of old lines

The lines of a file get their true days when the file is named by the day of its first one and
the local time of each next one is later by less than a day, and then only: a clock that is set
back is taken for midnight.
-/

namespace LegacyImport

open Backtracking
open Calendar (Date)
open IntText (DigitTable)

def Moment.ofDay (t : Moment) : ℕ := (t.hour * 60 + t.minute) * 60 + t.second

def Follows (t t' : Moment) : Prop := t.wall ≤ t'.wall ∧ t'.wall < t.wall + 86400

section

variable {u : DigitTable} {zone : Zone} {t t' : Moment} {c : Clock} {message : Text}
  {dating : Dating} {raw : Text} {lines : List Line} {read : Read} {lastSeen : Option Moment}

theorem ofDay_lt (t : Moment) : t.ofDay < 86400 := by
  obtain ⟨hhour, hminute, hsecond⟩ := t.valid
  rw [Moment.ofDay]
  omega

theorem wall_eq (t : Moment) : t.wall = t.day.ordinal * 86400 + t.ofDay := by
  rw [Moment.wall, Moment.ofDay]
  omega

theorem clock_lt_iff : t.clock < t'.clock ↔ t.ofDay < t'.ofDay := by
  obtain ⟨-, hminute, hsecond⟩ := t.valid
  obtain ⟨-, hminute', hsecond'⟩ := t'.valid
  rw [Moment.clock, Moment.clock, clock, clock, Prod.Lex.toLex_lt_toLex,
    Prod.Lex.toLex_lt_toLex, Moment.ofDay, Moment.ofDay]
  omega

theorem date_ext {day day' : Date} (h : day.ordinal = day'.ordinal) : day = day' := by
  cases day
  cases day'
  cases h
  rfl

theorem dayAt_first (day : Date) (c : Clock) : Dating.dayAt ⟨day, none⟩ c = .ok day := rfl

theorem dayAt_iff : Dating.dayAt ⟨t.day, some t.clock⟩ t'.clock = .ok t'.day ↔ Follows t t' := by
  have hsecond := ofDay_lt t
  have hsecond' := ofDay_lt t'
  have hvalid := t'.day.valid
  rw [Dating.dayAt, Follows, wall_eq, wall_eq]
  simp only [Option.any_some, decide_eq_true_eq, clock_lt_iff]
  by_cases hback : t'.ofDay < t.ofDay
  · rw [if_pos hback, nextDay]
    split_ifs with hnext
    · rw [Except.ok.injEq]
      constructor
      · intro hday
        rw [← hday]
        dsimp only
        omega
      · rintro ⟨hlow, hhigh⟩
        exact date_ext (by dsimp only; omega)
    · refine iff_of_false (fun h => by cases h) fun h => ?_
      omega
  · rw [if_neg hback, Except.ok.injEq]
    constructor
    · intro hday
      rw [hday]
      omega
    · intro h
      exact date_ext (by omega)

theorem stamp_of_none (h : matchLine u raw = none) : stamp u dating raw = .ok (dating, none) := by
  rw [stamp, h]

theorem stamp_of_match (h : matchLine u raw = some (t.clock, message)) :
    stamp u dating raw = (dating.dayAt t.clock).map fun day =>
      (⟨day, some t.clock⟩, some ({ t with day := day }, message)) := by
  have hmake : ∀ day, Moment.make day t.clock = .ok { t with day := day } :=
    fun _ => dif_pos t.valid
  rw [stamp, h]
  cases hday : dating.dayAt t.clock with
  | error e => simp only [hday, bind, Except.bind, Except.map]
  | ok day =>
    simp only [hday, bind, Except.bind, Except.map, hmake]
    rfl

/-! ### A file -/

/-- The lines of a file that match, with the times when they were written. -/
def entries (u : DigitTable) (zone : Zone) (lines : List Line) : List (Moment × Text) :=
  lines.filterMap fun line =>
    (matchLine u line.text).map fun m => (zone.localTime line.instant, m.2)

def Truthful (u : DigitTable) (zone : Zone) (lines : List Line) : Prop :=
  ∀ line ∈ lines, ∀ c message, matchLine u line.text = some (c, message) →
    c = (zone.localTime line.instant).clock

/-- The first line is of the day in the file's name, and each next one follows within a day. -/
structure Steady (day : Date) (stamps : List (Moment × Text)) : Prop where
  first : ∀ stamp, stamps.head? = some stamp → stamp.1.day = day
  chain : stamps.IsChain fun stamp stamp' => Follows stamp.1 stamp'.1

theorem entries_cons_none {line : Line} (h : matchLine u line.text = none) :
    entries u zone (line :: lines) = entries u zone lines := by
  rw [entries, List.filterMap_cons_none (by rw [h]; rfl)]
  rfl

theorem entries_cons_some {line : Line} (h : matchLine u line.text = some (c, message)) :
    entries u zone (line :: lines) =
      (zone.localTime line.instant, message) :: entries u zone lines := by
  rw [entries, List.filterMap_cons_some (by rw [h]; rfl)]
  rfl

theorem datedLines_cons_none {line : Line} (h : matchLine u line.text = none) :
    datedLines u dating (line :: lines) = datedLines u dating lines := by
  rw [datedLines, stamp_of_none h]
  cases hrest : datedLines u dating lines with
  | error e => simp only [bind, Except.bind, hrest]
  | ok stamps => simp only [bind, Except.bind, hrest]; rfl

theorem datedLines_cons_iff {line : Line} {stamps : List (Moment × Text)}
    (h : matchLine u line.text = some (t.clock, message)) :
    datedLines u dating (line :: lines) = .ok ((t, message) :: stamps) ↔
      dating.dayAt t.clock = .ok t.day ∧
        datedLines u ⟨t.day, some t.clock⟩ lines = .ok stamps := by
  rw [datedLines, stamp_of_match h]
  cases hday : dating.dayAt t.clock with
  | error e => simp [bind, Except.bind, Except.map]
  | ok day =>
    have hsame : { t with day := day } = t ↔ day = t.day :=
      ⟨fun heq => congrArg Moment.day heq, fun heq => by rw [heq]⟩
    simp only [bind, Except.bind, Except.map]
    cases hrest : datedLines u ⟨day, some t.clock⟩ lines with
    | error e =>
      simp only [reduceCtorEq, Except.ok.injEq, false_iff, not_and]
      rintro rfl hok
      rw [hrest] at hok
      cases hok
    | ok rest =>
      simp only [pure, Except.pure, Option.toList, List.cons_append, List.nil_append,
        Except.ok.injEq, List.cons.injEq, Prod.mk.injEq, and_true, hsame]
      refine and_congr_right ?_
      rintro rfl
      rw [hrest, Except.ok.injEq]

theorem datedLines_after_iff (htrue : Truthful u zone lines) :
    datedLines u ⟨t.day, some t.clock⟩ lines = .ok (entries u zone lines) ↔
      ((t, message) :: entries u zone lines).IsChain fun a b => Follows a.1 b.1 := by
  induction lines generalizing t message with
  | nil => exact iff_of_true rfl (List.isChain_singleton _)
  | cons line lines ih =>
    have hrest : Truthful u zone lines := fun x hx => htrue x (List.mem_cons_of_mem _ hx)
    cases hmatch : matchLine u line.text with
    | none => rw [entries_cons_none hmatch, datedLines_cons_none hmatch, ih hrest]
    | some m =>
      obtain ⟨c, found⟩ := m
      obtain rfl := htrue line List.mem_cons_self c found hmatch
      rw [entries_cons_some hmatch, datedLines_cons_iff hmatch, dayAt_iff, ih hrest,
        List.isChain_cons_cons]

theorem datedLines_iff {day : Date} (htrue : Truthful u zone lines) :
    datedLines u ⟨day, none⟩ lines = .ok (entries u zone lines) ↔
      Steady day (entries u zone lines) := by
  induction lines with
  | nil => exact iff_of_true rfl ⟨fun _ h => (by cases h), List.isChain_nil⟩
  | cons line lines ih =>
    have hrest : Truthful u zone lines := fun x hx => htrue x (List.mem_cons_of_mem _ hx)
    cases hmatch : matchLine u line.text with
    | none => rw [entries_cons_none hmatch, datedLines_cons_none hmatch, ih hrest]
    | some m =>
      obtain ⟨c, found⟩ := m
      obtain rfl := htrue line List.mem_cons_self c found hmatch
      rw [entries_cons_some hmatch, datedLines_cons_iff hmatch, dayAt_first, Except.ok.injEq,
        datedLines_after_iff hrest]
      constructor
      · rintro ⟨rfl, hchain⟩
        exact ⟨fun _ hfirst => by rw [← Option.some.inj hfirst], hchain⟩
      · rintro ⟨hfirst, hchain⟩
        exact ⟨(hfirst _ rfl).symm, hchain⟩

theorem readLines_of_dated {stamps : List (Moment × Text)}
    (h : datedLines u dating lines = .ok stamps) :
    readLines u zone dating lastSeen read lines =
      .ok ((stamps.getLast?.map Prod.fst).or lastSeen,
        stamps.foldl (fun read stamp => handle u zone read stamp.1 stamp.2) read) := by
  induction lines generalizing dating lastSeen read stamps with
  | nil =>
    obtain rfl := Except.ok.inj h
    rfl
  | cons line lines ih =>
    rw [datedLines] at h
    rw [readLines]
    cases hstamp : stamp u dating line.text with
    | error e => simp [hstamp, bind, Except.bind] at h
    | ok stamped =>
      obtain ⟨dating', stamped⟩ := stamped
      cases hrest : datedLines u dating' lines with
      | error e => simp [hstamp, hrest, bind, Except.bind] at h
      | ok rest =>
        obtain rfl : stamped.toList ++ rest = stamps := by
          simpa [hstamp, hrest, bind, Except.bind, pure, Except.pure] using h
        cases stamped with
        | none => exact ih hrest
        | some found =>
          refine (ih hrest).trans ?_
          rw [Option.toList_some, List.singleton_append, List.foldl_cons, List.getLast?_cons]
          cases rest.getLast? <;> rfl

end

end LegacyImport
