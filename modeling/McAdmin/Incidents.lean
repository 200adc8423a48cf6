import Mathlib.Data.List.Nodup
import Mathlib.Data.Int.Notation
import Mathlib.Data.Nat.Notation
import McAdmin.LastItems

/-!
# The journal of incidents

`JsonIncidents` keeps the open incidents by subject and the latest closed ones.  The file
is its decoded value, which only this adapter writes.
-/

namespace Incidents

open LastItems (mem_of_mem_rtake)

structure Instant where
  iso : String
  timestamp : ℤ

structure Incident where
  id : String
  subject : String
  kind : String
  label : String
  startedAt : String
  endedAt : Option String
  detail : String

def historyCap : ℕ := 500

structure JsonIncidents where
  opened : List (String × Incident) := []
  history : List Incident := []

namespace JsonIncidents

/-- `subject in data["open"]` -/
def isOpen (data : JsonIncidents) (subject : String) : Bool := (data.opened.lookup subject).isSome

def openIncident (now : Instant) (subject kind label detail : String) (data : JsonIncidents) :
    JsonIncidents :=
  if data.isOpen subject then data
  else
    let record : Incident :=
      { id := subject ++ ":" ++ toString now.timestamp
        subject := subject
        kind := kind
        label := label
        startedAt := now.iso
        endedAt := none
        detail := detail }
    { data with opened := data.opened ++ [(subject, record)] }

def closeIncident (now : Instant) (subject detail : String) (data : JsonIncidents) :
    JsonIncidents :=
  match data.opened.lookup subject with
  | none => data
  | some record =>
    let record : Incident :=
      { record with
        endedAt := some now.iso
        detail := if detail = "" then record.detail else detail }
    { opened := data.opened.filter (·.1 ≠ subject)
      history := (data.history ++ [record]).rtake historyCap }

/-- The records `recent` reads. -/
def records (data : JsonIncidents) : List Incident := data.opened.map (·.2) ++ data.history

def openFor (data : JsonIncidents) (subject : String) : List Incident :=
  data.records.filter fun record => record.subject = subject ∧ record.endedAt = none

/-- Each open incident is under its subject, and those of the history have ended. -/
structure WellKept (data : JsonIncidents) : Prop where
  distinct : (data.opened.map (·.1)).Nodup
  underSubject : ∀ entry ∈ data.opened, entry.2.subject = entry.1
  running : ∀ entry ∈ data.opened, entry.2.endedAt = none
  ended : ∀ record ∈ data.history, record.endedAt ≠ none

section

variable {data : JsonIncidents} {now : Instant} {subject kind label detail : String}

theorem isOpen_iff : data.isOpen subject = true ↔ subject ∈ data.opened.map (·.1) := by
  rw [isOpen, List.lookup_isSome_iff]
  constructor
  · rintro ⟨entry, hentry, hkey⟩
    exact List.mem_map.mpr ⟨entry, hentry, (beq_iff_eq.mp hkey).symm⟩
  · intro hmem
    rcases List.mem_map.mp hmem with ⟨entry, hentry, hkey⟩
    exact ⟨entry, hentry, beq_iff_eq.mpr hkey.symm⟩

theorem wellKept_new : WellKept {} := ⟨List.nodup_nil, nofun, nofun, nofun⟩

theorem openIncident_wellKept (h : data.WellKept) :
    (data.openIncident now subject kind label detail).WellKept := by
  by_cases hopen : data.isOpen subject = true
  · rwa [openIncident, if_pos hopen]
  · rw [openIncident, if_neg hopen]
    refine ⟨?_, ?_, ?_, h.ended⟩
    · rw [List.map_append, List.nodup_append']
      refine ⟨h.distinct, by simp, ?_⟩
      simpa [isOpen_iff] using hopen
    · exact List.forall_mem_append.mpr ⟨h.underSubject, by simp⟩
    · exact List.forall_mem_append.mpr ⟨h.running, by simp⟩

theorem closeIncident_wellKept (h : data.WellKept) :
    (data.closeIncident now subject detail).WellKept := by
  unfold closeIncident
  split
  · exact h
  · refine ⟨?_, ?_, ?_, ?_⟩
    · exact h.distinct.sublist (List.filter_sublist.map _)
    · exact fun entry hentry => h.underSubject entry (List.mem_filter.mp hentry).1
    · exact fun entry hentry => h.running entry (List.mem_filter.mp hentry).1
    · intro record hrecord
      dsimp only at hrecord
      rcases List.mem_append.mp (mem_of_mem_rtake hrecord) with hrecord | hrecord
      · exact h.ended record hrecord
      · rw [List.mem_singleton.mp hrecord]
        exact nofun

theorem isOpen_openIncident (other : String) :
    (data.openIncident now subject kind label detail).isOpen other =
      (decide (other = subject) || data.isOpen other) := by
  by_cases hopen : data.isOpen subject = true
  · rw [openIncident, if_pos hopen]
    by_cases hother : other = subject <;> simp [hother, hopen]
  · rw [openIncident, if_neg hopen, Bool.eq_iff_iff, isOpen_iff]
    simp [isOpen_iff, or_comm]

theorem isOpen_closeIncident (other : String) :
    (data.closeIncident now subject detail).isOpen other =
      (decide (other ≠ subject) && data.isOpen other) := by
  unfold closeIncident
  split
  · rename_i hnone
    have hclosed : data.isOpen subject = false := by rw [isOpen, hnone]; rfl
    by_cases hother : other = subject <;> simp [hother, hclosed]
  · rw [Bool.eq_iff_iff, isOpen_iff]
    simp [isOpen_iff, and_comm]

theorem length_openFor (h : data.WellKept) (subject : String) :
    (data.openFor subject).length = if data.isOpen subject then 1 else 0 := by
  have hhistory : data.history.filter (fun record => record.subject = subject ∧
      record.endedAt = none) = [] :=
    List.filter_eq_nil_iff.mpr fun record hrecord => by simp [h.ended record hrecord]
  have hopened : ∀ entry ∈ data.opened,
      decide (entry.2.subject = subject ∧ entry.2.endedAt = none) = (entry.1 == subject) := by
    intro entry hentry
    rw [h.underSubject entry hentry, h.running entry hentry]
    simp only [and_true]
    rfl
  have hcount : (data.openFor subject).length = (data.opened.map (·.1)).count subject := by
    rw [openFor, records, List.filter_append, hhistory, List.append_nil, List.filter_map,
      List.length_map, List.count, List.countP_map, List.countP_eq_length_filter]
    exact congrArg List.length (List.filter_congr hopened)
  rw [hcount]
  by_cases hopen : data.isOpen subject = true
  · rw [if_pos hopen]
    exact List.count_eq_one_of_mem h.distinct (isOpen_iff.mp hopen)
  · rw [if_neg hopen]
    exact List.count_eq_zero_of_not_mem fun hmem => hopen (isOpen_iff.mpr hmem)

end

end JsonIncidents

end Incidents
