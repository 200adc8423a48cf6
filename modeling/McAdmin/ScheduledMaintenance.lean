import McAdmin.Dict
import McAdmin.Runs
import McAdmin.Ticks

/-!
# The scheduled closures

A tick goes through the entries in order and announces the closure of the first one
that has come within its lead, and then carries out or leaves alone the announced
closure that is due.  Whether the doorman is in place is read at each tick.
-/

namespace ScheduledMaintenance

open Runs Ticks

/-! ### The entries -/

inductive Kind where
  | once (date : ℤ)
  | weekly (weekdays : List ℤ)
deriving DecidableEq

/-- What `add_scheduled_maintenance` accepts: the halves of the time as `int` reads them,
and the lead in seconds. -/
structure Entry where
  id : String
  kind : Kind
  hour : ℕ
  minute : ℕ
  leadSeconds : ℕ
  deferIfPlayers : Bool
  hour_lt : hour < 24
  minute_lt : minute < 60
  leadSeconds_pos : 0 < leadSeconds
deriving DecidableEq

/-- `date.weekday()`: dates count from a Thursday, weekdays from Monday. -/
def weekday (d : ℤ) : ℤ := (d + 3) % 7

def Entry.Applies (e : Entry) (d : ℤ) : Prop :=
  match e.kind with
  | .once date => date = d
  | .weekly weekdays => weekday d ∈ weekdays

instance (e : Entry) (d : ℤ) : Decidable (e.Applies d) := by
  simp only [Entry.Applies]
  cases e.kind <;> infer_instance

def Entry.target (e : Entry) (d : ℤ) : ℤ := appointment d e.hour e.minute

def Entry.lead (e : Entry) : ℤ := e.leadSeconds * second

def Entry.isOnce (e : Entry) : Bool :=
  match e.kind with
  | .once _ => true
  | .weekly _ => false

def Entry.DateOver (e : Entry) (today : ℤ) : Prop := ∃ date, e.kind = .once date ∧ date < today

instance (e : Entry) (today : ℤ) : Decidable (e.DateOver today) :=
  match h : e.kind with
  | .once date => decidable_of_iff (date < today) (by simp [Entry.DateOver, h])
  | .weekly _ => isFalse (by simp [Entry.DateOver, h])

/-! ### The tick -/

structure PendingMaintenance where
  engageAt : ℤ
  deferIfPlayers : Bool
deriving DecidableEq

structure State where
  entries : List Entry
  /-- The date each entry was last dealt with. -/
  fired : Dict String ℤ := ∅
  pending : Option PendingMaintenance := none
  /-- The entries armed so far, each with the instant of its closure. -/
  armed : List (String × ℤ) := []

structure Moment where
  now : ℤ
  /-- The doorman is in place, `none` when that cannot be read. -/
  doorman : Option Bool := some false
  restoring : Bool := false
  /-- The doorman is known not to be able to take its place. -/
  unfit : Bool := false
  /-- The server answers that nobody is connected. -/
  confirmedEmpty : Bool := true

def remove (id : String) (s : State) : State :=
  { s with entries := s.entries.filter fun e => e.id ≠ id, fired := s.fired.erase id }

def markFired (id : String) (today : ℤ) (s : State) : State :=
  { s with fired := Dict.set s.fired id today }

def scheduledTargetToday (e : Entry) (now : ℤ) : Option ℤ :=
  if e.Applies (date now) then some (e.target (date now)) else none

/-- The entries in order, up to the first that arms the closure. -/
def visitEntries (m : Moment) : List Entry → State → State
  | [], s => s
  | e :: entries, s =>
    if e.DateOver (date m.now) then visitEntries m entries (remove e.id s)
    else match scheduledTargetToday e m.now with
    | none => visitEntries m entries s
    | some target =>
      if s.fired.lookup e.id = some (date m.now) then visitEntries m entries s
      else if target ≤ m.now then
        let s := markFired e.id (date m.now) s
        visitEntries m entries (if e.isOnce then remove e.id s else s)
      else if e.lead < target - m.now then visitEntries m entries s
      else if m.unfit then markFired e.id (date m.now) s
      else
        markFired e.id (date m.now) { s with
          pending := some ⟨target, e.deferIfPlayers⟩
          armed := s.armed ++ [(e.id, target)] }

def tickScheduledMaintenance (m : Moment) (s : State) : State :=
  if s.entries = [] ∨ s.pending ≠ none ∨ m.doorman = some true ∨ m.restoring then s
  else visitEntries m s.entries s

/-- A closure that is due is no longer pending, whether it then takes place or not. -/
def tickPendingMaintenance (m : Moment) (s : State) : State :=
  match s.pending with
  | none => s
  | some pending =>
    if pending.engageAt ≤ m.now then
      if m.restoring then s
      else if pending.deferIfPlayers ∧ m.confirmedEmpty = false then s
      else { s with pending := none }
    else s

def tickMaintenance (s : State) (m : Moment) : State :=
  tickPendingMaintenance m (tickScheduledMaintenance m s)

/-! ### What a run of ticks owes each entry -/

/-- The entries of a store: `add` gives each an identifier of its own. -/
structure Store where
  entries : List Entry
  nodup : (entries.map (·.id)).Nodup

section

variable (store : Store) (ticks : ℕ → Moment)

def state : ℕ → State := trace tickMaintenance { entries := store.entries } ticks

def clock (n : ℕ) : ℤ := (ticks n).now

/-- The tick arms the closure of the entry for the date. -/
def Arms (n : ℕ) (e : Entry) (d : ℤ) : Prop :=
  (state store ticks (n + 1)).armed = (state store ticks n).armed ++ [(e.id, e.target d)]

/-- The ticks reach back before the time of the entry on a date it applies to, and past it. -/
def Covers (e : Entry) (d : ℤ) : Prop :=
  e.Applies d ∧ clock ticks 0 < e.target d ∧ ∃ n, e.target d ≤ clock ticks n

/-- A tick arms nothing or an entry within its lead on a date it applies to, never the same
twice, and each date that the ticks cover is armed exactly once. -/
def Kept : Prop :=
  (∀ n, (state store ticks (n + 1)).armed = (state store ticks n).armed ∨
    ∃ e ∈ store.entries, ∃ d, e.Applies d ∧ InLead e.lead (e.target d) (clock ticks n) ∧
      Arms store ticks n e d) ∧
  (∀ e ∈ store.entries, ∀ d n i, Arms store ticks n e d → Arms store ticks i e d → n = i) ∧
  ∀ e ∈ store.entries, ∀ d, Covers ticks e d → ∃! n, Arms store ticks n e d

def Apart : Prop :=
  ∀ e ∈ store.entries, ∀ e' ∈ store.entries, ∀ d d' t, e.Applies d → e'.Applies d' →
    InLead e.lead (e.target d) t → InLead e'.lead (e'.target d') t → e = e' ∧ d = d'

/-- When the lead of a closure opens, the one before it is over. -/
def Cleared : Prop :=
  ∀ e ∈ store.entries, ∀ d n, e.Applies d → InLead e.lead (e.target d) (clock ticks n) →
    (∀ i < n, ¬ Arms store ticks i e d) →
    (state store ticks n).pending = none ∧ (ticks n).doorman ≠ some true

/-- What a sequence of ticks is promised: their gaps are shorter than each lead, nothing
is restored and the doorman is fit, and no two closures meet. -/
structure Undisturbed : Prop where
  steady : ∀ e ∈ store.entries, Steady e.lead (clock ticks)
  restoring : ∀ n, (ticks n).restoring = false
  fit : ∀ n, (ticks n).unfit = false
  apart : Apart store
  cleared : Cleared store ticks

/-- Each date that the ticks cover has one of them within the lead and on the date itself. -/
def Timely : Prop :=
  ∀ e ∈ store.entries, ∀ d, Covers ticks e d →
    ∃ n, date (clock ticks n) = d ∧ InLead e.lead (e.target d) (clock ticks n)

end

/-! ### One visit of the entries -/

def Opens (m : Moment) (s : State) (e : Entry) : Prop :=
  e.Applies (date m.now) ∧ s.fired.lookup e.id ≠ some (date m.now) ∧
    InLead e.lead (e.target (date m.now)) m.now

def Over (now : ℤ) (e : Entry) : Prop := ∃ d, e.kind = .once d ∧ e.target d ≤ now

section

variable {m : Moment} {s s' : State} {e e' : Entry} {entries : List Entry} {d : ℤ}

@[simp] theorem markFired_fired (id : String) (today : ℤ) (s : State) :
    (markFired id today s).fired = Dict.set s.fired id today := rfl

@[simp] theorem markFired_entries (id : String) (today : ℤ) (s : State) :
    (markFired id today s).entries = s.entries := rfl

@[simp] theorem markFired_armed (id : String) (today : ℤ) (s : State) :
    (markFired id today s).armed = s.armed := rfl

@[simp] theorem remove_fired (id : String) (s : State) :
    (remove id s).fired = s.fired.erase id := rfl

@[simp] theorem remove_armed (id : String) (s : State) : (remove id s).armed = s.armed := rfl

theorem mem_remove (id : String) (s : State) :
    e ∈ (remove id s).entries ↔ e ∈ s.entries ∧ e.id ≠ id := by
  simp [remove]

theorem over_of_dateOver (h : e.DateOver (date m.now)) : Over m.now e := by
  rcases h with ⟨d, hkind, hlt⟩
  refine ⟨d, hkind, ?_⟩
  have hdate := (appointment_mem_date e.hour_lt e.minute_lt d).2
  have hnow := (date_eq_iff (x := m.now)).mp rfl
  have hlater : (d + 1) * day ≤ date m.now * day := by
    simp only [day]
    omega
  simp only [Entry.target]
  omega

theorem over_of_once (honce : e.isOnce = true) (happlies : e.Applies (date m.now))
    (hpast : e.target (date m.now) ≤ m.now) : Over m.now e := by
  simp only [Entry.isOnce] at honce
  simp only [Entry.Applies] at happlies
  cases hkind : e.kind with
  | once d =>
    rw [hkind] at happlies
    simp only at happlies
    subst happlies
    exact ⟨_, hkind, hpast⟩
  | weekly weekdays =>
    rw [hkind] at honce
    cases honce

/-- What the store knows of an entry: the date dealt with, and whether it is still listed. -/
def SameRecord (s s' : State) (e : Entry) : Prop :=
  s'.fired.lookup e.id = s.fired.lookup e.id ∧ (e ∈ s'.entries ↔ e ∈ s.entries)

inductive Visited (m : Moment) (s s' : State) (e : Entry) : Prop where
  | same : SameRecord s s' e → Visited m s s' e
  | removed : Over m.now e → s'.fired.lookup e.id = none → Visited m s s' e
  | missed : e.target (date m.now) ≤ m.now → s'.fired.lookup e.id = some (date m.now) →
      (e ∈ s'.entries ↔ e ∈ s.entries) → Visited m s s' e
  | armed : Opens m s e → s'.armed = s.armed ++ [(e.id, e.target (date m.now))] →
      s'.fired.lookup e.id = some (date m.now) → (e ∈ s'.entries ↔ e ∈ s.entries) →
      Visited m s s' e

theorem SameRecord.refl (s : State) (e : Entry) : SameRecord s s e := ⟨rfl, Iff.rfl⟩

theorem SameRecord.trans {s'' : State} (h : SameRecord s s' e) (h' : SameRecord s' s'' e) :
    SameRecord s s'' e :=
  ⟨h'.1.trans h.1, h'.2.trans h.2⟩

theorem sameRecord_remove {id : String} (h : e.id ≠ id) : SameRecord s (remove id s) e := by
  constructor
  · rw [remove_fired, AList.lookup_erase_ne h]
  · simp [mem_remove, h]

theorem sameRecord_markFired {id : String} (h : e.id ≠ id) (today : ℤ) :
    SameRecord s (markFired id today s) e := by
  constructor
  · simp [h]
  · rfl

theorem sameRecord_visitEntries (h : ∀ e' ∈ entries, e.id ≠ e'.id) :
    SameRecord s (visitEntries m entries s) e := by
  induction entries generalizing s with
  | nil => exact SameRecord.refl s e
  | cons e' entries ih =>
    have hne := h e' (by simp)
    have hrest : ∀ e' ∈ entries, e.id ≠ e'.id := by
      intro e'' he''
      exact h e'' (by simp [he''])
    unfold visitEntries
    split
    · exact (sameRecord_remove hne).trans (ih hrest)
    · split
      · exact ih hrest
      · split
        · exact ih hrest
        · split
          · simp only
            split
            · exact ((sameRecord_markFired hne _).trans (sameRecord_remove hne)).trans (ih hrest)
            · exact (sameRecord_markFired hne _).trans (ih hrest)
          · split
            · exact ih hrest
            · split
              · exact sameRecord_markFired hne _
              · exact sameRecord_markFired (s := { s with
                  pending := _
                  armed := _ }) hne _

theorem visitEntries_sublist (m : Moment) (entries : List Entry) (s : State) :
    List.Sublist (visitEntries m entries s).entries s.entries := by
  induction entries generalizing s with
  | nil => exact List.Sublist.refl _
  | cons e entries ih =>
    have hremove : List.Sublist (remove e.id s).entries s.entries := List.filter_sublist
    simp only [visitEntries]
    split
    · exact (ih _).trans hremove
    · split
      · exact ih _
      · split
        · exact ih _
        · split
          · refine (ih _).trans ?_
            split
            · exact List.filter_sublist
            · exact List.Sublist.refl _
          · split
            · exact ih _
            · split
              · exact List.Sublist.refl _
              · exact List.Sublist.refl _

theorem visitEntries_eq (m : Moment) (e : Entry) (entries : List Entry) (s : State) :
    visitEntries m (e :: entries) s =
      if e.DateOver (date m.now) then visitEntries m entries (remove e.id s)
      else if e.Applies (date m.now) then
        if s.fired.lookup e.id = some (date m.now) then visitEntries m entries s
        else if e.target (date m.now) ≤ m.now then
          visitEntries m entries (if e.isOnce then remove e.id (markFired e.id (date m.now) s)
            else markFired e.id (date m.now) s)
        else if e.lead < e.target (date m.now) - m.now then visitEntries m entries s
        else if m.unfit then markFired e.id (date m.now) s
        else markFired e.id (date m.now) { s with
          pending := some ⟨e.target (date m.now), e.deferIfPlayers⟩
          armed := s.armed ++ [(e.id, e.target (date m.now))] }
      else visitEntries m entries s := by
  rw [visitEntries, scheduledTargetToday]
  by_cases happlies : e.Applies (date m.now)
  · simp only [happlies, if_true]
  · simp only [happlies, if_false]

theorem visitEntries_cons (hfit : m.unfit = false) (e : Entry) (entries : List Entry)
    (s : State) :
    (∃ s₁, visitEntries m (e :: entries) s = visitEntries m entries s₁ ∧ ¬ Opens m s e ∧
      s₁.armed = s.armed ∧ Visited m s s₁ e ∧ ∀ e', e'.id ≠ e.id → SameRecord s s₁ e') ∨
    (Opens m s e ∧
      (visitEntries m (e :: entries) s).armed = s.armed ++ [(e.id, e.target (date m.now))] ∧
      (visitEntries m (e :: entries) s).fired.lookup e.id = some (date m.now) ∧
      (visitEntries m (e :: entries) s).entries = s.entries ∧
      ∀ e', e'.id ≠ e.id → SameRecord s (visitEntries m (e :: entries) s) e') := by
  rw [visitEntries_eq]
  -- the branches in the order of the source, of which the last one alone arms a closure
  by_cases hover : e.DateOver (date m.now)
  · left
    refine ⟨remove e.id s, by simp [hover], ?_, rfl, ?_, fun e' he' => sameRecord_remove he'⟩
    · rintro ⟨happlies, -⟩
      rcases hover with ⟨d, hkind, hlt⟩
      simp only [Entry.Applies, hkind] at happlies
      omega
    · exact .removed (over_of_dateOver hover) (by simp)
  · by_cases happlies : e.Applies (date m.now)
    · by_cases hfired : s.fired.lookup e.id = some (date m.now)
      · left
        refine ⟨s, by simp [hover, happlies, hfired], fun h => h.2.1 hfired, rfl,
          .same (SameRecord.refl s e), fun e' _ => SameRecord.refl s e'⟩
      · by_cases hpast : e.target (date m.now) ≤ m.now
        · left
          have hclosed : ¬ Opens m s e := fun h => absurd h.2.2.2 (not_lt.mpr hpast)
          by_cases honce : e.isOnce = true
          · refine ⟨remove e.id (markFired e.id (date m.now) s),
              by simp [hover, happlies, hfired, hpast, honce], hclosed, rfl, ?_, ?_⟩
            · exact .removed (over_of_once honce happlies hpast) (by simp)
            · intro e' he'
              exact (sameRecord_markFired he' _).trans (sameRecord_remove he')
          · refine ⟨markFired e.id (date m.now) s,
              by simp [hover, happlies, hfired, hpast, honce], hclosed, rfl, ?_, ?_⟩
            · exact .missed hpast (by simp) Iff.rfl
            · intro e' he'
              exact sameRecord_markFired he' _
        · by_cases hfar : e.lead < e.target (date m.now) - m.now
          · left
            have hclosed : ¬ Opens m s e := by
              intro h
              have hnear := h.2.2.1
              omega
            exact ⟨s, by simp [hover, happlies, hfired, hpast, hfar], hclosed, rfl,
              .same (SameRecord.refl s e), fun e' _ => SameRecord.refl s e'⟩
          · right
            have hopen : Opens m s e := ⟨happlies, hfired, by omega, not_le.mp hpast⟩
            simp only [hover, if_false, happlies, if_true, hfired, hpast, hfar, hfit,
              Bool.false_eq_true]
            refine ⟨hopen, rfl, by simp, rfl, ?_⟩
            intro e' he'
            exact sameRecord_markFired (s := { s with
              pending := _
              armed := _ }) he' _
    · left
      refine ⟨s, by simp [hover, happlies], fun h => happlies h.1, rfl,
        .same (SameRecord.refl s e), fun e' _ => SameRecord.refl s e'⟩

theorem opens_congr (h : SameRecord s s' e) : Opens m s' e ↔ Opens m s e := by
  simp only [Opens]
  rw [h.1]

theorem visitEntries_armed (hfit : m.unfit = false) (hnodup : (entries.map (·.id)).Nodup)
    (s : State) :
    ((visitEntries m entries s).armed = s.armed ∧ ∀ e ∈ entries, ¬ Opens m s e) ∨
    ∃ e ∈ entries, Opens m s e ∧
      (visitEntries m entries s).armed = s.armed ++ [(e.id, e.target (date m.now))] ∧
      (visitEntries m entries s).fired.lookup e.id = some (date m.now) := by
  induction entries generalizing s with
  | nil => exact .inl ⟨rfl, nofun⟩
  | cons e entries ih =>
    rw [List.map_cons, List.nodup_cons] at hnodup
    rcases visitEntries_cons hfit e entries s with
      ⟨s₁, hvisit, hclosed, harmed, -, hothers⟩ | ⟨hopen, harmed, hfired, -⟩
    · have hsame : ∀ e' ∈ entries, SameRecord s s₁ e' := by
        intro e' he'
        apply hothers
        intro heq
        exact hnodup.1 (heq ▸ List.mem_map_of_mem he')
      rw [hvisit]
      rcases ih hnodup.2 s₁ with ⟨hrest, hnone⟩ | ⟨e', he', hopen, hrest, hfired⟩
      · left
        refine ⟨hrest.trans harmed, ?_⟩
        intro e' he'
        rcases List.mem_cons.mp he' with rfl | he'
        · exact hclosed
        · exact fun h => hnone e' he' ((opens_congr (hsame e' he')).mpr h)
      · right
        exact ⟨e', by simp [he'], (opens_congr (hsame e' he')).mp hopen, by rw [hrest, harmed],
          hfired⟩
    · right
      exact ⟨e, by simp, hopen, harmed, hfired⟩

theorem Visited.of_same {s₁ : State} (hsame : SameRecord s s₁ e) (harmed : s₁.armed = s.armed)
    (h : Visited m s₁ s' e) : Visited m s s' e := by
  cases h with
  | same hrecord => exact .same (hsame.trans hrecord)
  | removed hover hfired => exact .removed hover hfired
  | missed hpast hfired hmem => exact .missed hpast hfired (hmem.trans hsame.2)
  | armed hopen harmed' hfired hmem =>
    exact .armed ((opens_congr hsame).mp hopen) (by rw [harmed', harmed]) hfired
      (hmem.trans hsame.2)

theorem Visited.then_others {s₁ : State} (h : Visited m s s₁ e) (hclosed : ¬ Opens m s e)
    (hsame : SameRecord s₁ s' e) : Visited m s s' e := by
  cases h with
  | same hrecord => exact .same (hrecord.trans hsame)
  | removed hover hfired => exact .removed hover (hsame.1.trans hfired)
  | missed hpast hfired hmem => exact .missed hpast (hsame.1.trans hfired) (hsame.2.trans hmem)
  | armed hopen => exact absurd hopen hclosed

theorem visited (hfit : m.unfit = false) (hnodup : (entries.map (·.id)).Nodup) (s : State)
    (he : e ∈ entries) : Visited m s (visitEntries m entries s) e := by
  induction entries generalizing s with
  | nil => cases he
  | cons e' entries ih =>
    rw [List.map_cons, List.nodup_cons] at hnodup
    have hother : ∀ e'' ∈ entries, e'.id ≠ e''.id := by
      intro e'' he'' heq
      exact hnodup.1 (heq ▸ List.mem_map_of_mem he'')
    rcases visitEntries_cons hfit e' entries s with
      ⟨s₁, hvisit, hclosed, harmed, hturn, hothers⟩ | ⟨hopen, harmed, hfired, hentries, hothers⟩
    · rw [hvisit]
      rcases List.mem_cons.mp he with rfl | he
      · exact hturn.then_others hclosed (sameRecord_visitEntries hother)
      · exact (ih hnodup.2 s₁ he).of_same (hothers e (hother e he).symm) harmed
    · rcases List.mem_cons.mp he with rfl | he
      · exact .armed hopen harmed hfired (by rw [hentries])
      · exact .same (hothers e (hother e he).symm)

/-! ### One tick -/

theorem tickPendingMaintenance_keeps (m : Moment) (s : State) :
    (tickPendingMaintenance m s).armed = s.armed ∧
      (tickPendingMaintenance m s).fired = s.fired ∧
      (tickPendingMaintenance m s).entries = s.entries := by
  simp only [tickPendingMaintenance]
  split
  · exact ⟨rfl, rfl, rfl⟩
  · split
    · split
      · exact ⟨rfl, rfl, rfl⟩
      · split
        · exact ⟨rfl, rfl, rfl⟩
        · exact ⟨rfl, rfl, rfl⟩
    · exact ⟨rfl, rfl, rfl⟩

def Looks (m : Moment) (s : State) : Prop :=
  s.pending = none ∧ m.doorman ≠ some true ∧ m.restoring = false

theorem tick_quiet (h : ¬ Looks m s) :
    (tickMaintenance s m).armed = s.armed ∧ (tickMaintenance s m).fired = s.fired ∧
      (tickMaintenance s m).entries = s.entries := by
  obtain ⟨harmed, hfired, hentries⟩ := tickPendingMaintenance_keeps m (tickScheduledMaintenance m s)
  have hsame : tickScheduledMaintenance m s = s := by
    simp only [tickScheduledMaintenance]
    rw [if_pos]
    by_contra hnone
    simp only [not_or, not_not, Bool.not_eq_true] at hnone
    exact h ⟨hnone.2.1, hnone.2.2.1, hnone.2.2.2⟩
  simp only [tickMaintenance]
  rw [harmed, hfired, hentries, hsame]
  exact ⟨rfl, rfl, rfl⟩

theorem tick_looks (h : Looks m s) :
    (tickMaintenance s m).armed = (visitEntries m s.entries s).armed ∧
      (tickMaintenance s m).fired = (visitEntries m s.entries s).fired ∧
      (tickMaintenance s m).entries = (visitEntries m s.entries s).entries := by
  obtain ⟨harmed, hfired, hentries⟩ := tickPendingMaintenance_keeps m (tickScheduledMaintenance m s)
  have hvisit : tickScheduledMaintenance m s = visitEntries m s.entries s := by
    simp only [tickScheduledMaintenance]
    rcases h with ⟨hpending, hdoorman, hrestoring⟩
    by_cases hempty : s.entries = []
    · rw [if_pos (.inl hempty), hempty]
      rfl
    · rw [if_neg (by simp [hempty, hpending, hdoorman, hrestoring])]
  simp only [tickMaintenance]
  rw [harmed, hfired, hentries, hvisit]
  exact ⟨rfl, rfl, rfl⟩

theorem tick_visited (hfit : m.unfit = false) (hnodup : (s.entries.map (·.id)).Nodup)
    (he : e ∈ s.entries) : Visited m s (tickMaintenance s m) e := by
  by_cases hlooks : Looks m s
  · rcases tick_looks hlooks with ⟨harmed, hfired, hentries⟩
    cases visited hfit hnodup s he with
    | same hrecord => exact .same ⟨by rw [hfired]; exact hrecord.1, by rw [hentries]; exact hrecord.2⟩
    | removed hover hnone => exact .removed hover (by rw [hfired]; exact hnone)
    | missed hpast hmark hmem =>
      exact .missed hpast (by rw [hfired]; exact hmark) (by rw [hentries]; exact hmem)
    | armed hopen harm hmark hmem =>
      exact .armed hopen (by rw [harmed]; exact harm) (by rw [hfired]; exact hmark)
        (by rw [hentries]; exact hmem)
  · rcases tick_quiet hlooks with ⟨-, hfired, hentries⟩
    exact .same ⟨by rw [hfired], by rw [hentries]⟩

theorem tick_armed (hfit : m.unfit = false) (hnodup : (s.entries.map (·.id)).Nodup) :
    ((tickMaintenance s m).armed = s.armed ∧ (Looks m s → ∀ e ∈ s.entries, ¬ Opens m s e)) ∨
    ∃ e ∈ s.entries, Opens m s e ∧
      (tickMaintenance s m).armed = s.armed ++ [(e.id, e.target (date m.now))] ∧
      (tickMaintenance s m).fired.lookup e.id = some (date m.now) := by
  by_cases hlooks : Looks m s
  · rcases tick_looks hlooks with ⟨harmed, hfired, -⟩
    rw [harmed, hfired]
    rcases visitEntries_armed hfit hnodup s with ⟨hsame, hnone⟩ | ⟨e, he, hopen, harm, hmark⟩
    · exact .inl ⟨hsame, fun _ => hnone⟩
    · exact .inr ⟨e, he, hopen, harm, hmark⟩
  · rcases tick_quiet hlooks with ⟨harmed, -, -⟩
    exact .inl ⟨harmed, fun h => absurd h hlooks⟩

theorem tick_sublist (m : Moment) (s : State) :
    List.Sublist (tickMaintenance s m).entries s.entries := by
  by_cases hlooks : Looks m s
  · rw [(tick_looks hlooks).2.2]
    exact visitEntries_sublist m s.entries s
  · rw [(tick_quiet hlooks).2.2]

end

/-! ### Runs of ticks -/

section

variable {store : Store} {ticks : ℕ → Moment} {n i : ℕ} {e e' : Entry} {d : ℤ}

theorem state_succ (store : Store) (ticks : ℕ → Moment) (n : ℕ) :
    state store ticks (n + 1) = tickMaintenance (state store ticks n) (ticks n) := rfl

theorem state_sublist (store : Store) (ticks : ℕ → Moment) (n : ℕ) :
    List.Sublist (state store ticks n).entries store.entries := by
  induction n with
  | zero => exact List.Sublist.refl _
  | succ n ih =>
    rw [state_succ]
    exact (tick_sublist _ _).trans ih

theorem state_nodup (store : Store) (ticks : ℕ → Moment) (n : ℕ) :
    ((state store ticks n).entries.map (·.id)).Nodup :=
  store.nodup.sublist ((state_sublist store ticks n).map _)

theorem Store.eq_of_id (he : e ∈ store.entries) (he' : e' ∈ store.entries) (hid : e.id = e'.id) :
    e = e' :=
  List.inj_on_of_nodup_map store.nodup he he' hid

theorem target_inj {d' : ℤ} (h : e.target d = e.target d') : d = d' := appointment_inj h

theorem Arms.opens (h : Undisturbed store ticks) (he : e ∈ store.entries)
    (harms : Arms store ticks n e d) :
    date (clock ticks n) = d ∧ Opens (ticks n) (state store ticks n) e ∧
      (state store ticks (n + 1)).fired.lookup e.id = some d := by
  simp only [Arms] at harms
  rw [state_succ] at harms ⊢
  rcases tick_armed (h.fit n) (state_nodup store ticks n) with
    ⟨hsame, -⟩ | ⟨e', he', hopen, harm, hmark⟩
  · rw [hsame] at harms
    have hlength := congrArg List.length harms
    simp at hlength
  · rw [harm] at harms
    have hpair := List.append_cancel_left harms
    simp only [List.cons.injEq, Prod.mk.injEq, and_true] at hpair
    obtain rfl := store.eq_of_id ((state_sublist store ticks n).subset he') he hpair.1
    obtain rfl := target_inj hpair.2
    exact ⟨rfl, hopen, hmark⟩

theorem Arms.inLead (h : Undisturbed store ticks) (he : e ∈ store.entries)
    (harms : Arms store ticks n e d) :
    e.Applies d ∧ date (clock ticks n) = d ∧ InLead e.lead (e.target d) (clock ticks n) := by
  rcases harms.opens h he with ⟨rfl, hopen, -⟩
  exact ⟨hopen.1, rfl, hopen.2.2⟩

theorem arms_of_opens (h : Undisturbed store ticks) (he : e ∈ (state store ticks n).entries)
    (hlooks : Looks (ticks n) (state store ticks n))
    (hopen : Opens (ticks n) (state store ticks n) e) :
    Arms store ticks n e (date (clock ticks n)) := by
  have hsublist := state_sublist store ticks n
  simp only [Arms]
  rw [state_succ]
  rcases tick_armed (h.fit n) (state_nodup store ticks n) with
    ⟨-, hnone⟩ | ⟨e', he', hopen', harm, -⟩
  · exact absurd hopen (hnone hlooks e he)
  · obtain ⟨rfl, -⟩ := h.apart e (hsublist.subset he) e' (hsublist.subset he') _ _ _ hopen.1
      hopen'.1 hopen.2.2 hopen'.2.2
    exact harm

theorem over_of_not_mem (h : Undisturbed store ticks) (he : e ∈ store.entries)
    (hgone : e ∉ (state store ticks n).entries) : ∃ i < n, Over (clock ticks i) e := by
  induction n with
  | zero => exact absurd he hgone
  | succ n ih =>
    by_cases hmem : e ∈ (state store ticks n).entries
    · rw [state_succ] at hgone
      cases tick_visited (h.fit n) (state_nodup store ticks n) hmem with
      | same hrecord => exact absurd (hrecord.2.mpr hmem) hgone
      | removed hover hfired => exact ⟨n, by omega, hover⟩
      | missed hpast hfired hlisted => exact absurd (hlisted.mpr hmem) hgone
      | armed hopen harm hfired hlisted => exact absurd (hlisted.mpr hmem) hgone
    · rcases ih hmem with ⟨i, hi, hover⟩
      exact ⟨i, by omega, hover⟩

theorem Over.target_le {x : ℤ} (h : Over x e) (happlies : e.Applies d) : e.target d ≤ x := by
  rcases h with ⟨d', hkind, hpast⟩
  simp only [Entry.Applies] at happlies
  rw [hkind] at happlies
  simp only at happlies
  rwa [happlies] at hpast

theorem exists_of_fired (h : Undisturbed store ticks) (he : e ∈ (state store ticks n).entries)
    (hfired : (state store ticks n).fired.lookup e.id = some d) :
    ∃ i < n, Arms store ticks i e d ∨ e.target d ≤ clock ticks i := by
  induction n with
  | zero => cases hfired
  | succ n ih =>
    have hmem : e ∈ (state store ticks n).entries := (tick_sublist _ _).subset he
    rw [state_succ] at hfired
    cases tick_visited (h.fit n) (state_nodup store ticks n) hmem with
    | same hrecord =>
      rw [hrecord.1] at hfired
      rcases ih hmem hfired with ⟨i, hi, hreason⟩
      exact ⟨i, by omega, hreason⟩
    | removed hover hnone =>
      rw [hnone] at hfired
      cases hfired
    | missed hpast hmark hlisted =>
      rw [hmark] at hfired
      obtain rfl := Option.some.inj hfired
      exact ⟨n, by omega, .inr hpast⟩
    | armed hopen harm hmark hlisted =>
      rw [hmark] at hfired
      obtain rfl := Option.some.inj hfired
      exact ⟨n, by omega, .inl harm⟩

theorem fired_of_arms (h : Undisturbed store ticks) (hmono : Forward (clock ticks))
    (he : e ∈ store.entries) (harms : Arms store ticks i e d) (hi : i < n)
    (hbefore : clock ticks n < e.target d) (hdate : date (clock ticks n) = d) :
    (state store ticks n).fired.lookup e.id = some d := by
  rcases harms.opens h he with ⟨hidate, hopen, hmark⟩
  have happlies : e.Applies d := hidate ▸ hopen.1
  induction n with
  | zero => omega
  | succ n ih =>
    rcases Nat.lt_or_ge i n with hlt | hge
    · have hstep := hmono (Nat.le_succ n)
      have hnbefore : clock ticks n < e.target d := lt_of_le_of_lt hstep hbefore
      have hndate : date (clock ticks n) = d := by
        have hfrom := date_mono (hmono (Nat.le_of_lt hlt))
        have hto := date_mono hstep
        rw [Nat.succ_eq_add_one] at hto
        omega
      -- before its target an entry is not over, so that it is still listed
      have hmem : e ∈ (state store ticks n).entries := by
        by_contra hgone
        rcases over_of_not_mem h he hgone with ⟨j, hj, hover⟩
        have hpast := hover.target_le happlies
        have hjn := hmono (Nat.le_of_lt hj)
        omega
      rw [state_succ]
      cases tick_visited (h.fit n) (state_nodup store ticks n) hmem with
      | same hrecord =>
        rw [hrecord.1]
        exact ih hlt hnbefore hndate
      | removed hover hnone =>
        have hpast := hover.target_le happlies
        exact absurd hnbefore (not_lt.mpr hpast)
      | missed hpast hfired hlisted =>
        rw [hfired]
        exact congrArg some hndate
      | armed hopen' harm hfired hlisted =>
        rw [hfired]
        exact congrArg some hndate
    · obtain rfl : i = n := by omega
      exact hmark

theorem arms_unique (h : Undisturbed store ticks) (hmono : Forward (clock ticks))
    (he : e ∈ store.entries) (hn : Arms store ticks n e d) (hi : Arms store ticks i e d) :
    ¬ i < n := by
  intro hlt
  rcases hn.opens h he with ⟨hdate, hopen, -⟩
  have hnow : (ticks n).now = clock ticks n := rfl
  simp only [Opens] at hopen
  rw [hnow, hdate] at hopen
  exact hopen.2.1 (fired_of_arms h hmono he hi hlt hopen.2.2.2 hdate)

theorem arms_of_first (h : Undisturbed store ticks) (hmono : Forward (clock ticks))
    (he : e ∈ store.entries) (happlies : e.Applies d) (hdate : date (clock ticks n) = d)
    (hlead : InLead e.lead (e.target d) (clock ticks n))
    (hfirst : ∀ i < n, ¬ (date (clock ticks i) = d ∧ InLead e.lead (e.target d) (clock ticks i))) :
    Arms store ticks n e d := by
  have hunarmed : ∀ i < n, ¬ Arms store ticks i e d := by
    intro i hi harms
    exact hfirst i hi (harms.inLead h he).2
  have hunpassed : ∀ i < n, ¬ e.target d ≤ clock ticks i := by
    intro i hi hpast
    have hin := hmono (Nat.le_of_lt hi)
    have hbefore := hlead.2
    omega
  rcases h.cleared e he d n happlies hlead hunarmed with ⟨hpending, hdoorman⟩
  have hmem : e ∈ (state store ticks n).entries := by
    by_contra hgone
    rcases over_of_not_mem h he hgone with ⟨i, hi, hover⟩
    exact hunpassed i hi (hover.target_le happlies)
  have hopen : Opens (ticks n) (state store ticks n) e := by
    have hnow : (ticks n).now = clock ticks n := rfl
    simp only [Opens]
    rw [hnow, hdate]
    refine ⟨happlies, ?_, hlead⟩
    intro hfired
    obtain ⟨i, hi, harms | hpast⟩ := exists_of_fired h hmem hfired
    · exact hunarmed i hi harms
    · exact hunpassed i hi hpast
  rw [← hdate]
  exact arms_of_opens h hmem ⟨hpending, hdoorman, h.restoring n⟩ hopen

theorem timely_of_lead_le (h : Undisturbed store ticks)
    (hlead : ∀ e ∈ store.entries, e.lead ≤ timeOfDay e.hour e.minute) : Timely store ticks := by
  rintro e he d ⟨-, hstart, n, hpast⟩
  rcases (h.steady e he).exists_inLead hstart hpast with ⟨i, hi⟩
  exact ⟨i, date_of_inLead e.hour_lt e.minute_lt (hlead e he) hi, hi⟩

end

/-- Each entry is armed exactly once for each date it applies to, and never otherwise,
exactly when each of these dates has a tick within the lead after its midnight. -/
theorem scheduled_maintenance_kept_iff (store : Store) (ticks : ℕ → Moment)
    (h : Undisturbed store ticks) : Kept store ticks ↔ Timely store ticks := by
  constructor
  · intro hkept e he d hcovers
    rcases hkept.2.2 e he d hcovers with ⟨n, harms, -⟩
    exact ⟨n, (harms.inLead h he).2⟩
  · intro htimely
    refine ⟨?_, ?_, ?_⟩
    · intro n
      rcases tick_armed (h.fit n) (state_nodup store ticks n) with
        ⟨hsame, -⟩ | ⟨e, he, hopen, harm, -⟩
      · exact .inl hsame
      · exact .inr ⟨e, (state_sublist store ticks n).subset he, _, hopen.1, hopen.2.2, harm⟩
    · intro e he d n i hn hi
      have hmono := (h.steady e he).forward
      have hle := arms_unique h hmono he hn hi
      have hge := arms_unique h hmono he hi hn
      omega
    · intro e he d hcovers
      have hmono := (h.steady e he).forward
      have hexists := htimely e he d hcovers
      have harms : Arms store ticks (Nat.find hexists) e d :=
        arms_of_first h hmono he hcovers.1 (Nat.find_spec hexists).1 (Nat.find_spec hexists).2
          fun i hi => Nat.find_min hexists hi
      refine ⟨Nat.find hexists, harms, ?_⟩
      intro i hi
      have hle := arms_unique h hmono he harms hi
      have hge := arms_unique h hmono he hi harms
      omega

/-! ### A closure at midnight -/

theorem visitEntries_pending {m : Moment} {entries : List Entry} (s : State)
    (hpast : ∀ e ∈ entries, e.target (date m.now) ≤ m.now) :
    (visitEntries m entries s).pending = s.pending := by
  induction entries generalizing s with
  | nil => rfl
  | cons e entries ih =>
    have hrest : ∀ e ∈ entries, e.target (date m.now) ≤ m.now := by
      intro e' he'
      exact hpast e' (by simp [he'])
    rw [visitEntries_eq]
    split
    · exact ih _ hrest
    · split
      · split
        · exact ih _ hrest
        · rw [if_pos (hpast e (by simp)), ih _ hrest]
          split <;> rfl
      · exact ih _ hrest

theorem zero_hour : 0 < 24 := by decide

theorem zero_minute : 0 < 60 := by decide

theorem five_minutes : 0 < 300 := by decide

def midnight : Entry where
  id := "nuit"
  kind := .once 1
  hour := 0
  minute := 0
  leadSeconds := 300
  deferIfPlayers := false
  hour_lt := zero_hour
  minute_lt := zero_minute
  leadSeconds_pos := five_minutes

def midnightStore : Store := ⟨[midnight], by decide⟩

/-- A tick each minute from three minutes before midnight on. -/
def everyMinute (n : ℕ) : Moment where
  now := day + (n - 3) * (60 * second)

theorem midnight_target_le (x : ℤ) : midnight.target (date x) ≤ x := by
  have hdate := ((date_eq_iff (x := x)).mp rfl).1
  have hzero : timeOfDay midnight.hour midnight.minute = 0 := by decide
  unfold Entry.target appointment
  omega

theorem midnight_pending (n : ℕ) : (state midnightStore everyMinute n).pending = none := by
  induction n with
  | zero => rfl
  | succ n ih =>
    have hvisit : (tickScheduledMaintenance (everyMinute n)
        (state midnightStore everyMinute n)).pending = none := by
      simp only [tickScheduledMaintenance]
      split
      · exact ih
      · rw [visitEntries_pending _ _, ih]
        intro e he
        have hmem := (state_sublist midnightStore everyMinute n).subset he
        rw [List.mem_singleton.mp hmem]
        exact midnight_target_le _
    rw [state_succ, tickMaintenance, tickPendingMaintenance, hvisit]
    exact hvisit

theorem midnight_undisturbed : Undisturbed midnightStore everyMinute := by
  constructor
  · intro e he n
    rw [List.mem_singleton.mp he]
    simp only [clock, everyMinute, Entry.lead, midnight, day, second]
    omega
  · intro n
    rfl
  · intro n
    rfl
  · intro e he e' he' d d' t happlies happlies' _ _
    rw [List.mem_singleton.mp he] at happlies ⊢
    rw [List.mem_singleton.mp he'] at happlies' ⊢
    exact ⟨rfl, happlies.symm.trans happlies'⟩
  · intro e _ d n _ _ _
    exact ⟨midnight_pending n, nofun⟩

/-- The closure at midnight is never armed. -/
theorem midnight_closure_skipped :
    ¬ ∀ (store : Store) (ticks : ℕ → Moment), Undisturbed store ticks → Kept store ticks := by
  intro h
  rcases h midnightStore everyMinute midnight_undisturbed with ⟨-, -, hall⟩
  have hmem : midnight ∈ midnightStore.entries := by simp [midnightStore]
  have hcovers : Covers everyMinute midnight 1 :=
    ⟨by decide +kernel, by decide +kernel, 3, by decide +kernel⟩
  rcases hall midnight hmem 1 hcovers with ⟨n, harms, -⟩
  rcases harms.inLead midnight_undisturbed hmem with ⟨-, hdate, hlead⟩
  have hpast := midnight_target_le (clock everyMinute n)
  rw [hdate] at hpast
  exact absurd hlead.2 (not_lt.mpr hpast)

/-- Ten past midnight, the lead of which stays within the date. -/
def tenPast : Entry := { midnight with minute := 10, minute_lt := by decide }

def tenPastStore : Store := ⟨[tenPast], by decide⟩

theorem tenPast_armed : Arms tenPastStore everyMinute 8 tenPast 1 := by
  unfold Arms
  decide +kernel

theorem tenPast_undisturbed : Undisturbed tenPastStore everyMinute := by
  refine ⟨?_, fun _ => rfl, fun _ => rfl, ?_, ?_⟩
  · intro e he
    rw [List.mem_singleton.mp he]
    exact midnight_undisturbed.steady midnight (List.mem_singleton_self midnight)
  · intro e he e' he' d d' t happlies happlies' _ _
    rw [List.mem_singleton.mp he] at happlies ⊢
    rw [List.mem_singleton.mp he'] at happlies' ⊢
    exact ⟨rfl, happlies.symm.trans happlies'⟩
  · intro e he d n happlies hlead hnever
    obtain rfl := List.mem_singleton.mp he
    obtain rfl : 1 = d := happlies
    -- the lead opens at five past, when the closure is armed
    rcases Nat.lt_trichotomy n 8 with hbefore | rfl | hafter
    · exfalso
      have hfrom := hlead.1
      simp only [tenPast, midnight, Entry.target, Entry.lead, appointment, timeOfDay, clock,
        everyMinute, day, second] at hfrom
      omega
    · exact ⟨by decide +kernel, Bool.false_ne_true ∘ Option.some.inj⟩
    · exact absurd tenPast_armed (hnever 8 hafter)

theorem scheduled_maintenance_kept_iff_sample : Kept tenPastStore everyMinute :=
  (scheduled_maintenance_kept_iff tenPastStore everyMinute tenPast_undisturbed).mpr
    (timely_of_lead_le tenPast_undisturbed fun e he => by
      rw [List.mem_singleton.mp he]
      decide)

end ScheduledMaintenance
