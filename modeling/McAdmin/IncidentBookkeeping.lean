import McAdmin.Runs
import McAdmin.Watchers

/-!
# Bookkeeping of incidents

What is read of the watched things, what is notified of them and which incidents are open,
over whole runs of the two watchers.
-/

namespace Watchers

open Incidents (Instant JsonIncidents)
open Runs (run Along)

/-! ### What the probes show -/

def availability (polls : ℕ) : Option Bool → Option Reading
  | none => none
  | some true => some .up
  | some false => some (.down polls)

section

variable {α : Type} [LE α] [DecidableLE α] [LT α] [DecidableLT α]

def tickTime (limits : Limits α) : Option (Measure α) → Option Reading
  | none => none
  | some mspt => some (if mspt.value ≤ limits.msptThreshold then .up else .down limits.polls)

/-- Too little space is an alert at once; between the two bounds nothing is shown. -/
def diskSpace (limits : Limits α) : Option (Measure α) → Option Reading
  | none => none
  | some free =>
    if free.value < limits.diskThreshold then some (.down 1)
    else if limits.diskRestored < free.value then some .up
    else none

def listed : List Seen → List String
  | [] => []
  | .listed names :: _ => names
  | .restarted :: _ => []
  | .read _ _ :: seen => listed seen
  | .sent _ _ :: seen => listed seen

def Event.shows (threshold : ℕ) (seen : List Seen) : Event α → List Seen
  | .server running => (availability threshold running).toList.map (.read .server)
  | .companion name running =>
    if name ∈ listed seen then
      (availability threshold running).toList.map (.read (.companion name))
    else []
  | .mspt limits measure => (tickTime limits measure).toList.map (.read .mspt)
  | .disk limits free => (diskSpace limits free).toList.map (.read .disk)
  | .companionsNow none => []
  | .companionsNow (some names) => [.listed names]
  | .work _ _ => []
  | .restart => [.restarted]

/-- The code acts, and what the event showed is noted beside it. -/
def step (threshold : ℕ) (s : World) (event : Event α) : World :=
  if s.ready event then
    { act threshold s event with
      seen := event.shows threshold s.seen ++ (act threshold s event).seen }
  else s

end

/-! ### The history -/

def notices (v : Watch) : List Seen → List Notice
  | [] => []
  | .sent v' n :: seen => if v' = v then n.notice :: notices v seen else notices v seen
  | _ :: seen => notices v seen

def outstanding (v : Watch) (seen : List Seen) : Bool := (notices v seen).head? = some .alert

def lastReading (v : Watch) : List Seen → Option Reading
  | [] => none
  | .read v' reading :: seen => if v' = v then some reading else lastReading v seen
  | _ :: seen => lastReading v seen

def Watch.gone (names : List String) : Watch → Bool
  | .companion name => name ∉ names
  | _ => false

/-- The bad readings in succession, by one process and under one watch. -/
def downs (v : Watch) : List Seen → ℕ
  | [] => 0
  | .read v' .up :: seen => if v' = v then 0 else downs v seen
  | .read v' (.down _) :: seen => if v' = v then downs v seen + 1 else downs v seen
  | .listed names :: seen => if v.gone names then 0 else downs v seen
  | .restarted :: _ => 0
  | .sent _ _ :: seen => downs v seen

/-- The latest reading is one of enough bad ones in succession. -/
def Due (v : Watch) (seen : List Seen) : Prop :=
  ∃ polls, lastReading v seen = some (.down polls) ∧ polls ≤ downs v seen

/-- An alert, then a recovery, and so on; the latest is the head. -/
def Alternates : List Notice → Prop
  | [] => True
  | n :: earlier => (n = .alert ↔ earlier.head? ≠ some .alert) ∧ Alternates earlier

def Earned : List Seen → Prop
  | [] => True
  | .sent v n :: seen => (n.notice = .alert → Due v seen) ∧ Earned seen
  | _ :: seen => Earned seen

def World.owed (s : World) (v : Watch) : List Effect :=
  if (s.errands v.thread).watch = v then (s.errands v.thread).effects else []

structure Kept (s : World) : Prop where
  /-- After a good reading no incident is open. -/
  closed : ∀ v, s.owed v = [] → lastReading v s.seen = some .up →
    s.incidents.openFor v.subject = []
  /-- After a good reading no alert is outstanding. -/
  recovered : ∀ v, s.owed v = [] → lastReading v s.seen = some .up →
    outstanding v s.seen = false
  single : ∀ subject, (s.incidents.openFor subject).length ≤ 1
  alternate : ∀ v, Alternates (notices v s.seen)
  earned : Earned s.seen
  /-- After enough bad readings an alert is outstanding. -/
  prompt : ∀ v, s.owed v = [] → 0 < downs v s.seen → Due v s.seen → outstanding v s.seen = true

/-! ### Runs that keep the books -/

def World.Troubled (s : World) (v : Watch) : Prop :=
  outstanding v s.seen = true ∨ s.incidents.isOpen v.subject = true

def reserved : List String := ["server", "mspt", "disk"]

/-- The process does not end in trouble, no companion is removed in trouble, and none has the
subject of something else. -/
def Calm {α : Type} (s : World) : Event α → Prop
  | .restart => ∀ v, ¬ s.Troubled v
  | .companionsNow (some names) => (∀ name ∈ names, name ∉ reserved) ∧
      ∀ name ∈ s.names, name ∉ names → ¬ s.Troubled (.companion name)
  | _ => True

def Watch.Proper (v : Watch) : Prop := ∀ name, v = .companion name → name ∉ reserved

theorem subject_injective {v v' : Watch} (hv : v.Proper) (hv' : v'.Proper)
    (h : v.subject = v'.subject) : v = v' := by
  cases v with
  | companion name =>
    have hname := hv name rfl
    cases v' with
    | companion name' => exact congrArg Watch.companion h
    | _ => exact absurd (by simp_all [Watch.subject, reserved]) hname
  | _ =>
    cases v' with
    | companion name =>
      have hname := hv' name rfl
      exact absurd (by simp_all [Watch.subject, reserved]) hname
    | _ => first | rfl | exact absurd h (by decide)

/-! ### One thing watched -/

structure View where
  watched : Watched
  isOpen : Bool
  outstanding : Bool
  downs : ℕ
  last : Option Reading

def World.view (s : World) (v : Watch) : View :=
  ⟨s.watched v, s.incidents.isOpen v.subject, outstanding v s.seen, downs v s.seen,
    lastReading v s.seen⟩

def View.after (x : View) : Effect → View
  | .notify n => { x with outstanding := n.notice = .alert }
  | .openIncident _ _ _ => { x with isOpen := true }
  | .closeIncident => { x with isOpen := false }
  | .set w => { x with watched := w }

def View.reads (x : View) : Reading → View
  | .up => { x with last := some .up, downs := 0 }
  | .down polls => { x with last := some (.down polls), downs := x.downs + 1 }

def View.sees (x : View) : Option Reading → View
  | none => x
  | some reading => x.reads reading

def View.Due (x : View) : Prop := ∃ polls, x.last = some (.down polls) ∧ polls ≤ x.downs

def View.Allows (x : View) : Effect → Prop
  | .notify n => (n.notice = .alert ↔ x.outstanding = false) ∧ (n.notice = .alert → x.Due)
  | _ => True

structure View.Settled (v : Watch) (x : View) : Prop where
  alerted : x.watched.alerted = x.outstanding
  isOpen : x.isOpen = x.outstanding
  streak : v ≠ .disk → x.watched.downStreak = x.downs
  up : x.last = some .up → x.outstanding = false
  due : 0 < x.downs → x.Due → x.outstanding = true

def Owes (v : Watch) : List Effect → View → Prop
  | [], x => x.Settled v
  | effect :: effects, x => x.Allows effect ∧ Owes v effects (x.after effect)

section

variable {v : Watch} {x : View}

theorem judged_owes {polls : ℕ} {alert recovery : Notification} {kind label detail : String}
    (hv : v ≠ .disk) (hx : x.Settled v) (halert : alert.notice = .alert)
    (hrecovery : recovery.notice = .recovery) (good : Bool) :
    Owes v (judged polls x.watched alert recovery kind label detail good)
      (x.reads (if good then .up else .down polls)) := by
  cases good with
  | true =>
    simp only [judged, if_true]
    cases halerted : x.watched.alerted with
    | true =>
      have hout : x.outstanding = true := hx.alerted ▸ halerted
      refine ⟨⟨?_, ?_⟩, trivial, trivial, ?_⟩
      · simp [hrecovery, View.reads, hout]
      · simp [hrecovery]
      · constructor <;> simp [View.reads, View.after, hrecovery]
    | false =>
      have hout : x.outstanding = false := hx.alerted ▸ halerted
      refine ⟨trivial, ?_⟩
      constructor <;> simp [View.reads, View.after, hout, hx.isOpen]
  | false =>
    simp only [judged, Bool.false_eq_true, if_false]
    have hstreak : x.watched.downStreak = x.downs := hx.streak hv
    -- the alert is due with the last of enough downs, once
    by_cases hdue : polls ≤ x.watched.downStreak + 1 ∧ x.watched.alerted = false
    · rw [if_pos hdue]
      have hout : x.outstanding = false := hx.alerted ▸ hdue.2
      refine ⟨trivial, ⟨?_, fun _ => ⟨polls, rfl, ?_⟩⟩, trivial, trivial, ?_⟩
      · simp [halert, View.reads, View.after, hout]
      · exact hstreak ▸ hdue.1
      · constructor <;> simp [View.reads, View.after, halert, hstreak]
    · rw [if_neg hdue]
      refine ⟨trivial, ?_⟩
      constructor
      · exact hx.alerted
      · exact hx.isOpen
      · exact fun _ => congrArg (· + 1) hstreak
      · nofun
      · rintro _ ⟨polls', hlast, hpolls⟩
        cases hlast
        by_contra hout
        refine hdue ⟨hstreak ▸ hpolls, ?_⟩
        rw [hx.alerted]
        exact Bool.eq_false_iff.mpr hout

theorem tickOne_owes (threshold : ℕ) (running : Option Bool) (hv : v ≠ .disk) (hx : x.Settled v) :
    Owes v (tickOne threshold v x.watched running) (x.sees (availability threshold running)) := by
  cases running with
  | none => exact hx
  | some running =>
    simp only [tickOne]
    cases running with
    | true => exact judged_owes hv hx rfl rfl true
    | false => exact judged_owes hv hx rfl rfl false

theorem tickMspt_owes {α : Type} [LE α] [DecidableLE α] (limits : Limits α)
    (mspt : Option (Measure α)) (hx : x.Settled .mspt) :
    Owes .mspt (tickMspt limits x.watched mspt) (x.sees (tickTime limits mspt)) := by
  cases mspt with
  | none => exact hx
  | some mspt =>
    simp only [tickMspt, tickTime, View.sees]
    by_cases hgood : mspt.value ≤ limits.msptThreshold
    · rw [if_pos hgood, decide_eq_true hgood]
      exact judged_owes (by decide) hx rfl rfl true
    · rw [if_neg hgood, decide_eq_false hgood]
      exact judged_owes (by decide) hx rfl rfl false

theorem tickDisk_owes {α : Type} [LT α] [DecidableLT α] (limits : Limits α)
    (free : Option (Measure α)) (hx : x.Settled .disk) :
    Owes .disk (tickDisk limits x.watched free) (x.sees (diskSpace limits free)) := by
  cases free with
  | none => exact hx
  | some free =>
    simp only [tickDisk, diskSpace]
    by_cases hlow : free.value < limits.diskThreshold
    · rw [if_pos hlow, if_pos hlow]
      cases halerted : x.watched.alerted with
      | true =>
        have hout : x.outstanding = true := hx.alerted ▸ halerted
        refine ⟨hx.alerted, hx.isOpen, fun hdisk => absurd rfl hdisk, ?_, fun _ _ => hout⟩
        intro hup
        cases hup
      | false =>
        have hout : x.outstanding = false := hx.alerted ▸ halerted
        refine ⟨⟨by simp [View.sees, View.reads, hout],
          fun _ => ⟨1, rfl, Nat.le_add_left 1 x.downs⟩⟩, trivial, trivial, ?_⟩
        constructor <;> simp [View.sees, View.reads, View.after]
    · rw [if_neg hlow, if_neg hlow]
      by_cases hrestored : limits.diskRestored < free.value
      · rw [if_pos hrestored]
        cases halerted : x.watched.alerted with
        | true =>
          have hout : x.outstanding = true := hx.alerted ▸ halerted
          rw [if_pos ⟨rfl, hrestored⟩]
          refine ⟨⟨by simp [View.sees, View.reads, hout], ?_⟩, trivial, trivial, ?_⟩
          · intro halert
            cases halert
          · constructor <;> simp [View.sees, View.reads, View.after]
        | false =>
          have hout : x.outstanding = false := hx.alerted ▸ halerted
          rw [if_neg fun hrecovers => Bool.false_ne_true hrecovers.1]
          refine ⟨hx.alerted, hx.isOpen, fun hdisk => absurd rfl hdisk, fun _ => hout, ?_⟩
          exact fun hdowns => absurd hdowns (Nat.lt_irrefl 0)
      · rw [if_neg hrestored, if_neg fun hrecovers => hrestored hrecovers.2]
        exact hx

end

/-! ### All of them -/

def Live (names : List String) (v : Watch) : Prop := ∀ name, v = .companion name → name ∈ names

structure Inv (s : World) : Prop where
  wellKept : s.incidents.WellKept
  listed : listed s.seen = s.names
  proper : ∀ name ∈ s.names, name ∉ reserved
  absent : ∀ name, name ∉ s.names → s.watched (.companion name) = {}
  atWork : ∀ thread, s.idle thread = false →
    Live s.names (s.errands thread).watch ∧ (s.errands thread).watch.thread = thread
  owes : ∀ v, v.Proper → Owes v (s.owed v) (s.view v)
  improper : ∀ v, ¬ v.Proper → lastReading v s.seen = none ∧ notices v s.seen = []
  alternate : ∀ v, Alternates (notices v s.seen)
  earned : Earned s.seen

section

variable {s : World} {v v' : Watch}

theorem Inv.live_proper (h : Inv s) (hv : Live s.names v) : v.Proper :=
  fun name hname => h.proper name (hv name hname)

theorem owed_of_idle (h : s.idle v.thread = true) : s.owed v = [] := by
  rw [World.owed]
  split
  · exact List.isEmpty_iff.mp h
  · rfl

theorem owed_update {thread : Thread} {effects : List Effect} (hv : v.thread = thread)
    (s : World) (w : World)
    (hw : w.errands = Function.update s.errands thread ⟨v, effects⟩) :
    w.owed v = effects := by
  rw [World.owed, hw, hv, Function.update_self, if_pos rfl]

theorem owed_update_of_ne {thread : Thread} {effects : List Effect} (hne : v' ≠ v)
    (s : World) (w : World)
    (hw : w.errands = Function.update s.errands thread ⟨v, effects⟩)
    (hold : (s.errands thread).watch = v ∨ s.idle thread = true) :
    w.owed v' = s.owed v' := by
  by_cases hthread : v'.thread = thread
  · rw [World.owed, hw, hthread, Function.update_self, if_neg hne.symm]
    rcases hold with hold | hold
    · rw [World.owed, hthread, hold, if_neg hne.symm]
    · rw [owed_of_idle (hthread ▸ hold)]
  · rw [World.owed, World.owed, hw, Function.update_of_ne hthread]

theorem outstanding_read (reading : Reading) (seen : List Seen) :
    outstanding v (.read v' reading :: seen) = outstanding v seen := rfl

theorem listed_reads (reading : Option Reading) (seen : List Seen) :
    listed (reading.toList.map (.read v) ++ seen) = listed seen := by
  cases reading <;> rfl

theorem notices_reads (reading : Option Reading) (seen : List Seen) :
    notices v (reading.toList.map (.read v') ++ seen) = notices v seen := by
  cases reading <;> rfl

theorem earned_reads (reading : Option Reading) {seen : List Seen} (h : Earned seen) :
    Earned (reading.toList.map (.read v) ++ seen) := by
  cases reading <;> exact h

theorem lastReading_reads_of_ne (hne : v ≠ v') (reading : Option Reading) (seen : List Seen) :
    lastReading v' (reading.toList.map (.read v) ++ seen) = lastReading v' seen := by
  cases reading with
  | none => rfl
  | some reading => exact if_neg hne

theorem Inv.start : Inv {} where
  wellKept := JsonIncidents.wellKept_new
  listed := rfl
  proper := nofun
  absent := fun _ _ => rfl
  atWork := fun thread h => by cases thread <;> cases h
  owes := fun v _ => by
    have howed : World.owed {} v = [] := by
      cases v <;> rfl
    rw [howed]
    constructor <;> simp [World.view, outstanding, notices, lastReading, downs,
      JsonIncidents.isOpen]
  improper := fun _ _ => ⟨rfl, rfl⟩
  alternate := fun _ => trivial
  earned := trivial

theorem Inv.restart (h : Inv s) (hcalm : ∀ v, ¬ s.Troubled v) :
    Inv { s.restart with seen := .restarted :: s.seen } where
  wellKept := h.wellKept
  listed := rfl
  proper := nofun
  absent := fun _ _ => rfl
  atWork := fun thread h => by cases thread <;> cases h
  owes := fun v _ => by
    have howed : World.owed { s.restart with seen := .restarted :: s.seen } v = [] := by
      cases v <;> rfl
    have hout : outstanding v s.seen = false :=
      Bool.eq_false_iff.mpr fun hout => hcalm v (.inl hout)
    have hopen : s.incidents.isOpen v.subject = false :=
      Bool.eq_false_iff.mpr fun hopen => hcalm v (.inr hopen)
    rw [howed]
    exact ⟨hout.symm, hopen.trans hout.symm, fun _ => rfl, fun _ => hout,
      fun hdowns => absurd hdowns (Nat.lt_irrefl 0)⟩
  improper := h.improper
  alternate := h.alternate
  earned := h.earned

theorem view_probe (reading : Option Reading) (effects : List Effect) :
    World.view { s.begin v effects with seen := reading.toList.map (.read v) ++ s.seen } v =
      (s.view v).sees reading := by
  cases reading with
  | none => rfl
  | some reading =>
    cases reading <;> simp [World.begin, World.view, View.sees, View.reads, outstanding_read,
      lastReading, downs]

theorem view_probe_of_ne (hne : v ≠ v') (reading : Option Reading) (effects : List Effect) :
    World.view { s.begin v effects with seen := reading.toList.map (.read v) ++ s.seen } v' =
      s.view v' := by
  cases reading with
  | none => rfl
  | some reading =>
    cases reading <;> simp [World.begin, World.view, outstanding_read, lastReading, downs, hne]

theorem Inv.probe (h : Inv s) (hv : Live s.names v) (hidle : s.idle v.thread = true)
    {reading : Option Reading} {effects : List Effect}
    (howes : (s.view v).Settled v → Owes v effects ((s.view v).sees reading)) :
    Inv { s.begin v effects with seen := reading.toList.map (.read v) ++ s.seen } := by
  have hproper : v.Proper := h.live_proper hv
  have hsettled : (s.view v).Settled v := by
    have howed := h.owes v hproper
    rwa [owed_of_idle hidle] at howed
  refine ⟨h.wellKept, (listed_reads reading s.seen).trans h.listed, h.proper, h.absent, ?_, ?_, ?_,
    fun v' => (notices_reads reading s.seen).symm ▸ h.alternate v', earned_reads reading h.earned⟩
  · intro thread hthread
    by_cases heq : thread = v.thread
    · subst heq
      simpa [World.begin] using hv
    · have hbusy : s.idle thread = false := by
        simpa [World.begin, World.idle, Function.update_of_ne heq] using hthread
      simpa [World.begin, Function.update_of_ne heq] using h.atWork thread hbusy
  · intro v' hv'
    by_cases heq : v' = v
    · subst heq
      rw [owed_update rfl s _ rfl, view_probe]
      exact howes hsettled
    · rw [owed_update_of_ne heq s _ rfl (.inr hidle), view_probe_of_ne (Ne.symm heq)]
      exact h.owes v' hv'
  · intro v' hv'
    have hne : v ≠ v' := fun heq => hv' (heq ▸ hproper)
    rw [lastReading_reads_of_ne hne, notices_reads]
    exact h.improper v' hv'

def World.lists (s : World) (names : List String) : World :=
  { s.companionsNow (some names) with seen := .listed names :: s.seen }

theorem view_lists {names : List String} (h : v.gone names = false) :
    (s.lists names).view v = s.view v := by
  have hwatched : (s.lists names).watched v = s.watched v := by
    cases v with
    | companion name => exact if_pos (not_not.mp (of_decide_eq_false h))
    | _ => rfl
  have hdowns : downs v (s.lists names).seen = downs v s.seen :=
    if_neg (Bool.eq_false_iff.mp h)
  rw [World.view, hwatched, hdowns]
  rfl

theorem Inv.settled_of_gone (h : Inv s) {names : List String} {name : String}
    (hname : name ∉ names) (hsettled : (s.view (.companion name)).Settled (.companion name))
    (hcalm : name ∈ s.names → ¬ s.Troubled (.companion name)) :
    ((s.lists names).view (.companion name)).Settled (.companion name) := by
  have hwatched : (s.lists names).watched (.companion name) = {} := if_neg hname
  have hdowns : downs (.companion name) (s.lists names).seen = 0 := if_pos (decide_eq_true hname)
  have hquiet : outstanding (.companion name) s.seen = false ∧
      s.incidents.isOpen name = false := by
    by_cases hold : name ∈ s.names
    · exact ⟨Bool.eq_false_iff.mpr fun hout => hcalm hold (.inl hout),
        Bool.eq_false_iff.mpr fun hopen => hcalm hold (.inr hopen)⟩
    · have halerted := hsettled.alerted
      rw [World.view, h.absent name hold] at halerted
      exact ⟨halerted.symm, hsettled.isOpen.trans halerted.symm⟩
  rcases hquiet with ⟨hout, hopen⟩
  have hout' : outstanding (.companion name) (s.lists names).seen = false := hout
  refine ⟨?_, hopen.trans hout'.symm, fun _ => ?_, fun _ => hout', fun hpos => ?_⟩
  · exact (congrArg Watched.alerted hwatched).trans hout'.symm
  · exact (congrArg Watched.downStreak hwatched).trans hdowns.symm
  · exact absurd hdowns (Nat.ne_of_gt hpos)

theorem Inv.lists (h : Inv s) (hidle : s.idle .health = true) {names : List String}
    (hproper : ∀ name ∈ names, name ∉ reserved)
    (hcalm : ∀ name ∈ s.names, name ∉ names → ¬ s.Troubled (.companion name)) :
    Inv (s.lists names) where
  wellKept := h.wellKept
  listed := rfl
  proper := hproper
  absent := fun name hname => if_neg hname
  atWork := fun thread hthread => by
    cases thread with
    | health => exact absurd (hidle.symm.trans hthread) nofun
    | perf =>
      rcases h.atWork .perf hthread with ⟨_, hperf⟩
      refine ⟨fun name hname => ?_, hperf⟩
      change (s.errands .perf).watch = _ at hname
      rw [hname] at hperf
      cases hperf
  owes := fun v hv => by
    have hsettled := h.owes v hv
    have howed : (s.lists names).owed v = s.owed v := rfl
    rw [howed]
    cases hgone : v.gone names with
    | false =>
      rw [view_lists hgone]
      exact hsettled
    | true =>
      cases v with
      | companion name =>
        rw [owed_of_idle hidle] at hsettled ⊢
        have hname : name ∉ names := of_decide_eq_true hgone
        exact h.settled_of_gone hname hsettled fun hold => hcalm name hold hname
      | _ => cases hgone
  improper := h.improper
  alternate := h.alternate
  earned := h.earned

/-! ### The work -/

theorem view_perform (s : World) (v : Watch) (now : Instant) (effect : Effect) :
    (s.perform v now effect).view v = (s.view v).after effect := by
  cases effect with
  | notify n => simp [World.perform, World.view, View.after, outstanding, notices, lastReading, downs]
  | openIncident kind label detail =>
    simp [World.perform, World.view, View.after, JsonIncidents.isOpen_openIncident]
  | closeIncident => simp [World.perform, World.view, View.after, JsonIncidents.isOpen_closeIncident]
  | set w => simp [World.perform, World.view, View.after]

theorem view_perform_of_ne (hv : v.Proper) (hv' : v'.Proper) (hne : v' ≠ v) (now : Instant)
    (effect : Effect) : (s.perform v now effect).view v' = s.view v' := by
  have hsubject : v'.subject ≠ v.subject := fun h => hne (subject_injective hv' hv h)
  cases effect with
  | notify n => simp [World.perform, World.view, outstanding, notices, lastReading, downs, hne.symm]
  | openIncident kind label detail =>
    simp [World.perform, World.view, JsonIncidents.isOpen_openIncident, hsubject]
  | closeIncident => simp [World.perform, World.view, JsonIncidents.isOpen_closeIncident, hsubject]
  | set w => simp [World.perform, World.view, hne]

theorem wellKept_perform (h : s.incidents.WellKept) (now : Instant) (effect : Effect) :
    (s.perform v now effect).incidents.WellKept := by
  cases effect with
  | notify n => exact h
  | openIncident kind label detail => exact JsonIncidents.openIncident_wellKept h
  | closeIncident => exact JsonIncidents.closeIncident_wellKept h
  | set w => exact h

theorem listed_perform (s : World) (v : Watch) (now : Instant) (effect : Effect) :
    listed (s.perform v now effect).seen = listed s.seen := by
  cases effect <;> rfl

theorem names_perform (s : World) (v : Watch) (now : Instant) (effect : Effect) :
    (s.perform v now effect).names = s.names := by
  cases effect <;> rfl

theorem history_perform (halternate : ∀ v, Alternates (notices v s.seen)) (hearned : Earned s.seen)
    (now : Instant) {effect : Effect} (hallows : (s.view v).Allows effect) :
    (∀ v', Alternates (notices v' (s.perform v now effect).seen)) ∧
      Earned (s.perform v now effect).seen := by
  cases effect with
  | notify n =>
    refine ⟨fun v' => ?_, hallows.2, hearned⟩
    by_cases heq : v = v'
    · subst heq
      simp only [World.perform, notices, if_true]
      refine ⟨hallows.1.trans ?_, halternate v⟩
      exact decide_eq_false_iff_not
    · simp only [World.perform, notices, if_neg heq]
      exact halternate v'
  | _ => exact ⟨halternate, hearned⟩

theorem improper_perform (h : lastReading v' s.seen = none ∧ notices v' s.seen = [])
    (hne : v ≠ v') (now : Instant) (effect : Effect) :
    lastReading v' (s.perform v now effect).seen = none ∧
      notices v' (s.perform v now effect).seen = [] := by
  cases effect with
  | notify n => exact ⟨h.1, (if_neg hne).trans h.2⟩
  | _ => exact h

theorem absent_perform (h : ∀ name, name ∉ s.names → s.watched (.companion name) = {})
    (hv : Live s.names v) (now : Instant) (effect : Effect) {name : String}
    (hname : name ∉ s.names) : (s.perform v now effect).watched (.companion name) = {} := by
  cases effect with
  | set w =>
    have hne : Watch.companion name ≠ v := fun heq => hname (hv name heq.symm)
    exact (Function.update_of_ne hne w s.watched).trans (h name hname)
  | _ => exact h name hname

theorem Inv.work (h : Inv s) (thread : Thread) (now : Instant) : Inv (s.work thread now) := by
  unfold World.work
  split
  · exact h
  · rename_i effect effects heffects
    have hbusy : s.idle thread = false := by
      rw [World.idle, heffects]
      rfl
    rcases h.atWork thread hbusy with ⟨hlive, hthread⟩
    have howed : s.owed (s.errands thread).watch = effect :: effects := by
      rw [World.owed, hthread, if_pos rfl, heffects]
    generalize hv : (s.errands thread).watch = v at hlive hthread howed
    have hproper : v.Proper := h.live_proper hlive
    have howes := h.owes v hproper
    rw [howed] at howes
    rcases howes with ⟨hallows, howes⟩
    rcases history_perform h.alternate h.earned now hallows with ⟨halternate, hearned⟩
    refine ⟨wellKept_perform h.wellKept now effect, ?_, ?_, ?_, ?_, ?_, ?_, halternate, hearned⟩
    · simpa only [listed_perform, names_perform] using h.listed
    · simpa only [names_perform] using h.proper
    · simp only [names_perform]
      exact fun name hname => absent_perform h.absent hlive now effect hname
    · intro other hother
      simp only [names_perform]
      by_cases heq : other = thread
      · subst heq
        simpa only [Function.update_self] using ⟨hlive, hthread⟩
      · have hold : s.idle other = false := by
          simpa [World.idle, Function.update_of_ne heq] using hother
        simpa only [Function.update_of_ne heq] using h.atWork other hold
    -- only the watch at work is owed less than before
    · intro v' hv'
      by_cases heq : v' = v
      · subst heq
        rw [owed_update hthread s _ rfl]
        exact (view_perform s v' now effect).symm ▸ howes
      · rw [owed_update_of_ne heq s _ rfl (.inl hv)]
        exact (view_perform_of_ne hproper hv' heq now effect).symm ▸ h.owes v' hv'
    · intro v' hv'
      exact improper_perform (h.improper v' hv') (fun heq => hv' (heq ▸ hproper)) now effect

end

section

variable {α : Type} [LE α] [DecidableLE α] [LT α] [DecidableLT α]

theorem Inv.step {threshold : ℕ} {s : World} {event : Event α} (h : Inv s)
    (hcalm : Calm s event) : Inv (step threshold s event) := by
  unfold Watchers.step
  split
  · rename_i hready
    cases event with
    | server running =>
      exact h.probe (v := .server) (fun _ heq => by cases heq) hready
        (tickOne_owes threshold running nofun)
    | companion name running =>
      simp only [act, Event.shows, h.listed]
      split
      · rename_i hname
        refine h.probe (v := .companion name) (fun name' heq => ?_) hready
          (tickOne_owes threshold running nofun)
        cases heq
        exact hname
      · exact h
    | mspt limits mspt =>
      exact h.probe (v := .mspt) (fun _ heq => by cases heq) hready (tickMspt_owes limits mspt)
    | disk limits free =>
      exact h.probe (v := .disk) (fun _ heq => by cases heq) hready (tickDisk_owes limits free)
    | companionsNow names =>
      cases names with
      | none => exact h
      | some names => exact h.lists hready hcalm.1 hcalm.2
    | work thread now => exact h.work thread now
    | restart => exact h.restart hcalm
  · exact h

theorem Inv.settled_of_read {s : World} (h : Inv s) {v : Watch} {reading : Reading}
    (howed : s.owed v = []) (hlast : lastReading v s.seen = some reading) :
    (s.view v).Settled v := by
  have hproper : v.Proper := by
    by_contra hv
    rw [(h.improper v hv).1] at hlast
    cases hlast
  have hsettled := h.owes v hproper
  rwa [howed] at hsettled

theorem Inv.kept {s : World} (h : Inv s) : Kept s where
  closed := fun v howed hlast => by
    have hsettled := h.settled_of_read howed hlast
    have hclosed : s.incidents.isOpen v.subject = false :=
      hsettled.isOpen.trans (hsettled.up hlast)
    have hlength := JsonIncidents.length_openFor h.wellKept v.subject
    rw [hclosed] at hlength
    exact List.length_eq_zero_iff.mp hlength
  recovered := fun v howed hlast => (h.settled_of_read howed hlast).up hlast
  single := fun subject => by
    rw [JsonIncidents.length_openFor h.wellKept]
    split <;> simp
  alternate := h.alternate
  earned := h.earned
  prompt := fun v howed hdowns hdue => by
    rcases hdue with ⟨polls, hlast, hpolls⟩
    exact (h.settled_of_read howed hlast).due hdowns ⟨polls, hlast, hpolls⟩

end

/-- In a run where the process does not end in trouble, no companion is removed in trouble and
no two things have one subject, the books are kept. -/
theorem books_kept {α : Type} [LE α] [DecidableLE α] [LT α] [DecidableLT α] (threshold : ℕ)
    (events : List (Event α)) (h : Along (step threshold) Calm {} events) :
    Kept (run (step threshold) {} events) :=
  (Runs.run_induction (fun _ _ => Inv.step) Inv.start h).kept

def noon : Instant := ⟨"2026-07-20T12:00:00+00:00", 1784548800⟩

def outage : List (Event ℕ) :=
  [.server (some false), .work .health noon, .work .health noon, .work .health noon,
    .work .health noon, .server (some true), .work .health noon, .work .health noon,
    .work .health noon, .restart]

theorem books_kept_outage : Kept (run (step 1) {} outage) := by
  refine books_kept 1 outage ⟨trivial, trivial, trivial, trivial, trivial, trivial, trivial,
    trivial, trivial, fun v => ?_, trivial⟩
  rintro (hout | hopen)
  · cases v with
    | server => exact absurd hout (by decide)
    | _ => exact absurd hout nofun
  · exact absurd hopen nofun

/-- The process is restarted during the outage, and finds the server running. -/
def outageForgotten : List (Event ℕ) :=
  [.server (some false), .work .health noon, .server (some false), .work .health noon,
    .server (some false), .work .health noon, .work .health noon, .work .health noon,
    .work .health noon, .restart, .server (some true), .work .health noon]

theorem outage_forgotten : ¬ Kept (run (step 3) {} outageForgotten) := by
  intro h
  have hclosed := h.closed .server rfl rfl
  exact absurd hclosed (by decide)

end Watchers
