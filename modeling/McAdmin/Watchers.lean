import McAdmin.Incidents
import Mathlib.Logic.Function.Basic

/-!
# The watchers

`HealthWatcher` and `PerfWatcher` are two threads of one process.  A probe that concludes
is handled in steps, among which the other thread takes its own, and at any of which the
process may be restarted.
-/

namespace Watchers

open Incidents (Instant JsonIncidents)

inductive Watch where
  | server
  | companion (name : String)
  | mspt
  | disk
deriving DecidableEq

def Watch.subject : Watch → String
  | .server => "server"
  | .companion name => name
  | .mspt => "mspt"
  | .disk => "disk"

def Watch.title : Watch → String
  | .server => "Serveur"
  | .companion name => name
  | .mspt => "Lag serveur"
  | .disk => "Espace disque"

structure Watched where
  downStreak : ℕ := 0
  alerted : Bool := false
deriving DecidableEq

inductive Notice where
  | alert
  | recovery
deriving DecidableEq

structure Notification where
  notice : Notice
  title : String
  level : String
  event : String
deriving DecidableEq

inductive Effect where
  | notify (notification : Notification)
  | openIncident (kind label detail : String)
  | closeIncident
  | set (watched : Watched)
deriving DecidableEq

/-! ### One probe -/

/-- A good or bad reading, where bad ones are counted: what is notified and recorded. -/
def judged (polls : ℕ) (w : Watched) (alert recovery : Notification) (kind label detail : String) :
    Bool → List Effect
  | true => (if w.alerted then [.notify recovery, .closeIncident] else []) ++ [.set {}]
  | false =>
    let streak := w.downStreak + 1
    .set { w with downStreak := streak } ::
      if polls ≤ streak ∧ w.alerted = false then
        [.notify alert, .openIncident kind label detail, .set ⟨streak, true⟩]
      else []

/-- `HealthWatcher._tick_one`; `none` is a container whose status cannot be had. -/
def tickOne (threshold : ℕ) (v : Watch) (w : Watched) : Option Bool → List Effect
  | none => []
  | some running => judged threshold w ⟨.alert, v.title ++ " down", "error", "health"⟩
      ⟨.recovery, v.title ++ " rétabli", "info", "health"⟩
      "availability" v.title (v.title ++ " arrêté") running

/-- `_current_limits`, with the product that the disk space has to exceed. -/
structure Limits (α : Type) where
  msptThreshold : α
  diskThreshold : α
  diskRestored : α
  polls : ℕ

section

variable {α : Type} [LE α] [DecidableLE α] [LT α] [DecidableLT α]

structure Measure (α : Type) where
  value : α
  shown : String

/-- `PerfWatcher._tick_mspt`.  Measures are compared as floating-point numbers are, of which
no law is used. -/
def tickMspt (limits : Limits α) (w : Watched) : Option (Measure α) → List Effect
  | none => []
  | some mspt => judged limits.polls w ⟨.alert, Watch.mspt.title, "warning", "performance"⟩
      ⟨.recovery, Watch.mspt.title ++ " terminé", "info", "performance"⟩
      "performance" Watch.mspt.title ("MSPT " ++ mspt.shown ++ " ms")
      (mspt.value ≤ limits.msptThreshold)

/-- `PerfWatcher._tick_disk`; nothing is done between the two bounds. -/
def tickDisk (limits : Limits α) (w : Watched) : Option (Measure α) → List Effect
  | none => []
  | some free =>
    if free.value < limits.diskThreshold then
      if w.alerted = false then
        [.notify ⟨.alert, Watch.disk.title ++ " bas", "warning", "disk"⟩,
          .openIncident "disk" Watch.disk.title (free.shown ++ " Gio libres"),
          .set { w with alerted := true }]
      else []
    else if w.alerted ∧ limits.diskRestored < free.value then
      [.notify ⟨.recovery, Watch.disk.title ++ " rétabli", "info", "disk"⟩, .closeIncident,
        .set { w with alerted := false }]
    else []

end

/-! ### The process -/

inductive Thread where
  | health
  | perf
deriving DecidableEq

def Watch.thread : Watch → Thread
  | .server => .health
  | .companion _ => .health
  | .mspt => .perf
  | .disk => .perf

/-- What a thread has still to do about the last probe that concluded. -/
structure Errand where
  watch : Watch
  effects : List Effect

def noErrand : Thread → Errand
  | .health => ⟨.server, []⟩
  | .perf => ⟨.mspt, []⟩

/-- What a probe shows, and of a bad one, how many in succession call for an alert. -/
inductive Reading where
  | up
  | down (polls : ℕ)
deriving DecidableEq

inductive Seen where
  | read (v : Watch) (reading : Reading)
  | sent (v : Watch) (notification : Notification)
  | listed (names : List String)
  | restarted
deriving DecidableEq

/-- `names` are the keys of `_companions`; a companion that is not there is as a new one.
`seen` is what was seen, the latest first: the code adds what it sends. -/
structure World where
  watched : Watch → Watched := fun _ => {}
  names : List String := []
  errands : Thread → Errand := noErrand
  incidents : JsonIncidents := {}
  seen : List Seen := []

inductive Event (α : Type) where
  | server (running : Option Bool)
  | companion (name : String) (running : Option Bool)
  | mspt (limits : Limits α) (mspt : Option (Measure α))
  | disk (limits : Limits α) (free : Option (Measure α))
  /-- The list of the companions is read; `none` if the store raises. -/
  | companionsNow (names : Option (List String))
  /-- A thread goes on with what it has to do. -/
  | work (thread : Thread) (now : Instant)
  | restart

def Event.asker {α : Type} : Event α → Option Thread
  | .server _ | .companion _ _ | .companionsNow _ => some .health
  | .mspt _ _ | .disk _ _ => some .perf
  | .work _ _ | .restart => none

namespace World

def idle (s : World) (thread : Thread) : Bool := (s.errands thread).effects.isEmpty

def ready {α : Type} (s : World) (event : Event α) : Bool :=
  match event.asker with
  | some thread => s.idle thread
  | none => true

def begin (s : World) (v : Watch) (effects : List Effect) : World :=
  { s with errands := Function.update s.errands v.thread ⟨v, effects⟩ }

def companionsNow (s : World) : Option (List String) → World
  | none => s
  | some names =>
    { s with
      watched := fun v => match v with
        | .companion name => if name ∈ names then s.watched v else {}
        | _ => s.watched v
      names := names }

def perform (s : World) (v : Watch) (now : Instant) : Effect → World
  | .notify notification => { s with seen := .sent v notification :: s.seen }
  | .openIncident kind label detail =>
    { s with incidents := s.incidents.openIncident now v.subject kind label detail }
  | .closeIncident => { s with incidents := s.incidents.closeIncident now v.subject "" }
  | .set w => { s with watched := Function.update s.watched v w }

def work (s : World) (thread : Thread) (now : Instant) : World :=
  match (s.errands thread).effects with
  | [] => s
  | effect :: effects =>
    let v := (s.errands thread).watch
    { s.perform v now effect with
      errands := Function.update s.errands thread ⟨v, effects⟩ }

def restart (s : World) : World :=
  { incidents := s.incidents, seen := s.seen }

end World

section

variable {α : Type} [LE α] [DecidableLE α] [LT α] [DecidableLT α]

/-- What the code does; `threshold` is `down_polls_before_alert`. -/
def act (threshold : ℕ) (s : World) : Event α → World
  | .server running => s.begin .server (tickOne threshold .server (s.watched .server) running)
  | .companion name running =>
    if name ∈ s.names then
      s.begin (.companion name)
        (tickOne threshold (.companion name) (s.watched (.companion name)) running)
    else s
  | .mspt limits mspt => s.begin .mspt (tickMspt limits (s.watched .mspt) mspt)
  | .disk limits free => s.begin .disk (tickDisk limits (s.watched .disk) free)
  | .companionsNow names => s.companionsNow names
  | .work thread now => s.work thread now
  | .restart => s.restart

end

end Watchers
