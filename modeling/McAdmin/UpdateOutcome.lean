import Mathlib.Data.List.Count
import Mathlib.Data.List.Nodup
import Mathlib.Logic.Function.Basic
import McAdmin.Runs

/-!
# The outcome of a server update

`apply_update` starts the one-shot updater and leaves an operation behind; every
reading of the update page and every background tick scans for its end.  Nothing
locks the operation: the steps of any number of calls and scans interleave, and so
does the end of the container.
-/

namespace UpdateOutcome

open Runs

/-! ### The state -/

/-- What `apply_update` leaves for the scans.  The clock makes the id; `run` is the
container run the call started, which the service itself does not know. -/
structure Operation where
  id : Int
  versionBefore : Option String
  run : Nat
deriving DecidableEq

inductive Entry where
  | updateStarted (id : Int)
  | updateError
  | updateFailed (code : Int) (id : Int)
  | updateDone (version : String) (id : Int)
deriving DecidableEq

structure Notification where
  title : String
  body : String
  level : String
deriving DecidableEq

inductive Phase where
  | idle
  /-- It has seen an operation. -/
  | checked
  /-- The updater does not run. -/
  | over
  /-- It has read the operation and not yet cleared it. -/
  | taken (op : Operation)
  | cleared (op : Operation)
  | read (op : Operation) (code : Option Int)
deriving DecidableEq

/-- A call of `apply_update`: the container is started before the operation is left. -/
inductive Call where
  | idle
  | started (run : Nat) (versionBefore : Option String) (steps : List String)
deriving DecidableEq

inductive Fate where
  | done
  | failed
  | failedAfter
deriving DecidableEq

structure State where
  operation : Option Operation := none
  /-- How many times the container was started, and whether it runs. -/
  runs : Nat := 0
  running : Bool := false
  /-- The code each run ended with, when Docker has one. -/
  exitCodes : Nat → Option Int := fun _ => none
  calls : Nat → Call := fun _ => .idle
  scans : Nat → Phase := fun _ => .idle
  audit : List Entry := []
  notifications : List Notification := []
  /-- A scan has raised. -/
  raised : Bool := false
  /-- Every operation left so far, and every one read by a scan. -/
  registered : List Operation := []
  unpacked : List Operation := []
  /-- The operations each scan found left by runs that had ended when it began. -/
  owes : Nat → List Operation := fun _ => []
  /-- What the scans that completed owed. -/
  due : List Operation := []

/-! ### The steps -/

def setScan (s : State) (i : Nat) (phase : Phase) : State :=
  { s with scans := Function.update s.scans i phase }

def setCall (s : State) (i : Nat) (call : Call) : State :=
  { s with calls := Function.update s.calls i call }

/-- `MinecraftUpdater.apply`, after the guards of `apply_update`.  A call starts once. -/
def start (call : Nat) (versionBefore : Option String) (steps : List String) (fate : Fate)
    (s : State) : State :=
  let started := { s with runs := s.runs + 1, running := true }
  let failed (s : State) := { s with audit := s.audit ++ [.updateError] }
  if s.calls call ≠ .idle then s
  else if s.running then failed s
  else match fate with
    | .done => setCall started call
      (.started (s.runs + 1) versionBefore (steps ++ ["mc-updater démarré"]))
    | .failed => failed s
    | .failedAfter => failed started

def register (call : Nat) (now : Int) (s : State) : State :=
  match s.calls call with
  | .idle => s
  | .started run versionBefore steps =>
    let op := ⟨now, versionBefore, run⟩
    { setCall s call .idle with
      operation := some op
      registered := s.registered ++ [op]
      audit := s.audit ++ [.updateStarted now]
      notifications := s.notifications ++
        [⟨"Mise à jour du serveur lancée", "; ".intercalate steps, "info"⟩] }

def ended (code : Option Int) (s : State) : State :=
  if s.running then
    { s with running := false, exitCodes := Function.update s.exitCodes s.runs code }
  else s

def State.isOver (s : State) (run : Nat) : Bool :=
  run < s.runs || (run == s.runs && !s.running)

/-- `if self._update_operation is None: return` -/
def check (i : Nat) (s : State) : State :=
  if s.scans i ≠ .idle then s
  else if s.operation = none then s
  else setScan s i .checked

/-- A state that cannot be read is never taken for an end. -/
def isRunning (i : Nat) (readable : Bool) (s : State) : State :=
  if s.scans i ≠ .checked then s
  else if s.running ∨ readable = false then setScan s i .idle
  else setScan s i .over

/-- `operation_id, version_before = self._update_operation` -/
def take (i : Nat) (s : State) : State :=
  if s.scans i ≠ .over then s
  else match s.operation with
    | none => { setScan s i .idle with raised := true }
    | some op => { setScan s i (.taken op) with unpacked := s.unpacked ++ [op] }

/-- `self._update_operation = None` -/
def clear (i : Nat) (s : State) : State :=
  match s.scans i with
  | .taken op => { setScan s i (.cleared op) with operation := none }
  | _ => s

/-- `MinecraftUpdater.exit_code`, nothing when it is unreadable or the updater runs. -/
def exitCode (readable : Bool) (s : State) : Option Int :=
  if readable = false ∨ s.running then none else s.exitCodes s.runs

def readExitCode (i : Nat) (readable : Bool) (s : State) : State :=
  match s.scans i with
  | .cleared op => setScan s i (.read op (exitCode readable s))
  | _ => s

def failedNotification (code : Int) : Notification :=
  ⟨"Mise à jour du serveur échouée",
    "Le conteneur de mise à jour s'est arrêté en erreur (code " ++ toString code ++ "). " ++
      "Le serveur n'a peut-être pas redémarré — vérifier son état.", "error"⟩

def doneNotification (versionBefore versionAfter : Option String) : Notification :=
  ⟨"Serveur mis à jour",
    match versionAfter, versionBefore with
    | some after, some before =>
      if after ≠ "" ∧ before ≠ "" ∧ after ≠ before then
        "Le serveur est passé de la version " ++ before ++ " à " ++ after ++ "."
      else if after ≠ "" then "Le serveur tourne en version " ++ after ++ "."
      else "Le serveur a été mis à jour."
    | some after, none =>
      if after ≠ "" then "Le serveur tourne en version " ++ after ++ "."
      else "Le serveur a été mis à jour."
    | none, _ => "Le serveur a été mis à jour.",
    "info"⟩

def versionText (versionAfter : Option String) : String :=
  match versionAfter with
  | none => "?"
  | some version => if version = "" then "?" else version

def outcome (op : Operation) (code : Option Int) (versionAfter : Option String) :
    Entry × Notification :=
  match code with
  | some code =>
    if code ≠ 0 then (.updateFailed code op.id, failedNotification code)
    else (.updateDone (versionText versionAfter) op.id,
      doneNotification op.versionBefore versionAfter)
  | none => (.updateDone (versionText versionAfter) op.id,
      doneNotification op.versionBefore versionAfter)

/-- The end of a scan; a journal that cannot be written makes it raise. -/
def record (i : Nat) (written : Bool) (versionAfter : Option String) (s : State) : State :=
  match s.scans i with
  | .read op code =>
    if written = false then { setScan s i .idle with raised := true }
    else
      { setScan s i .idle with
        audit := s.audit ++ [(outcome op code versionAfter).1]
        notifications := s.notifications ++ [(outcome op code versionAfter).2] }
  | _ => s

inductive Event where
  | start (call : Nat) (versionBefore : Option String) (steps : List String) (fate : Fate)
  | register (call : Nat) (now : Int)
  | ended (code : Option Int)
  | check (scan : Nat)
  | isRunning (scan : Nat) (readable : Bool)
  | take (scan : Nat)
  | clear (scan : Nat)
  | readExitCode (scan : Nat) (readable : Bool)
  | record (scan : Nat) (written : Bool) (versionAfter : Option String)

def act (s : State) : Event → State
  | .start call versionBefore steps fate => start call versionBefore steps fate s
  | .register call now => register call now s
  | .ended code => ended code s
  | .check i => check i s
  | .isRunning i readable => isRunning i readable s
  | .take i => take i s
  | .clear i => clear i s
  | .readExitCode i readable => readExitCode i readable s
  | .record i written versionAfter => record i written versionAfter s

/-- The scan that is over with a step, unless it found the updater at work. -/
def returned (s s' : State) : Event → Option Nat
  | .check i => if s.scans i = .idle ∧ s'.scans i = .idle then some i else none
  | .isRunning i _ =>
    if s.scans i ≠ .idle ∧ s'.scans i = .idle ∧ s.running = false then some i else none
  | .take i | .clear i | .readExitCode i _ | .record i _ _ =>
    if s.scans i ≠ .idle ∧ s'.scans i = .idle then some i else none
  | .start .. | .register .. | .ended _ => none

def owesAfter (s : State) : Event → Nat → List Operation
  | .check i =>
    if s.scans i = .idle then
      Function.update s.owes i (s.registered.filter fun op => s.isOver op.run)
    else s.owes
  | _ => s.owes

/-- What is due after a step that led from `s` to `s'`, whatever the scans did in it. -/
def observe (event : Event) (s s' : State) : State :=
  { s' with
    owes := owesAfter s event
    due := match returned s s' event with
      | some i => s.due ++ owesAfter s event i
      | none => s.due }

def step (s : State) (event : Event) : State := observe event s (act s event)

def init : State := {}

/-! ### What a run must satisfy -/

def Entry.concludes : Entry → Option Int
  | .updateFailed _ id => some id
  | .updateDone _ id => some id
  | _ => none

def conclusions (s : State) : List Int := s.audit.filterMap Entry.concludes

def Phase.holds : Phase → Option Operation
  | .taken op => some op
  | .cleared op => some op
  | .read op _ => some op
  | _ => none

/-- No scan has raised; each start of the container has left an operation, or is about to; no
operation is concluded twice, nor as done unless its own run ended with code zero; and an operation
whose run had ended before a scan that has completed is concluded, or about to be by the one scan
that has it. -/
structure Concluded (s : State) : Prop where
  calm : s.raised = false
  launched : ∀ run, 0 < run → run ≤ s.runs → (∃ op ∈ s.registered, op.run = run) ∨
    ∃ call versionBefore steps, s.calls call = .started run versionBefore steps
  once : ∀ op ∈ s.registered, (conclusions s).count op.id ≤ 1
  truthful : ∀ op ∈ s.registered, ∀ version, .updateDone version op.id ∈ s.audit →
    s.exitCodes op.run = some 0 ∧ s.isOver op.run
  concluded : ∀ op ∈ s.due,
    (conclusions s).count op.id = 1 ∨ ∃ i, (s.scans i).holds = some op

/-- The code the scan reads is there, and it is that of the run of its operation. -/
def ReadsOwnCode (s : State) (readable : Bool) : Phase → Prop
  | .cleared op => op.run = s.runs ∧ exitCode readable s ≠ none
  | _ => True

instance (s : State) (readable : Bool) : ∀ phase, Decidable (ReadsOwnCode s readable phase)
  | .cleared op => inferInstanceAs (Decidable (op.run = s.runs ∧ exitCode readable s ≠ none))
  | .idle | .checked | .over | .taken _ | .read _ _ => isTrue trivial

/-- A start that raises has started nothing; an operation is left when the one before has been
taken, and under an id of its own; the state of an updater that has ended can be read; a scan takes
what no scan has taken; it reads the code of the run it concludes. -/
def Undisturbed (s : State) : Event → Prop
  | .start _ _ _ fate => fate ≠ .failedAfter
  | .isRunning i readable => s.scans i = .checked → s.running = false → readable = true
  | .register call now => s.calls call ≠ .idle →
      s.operation = none ∧ now ∉ s.registered.map (·.id)
  | .take i => s.scans i = .over → ∃ op ∈ s.operation, op ∉ s.unpacked
  | .readExitCode i readable => ReadsOwnCode s readable (s.scans i)
  | .record i written _ => (s.scans i).holds ≠ none → written = true
  | _ => True

instance (s : State) (event : Event) : Decidable (Undisturbed s event) := by
  cases event <;> unfold Undisturbed <;> infer_instance

/-! ### The invariant -/

def Phase.past : Phase → Bool
  | .cleared _ => true
  | .read _ _ => true
  | _ => false

/-- Every operation left is pending, in the hands of one scan, or concluded once. -/
structure Invariant (s : State) : Prop where
  calm : s.raised = false
  launched : ∀ run, 0 < run → run ≤ s.runs → (∃ op ∈ s.registered, op.run = run) ∨
    ∃ call versionBefore steps, s.calls call = .started run versionBefore steps
  ids : (s.registered.map (·.id)).Nodup
  known : ∀ id ∈ conclusions s, id ∈ s.registered.map (·.id)
  pending : ∀ op ∈ s.operation, op ∈ s.registered ∧ op.id ∉ conclusions s ∧
    (op ∈ s.unpacked → ∃ i, s.scans i = .taken op)
  taken : ∀ i op, s.scans i = .taken op → s.operation = some op
  unpacked : ∀ op ∈ s.unpacked, op ∈ s.registered
  held : ∀ i, ∀ op ∈ (s.scans i).holds,
    op ∈ s.registered ∧ op ∈ s.unpacked ∧ op.id ∉ conclusions s
  unique : ∀ i j op, (s.scans i).holds = some op → (s.scans j).holds = some op → i = j
  read : ∀ i op code, s.scans i = .read op code →
    code ≠ none ∧ s.exitCodes op.run = code ∧ s.isOver op.run
  account : ∀ op ∈ s.registered, s.operation = some op ∨
    (∃ i, (s.scans i).holds = some op) ∨ op.id ∈ conclusions s
  once : (conclusions s).Nodup
  truthful : ∀ op ∈ s.registered, ∀ version, .updateDone version op.id ∈ s.audit →
    s.exitCodes op.run = some 0 ∧ s.isOver op.run
  owes : ∀ i, ∀ op ∈ s.owes i, op ∈ s.registered ∧
    ((s.scans i).past → s.operation ≠ some op)
  due : ∀ op ∈ s.due, op ∈ s.registered ∧ s.operation ≠ some op

theorem Invariant.init : Invariant init where
  calm := rfl
  launched _ hpositive hrun := absurd hpositive (Nat.not_lt.mpr hrun)
  ids := List.nodup_nil
  known := nofun
  pending := nofun
  taken := nofun
  unpacked := nofun
  held := nofun
  unique := nofun
  read := nofun
  account := nofun
  once := List.nodup_nil
  truthful := nofun
  owes := nofun
  due := nofun

theorem Invariant.concluded {s : State} (h : Invariant s) : Concluded s where
  calm := h.calm
  launched := h.launched
  once op _ := List.nodup_iff_count_le_one.mp h.once op.id
  truthful := h.truthful
  concluded := by
    intro op hop
    rcases h.due op hop with ⟨hregistered, hpending⟩
    rcases h.account op hregistered with h' | h' | h'
    · exact absurd h' hpending
    · exact .inr h'
    · exact .inl (List.count_eq_one_of_mem h.once h')

/-! ### What each step keeps -/

section

variable {s : State}

theorem Invariant.world (h : Invariant s) {runs : Nat} {running : Bool}
    {exitCodes : Nat → Option Int}
    (hworld : ∀ run, s.isOver run → (run < runs ∨ run = runs ∧ running = false) ∧
      exitCodes run = s.exitCodes run) (calls : Nat → Call)
    (hlaunched : ∀ run, 0 < run → run ≤ runs → (∃ op ∈ s.registered, op.run = run) ∨
      ∃ call versionBefore steps, calls call = .started run versionBefore steps) :
    Invariant
      { s with runs := runs, running := running, exitCodes := exitCodes, calls := calls } where
  calm := h.calm
  launched := hlaunched
  ids := h.ids
  known := h.known
  pending := h.pending
  taken := h.taken
  unpacked := h.unpacked
  held := h.held
  unique := h.unique
  read := by
    intro i op code hread
    rcases h.read i op code hread with ⟨hcode, hexit, hover⟩
    rcases hworld op.run hover with ⟨hover', hexit'⟩
    exact ⟨hcode, hexit'.trans hexit, by simpa [State.isOver] using hover'⟩
  account := h.account
  once := h.once
  truthful := by
    intro op hop version hmem
    rcases h.truthful op hop version hmem with ⟨hexit, hover⟩
    rcases hworld op.run hover with ⟨hover', hexit'⟩
    exact ⟨hexit'.trans hexit, by simpa [State.isOver] using hover'⟩
  owes := h.owes
  due := h.due

theorem Invariant.log (h : Invariant s) (entry : Entry) (hentry : entry.concludes = none)
    (notifications : List Notification) :
    Invariant { s with audit := s.audit ++ [entry], notifications := notifications } := by
  -- an entry that ends no operation leaves the conclusions as they are
  have hsame : (s.audit ++ [entry]).filterMap Entry.concludes = conclusions s := by
    rw [List.filterMap_append, List.filterMap_cons_none hentry, List.filterMap_nil,
      List.append_nil]
    rfl
  have hdone : ∀ version id, .updateDone version id ∈ s.audit ++ [entry] →
      Entry.updateDone version id ∈ s.audit := by
    intro version id hmem
    rcases List.mem_append.mp hmem with hmem | hmem
    · exact hmem
    · rw [← List.mem_singleton.mp hmem] at hentry
      cases hentry
  exact
    { calm := h.calm
      launched := h.launched
      ids := h.ids
      known := by
        simp only [conclusions]
        rw [hsame]
        exact h.known
      pending := by
        simp only [conclusions]
        rw [hsame]
        exact h.pending
      taken := h.taken
      unpacked := h.unpacked
      held := by
        simp only [conclusions]
        rw [hsame]
        exact h.held
      unique := h.unique
      read := h.read
      account := by
        simp only [conclusions]
        rw [hsame]
        exact h.account
      once := by
        simp only [conclusions]
        rw [hsame]
        exact h.once
      truthful := fun op hop version hmem => h.truthful op hop version (hdone version op.id hmem)
      owes := h.owes
      due := h.due }

theorem Invariant.start (h : Invariant s) (call : Nat) (versionBefore : Option String)
    (steps : List String) {fate : Fate}
    (hundisturbed : Undisturbed s (.start call versionBefore steps fate)) :
    Invariant (start call versionBefore steps fate s) := by
  simp only [UpdateOutcome.start]
  split
  · exact h
  · rename_i hidle
    split
    · exact h.log _ rfl _
    · cases fate with
      | failed => exact h.log _ rfl _
      | failedAfter => exact absurd rfl hundisturbed
      | done =>
        apply h.world
        · intro run hover
          refine ⟨?_, rfl⟩
          simp only [State.isOver, Bool.or_eq_true, decide_eq_true_eq, Bool.and_eq_true,
            beq_iff_eq] at hover
          have hlast : run ≤ s.runs := by omega
          exact .inl (Nat.lt_succ_of_le hlast)
        · intro run hpositive hrun
          rcases Nat.le_succ_iff.mp hrun with hrun | rfl
          · -- The earlier runs: another call had started them.
            rcases h.launched run hpositive hrun with hleft | ⟨other, version, steps', hother⟩
            · exact .inl hleft
            · refine .inr ⟨other, version, steps', ?_⟩
              rwa [Function.update_of_ne]
              rintro rfl
              rw [not_not.mp hidle] at hother
              cases hother
          · exact .inr ⟨call, versionBefore, steps ++ ["mc-updater démarré"],
              Function.update_self ..⟩

theorem Invariant.ended (h : Invariant s) (code : Option Int) : Invariant (ended code s) := by
  simp only [UpdateOutcome.ended]
  split
  · rename_i hrunning
    apply h.world _ _ h.launched
    intro run hover
    simp only [State.isOver] at hover
    simp only [hrunning, Bool.not_true, Bool.and_false, Bool.or_false, decide_eq_true_eq] at hover
    exact ⟨.inl hover, Function.update_of_ne (Nat.ne_of_lt hover) _ _⟩
  · exact h

theorem setScan_self (s : State) (i : Nat) (phase : Phase) :
    (setScan s i phase).scans i = phase :=
  Function.update_self _ _ _

theorem setScan_of_ne (s : State) {i j : Nat} (h : j ≠ i) (phase : Phase) :
    (setScan s i phase).scans j = s.scans j :=
  Function.update_of_ne h _ _

theorem setScan_cases (P : Phase → Prop) {i j : Nat} {phase : Phase}
    (h : P ((setScan s i phase).scans j)) : (j = i ∧ P phase) ∨ (j ≠ i ∧ P (s.scans j)) := by
  by_cases hj : j = i
  · rw [hj, setScan_self] at h
    exact .inl ⟨hj, h⟩
  · rw [setScan_of_ne s hj] at h
    exact .inr ⟨hj, h⟩

theorem Invariant.taken_setScan (h : Invariant s) {i : Nat} {phase : Phase}
    (hphase : ∀ op, phase = .taken op → s.operation = some op) (j : Nat) (op : Operation)
    (hj : (setScan s i phase).scans j = .taken op) : s.operation = some op := by
  rcases setScan_cases (· = .taken op) hj with ⟨-, hj⟩ | ⟨-, hj⟩
  · exact hphase op hj
  · exact h.taken j op hj

theorem Invariant.unique_setScan (h : Invariant s) {i : Nat} {phase : Phase}
    (hphase : ∀ op, phase.holds = some op → ∀ j, j ≠ i → (s.scans j).holds ≠ some op)
    (j k : Nat) (op : Operation) (hj : ((setScan s i phase).scans j).holds = some op)
    (hk : ((setScan s i phase).scans k).holds = some op) : j = k := by
  rcases setScan_cases (·.holds = some op) hj with ⟨rfl, hself⟩ | ⟨hji, hj'⟩
  · rcases setScan_cases (·.holds = some op) hk with ⟨rfl, -⟩ | ⟨hkj, hk'⟩
    · rfl
    · exact absurd hk' (hphase op hself k hkj)
  · rcases setScan_cases (·.holds = some op) hk with ⟨rfl, hself⟩ | ⟨-, hk'⟩
    · exact absurd hj' (hphase op hself j hji)
    · exact h.unique j k op hj' hk'

theorem Invariant.read_setScan (h : Invariant s) {i : Nat} {phase : Phase}
    (hphase : ∀ op code, phase = .read op code →
      code ≠ none ∧ s.exitCodes op.run = code ∧ s.isOver op.run)
    (j : Nat) (op : Operation) (code : Option Int)
    (hj : (setScan s i phase).scans j = .read op code) :
    code ≠ none ∧ s.exitCodes op.run = code ∧ s.isOver op.run := by
  rcases setScan_cases (· = .read op code) hj with ⟨-, hj⟩ | ⟨-, hj⟩
  · exact hphase op code hj
  · exact h.read j op code hj

theorem Invariant.owes_setScan (h : Invariant s) {i : Nat} {phase : Phase}
    (hphase : phase.past = false) (j : Nat) : ∀ op ∈ s.owes j, op ∈ s.registered ∧
      (((setScan s i phase).scans j).past → s.operation ≠ some op) := by
  intro op hop
  rcases h.owes j op hop with ⟨hregistered, hpast⟩
  refine ⟨hregistered, fun hp => ?_⟩
  rcases setScan_cases (·.past = true) hp with ⟨-, hp⟩ | ⟨-, hp⟩
  · rw [hphase] at hp
    cases hp
  · exact hpast hp

theorem not_past_of_holds_none {phase : Phase} (h : phase.holds = none) : phase.past = false := by
  cases phase <;> first | rfl | cases h

theorem ne_of_holds_none {phase phase' : Phase} {op : Operation} (h : phase.holds = none)
    (h' : phase'.holds = some op) : phase ≠ phase' := by
  rintro rfl
  rw [h] at h'
  cases h'

theorem Invariant.move (h : Invariant s) {i : Nat} {phase : Phase}
    (hbefore : (s.scans i).holds = none) (hafter : phase.holds = none) :
    Invariant (setScan s i phase) where
  calm := h.calm
  launched := h.launched
  ids := h.ids
  known := h.known
  pending := by
    intro op hop
    rcases h.pending op hop with ⟨hregistered, hopen, htaken⟩
    refine ⟨hregistered, hopen, fun hunpacked => ?_⟩
    rcases htaken hunpacked with ⟨j, hj⟩
    refine ⟨j, (setScan_of_ne s ?_ phase).trans hj⟩
    rintro rfl
    exact ne_of_holds_none hbefore rfl hj
  taken := h.taken_setScan fun op hphase => absurd hphase (ne_of_holds_none hafter rfl)
  unpacked := h.unpacked
  held := by
    intro j op hj
    rcases setScan_cases (op ∈ ·.holds) hj with ⟨-, hj⟩ | ⟨-, hj⟩
    · rw [hafter] at hj
      cases hj
    · exact h.held j op hj
  unique := by
    apply h.unique_setScan
    rw [hafter]
    nofun
  read := h.read_setScan fun op code hphase => absurd hphase (ne_of_holds_none hafter rfl)
  account := by
    intro op hop
    rcases h.account op hop with h' | ⟨j, hj⟩ | h'
    · exact .inl h'
    · have hji : j ≠ i := by
        rintro rfl
        rw [hbefore] at hj
        cases hj
      exact .inr (.inl ⟨j, by rw [setScan_of_ne s hji]; exact hj⟩)
    · exact .inr (.inr h')
  once := h.once
  truthful := h.truthful
  owes := h.owes_setScan (not_past_of_holds_none hafter)
  due := h.due

theorem Invariant.check (h : Invariant s) (i : Nat) : Invariant (check i s) := by
  simp only [UpdateOutcome.check]
  split
  · exact h
  · rename_i hidle
    split
    · exact h
    · exact h.move (by rw [not_not.mp hidle]; rfl) rfl

theorem Invariant.isRunning (h : Invariant s) (i : Nat) (readable : Bool) :
    Invariant (isRunning i readable s) := by
  simp only [UpdateOutcome.isRunning]
  split
  · exact h
  · rename_i hchecked
    have hnone : (s.scans i).holds = none := by
      rw [not_not.mp hchecked]
      rfl
    split
    · exact h.move hnone rfl
    · exact h.move hnone rfl

theorem Invariant.eq_of_id (h : Invariant s) {op op' : Operation} (hop : op ∈ s.registered)
    (hop' : op' ∈ s.registered) (hid : op.id = op'.id) : op = op' :=
  List.inj_on_of_nodup_map h.ids hop hop' hid

theorem Invariant.not_pending (h : Invariant s) {i : Nat} {op : Operation}
    (hop : (s.scans i).holds = some op) (hpast : (s.scans i).past) : s.operation ≠ some op := by
  intro hpending
  rcases h.held i op hop with ⟨-, hunpacked, -⟩
  rcases (h.pending op hpending).2.2 hunpacked with ⟨j, hj⟩
  have hji : j = i := h.unique j i op (by rw [hj]; rfl) hop
  rw [← hji, hj] at hpast
  cases hpast

theorem Invariant.left (h : Invariant s) {op : Operation} (hnone : s.operation = none)
    (hfresh : op.id ∉ s.registered.map (·.id)) {call : Nat} {versionBefore : Option String}
    {steps : List String} (hcall : s.calls call = .started op.run versionBefore steps) :
    Invariant { setCall s call .idle with
      operation := some op, registered := s.registered ++ [op] } := by
  -- nothing is said of the new operation yet: all that is known has another id
  have hnew : ∀ op' ∈ s.registered, op' ≠ op := by
    rintro op' hop' rfl
    exact hfresh (List.mem_map_of_mem hop')
  exact
    { calm := h.calm
      launched := by
        intro run hpositive hrun
        rcases h.launched run hpositive hrun with
          ⟨op', hop', hrun'⟩ | ⟨other, version, steps', hother⟩
        · exact .inl ⟨op', List.mem_append_left _ hop', hrun'⟩
        -- the run this call started is from now on the one of the operation it has left
        · by_cases heq : other = call
          · subst heq
            obtain ⟨rfl, -, -⟩ := Call.started.inj (hcall.symm.trans hother)
            exact .inl ⟨op, List.mem_append_right _ (List.mem_singleton_self _), rfl⟩
          · exact .inr ⟨other, version, steps', (Function.update_of_ne heq ..).trans hother⟩
      ids := by
        rw [List.map_append, List.map_singleton]
        exact List.nodup_append_comm.mp (List.nodup_cons.mpr ⟨hfresh, h.ids⟩)
      known := by
        intro id hid
        rw [List.map_append]
        exact List.mem_append_left _ (h.known id hid)
      pending := by
        rintro op' ⟨⟩
        refine ⟨List.mem_append_right _ (List.mem_singleton_self _), ?_, ?_⟩
        · intro hid
          exact hfresh (h.known op.id hid)
        · intro hunpacked
          exact absurd rfl (hnew _ (h.unpacked _ hunpacked))
      taken := by
        intro i op' hi
        have hpending := h.taken i op' hi
        rw [hnone] at hpending
        cases hpending
      unpacked := fun op' hop' => List.mem_append_left _ (h.unpacked op' hop')
      held := by
        intro i op' hop'
        rcases h.held i op' hop' with ⟨hregistered, hrest⟩
        exact ⟨List.mem_append_left _ hregistered, hrest⟩
      unique := h.unique
      read := h.read
      account := by
        intro op' hop'
        rcases List.mem_append.mp hop' with hop' | hop'
        · rcases h.account op' hop' with h' | h'
          · rw [hnone] at h'
            cases h'
          · exact .inr h'
        · rw [List.mem_singleton.mp hop']
          exact .inl rfl
      once := h.once
      truthful := by
        intro op' hop' version hmem
        rcases List.mem_append.mp hop' with hop' | hop'
        · exact h.truthful op' hop' version hmem
        · rw [List.mem_singleton.mp hop'] at hmem
          have hid : op.id ∈ conclusions s := List.mem_filterMap.mpr ⟨_, hmem, rfl⟩
          exact absurd (h.known op.id hid) hfresh
      owes := by
        intro i op' hop'
        rcases h.owes i op' hop' with ⟨hregistered, -⟩
        refine ⟨List.mem_append_left _ hregistered, fun _ hpending => ?_⟩
        exact hnew op' hregistered (Option.some.inj hpending).symm
      due := by
        intro op' hop'
        rcases h.due op' hop' with ⟨hregistered, -⟩
        refine ⟨List.mem_append_left _ hregistered, fun hpending => ?_⟩
        exact hnew op' hregistered (Option.some.inj hpending).symm }

theorem Invariant.register (h : Invariant s) {call : Nat} {now : Int}
    (hundisturbed : Undisturbed s (.register call now)) :
    Invariant (register call now s) := by
  simp only [UpdateOutcome.register]
  split
  · exact h
  · rename_i run versionBefore steps hcall
    rcases hundisturbed (by rw [hcall]; nofun) with ⟨hnone, hfresh⟩
    have hleft : Invariant { setCall s call .idle with
        operation := some ⟨now, versionBefore, run⟩
        registered := s.registered ++ [⟨now, versionBefore, run⟩] } := h.left hnone hfresh hcall
    exact hleft.log (.updateStarted now) rfl
      (s.notifications ++ [⟨"Mise à jour du serveur lancée", "; ".intercalate steps, "info"⟩])

theorem Invariant.taking (h : Invariant s) {i : Nat} {op : Operation} (hover : s.scans i = .over)
    (hop : s.operation = some op) (hnew : op ∉ s.unpacked) :
    Invariant { setScan s i (.taken op) with unpacked := s.unpacked ++ [op] } := by
  rcases h.pending op hop with ⟨hregistered, hopen, -⟩
  exact
    { calm := h.calm
      launched := h.launched
      ids := h.ids
      known := h.known
      pending := by
        intro op' hop'
        obtain rfl : op = op' := Option.some.inj (hop.symm.trans hop')
        exact ⟨hregistered, hopen, fun _ => ⟨i, setScan_self s i _⟩⟩
      taken := by
        apply h.taken_setScan
        rintro op' ⟨⟩
        exact hop
      unpacked := by
        intro op' hop'
        rcases List.mem_append.mp hop' with hop' | hop'
        · exact h.unpacked op' hop'
        · rw [List.mem_singleton.mp hop']
          exact hregistered
      held := by
        intro j op' hj
        rcases setScan_cases (op' ∈ ·.holds) hj with ⟨-, hj⟩ | ⟨-, hj⟩
        · obtain rfl : op = op' := Option.some.inj hj
          exact ⟨hregistered, List.mem_append_right _ (List.mem_singleton_self _), hopen⟩
        · rcases h.held j op' hj with ⟨hreg, hunpacked, hopen'⟩
          exact ⟨hreg, List.mem_append_left _ hunpacked, hopen'⟩
      unique := by
        apply h.unique_setScan
        intro op' hphase j _ hj
        obtain rfl : op = op' := Option.some.inj hphase
        -- two scans with one operation would both have taken it
        exact hnew (h.held j op hj).2.1
      read := by
        apply h.read_setScan
        nofun
      account := by
        intro op' hop'
        rcases h.account op' hop' with h' | ⟨j, hj⟩ | h'
        · exact .inl h'
        · have hji : j ≠ i := by
            rintro rfl
            rw [hover] at hj
            cases hj
          refine .inr (.inl ⟨j, ?_⟩)
          exact (congrArg Phase.holds (setScan_of_ne s hji _)).trans hj
        · exact .inr (.inr h')
      once := h.once
      truthful := h.truthful
      owes := h.owes_setScan rfl
      due := h.due }

theorem Invariant.take (h : Invariant s) {i : Nat} (hundisturbed : Undisturbed s (.take i)) :
    Invariant (take i s) := by
  simp only [UpdateOutcome.take]
  split
  · exact h
  · rename_i hover
    have hover : s.scans i = .over := not_not.mp hover
    rcases hundisturbed hover with ⟨op, hop, hnew⟩
    have hop : s.operation = some op := hop
    rw [hop]
    exact h.taking hover hop hnew

theorem Invariant.advance (h : Invariant s) {i : Nat} {op : Operation} {phase : Phase}
    (operation : Option Operation) (hop : (s.scans i).holds = some op)
    (hphase : phase.holds = some op) (htaken : ∀ op', phase ≠ .taken op')
    (hread : ∀ op' code, phase = .read op' code →
      code ≠ none ∧ s.exitCodes op'.run = code ∧ s.isOver op'.run)
    (hpending : ∀ op', operation = some op' → s.operation = some op' ∧ s.scans i ≠ .taken op')
    (hothers : ∀ j op', j ≠ i → s.scans j = .taken op' → operation = some op')
    (haccount : ∀ op', s.operation = some op' → operation = some op' ∨ op' = op)
    (hself : operation ≠ none → (s.scans i).past) :
    Invariant { setScan s i phase with operation := operation } := by
  -- the scan goes on with the operation it had, so that nobody holds another one
  have hholds : ∀ j, ((setScan s i phase).scans j).holds = (s.scans j).holds := by
    intro j
    by_cases hji : j = i
    · rw [hji, setScan_self, hphase, hop]
    · rw [setScan_of_ne s hji]
  exact
    { calm := h.calm
      launched := h.launched
      ids := h.ids
      known := h.known
      pending := by
        intro op' hop'
        rcases hpending op' hop' with ⟨hpending', hnot⟩
        rcases h.pending op' hpending' with ⟨hregistered, hopen, hunpacked⟩
        refine ⟨hregistered, hopen, fun hmem => ?_⟩
        rcases hunpacked hmem with ⟨j, hj⟩
        refine ⟨j, (setScan_of_ne s ?_ phase).trans hj⟩
        rintro rfl
        exact hnot hj
      taken := by
        intro j op' hj
        rcases setScan_cases (· = .taken op') hj with ⟨-, hj⟩ | ⟨hji, hj⟩
        · exact absurd hj (htaken op')
        · exact hothers j op' hji hj
      unpacked := h.unpacked
      held := fun j op' hj => h.held j op' ((hholds j).symm.trans hj)
      unique := fun j k op' hj hk =>
        h.unique j k op' ((hholds j).symm.trans hj) ((hholds k).symm.trans hk)
      read := h.read_setScan hread
      account := by
        intro op' hop'
        rcases h.account op' hop' with h' | ⟨j, hj⟩ | h'
        · rcases haccount op' h' with h'' | rfl
          · exact .inl h''
          · exact .inr (.inl ⟨i, (hholds i).trans hop⟩)
        · exact .inr (.inl ⟨j, (hholds j).trans hj⟩)
        · exact .inr (.inr h')
      once := h.once
      truthful := h.truthful
      owes := by
        intro j op' hop'
        rcases h.owes j op' hop' with ⟨hregistered, hpast⟩
        refine ⟨hregistered, fun hp hpending' => ?_⟩
        have hbefore : s.operation = some op' := (hpending op' hpending').1
        rcases setScan_cases (·.past = true) hp with ⟨rfl, -⟩ | ⟨-, hp⟩
        · refine hpast (hself ?_) hbefore
          rw [show operation = some op' from hpending']
          nofun
        · exact hpast hp hbefore
      due := by
        intro op' hop'
        rcases h.due op' hop' with ⟨hregistered, hnot⟩
        exact ⟨hregistered, fun hop'' => hnot (hpending op' hop'').1⟩ }

theorem Invariant.clear (h : Invariant s) (i : Nat) : Invariant (clear i s) := by
  simp only [UpdateOutcome.clear]
  split
  · rename_i op htaken
    have hop := h.taken i op htaken
    have hholds : (s.scans i).holds = some op := by
      rw [htaken]
      rfl
    refine h.advance none hholds rfl ?_ ?_ ?_ ?_ ?_ ?_
    · intro op' hphase
      cases hphase
    · intro op' code hphase
      cases hphase
    · intro op' hop'
      cases hop'
    · intro j op' hj htaken'
      have hop' := h.taken j op' htaken'
      obtain rfl : op = op' := Option.some.inj (hop.symm.trans hop')
      exact absurd (h.unique j i op (by rw [htaken']; rfl) hholds) hj
    · intro op' hop'
      exact .inr (Option.some.inj (hop'.symm.trans hop))
    · intro hnone
      exact absurd rfl hnone
  · exact h

theorem Invariant.readExitCode (h : Invariant s) {i : Nat} {readable : Bool}
    (hundisturbed : Undisturbed s (.readExitCode i readable)) :
    Invariant (readExitCode i readable s) := by
  simp only [UpdateOutcome.readExitCode]
  split
  · rename_i op hcleared
    simp only [Undisturbed, hcleared, ReadsOwnCode] at hundisturbed
    rcases hundisturbed with ⟨hrun, hcode⟩
    -- a code that was read is the one of a container that has stopped
    have hidle : ¬ (readable = false ∨ s.running = true) := by
      intro hbusy
      simp only [exitCode] at hcode
      rw [if_pos hbusy] at hcode
      exact hcode rfl
    have hexit : exitCode readable s = s.exitCodes op.run := by
      simp only [exitCode]
      rw [if_neg hidle, hrun]
    have hover : s.isOver op.run = true := by
      rw [not_or] at hidle
      simp [State.isOver, hrun, hidle.2]
    have hholds : (s.scans i).holds = some op := by
      rw [hcleared]
      rfl
    refine h.advance s.operation hholds rfl ?_ ?_ ?_ ?_ (fun op' hop' => .inl hop') ?_
    · intro op' hphase
      cases hphase
    · rintro op' code ⟨⟩
      exact ⟨hcode, hexit.symm, hover⟩
    · intro op' hop'
      refine ⟨hop', ?_⟩
      rw [hcleared]
      nofun
    · intro j op' _ hj
      exact h.taken j op' hj
    · intro _
      rw [hcleared]
      rfl
  · exact h

theorem outcome_concludes (op : Operation) (code : Option Int) (versionAfter : Option String) :
    (outcome op code versionAfter).1.concludes = some op.id := by
  simp only [outcome]
  split
  · split <;> rfl
  · rfl

theorem outcome_done {op : Operation} {code : Option Int} {versionAfter : Option String}
    (hcode : code ≠ none) {version : String} {id : Int}
    (h : (outcome op code versionAfter).1 = .updateDone version id) : code = some 0 := by
  cases code with
  | none => exact absurd rfl hcode
  | some code =>
    simp only [outcome] at h
    by_cases hzero : code = 0
    · rw [hzero]
    · simp [hzero] at h

theorem Invariant.open_of_ne (h : Invariant s) {op op' : Operation} (hop : op ∈ s.registered)
    (hop' : op' ∈ s.registered) (hne : op' ≠ op) (hopen : op'.id ∉ conclusions s) :
    op'.id ∉ conclusions s ++ [op.id] := by
  intro hid
  rcases List.mem_append.mp hid with hid | hid
  · exact hopen hid
  · exact hne (h.eq_of_id hop' hop (List.mem_singleton.mp hid))

theorem Invariant.truthful_outcome (h : Invariant s) {i : Nat} {op : Operation}
    {code : Option Int} (hscan : s.scans i = .read op code) (hop : op ∈ s.registered)
    (versionAfter : Option String) : ∀ op' ∈ s.registered, ∀ version,
      .updateDone version op'.id ∈ s.audit ++ [(outcome op code versionAfter).1] →
      s.exitCodes op'.run = some 0 ∧ s.isOver op'.run := by
  intro op' hop' version hmem
  rcases h.read i op code hscan with ⟨hcode, hexit, hover⟩
  rcases List.mem_append.mp hmem with hmem | hmem
  · exact h.truthful op' hop' version hmem
  · have hentry := (List.mem_singleton.mp hmem).symm
    have hid := outcome_concludes op code versionAfter
    rw [hentry] at hid
    obtain rfl := h.eq_of_id hop' hop (Option.some.inj hid)
    exact ⟨hexit.trans (outcome_done hcode hentry), hover⟩

theorem Invariant.recorded (h : Invariant s) {i : Nat} {op : Operation} {code : Option Int}
    (hscan : s.scans i = .read op code) (versionAfter : Option String)
    (notifications : List Notification) :
    Invariant { setScan s i .idle with
      audit := s.audit ++ [(outcome op code versionAfter).1]
      notifications := notifications } := by
  have hholds : (s.scans i).holds = some op := by
    rw [hscan]
    rfl
  have hpast : (s.scans i).past = true := by
    rw [hscan]
    rfl
  rcases h.held i op hholds with ⟨hregistered, hunpacked, hopen⟩
  have hconclusions : (s.audit ++ [(outcome op code versionAfter).1]).filterMap
      Entry.concludes = conclusions s ++ [op.id] := by
    rw [List.filterMap_append, List.filterMap_cons_some (outcome_concludes op code versionAfter)]
    rfl
  -- Only this scan held the operation, and it was open: it is concluded now, nothing else moves.
  exact
    { calm := h.calm
      launched := h.launched
      ids := h.ids
      known := by
        rw [conclusions, hconclusions]
        intro id hid
        rcases List.mem_append.mp hid with hid | hid
        · exact h.known id hid
        · rw [List.mem_singleton.mp hid]
          exact List.mem_map_of_mem hregistered
      pending := by
        rw [conclusions, hconclusions]
        intro op' hop'
        rcases h.pending op' hop' with ⟨hreg, hopen', htaken⟩
        -- a pending operation is another one: the scan has cleared its own
        have hne : op' ≠ op := by
          rintro rfl
          exact h.not_pending hholds hpast hop'
        refine ⟨hreg, h.open_of_ne hregistered hreg hne hopen', fun hmem => ?_⟩
        rcases htaken hmem with ⟨j, hj⟩
        refine ⟨j, (setScan_of_ne s ?_ .idle).trans hj⟩
        rintro rfl
        rw [hscan] at hj
        cases hj
      taken := by
        apply h.taken_setScan
        nofun
      unpacked := h.unpacked
      held := by
        rw [conclusions, hconclusions]
        intro j op' hj
        rcases setScan_cases (op' ∈ ·.holds) hj with ⟨-, hidle⟩ | ⟨hji, hother⟩
        · cases hidle
        · rcases h.held j op' hother with ⟨hreg, hunp, hopen'⟩
          refine ⟨hreg, hunp, h.open_of_ne hregistered hreg ?_ hopen'⟩
          rintro rfl
          exact hji (h.unique j i op' hother hholds)
      unique := by
        apply h.unique_setScan
        nofun
      read := by
        apply h.read_setScan
        nofun
      account := by
        rw [conclusions, hconclusions]
        intro op' hop'
        rcases h.account op' hop' with h' | ⟨j, hj⟩ | h'
        · exact .inl h'
        -- what this scan accounted for is now accounted for by the log
        · by_cases hji : j = i
          · rw [hji] at hj
            obtain rfl : op = op' := Option.some.inj (hholds.symm.trans hj)
            exact .inr (.inr (List.mem_append_right _ (List.mem_singleton_self _)))
          · refine .inr (.inl ⟨j, ?_⟩)
            exact (congrArg Phase.holds (setScan_of_ne s hji .idle)).trans hj
        · exact .inr (.inr (List.mem_append_left _ h'))
      once := by
        rw [conclusions, hconclusions]
        exact List.nodup_append_comm.mp (List.nodup_cons.mpr ⟨hopen, h.once⟩)
      truthful := h.truthful_outcome hscan hregistered versionAfter
      owes := h.owes_setScan rfl
      due := h.due }

theorem Invariant.record (h : Invariant s) {i : Nat} {written : Bool}
    {versionAfter : Option String} (hundisturbed : Undisturbed s (.record i written versionAfter)) :
    Invariant (record i written versionAfter s) := by
  simp only [UpdateOutcome.record]
  split
  · rename_i op code hscan
    have hwritten : written = true := hundisturbed (by rw [hscan]; nofun)
    rw [if_neg (by rw [hwritten]; nofun)]
    exact h.recorded hscan versionAfter _
  · exact h

theorem Invariant.act (h : Invariant s) {event : Event} (hundisturbed : Undisturbed s event) :
    Invariant (act s event) := by
  cases event with
  | start call versionBefore steps fate => exact h.start call versionBefore steps hundisturbed
  | register call now => exact h.register hundisturbed
  | ended code => exact h.ended code
  | check i => exact h.check i
  | isRunning i readable => exact h.isRunning i readable
  | take i => exact h.take hundisturbed
  | clear i => exact h.clear i
  | readExitCode i readable => exact h.readExitCode hundisturbed
  | record i written versionAfter => exact h.record hundisturbed

/-! ### What a scan that returns leaves -/

theorem observed_act (s : State) (event : Event) :
    (act s event).owes = s.owes ∧ (act s event).due = s.due := by
  cases event with
  | start call versionBefore steps fate =>
    simp only [UpdateOutcome.act, UpdateOutcome.start]
    split
    · exact ⟨rfl, rfl⟩
    · split
      · exact ⟨rfl, rfl⟩
      · cases fate <;> exact ⟨rfl, rfl⟩
  | register call now =>
    simp only [UpdateOutcome.act, UpdateOutcome.register]
    split <;> exact ⟨rfl, rfl⟩
  | ended code =>
    simp only [UpdateOutcome.act, UpdateOutcome.ended]
    split <;> exact ⟨rfl, rfl⟩
  | check i =>
    simp only [UpdateOutcome.act, UpdateOutcome.check]
    split_ifs <;> exact ⟨rfl, rfl⟩
  | isRunning i readable =>
    simp only [UpdateOutcome.act, UpdateOutcome.isRunning]
    split_ifs <;> exact ⟨rfl, rfl⟩
  | take i =>
    simp only [UpdateOutcome.act, UpdateOutcome.take]
    split
    · exact ⟨rfl, rfl⟩
    · split <;> exact ⟨rfl, rfl⟩
  | clear i =>
    simp only [UpdateOutcome.act, UpdateOutcome.clear]
    split <;> exact ⟨rfl, rfl⟩
  | readExitCode i readable =>
    simp only [UpdateOutcome.act, UpdateOutcome.readExitCode]
    split <;> exact ⟨rfl, rfl⟩
  | record i written versionAfter =>
    simp only [UpdateOutcome.act, UpdateOutcome.record]
    split
    · split <;> exact ⟨rfl, rfl⟩
    · exact ⟨rfl, rfl⟩

theorem registered_act (s : State) (event : Event) {op : Operation} (hop : op ∈ s.registered) :
    op ∈ (act s event).registered := by
  cases event with
  | start call versionBefore steps fate =>
    simp only [UpdateOutcome.act, UpdateOutcome.start]
    split
    · exact hop
    · split
      · exact hop
      · cases fate <;> exact hop
  | register call now =>
    simp only [UpdateOutcome.act, UpdateOutcome.register]
    split
    · exact hop
    · exact List.mem_append_left _ hop
  | ended code =>
    simp only [UpdateOutcome.act, UpdateOutcome.ended]
    split <;> exact hop
  | check i =>
    simp only [UpdateOutcome.act, UpdateOutcome.check]
    split_ifs <;> exact hop
  | isRunning i readable =>
    simp only [UpdateOutcome.act, UpdateOutcome.isRunning]
    split_ifs <;> exact hop
  | take i =>
    simp only [UpdateOutcome.act, UpdateOutcome.take]
    split
    · exact hop
    · split <;> exact hop
  | clear i =>
    simp only [UpdateOutcome.act, UpdateOutcome.clear]
    split <;> exact hop
  | readExitCode i readable =>
    simp only [UpdateOutcome.act, UpdateOutcome.readExitCode]
    split <;> exact hop
  | record i written versionAfter =>
    simp only [UpdateOutcome.act, UpdateOutcome.record]
    split
    · split <;> exact hop
    · exact hop

theorem pending_of_check {i : Nat} (hidle : s.scans i = .idle)
    (hreturned : (check i s).scans i = .idle) : (check i s).operation = none := by
  simp only [UpdateOutcome.check] at hreturned ⊢
  rw [if_neg (not_not.mpr hidle)] at hreturned ⊢
  split at hreturned
  · rename_i hnone
    rw [if_pos hnone]
    exact hnone
  · rw [setScan_self] at hreturned
    cases hreturned

theorem goes_on_of_isRunning {i : Nat} {readable : Bool}
    (hundisturbed : Undisturbed s (.isRunning i readable)) (hover : s.running = false)
    (hbusy : s.scans i ≠ .idle) : (isRunning i readable s).scans i ≠ .idle := by
  simp only [UpdateOutcome.isRunning]
  split
  · exact hbusy
  · rename_i hchecked
    rw [hover, hundisturbed (not_not.mp hchecked) hover, if_neg (by decide), setScan_self]
    nofun

theorem goes_on_of_take {i : Nat} (hundisturbed : Undisturbed s (.take i))
    (hbusy : s.scans i ≠ .idle) : (take i s).scans i ≠ .idle := by
  simp only [UpdateOutcome.take]
  split
  · exact hbusy
  · rename_i hover
    rcases hundisturbed (not_not.mp hover) with ⟨op, hop, -⟩
    have hop : s.operation = some op := hop
    rw [hop]
    have hafter : (setScan s i (.taken op)).scans i ≠ .idle := by
      rw [setScan_self]
      nofun
    exact hafter

theorem goes_on_of_clear {i : Nat} (hbusy : s.scans i ≠ .idle) :
    (clear i s).scans i ≠ .idle := by
  simp only [UpdateOutcome.clear]
  split
  · rename_i op _
    have hafter : (setScan s i (.cleared op)).scans i ≠ .idle := by
      rw [setScan_self]
      nofun
    exact hafter
  · exact hbusy

theorem goes_on_of_readExitCode {i : Nat} (readable : Bool) (hbusy : s.scans i ≠ .idle) :
    (readExitCode i readable s).scans i ≠ .idle := by
  simp only [UpdateOutcome.readExitCode]
  split
  · rw [setScan_self]
    nofun
  · exact hbusy

theorem past_of_record {i : Nat} {written : Bool} {versionAfter : Option String}
    (hbusy : s.scans i ≠ .idle) (hreturned : (record i written versionAfter s).scans i = .idle) :
    (s.scans i).past ∧ (record i written versionAfter s).operation = s.operation := by
  simp only [UpdateOutcome.record] at hreturned ⊢
  split at hreturned
  · rename_i op code hscan
    rw [hscan]
    refine ⟨rfl, ?_⟩
    split <;> rfl
  · exact absurd hreturned hbusy

theorem Invariant.free_of_returned (h : Invariant s) {event : Event}
    (hundisturbed : Undisturbed s event) {i : Nat}
    (hreturned : returned s (UpdateOutcome.act s event) event = some i) :
    ∀ op ∈ owesAfter s event i,
      op ∈ s.registered ∧ (UpdateOutcome.act s event).operation ≠ some op := by
  intro op hop
  cases event with
  | start call versionBefore steps fate => cases hreturned
  | register call now => cases hreturned
  | ended code => cases hreturned
  | check j =>
    obtain ⟨⟨hidle, hafter⟩, ⟨⟩⟩ := Option.ite_none_right_eq_some.mp hreturned
    simp only [owesAfter, if_pos hidle, Function.update_self] at hop
    refine ⟨List.mem_of_mem_filter hop, ?_⟩
    have hnone : (UpdateOutcome.act s (.check i)).operation = none := pending_of_check hidle hafter
    rw [hnone]
    nofun
  | isRunning j readable =>
    obtain ⟨⟨hbusy, hafter, hover⟩, ⟨⟩⟩ := Option.ite_none_right_eq_some.mp hreturned
    exact absurd hafter (goes_on_of_isRunning hundisturbed hover hbusy)
  | take j =>
    obtain ⟨⟨hbusy, hafter⟩, ⟨⟩⟩ := Option.ite_none_right_eq_some.mp hreturned
    exact absurd hafter (goes_on_of_take hundisturbed hbusy)
  | clear j =>
    obtain ⟨⟨hbusy, hafter⟩, ⟨⟩⟩ := Option.ite_none_right_eq_some.mp hreturned
    exact absurd hafter (goes_on_of_clear hbusy)
  | readExitCode j readable =>
    obtain ⟨⟨hbusy, hafter⟩, ⟨⟩⟩ := Option.ite_none_right_eq_some.mp hreturned
    exact absurd hafter (goes_on_of_readExitCode readable hbusy)
  | record j written versionAfter =>
    obtain ⟨⟨hbusy, hafter⟩, ⟨⟩⟩ := Option.ite_none_right_eq_some.mp hreturned
    rcases past_of_record hbusy hafter with ⟨hpast, hsame⟩
    rcases h.owes i op hop with ⟨hregistered, hnot⟩
    refine ⟨hregistered, ?_⟩
    have hsame : (UpdateOutcome.act s (.record i written versionAfter)).operation =
      s.operation := hsame
    rw [hsame]
    exact hnot hpast

theorem not_past_of_check {i : Nat} (hidle : s.scans i = .idle) :
    ((check i s).scans i).past = false := by
  simp only [UpdateOutcome.check]
  rw [if_neg (not_not.mpr hidle)]
  split
  · rw [hidle]
    rfl
  · rw [setScan_self]
    rfl

theorem Invariant.owes_step {event : Event} (h : Invariant (UpdateOutcome.act s event)) (i : Nat) :
    ∀ op ∈ owesAfter s event i, op ∈ (UpdateOutcome.act s event).registered ∧
      (((UpdateOutcome.act s event).scans i).past →
        (UpdateOutcome.act s event).operation ≠ some op) := by
  intro op hop
  have hkept : op ∈ s.owes i → op ∈ (UpdateOutcome.act s event).registered ∧
      (((UpdateOutcome.act s event).scans i).past →
        (UpdateOutcome.act s event).operation ≠ some op) := by
    intro hop
    rw [← (observed_act s event).1] at hop
    exact h.owes i op hop
  cases event with
  | check j =>
    by_cases hbegun : s.scans j = .idle ∧ i = j
    · rcases hbegun with ⟨hidle, rfl⟩
      simp only [owesAfter, if_pos hidle, Function.update_self] at hop
      refine ⟨registered_act s (.check i) (List.mem_of_mem_filter hop), fun hpast => ?_⟩
      have hnot : ((UpdateOutcome.act s (.check i)).scans i).past = false := not_past_of_check hidle
      rw [hnot] at hpast
      cases hpast
    · apply hkept
      simp only [owesAfter] at hop
      split at hop
      · rename_i hidle
        rwa [Function.update_of_ne fun hij => hbegun ⟨hidle, hij⟩] at hop
      · exact hop
  | start call versionBefore steps fate => exact hkept hop
  | register call now => exact hkept hop
  | ended code => exact hkept hop
  | isRunning j readable => exact hkept hop
  | take j => exact hkept hop
  | clear j => exact hkept hop
  | readExitCode j readable => exact hkept hop
  | record j written versionAfter => exact hkept hop

theorem Invariant.step (h : Invariant s) {event : Event} (hundisturbed : Undisturbed s event) :
    Invariant (step s event) := by
  have hact := h.act hundisturbed
  have hobserved := observed_act s event
  exact
    { calm := hact.calm
      launched := hact.launched
      ids := hact.ids
      known := hact.known
      pending := hact.pending
      taken := hact.taken
      unpacked := hact.unpacked
      held := hact.held
      unique := hact.unique
      read := hact.read
      account := hact.account
      once := hact.once
      truthful := hact.truthful
      owes := hact.owes_step
      due := by
        intro op hop
        simp only [UpdateOutcome.step, observe] at hop
        cases hreturned : returned s (UpdateOutcome.act s event) event with
        | none =>
          rw [hreturned, ← hobserved.2] at hop
          exact hact.due op hop
        | some i =>
          rw [hreturned, ← hobserved.2] at hop
          rcases List.mem_append.mp hop with hop | hop
          · exact hact.due op hop
          · rcases h.free_of_returned hundisturbed hreturned op hop with ⟨hregistered, hnot⟩
            exact ⟨registered_act s event hregistered, hnot⟩ }

end

/-! ### Whole runs -/

end UpdateOutcome
