import Mathlib.Data.List.Infix
import McAdmin.AuditDetails
import McAdmin.AuditJournal
import McAdmin.NewestFirst
import McAdmin.Pattern

/-!
# The rows of the journal

The page of the audit folds the entries that share an operation into one row, a group with one
step for each of them, and shows how the operation went: what it knows of it are the phases that
end an operation well, the outcomes of the steps, and one phase that cancels.
-/

namespace AuditRows

open AuditDetails (parseDetail)
open AuditJournal (Entry)
open Backtracking (CharTable Pattern)
open Calendar (Time)
open PlainText ShellWords

/-! ### What is shown of an entry -/

def phaseLabels : List (String × String) :=
  [("restore_requested", "Restauration demandée"),
   ("restore_rejected", "Restauration refusée"),
   ("restore_unavailable", "Restauration indisponible"),
   ("security_backup_started", "Sauvegarde de sécurité lancée"),
   ("security_backup_done", "Sauvegarde de sécurité terminée"),
   ("security_backup_failed", "Sauvegarde de sécurité échouée"),
   ("restore_pending", "Restauration en attente"),
   ("restore_started", "Restauration lancée"),
   ("restore_done", "Archive restaurée"),
   ("minecraft_restarting", "Redémarrage de Minecraft"),
   ("minecraft_unhealthy_timeout", "Minecraft n'a pas redémarré à temps"),
   ("minecraft_healthy", "Minecraft est de nouveau en ligne"),
   ("restore_completed", "Restauration terminée"),
   ("restore_failed", "Restauration échouée"),
   ("backup_started", "Sauvegarde lancée"),
   ("backup_done", "Archive produite"),
   ("backup_failed", "Aucune archive produite"),
   ("restart_scheduled", "Redémarrage programmé"),
   ("restart_cancelled", "Programmation annulée"),
   ("restart_started", "Redémarrage lancé"),
   ("restart_done", "Serveur redémarré"),
   ("op_levels_started", "Application des niveaux OP lancée"),
   ("op_levels_applied", "Niveaux OP appliqués, Minecraft en ligne"),
   ("op_levels_failed", "Niveaux OP non appliqués"),
   ("first_account", "Premier compte créé"),
   ("account_created", "Compte créé"),
   ("password_reset", "Mot de passe réinitialisé"),
   ("role_changed", "Rôle modifié"),
   ("account_deleted", "Compte supprimé"),
   ("twofa_reset", "Double authentification réinitialisée")]

def familyByAction : List (String × String) :=
  [("RESTART", "server"), ("START", "server"), ("STOP", "server"),
   ("UPDATE", "server"), ("RCON_RAW", "server"),
   ("BACKUP_TRIGGER", "backup"), ("BACKUP_DOWNLOAD", "backup"),
   ("BACKUP_RESTORE", "backup"), ("BACKUP_RETENTION", "backup"),
   ("KICK", "players"), ("BAN_MANAGE", "players"),
   ("WHITELIST_MANAGE", "players"), ("OP_MANAGE", "players"),
   ("GAME_SETTINGS", "game")]

def groupTitles : List (String × String) :=
  [("BACKUP_RESTORE", "Restauration du serveur"),
   ("RESTART", "Redémarrage programmé"),
   ("START", "Démarrage du serveur")]

def backupKindTitles : List (String × String) :=
  [("manual", "Sauvegarde manuelle"), ("scheduled", "Sauvegarde automatique")]

/-- `table.get(key, default)` -/
def get (table : List (String × String)) (key default : Text) : Text :=
  ((table.find? fun row => row.1.toList == key).map fun row => row.2.toList).getD default

/-- `phase.replace("_", " ")` -/
def spaced (phase : Text) : Text := phase.map fun c => if c = '_' then ' ' else c

def phaseLabel (phase : Text) : Text := get phaseLabels phase (spaced phase)

def family (e : Entry) : Text :=
  if e.outcome = "denied".toList then "security".toList
  else get familyByAction e.action "other".toList

/-- `fields.get(key, "")` -/
def fieldOr (fields : Dict Text Text) (key : String) : Text := (fields.lookup key.toList).getD []

/-- `text.replace(old, new)`, where so many characters have been replaced already. -/
def replaceFrom (old new : Text) : ℕ → Text → Text
  | _, [] => []
  | 0, c :: t =>
    if old.isPrefixOf (c :: t) then new ++ replaceFrom old new (old.length - 1) t
    else c :: replaceFrom old new 0 t
  | replaced + 1, _ :: t => replaceFrom old new replaced t

/-- `\w+` -/
def word (u : CharTable) : Pattern := .many true u.isWord 1 none

/-- `(?: \((.*)\))?` -/
def inBrackets : Pattern :=
  .opt (.str " (" ++ .group (.many true (· != '\n') 0 none) ++ .str ")")

def kickRe (u : CharTable) : Pattern := .str "kick " ++ .group (word u) ++ inBrackets ++ .stop

def banRe (u : CharTable) : Pattern :=
  .str "ban " ++ .group (word u) ++
    .opt (.str " pendant " ++ .group (.many true (fun c => u.isDecimal c || c == '.') 1 none) ++
      .str "h") ++ inBrackets ++ .stop

def pardonRe (u : CharTable) : Pattern := .str "pardon " ++ .group (word u) ++ .stop

def whitelistRe (u : CharTable) : Pattern :=
  .group (.alt (.str "add") (.str "remove")) ++ .str " " ++ .group (word u) ++ .stop

def opRe (u : CharTable) : Pattern :=
  .str "op " ++ .group (word u) ++ .str " niveau " ++
    .group (.many true (fun c => '1' ≤ c ∧ c ≤ '4') 1 (some 1)) ++ inBrackets ++ .stop

def deopRe (u : CharTable) : Pattern := .str "deop " ++ .group (word u) ++ .stop

def after (mark text close : Text) : Text := if text = [] then [] else mark ++ text ++ close

def playerLine (u : CharTable) (action d : Text) : Option Text :=
  if action = "KICK".toList then
    ((kickRe u).atStart d).map fun m =>
      m.group 1 ++ " expulsé".toList ++ after " — ".toList (m.group 2) []
  else if action = "BAN_MANAGE".toList then
    (((banRe u).atStart d).map fun m =>
      m.group 1 ++ " banni".toList ++ after " pour ".toList (m.group 2) " h".toList ++
        after " — ".toList (m.group 3) []).or
    (((pardonRe u).atStart d).map fun m => m.group 1 ++ " débanni".toList)
  else if action = "WHITELIST_MANAGE".toList then
    ((whitelistRe u).atStart d).map fun m =>
      m.group 2 ++ ' ' :: (if m.group 1 = "add".toList then "ajouté à".toList
        else "retiré de".toList) ++ " la whitelist".toList
  else if action = "OP_MANAGE".toList then
    (((opRe u).atStart d).map fun m =>
      m.group 1 ++ " opérateur niveau ".toList ++ m.group 2 ++
        if "prochain redémarrage".toList <:+: m.group 3 then
          " (niveau au prochain redémarrage)".toList else []).or
    (((deopRe u).atStart d).map fun m => m.group 1 ++ " n'est plus opérateur".toList)
  else none

def operationLine (u : CharTable) (e : Entry) : Text :=
  let d := strip e.detail
  let fields := parseDetail d
  if fieldOr fields "phase" ≠ [] then
    phaseLabel (fieldOr fields "phase") ++ after " · ".toList (fieldOr fields "archive") []
  else ((playerLine u e.action d).getD
    (if e.action = "GAME_SETTINGS".toList then replaceFrom " -> ".toList " → ".toList 0 d
    else if e.action = "RCON_RAW".toList then after "commande : ".toList d []
    else d))

/-! ### The rows -/

structure Step where
  ts : Time
  label : Text
  outcome : Text
  extra : Text
deriving DecidableEq

/-- The entries of an operation, as far as they have been read. -/
structure Group where
  operationId : Text
  ts : Time
  action : Text
  title : Text
  family : Text
  archive : Text := []
  username : Text
  events : List Step := []
  phases : List Text := []
deriving DecidableEq

inductive Status where
  | success
  | error
  | running
deriving DecidableEq

abbrev Pill := String × String

def outcomePills : List (String × Pill) :=
  [("allowed", "réussi", "ok"), ("denied", "refusé", "ko"), ("error", "échec", "ko")]

def outcomePill (outcome : Text) : Text × String :=
  ((outcomePills.find? fun row => row.1.toList == outcome).map fun row =>
    (row.2.1.toList, row.2.2)).getD (outcome, "ko")

inductive Row where
  | entry (e : Entry) (line : Text) (status : Text × String)
  | group (g : Group) (status : Status) (failedStep : Text)

/-- A row before the groups are closed: a group is known by its operation. -/
inductive Slot where
  | entry (e : Entry)
  | group (operationId : Text)
deriving DecidableEq

structure Rows where
  slots : List Slot := []
  groups : Dict Text Group := ∅

def opId (e : Entry) : Text := fieldOr (parseDetail e.detail) "operation_id"

def phase (e : Entry) : Text := fieldOr (parseDetail e.detail) "phase"

def title (e : Entry) : Text :=
  let fields := parseDetail e.detail
  if e.action = "BACKUP_TRIGGER".toList then
    get backupKindTitles (fieldOr fields "kind") "Sauvegarde".toList
  else if e.action = "RESTART".toList ∧ "op-levels::".toList <+: opId e then
    "Redémarrage avec niveaux OP".toList
  else get groupTitles e.action "Opération".toList

def newGroup (e : Entry) : Group where
  operationId := opId e
  ts := e.timestamp
  action := e.action
  title := title e
  family := family e
  username := e.username

def step (e : Entry) : Step where
  ts := e.timestamp
  label := if phase e = [] then get phaseLabels [] e.action else phaseLabel (phase e)
  outcome := e.outcome
  extra :=
    let fields := parseDetail e.detail
    if fieldOr fields "delay" = [] then fieldOr fields "detail" else fieldOr fields "delay"

def Group.add (g : Group) (e : Entry) : Group :=
  let fields := parseDetail e.detail
  { g with
    username := if fieldOr fields "requested_by" = [] then g.username
      else fieldOr fields "requested_by"
    archive := if g.archive = [] then fieldOr fields "archive" else g.archive
    phases := g.phases ++ [phase e]
    events := g.events ++ [step e] }

def Rows.add (s : Rows) (e : Entry) : Rows :=
  if opId e = [] then { s with slots := s.slots ++ [.entry e] }
  else match s.groups.lookup (opId e) with
    | none =>
      { slots := s.slots ++ [.group (opId e)]
        groups := s.groups.set (opId e) ((newGroup e).add e) }
    | some g => { s with groups := s.groups.set (opId e) (g.add e) }

def successPhases : List String :=
  ["restore_completed", "minecraft_healthy", "backup_done", "restart_done", "op_levels_applied"]

def Group.status (g : Group) : Status :=
  if ∃ p ∈ successPhases, p.toList ∈ g.phases then .success
  else if ∃ step ∈ g.events, step.outcome = "error".toList then .error
  else if "restart_cancelled".toList ∈ g.phases then .error
  else .running

def Group.close (g : Group) : Group :=
  { g with events := NewestFirst.newestFirst (fun step : Step => step.ts.key) g.events }

def Group.failedStep (g : Group) : Text :=
  if g.status ≠ .error then []
  else
    let failed := ((g.close.events.find? fun step => step.outcome = "error".toList).map
      Step.label).getD []
    if failed = [] then (g.close.events.head?.map Step.label).getD [] else failed

def Rows.row (u : CharTable) (s : Rows) : Slot → Option Row
  | .entry e => some (.entry e (operationLine u e) (outcomePill e.outcome))
  | .group id => (s.groups.lookup id).map fun g => .group g.close g.status g.failedStep

def buildRows (u : CharTable) (entries : List Entry) : List Row :=
  let s := entries.foldl Rows.add {}
  s.slots.filterMap (s.row u)

/-! ### Every entry exactly once -/

def entriesOf (entries : List Entry) (id : Text) : List Entry :=
  entries.filter fun e => opId e = id

def Slot.alone : Slot → Option Entry
  | .entry e => some e
  | .group _ => none

def Slot.operation : Slot → Option Text
  | .entry _ => none
  | .group id => some id

def Row.alone : Row → Option Entry
  | .entry e _ _ => some e
  | .group _ _ _ => none

def Row.operation : Row → Option Text
  | .entry _ _ _ => none
  | .group g _ _ => some g.operationId

/-- Each entry is a row of its own, or one step of the only group of its operation. -/
structure Represents (entries : List Entry) (rows : List Row) : Prop where
  alone : rows.filterMap Row.alone = entriesOf entries []
  once : (rows.filterMap Row.operation).Nodup
  all : ∀ id, id ∈ rows.filterMap Row.operation ↔ id ≠ [] ∧ ∃ e ∈ entries, opId e = id
  steps : ∀ g status failed, Row.group g status failed ∈ rows →
    g.events.Perm ((entriesOf entries g.operationId).map step)

structure Group.Holds (g : Group) (entries : List Entry) (id : Text) : Prop where
  operation : g.operationId = id
  events : g.events = (entriesOf entries id).map step
  phases : g.phases = (entriesOf entries id).map phase

structure Read (entries : List Entry) (s : Rows) : Prop where
  alone : s.slots.filterMap Slot.alone = entriesOf entries []
  operations : s.slots.filterMap Slot.operation = s.groups.keys
  known : ∀ id, id ∈ s.groups ↔ id ≠ [] ∧ ∃ e ∈ entries, opId e = id
  holds : ∀ id g, s.groups.lookup id = some g → g.Holds entries id

section

variable {entries seen : List Entry} {s : Rows} {e : Entry} {g : Group} {id : Text} {u : CharTable}

theorem entriesOf_append_self (entries : List Entry) (h : opId e = id) :
    entriesOf (entries ++ [e]) id = entriesOf entries id ++ [e] := by
  simp [entriesOf, List.filter_append, h]

theorem entriesOf_append_ne (entries : List Entry) (h : opId e ≠ id) :
    entriesOf (entries ++ [e]) id = entriesOf entries id := by
  simp [entriesOf, List.filter_append, h]

theorem entriesOf_eq_nil (h : ¬ ∃ e ∈ entries, opId e = id) : entriesOf entries id = [] := by
  rw [entriesOf, List.filter_eq_nil_iff]
  intro e he hid
  exact h ⟨e, he, by simpa using hid⟩

theorem Group.Holds.append_ne (h : g.Holds entries id) (hne : opId e ≠ id) :
    g.Holds (entries ++ [e]) id := by
  rcases h with ⟨hoperation, hevents, hphases⟩
  rw [← entriesOf_append_ne entries hne] at hevents hphases
  exact ⟨hoperation, hevents, hphases⟩

theorem Group.Holds.add (h : g.Holds entries (opId e)) :
    (g.add e).Holds (entries ++ [e]) (opId e) := by
  have hmore := entriesOf_append_self entries (rfl : opId e = opId e)
  constructor
  · exact h.operation
  · rw [hmore, List.map_append, ← h.events]
    rfl
  · rw [hmore, List.map_append, ← h.phases]
    rfl

theorem read_nil : Read [] {} where
  alone := rfl
  operations := rfl
  known id := by simp
  holds id g hg := by simp at hg

theorem Read.add_alone (h : Read entries s) (he : opId e = []) :
    Read (entries ++ [e]) (s.add e) := by
  have hadd : s.add e = { s with slots := s.slots ++ [.entry e] } := if_pos he
  rw [hadd]
  constructor
  · rw [List.filterMap_append, h.alone, entriesOf_append_self entries he]
    rfl
  · rw [List.filterMap_append, h.operations]
    exact List.append_nil _
  · intro id
    refine (h.known id).trans (and_congr_right fun hid => ?_)
    simp [he, Ne.symm hid]
  · intro id g hg
    have hid : id ≠ [] := ((h.known id).mp (AList.lookup_isSome.mp (by rw [hg]; rfl))).1
    exact (h.holds id g hg).append_ne (by rw [he]; exact hid.symm)

theorem Read.add_group (h : Read entries s) (he : opId e ≠ [])
    (hg : g.Holds (entries ++ [e]) (opId e)) (slots : List Slot)
    (halone : slots.filterMap Slot.alone = s.slots.filterMap Slot.alone)
    (hoperations : slots.filterMap Slot.operation = (s.groups.set (opId e) g).keys) :
    Read (entries ++ [e]) { slots, groups := s.groups.set (opId e) g } where
  alone := halone.trans (h.alone.trans (entriesOf_append_ne entries he).symm)
  operations := hoperations
  known id := by
    have hknown := h.known id
    rw [← AList.lookup_isSome] at hknown ⊢
    rw [Dict.lookup_set]
    by_cases hid : id = opId e
    · subst hid
      simp [he]
    · rw [if_neg hid, hknown]
      simp [Ne.symm hid]
  holds id g' hg' := by
    rw [Dict.lookup_set] at hg'
    by_cases hid : id = opId e
    · rw [if_pos hid] at hg'
      cases hg'
      rw [hid]
      exact hg
    · rw [if_neg hid] at hg'
      exact (h.holds id g' hg').append_ne (Ne.symm hid)

theorem Read.add (h : Read entries s) (e : Entry) : Read (entries ++ [e]) (s.add e) := by
  by_cases he : opId e = []
  · exact h.add_alone he
  · cases hlookup : s.groups.lookup (opId e) with
    | none =>
      have hadd : s.add e =
          { slots := s.slots ++ [.group (opId e)]
            groups := s.groups.set (opId e) ((newGroup e).add e) } := by
        rw [Rows.add, if_neg he, hlookup]
      have hnone : ¬ ∃ e' ∈ entries, opId e' = opId e := fun hsome =>
        AList.lookup_eq_none.mp hlookup ((h.known _).mpr ⟨he, hsome⟩)
      have hnew : (newGroup e).Holds entries (opId e) := by
        constructor
        · rfl
        · rw [entriesOf_eq_nil hnone]
          rfl
        · rw [entriesOf_eq_nil hnone]
          rfl
      rw [hadd]
      refine h.add_group he hnew.add _ ?_ ?_
      · rw [List.filterMap_append]
        exact List.append_nil _
      · rw [List.filterMap_append, h.operations, Dict.keys_set_of_none hlookup]
        rfl
    | some g =>
      have hadd : s.add e =
          { s with groups := s.groups.set (opId e) (g.add e) } := by
        rw [Rows.add, if_neg he, hlookup]
      rw [hadd]
      refine h.add_group he (h.holds _ g hlookup).add _ rfl ?_
      rw [h.operations, Dict.keys_set_of_some hlookup]

theorem Read.foldl (h : Read seen s) (entries : List Entry) :
    Read (seen ++ entries) (entries.foldl Rows.add s) := by
  induction entries generalizing seen s with
  | nil => rwa [List.append_nil]
  | cons e entries ih =>
    have hnext := ih (h.add e)
    rwa [List.append_assoc] at hnext

theorem read_all (entries : List Entry) : Read entries (entries.foldl Rows.add {}) :=
  read_nil.foldl entries

/-! ### The rows of what has been read -/

theorem Rows.row_alone (u : CharTable) (s : Rows) (slot : Slot) :
    (s.row u slot).bind Row.alone = slot.alone := by
  cases slot with
  | entry e => rfl
  | group id =>
    simp only [Rows.row, Slot.alone]
    cases s.groups.lookup id <;> rfl

theorem Read.row_operation (h : Read entries s) {slot : Slot} (hslot : slot ∈ s.slots) :
    (s.row u slot).bind Row.operation = slot.operation := by
  cases slot with
  | entry e => rfl
  | group id =>
    have hid : id ∈ s.groups.keys := by
      rw [← h.operations]
      exact List.mem_filterMap.mpr ⟨_, hslot, rfl⟩
    obtain ⟨g, hg⟩ := Option.isSome_iff_exists.mp (AList.lookup_isSome.mpr (AList.mem_keys.mpr hid))
    simp only [Rows.row, hg, Option.map_some, Option.bind_some, Row.operation, Slot.operation]
    exact congrArg some (h.holds id g hg).operation

theorem Read.mem_rows (h : Read entries s) {status : Status} {failed : Text} :
    Row.group g status failed ∈ s.slots.filterMap (s.row u) ↔
      ∃ g', s.groups.lookup g.operationId = some g' ∧
        g = g'.close ∧ status = g'.status ∧ failed = g'.failedStep := by
  rw [List.mem_filterMap]
  constructor
  · rintro ⟨slot, -, hrow⟩
    cases slot with
    | entry e => cases hrow
    | group id =>
      obtain ⟨g', hg', hrow⟩ := Option.map_eq_some_iff.mp hrow
      cases hrow
      have hid : g'.close.operationId = id := (h.holds id g' hg').operation
      exact ⟨g', by rw [hid, hg'], rfl, rfl, rfl⟩
  · rintro ⟨g', hg', rfl, rfl, rfl⟩
    have hid : g'.close.operationId ∈ s.slots.filterMap Slot.operation := by
      rw [h.operations, ← AList.mem_keys, ← AList.lookup_isSome, hg']
      rfl
    obtain ⟨slot, hslot, hid⟩ := List.mem_filterMap.mp hid
    refine ⟨slot, hslot, ?_⟩
    cases slot with
    | entry e => cases hid
    | group id =>
      cases hid
      rw [Rows.row, hg']
      rfl

theorem buildRows_represents (u : CharTable) (entries : List Entry) :
    Represents entries (buildRows u entries) := by
  have h := read_all entries
  have hoperations : (buildRows u entries).filterMap Row.operation =
      (entries.foldl Rows.add {}).groups.keys := by
    rw [buildRows, List.filterMap_filterMap, ← h.operations]
    exact List.filterMap_congr fun slot hslot => h.row_operation hslot
  constructor
  · rw [buildRows, List.filterMap_filterMap, ← h.alone]
    exact List.filterMap_congr fun slot _ => Rows.row_alone u _ slot
  · rw [hoperations]
    exact AList.keys_nodup _
  · intro id
    rw [hoperations, ← AList.mem_keys]
    exact h.known id
  · intro g status failed hrow
    obtain ⟨g', hg', rfl, -, -⟩ := h.mem_rows.mp hrow
    have hevents := (h.holds _ g' hg').events
    rw [← hevents]
    exact NewestFirst.newestFirst_perm _ _

/-! ### What is shown as running -/

def endingPhases : List String :=
  ["restore_completed", "restore_failed", "backup_done", "backup_failed", "restart_done",
   "restart_cancelled", "op_levels_applied", "op_levels_failed", "update_done", "update_failed",
   "maintenance_engaged", "maintenance_cancelled", "maintenance_stop_failed",
   "maintenance_doorman_failed"]

def Ends (e : Entry) : Prop := ∃ p ∈ endingPhases, phase e = p.toList

/-- The entry tells the reader that its operation has ended. -/
def Concludes (e : Entry) : Prop :=
  (∃ p ∈ successPhases, phase e = p.toList) ∨ e.outcome = "error".toList ∨
    phase e = "restart_cancelled".toList

theorem Group.status_eq_running_iff (g : Group) :
    g.status = .running ↔ ¬ (∃ p ∈ successPhases, p.toList ∈ g.phases) ∧
      ¬ (∃ step ∈ g.events, step.outcome = "error".toList) ∧
      "restart_cancelled".toList ∉ g.phases := by
  unfold Group.status
  split_ifs <;> simp_all

theorem Group.Holds.running_iff (h : g.Holds entries id) :
    g.status = .running ↔ ∀ e ∈ entries, opId e = id → ¬ Concludes e := by
  have hmem : ∀ e, e ∈ entriesOf entries id ↔ e ∈ entries ∧ opId e = id := fun e => by
    simp [entriesOf]
  rw [Group.status_eq_running_iff, h.phases, h.events]
  constructor
  · rintro ⟨hsuccess, herror, hcancelled⟩ e he hid hconcludes
    have hof := (hmem e).mpr ⟨he, hid⟩
    rcases hconcludes with ⟨p, hp, hphase⟩ | houtcome | hphase
    · exact hsuccess ⟨p, hp, List.mem_map.mpr ⟨e, hof, hphase⟩⟩
    · exact herror ⟨step e, List.mem_map_of_mem hof, houtcome⟩
    · exact hcancelled (List.mem_map.mpr ⟨e, hof, hphase⟩)
  · intro hnone
    have hnone : ∀ e ∈ entriesOf entries id, ¬ Concludes e := fun e he =>
      hnone e ((hmem e).mp he).1 ((hmem e).mp he).2
    refine ⟨?_, ?_, ?_⟩
    · rintro ⟨p, hp, hphase⟩
      obtain ⟨e, he, hphase⟩ := List.mem_map.mp hphase
      exact hnone e he (.inl ⟨p, hp, hphase⟩)
    · rintro ⟨st, hst, houtcome⟩
      obtain ⟨e, he, rfl⟩ := List.mem_map.mp hst
      exact hnone e he (.inr (.inl houtcome))
    · intro hphase
      obtain ⟨e, he, hphase⟩ := List.mem_map.mp hphase
      exact hnone e he (.inr (.inr hphase))

def NoneStuck (entries : List Entry) (rows : List Row) : Prop :=
  ∀ g status failed, Row.group g status failed ∈ rows →
    (∃ e ∈ entries, opId e = g.operationId ∧ Ends e) → status ≠ .running

/-- Every operation that has ended has an entry that the reader knows to conclude. -/
def AllConclude (entries : List Entry) : Prop :=
  ∀ e ∈ entries, opId e ≠ [] → Ends e → ∃ e' ∈ entries, opId e' = opId e ∧ Concludes e'

theorem noneStuck_iff (u : CharTable) (entries : List Entry) :
    NoneStuck entries (buildRows u entries) ↔ AllConclude entries := by
  have h := read_all entries
  constructor
  · intro hrows e he hid hends
    obtain ⟨g, hg⟩ := Option.isSome_iff_exists.mp
      (AList.lookup_isSome.mpr ((h.known (opId e)).mpr ⟨hid, e, he, rfl⟩))
    have hholds := h.holds _ g hg
    have hsame : g.close.operationId = opId e := hholds.operation
    have hrow : Row.group g.close g.status g.failedStep ∈ buildRows u entries :=
      h.mem_rows.mpr ⟨g, by rw [hsame, hg], rfl, rfl, rfl⟩
    have hstatus := hrows _ _ _ hrow ⟨e, he, hholds.operation.symm, hends⟩
    rw [ne_eq, hholds.running_iff] at hstatus
    by_contra hopen
    exact hstatus fun e' he' hid' hconcludes => hopen ⟨e', he', hid', hconcludes⟩
  · intro hconcluded g status failed hrow hends
    obtain ⟨g', hg', -, rfl, -⟩ := h.mem_rows.mp hrow
    obtain ⟨e, he, hid, hends⟩ := hends
    have hne : opId e ≠ [] := by
      rw [hid]
      exact ((h.known _).mp (AList.lookup_isSome.mp (by rw [hg']; rfl))).1
    obtain ⟨e', he', hid', hconcludes⟩ := hconcluded e he hne hends
    rw [ne_eq, (h.holds _ g' hg').running_iff]
    intro hnone
    exact hnone e' he' (hid'.trans hid) hconcludes

/-- The rows represent every entry once, and they show no operation that has ended as running
exactly when each of these has an entry that the reader knows to conclude. -/
theorem rows_right_iff (u : CharTable) (entries : List Entry) :
    (Represents entries (buildRows u entries) ∧ NoneStuck entries (buildRows u entries)) ↔
      AllConclude entries := by
  rw [and_iff_right (buildRows_represents u entries)]
  exact noneStuck_iff u entries

/-! ### What the services write -/

end

theorem updateDone_time : Calendar.IsTime 2026 7 14 12 0 0 0 := by decide

def updateDone : Entry where
  timestamp := ⟨2026, 7, 14, 12, 0, 0, 0, updateDone_time⟩
  username := "update-watch".toList
  role := "automation".toList
  action := "UPDATE".toList
  target := "minecraft".toList
  outcome := "allowed".toList
  detail :=
    "phase=update_done version=1.21.4 operation_id=update::2026-07-14T11:58:00+00:00".toList

/-- A server update that went well is shown as running. -/
theorem update_done_stuck :
    Ends updateDone ∧ ¬ NoneStuck [updateDone] (buildRows .ascii [updateDone]) := by
  have hphase : phase updateDone = "update_done".toList := by decide +kernel
  have hends : Ends updateDone := ⟨"update_done", by decide, hphase⟩
  refine ⟨hends, fun hrows => ?_⟩
  have hid : opId updateDone ≠ [] := by decide +kernel
  obtain ⟨e, he, -, hconcludes⟩ :=
    (noneStuck_iff .ascii [updateDone]).mp hrows updateDone List.mem_cons_self hid hends
  rcases List.mem_singleton.mp he
  rw [Concludes, hphase] at hconcludes
  revert hconcludes
  decide +kernel

end AuditRows
