import McAdmin.Dict
import McAdmin.PlainText
import McAdmin.ShellWords

/-!
# The details of the audit

What happens is written to the audit as one text of fields, `key=value`, and the page of the
audit reads the fields back with `shlex`.  A value is put between quotes when there is a space
in it, and not otherwise escaped: which values come back is what a shell makes of them.
-/

namespace AuditDetails

open PlainText ShellWords

/-! ### What is written -/

/-- `text.replace("\n", " ")` -/
def withoutBreaks (text : Text) : Text := text.map fun c => if c = '\n' then ' ' else c

def withApostrophes (text : Text) : Text := text.map fun c => if c = '"' then '\'' else c

/-- `" ".join(parts)` -/
def joined : List Text → Text
  | [] => []
  | part :: parts => part ++ parts.flatMap (' ' :: ·)

def assign (key shown : Text) : Text := key ++ '=' :: shown

def IsName (key : Text) : Prop := key ≠ [] ∧ ∀ c ∈ key, Plain c ∧ c ≠ '='

instance (key : Text) : Decidable (IsName key) :=
  @instDecidableAnd _ _ inferInstance (List.decidableBAll _ key)

abbrev Name := { key : Text // IsName key }

/-- How `_restore_event` shows a value. -/
def shown (value : Text) : Text :=
  let text := strip (withoutBreaks value)
  if ' ' ∈ text then '"' :: (withApostrophes text ++ ['"']) else text

/-- A call of `_restore_event`: the keywords, and `str` of their values. -/
structure RestoreEvent where
  phase : Text
  fields : List (Name × Option Text)
  distinct : ("phase".toList :: fields.map (·.1.val)).Nodup

namespace RestoreEvent

def present (e : RestoreEvent) : List (Name × Text) :=
  e.fields.filterMap fun field => field.2.map fun value => (field.1, value)

def detail (e : RestoreEvent) : Text :=
  joined (assign "phase".toList e.phase ::
    e.present.map fun field => assign field.1.val (shown field.2))

def written (e : RestoreEvent) : List (Text × Text) :=
  ("phase".toList, e.phase) :: e.present.map fun field => (field.1.val, field.2)

end RestoreEvent

inductive ProfileEvent where
  | created (slug name : Text) (categories : List Text)
  | updated (id name : Text)
  | switched (enabled : Bool) (id : Text)
  | deleted (id : Text)
  | started (id name requestedBy operationId : Text)
  | done (kind archive : Text) (sizeMio : ℕ) (operationId : Text)
  | failed (kind operationId : Text)
  | retained (kind : Text) (count : ℕ) (operationId : Text)

namespace ProfileEvent

def switchedPhase (enabled : Bool) : Text :=
  if enabled then "profile_resumed".toList else "profile_suspended".toList

def detail : ProfileEvent → Text
  | .created slug name categories =>
    joined [assign "phase".toList "profile_created".toList, assign "profile".toList slug,
      assign "name".toList ('"' :: (name ++ ['"'])),
      assign "include".toList (List.intercalate [','] categories)]
  | .updated id name =>
    joined [assign "phase".toList "profile_updated".toList, assign "profile".toList id,
      assign "name".toList ('"' :: (name ++ ['"']))]
  | .switched enabled id =>
    joined [assign "phase".toList (switchedPhase enabled), assign "profile".toList id]
  | .deleted id =>
    joined [assign "phase".toList "profile_deleted".toList, assign "profile".toList id]
  | .started id name requestedBy operationId =>
    joined [assign "phase".toList "backup_started".toList, assign "kind".toList id,
      assign "profile".toList ('"' :: (name ++ ['"'])),
      assign "requested_by".toList requestedBy, assign "operation_id".toList operationId]
  | .done kind archive sizeMio operationId =>
    joined [assign "phase".toList "backup_done".toList, assign "kind".toList kind,
      assign "archive".toList archive, assign "size_mio".toList (Nat.toDigits 10 sizeMio),
      assign "operation_id".toList operationId]
  | .failed kind operationId =>
    joined [assign "phase".toList "backup_failed".toList, assign "kind".toList kind,
      assign "operation_id".toList operationId]
  | .retained kind count operationId =>
    joined [assign "phase".toList "retention_applied".toList, assign "kind".toList kind,
      assign "deleted".toList (Nat.toDigits 10 count), assign "operation_id".toList operationId]

example : (started "a".toList "b c".toList "d".toList []).detail =
    "phase=backup_started kind=a profile=\"b c\" requested_by=d operation_id=".toList := by decide

def written : ProfileEvent → List (Text × Text)
  | .created slug name categories =>
    [("phase".toList, "profile_created".toList), ("profile".toList, slug), ("name".toList, name),
      ("include".toList, List.intercalate [','] categories)]
  | .updated id name =>
    [("phase".toList, "profile_updated".toList), ("profile".toList, id), ("name".toList, name)]
  | .switched enabled id => [("phase".toList, switchedPhase enabled), ("profile".toList, id)]
  | .deleted id => [("phase".toList, "profile_deleted".toList), ("profile".toList, id)]
  | .started id name requestedBy operationId =>
    [("phase".toList, "backup_started".toList), ("kind".toList, id), ("profile".toList, name),
      ("requested_by".toList, requestedBy), ("operation_id".toList, operationId)]
  | .done kind archive sizeMio operationId =>
    [("phase".toList, "backup_done".toList), ("kind".toList, kind), ("archive".toList, archive),
      ("size_mio".toList, Nat.toDigits 10 sizeMio), ("operation_id".toList, operationId)]
  | .failed kind operationId =>
    [("phase".toList, "backup_failed".toList), ("kind".toList, kind),
      ("operation_id".toList, operationId)]
  | .retained kind count operationId =>
    [("phase".toList, "retention_applied".toList), ("kind".toList, kind),
      ("deleted".toList, Nat.toDigits 10 count), ("operation_id".toList, operationId)]

end ProfileEvent

/-! ### What is read -/

/-- `token.split("=", 1)`, for a token that is a field -/
def fieldOf (token : Text) : Option (Text × Text) :=
  if '=' ∈ token then
    let key := token.takeWhile (· ≠ '=')
    if key = [] then none else some (key, (token.dropWhile (· ≠ '=')).tail)
  else none

def fieldsOf (tokens : List Text) : Dict Text Text :=
  (tokens.filterMap fieldOf).foldl (fun fields field => Dict.set fields field.1 field.2) ∅

def parseDetail (detail : Text) : Dict Text Text :=
  if detail = [] then ∅
  else
    match split detail with
    | none => ∅
    | some tokens => fieldsOf tokens

/-! ### What is to come back

A value comes back up to line breaks, the blanks around it and double quotes.
-/

def norm (text : Text) : Text := withApostrophes (strip (withoutBreaks text))

def Recovers (written : List (Text × Text)) (fields : Dict Text Text) : Prop :=
  (∀ key, key ∈ fields ↔ key ∈ written.map Prod.fst) ∧
    ∀ key value, (key, value) ∈ written →
      ∃ found, fields.lookup key = some found ∧ norm found = norm value

/-- A value that is its own word, up to blanks at the end. -/
def CleanRaw (text : Text) : Prop := ∀ c ∈ text.rdropWhile isSpace, Plain c

instance (text : Text) : Decidable (CleanRaw text) := List.decidableBAll _ _

/-- What `_restore_event` shows as it is has no quote, no backslash and no other white space;
what it shows between quotes has no backslash before another or at the end. -/
def CleanShown (value : Text) : Prop :=
  let text := strip (withoutBreaks value)
  if ' ' ∈ text then quotedClean (withApostrophes text) = true else CleanRaw text

def RestoreEvent.Clean (e : RestoreEvent) : Prop :=
  CleanRaw e.phase ∧ ∀ field ∈ e.present, CleanShown field.2

def ProfileEvent.Clean : ProfileEvent → Prop
  | .created slug name categories =>
    CleanRaw slug ∧ quotedClean name = true ∧ CleanRaw (List.intercalate [','] categories)
  | .updated id name => CleanRaw id ∧ quotedClean name = true
  | .started id name requestedBy operationId =>
    CleanRaw id ∧ quotedClean name = true ∧ CleanRaw requestedBy ∧ CleanRaw operationId
  | .switched _ id | .deleted id => CleanRaw id
  | .done kind archive _ operationId => CleanRaw kind ∧ CleanRaw archive ∧ CleanRaw operationId
  | .failed kind operationId | .retained kind _ operationId =>
    CleanRaw kind ∧ CleanRaw operationId

/-! ### Texts up to blanks and quotes -/

section

variable {text blanks : Text}

theorem isSpace_withoutBreaks (c : Char) : isSpace (if c = '\n' then ' ' else c) = isSpace c := by
  by_cases h : c = '\n'
  · rw [if_pos h, h]
    decide
  · rw [if_neg h]

theorem isSpace_withApostrophes (c : Char) : isSpace (if c = '"' then '\'' else c) = isSpace c := by
  by_cases h : c = '"'
  · rw [if_pos h, h]
    decide
  · rw [if_neg h]

theorem withoutBreaks_withoutBreaks (text : Text) :
    withoutBreaks (withoutBreaks text) = withoutBreaks text := by
  refine (List.map_map ..).trans (List.map_congr_left fun c _ => ?_)
  by_cases h : c = '\n' <;> simp [h]

theorem withApostrophes_withApostrophes (text : Text) :
    withApostrophes (withApostrophes text) = withApostrophes text := by
  refine (List.map_map ..).trans (List.map_congr_left fun c _ => ?_)
  by_cases h : c = '"' <;> simp [h]

theorem withoutBreaks_withApostrophes (text : Text) :
    withoutBreaks (withApostrophes text) = withApostrophes (withoutBreaks text) := by
  refine (List.map_map ..).trans (Eq.trans (List.map_congr_left fun c _ => ?_)
    (List.map_map ..).symm)
  by_cases hquote : c = '"'
  · simp [hquote]
  · by_cases hbreak : c = '\n' <;> simp [hquote, hbreak]

theorem norm_strip (text : Text) : norm (strip (withoutBreaks text)) = norm text := by
  have hstrip : withoutBreaks (strip (withoutBreaks text)) = strip (withoutBreaks text) := by
    rw [withoutBreaks, ← strip_map isSpace_withoutBreaks]
    exact congrArg strip (withoutBreaks_withoutBreaks text)
  rw [norm, hstrip, strip_strip, norm]

theorem norm_withApostrophes (text : Text) : norm (withApostrophes text) = norm text := by
  have hstrip : ∀ text, strip (withApostrophes text) = withApostrophes (strip text) :=
    fun text => strip_map isSpace_withApostrophes text
  rw [norm, withoutBreaks_withApostrophes, hstrip, withApostrophes_withApostrophes, norm]

theorem norm_append (h : ∀ c ∈ blanks, isSpace c = true) : norm (text ++ blanks) = norm text := by
  have hblanks : ∀ c ∈ withoutBreaks blanks, isSpace c = true := by
    intro c hc
    rcases List.mem_map.mp hc with ⟨c, hmem, rfl⟩
    rw [isSpace_withoutBreaks, h c hmem]
  have happend : withoutBreaks (text ++ blanks) = withoutBreaks text ++ withoutBreaks blanks :=
    List.map_append
  rw [norm, happend, strip_append hblanks, norm]

theorem countP_norm {p : Char → Bool} (hspace : ∀ c, isSpace c = true → p c = false)
    (hquote : p '\'' = p '"') (text : Text) : (norm text).countP p = text.countP p := by
  have hapostrophes : (fun c => p (if c = '"' then '\'' else c)) = p := by
    funext c
    by_cases h : c = '"'
    · rw [if_pos h, hquote, h]
    · rw [if_neg h]
  have hbreaks : (fun c => p (if c = '\n' then ' ' else c)) = p := by
    funext c
    by_cases h : c = '\n'
    · rw [if_pos h, h, hspace ' ' (by decide), hspace '\n' (by decide)]
    · rw [if_neg h]
  rw [norm, withApostrophes, List.countP_map, Function.comp_def, hapostrophes,
    countP_strip hspace, withoutBreaks, List.countP_map, Function.comp_def, hbreaks]

def visible (c : Char) : Bool := !isSpace c

theorem visible_marks (c : Char) (h : c = '\\' ∨ c = '\'' ∨ c = '"') : visible c = true := by
  rcases h with rfl | rfl | rfl <;> decide

theorem isSpace_of_visible {c : Char} (h : visible c = false) : isSpace c = true := by
  simpa [visible] using h

theorem countP_visible_norm (text : Text) : (norm text).countP visible = text.countP visible :=
  countP_norm (fun c hc => by simp [visible, hc]) (by decide) text

theorem count_norm (text : Text) : (norm text).count '=' = text.count '=' := by
  refine countP_norm (fun c hc => ?_) (by decide) text
  rw [beq_eq_false_iff_ne]
  rintro rfl
  exact absurd hc (by decide)

theorem cleanRaw_iff (text : Text) : CleanRaw text ↔ RawClean visible text := by
  constructor
  · intro h
    refine ⟨text.rdropWhile isSpace, text.rtakeWhile isSpace, ?_, h, fun c hc => ?_⟩
    · exact List.rdropWhile_append_rtakeWhile.symm
    · simp [visible, List.mem_rtakeWhile_imp hc]
  · rintro ⟨core, blanks, rfl, hcore, hblanks⟩ c hc
    have hdrop : (core ++ blanks).rdropWhile isSpace = core.rdropWhile isSpace := by
      rw [List.rdropWhile, List.rdropWhile, List.reverse_append, List.dropWhile_append_of_pos]
      exact fun c hc => isSpace_of_visible (hblanks c (List.mem_reverse.mp hc))
    rw [hdrop] at hc
    exact hcore c ((List.rdropWhile_prefix isSpace core).subset hc)

end

end AuditDetails
