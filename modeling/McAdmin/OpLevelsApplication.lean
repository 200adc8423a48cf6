import McAdmin.OpLevelsInvariant

/-!
# One application of op levels, byte by byte

The worker again, with the bytes of its files and with a step for each reading, so that any step
may raise.  Where one does before the server is up again, and undoing does not, nothing has
happened: `ops.json` is what it was, the requests are back in the queue and the server runs.
-/

namespace OpLevelsApplication

open CrashLogic PendingOpLevels
open OpLevelsWorker (Application Entry Failure Journal Json Phase applyRequestedLevels)

/-! ### Files -/

abbrev Bytes := List UInt8

/-- A file with its `mode`, `uid` and `gid`. -/
structure OpsFile where
  data : Bytes
  /-- neither a link nor anything else than a file -/
  regular : Bool := true
  mode : ℕ
  uid : ℕ
  gid : ℕ
deriving DecidableEq

/-- `json.loads` of UTF-8, with the text of what it raises, and `_encode_ops`. -/
structure Codec where
  loads : Bytes → Except Failure Json
  encodeOps : List Entry → Bytes

/-- What is asked of the server and of `ops.json`, in order. -/
inductive Call where
  | asksStop
  | stopped
  | asksStart
  | started
  | replacesOps
deriving DecidableEq

/-- The files and the server, the local flags of `apply_pending_levels`, whether it is in its
`except`, and what it has asked for so far. -/
structure Site where
  ops : Option OpsFile
  rollback : Option OpsFile := none
  journal : Option Journal := none
  dataRootValid : Bool := true
  running : Bool := true
  serverMayBeStopped : Bool := false
  rollbackReady : Bool := false
  handling : Bool := false
  calls : List Call := []

abbrev World (lower : String → String) := Store lower Site

abbrev Worker (lower : String → String) (α : Type) := OnStore lower Site Failure α

def maxOpsBytes : ℕ := 1024 * 1024

/-- The checks of `_read_ops`. -/
def decodeOps (codec : Codec) (file : OpsFile) : Except Failure (List Entry) :=
  if file.regular = false then .error "ops.json n'est pas un fichier régulier"
  else if maxOpsBytes < file.data.length then .error "ops.json est anormalement volumineux"
  else
    match codec.loads file.data with
    | .error e => .error e
    | .ok json => OpLevelsWorker.readOps (some json)

/-! ### Steps -/

section

variable {lower : String → String}

def reads : Worker lower Unit := .performShared .ok

def setLocal (f : Site → Site) : Worker lower Unit := .assign fun s => { s with site := f s.site }

def calling (call : Call) : Worker lower Unit :=
  setLocal fun x => { x with calls := x.calls ++ [call] }

/-- `os.replace`, then the synchronisation of the directory; what comes before changes nothing. -/
def replaceFile (f : Site → Site) : Worker lower Unit := do
  onSite f
  .performShared .ok

def replaceOps (file : OpsFile) : Worker lower Unit :=
  replaceFile fun x => { x with ops := some file, calls := x.calls ++ [.replacesOps] }

def writeState (phase : Phase) (requested unresolved : List PendingOpLevel) :
    Worker lower Unit :=
  replaceFile fun x => { x with journal := some ⟨phase, requested, unresolved⟩ }

/-- `stop` stops the server and may still raise. -/
def controllerStop : Worker lower Unit := do
  calling .asksStop
  onSite fun x => { x with running := false }
  .performShared .ok
  calling .stopped

def controllerStart : Worker lower Unit := do
  calling .asksStart
  onSite fun x => { x with running := true }
  .performShared .ok
  calling .started

def cleanup : Worker lower Unit := do
  onSite fun x => { x with rollback := none }
  onSite fun x => { x with journal := none }
  .performShared .ok

def OpsFile.copy (file : OpsFile) : OpsFile := { file with regular := true }

def restoreRollback : Worker lower Unit := do
  reads
  match ← Prog.read fun s => s.site.rollback with
  | none => throw "No such file or directory"
  | some file => replaceOps file.copy

def readState : Worker lower (Option Phase × List PendingOpLevel × List PendingOpLevel) := do
  match ← Prog.read fun s => s.site.journal with
  | none => return (none, [], [])
  | some journal =>
    tryCatch
      (do
        reads
        return (some journal.phase, journal.requested, journal.unresolved))
      fun _ => return (none, [], [])

def restoreKept : Worker lower Unit := do
  if ← Prog.read fun s => s.site.rollback.isSome then
    controllerStop
    restoreRollback
  else pure ()

def undoInterrupted (requested : List PendingOpLevel) : Worker lower Unit := do
  restoreKept
  controllerStart
  restoreClaim requested
  cleanup

def recoverFrom (phase : Option Phase) (requested unresolved : List PendingOpLevel) :
    Worker lower Unit :=
  if phase = some .committed then do
    completeClaim unresolved
    cleanup
  else do
    tryCatch (undoInterrupted requested) fun _ =>
      throw "transaction OP interrompue et récupération impossible"
    throw "transaction OP interrompue annulée ; niveaux remis en attente"

def recoverInterrupted : Worker lower Unit := do
  reads
  let site ← Prog.read Store.site
  if site.rollback.isNone ∧ site.journal.isNone then return ()
  else
    let state ← readState
    recoverFrom state.1 state.2.1 state.2.2

variable (codec : Codec)

def readOps : Worker lower (List Entry × OpsFile) := do
  reads
  match ← Prog.read fun s => s.site.ops with
  | none => throw "ops.json est illisible"
  | some file =>
    match decodeOps codec file with
    | .error e => throw e
    | .ok entries => return (entries, file)

/-- The write that follows `_apply_requested_levels`. -/
def writeOps (original : OpsFile) (application : Application) : Worker lower Unit :=
  if application.changed = 0 then pure ()
  else replaceOps { original.copy with data := codec.encodeOps application.entries }

/-- The `try` of `apply_pending_levels`, once the copy is there. -/
def applyCopied (requested : List PendingOpLevel) (entries : List Entry) (original : OpsFile) :
    Worker lower (ℕ × ℕ) := do
  setLocal fun x => { x with rollbackReady := true }
  writeState .rollbackReady requested []
  let application := applyRequestedLevels lower entries requested
  writeOps codec original application
  writeState .applied requested []
  controllerStart
  setLocal fun x => { x with serverMayBeStopped := false }
  writeState .committed requested application.unresolved
  completeClaim application.unresolved
  return (application.changed, application.unresolved.length)

/-- The body of the `try` of `apply_pending_levels`. -/
def applyRequests (requested : List PendingOpLevel) : Worker lower (ℕ × ℕ) := do
  writeState .claimed requested []
  setLocal fun x => { x with serverMayBeStopped := true }
  controllerStop
  writeState .stopped requested []
  let read ← readOps codec
  replaceFile fun x => { x with rollback := some read.2.copy }
  applyCopied codec requested read.1 read.2

def undoApplied (requested : List PendingOpLevel) : Worker lower Unit := do
  controllerStop
  restoreRollback
  controllerStart
  setLocal fun x => { x with serverMayBeStopped := false }
  restoreClaim requested
  cleanup

def startAgain : Worker lower Unit := do
  if ← Prog.read fun s => s.site.serverMayBeStopped then
    tryCatch
      (do
        controllerStart
        setLocal fun x => { x with serverMayBeStopped := false })
      fun _ => throw "échec avant écriture et redémarrage Minecraft impossible"
  else pure ()

/-- The `except` of `apply_pending_levels`. -/
def undoRequests (requested : List PendingOpLevel) (exc : Failure) : Worker lower (ℕ × ℕ) := do
  setLocal fun x => { x with handling := true }
  if ← Prog.read fun s => s.site.rollbackReady then
    tryCatch (undoApplied requested) fun _ =>
      throw "application et rollback des niveaux OP en échec"
    throw ("niveaux OP annulés, original restauré : " ++ exc)
  else
    startAgain
    restoreClaim requested
    cleanup
    throw ("niveaux OP annulés avant écriture : " ++ exc)

def applyPendingLevels : Worker lower (ℕ × ℕ) := do
  if ← Prog.read fun s => s.site.dataRootValid then
    recoverInterrupted
    let requested ← claim
    let result ← tryCatch (applyRequests codec requested) (undoRequests requested)
    tryCatch cleanup fun _ => pure ()
    return result
  else throw "dossier de données Minecraft invalide"

end

def newProcess {lower : String → String} (s : World lower) : World lower :=
  { s with site := { s.site with
    serverMayBeStopped := false
    rollbackReady := false
    handling := false
    calls := [] } }

def run {lower : String → String} (codec : Codec) (plan : Plan Failure Request)
    (s : World lower) : Result (World lower) Failure Request (ℕ × ℕ) :=
  exec meddle (applyPendingLevels codec) plan (newProcess s)

/-! ### All or nothing -/

def downAfter (down : Bool) : Call → Bool
  | .stopped => true
  | .asksStop | .asksStart => false
  | .started | .replacesOps => down

/-- The server has been stopped, and neither its stop nor its start has been asked for since. -/
def down (calls : List Call) : Bool := calls.foldl downAfter false

/-- `ops.json` is only replaced while the server is down. -/
def Orderly (calls : List Call) : Prop :=
  ∀ before after, calls = before ++ .replacesOps :: after → down before = true

def Reported {lower : String → String} (s : World lower) : Prop :=
  ∀ key level, s.newest key = some level →
    ∃ item ∈ listPending s, lower item.name = key ∧ item.level = level

/-- No files of an earlier transaction, and what is asked for is what the queue holds. -/
structure Fresh {lower : String → String} (s : World lower) : Prop where
  rollback : s.site.rollback = none
  journal : s.site.journal = none
  newest : ∀ key, s.newest key = (s.pending.level key).or (s.applying.level key)

/-- The process is not killed, and no step of the `except` is made to raise. -/
def SparesUndo {lower : String → String} : Moment (World lower) → Prop
  | .done _ _ => True
  | .struck strike s => strike = .fail ∧ s.site.handling = false

instance {lower : String → String} : ∀ m : Moment (World lower), Decidable (SparesUndo m)
  | .done _ _ => isTrue trivial
  | .struck _ _ => inferInstanceAs (Decidable (_ ∧ _))

def UndoSucceeds {lower : String → String} (r : Result (World lower) Failure Request (ℕ × ℕ)) :
    Prop :=
  ∀ m ∈ r.moments, SparesUndo m

/-- Nothing has happened but that the server may have been restarted. -/
structure Undone {lower : String → String} (s s' : World lower) : Prop where
  ops : s'.site.ops = s.site.ops
  reported : Reported s'
  restarted : .asksStop ∈ s'.site.calls → s'.site.running = true

/-! ### What is asked, in order -/

theorem down_append (calls : List Call) (call : Call) :
    down (calls ++ [call]) = downAfter (down calls) call := by
  rw [down, List.foldl_append]
  rfl

theorem orderly_nil : Orderly [] := by
  intro before after h
  simp at h

theorem Orderly.append {calls : List Call} {call : Call} (h : Orderly calls)
    (hdown : call = .replacesOps → down calls = true) : Orderly (calls ++ [call]) := by
  intro before after hsplit
  rcases List.eq_nil_or_concat after with rfl | ⟨rest, last, rfl⟩
  · rcases List.append_inj' hsplit rfl with ⟨rfl, hcall⟩
    exact hdown (List.cons.inj hcall).1
  · rw [List.concat_eq_append, ← List.cons_append, ← List.append_assoc] at hsplit
    exact h before rest (List.append_inj' hsplit rfl).1

/-! ### Rules -/

section

variable {lower : String → String} {requested : List PendingOpLevel} {s : World lower}
  {g h c : Site → Prop}

/-- Steps may be made to raise, except in the `except`. -/
def terms (lower : String → String) : Terms (World lower) Request where
  meddle := meddle
  struck strike s := strike = .fail ∧ s.site.handling = false
  moves _ _ := True

theorem surroundings (lower : String → String) : Surroundings (terms lower) :=
  ⟨rfl, fun _ _ => trivial⟩

def Holds (requested : List PendingOpLevel) : Queue lower → Site → String → Int → Prop :=
  fun _ _ key level => levelIn lower requested key = some level

/-- What is owed is in the main file or held, and the site is as `g` says. -/
def At (requested : List PendingOpLevel) (g : Site → Prop) : World lower → Prop :=
  Tracked (Holds requested) fun _ x => g x

theorem At.mono (hs : At requested g s) (hle : ∀ x, g x → h x) : At requested h s :=
  ⟨hs.1, hle _ hs.2⟩

theorem wp_setLocal_bind {β : Type} (f : Site → Site) (k : Unit → Worker lower β)
    (Φ : Post (World lower) Failure β) (s : World lower) :
    wp (terms lower) (setLocal f >>= k) Φ s ↔
      wp (terms lower) (k ()) Φ { s with site := f s.site } := Iff.rfl

theorem At.local (hs : At requested g s) {f : Site → Site} (hstep : ∀ x, g x → h (f x)) :
    At requested h { s with site := f s.site } :=
  ⟨hs.1, hstep _ hs.2⟩

theorem wp_change {f : Site → Site} (hs : At requested g s) (hstep : ∀ x, g x → h (f x)) :
    wp (terms lower) (onSite f : Worker lower Unit)
      (.orCut (fun _ => At requested h) (At requested g)) s :=
  wp_onSite (surroundings lower) (fun _ _ hx => ⟨hstep _ hx, fun _ _ hrow => hrow⟩) hs

theorem wp_reads (hs : At requested g s) :
    wp (terms lower) (reads : Worker lower Unit)
      (.orCut (fun _ => At requested g) (At requested g)) s :=
  wp_wait (surroundings lower) hs

theorem wp_replaceFile {f : Site → Site} (hs : At requested g s) (hstep : ∀ x, g x → h (f x))
    (hg : ∀ x, g x → c x) (hh : ∀ x, h x → c x) :
    wp (terms lower) (replaceFile f : Worker lower Unit)
      (.orCut (fun _ => At requested h) (At requested c)) s := by
  unfold replaceFile
  refine wp_seq (wp_change hs hstep) ?_ fun _ hcut => hcut.mono hg
  intro _ s₁ hs₁
  exact wp_mono (wp_reads hs₁) (Post.orCut_le (fun _ _ hok => hok) fun _ hcut => hcut.mono hh)

theorem wp_control {ask answer : Call} {up : Bool} {m n : Site → Prop} (hs : At requested g s)
    (hask : ∀ x, g x → m { x with calls := x.calls ++ [ask] })
    (hrun : ∀ x, m x → n { x with running := up })
    (hanswer : ∀ x, n x → h { x with calls := x.calls ++ [answer] })
    (hm : ∀ x, m x → c x) (hn : ∀ x, n x → c x) :
    wp (terms lower) (do
        calling ask
        onSite fun x => { x with running := up }
        .performShared .ok
        calling answer : Worker lower Unit)
      (.orCut (fun _ => At requested h) (At requested c)) s := by
  unfold calling
  rw [wp_setLocal_bind]
  have hasked : At requested m
      { s with site := { s.site with calls := s.site.calls ++ [ask] } } := hs.local hask
  refine wp_seq (wp_change hasked hrun) ?_ fun _ hcut => hcut.mono hm
  intro _ s₁ hs₁
  refine wp_seq (wp_wait (surroundings lower) hs₁) ?_ fun _ hcut => At.mono hcut hn
  intro _ s₂ hs₂
  exact At.local hs₂ hanswer

/-! ### The body -/

/-- What the handler can start from, and how far the body has come: whether the copy is in place,
the server may be stopped, and is down. -/
structure Stage (ops : Option OpsFile) (copied stopping isDown : Bool) (x : Site) : Prop where
  handling : x.handling = false
  rollbackReady : x.rollbackReady = copied
  serverMayBeStopped : x.serverMayBeStopped = stopping
  orderly : Orderly x.calls
  isDown : isDown = true → down x.calls = true
  unasked : copied = false → stopping = false → .asksStop ∉ x.calls
  untouched : copied = false → x.ops = ops
  kept : copied = true → ∃ file : OpsFile, file.copy = file ∧ ops = some file ∧
    x.rollback = some file

def Undoable (ops : Option OpsFile) (x : Site) : Prop :=
  ∃ copied stopping, Stage ops copied stopping false x

variable {ops : Option OpsFile} {copied stopping isDown : Bool} {x : Site}

theorem Stage.risen (hx : Stage ops copied stopping isDown x) :
    Stage ops copied stopping false x :=
  ⟨hx.handling, hx.rollbackReady, hx.serverMayBeStopped, hx.orderly,
    fun hdown => absurd hdown Bool.false_ne_true, hx.unasked, hx.untouched, hx.kept⟩

theorem Stage.undoable (hx : Stage ops copied stopping isDown x) : Undoable ops x :=
  ⟨copied, stopping, hx.risen⟩

theorem Stage.journal (hx : Stage ops copied stopping isDown x) (journal : Option Journal) :
    Stage ops copied stopping isDown { x with journal := journal } :=
  ⟨hx.handling, hx.rollbackReady, hx.serverMayBeStopped, hx.orderly, hx.isDown, hx.unasked,
    hx.untouched, hx.kept⟩

theorem Stage.running (hx : Stage ops copied stopping isDown x) (up : Bool) :
    Stage ops copied stopping isDown { x with running := up } :=
  ⟨hx.handling, hx.rollbackReady, hx.serverMayBeStopped, hx.orderly, hx.isDown, hx.unasked,
    hx.untouched, hx.kept⟩

theorem Stage.stoppable (hx : Stage ops copied stopping isDown x) {stopping' : Bool}
    (h : copied = false → stopping' = true) :
    Stage ops copied stopping' isDown { x with serverMayBeStopped := stopping' } :=
  ⟨hx.handling, hx.rollbackReady, rfl, hx.orderly, hx.isDown,
    fun hcopied hstopping => absurd (hstopping.symm.trans (h hcopied)) Bool.false_ne_true,
    hx.untouched, hx.kept⟩

theorem Stage.ready (hx : Stage ops copied stopping isDown x) {file : OpsFile}
    (hcopy : file.copy = file) (hops : ops = some file) (hrollback : x.rollback = some file) :
    Stage ops true stopping isDown { x with rollbackReady := true } :=
  ⟨hx.handling, rfl, hx.serverMayBeStopped, hx.orderly, hx.isDown,
    fun h => absurd h.symm Bool.false_ne_true, fun h => absurd h.symm Bool.false_ne_true,
    fun _ => ⟨file, hcopy, hops, hrollback⟩⟩

theorem Stage.calling (hx : Stage ops copied true isDown x) {call : Call} {isDown' : Bool}
    (hcall : call ≠ .replacesOps)
    (hdown : isDown' = true → downAfter (down x.calls) call = true) :
    Stage ops copied true isDown' { x with calls := x.calls ++ [call] } where
  handling := hx.handling
  rollbackReady := hx.rollbackReady
  serverMayBeStopped := hx.serverMayBeStopped
  orderly := hx.orderly.append fun h => absurd h hcall
  isDown h := (down_append x.calls call).trans (hdown h)
  unasked _ h := absurd h.symm Bool.false_ne_true
  untouched := hx.untouched
  kept := hx.kept

theorem wp_writeState (phase : Phase) (items unresolved : List PendingOpLevel)
    (hs : At requested (Stage ops copied stopping isDown) s) :
    wp (terms lower) (writeState phase items unresolved : Worker lower Unit)
      (.orCut (fun _ => At requested (Stage ops copied stopping isDown))
        (At requested (Undoable ops))) s := by
  apply wp_replaceFile hs
  · exact fun _ hx => hx.journal _
  · exact fun _ hx => hx.undoable
  · exact fun _ hx => hx.undoable

theorem wp_controllerStop (hs : At requested (Stage ops copied true isDown) s) :
    wp (terms lower) (controllerStop : Worker lower Unit)
      (.orCut (fun _ => At requested (Stage ops copied true true))
        (At requested (Undoable ops))) s := by
  unfold controllerStop
  apply wp_control (m := Stage ops copied true false) (n := Stage ops copied true false) hs
  · intro _ hx
    exact hx.calling Call.noConfusion fun h => absurd h Bool.false_ne_true
  · exact fun _ hx => hx.running false
  · intro _ hx
    exact hx.calling Call.noConfusion fun _ => rfl
  · exact fun _ hx => hx.undoable
  · exact fun _ hx => hx.undoable

theorem wp_controllerStart (hs : At requested (Stage ops copied true isDown) s) :
    wp (terms lower) (controllerStart : Worker lower Unit)
      (.orCut (fun _ => At requested (Stage ops copied true false))
        (At requested (Undoable ops))) s := by
  unfold controllerStart
  have hcalling : ∀ call : Call, call ≠ .replacesOps → ∀ x, Stage ops copied true false x →
      Stage ops copied true false { x with calls := x.calls ++ [call] } :=
    fun call hcall x hx => hx.calling hcall fun h => absurd h Bool.false_ne_true
  apply wp_control (m := Stage ops copied true false) (n := Stage ops copied true false) hs
  · exact fun x hx => hcalling .asksStart Call.noConfusion x hx.risen
  · exact fun _ hx => hx.running true
  · exact hcalling .started Call.noConfusion
  · exact fun _ hx => hx.undoable
  · exact fun _ hx => hx.undoable

theorem copy_of_decodeOps {codec : Codec} {file : OpsFile} {entries : List Entry}
    (h : decodeOps codec file = .ok entries) : file.copy = file := by
  unfold decodeOps at h
  by_cases hregular : file.regular = false
  · rw [if_pos hregular] at h
    cases h
  · have htrue : file.regular = true := by simpa using hregular
    unfold OpsFile.copy
    rw [← htrue]

theorem wp_body_seq {α β : Type} {p : Worker lower α} {k : α → Worker lower β}
    {Q : α → World lower → Prop} {Q' : β → World lower → Prop}
    (hp : wp (terms lower) p (.orCut Q (At requested (Undoable ops))) s)
    (hk : ∀ a s', Q a s' →
      wp (terms lower) (k a) (.within Q' (At requested (Undoable ops))) s') :
    wp (terms lower) (p >>= k) (.within Q' (At requested (Undoable ops))) s := by
  apply wp_seq_within _ hk
  exact wp_mono hp (Post.orCut_le_within (fun _ _ hok => hok) fun _ hcut => hcut)

theorem wp_readOps (codec : Codec) (hs : At requested (Stage ops false stopping isDown) s) :
    wp (terms lower) (readOps codec : Worker lower _)
      (.within (fun read s' => At requested (Stage ops false stopping isDown) s' ∧
          read.2.copy = read.2 ∧ ops = some read.2)
        (At requested (Undoable ops))) s := by
  unfold readOps
  apply wp_body_seq (wp_mono (wp_reads hs) (Post.orCut_le (fun _ _ hok => hok)
    fun _ hcut => hcut.mono fun _ hx => hx.undoable))
  intro _ s₁ hs₁
  have hundoable : At requested (Undoable ops) s₁ := At.mono hs₁ fun _ hx => hx.undoable
  have hops : s₁.site.ops = ops := hs₁.2.untouched rfl
  rw [wp_read_bind]
  cases hfile : s₁.site.ops with
  | none => exact hundoable
  | some file =>
    cases hdecode : decodeOps codec file with
    | error e =>
      simp only [hdecode]
      exact hundoable
    | ok entries =>
      simp only [hdecode]
      exact ⟨hs₁, copy_of_decodeOps hdecode, hops.symm.trans hfile⟩

theorem wp_writeOps (codec : Codec) (original : OpsFile) (application : Application)
    (hs : At requested (Stage ops true true true) s) :
    wp (terms lower) (writeOps codec original application : Worker lower Unit)
      (.orCut (fun _ => At requested (Stage ops true true true))
        (At requested (Undoable ops))) s := by
  unfold writeOps
  by_cases hchanged : application.changed = 0
  · rw [if_pos hchanged]
    exact hs
  · rw [if_neg hchanged]
    apply wp_replaceFile hs
    · intro x hx
      have hdown : down x.calls = true := hx.isDown rfl
      exact ⟨hx.handling, hx.rollbackReady, hx.serverMayBeStopped,
        hx.orderly.append fun _ => hdown, fun _ => (down_append x.calls _).trans hdown,
        fun h => absurd h.symm Bool.false_ne_true, fun h => absurd h.symm Bool.false_ne_true,
        hx.kept⟩
    · exact fun _ hx => hx.undoable
    · exact fun _ hx => hx.undoable

theorem wp_completeApplied {entries : List Entry}
    (hs : At requested (Stage ops copied stopping isDown) s) :
    wp (terms lower)
      (completeClaim (applyRequestedLevels lower entries requested).unresolved :
        Worker lower Unit)
      (.orCut (fun _ => At requested (Stage ops copied stopping isDown))
        (At requested (Undoable ops))) s := by
  refine wp_mono (wp_completeClaim (surroundings lower) (S := Holds requested) ?_ ?_ ?_ hs)
    (Post.orCut_le ?_ ?_)
  · intro q x key level _ hrow l hl
    exact Option.some.inj ((OpLevelsWorker.levelIn_of_unresolved hl).symm.trans hrow)
  · exact fun _ _ _ _ _ hrow _ => hrow
  · exact fun _ _ _ _ hrow => hrow
  · rintro _ s₁ ⟨_, x, hx, hrow, _, rfl⟩
    exact ⟨hrow, hx⟩
  · rintro s₁ (hcut | ⟨_, x, hx, hrow, rfl⟩)
    · exact At.mono hcut fun _ hx => hx.undoable
    · exact ⟨hrow, hx.undoable⟩

theorem wp_applyCopied (codec : Codec) (entries : List Entry) {original : OpsFile}
    (hcopy : original.copy = original) (hops : ops = some original)
    (hs : At requested (fun x => Stage ops false true true x ∧ x.rollback = some original) s) :
    wp (terms lower) (applyCopied codec requested entries original : Worker lower _)
      (.within (fun _ => At requested (Stage ops true false false))
        (At requested (Undoable ops))) s := by
  unfold applyCopied
  rw [wp_setLocal_bind]
  have hready : At requested (Stage ops true true true)
      { s with site := { s.site with rollbackReady := true } } :=
    ⟨hs.1, hs.2.1.ready hcopy hops hs.2.2⟩
  apply wp_body_seq (wp_writeState .rollbackReady requested [] hready)
  intro _ s₁ hs₁
  apply wp_body_seq (wp_writeOps codec original _ hs₁)
  intro _ s₂ hs₂
  apply wp_body_seq (wp_writeState .applied requested [] hs₂)
  intro _ s₃ hs₃
  apply wp_body_seq (wp_controllerStart hs₃)
  intro _ s₄ hs₄
  rw [wp_setLocal_bind]
  have hstarted : At requested (Stage ops true false false)
      { s₄ with site := { s₄.site with serverMayBeStopped := false } } :=
    ⟨hs₄.1, hs₄.2.stoppable fun h => absurd h.symm Bool.false_ne_true⟩
  apply wp_body_seq (wp_writeState .committed requested _ hstarted)
  intro _ s₅ hs₅
  apply wp_body_seq (wp_completeApplied hs₅)
  exact fun _ _ hok => hok

theorem wp_applyRequests (codec : Codec) (hs : At requested (Stage ops false false false) s) :
    wp (terms lower) (applyRequests codec requested : Worker lower _)
      (.within (fun _ => At requested (Stage ops true false false))
        (At requested (Undoable ops))) s := by
  unfold applyRequests
  apply wp_body_seq (wp_writeState .claimed requested [] hs)
  intro _ s₁ hs₁
  rw [wp_setLocal_bind]
  have hstopping : At requested (Stage ops false true false)
      { s₁ with site := { s₁.site with serverMayBeStopped := true } } :=
    ⟨hs₁.1, hs₁.2.stoppable fun _ => rfl⟩
  apply wp_body_seq (wp_controllerStop hstopping)
  intro _ s₂ hs₂
  apply wp_body_seq (wp_writeState .stopped requested [] hs₂)
  intro _ s₃ hs₃
  apply wp_seq_within (wp_readOps codec hs₃)
  rintro ⟨entries, original⟩ s₄ ⟨hs₄, hcopy, hops⟩
  apply wp_body_seq (Q := fun _ => At requested
    fun x => Stage ops false true true x ∧ x.rollback = some original)
  · apply wp_replaceFile hs₄
    · intro x hx
      refine ⟨?_, congrArg some hcopy⟩
      exact ⟨hx.handling, hx.rollbackReady, hx.serverMayBeStopped, hx.orderly, hx.isDown,
        hx.unasked, hx.untouched, fun h => absurd h Bool.false_ne_true⟩
    · exact fun _ hx => hx.undoable
    · exact fun _ hx => hx.1.undoable
  · intro _ s₅ hs₅
    exact wp_applyCopied codec entries hcopy hops hs₅

/-! ### The handler -/

def Handling (s : World lower) : Prop := s.site.handling = true

theorem wp_handling {α : Type} {p : Worker lower α} {Q : α → World lower → Prop}
    {Ψ : Post (World lower) Failure α} (hp : wp (terms lower) p (.orCut Q Handling) s)
    (hQ : ∀ a s', Q a s' → Ψ.ok a s') : wp (terms lower) p Ψ s := by
  apply wp_mono (wp_marked hp)
  constructor
  · exact hQ
  · exact fun _ _ h => h.elim
  · rintro e s' ⟨hhandling, _, hfalse⟩
    exact absurd (hfalse.symm.trans hhandling) Bool.false_ne_true
  · rintro s' ⟨_, hfail, _⟩
    cases hfail

structure Restoring (ops : Option OpsFile) (isDown : Bool) (x : Site) : Prop where
  handling : x.handling = true
  orderly : Orderly x.calls
  isDown : isDown = true → down x.calls = true
  kept : ∃ file : OpsFile, file.copy = file ∧ ops = some file ∧ x.rollback = some file

/-- `ops.json` is what it was, and the server is up again unless it has to be started. -/
structure Restored (ops : Option OpsFile) (started : Bool) (x : Site) : Prop where
  handling : x.handling = true
  ops : x.ops = ops
  orderly : Orderly x.calls
  restarted : started = true → .asksStop ∈ x.calls → x.running = true

theorem Restoring.calling (hx : Restoring ops isDown x) {call : Call} {isDown' : Bool}
    (hcall : call ≠ .replacesOps)
    (hdown : isDown' = true → downAfter (down x.calls) call = true) :
    Restoring ops isDown' { x with calls := x.calls ++ [call] } where
  handling := hx.handling
  orderly := hx.orderly.append fun h => absurd h hcall
  isDown h := (down_append x.calls call).trans (hdown h)
  kept := hx.kept

theorem Restored.calling {started : Bool} (hx : Restored ops started x) {call : Call}
    (hcall : call ≠ .replacesOps) (hasks : call ≠ .asksStop) :
    Restored ops started { x with calls := x.calls ++ [call] } where
  handling := hx.handling
  ops := hx.ops
  orderly := hx.orderly.append fun h => absurd h hcall
  restarted hstarted hmem := by
    rcases List.mem_append.mp hmem with hmem | hmem
    · exact hx.restarted hstarted hmem
    · exact absurd (List.mem_singleton.mp hmem).symm hasks

theorem wp_stopToRestore (hs : At requested (Restoring ops isDown) s) :
    wp (terms lower) (controllerStop : Worker lower Unit)
      (.orCut (fun _ => At requested (Restoring ops true)) Handling) s := by
  have hstop : wp (terms lower) (controllerStop : Worker lower Unit)
      (.orCut (fun _ => At requested (Restoring ops true))
        (At requested fun x => x.handling = true)) s := by
    unfold controllerStop
    apply wp_control (m := Restoring ops false) (n := Restoring ops false) hs
    · intro _ hx
      exact hx.calling Call.noConfusion fun h => absurd h Bool.false_ne_true
    · exact fun _ hx => ⟨hx.handling, hx.orderly, hx.isDown, hx.kept⟩
    · intro _ hx
      exact hx.calling Call.noConfusion fun _ => rfl
    · exact fun _ hx => hx.handling
    · exact fun _ hx => hx.handling
  exact wp_mono hstop (Post.orCut_le (fun _ _ hok => hok) fun _ hcut => hcut.2)

theorem wp_restoreRollback (hs : At requested (Restoring ops true) s) :
    wp (terms lower) (restoreRollback : Worker lower Unit)
      (.orCut (fun _ => At requested (Restored ops false)) Handling) s := by
  unfold restoreRollback
  refine wp_seq (wp_reads hs) ?_ fun _ hcut => hcut.2.handling
  intro _ s₁ hs₁
  obtain ⟨file, hcopy, hops, hrollback⟩ := hs₁.2.kept
  rw [wp_read_bind, hrollback]
  have hreplaced : wp (terms lower) (replaceOps file.copy : Worker lower Unit)
      (.orCut (fun _ => At requested (Restored ops false))
        (At requested fun x => x.handling = true)) s₁ := by
    apply wp_replaceFile hs₁
    · intro x hx
      have hdown : down x.calls = true := hx.isDown rfl
      refine ⟨hx.handling, ?_, hx.orderly.append fun _ => hdown,
        fun h => absurd h Bool.false_ne_true⟩
      exact (congrArg some hcopy).trans hops.symm
    · exact fun _ hx => hx.handling
    · exact fun _ hx => hx.handling
  exact wp_mono hreplaced (Post.orCut_le (fun _ _ hok => hok) fun _ hcut => hcut.2)

theorem wp_startRestored {started : Bool} (hs : At requested (Restored ops started) s) :
    wp (terms lower) (controllerStart : Worker lower Unit)
      (.orCut (fun _ => At requested (Restored ops true)) Handling) s := by
  have hstart : wp (terms lower) (controllerStart : Worker lower Unit)
      (.orCut (fun _ => At requested (Restored ops true))
        (At requested fun x => x.handling = true)) s := by
    unfold controllerStart
    apply wp_control (m := Restored ops started) (n := Restored ops true) hs
    · exact fun _ hx => hx.calling Call.noConfusion Call.noConfusion
    · exact fun _ hx => ⟨hx.handling, hx.ops, hx.orderly, fun _ _ => rfl⟩
    · exact fun _ hx => hx.calling Call.noConfusion Call.noConfusion
    · exact fun _ hx => hx.handling
    · exact fun _ hx => hx.handling
  exact wp_mono hstart (Post.orCut_le (fun _ _ hok => hok) fun _ hcut => hcut.2)

def Returned (ops : Option OpsFile) : World lower → Prop :=
  Tracked (fun _ _ _ _ => False) fun _ x => Restored ops true x

theorem wp_restoreHeld (hs : At requested (Restored ops true) s) :
    wp (terms lower) (restoreClaim requested : Worker lower Unit)
      (.orCut (fun _ => Returned ops) Handling) s := by
  refine wp_mono (wp_restoreClaim (surroundings lower) (S := fun _ _ _ _ => False)
    ?_ ?_ ?_ hs) (Post.orCut_le ?_ ?_)
  · intro q x key level _ hrow l hl
    have hheld : levelIn lower requested key = some level := hrow
    rw [hheld, Option.some_or] at hl
    exact (Option.some.inj hl).symm
  · intro q x key level _ hrow hnone _
    exact absurd (hnone.symm.trans hrow) (Option.some_ne_none level).symm
  · exact fun _ _ _ _ hrow => hrow
  · rintro _ s₁ ⟨_, x, hx, hrow, _, rfl⟩
    exact ⟨hrow, hx⟩
  · rintro s₁ (hcut | ⟨_, x, hx, _, rfl⟩)
    · exact hcut.2.handling
    · exact hx.handling

theorem wp_changeReturned {f : Site → Site}
    (hf : ∀ x, Restored ops true x → Restored ops true (f x)) (hs : Returned ops s) :
    wp (terms lower) (onSite f : Worker lower Unit)
      (.orCut (fun _ => Returned ops) Handling) s := by
  have hchange : wp (terms lower) (onSite f : Worker lower Unit)
      (.orCut (fun _ => Returned ops) (Returned ops)) s :=
    wp_onSite (surroundings lower) (fun _ x hx => ⟨hf x hx, fun _ _ hrow => hrow⟩) hs
  exact wp_mono hchange (Post.orCut_le (fun _ _ hok => hok) fun _ hcut => hcut.2.handling)

theorem wp_cleanupReturned (hs : Returned ops s) :
    wp (terms lower) (cleanup : Worker lower Unit)
      (.orCut (fun _ => Returned ops) Handling) s := by
  unfold cleanup
  refine wp_seq (wp_changeReturned (f := fun x => { x with rollback := none }) ?_ hs) ?_
    fun _ hcut => hcut
  · exact fun x hx => ⟨hx.handling, hx.ops, hx.orderly, hx.restarted⟩
  intro _ s₁ hs₁
  refine wp_seq (wp_changeReturned (f := fun x => { x with journal := none }) ?_ hs₁) ?_
    fun _ hcut => hcut
  · exact fun x hx => ⟨hx.handling, hx.ops, hx.orderly, hx.restarted⟩
  intro _ s₂ hs₂
  exact wp_mono (wp_wait (surroundings lower) hs₂)
    (Post.orCut_le (fun _ _ hok => hok) fun _ hcut => hcut.2.handling)

theorem wp_undoApplied (hs : At requested (Restoring ops false) s) :
    wp (terms lower) (undoApplied requested : Worker lower Unit)
      (.orCut (fun _ => Returned ops) Handling) s := by
  unfold undoApplied
  refine wp_seq (wp_stopToRestore hs) ?_ fun _ hcut => hcut
  intro _ s₁ hs₁
  refine wp_seq (wp_restoreRollback hs₁) ?_ fun _ hcut => hcut
  intro _ s₂ hs₂
  refine wp_seq (wp_startRestored hs₂) ?_ fun _ hcut => hcut
  intro _ s₃ hs₃
  rw [wp_setLocal_bind]
  have hstarted : At requested (Restored ops true)
      { s₃ with site := { s₃.site with serverMayBeStopped := false } } :=
    ⟨hs₃.1, hs₃.2.handling, hs₃.2.ops, hs₃.2.orderly, hs₃.2.restarted⟩
  refine wp_seq (wp_restoreHeld hstarted) ?_ fun _ hcut => hcut
  intro _ s₄ hs₄
  exact wp_cleanupReturned hs₄

theorem wp_startAgain {started : Bool}
    (hs : At requested (fun x => Restored ops started x ∧ x.serverMayBeStopped = !started) s) :
    wp (terms lower) (startAgain : Worker lower Unit)
      (.orCut (fun _ => At requested (Restored ops true)) Handling) s := by
  unfold startAgain
  rw [wp_read_bind, hs.2.2]
  cases started with
  | true => exact ⟨hs.1, hs.2.1⟩
  | false =>
    rw [Bool.not_false, if_pos rfl, wp_tryCatch]
    have hleft : At requested (Restored ops false) s := ⟨hs.1, hs.2.1⟩
    rw [wp_bind]
    apply wp_handling (wp_startRestored hleft)
    intro _ s₁ hs₁
    exact ⟨hs₁.1, hs₁.2.handling, hs₁.2.ops, hs₁.2.orderly, hs₁.2.restarted⟩

theorem wp_undoRequests (exc : Failure) (hs : At requested (Undoable ops) s) :
    wp (terms lower) (undoRequests requested exc : Worker lower (ℕ × ℕ))
      (.within (fun _ _ => False) (Returned ops)) s := by
  obtain ⟨copied, stopping, hx⟩ := hs.2
  unfold undoRequests
  rw [wp_setLocal_bind, wp_read_bind]
  split
  · rename_i hready
    obtain rfl : copied = true := hx.rollbackReady.symm.trans hready
    have hrestoring : At requested (Restoring ops false)
        { s with site := { s.site with handling := true } } :=
      ⟨hs.1, rfl, hx.orderly, fun h => absurd h Bool.false_ne_true, hx.kept rfl⟩
    rw [wp_bind, wp_tryCatch]
    exact wp_handling (wp_undoApplied hrestoring) fun _ _ hreturned => hreturned
  · rename_i hready
    obtain rfl : copied = false :=
      hx.rollbackReady.symm.trans (Bool.eq_false_iff.mpr hready)
    have hleft : At requested
        (fun x => Restored ops (!stopping) x ∧ x.serverMayBeStopped = !!stopping)
        { s with site := { s.site with handling := true } } := by
      refine ⟨hs.1, ⟨rfl, hx.untouched rfl, hx.orderly, ?_⟩, ?_⟩
      · intro hstarted hmem
        exact absurd hmem (hx.unasked rfl (by simpa using hstarted))
      · rw [Bool.not_not]
        exact hx.serverMayBeStopped
    rw [wp_bind]
    apply wp_handling (wp_startAgain hleft)
    intro _ s₁ hs₁
    rw [Post.next_ok, wp_bind]
    apply wp_handling (wp_restoreHeld hs₁)
    intro _ s₂ hs₂
    rw [Post.next_ok, wp_bind]
    apply wp_handling (wp_cleanupReturned hs₂)
    exact fun _ _ hreturned => hreturned

/-! ### The whole application -/

theorem reported_of_each {R : Queue lower → Site → String → Int → Prop} (h : Each R s)
    (hrow : ∀ key level, R s.applying s.site key level → s.applying.level key = some level) :
    Reported s := by
  intro key level hnewest
  obtain ⟨hfresh, hrest⟩ := h key level hnewest
  apply mem_listPending.mpr
  cases hpending : s.pending.level key with
  | some l => rw [Option.some_or, hfresh l hpending]
  | none =>
    rw [Option.none_or]
    exact hrow key level (hrest hpending)

def Queued (site : Site) : World lower → Prop :=
  Tracked (Kept fun _ _ _ => False) fun _ x => x = site

theorem Fresh.queued (h : Fresh s) : Queued (newProcess s).site (newProcess s) := by
  refine ⟨?_, rfl⟩
  intro key level hnewest
  have hlevel : (s.pending.level key).or (s.applying.level key) = some level :=
    (h.newest key).symm.trans hnewest
  constructor
  · intro l hl
    have hpending : s.pending.level key = some l := hl
    rw [hpending, Option.some_or] at hlevel
    exact Option.some.inj hlevel
  · intro hnone
    have hpending : s.pending.level key = none := hnone
    rw [hpending, Option.none_or] at hlevel
    exact Or.inl hlevel

def InOrder (s : World lower) : Prop := Orderly s.site.calls

def RaisedSafely (s s' : World lower) : Prop := InOrder s' ∧ Undone s s'

/-- All that is asked of a run from `s`. -/
def allOrNothing {α : Type} (s : World lower) (Q : World lower → Prop) :
    Post (World lower) Failure α :=
  ⟨fun _ => Q, fun _ => RaisedSafely s, fun _ => RaisedSafely s, InOrder⟩

theorem Queued.safely {s' : World lower} (h : Queued (newProcess s).site s') :
    RaisedSafely s s' := by
  have hsite : s'.site = (newProcess s).site := h.2
  have hcalls : s'.site.calls = [] := congrArg Site.calls hsite
  have horder : Orderly s'.site.calls := by
    rw [hcalls]
    exact orderly_nil
  refine ⟨horder, ?_, ?_, ?_⟩
  · rw [hsite]
    rfl
  · apply reported_of_each h.1
    intro key level hrow
    rcases hrow with hrow | ⟨_, hfalse⟩
    · exact hrow
    · exact hfalse.elim
  · intro hmem
    rw [hcalls] at hmem
    exact absurd hmem List.not_mem_nil

theorem Returned.safely {s' : World lower} (h : Returned s.site.ops s') : RaisedSafely s s' :=
  ⟨h.2.orderly, h.2.ops, reported_of_each h.1 fun _ _ hfalse => hfalse.elim,
    h.2.restarted rfl⟩

theorem wp_recoverInterrupted {site : Site} (hrollback : site.rollback = none)
    (hjournal : site.journal = none) (hs : Queued site s) :
    wp (terms lower) (recoverInterrupted : Worker lower Unit)
      (.orCut (fun _ => Queued site) (Queued site)) s := by
  unfold recoverInterrupted
  refine wp_seq (wp_wait (surroundings lower) hs) ?_ fun _ hcut => hcut
  intro _ s₁ hs₁
  have hsite : s₁.site = site := hs₁.2
  rw [wp_read_bind, hsite, hrollback, hjournal, if_pos ⟨rfl, rfl⟩]
  exact hs₁

theorem wp_unkilled {α : Type} {p : Worker lower α} {Q : α → World lower → Prop}
    {P R : World lower → Prop} (hp : wp (terms lower) p (.within Q P) s) :
    wp (terms lower) p ⟨Q, fun _ => P, fun _ => P, R⟩ s := by
  apply wp_mono (wp_marked hp)
  constructor
  · exact fun _ _ hok => hok
  · exact fun _ _ hraised => hraised
  · exact fun _ _ hfailed => hfailed.1
  · rintro s' ⟨_, hfail, _⟩
    cases hfail

theorem wp_applyClaimed (codec : Codec) {s₀ : World lower}
    (hs : At requested (Stage s₀.site.ops false false false) s) :
    wp (terms lower)
      (tryCatch (applyRequests codec requested) (undoRequests requested) : Worker lower (ℕ × ℕ))
      (allOrNothing s₀ (At requested fun x => Orderly x.calls)) s := by
  have hundo : ∀ e s', At requested (Undoable s₀.site.ops) s' →
      wp (terms lower) (undoRequests requested e : Worker lower (ℕ × ℕ))
        (allOrNothing s₀ (At requested fun x => Orderly x.calls)) s' := by
    intro e s' hs'
    apply wp_mono (wp_undoRequests e hs')
    constructor
    · exact fun _ _ hfalse => hfalse.elim
    · exact fun _ _ hreturned => hreturned.safely
    · exact fun _ _ hreturned => hreturned.safely
    · exact fun _ hreturned => hreturned.safely.1
  rw [wp_tryCatch]
  apply wp_mono (wp_unkilled (R := InOrder) (wp_applyRequests codec hs))
  constructor
  · exact fun _ _ hok => hok.mono fun _ hx => hx.orderly
  · exact hundo
  · exact hundo
  · exact fun _ hcut => hcut

theorem wp_cleanupApplied (hs : At requested (fun x => Orderly x.calls) s) :
    wp (terms lower) (tryCatch cleanup fun _ => pure () : Worker lower Unit)
      ⟨fun _ => InOrder, fun _ _ => False, fun _ _ => False, InOrder⟩ s := by
  have hchange : ∀ f : Site → Site, (∀ x, (f x).calls = x.calls) → ∀ s₁ : World lower,
      At requested (fun x => Orderly x.calls) s₁ →
      wp (terms lower) (onSite f : Worker lower Unit)
        (.orCut (fun _ => At requested fun x => Orderly x.calls)
          (At requested fun x => Orderly x.calls)) s₁ := by
    intro f hf s₁ hs₁
    apply wp_change hs₁
    intro x hx
    rw [hf]
    exact hx
  have hcleanup : wp (terms lower) (cleanup : Worker lower Unit)
      (.orCut (fun _ => At requested fun x => Orderly x.calls)
        (At requested fun x => Orderly x.calls)) s := by
    unfold cleanup
    refine wp_seq (hchange (fun x => { x with rollback := none }) (fun _ => rfl) s hs) ?_
      fun _ hcut => hcut
    intro _ s₁ hs₁
    refine wp_seq (hchange (fun x => { x with journal := none }) (fun _ => rfl) s₁ hs₁) ?_
      fun _ hcut => hcut
    exact fun _ _ hs₂ => wp_wait (surroundings lower) hs₂
  rw [wp_tryCatch]
  apply wp_mono hcleanup
  apply Post.orCut_imp
  · exact fun _ _ hok => hok.2
  · exact fun _ _ hcut => hcut.2
  · exact fun _ hcut => hcut.2

theorem wp_applyPendingLevels (codec : Codec) (hfresh : Fresh s) :
    wp (terms lower) (applyPendingLevels codec : Worker lower (ℕ × ℕ))
      (allOrNothing s InOrder) (newProcess s) := by
  have hqueued := hfresh.queued
  have hcut : ∀ s', Queued (newProcess s).site s' → RaisedSafely s s' :=
    fun s' hs' => Queued.safely hs'
  unfold applyPendingLevels
  rw [wp_read_bind]
  split
  · rw [wp_bind]
    have hrollback : (newProcess s).site.rollback = none := hfresh.rollback
    have hjournal : (newProcess s).site.journal = none := hfresh.journal
    apply wp_mono (wp_recoverInterrupted hrollback hjournal hqueued)
    refine Post.orCut_imp ?_ (fun _ => hcut) fun s' hs' => (hcut s' hs').1
    intro _ s₁ hs₁
    rw [Post.next_ok, wp_bind]
    apply wp_mono (wp_claim (surroundings lower) hs₁.1 hs₁.2)
    refine Post.orCut_imp ?_ (fun _ => hcut) fun s' hs' => (hcut s' hs').1
    rintro requested s₂ ⟨⟨hrows, hsite⟩, hclaimed⟩
    have hheld : At requested (Stage s.site.ops false false false) s₂ := by
      constructor
      · apply hrows.mono
        intro key level hrow
        rcases hrow with hrow | ⟨_, hfalse⟩
        · exact (hclaimed key).symm.trans hrow
        · exact hfalse.elim
      · rw [hsite]
        exact ⟨rfl, rfl, rfl, orderly_nil, fun h => absurd h Bool.false_ne_true,
          fun _ _ => List.not_mem_nil, fun _ => rfl, fun h => absurd h Bool.false_ne_true⟩
    rw [Post.next_ok, wp_bind]
    apply wp_mono (wp_applyClaimed codec hheld)
    refine ⟨?_, fun _ _ h => h, fun _ _ h => h, fun _ h => h⟩
    intro result s₃ hs₃
    rw [Post.next_ok, wp_bind]
    apply wp_mono (wp_cleanupApplied hs₃)
    exact ⟨fun _ _ h => h, fun _ _ h => h.elim, fun _ _ h => h.elim, fun _ h => h⟩
  · exact hcut _ hqueued

end

/-- Whatever is made to raise before the `except`, an application that raises has changed
nothing. -/
theorem application_all_or_nothing {lower : String → String} (codec : Codec)
    (plan : Plan Failure Request) (s : World lower) (hfresh : Fresh s)
    (hundo : UndoSucceeds (run codec plan s)) :
    Orderly (run codec plan s).state.site.calls ∧
      ∀ e, (run codec plan s).outcome = .raised e → Undone s (run codec plan s).state := by
  have hallowed : ∀ m ∈ (run codec plan s).moments, (terms lower).Allows m := by
    intro m hm
    cases m with
    | done _ _ => trivial
    | struck strike s' => exact hundo _ hm
  have hholds : (allOrNothing s InOrder).Holds (run codec plan s).outcome
      (run codec plan s).state :=
    (exec_sound (terms lower) (applyPendingLevels codec) (wp_applyPendingLevels codec hfresh)
      plan hallowed).1
  generalize (run codec plan s).state = s' at hholds ⊢
  cases houtcome : (run codec plan s).outcome with
  | ok result =>
    rw [houtcome] at hholds
    refine ⟨hholds, ?_⟩
    intro e h
    cases h
  | raised e =>
    rw [houtcome] at hholds
    have hsafely : RaisedSafely s s' := hholds.elim id id
    exact ⟨hsafely.1, fun _ _ => hsafely.2⟩
  | killed =>
    rw [houtcome] at hholds
    refine ⟨hholds, ?_⟩
    intro e h
    cases h

/-! ### A server that does not come up -/

def sampleOps : String := "[\x7b\"name\": \"Alice\", \"level\": 1\x7d]"

def sampleApplied : String :=
  "[\n  \x7b\n    \"name\": \"Alice\",\n    \"level\": 4\n  \x7d\n]\n"

def sampleCodec : Codec where
  loads data :=
    if data = sampleOps.toUTF8.data.toList then
      .ok (.arr [.obj [("name", .str "Alice"), ("level", .int 1)]])
    else .error "Expecting value: line 1 column 1 (char 0)"
  encodeOps _ := sampleApplied.toUTF8.data.toList

theorem alice_named : "Alice" ≠ "" := by decide

theorem four_inRange : (4 : ℤ) ∈ [1, 2, 3, 4] := by decide

def sampleWorld : World String.toLower where
  pending := Queue.empty.put
    { name := "Alice", level := 4, named := alice_named, inRange := four_inRange }
  applying := .empty
  newest key := if key = "alice" then some 4 else none
  site :=
    { ops := some
        { data := sampleOps.toUTF8.data.toList, mode := 0o640, uid := 1000, gid := 1000 } }

theorem sampleWorld_fresh : Fresh sampleWorld := by
  have hlower : "Alice".toLower = "alice" := by decide +kernel
  refine ⟨rfl, rfl, ?_⟩
  intro key
  simp [sampleWorld, hlower]

/-- The levels are written, and the server starts unhealthy. -/
def samplePlan : Plan Failure Request :=
  List.replicate 22 ({} : Decision Failure Request) ++
    [{ verdict := .fail "Minecraft est devenu unhealthy après son démarrage" }]

def sampleFailure : Failure :=
  "niveaux OP annulés, original restauré : Minecraft est devenu unhealthy après son démarrage"

theorem application_all_or_nothing_sample :
    Undone sampleWorld (run sampleCodec samplePlan sampleWorld).state := by
  have hundo : UndoSucceeds (run sampleCodec samplePlan sampleWorld) := by
    unfold UndoSucceeds
    decide +kernel
  have hraised : (run sampleCodec samplePlan sampleWorld).outcome = .raised sampleFailure := by
    decide +kernel
  exact (application_all_or_nothing sampleCodec samplePlan sampleWorld sampleWorld_fresh hundo).2
    sampleFailure hraised

end OpLevelsApplication
