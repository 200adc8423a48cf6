import McAdmin.OpLevelsSafety
import McAdmin.Runs

/-!
# A withdrawn op level

`op_add` and `op_remove` ask the store of op levels, or take back, what the worker applies
at the next restart.  Both are refused while the worker is at work, so they fall between
its runs, but a run that was cut leaves requests in the `applying` file and in its journal.
-/

namespace WithdrawnOpLevels

open CrashLogic PendingOpLevels OpLevelsWorker

variable {lower : String → String} {key : String}

/-! ### The requests of the service -/

structure OpEntry where
  name : String
  level : Int

inductive Fate where
  | done
  | failed
  | failedAfter

/-- What `op_add` and `op_remove` meet. -/
structure Moment where
  /-- The caller may manage ops and the name is valid. -/
  allowed : Bool := true
  /-- `_ensure_op_levels_idle` passes. -/
  idle : Bool := true
  /-- What `list_ops` returns, `none` when it raises. -/
  listed : Option (List OpEntry) := some []
  /-- The game takes the `op` or `deop`. -/
  taken : Bool := true
  stored : Fate := .done

def defaultOpLevel : Int := 4

def immediate (lower : String → String) (listed : Option (List OpEntry)) (playerName : String)
    (level : Int) : Bool :=
  match listed with
  | none => false
  | some entries =>
    match entries.find? fun entry => lower entry.name = lower playerName with
    | some entry => entry.level = level
    | none => level = defaultOpLevel

/-- What `op_add` asks of the store. -/
def opAdd (lower : String → String) (m : Moment) (playerName : String) (level : Int) :
    Option Request :=
  if m.allowed = false ∨ level ∉ [1, 2, 3, 4] then none
  else if m.idle = false then none
  else if m.taken = false then none
  else if immediate lower m.listed playerName level then some (.remove playerName)
  else some (.setLevel playerName level)

/-- What `op_remove` asks of the store. -/
def opRemove (m : Moment) (playerName : String) : Option Request :=
  if m.allowed = false then none
  else if m.idle = false then none
  else if m.taken = false then none
  else some (.remove playerName)

inductive Event where
  | opAdd (m : Moment) (playerName : String) (level : Int)
  | opRemove (m : Moment) (playerName : String)
  | run (plan : Plan Failure Request)
  /-- The game writes its file. -/
  | gameWrites (ops : Option Json)

def asks (lower : String → String) : Event → Option Request
  | .opAdd m playerName level => opAdd lower m playerName level
  | .opRemove m playerName => opRemove m playerName
  | _ => none

def ask (fate : Fate) (request : Option Request) (s : World lower) : World lower :=
  match fate, request with
  | .failed, _ => s
  | _, none => s
  | _, some request => meddle request s

def step (s : World lower) : Event → World lower
  | .opAdd m playerName level => ask m.stored (opAdd lower m playerName level) s
  | .opRemove m playerName => ask m.stored (opRemove m playerName) s
  | .run plan => (OpLevelsWorker.run plan s).state
  | .gameWrites ops => { s with site := { s.site with ops := ops } }

/-- The call takes back the request of the player, and returns. -/
def Withdraws (lower : String → String) (key : String) (event : Event) : Prop :=
  ∃ playerName, lower playerName = key ∧ asks lower event = some (.remove playerName) ∧
    match event with
    | .opAdd m _ _ => m.stored = .done
    | .opRemove m _ => m.stored = .done
    | _ => False

def asksFor (lower : String → String) (key : String) : Request → Bool
  | .setLevel playerName _ => lower playerName = key
  | .remove _ => false

/-- Nobody asks for a level of the player, during a run either. -/
def Unasked (lower : String → String) (key : String) : Event → Prop
  | .run plan => ∀ decision ∈ plan, ∀ request ∈ decision.meddling,
      asksFor lower key request = false
  | event => ∀ request ∈ asks lower event, asksFor lower key request = false

instance : ∀ event, Decidable (Unasked lower key event)
  | .opAdd m playerName level => inferInstanceAs (Decidable (∀ request ∈ asks lower
      (.opAdd m playerName level), asksFor lower key request = false))
  | .opRemove m playerName => inferInstanceAs (Decidable (∀ request ∈ asks lower
      (.opRemove m playerName), asksFor lower key request = false))
  | .run plan => inferInstanceAs (Decidable (∀ decision ∈ plan, ∀ request ∈ decision.meddling,
      asksFor lower key request = false))
  | .gameWrites _ => isTrue nofun

/-! ### Nothing is left of a request -/

/-- The requests a recovery from the journal puts back do not name the player. -/
def Forgotten (lower : String → String) (key : String) (j : Journal) : Prop :=
  if j.phase = .committed then firstLevelIn lower j.unresolved key = none
  else levelIn lower j.requested key = none

instance (j : Journal) : Decidable (Forgotten lower key j) :=
  inferInstanceAs (Decidable (if j.phase = .committed then _ = none else _ = none))

/-- Neither the files of the queue nor what a recovery puts back name the player. -/
structure Clear (key : String) (s : World lower) : Prop where
  pending : s.pending.level key = none
  applying : s.applying.level key = none
  journal : ∀ j, s.site.journal = some j → Forgotten lower key j

/-- What `ops.json`, or the copy that may replace it, says of the player. -/
def Holds (lower : String → String) (key : String) (x : Site) (entry : Entry) : Prop :=
  entryKey lower entry = some key ∧
    (entry ∈ entriesOf x.ops ∨ ∃ data, x.rollback = some data ∧ entry ∈ entriesOf (some data))

/-- Nothing is left of the request, and the file says of the player only what it, or its
copy, said in `x`. -/
structure Gone (key : String) (x : Site) (s : World lower) : Prop where
  clear : Clear key s
  holds : ∀ entry, Holds lower key s.site entry → Holds lower key x entry

def meddleBut (key : String) (request : Request) (s : World lower) : World lower :=
  if asksFor lower key request then s else meddle request s

def terms (key : String) (x : Site) : Terms (World lower) Request where
  meddle := meddleBut key
  struck _ _ := True
  moves _ s := Gone key x s

section

variable {x : Site} {s : World lower} {E F : Site → Prop} {f : Site → Site}

theorem Clear.meddle (h : Clear key s) {request : Request}
    (hrequest : asksFor lower key request = false) : Clear key (meddle request s) := by
  rcases meddle_frame request s with ⟨happlying, hsite⟩
  refine ⟨?_, by rw [happlying]; exact h.applying, by rw [hsite]; exact h.journal⟩
  cases request with
  | setLevel playerName level =>
    by_cases hvalid : playerName ≠ "" ∧ level ∈ [1, 2, 3, 4]
    · have hkey : key ≠ lower playerName := by
        intro heq
        simp [asksFor, heq] at hrequest
      simp only [PendingOpLevels.meddle, setLevel, dif_pos hvalid]
      change (s.pending.put _).level key = none
      rw [Queue.level_put, if_neg hkey, h.pending]
    · simp only [PendingOpLevels.meddle, setLevel, dif_neg hvalid]
      exact h.pending
  | remove playerName =>
    simp only [PendingOpLevels.meddle, remove]
    split
    · exact h.pending
    · rw [Queue.level_pop, h.pending, ite_self]

theorem Gone.meddleBut (h : Gone key x s) (request : Request) :
    Gone key x (meddleBut key request s) := by
  simp only [WithdrawnOpLevels.meddleBut]
  split
  · exact h
  · rename_i hrequest
    refine ⟨h.clear.meddle (Bool.eq_false_iff.mpr hrequest), ?_⟩
    rw [(meddle_frame request s).2]
    exact h.holds

theorem site_meddleBut (request : Request) : (meddleBut key request s).site = s.site := by
  simp only [meddleBut]
  split
  · rfl
  · exact (meddle_frame request s).2

structure Harmless (key : String) (E F : Site → Prop) (f : Site → Site) : Prop where
  journal : ∀ x j, E x → (f x).journal = some j → Forgotten lower key j ∨ x.journal = some j
  holds : ∀ x entry, E x → Holds lower key (f x) entry → Holds lower key x entry
  after : ∀ x, E x → F (f x)

/-! ### Steps that give the player nothing -/

theorem wp_onSite (hf : @Harmless lower key E F f) (hs : Gone key x s) (hE : E s.site) :
    wp (terms key x) (onSite f : Worker lower Unit)
      (.within (fun _ s' => Gone key x s' ∧ F s'.site) (Gone key x)) s := by
  apply wp_mono (wp_performShared_orCut (P := fun s => Gone key x s ∧ E s.site)
    (Q := fun s => Gone key x s ∧ F s.site) (R := Gone key x) _ _ _ ⟨hs, hE⟩)
  · exact Post.orCut_le_within (fun _ _ h => h) fun _ h => h
  · intro request s' hs'
    exact ⟨hs'.1.meddleBut request, by rw [terms, site_meddleBut]; exact hs'.2⟩
  · intro s' hs'
    have hgone : Gone key x { s' with site := f s'.site } := by
      refine ⟨⟨hs'.1.clear.pending, hs'.1.clear.applying, fun j hj => ?_⟩, fun entry hentry => ?_⟩
      · rcases hf.journal _ j hs'.2 hj with hforgotten | hbefore
        · exact hforgotten
        · exact hs'.1.clear.journal j hbefore
      · exact hs'.1.holds entry (hf.holds _ entry hs'.2 hentry)
    exact ⟨_, rfl, hgone, hgone, hf.after _ hs'.2⟩
  · exact fun _ h => h.1

theorem wp_wait (hs : Gone key x s) (hE : E s.site) :
    wp (terms key x) (.performShared .ok : Worker lower Unit)
      (.within (fun _ s' => Gone key x s' ∧ E s'.site) (Gone key x)) s := by
  have hnothing : @Harmless lower key E E id :=
    ⟨fun _ _ _ hj => .inr hj, fun _ _ _ hentry => hentry, fun _ hx => hx⟩
  exact wp_onSite hnothing hs hE

theorem wp_replaceFile (hf : @Harmless lower key E F f) (hs : Gone key x s)
    (hE : E s.site) :
    wp (terms key x) (replaceFile f : Worker lower Unit)
      (.within (fun _ s' => Gone key x s' ∧ F s'.site) (Gone key x)) s := by
  simp only [replaceFile]
  apply wp_seq_within (wp_onSite hf hs hE)
  intro _ s' hs'
  exact wp_wait hs'.1 hs'.2

theorem wp_write {f : World lower → World lower} (hs : Gone key x s) (hf : Gone key x (f s)) :
    wp (terms key x) (write f : Worker lower Unit)
      (.within (fun _ s' => s' = f s) (Gone key x)) s := by
  simp only [write]
  apply wp_seq_within (Q := fun _ s' => s' = f s)
  · exact wp_mono (wp_perform_to rfl hf hs) (Post.orCut_le_within (fun _ _ h => h) fun _ h => h)
  · rintro _ s' rfl
    exact wp_mono (wp_perform_to rfl hf hf) (Post.orCut_le_within (fun _ _ h => h) fun _ h => h)

theorem Gone.setLocal (h : Gone key x s) {f : Site → Site} (hf : ∀ x, (f x).toFiles = x.toFiles) :
    Gone key x { s with site := f s.site } := by
  have hjournal : (f s.site).journal = s.site.journal := congrArg Files.journal (hf s.site)
  have hops : (f s.site).ops = s.site.ops := congrArg Files.ops (hf s.site)
  have hrollback : (f s.site).rollback = s.site.rollback := congrArg Files.rollback (hf s.site)
  refine ⟨⟨h.clear.pending, h.clear.applying, fun j hj => ?_⟩, fun entry hentry => ?_⟩
  · exact h.clear.journal j (hjournal.symm.trans hj)
  · apply h.holds entry
    simpa only [Holds, hops, hrollback] using hentry

/-! ### The accesses of the queue -/

theorem Gone.setQueue (h : Gone key x s) {pending applying : Queue lower}
    (hpending : pending.level key = none) (happlying : applying.level key = none) :
    Gone key x { s with pending, applying } :=
  ⟨⟨hpending, happlying, h.clear.journal⟩, h.holds⟩

theorem wp_claim (hs : Gone key x s) :
    wp (terms key x) (claim : Worker lower _)
      (.within (fun requested s' => Gone key x s' ∧ levelIn lower requested key = none)
        (Gone key x)) s := by
  simp only [claim]
  apply wp_seq_within (wp_wait hs (E := fun _ => True) trivial)
  rintro _ s₁ ⟨hs₁, _⟩
  simp only [wp_read_bind]
  have hclaimed : (s₁.applying.update s₁.pending).level key = none := by
    rw [Queue.level_update, hs₁.clear.pending, hs₁.clear.applying]
    rfl
  apply wp_seq_within (wp_write hs₁ (hs₁.setQueue hs₁.clear.pending hclaimed))
  rintro _ s₂ rfl
  have hs₂ := hs₁.setQueue (Queue.level_empty key) hclaimed
  apply wp_seq_within (wp_write (hs₁.setQueue hs₁.clear.pending hclaimed) hs₂)
  rintro _ s₃ rfl
  exact ⟨hs₂, (levelIn_sorted _ key).trans hclaimed⟩

theorem wp_giveBack (hs : Gone key x s) {next : Queue lower} (hnext : next.level key = none) :
    wp (terms key x) (do
        writePending next
        writeApplying Queue.empty : Worker lower Unit)
      (.within (fun _ => Gone key x) (Gone key x)) s := by
  have hs₁ := hs.setQueue hnext hs.clear.applying
  have hs₂ := hs.setQueue hnext (Queue.level_empty key)
  apply wp_seq_within (wp_write hs hs₁)
  rintro _ s₁ rfl
  apply wp_mono (wp_write hs₁ hs₂)
  exact Post.within_le (fun _ _ h => h ▸ hs₂) fun _ h => h

theorem wp_completeClaim (hs : Gone key x s) {unresolved : List PendingOpLevel}
    (hunresolved : firstLevelIn lower unresolved key = none) :
    wp (terms key x) (completeClaim unresolved : Worker lower Unit)
      (.within (fun _ => Gone key x) (Gone key x)) s := by
  simp only [completeClaim]
  apply wp_seq_within (wp_wait hs (E := fun _ => True) trivial)
  rintro _ s₁ ⟨hs₁, _⟩
  simp only [wp_read_bind]
  apply wp_giveBack hs₁
  rw [level_foldl_putDefault, hs₁.clear.pending, hunresolved]
  rfl

theorem wp_restoreClaim (hs : Gone key x s) {claimed : List PendingOpLevel}
    (hclaimed : levelIn lower claimed key = none) :
    wp (terms key x) (restoreClaim claimed : Worker lower Unit)
      (.within (fun _ => Gone key x) (Gone key x)) s := by
  simp only [restoreClaim]
  apply wp_seq_within (wp_wait hs (E := fun _ => True) trivial)
  rintro _ s₁ ⟨hs₁, _⟩
  simp only [wp_read_bind]
  apply wp_giveBack hs₁
  rw [Queue.level_update, level_foldl_put, hs₁.clear.pending, hclaimed, hs₁.clear.applying]
  rfl

/-! ### The steps of the worker -/

theorem Harmless.of_files (hfiles : ∀ x, (f x).toFiles = x.toFiles) :
    @Harmless lower key (fun _ => True) (fun _ => True) f := by
  refine ⟨fun y j _ hj => ?_, fun y entry _ hentry => ?_, fun _ _ => trivial⟩
  · exact .inr ((congrArg Files.journal (hfiles y)).symm.trans hj)
  · have hops : (f y).ops = y.ops := congrArg Files.ops (hfiles y)
    have hrollback : (f y).rollback = y.rollback := congrArg Files.rollback (hfiles y)
    simpa only [Holds, hops, hrollback] using hentry

theorem wp_writeState (hs : Gone key x s) {phase : Phase} {requested unresolved : List PendingOpLevel}
    (hrequested : levelIn lower requested key = none)
    (hunresolved : firstLevelIn lower unresolved key = none) (hE : E s.site)
    (hkeep : ∀ y journal, E y → E { y with journal := journal }) :
    wp (terms key x) (writeState phase requested unresolved : Worker lower Unit)
      (.within (fun _ s' => Gone key x s' ∧ E s'.site) (Gone key x)) s := by
  apply wp_replaceFile _ hs hE
  refine ⟨fun y j _ hj => ?_, fun y entry _ hentry => hentry, fun y hy => hkeep y _ hy⟩
  left
  rw [← Option.some.inj hj]
  simp only [Forgotten]
  split
  · exact hunresolved
  · exact hrequested

theorem wp_controller (up : Bool) (hs : Gone key x s) :
    wp (terms key x) (do
        onSite fun x => { x with running := up }
        .performShared .ok : Worker lower Unit)
      (.within (fun _ => Gone key x) (Gone key x)) s := by
  have hharmless : @Harmless lower key (fun _ => True) (fun _ => True)
      fun x : Site => { x with running := up } := .of_files fun _ => rfl
  apply wp_seq_within (wp_onSite hharmless hs trivial)
  rintro _ s₁ ⟨hs₁, _⟩
  apply wp_mono (wp_wait hs₁ (E := fun _ => True) trivial)
  exact Post.within_le (fun _ _ h => h.1) fun _ h => h

theorem wp_setLocal (hs : Gone key x s) (hf : ∀ x, (f x).toFiles = x.toFiles) :
    wp (terms key x) (setLocal f : Worker lower Unit)
      (.within (fun _ => Gone key x) (Gone key x)) s :=
  hs.setLocal hf

theorem wp_cleanup (hs : Gone key x s) :
    wp (terms key x) (cleanup : Worker lower Unit)
      (.within (fun _ => Gone key x) (Gone key x)) s := by
  have hrollback : @Harmless lower key (fun _ => True) (fun _ => True)
      fun x : Site => { x with rollback := none } := by
    refine ⟨fun _ _ _ hj => .inr hj, ?_, fun _ _ => trivial⟩
    rintro y entry _ ⟨hkey, hops | ⟨_, hnone, _⟩⟩
    · exact ⟨hkey, .inl hops⟩
    · cases hnone
  have hjournal : @Harmless lower key (fun _ => True) (fun _ => True)
      fun x : Site => { x with journal := none } := by
    refine ⟨fun _ _ _ hj => ?_, fun _ _ _ h => h, fun _ _ => trivial⟩
    cases hj
  simp only [cleanup]
  apply wp_seq_within (wp_onSite hrollback hs trivial)
  rintro _ s₁ ⟨hs₁, _⟩
  apply wp_seq_within (wp_onSite hjournal hs₁ trivial)
  rintro _ s₂ ⟨hs₂, _⟩
  apply wp_mono (wp_wait hs₂ (E := fun _ => True) trivial)
  exact Post.within_le (fun _ _ h => h.1) fun _ h => h

theorem wp_restoreRollback (hs : Gone key x s) :
    wp (terms key x) (restoreRollback : Worker lower Unit)
      (.within (fun _ => Gone key x) (Gone key x)) s := by
  simp only [restoreRollback, wp_read_bind]
  cases hdata : s.site.rollback with
  | none => exact hs
  | some data =>
    have hharmless : @Harmless lower key (fun y => y.rollback = some data)
        (fun _ => True) fun y : Site => { y with ops := some data } := by
      refine ⟨fun _ _ _ hj => .inr hj, ?_, fun _ _ => trivial⟩
      rintro y entry hy ⟨hkey, hops | hcopy⟩
      · exact ⟨hkey, .inr ⟨data, hy, hops⟩⟩
      · exact ⟨hkey, .inr hcopy⟩
    apply wp_mono (wp_replaceFile hharmless hs hdata)
    exact Post.within_le (fun _ _ h => h.1) fun _ h => h

/-! ### The recovery -/

def ReadClear (lower : String → String) (key : String)
    (state : Option Phase × List PendingOpLevel × List PendingOpLevel) : Prop :=
  if state.1 = some .committed then firstLevelIn lower state.2.2 key = none
  else levelIn lower state.2.1 key = none

theorem wp_readState (hs : Gone key x s) {journal : Option Journal}
    (hjournal : ∀ j, journal = some j → Forgotten lower key j) :
    wp (terms key x) (readState journal : Worker lower _)
      (.within (fun state s' => Gone key x s' ∧ ReadClear lower key state) (Gone key x)) s := by
  cases journal with
  | none => exact ⟨hs, rfl⟩
  | some j =>
    apply wp_tryCatch_within
    · refine wp_seq_within (wp_setLocal hs fun _ => rfl) ?_
      intro _ s₁ hs₁
      apply wp_seq_within (wp_wait hs₁ (E := fun _ => True) trivial)
      rintro _ s₂ ⟨hs₂, _⟩
      refine wp_seq_within (wp_setLocal hs₂ fun _ => rfl) ?_
      intro _ s₃ hs₃
      refine ⟨hs₃, ?_⟩
      have hforgotten := hjournal j rfl
      simpa only [ReadClear, Forgotten, Option.some.injEq] using hforgotten
    · intro _ s₁ hs₁
      refine wp_seq_within (wp_setLocal hs₁ fun _ => rfl) ?_
      intro _ s₂ hs₂
      exact ⟨hs₂, rfl⟩

theorem wp_undoInterrupted (hs : Gone key x s) {requested : List PendingOpLevel}
    (hrequested : levelIn lower requested key = none) :
    wp (terms key x) (undoInterrupted requested : Worker lower Unit)
      (.within (fun _ => Gone key x) (Gone key x)) s := by
  have hkept : wp (terms key x) (restoreKept : Worker lower Unit)
      (.within (fun _ => Gone key x) (Gone key x)) s := by
    simp only [restoreKept, wp_read_bind]
    split
    · apply wp_seq_within (wp_controller false hs)
      intro _ s₁ hs₁
      exact wp_restoreRollback hs₁
    · exact hs
  simp only [undoInterrupted]
  apply wp_seq_within hkept
  intro _ s₁ hs₁
  apply wp_seq_within (wp_controller true hs₁)
  intro _ s₂ hs₂
  apply wp_seq_within (wp_restoreClaim hs₂ hrequested)
  intro _ s₃ hs₃
  exact wp_cleanup hs₃

theorem wp_recoverInterrupted (hs : Gone key x s) :
    wp (terms key x) (recoverInterrupted : Worker lower Unit)
      (.within (fun _ => Gone key x) (Gone key x)) s := by
  simp only [recoverInterrupted, wp_read_bind]
  split
  · exact hs
  · apply wp_seq_within (wp_readState hs hs.clear.journal)
    rintro ⟨phase, requested, unresolved⟩ s₁ ⟨hs₁, hclear⟩
    simp only [ReadClear] at hclear
    simp only [recoverFrom]
    split
    · rename_i hcommitted
      rw [if_pos hcommitted] at hclear
      apply wp_seq_within (wp_completeClaim hs₁ hclear)
      intro _ s₂ hs₂
      exact wp_cleanup hs₂
    · rename_i hcut
      rw [if_neg hcut] at hclear
      apply wp_seq_within (Q := fun _ => Gone key x)
      · apply wp_tryCatch_within (wp_undoInterrupted hs₁ hclear)
        intro _ s₂ hs₂
        exact hs₂
      · intro _ s₂ hs₂
        exact hs₂

/-! ### The application -/

theorem harmless_writeOps {entries : List Entry} {requested : List PendingOpLevel}
    (hrequested : levelIn lower requested key = none) :
    @Harmless lower key (fun y => entriesOf y.ops = entries) (fun _ => True) fun y : Site =>
      { y with ops := some (encodeOps (applyRequestedLevels lower entries requested).entries) } := by
  refine ⟨fun _ _ _ hj => .inr hj, ?_, fun _ _ => trivial⟩
  rintro y entry hy ⟨hkey, hops | hcopy⟩
  · refine ⟨hkey, .inl ?_⟩
    rw [entriesOf_encodeOps] at hops
    rcases List.mem_map.mp hops with ⟨entry', hentry', rfl⟩
    rw [entryKey_applyLevel] at hkey
    rw [applyLevel_of_unmatched hkey hrequested, hy]
    exact hentry'
  · exact ⟨hkey, .inr hcopy⟩

theorem unresolved_of_unasked {entries : List Entry} {requested : List PendingOpLevel}
    (hrequested : levelIn lower requested key = none) :
    firstLevelIn lower (applyRequestedLevels lower entries requested).unresolved key = none := by
  cases hunresolved :
      firstLevelIn lower (applyRequestedLevels lower entries requested).unresolved key with
  | none => rfl
  | some level =>
    rw [levelIn_of_unresolved hunresolved] at hrequested
    cases hrequested

theorem wp_writeOps (hs : Gone key x s) {entries : List Entry} {requested : List PendingOpLevel}
    (hrequested : levelIn lower requested key = none) (hE : entriesOf s.site.ops = entries) :
    wp (terms key x) (writeOps (applyRequestedLevels lower entries requested) : Worker lower Unit)
      (.within (fun _ => Gone key x) (Gone key x)) s := by
  simp only [writeOps]
  split
  · exact hs
  · apply wp_mono (wp_replaceFile (harmless_writeOps hrequested) hs hE)
    exact Post.within_le (fun _ _ h => h.1) fun _ h => h

theorem wp_applyCopied (hs : Gone key x s) {entries : List Entry} {requested : List PendingOpLevel}
    (hrequested : levelIn lower requested key = none) (hE : entriesOf s.site.ops = entries) :
    wp (terms key x) (applyCopied requested entries : Worker lower _)
      (.within (fun _ => Gone key x) (Gone key x)) s := by
  have hunresolved : firstLevelIn lower
      (applyRequestedLevels lower entries requested).unresolved key = none :=
    unresolved_of_unasked hrequested
  simp only [applyCopied, setLocal]
  rw [wp_assign_bind]
  have hs₁ : Gone key x { s with site := { s.site with rollbackReady := true } } :=
    hs.setLocal (f := fun x => { x with rollbackReady := true }) fun _ => rfl
  apply wp_seq_within (wp_writeState hs₁ hrequested rfl (E := fun y => entriesOf y.ops = entries)
    hE fun _ _ h => h)
  rintro _ s₂ ⟨hs₂, hE₂⟩
  apply wp_seq_within (wp_writeOps hs₂ hrequested hE₂)
  intro _ s₃ hs₃
  apply wp_seq_within (wp_writeState hs₃ hrequested rfl (E := fun _ => True) trivial fun _ _ h => h)
  rintro _ s₄ ⟨hs₄, _⟩
  apply wp_seq_within (wp_controller true hs₄)
  intro _ s₅ hs₅
  rw [wp_assign_bind]
  have hs₆ : Gone key x { s₅ with site := { s₅.site with serverMayBeStopped := false } } :=
    hs₅.setLocal (f := fun x => { x with serverMayBeStopped := false }) fun _ => rfl
  apply wp_seq_within (wp_writeState hs₆ hrequested hunresolved (E := fun _ => True) trivial
    fun _ _ h => h)
  rintro _ s₇ ⟨hs₇, _⟩
  apply wp_seq_within (wp_completeClaim hs₇ hunresolved)
  intro _ s₈ hs₈
  exact hs₈

theorem wp_applyRequests (hs : Gone key x s) {requested : List PendingOpLevel}
    (hrequested : levelIn lower requested key = none) :
    wp (terms key x) (applyRequests requested : Worker lower _)
      (.within (fun _ => Gone key x) (Gone key x)) s := by
  simp only [applyRequests]
  apply wp_seq_within (wp_writeState hs hrequested rfl (E := fun _ => True) trivial fun _ _ h => h)
  rintro _ s₁ ⟨hs₁, _⟩
  refine wp_seq_within (wp_setLocal hs₁ fun _ => rfl) ?_
  intro _ s₂ hs₂
  apply wp_seq_within (wp_controller false hs₂)
  intro _ s₃ hs₃
  apply wp_seq_within (wp_writeState hs₃ hrequested rfl (E := fun _ => True) trivial fun _ _ h => h)
  rintro _ s₄ ⟨hs₄, _⟩
  simp only [wp_read_bind]
  split
  · exact hs₄
  · rename_i entries hentries
    -- the copy and the file say the same from here to the write
    have hcopy : @Harmless lower key (fun y => y.ops = s₄.site.ops)
        (fun y => entriesOf y.ops = entries) fun y : Site => { y with rollback := s₄.site.ops } := by
      refine ⟨fun _ _ _ hj => .inr hj, ?_, fun y hy => ?_⟩
      · rintro y entry hy ⟨hkey, hops | ⟨data, hdata, hentry⟩⟩
        · exact ⟨hkey, .inl hops⟩
        · refine ⟨hkey, .inl ?_⟩
          rw [hy, show s₄.site.ops = some data from hdata]
          exact hentry
      · rw [show y.ops = s₄.site.ops from hy]
        exact entriesOf_of_readOps hentries
    apply wp_seq_within (wp_replaceFile hcopy hs₄ rfl)
    rintro _ s₅ ⟨hs₅, hE₅⟩
    exact wp_applyCopied hs₅ hrequested hE₅

theorem wp_undoRequests (hs : Gone key x s) {requested : List PendingOpLevel}
    (hrequested : levelIn lower requested key = none) (exc : Failure) :
    wp (terms key x) (undoRequests requested exc : Worker lower _)
      (.within (fun _ => Gone key x) (Gone key x)) s := by
  simp only [undoRequests, wp_read_bind]
  split
  · apply wp_seq_within (Q := fun _ => Gone key x)
    · apply wp_tryCatch_within
      · simp only [undoApplied]
        apply wp_seq_within (wp_controller false hs)
        intro _ s₁ hs₁
        apply wp_seq_within (wp_restoreRollback hs₁)
        intro _ s₂ hs₂
        apply wp_seq_within (wp_controller true hs₂)
        intro _ s₃ hs₃
        refine wp_seq_within (wp_setLocal hs₃ fun _ => rfl) ?_
        intro _ s₄ hs₄
        apply wp_seq_within (wp_restoreClaim hs₄ hrequested)
        intro _ s₅ hs₅
        exact wp_cleanup hs₅
      · intro _ s₁ hs₁
        exact hs₁
    · intro _ s₁ hs₁
      exact hs₁
  · have hstart : wp (terms key x) (startAgain : Worker lower Unit)
        (.within (fun _ => Gone key x) (Gone key x)) s := by
      simp only [startAgain, wp_read_bind]
      split
      · apply wp_tryCatch_within
        · apply wp_seq_within (wp_controller true hs)
          intro _ s₁ hs₁
          exact wp_setLocal hs₁ fun _ => rfl
        · intro _ s₁ hs₁
          exact hs₁
      · exact hs
    apply wp_seq_within hstart
    intro _ s₁ hs₁
    apply wp_seq_within (wp_restoreClaim hs₁ hrequested)
    intro _ s₂ hs₂
    apply wp_seq_within (wp_cleanup hs₂)
    intro _ s₃ hs₃
    exact hs₃

theorem wp_applyPendingLevels (hs : Gone key x s) :
    wp (terms key x) (applyPendingLevels : Worker lower _)
      (.within (fun _ => Gone key x) (Gone key x)) s := by
  simp only [applyPendingLevels, wp_read_bind]
  split
  · apply wp_seq_within (wp_recoverInterrupted hs)
    intro _ s₁ hs₁
    apply wp_seq_within (wp_claim hs₁)
    rintro requested s₂ ⟨hs₂, hrequested⟩
    refine wp_seq_within (wp_setLocal hs₂ fun _ => rfl) ?_
    intro _ s₃ hs₃
    apply wp_seq_within (Q := fun _ => Gone key x)
    · apply wp_tryCatch_within (wp_applyRequests hs₃ hrequested)
      intro exc s₄ hs₄
      exact wp_undoRequests hs₄ hrequested exc
    · intro _ s₄ hs₄
      apply wp_seq_within (Q := fun _ => Gone key x)
      · apply wp_tryCatch_within (wp_cleanup hs₄)
        intro _ s₅ hs₅
        exact hs₅
      · intro _ s₅ hs₅
        exact hs₅
  · exact hs

/-! ### Runs of the worker -/

def after : CrashLogic.Moment (World lower) → Option (World lower)
  | .done _ s => some s
  | .struck _ _ => none

/-- At every step of the run, and at its end, nothing is left of the request, and `ops.json`
says of the player what it, or the copy, said before. -/
structure Untouched (key : String) (s : World lower) (plan : Plan Failure Request) : Prop where
  during : ∀ m ∈ (OpLevelsWorker.run plan s).moments, ∀ s' ∈ after m, Gone key s.site s'
  ended : Gone key s.site (OpLevelsWorker.run plan s).state

theorem Clear.untouched (h : Clear key s) {plan : Plan Failure Request}
    (hplan : Unasked lower key (.run plan)) : Untouched key s plan := by
  have hgone : Gone key s.site { s with site := { s.site with readingState := false } } :=
    ⟨⟨h.pending, h.applying, h.journal⟩, fun _ h => h⟩
  have hrun : OpLevelsWorker.run plan s = exec (meddleBut key) applyPendingLevels plan
      { s with site := { s.site with readingState := false } } := by
    apply exec_congr
    intro d hd request hrequest s'
    simp [meddleBut, hplan d hd request hrequest]
  rcases exec_sound (terms key s.site) applyPendingLevels (wp_applyPendingLevels hgone) plan
    (fun m _ => by cases m <;> trivial) with ⟨hend, hkept⟩
  constructor
  · intro m hm s' hs'
    rw [hrun] at hm
    cases m with
    | done before s'' =>
      obtain rfl := Option.some.inj hs'
      exact hkept _ hm
    | struck strike s'' => cases hs'
  · rw [hrun]
    revert hend
    simp only [terms]
    cases (exec (meddleBut key) applyPendingLevels plan
      { s with site := { s.site with readingState := false } }).outcome with
    | ok value => exact id
    | raised e => rintro (hraised | hfailed) <;> assumption
    | killed => exact id

theorem Clear.ask (h : Clear key s) {request : Option Request} (fate : Fate)
    (hrequest : ∀ r ∈ request, asksFor lower key r = false) : Clear key (ask fate request s) := by
  cases request with
  | none => cases fate <;> exact h
  | some r =>
    have hmeddled : Clear key (PendingOpLevels.meddle r s) := h.meddle (hrequest r rfl)
    cases fate
    · exact hmeddled
    · exact h
    · exact hmeddled

theorem Clear.step (h : Clear key s) {event : Event} (hevent : Unasked lower key event) :
    Clear key (step s event) := by
  cases event with
  | opAdd m playerName level => exact h.ask m.stored hevent
  | opRemove m playerName => exact h.ask m.stored hevent
  | run plan => exact (h.untouched hevent).ended.clear
  | gameWrites ops => exact ⟨h.pending, h.applying, h.journal⟩

theorem Clear.of_withdraws {event : Event} (hevent : Withdraws lower key event)
    (happlying : s.applying.level key = none)
    (hjournal : ∀ j, s.site.journal = some j → Forgotten lower key j) :
    Clear key (WithdrawnOpLevels.step s event) := by
  rcases hevent with ⟨playerName, rfl, hasks, hstored⟩
  have hremoved : Clear (lower playerName)
      (PendingOpLevels.meddle (Request.remove playerName) s) := by
    rcases meddle_frame (.remove playerName) s with ⟨hsame, hsite⟩
    refine ⟨?_, by rw [hsame]; exact happlying, by rw [hsite]; exact hjournal⟩
    simp only [PendingOpLevels.meddle, remove]
    split
    · assumption
    · rw [Queue.level_pop, if_pos rfl]
  cases event with
  | opAdd m player level | opRemove m player =>
    simp only [asks] at hasks
    simp only [WithdrawnOpLevels.step, hasks, hstored]
    exact hremoved
  | run plan => cases hasks
  | gameWrites ops => cases hasks

end

/-! ### What a withdrawal achieves -/

def fresh (lower : String → String) (x : Site) : World lower := ⟨.empty, .empty, fun _ => none, x⟩

/-- Nothing of the player is claimed, recovered or applied. -/
def NeverApplied (key : String) (s : World lower) (event : Event) : Prop :=
  Clear key (step s event) ∧
    match event with
    | .run plan => Untouched key s plan
    | _ => True

/-- The applying file has no request of the player, and a recovery would put none back. -/
def Unclaimed (key : String) (s : World lower) : Prop :=
  s.applying.level key = none ∧ ∀ j ∈ s.site.journal, Forgotten lower key j

/-- In every state that requests and runs of the worker, cut anywhere, lead to: a withdrawal
that finds nothing of the player claimed leaves nothing that any later run could claim,
recover or apply. -/
theorem withdrawn_never_applied (lower : String → String) (key : String) (x : Site)
    (before after : List Event) (event : Event) (hevent : Withdraws lower key event)
    (hunasked : ∀ event ∈ after, Unasked lower key event)
    (hunclaimed : Unclaimed key (Runs.run step (fresh lower x) before)) :
    Runs.Along step (NeverApplied key) (step (Runs.run step (fresh lower x) before) event)
      after := by
  apply Runs.Along.of_invariant (P := Clear key) _ _ _ (Runs.Along.of_mem hunasked)
  · intro s event h hasked
    exact h.step hasked
  · intro s event h hasked
    refine ⟨h.step hasked, ?_⟩
    cases event with
    | run plan => exact h.untouched hasked
    | _ => trivial
  · exact Clear.of_withdraws hevent hunclaimed.1 hunclaimed.2

/-! ### Alice is asked for, claimed and withdrawn -/

def sampleSite : Site where
  ops := some (.arr [.obj [("name", .str "Alice"), ("level", .int 1)]])

def sampleRequest : Event := .opAdd { listed := some [⟨"Alice", 1⟩] } "Alice" 3

/-- The run fails before it writes and puts the request back. -/
def sampleBefore : List Event := [sampleRequest, .run (failAfter 9)]

/-- Bob is asked for, and the run that applies his level is cut and undone. -/
def sampleAfter : List Event :=
  [.opAdd { listed := some [⟨"Bob", 1⟩] } "Bob" 2, .run (killAfter 17), .run []]

instance (s : World lower) : Decidable (Unclaimed key s) :=
  inferInstanceAs (Decidable (_ = none ∧ ∀ j ∈ s.site.journal, Forgotten lower key j))

theorem withdrawn_never_applied_sample :
    Runs.Along step (NeverApplied "alice")
      (step (Runs.run step (fresh String.toLower sampleSite) sampleBefore)
        (.opRemove {} "ALICE")) sampleAfter :=
  withdrawn_never_applied String.toLower "alice" sampleSite sampleBefore sampleAfter
    (.opRemove {} "ALICE") ⟨"ALICE", by decide +kernel, rfl, rfl⟩ (by decide +kernel)
    (by decide +kernel)

/-- The worker is killed once it has claimed level 3 of Alice; the level is withdrawn, and the
next run writes it. -/
theorem withdrawn_level_applied :
    ¬ ∀ (lower : String → String) (key : String) (x : Site) (before after : List Event)
      (event : Event), Withdraws lower key event → (∀ event ∈ after, Unasked lower key event) →
      Runs.Along step (NeverApplied key) (step (Runs.run step (fresh lower x) before) event)
        after := by
  intro h
  let withdrawn := step (Runs.run step (fresh String.toLower sampleSite)
    [sampleRequest, .run (killAfter 5)]) (.opRemove {} "ALICE")
  have hrun := h String.toLower "alice" sampleSite [sampleRequest, .run (killAfter 5)]
    [.run []] (.opRemove {} "ALICE") ⟨"ALICE", by decide +kernel, rfl, rfl⟩ (by decide +kernel)
  have hholds := hrun.1.2.ended.holds
  have hwritten : ∃ entry ∈ entriesOf (OpLevelsWorker.run [] withdrawn).state.site.ops,
      entryKey String.toLower entry = some "alice" ∧ entry.hasLevel 3 = true := by
    decide +kernel
  have hread : ∀ entry ∈ entriesOf withdrawn.site.ops, entry.hasLevel 3 = false := by
    decide +kernel
  have hcopy : withdrawn.site.rollback.isNone = true := by decide +kernel
  rcases hwritten with ⟨entry, hentry, hkey, hlevel⟩
  rcases (hholds entry ⟨hkey, .inl hentry⟩).2 with hbefore | ⟨data, hdata, _⟩
  · rw [hread entry hbefore] at hlevel
    cases hlevel
  · rw [show withdrawn.site.rollback = some data from hdata] at hcopy
    cases hcopy

end WithdrawnOpLevels
