import McAdmin.PendingOpLevels
import McAdmin.Runs

/-!
# The newest request wins

The calls of the store of op levels, each behind the file lock and so at once, in any
order.  Beside the two files a ledger says what the store is for: the newest level asked
for each player that has been neither taken back nor completed, and what the worker has
claimed of it.
-/

namespace NewestWins

open CrashLogic PendingOpLevels Runs

variable {lower : String → String}

/-! ### The calls -/

inductive Call where
  | setLevel (playerName : String) (level : Int)
  | remove (playerName : String)
  | claim
  | completeClaim (unresolved : List PendingOpLevel)
  | restoreClaim (claimed : List PendingOpLevel)

/-- What the last claim has returned, and of that what has become of it. -/
structure Ledger where
  newest : String → Option Int := fun _ => none
  claimed : String → Option Int := fun _ => none
  /-- The newest level is the one the claim in progress holds. -/
  held : String → Bool := fun _ => false
  /-- The request was taken back after the claim. -/
  withdrawn : String → Bool := fun _ => false

def listed (lower : String → String) (items : List PendingOpLevel) (key : String) : Bool :=
  items.any fun item => lower item.name = key

/-- What is put back goes under what is newer, and is gone when it was taken back. -/
def Ledger.putBack (lower : String → String) (items : List PendingOpLevel) (l : Ledger)
    (key : String) : Option Int :=
  (l.newest key).or (if listed lower items key && !l.withdrawn key then l.claimed key else none)

def Ledger.after (lower : String → String) (l : Ledger) : Call → Ledger
  | .setLevel playerName level =>
    if playerName ≠ "" ∧ level ∈ [1, 2, 3, 4] then
      { l with
        newest := Function.update l.newest (lower playerName) (some level)
        held := Function.update l.held (lower playerName) false }
    else l
  | .remove playerName =>
    { l with
      newest := Function.update l.newest (lower playerName) none
      held := Function.update l.held (lower playerName) false
      withdrawn := Function.update l.withdrawn (lower playerName) true }
  | .claim =>
    { newest := l.newest, claimed := l.newest, held := fun key => (l.newest key).isSome }
  | .completeClaim unresolved =>
    { l with
      newest := fun key =>
        if l.held key && !listed lower unresolved key then none
        else l.putBack lower unresolved key
      held := fun _ => false }
  | .restoreClaim claimed =>
    { l with newest := l.putBack lower claimed, held := fun _ => false }

structure State (lower : String → String) where
  store : Store lower Unit
  ledger : Ledger := {}

def onFiles (s : Store lower Unit) : Call → Store lower Unit
  | .setLevel playerName level => meddle (.setLevel playerName level) s
  | .remove playerName => meddle (.remove playerName) s
  | .claim => (exec meddle (claim : OnStore lower Unit String _) [] s).state
  | .completeClaim unresolved =>
    (exec meddle (completeClaim unresolved : OnStore lower Unit String _) [] s).state
  | .restoreClaim claimed =>
    (exec meddle (restoreClaim claimed : OnStore lower Unit String _) [] s).state

def step (s : State lower) (call : Call) : State lower :=
  { store := onFiles s.store call, ledger := s.ledger.after lower call }

def initial (lower : String → String) : State lower :=
  { store := ⟨.empty, .empty, fun _ => none, ()⟩ }

/-! ### What is asked of the store -/

/-- `list_pending` shows the player with this level. -/
def Shown (s : State lower) (key : String) (level : Int) : Prop :=
  ∃ item ∈ listPending s.store, lower item.name = key ∧ item.level = level

/-- `list_pending` shows the newest levels, and nothing else. -/
def ShowsNewest (s : State lower) : Prop :=
  ∀ key level, Shown s key level ↔ s.ledger.newest key = some level

/-- A call shows the newest levels; what ends a claim keeps what is newer, and what it
leaves unresolved is put back. -/
structure NewestWin (s : State lower) (call : Call) : Prop where
  shows : ShowsNewest (step s call)
  newer : ∀ items, call = .completeClaim items ∨ call = .restoreClaim items →
    ∀ key level, s.store.pending.level key = some level → Shown (step s call) key level
  putBack : ∀ items, call = .completeClaim items →
    ∀ item ∈ items, ∃ level, Shown (step s call) (lower item.name) level

/-- The worker hands over requests that its last claim has returned. -/
def Passed (s : State lower) : Call → Prop
  | .completeClaim items => ∀ item ∈ items, s.ledger.claimed (lower item.name) = some item.level
  | .restoreClaim items => ∀ item ∈ items, s.ledger.claimed (lower item.name) = some item.level
  | _ => True

/-- A request is taken back while the applying file has none of the player, and nothing is
put back that was taken back since the claim. -/
def Fair (s : State lower) : Call → Prop
  | .remove playerName => s.store.applying.level (lower playerName) = none
  | .completeClaim items => ∀ item ∈ items, s.ledger.withdrawn (lower item.name) = true →
      s.store.pending.level (lower item.name) ≠ none
  | .restoreClaim items => ∀ item ∈ items, s.ledger.withdrawn (lower item.name) = true →
      s.store.pending.level (lower item.name) ≠ none
  | _ => True

instance (s : State lower) (call : Call) : Decidable (Passed s call) := by
  cases call <;> simp only [Passed] <;> infer_instance

instance (s : State lower) (call : Call) : Decidable (Fair s call) := by
  cases call <;> simp only [Fair] <;> infer_instance

/-! ### What each call does to the files -/

section

variable {s : Store lower Unit}

theorem onFiles_setLevel {playerName : String} {level : Int}
    (h : playerName ≠ "" ∧ level ∈ [1, 2, 3, 4]) :
    (onFiles s (.setLevel playerName level)).applying = s.applying ∧
      ∀ key, (onFiles s (.setLevel playerName level)).pending.level key =
        if key = lower playerName then some level else s.pending.level key := by
  have hset : onFiles s (.setLevel playerName level) = { s with
      pending := s.pending.put ⟨playerName, level, false, h.1, h.2⟩
      newest := Function.update s.newest (lower playerName) (some level) } := by
    simp only [onFiles, meddle, setLevel, dif_pos h]
    rfl
  rw [hset]
  exact ⟨rfl, fun key => Queue.level_put ..⟩

theorem onFiles_setLevel_invalid {playerName : String} {level : Int}
    (h : ¬ (playerName ≠ "" ∧ level ∈ [1, 2, 3, 4])) :
    onFiles s (.setLevel playerName level) = s := by
  simp only [onFiles, meddle, setLevel, dif_neg h]
  rfl

theorem onFiles_remove (playerName : String) :
    (onFiles s (.remove playerName)).applying = s.applying ∧
      ∀ key, (onFiles s (.remove playerName)).pending.level key =
        if key = lower playerName then none else s.pending.level key := by
  simp only [onFiles, meddle, remove]
  split
  · rename_i hnone
    refine ⟨rfl, fun key => ?_⟩
    split
    · rename_i hkey
      rw [hkey, hnone]
    · rfl
  · exact ⟨rfl, fun key => Queue.level_pop ..⟩

theorem onFiles_claim :
    onFiles s .claim = { s with
      pending := .empty, applying := s.applying.update s.pending } := rfl

theorem onFiles_completeClaim (unresolved : List PendingOpLevel) :
    onFiles s (.completeClaim unresolved) = { s with
      pending := unresolved.foldl Queue.putDefault s.pending, applying := .empty } := rfl

theorem onFiles_restoreClaim (claimed : List PendingOpLevel) :
    onFiles s (.restoreClaim claimed) = { s with
      pending := (claimed.foldl Queue.put s.applying).update s.pending, applying := .empty } := rfl

end

/-! ### Lists of claimed requests -/

section

variable {claimed : String → Option Int} {items : List PendingOpLevel}

theorem listed_of_mem {item : PendingOpLevel} (h : item ∈ items) :
    listed lower items (lower item.name) = true :=
  List.any_eq_true.mpr ⟨item, h, decide_eq_true rfl⟩

theorem exists_of_listed {key : String} (h : listed lower items key = true) :
    ∃ item ∈ items, lower item.name = key := by
  rcases List.any_eq_true.mp h with ⟨item, hitem, hkey⟩
  exact ⟨item, hitem, of_decide_eq_true hkey⟩

theorem firstLevelIn_of_claimed
    (h : ∀ item ∈ items, claimed (lower item.name) = some item.level) (key : String) :
    firstLevelIn lower items key = if listed lower items key then claimed key else none := by
  induction items with
  | nil => rfl
  | cons item items ih =>
    have hitem := h item (List.mem_cons_self ..)
    have hrest := ih fun item' hitem' => h item' (List.mem_cons_of_mem _ hitem')
    simp only [firstLevelIn, listed, List.find?_cons, List.any_cons] at hrest ⊢
    by_cases hkey : lower item.name = key
    · simp [hkey, ← hitem]
    · simpa [hkey] using hrest

theorem levelIn_of_claimed
    (h : ∀ item ∈ items, claimed (lower item.name) = some item.level) (key : String) :
    levelIn lower items key = if listed lower items key then claimed key else none := by
  cases hlisted : listed lower items key with
  | false =>
    cases hlevel : levelIn lower items key with
    | none => rfl
    | some level =>
      rcases exists_of_levelIn hlevel with ⟨item, hitem, rfl, _⟩
      rw [listed_of_mem hitem] at hlisted
      cases hlisted
  | true =>
    rcases exists_of_listed hlisted with ⟨item, hitem, rfl⟩
    cases hlevel : levelIn lower items (lower item.name) with
    | none => exact absurd hlevel (levelIn_ne_none hitem)
    | some level =>
      rcases exists_of_levelIn hlevel with ⟨item', hitem', hname, rfl⟩
      rw [if_pos rfl, ← hname, h item' hitem']

end

/-! ### The two files and the ledger -/

structure Agree (s : State lower) (key : String) : Prop where
  shown : (s.store.pending.level key).or (s.store.applying.level key) = s.ledger.newest key
  held : s.ledger.held key = true ↔
    s.store.pending.level key = none ∧ s.store.applying.level key ≠ none
  applying : ∀ level, s.store.applying.level key = some level →
    s.ledger.claimed key = some level ∧ s.ledger.withdrawn key = false

def Invariant (s : State lower) : Prop := ∀ key, Agree s key

theorem initial_invariant : Invariant (initial lower) := by
  intro key
  refine ⟨rfl, ?_, nofun⟩
  simp [initial]

theorem shown_iff {s : State lower} {key : String} {level : Int} :
    Shown s key level ↔
      (s.store.pending.level key).or (s.store.applying.level key) = some level :=
  mem_listPending

theorem Invariant.showsNewest {s : State lower} (h : Invariant s) : ShowsNewest s := by
  intro key level
  rw [shown_iff, (h key).shown]

section

variable {s : State lower} {key : String}

theorem Agree.setLevel (h : Agree s key) (playerName : String) (level : Int) :
    Agree (step s (.setLevel playerName level)) key := by
  by_cases hvalid : playerName ≠ "" ∧ level ∈ [1, 2, 3, 4]
  · rcases onFiles_setLevel (s := s.store) hvalid with ⟨happlying, hpending⟩
    constructor
    · simp only [step, Ledger.after, if_pos hvalid, happlying, hpending, Function.update_apply]
      by_cases hkey : key = lower playerName
      · simp [hkey]
      · simpa [hkey] using h.shown
    · simp only [step, Ledger.after, if_pos hvalid, happlying, hpending, Function.update_apply]
      by_cases hkey : key = lower playerName
      · simp [hkey]
      · simpa [hkey] using h.held
    · simp only [step, Ledger.after, if_pos hvalid, happlying]
      exact h.applying
  · simp only [step, Ledger.after, if_neg hvalid, onFiles_setLevel_invalid hvalid]
    exact ⟨h.shown, h.held, h.applying⟩

theorem Agree.remove (h : Agree s key) {playerName : String}
    (hfair : s.store.applying.level (lower playerName) = none) :
    Agree (step s (.remove playerName)) key := by
  rcases onFiles_remove (s := s.store) playerName with ⟨happlying, hpending⟩
  simp only [step, Ledger.after]
  by_cases hkey : key = lower playerName
  · subst hkey
    constructor
    · simp [happlying, hpending, hfair]
    · simp [happlying, hfair]
    · rw [happlying, hfair]
      nofun
  · constructor
    · simpa [happlying, hpending, hkey] using h.shown
    · simpa [happlying, hpending, hkey] using h.held
    · simpa [happlying, hkey] using h.applying

theorem Agree.claim (h : Agree s key) : Agree (step s .claim) key := by
  have hclaimed : (s.store.applying.update s.store.pending).level key = s.ledger.newest key := by
    rw [Queue.level_update, h.shown]
  simp only [step, onFiles_claim, Ledger.after]
  constructor
  · simp [hclaimed]
  · simp [hclaimed, Option.isSome_iff_ne_none]
  · intro level hlevel
    rw [hclaimed] at hlevel
    exact ⟨hlevel, rfl⟩

theorem Agree.putBack_eq (h : Agree s key) {items : List PendingOpLevel}
    (hfair : ∀ item ∈ items, s.ledger.withdrawn (lower item.name) = true →
      s.store.pending.level (lower item.name) ≠ none) :
    s.ledger.putBack lower items key = (s.store.pending.level key).or
      ((if listed lower items key then s.ledger.claimed key else none).or
        (s.store.applying.level key)) := by
  have hshown := h.shown
  rw [Ledger.putBack, ← hshown]
  cases hpending : s.store.pending.level key with
  | some level => simp
  | none =>
    cases hlisted : listed lower items key with
    | false => simp
    | true =>
      rcases exists_of_listed hlisted with ⟨item, hitem, rfl⟩
      have hwithdrawn : s.ledger.withdrawn (lower item.name) = false := by
        rw [Bool.eq_false_iff]
        intro htrue
        exact hfair item hitem htrue hpending
      cases happlying : s.store.applying.level (lower item.name) with
      | none => simp [hwithdrawn]
      | some level => simp [(h.applying level happlying).1]

theorem Agree.completeClaim (h : Agree s key) {unresolved : List PendingOpLevel}
    (hpassed : Passed s (.completeClaim unresolved)) (hfair : Fair s (.completeClaim unresolved)) :
    Agree (step s (.completeClaim unresolved)) key := by
  have hback := h.putBack_eq hfair
  have hlevel : (unresolved.foldl Queue.putDefault s.store.pending).level key =
      if s.ledger.held key && !listed lower unresolved key then none
      else s.ledger.putBack lower unresolved key := by
    rw [level_foldl_putDefault, firstLevelIn_of_claimed hpassed, hback]
    cases happlying : s.store.applying.level key with
    | none =>
      have hheld : s.ledger.held key = false := by
        rw [Bool.eq_false_iff, ne_eq, h.held, happlying]
        simp
      simp [hheld]
    | some level =>
      have hclaimed := (h.applying level happlying).1
      cases hlisted : listed lower unresolved key with
      | true => simp [hclaimed]
      | false =>
        cases hpending : s.store.pending.level key with
        | none =>
          have hheld : s.ledger.held key = true := by
            rw [h.held, hpending, happlying]
            simp
          simp [hheld]
        | some newer => simp [h.held, hpending]
  simp only [step, onFiles_completeClaim, Ledger.after]
  constructor
  · simpa using hlevel
  · simp
  · nofun

theorem Agree.restoreClaim (h : Agree s key) {claimed : List PendingOpLevel}
    (hpassed : Passed s (.restoreClaim claimed)) (hfair : Fair s (.restoreClaim claimed)) :
    Agree (step s (.restoreClaim claimed)) key := by
  have hback := h.putBack_eq hfair
  simp only [step, onFiles_restoreClaim, Ledger.after]
  constructor
  · simp [level_foldl_put, levelIn_of_claimed hpassed, hback]
  · simp
  · nofun

end

theorem Invariant.step {s : State lower} (h : Invariant s) {call : Call} (hpassed : Passed s call)
    (hfair : Fair s call) : Invariant (step s call) := by
  intro key
  cases call with
  | setLevel playerName level => exact (h key).setLevel playerName level
  | remove playerName => exact (h key).remove hfair
  | claim => exact (h key).claim
  | completeClaim unresolved => exact (h key).completeClaim hpassed hfair
  | restoreClaim claimed => exact (h key).restoreClaim hpassed hfair

/-! ### When the newest wins -/

section

variable {s : State lower}

theorem shown_of_newer {call : Call} {items : List PendingOpLevel} {key : String} {level : Int}
    (hcall : call = .completeClaim items ∨ call = .restoreClaim items)
    (hlevel : s.store.pending.level key = some level) : Shown (step s call) key level := by
  rw [shown_iff]
  rcases hcall with rfl | rfl
  · simp [step, onFiles_completeClaim, level_foldl_putDefault, hlevel]
  · simp [step, onFiles_restoreClaim, hlevel]

theorem shown_of_unresolved {items : List PendingOpLevel} (hpassed : Passed s (.completeClaim items))
    {item : PendingOpLevel} (hitem : item ∈ items) :
    ∃ level, Shown (step s (.completeClaim items)) (lower item.name) level := by
  have hlevel : (items.foldl Queue.putDefault s.store.pending).level (lower item.name) =
      (s.store.pending.level (lower item.name)).or (some item.level) := by
    rw [level_foldl_putDefault, firstLevelIn_of_claimed hpassed, listed_of_mem hitem, if_pos rfl,
      hpassed item hitem]
  cases hpending : s.store.pending.level (lower item.name) with
  | some level => exact ⟨level, shown_of_newer (.inl rfl) hpending⟩
  | none =>
    refine ⟨item.level, shown_iff.mpr ?_⟩
    simp [step, onFiles_completeClaim, hlevel, hpending]

theorem not_showsNewest_remove {playerName : String}
    (happlying : s.store.applying.level (lower playerName) ≠ none) :
    ¬ ShowsNewest (step s (.remove playerName)) := by
  intro hshows
  rcases Option.ne_none_iff_exists'.mp happlying with ⟨level, hlevel⟩
  rcases onFiles_remove (s := s.store) playerName with ⟨hsame, hpending⟩
  have hshown : Shown (step s (.remove playerName)) (lower playerName) level := by
    rw [shown_iff]
    simp [step, hsame, hpending, hlevel]
  have hnewest := (hshows _ _).mp hshown
  simp [step, Ledger.after] at hnewest

theorem not_showsNewest_putBack (h : Invariant s) {call : Call} {items : List PendingOpLevel}
    (hcall : call = .completeClaim items ∨ call = .restoreClaim items)
    (hpassed : ∀ item ∈ items, s.ledger.claimed (lower item.name) = some item.level)
    {item : PendingOpLevel} (hitem : item ∈ items)
    (hwithdrawn : s.ledger.withdrawn (lower item.name) = true)
    (hpending : s.store.pending.level (lower item.name) = none) :
    ¬ ShowsNewest (step s call) := by
  intro hshows
  have happlying : s.store.applying.level (lower item.name) = none := by
    cases hlevel : s.store.applying.level (lower item.name) with
    | none => rfl
    | some level =>
      have hnot := ((h (lower item.name)).applying level hlevel).2
      rw [hwithdrawn] at hnot
      cases hnot
  have hnewest : s.ledger.newest (lower item.name) = none := by
    rw [← (h (lower item.name)).shown, hpending, happlying]
    rfl
  have hclaimed := hpassed item hitem
  have hlisted : listed lower items (lower item.name) = true := listed_of_mem hitem
  have hshown : Shown (step s call) (lower item.name) item.level := by
    rw [shown_iff]
    rcases hcall with rfl | rfl
    · simp [step, onFiles_completeClaim, level_foldl_putDefault, hpending,
        firstLevelIn_of_claimed hpassed, hlisted, hclaimed]
    · simp [step, onFiles_restoreClaim, level_foldl_put, hpending,
        levelIn_of_claimed hpassed, hlisted, hclaimed]
  have hafter := (hshows _ _).mp hshown
  rcases hcall with rfl | rfl
  · simp [step, Ledger.after, Ledger.putBack, hnewest, hwithdrawn] at hafter
  · simp [step, Ledger.after, Ledger.putBack, hnewest, hwithdrawn] at hafter

theorem Invariant.fair_of_showsNewest (h : Invariant s) {call : Call} (hpassed : Passed s call)
    (hshows : ShowsNewest (NewestWins.step s call)) : Fair s call := by
  cases call with
  | setLevel playerName level => trivial
  | remove playerName =>
    by_contra hunfair
    exact not_showsNewest_remove hunfair hshows
  | claim => trivial
  | completeClaim items =>
    intro item hitem hwithdrawn hpending
    exact not_showsNewest_putBack h (.inl rfl) hpassed hitem hwithdrawn hpending hshows
  | restoreClaim items =>
    intro item hitem hwithdrawn hpending
    exact not_showsNewest_putBack h (.inr rfl) hpassed hitem hwithdrawn hpending hshows

theorem Invariant.newestWin_iff (h : Invariant s) {call : Call} (hpassed : Passed s call) :
    NewestWin s call ↔ Fair s call := by
  constructor
  · intro hwin
    exact h.fair_of_showsNewest hpassed hwin.shows
  · intro hfair
    refine ⟨(h.step hpassed hfair).showsNewest, ?_, ?_⟩
    · intro items hcall key level hlevel
      exact shown_of_newer hcall hlevel
    · rintro items rfl item hitem
      exact shown_of_unresolved hpassed hitem

end

/-- In a run of calls in any order the newest level always wins, is kept from what ends a
claim, and what is left unresolved is put back, if and only if no call takes a request back
that the applying file still has, or puts one back that was taken back since the claim. -/
theorem newest_wins_iff (lower : String → String) (calls : List Call)
    (hpassed : Along step Passed (initial lower) calls) :
    Along step NewestWin (initial lower) calls ↔ Along step Fair (initial lower) calls := by
  apply along_congr (P := Invariant) (fun _ _ h => h.newestWin_iff) _ initial_invariant hpassed
  intro s call h hpassed hfair
  exact h.step hpassed hfair

/-- Alice's level is claimed, asked for anew in other letters, and Bob's, claimed too, is left
unresolved; then Bob's is given up. -/
def claimedAndRenewed : List Call :=
  [.setLevel "Alice" 2, .setLevel "Bob" 3, .claim, .setLevel "ALICE" 4,
    .completeClaim [⟨"Bob", 3, false, by decide, by decide⟩], .remove "bob", .claim,
    .restoreClaim []]

example : ((run step (initial String.toLower) claimedAndRenewed).ledger.newest "alice",
    (run step (initial String.toLower) claimedAndRenewed).ledger.newest "bob") =
      (some 4, none) := by
  decide +kernel

theorem newest_wins_sample :
    Along step NewestWin (initial String.toLower) claimedAndRenewed :=
  (newest_wins_iff String.toLower claimedAndRenewed (by decide +kernel)).mpr (by decide +kernel)

/-- A request that was claimed and is taken back is still shown. -/
theorem withdrawn_request_shown :
    ¬ ∀ (lower : String → String) (calls : List Call),
      Along step Passed (initial lower) calls → Along step NewestWin (initial lower) calls := by
  intro h
  have hrun := h String.toLower [.setLevel "alice" 2, .claim, .remove "alice"]
    ⟨trivial, trivial, trivial, trivial⟩
  have hshows := hrun.2.2.1.shows "alice" 2
  rw [shown_iff] at hshows
  revert hshows
  decide +kernel

end NewestWins
