import Mathlib.Data.Rat.Defs
import McAdmin.Runs

/-!
# Temporary bans

`adapters/temp_bans.py`, the bans of `domain/services/moderation.py` and the loop
of `tempban_scheduler.py`.  Each HTTP call, and the poll of the scheduler, stops
between its RCON command and its access to the file of the timers; any other call
may go on there.  An access to the file holds a lock and is one step.

`str.lower`, by which Minecraft compares names, is a parameter.  Times are hours.
The audit record and the notification that end a call touch neither the server nor
the timers; a record that raises counts as the last access failing after its effect.
-/

namespace TempBans

open Runs

/-! ### The timers -/

structure PendingUnban where
  player : String
  unbanAt : Rat
deriving DecidableEq

/-- A new timer takes the place of the one of the same name. -/
def schedule (player : String) (unbanAt : Rat) (entries : List PendingUnban) :
    List PendingUnban :=
  entries.filter (fun entry => entry.player ≠ player) ++ [⟨player, unbanAt⟩]

def cancel (player : String) (entries : List PendingUnban) : List PendingUnban :=
  entries.filter fun entry => entry.player ≠ player

def due (now : Rat) (entries : List PendingUnban) : List PendingUnban :=
  entries.filter fun entry => entry.unbanAt ≤ now

/-! ### The service -/

inductive Refusal where
  | permissionDenied
  | invalidPlayerName (name : String)
  | invalidDuration (hours : Rat)
deriving DecidableEq

/-- `_PLAYER_NAME_RE.match`: the `$` of the pattern allows a final newline. -/
def validPlayerName (name : String) : Bool :=
  let body := if name.toList.getLast? = some '\n' then name.toList.dropLast else name.toList
  3 ≤ body.length ∧ body.length ≤ 16 ∧ body.all fun c => c.isAlphanum || c = '_'

inductive Operation where
  | ban (player : String)
  | banTemporary (player : String) (hours : Rat)
  | pardon (player : String)
deriving DecidableEq

inductive Stage where
  | ban (player : String)
  | banned (player : String)
  | banTemporary (player : String) (hours : Rat)
  | bannedTemporary (player : String) (hours : Rat)
  | cancelled (player : String) (unbanAt : Rat)
  | pardon (player : String)
  | pardoned (player : String)
deriving DecidableEq

def begin (authorized : Bool) (operation : Operation) : Except Refusal Stage :=
  if ¬ authorized then .error .permissionDenied
  else match operation with
    | .ban player =>
      if validPlayerName player then .ok (.ban player) else .error (.invalidPlayerName player)
    | .banTemporary player hours =>
      if ¬ validPlayerName player then .error (.invalidPlayerName player)
      else if hours ≤ 0 then .error (.invalidDuration hours)
      else .ok (.banTemporary player hours)
    | .pardon player =>
      if validPlayerName player then .ok (.pardon player) else .error (.invalidPlayerName player)

/-- The poll: waiting, about to pardon the first of the due players, or about to
cancel a timer and go on with the rest. -/
inductive Poll where
  | waiting
  | pardoning (due : List PendingUnban)
  | pardoned (player : String) (rest : List PendingUnban)
deriving DecidableEq

def Poll.remaining : Poll → List PendingUnban
  | .waiting => []
  | .pardoning due => due
  | .pardoned _ rest => rest

/-- How a step ends: it may raise before its effect or after it. -/
inductive Fate where
  | done
  | failed
  | failedAfter
deriving DecidableEq

/-- The timers, the bans of the server, the calls under way and the poll.  For the
statements: the players whose permanent ban succeeded and was followed by no
temporary one, and the end of the latest temporary ban of each player. -/
structure State where
  entries : List PendingUnban := []
  banned : String → Bool := fun _ => false
  calls : List Stage := []
  poll : Poll := .waiting
  permanent : String → Bool := fun _ => false
  latest : String → Option Rat := fun _ => none

def State.unlessFailed (s : State) (fate : Fate) (f : State → State) : State :=
  if fate = .failed then s else f s

variable (lower : String → String)

def State.setBanned (player : String) (value : Bool) (s : State) : State :=
  { s with banned := Function.update s.banned (lower player) value }

def State.setEntries (f : List PendingUnban → List PendingUnban) (s : State) : State :=
  { s with entries := f s.entries }

def State.setPermanent (player : String) (value : Bool) (s : State) : State :=
  { s with permanent := Function.update s.permanent (lower player) value }

def State.setLatest (player : String) (unbanAt : Rat) (s : State) : State :=
  { s with latest := Function.update s.latest (lower player) (some unbanAt) }

/-- The next step of a call: what it does, and where the call then stands, unless it
raised or was over. -/
def advance (stage : Stage) (now : Rat) (fate : Fate) (s : State) : State × Option Stage :=
  match stage with
  | .ban player =>
    (s.unlessFailed fate (State.setBanned lower player true),
      if fate = .done then some (.banned player) else none)
  | .banned player =>
    let s' := s.unlessFailed fate (State.setEntries (cancel player))
    (if fate = .done then s'.setPermanent lower player true else s', none)
  | .banTemporary player hours =>
    (s.unlessFailed fate (State.setBanned lower player true),
      if fate = .done then some (.bannedTemporary player hours) else none)
  | .bannedTemporary player hours =>
    (s.unlessFailed fate (State.setEntries (cancel player)),
      if fate = .done then some (.cancelled player (now + hours)) else none)
  | .cancelled player unbanAt =>
    let s' := s.unlessFailed fate fun s =>
      (s.setEntries (schedule player unbanAt)).setLatest lower player unbanAt
    (if fate = .done then s'.setPermanent lower player false else s', none)
  | .pardon player =>
    (s.unlessFailed fate (State.setBanned lower player false),
      if fate = .done then some (.pardoned player) else none)
  | .pardoned player => (s.unlessFailed fate (State.setEntries (cancel player)), none)

/-- The next step of the poll; a pardon that raises is skipped. -/
def advancePoll (fate : Fate) (s : State) : State :=
  match s.poll with
  | .waiting => s
  | .pardoning [] => { s with poll := .waiting }
  | .pardoning (entry :: rest) =>
    if validPlayerName entry.player then
      { s.unlessFailed fate (State.setBanned lower entry.player false) with
        poll := if fate = .done then .pardoned entry.player rest else .pardoning rest }
    else { s with poll := .pardoning rest }
  | .pardoned player rest =>
    { s.unlessFailed fate (State.setEntries (cancel player)) with poll := .pardoning rest }

def request (authorized : Bool) (operation : Operation) (s : State) : State :=
  match begin authorized operation with
  | .ok stage => { s with calls := s.calls ++ [stage] }
  | .error _ => s

/-- What is left of the calls once the `i`-th one has taken its step. -/
def callsAfter (calls : List Stage) (i : Nat) : Option Stage → List Stage
  | some stage => calls.set i stage
  | none => calls.eraseIdx i

def proceed (i : Nat) (now : Rat) (fate : Fate) (s : State) : State :=
  match s.calls[i]? with
  | none => s
  | some stage =>
    let (s', next) := advance lower stage now fate s
    { s' with calls := callsAfter s'.calls i next }

/-- The loop of the scheduler reads the timers without the lock. -/
def readDue (now : Rat) (s : State) : State :=
  if s.poll = .waiting then { s with poll := .pardoning (due now s.entries) } else s

/-- A call begins, the `i`-th call takes a step, the poll reads the due timers or takes
a step, or the process restarts with what is on disk and on the server. -/
inductive Event where
  | request (authorized : Bool) (operation : Operation)
  | proceed (i : Nat) (now : Rat) (fate : Fate)
  | poll (now : Rat)
  | pollStep (fate : Fate)
  | restart

def step (s : State) : Event → State
  | .request authorized operation => request authorized operation s
  | .proceed i now fate => proceed lower i now fate s
  | .poll now => readDue now s
  | .pollStep fate => advancePoll lower fate s
  | .restart => { s with calls := [], poll := .waiting }

/-- The player an event pardons without being asked to. -/
def automaticPardon (s : State) : Event → Option String
  | .pollStep _ =>
    match s.poll with
    | .pardoning (entry :: _) => if validPlayerName entry.player then some entry.player else none
    | _ => none
  | _ => none

/-! ### The invariant -/

variable {lower}

structure Invariant (lower : String → String) (s : State) : Prop where
  /-- Nothing is left that could lift a permanent ban. -/
  permanent : ∀ key, s.permanent key = true →
    (∀ entry ∈ s.entries, lower entry.player ≠ key) ∧
      ∀ entry ∈ s.poll.remaining, lower entry.player ≠ key
  unique : s.entries.Pairwise fun entry entry' => lower entry.player ≠ lower entry'.player
  latest : ∀ entry ∈ s.entries, s.latest (lower entry.player) = some entry.unbanAt

def SameSpelling (lower : String → String) (s : State) (player : String) : Prop :=
  ∀ entry ∈ s.entries, lower entry.player = lower player → entry.player = player

def NotDue (lower : String → String) (s : State) (player : String) : Prop :=
  ∀ entry ∈ s.poll.remaining, lower entry.player ≠ lower player

instance (s : State) (player : String) : Decidable (SameSpelling lower s player) :=
  inferInstanceAs (Decidable (∀ entry ∈ s.entries, lower entry.player = lower player → _))

instance (s : State) (player : String) : Decidable (NotDue lower s player) :=
  inferInstanceAs (Decidable (∀ entry ∈ s.poll.remaining, _))

/-- Where a permanent ban removes every timer of the player, and a temporary one
leaves no other. -/
def SparedAt (lower : String → String) (s : State) (stage : Stage) (fate : Fate) : Prop :=
  match stage with
  | .banned player => fate = .done → SameSpelling lower s player ∧ NotDue lower s player
  | .cancelled player _ => fate ≠ .failed → SameSpelling lower s player ∧
      (fate = .failedAfter → s.permanent (lower player) = false)
  | _ => True

def Spared (lower : String → String) (s : State) : Event → Prop
  | .proceed i _ fate => ∀ stage ∈ s.calls[i]?, SparedAt lower s stage fate
  | _ => True

instance (s : State) (stage : Stage) (fate : Fate) : Decidable (SparedAt lower s stage fate) := by
  unfold SparedAt
  cases stage <;> infer_instance

instance (s : State) (event : Event) : Decidable (Spared lower s event) := by
  unfold Spared
  cases event <;> infer_instance

variable {s s' : State} {player : String}

theorem Invariant.shrink (h : Invariant lower s) (hentries : s'.entries.Sublist s.entries)
    (hpoll : ∀ entry ∈ s'.poll.remaining, entry ∈ s.poll.remaining ∨ entry ∈ s.entries)
    (hpermanent : s'.permanent = s.permanent) (hlatest : s'.latest = s.latest) :
    Invariant lower s' := by
  constructor
  · intro key hkey
    rw [hpermanent] at hkey
    obtain ⟨hno, hnot⟩ := h.permanent key hkey
    constructor
    · exact fun entry hentry => hno entry (hentries.subset hentry)
    · intro entry hentry
      rcases hpoll entry hentry with hentry | hentry
      · exact hnot entry hentry
      · exact hno entry hentry
  · exact h.unique.sublist hentries
  · intro entry hentry
    rw [hlatest]
    exact h.latest entry (hentries.subset hentry)

theorem Invariant.unlessFailed (h : Invariant lower s) (fate : Fate) {f : State → State}
    (hf : Invariant lower (f s)) : Invariant lower (s.unlessFailed fate f) := by
  unfold State.unlessFailed
  split
  · exact h
  · exact hf

theorem Invariant.cancel (h : Invariant lower s) (player : String) :
    Invariant lower (s.setEntries (TempBans.cancel player)) :=
  h.shrink List.filter_sublist (fun _ => Or.inl) rfl rfl

theorem Invariant.setBanned (h : Invariant lower s) (player : String) (value : Bool) :
    Invariant lower (s.setBanned lower player value) :=
  ⟨h.permanent, h.unique, h.latest⟩

theorem Invariant.ban (h : Invariant lower s) (hspelling : SameSpelling lower s player)
    (hdue : NotDue lower s player) :
    Invariant lower
      ((s.setEntries (TempBans.cancel player)).setPermanent lower player true) := by
  have hcancel := h.cancel player
  refine ⟨?_, hcancel.unique, hcancel.latest⟩
  intro key hkey
  by_cases hsame : key = lower player
  · subst hsame
    constructor
    · intro entry hentry heq
      obtain ⟨hmem, hne⟩ := List.mem_filter.mp hentry
      exact of_decide_eq_true hne (hspelling entry hmem heq)
    · exact hdue
  · apply hcancel.permanent key
    change Function.update s.permanent (lower player) true key = true at hkey
    rw [Function.update_of_ne hsame] at hkey
    exact hkey

theorem Invariant.schedule (h : Invariant lower s) (hspelling : SameSpelling lower s player)
    (unbanAt : Rat) {permanent : String → Bool}
    (hpermanent : ∀ key, permanent key = true → s.permanent key = true ∧ key ≠ lower player) :
    Invariant lower { (s.setEntries (TempBans.schedule player unbanAt)).setLatest lower player
      unbanAt with permanent := permanent } := by
  have hother : ∀ entry ∈ s.entries.filter fun entry => entry.player ≠ player,
      lower entry.player ≠ lower player := by
    intro entry hentry heq
    obtain ⟨hmem, hne⟩ := List.mem_filter.mp hentry
    exact of_decide_eq_true hne (hspelling entry hmem heq)
  constructor
  · intro key hkey
    obtain ⟨hold, hne⟩ := hpermanent key hkey
    obtain ⟨hno, hnot⟩ := h.permanent key hold
    constructor
    · intro entry hentry
      rcases List.mem_append.mp hentry with hentry | hentry
      · exact hno entry (List.mem_of_mem_filter hentry)
      · obtain rfl := List.mem_singleton.mp hentry
        exact hne.symm
    · exact hnot
  · apply List.pairwise_append.mpr
    refine ⟨h.unique.sublist List.filter_sublist, List.pairwise_singleton _ _, ?_⟩
    intro entry hentry entry' hentry'
    obtain rfl := List.mem_singleton.mp hentry'
    exact hother entry hentry
  · intro entry hentry
    change Function.update s.latest (lower player) (some unbanAt) (lower entry.player) = _
    rcases List.mem_append.mp hentry with hentry | hentry
    · rw [Function.update_of_ne (hother entry hentry)]
      exact h.latest entry (List.mem_of_mem_filter hentry)
    · obtain rfl := List.mem_singleton.mp hentry
      exact Function.update_self ..

theorem Invariant.advance (h : Invariant lower s) {stage : Stage} {now : Rat} {fate : Fate}
    (hspared : SparedAt lower s stage fate) :
    Invariant lower (TempBans.advance lower stage now fate s).1 := by
  cases stage with
  | ban player => exact h.unlessFailed _ (h.setBanned player true)
  | banned player =>
    unfold TempBans.advance
    by_cases hfate : fate = .done
    · subst hfate
      obtain ⟨hspelling, hdue⟩ := hspared rfl
      exact h.ban hspelling hdue
    · simp only [if_neg hfate]
      exact h.unlessFailed _ (h.cancel player)
  | banTemporary player hours => exact h.unlessFailed _ (h.setBanned player true)
  | bannedTemporary player hours => exact h.unlessFailed _ (h.cancel player)
  | cancelled player unbanAt =>
    unfold TempBans.advance
    by_cases hfate : fate = .done
    · subst hfate
      refine h.schedule (hspared nofun).1 unbanAt fun key hkey => ?_
      by_cases hsame : key = lower player
      · rw [hsame] at hkey
        change Function.update s.permanent (lower player) false (lower player) = true at hkey
        rw [Function.update_self] at hkey
        exact absurd hkey nofun
      · change Function.update s.permanent (lower player) false key = true at hkey
        rw [Function.update_of_ne hsame] at hkey
        exact ⟨hkey, hsame⟩
    · simp only [if_neg hfate]
      unfold State.unlessFailed
      split
      · exact h
      · rename_i hnot
        obtain ⟨hspelling, hnever⟩ := hspared hnot
        -- the store may have written before it raised
        have hafter : fate = .failedAfter := by
          cases fate
          · exact absurd rfl hfate
          · exact absurd rfl hnot
          · rfl
        refine h.schedule hspelling unbanAt fun key hkey => ⟨hkey, ?_⟩
        rintro rfl
        exact absurd (hkey.symm.trans (hnever hafter)) nofun
  | pardon player => exact h.unlessFailed _ (h.setBanned player false)
  | pardoned player => exact h.unlessFailed _ (h.cancel player)

theorem poll_unlessFailed {f : State → State} (hf : (f s).poll = s.poll) (fate : Fate) :
    (s.unlessFailed fate f).poll = s.poll := by
  unfold State.unlessFailed
  split
  · rfl
  · exact hf

theorem Invariant.advancePoll (h : Invariant lower s) (fate : Fate) :
    Invariant lower (TempBans.advancePoll lower fate s) := by
  unfold TempBans.advancePoll
  split
  · exact h
  · exact h.shrink (.refl _) (fun _ hentry => absurd hentry List.not_mem_nil) rfl rfl
  · rename_i entry rest hpoll
    have hrest : ∀ e ∈ rest, e ∈ s.poll.remaining := by
      intro e he
      rw [hpoll]
      exact List.mem_cons_of_mem _ he
    split
    · have heffect := h.unlessFailed fate (h.setBanned entry.player false)
      refine heffect.shrink (.refl _) (fun e he => Or.inl ?_) rfl rfl
      rw [poll_unlessFailed rfl]
      apply hrest
      by_cases hfate : fate = .done
      · simpa [hfate, Poll.remaining] using he
      · simpa [hfate, Poll.remaining] using he
    · exact h.shrink (.refl _) (fun e he => Or.inl (hrest e he)) rfl rfl
  · rename_i player rest hpoll
    have heffect := h.unlessFailed fate (h.cancel player)
    refine heffect.shrink (.refl _) (fun e he => Or.inl ?_) rfl rfl
    rw [poll_unlessFailed rfl, hpoll]
    exact he

theorem Invariant.setCalls (h : Invariant lower s) (calls : List Stage) :
    Invariant lower { s with calls := calls } := ⟨h.permanent, h.unique, h.latest⟩

theorem Invariant.request (h : Invariant lower s) (authorized : Bool) (operation : Operation) :
    Invariant lower (TempBans.request authorized operation s) := by
  unfold TempBans.request
  split
  · exact h.setCalls _
  · exact h

theorem Invariant.proceed (h : Invariant lower s) {i : Nat} {now : Rat} {fate : Fate}
    (hspared : Spared lower s (.proceed i now fate)) :
    Invariant lower (TempBans.proceed lower i now fate s) := by
  unfold TempBans.proceed
  split
  · exact h
  · rename_i stage hstage
    exact (h.advance (hspared stage hstage)).setCalls _

theorem Invariant.readDue (h : Invariant lower s) (now : Rat) :
    Invariant lower (TempBans.readDue now s) := by
  unfold TempBans.readDue
  split
  · exact h.shrink (.refl _) (fun _ he => Or.inr (List.mem_of_mem_filter he)) rfl rfl
  · exact h

theorem Invariant.step (h : Invariant lower s) {event : Event} (hspared : Spared lower s event) :
    Invariant lower (TempBans.step lower s event) := by
  cases event with
  | request authorized operation => exact h.request authorized operation
  | proceed i now fate => exact h.proceed hspared
  | poll now => exact h.readDue now
  | pollStep fate => exact h.advancePoll fate
  | restart => exact h.shrink (.refl _) (fun _ he => absurd he List.not_mem_nil) rfl rfl

theorem Invariant.automaticPardon (h : Invariant lower s) {event : Event}
    (hpardon : TempBans.automaticPardon s event = some player) :
    s.permanent (lower player) = false := by
  unfold TempBans.automaticPardon at hpardon
  split at hpardon
  · split at hpardon
    · rename_i entry rest hpoll
      split at hpardon
      · obtain rfl := Option.some.inj hpardon
        by_contra hkey
        obtain ⟨_, hnot⟩ := h.permanent _ (Bool.not_eq_false _ ▸ hkey)
        apply hnot entry _ rfl
        rw [hpoll]
        exact List.mem_cons_self
      · exact absurd hpardon nofun
    · exact absurd hpardon nofun
  · exact absurd hpardon nofun

/-! ### Runs -/

/-- The server and the timers at the start: nothing banned, nothing planned. -/
def initial : State := {}

theorem initial_invariant (lower : String → String) : Invariant lower initial :=
  ⟨fun _ h => absurd h nofun, .nil, fun _ h => absurd h List.not_mem_nil⟩

/-- No automatic pardon lifts a permanent ban that no temporary one followed. -/
def NeverLifted (lower : String → String) (s : State) (event : Event) : Prop :=
  ∀ player, automaticPardon s event = some player → s.permanent (lower player) = false

/-- One timer a player, that of the latest temporary ban. -/
structure OneTimerEach (lower : String → String) (s : State) : Prop where
  unique : s.entries.Pairwise fun entry entry' => lower entry.player ≠ lower entry'.player
  latest : ∀ entry ∈ s.entries, s.latest (lower entry.player) = some entry.unbanAt

/-- In every interleaving in which a permanent ban that succeeds, and a temporary one,
find no timer of another spelling of the name, no poll is about to pardon the player
of a permanent ban that succeeds, and no temporary ban raises after its timer is
written while a permanent one stands. -/
theorem ban_never_lifted (lower : String → String) (events : List Event)
    (hspared : Along (step lower) (Spared lower) initial events) :
    Along (step lower) (NeverLifted lower) initial events ∧
      OneTimerEach lower (run (step lower) initial events) := by
  have hstep : ∀ s event, Invariant lower s → Spared lower s event →
      Invariant lower (step lower s event) := fun _ _ h hs => h.step hs
  constructor
  · refine hspared.of_invariant hstep ?_ (initial_invariant lower)
    intro s event h _ player hpardon
    exact h.automaticPardon hpardon
  · have h := run_induction hstep (initial_invariant lower) hspared
    exact ⟨h.unique, h.latest⟩

/-- A temporary ban, then a permanent one of the same spelling, and polls around them. -/
def sampleEvents (spelling : String) : List Event :=
  [.request true (.banTemporary "Steve" 1), .proceed 0 0 .done, .proceed 0 0 .done,
    .proceed 0 0 .done, .request true (.ban spelling), .proceed 0 0 .done, .proceed 0 0 .done,
    .poll 2, .pollStep .done, .pollStep .done]

theorem ban_never_lifted_sample :
    Along (step String.toLower) (NeverLifted String.toLower) initial (sampleEvents "Steve") :=
  (ban_never_lifted String.toLower (sampleEvents "Steve") (by decide +kernel)).1

/-- The permanent ban spells the name with another case: the timer stays, and its poll
lifts the ban. -/
theorem permanent_ban_lifted :
    ¬ ∀ (lower : String → String) (events : List Event),
      Along (step lower) (NeverLifted lower) initial events := by
  intro h
  let events := (sampleEvents "steve").take 8
  have hpardon : automaticPardon (run (step String.toLower) initial events) (.pollStep .done) =
      some "Steve" := by
    decide +kernel
  have hpermanent : (run (step String.toLower) initial events).permanent "Steve".toLower = true := by
    decide +kernel
  have halong := h String.toLower (events ++ [.pollStep .done])
  have hlast := (along_append.mp halong).2.1 "Steve" hpardon
  rw [hpermanent] at hlast
  exact absurd hlast nofun

end TempBans
