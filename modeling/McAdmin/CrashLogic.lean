import Mathlib.Logic.IsEmpty.Basic

/-!
# Programs that can be cut between two steps

A program over a state `σ` is a tree of elementary steps.  Whatever runs it may
let a step succeed, make it raise, or kill the program before it; other parties
may change the shared part of the state in between.  A *plan* records these
choices, so a run is a function of the program, the plan and the state, and a
statement about every interruption is a statement about every plan.

`wp` is the weakest precondition of a program for three postconditions: the
states it returns in, the states it raises in and the states it can be killed
in.  `exec_sound` turns a `wp` into a fact about every plan; `wp_zoom` runs a
program on a part of a larger state and keeps the rest out of its proof.
-/

namespace CrashLogic

/-! ### Plans -/

/-- The two ways a step is kept from succeeding. -/
inductive Strike where
  | fail
  | kill
deriving DecidableEq, Repr

inductive Verdict (ε : Type) where
  | go
  | fail (error : ε)
  | kill
deriving DecidableEq, Repr

/-- What happens at one step: the other parties act, then the step is decided. -/
structure Decision (ε ι : Type) where
  meddling : List ι := []
  verdict : Verdict ε := .go
deriving DecidableEq, Repr

/-- A plan decides the first steps; every step after its end succeeds alone. -/
abbrev Plan (ε ι : Type) := List (Decision ε ι)

def Plan.next {ε ι : Type} : Plan ε ι → Decision ε ι × Plan ε ι
  | [] => ({}, [])
  | d :: rest => (d, rest)

/-! ### Programs -/

inductive Prog (σ ε : Type) : Type → Type 1 where
  | pure {α : Type} (value : α) : Prog σ ε α
  | throw {α : Type} (error : ε) : Prog σ ε α
  /-- Read or set what only the program sees: never cut, never failing. -/
  | silent {α β : Type} (effect : σ → β × σ) (next : β → Prog σ ε α) : Prog σ ε α
  /-- An elementary step; before a `shared` one the other parties may act. -/
  | step {α : Type} (shared : Bool) (effect : σ → Except ε σ) (next : Prog σ ε α) : Prog σ ε α
  | attempt {α β : Type} (body : Prog σ ε β) (handler : ε → Prog σ ε β)
      (next : β → Prog σ ε α) : Prog σ ε α

namespace Prog

variable {σ ε α β : Type}

def bind : Prog σ ε α → (α → Prog σ ε β) → Prog σ ε β
  | .pure a, g => g a
  | .throw e, _ => .throw e
  | .silent f k, g => .silent f fun b => (k b).bind g
  | .step x f k, g => .step x f (k.bind g)
  | .attempt body h k, g => .attempt body h fun b => (k b).bind g

instance : Monad (Prog σ ε) where
  pure := .pure
  bind := .bind

instance : MonadExceptOf ε (Prog σ ε) where
  throw := .throw
  tryCatch body handler := .attempt body handler .pure

def read (f : σ → α) : Prog σ ε α := .silent (fun s => (f s, s)) .pure

def assign (f : σ → σ) : Prog σ ε Unit := .silent (fun s => ((), f s)) .pure

/-- A step on a part of the state nobody else writes. -/
def perform (f : σ → Except ε σ) : Prog σ ε Unit := .step false f (.pure ())

/-- A step on a part of the state others write too. -/
def performShared (f : σ → Except ε σ) : Prog σ ε Unit := .step true f (.pure ())

end Prog

/-! ### Runs -/

inductive Outcome (ε α : Type) where
  | ok (value : α)
  | raised (error : ε)
  | killed
deriving DecidableEq, Repr

/-- What a run went through, step by step. -/
inductive Moment (σ : Type) where
  | done (before after : σ)
  | struck (strike : Strike) (state : σ)

structure Result (σ ε ι α : Type) where
  outcome : Outcome ε α
  state : σ
  plan : Plan ε ι
  moments : List (Moment σ)

section Runs

variable {σ ε ι α β : Type}

def Result.after (past : List (Moment σ)) (r : Result σ ε ι α) : Result σ ε ι α :=
  { r with moments := past ++ r.moments }

def meddled (meddle : ι → σ → σ) (acts : List ι) (s : σ) : σ :=
  acts.foldl (fun s i => meddle i s) s

/-- Nobody else acts. -/
def alone : Empty → σ → σ := fun i => i.elim

def exec (meddle : ι → σ → σ) {α : Type} :
    Prog σ ε α → Plan ε ι → σ → Result σ ε ι α
  | .pure a, pl, s => ⟨.ok a, s, pl, []⟩
  | .throw e, pl, s => ⟨.raised e, s, pl, []⟩
  | .silent f k, pl, s => exec meddle (k (f s).1) pl (f s).2
  | .step x f k, pl, s =>
    let s' := if x then meddled meddle pl.next.1.meddling s else s
    match pl.next.1.verdict with
    | .go =>
      match f s' with
      | .ok s'' => (exec meddle k pl.next.2 s'').after [.done s' s'']
      | .error e => ⟨.raised e, s', pl.next.2, []⟩
    | .fail e => ⟨.raised e, s', pl.next.2, [.struck .fail s']⟩
    | .kill => ⟨.killed, s', pl.next.2, [.struck .kill s']⟩
  | .attempt body h k, pl, s =>
    let r := exec meddle body pl s
    match r.outcome with
    | .ok b => (exec meddle (k b) r.plan r.state).after r.moments
    | .killed => ⟨.killed, r.state, r.plan, r.moments⟩
    | .raised e =>
      let r' := (exec meddle (h e) r.plan r.state).after r.moments
      match r'.outcome with
      | .ok b => (exec meddle (k b) r'.plan r'.state).after r'.moments
      | .killed => ⟨.killed, r'.state, r'.plan, r'.moments⟩
      | .raised e' => ⟨.raised e', r'.state, r'.plan, r'.moments⟩

/-- A run of a body, and what the handler makes of its error. -/
def Result.caught (r : Result σ ε ι α) (handle : ε → Plan ε ι → σ → Result σ ε ι α) :
    Result σ ε ι α :=
  match r.outcome with
  | .raised e => (handle e r.plan r.state).after r.moments
  | _ => r

/-- A run, and what follows when it returns. -/
def Result.andThen (r : Result σ ε ι β) (next : β → Plan ε ι → σ → Result σ ε ι α) :
    Result σ ε ι α :=
  match r.outcome with
  | .ok b => (next b r.plan r.state).after r.moments
  | .raised e => ⟨.raised e, r.state, r.plan, r.moments⟩
  | .killed => ⟨.killed, r.state, r.plan, r.moments⟩

theorem exec_attempt (meddle : ι → σ → σ) (body : Prog σ ε β) (h : ε → Prog σ ε β)
    (k : β → Prog σ ε α) (pl : Plan ε ι) (s : σ) :
    exec meddle (.attempt body h k) pl s =
      ((exec meddle body pl s).caught fun e => exec meddle (h e)).andThen
        fun b => exec meddle (k b) := by
  simp only [exec, Result.caught]
  cases ho : (exec meddle body pl s).outcome with
  | ok b => simp only [Result.andThen, ho]
  | raised e =>
    simp only [Result.andThen]
    generalize (exec meddle (h e) _ _).after _ = r
    cases r.outcome <;> rfl
  | killed => simp only [Result.andThen, ho]

theorem Result.caught_congr {r : Result σ ε ι α} {f g : ε → Plan ε ι → σ → Result σ ε ι α}
    (h : ∀ e, r.outcome = .raised e → f e r.plan r.state = g e r.plan r.state) :
    r.caught f = r.caught g := by
  simp only [Result.caught]
  split
  · rename_i e he
    rw [h e he]
  · rfl

theorem Result.andThen_congr {r : Result σ ε ι β} {f g : β → Plan ε ι → σ → Result σ ε ι α}
    (h : ∀ b, r.outcome = .ok b → f b r.plan r.state = g b r.plan r.state) :
    r.andThen f = r.andThen g := by
  simp only [Result.andThen]
  cases ho : r.outcome with
  | ok b => simp only [h b ho]
  | raised e => rfl
  | killed => rfl

/-- Whatever holds of a body and of what a handler makes of its errors. -/
theorem Result.caught_of {C : Result σ ε ι α → Prop} {r : Result σ ε ι α}
    {handle : ε → Plan ε ι → σ → Result σ ε ι α} (hr : C r)
    (hhandle : ∀ e, r.outcome = .raised e → C ((handle e r.plan r.state).after r.moments)) :
    C (r.caught handle) := by
  simp only [Result.caught]
  split
  · rename_i e he
    exact hhandle e he
  · exact hr

/-- Whatever holds of a run that is cut short and of what follows one that returns. -/
theorem Result.andThen_of {C : Result σ ε ι α → Prop} {r : Result σ ε ι β}
    {next : β → Plan ε ι → σ → Result σ ε ι α}
    (hnext : ∀ b, r.outcome = .ok b → C ((next b r.plan r.state).after r.moments))
    (hraised : ∀ e, r.outcome = .raised e → C ⟨.raised e, r.state, r.plan, r.moments⟩)
    (hkilled : r.outcome = .killed → C ⟨.killed, r.state, r.plan, r.moments⟩) :
    C (r.andThen next) := by
  simp only [Result.andThen]
  cases ho : r.outcome with
  | ok b => exact hnext b ho
  | raised e => exact hraised e ho
  | killed => exact hkilled ho

/-- Nothing struck, and nothing left of a plan. -/
def Result.Smooth (r : Result σ ε ι α) : Prop :=
  r.plan = [] ∧ ∀ k s', Moment.struck k s' ∉ r.moments

theorem Result.Smooth.after {r : Result σ ε ι α} (h : r.Smooth) {past : List (Moment σ)}
    (hpast : ∀ k s', Moment.struck k s' ∉ past) : (r.after past).Smooth :=
  ⟨h.1, fun k s' hm => (List.mem_append.mp hm).elim (hpast k s') (h.2 k s')⟩

/-- A run without a plan is never struck. -/
theorem exec_nil (meddle : ι → σ → σ) (p : Prog σ ε α) (s : σ) :
    (exec meddle p [] s).plan = [] ∧
      ∀ k s', Moment.struck k s' ∉ (exec meddle p [] s).moments := by
  induction p generalizing s with
  | pure a => exact ⟨rfl, fun _ _ => List.not_mem_nil⟩
  | throw e => exact ⟨rfl, fun _ _ => List.not_mem_nil⟩
  | silent f k ih => exact ih _ _
  | step x f k ih =>
    simp only [exec, Plan.next, meddled, List.foldl_nil, ite_self]
    cases f s with
    | ok s' =>
      refine ⟨(ih s').1, fun k s'' hm => ?_⟩
      simp only [Result.after, List.singleton_append, List.mem_cons, reduceCtorEq, false_or] at hm
      exact (ih s').2 k s'' hm
    | error e => exact ⟨rfl, fun _ _ => List.not_mem_nil⟩
  | attempt body h k ihb ihh ihk =>
    have hcaught : ((exec meddle body [] s).caught fun e => exec meddle (h e)).Smooth := by
      refine Result.caught_of (C := Result.Smooth) (ihb s) fun e _ => ?_
      rw [(ihb s).1]
      exact Result.Smooth.after (ihh e _) (ihb s).2
    rw [exec_attempt]
    refine Result.andThen_of (C := Result.Smooth) (fun b _ => ?_) (fun _ _ => hcaught)
      fun _ => hcaught
    rw [hcaught.1]
    exact Result.Smooth.after (ihk b _) hcaught.2

theorem Plan.next_subset (pl : Plan ε ι) : pl.next.2 ⊆ pl := by
  cases pl with
  | nil => exact List.Subset.refl []
  | cons d rest => exact List.subset_cons_self d rest

theorem Result.caught_plan_subset {r : Result σ ε ι α} {handle : ε → Plan ε ι → σ → Result σ ε ι α}
    {pl : Plan ε ι} (hr : r.plan ⊆ pl) (hhandle : ∀ e, (handle e r.plan r.state).plan ⊆ r.plan) :
    (r.caught handle).plan ⊆ pl :=
  Result.caught_of (C := fun r => r.plan ⊆ pl) hr fun e _ => List.Subset.trans (hhandle e) hr

/-- What a run leaves of its plan is part of it. -/
theorem exec_plan_subset (meddle : ι → σ → σ) (p : Prog σ ε α) (pl : Plan ε ι) (s : σ) :
    (exec meddle p pl s).plan ⊆ pl := by
  induction p generalizing pl s with
  | pure a => exact List.Subset.refl pl
  | throw e => exact List.Subset.refl pl
  | silent f k ih => exact ih _ pl _
  | step x f k ih =>
    simp only [exec]
    generalize (if x then meddled meddle pl.next.1.meddling s else s) = s'
    cases pl.next.1.verdict with
    | go =>
      cases f s' with
      | ok s'' => exact List.Subset.trans (ih _ s'') pl.next_subset
      | error e => exact pl.next_subset
    | fail e => exact pl.next_subset
    | kill => exact pl.next_subset
  | attempt body h k ihb ihh ihk =>
    have hcaught : ((exec meddle body pl s).caught fun e => exec meddle (h e)).plan ⊆ pl :=
      Result.caught_plan_subset (ihb pl s) fun e => ihh e _ _
    rw [exec_attempt]
    exact Result.andThen_of (C := fun r => r.plan ⊆ pl)
      (fun b _ => List.Subset.trans (ihk b _ _) hcaught) (fun _ _ => hcaught) fun _ => hcaught

/-- Two ways for the other parties to act that agree on what a plan has them do give the
same run. -/
theorem exec_congr {meddle meddle' : ι → σ → σ} (p : Prog σ ε α) {pl : Plan ε ι} {s : σ}
    (h : ∀ d ∈ pl, ∀ i ∈ d.meddling, ∀ s, meddle i s = meddle' i s) :
    exec meddle p pl s = exec meddle' p pl s := by
  have hacts : ∀ {acts : List ι} {s : σ}, (∀ i ∈ acts, ∀ s, meddle i s = meddle' i s) →
      meddled meddle acts s = meddled meddle' acts s := by
    intro acts s hacts
    simp only [meddled]
    induction acts generalizing s with
    | nil => rfl
    | cons i acts ih =>
      rw [List.foldl_cons, List.foldl_cons, hacts i (List.mem_cons_self ..)]
      exact ih fun i' hi' => hacts i' (List.mem_cons_of_mem _ hi')
  induction p generalizing pl s with
  | pure a => rfl
  | throw e => rfl
  | silent f k ih => exact ih _ h
  | step x f k ih =>
    have hfirst : ∀ i ∈ pl.next.1.meddling, ∀ s, meddle i s = meddle' i s := by
      cases pl with
      | nil => exact fun i hi => absurd hi List.not_mem_nil
      | cons d rest => exact h d (List.mem_cons_self ..)
    have hrest : ∀ d ∈ pl.next.2, ∀ i ∈ d.meddling, ∀ s, meddle i s = meddle' i s := by
      cases pl with
      | nil => exact h
      | cons d rest => exact fun d' hd' => h d' (List.mem_cons_of_mem _ hd')
    have hstep : ∀ s', exec meddle k pl.next.2 s' = exec meddle' k pl.next.2 s' :=
      fun s' => ih hrest
    simp only [exec, hacts hfirst, hstep]
  | attempt body handler k ihb ihh ihk =>
    have hcaught : ((exec meddle body pl s).caught fun e => exec meddle (handler e)) =
        (exec meddle' body pl s).caught fun e => exec meddle' (handler e) := by
      rw [ihb h]
      refine Result.caught_congr fun e _ => ihh e fun d hd => ?_
      exact h d (exec_plan_subset meddle' body pl s hd)
    rw [exec_attempt, exec_attempt, hcaught]
    refine Result.andThen_congr fun b _ => ihk b fun d hd => h d (Result.caught_plan_subset ?_ ?_ hd)
    · exact exec_plan_subset meddle' body pl s
    · exact fun e => exec_plan_subset meddle' (handler e) _ _

end Runs

/-! ### Weakest preconditions -/

/-- What is assumed of the surroundings of a program, and what is asked of each
of its completed steps. -/
structure Terms (σ ι : Type) where
  /-- How another party acts. -/
  meddle : ι → σ → σ
  /-- The states in which a step may fail, or the program be killed. -/
  struck : Strike → σ → Prop
  /-- What every completed step has to satisfy. -/
  moves : σ → σ → Prop

/-- The states a program returns in, raises in of its own accord, raises in
because a step was made to fail, and is killed in. -/
structure Post (σ ε α : Type) where
  ok : α → σ → Prop
  raised : ε → σ → Prop
  failed : ε → σ → Prop
  killed : σ → Prop

section Wp

variable {σ ε ι α β : Type}

/-- The same three exceptional ends, another value. -/
def Post.next {β : Type} (Φ : Post σ ε α) (Q : β → σ → Prop) : Post σ ε β :=
  ⟨Q, Φ.raised, Φ.failed, Φ.killed⟩

@[simp] theorem Post.next_ok {β : Type} (Φ : Post σ ε α) (Q : β → σ → Prop) :
    (Φ.next Q).ok = Q := rfl

def wp (T : Terms σ ι) {α : Type} : Prog σ ε α → Post σ ε α → σ → Prop
  | .pure a, Φ, s => Φ.ok a s
  | .throw e, Φ, s => Φ.raised e s
  | .silent f k, Φ, s => wp T (k (f s).1) Φ (f s).2
  | .step x f k, Φ, s =>
    ∀ acts : List ι, (x = false → acts = []) →
      let s' := meddled T.meddle acts s
      (match f s' with
        | .ok s'' => T.moves s' s'' ∧ wp T k Φ s''
        | .error e => Φ.raised e s') ∧
      (T.struck .fail s' → ∀ e, Φ.failed e s') ∧
      (T.struck .kill s' → Φ.killed s')
  | .attempt body h k, Φ, s =>
    wp T body
      ⟨fun b s' => wp T (k b) Φ s',
       fun e s' => wp T (h e) (Φ.next fun b s'' => wp T (k b) Φ s'') s',
       fun e s' => wp T (h e) (Φ.next fun b s'' => wp T (k b) Φ s'') s',
       Φ.killed⟩ s

/-- An error of the body reaches the handler, whatever its origin. -/
theorem wp_attempt (T : Terms σ ι) (body : Prog σ ε β) (h : ε → Prog σ ε β) (k : β → Prog σ ε α)
    (Φ : Post σ ε α) (s : σ) :
    wp T (.attempt body h k) Φ s ↔
      wp T body
        ⟨fun b s' => wp T (k b) Φ s',
         fun e s' => wp T (h e) (Φ.next fun b s'' => wp T (k b) Φ s'') s',
         fun e s' => wp T (h e) (Φ.next fun b s'' => wp T (k b) Φ s'') s',
         Φ.killed⟩ s := Iff.rfl

/-- `Φ` implies `Ψ` on every way to end. -/
structure Post.Le (Φ Ψ : Post σ ε α) : Prop where
  ok : ∀ a s, Φ.ok a s → Ψ.ok a s
  raised : ∀ e s, Φ.raised e s → Ψ.raised e s
  failed : ∀ e s, Φ.failed e s → Ψ.failed e s
  killed : ∀ s, Φ.killed s → Ψ.killed s

theorem wp_mono {T : Terms σ ι} {p : Prog σ ε α} {Φ Ψ : Post σ ε α} {s : σ}
    (h : wp T p Φ s) (hle : Φ.Le Ψ) : wp T p Ψ s := by
  induction p generalizing s with
  | pure a => exact hle.ok _ _ h
  | throw e => exact hle.raised _ _ h
  | silent f k ih => exact ih _ h hle
  | step x f k ih =>
    intro acts hacts
    obtain ⟨hstep, hfail, hkill⟩ := h acts hacts
    refine ⟨?_, fun hs e => hle.failed _ _ (hfail hs e), fun hs => hle.killed _ (hkill hs)⟩
    cases hf : f (meddled T.meddle acts s) with
    | ok s'' =>
      simp only [hf] at hstep
      exact ⟨hstep.1, ih hstep.2 hle⟩
    | error e =>
      simp only [hf] at hstep
      exact hle.raised _ _ hstep
  | attempt body handler k ihb ihh ihk =>
    have hhandler : ∀ e s',
        wp T (handler e) (Φ.next fun b s'' => wp T (k b) Φ s'') s' →
        wp T (handler e) (Ψ.next fun b s'' => wp T (k b) Ψ s'') s' := fun e s' he =>
      ihh e he ⟨fun b s'' hb => ihk b hb hle, hle.raised, hle.failed, hle.killed⟩
    exact ihb h ⟨fun b s' hb => ihk b hb hle, hhandler, hhandler, hle.killed⟩

/-- Return in `Q`, or be cut short in `P`: nothing is raised that was not struck. -/
def Post.orCut (Q : α → σ → Prop) (P : σ → Prop) : Post σ ε α :=
  ⟨Q, fun _ _ => False, fun _ => P, P⟩

theorem Post.orCut_le {Q Q' : α → σ → Prop} {P P' : σ → Prop} (hQ : ∀ a s, Q a s → Q' a s)
    (hP : ∀ s, P s → P' s) : (Post.orCut Q P : Post σ ε α).Le (.orCut Q' P') :=
  ⟨hQ, fun _ _ h => h, fun _ => hP, hP⟩

theorem Post.orCut_imp {Q : α → σ → Prop} {P : σ → Prop} {Ψ : Post σ ε α}
    (hQ : ∀ a s, Q a s → Ψ.ok a s) (hF : ∀ e s, P s → Ψ.failed e s)
    (hK : ∀ s, P s → Ψ.killed s) : (Post.orCut Q P : Post σ ε α).Le Ψ :=
  ⟨hQ, fun _ _ h => h.elim, hF, hK⟩

/-- Like `orCut`, but a struck step may have been turned into an error of the
program; `c` says that some step may be struck so. -/
def Post.orFail (Q : α → σ → Prop) (P : σ → Prop) (c : Prop) : Post σ ε α :=
  ⟨Q, fun _ s => P s ∧ c, fun _ => P, P⟩

theorem Post.orFail_le {Q Q' : α → σ → Prop} {P P' : σ → Prop} {c c' : Prop}
    (hQ : ∀ a s, Q a s → Q' a s) (hP : ∀ s, P s → P' s) (hc : c → c') :
    (Post.orFail Q P c : Post σ ε α).Le (.orFail Q' P' c') :=
  ⟨hQ, fun _ _ h => ⟨hP _ h.1, hc h.2⟩, fun _ => hP, hP⟩

theorem Post.orCut_le_orFail {Q S : α → σ → Prop} {P R : σ → Prop} {c : Prop}
    (hQ : ∀ a s, Q a s → S a s) (hP : ∀ s, P s → R s) :
    (Post.orCut Q P : Post σ ε α).Le (.orFail S R c) :=
  Post.orCut_imp hQ (fun _ => hP) hP

/-- Return in `Q`, or end in any other way in `P`. -/
def Post.within (Q : α → σ → Prop) (P : σ → Prop) : Post σ ε α :=
  ⟨Q, fun _ => P, fun _ => P, P⟩

theorem Post.within_le {Q Q' : α → σ → Prop} {P P' : σ → Prop} (hQ : ∀ a s, Q a s → Q' a s)
    (hP : ∀ s, P s → P' s) : (Post.within Q P : Post σ ε α).Le (.within Q' P') :=
  ⟨hQ, fun _ => hP, fun _ => hP, hP⟩

theorem Post.orCut_le_within {Q Q' : α → σ → Prop} {P P' : σ → Prop}
    (hQ : ∀ a s, Q a s → Q' a s) (hP : ∀ s, P s → P' s) :
    (Post.orCut Q P : Post σ ε α).Le (.within Q' P') :=
  Post.orCut_imp hQ (fun _ => hP) hP

@[simp] theorem wp_pure (T : Terms σ ι) (a : α) (Φ : Post σ ε α) (s : σ) :
    wp T (pure a : Prog σ ε α) Φ s ↔ Φ.ok a s := Iff.rfl

@[simp] theorem wp_throw (T : Terms σ ι) (e : ε) (Φ : Post σ ε α) (s : σ) :
    wp T (throw e : Prog σ ε α) Φ s ↔ Φ.raised e s := Iff.rfl

@[simp] theorem wp_read (T : Terms σ ι) (f : σ → α) (Φ : Post σ ε α) (s : σ) :
    wp T (Prog.read f) Φ s ↔ Φ.ok (f s) s := Iff.rfl

@[simp] theorem wp_assign (T : Terms σ ι) (f : σ → σ) (Φ : Post σ ε Unit) (s : σ) :
    wp T (Prog.assign f) Φ s ↔ Φ.ok () (f s) := Iff.rfl

theorem wp_bind' (T : Terms σ ι) (p : Prog σ ε α) (g : α → Prog σ ε β) (Φ : Post σ ε β) (s : σ) :
    wp T (p.bind g) Φ s ↔ wp T p (Φ.next fun a s' => wp T (g a) Φ s') s := by
  induction p generalizing s with
  | pure a => exact Iff.rfl
  | throw e => exact Iff.rfl
  | silent f k ih => exact ih _ g (f s).2
  | step x f k ih =>
    simp only [Prog.bind, wp]
    refine forall_congr' fun acts => imp_congr_right fun _ => and_congr_left fun _ => ?_
    cases f (meddled T.meddle acts s) with
    | ok s'' => exact and_congr_right fun _ => ih g s''
    | error e => exact Iff.rfl
  | attempt body handler k ihb ihh ihk =>
    simp only [Prog.bind, wp, ihk]
    rfl

/-- The rule of sequencing: what follows is the postcondition of what comes first. -/
@[simp] theorem wp_bind (T : Terms σ ι) (p : Prog σ ε α) (g : α → Prog σ ε β) (Φ : Post σ ε β)
    (s : σ) :
    wp T (p >>= g) Φ s ↔ wp T p (Φ.next fun a s' => wp T (g a) Φ s') s :=
  wp_bind' T p g Φ s

theorem wp_read_bind (T : Terms σ ι) (f : σ → α) (g : α → Prog σ ε β) (Φ : Post σ ε β) (s : σ) :
    wp T (Prog.read f >>= g) Φ s ↔ wp T (g (f s)) Φ s := Iff.rfl

theorem wp_assign_bind (T : Terms σ ι) (f : σ → σ) (g : Unit → Prog σ ε β) (Φ : Post σ ε β)
    (s : σ) : wp T (Prog.assign f >>= g) Φ s ↔ wp T (g ()) Φ (f s) := Iff.rfl

theorem wp_seq {T : Terms σ ι} {p : Prog σ ε α} {g : α → Prog σ ε β} {Q : α → σ → Prop}
    {S : β → σ → Prop} {P R : σ → Prop} {s : σ} (hp : wp T p (.orCut Q P) s)
    (hg : ∀ a s', Q a s' → wp T (g a) (.orCut S R) s') (hP : ∀ s', P s' → R s') :
    wp T (p >>= g) (.orCut S R) s := by
  rw [wp_bind]
  exact wp_mono hp ⟨hg, fun _ _ h => h, fun _ => hP, hP⟩

theorem wp_seq_orFail {T : Terms σ ι} {p : Prog σ ε α} {g : α → Prog σ ε β} {Q : α → σ → Prop}
    {Q' : β → σ → Prop} {P P' : σ → Prop} {c : Prop} {s : σ} (hp : wp T p (.orFail Q P c) s)
    (hg : ∀ a s', Q a s' → wp T (g a) (.orFail Q' P' c) s') (hP : ∀ s', P s' → P' s') :
    wp T (p >>= g) (.orFail Q' P' c) s := by
  rw [wp_bind]
  exact wp_mono hp ⟨hg, fun _ _ h => ⟨hP _ h.1, h.2⟩, fun _ => hP, hP⟩

theorem wp_seq_within {T : Terms σ ι} {p : Prog σ ε α} {g : α → Prog σ ε β} {Q : α → σ → Prop}
    {S : β → σ → Prop} {P : σ → Prop} {s : σ} (hp : wp T p (.within Q P) s)
    (hg : ∀ a s', Q a s' → wp T (g a) (.within S P) s') : wp T (p >>= g) (.within S P) s := by
  rw [wp_bind]
  exact wp_mono hp ⟨hg, fun _ _ h => h, fun _ _ h => h, fun _ h => h⟩

@[simp] theorem wp_tryCatch (T : Terms σ ι) (p : Prog σ ε α) (h : ε → Prog σ ε α)
    (Φ : Post σ ε α) (s : σ) :
    wp T (tryCatch p h) Φ s ↔
      wp T p ⟨Φ.ok, fun e s' => wp T (h e) Φ s', fun e s' => wp T (h e) Φ s', Φ.killed⟩ s := Iff.rfl

/-- What the handler starts from is how the body may end without returning. -/
theorem wp_tryCatch_within {T : Terms σ ι} {p : Prog σ ε α} {h : ε → Prog σ ε α}
    {Q : α → σ → Prop} {P : σ → Prop} {s : σ} (hp : wp T p (.within Q P) s)
    (hh : ∀ e s', P s' → wp T (h e) (.within Q P) s') : wp T (tryCatch p h) (.within Q P) s := by
  rw [wp_tryCatch]
  exact wp_mono hp ⟨fun _ _ h => h, hh, hh, fun _ h => h⟩

/-- The rule of an unshared step. -/
theorem wp_perform (T : Terms σ ι) (f : σ → Except ε σ) (Φ : Post σ ε Unit) (s : σ) :
    wp T (Prog.perform f) Φ s ↔
      (match f s with
        | .ok s' => T.moves s s' ∧ Φ.ok () s'
        | .error e => Φ.raised e s) ∧
      (T.struck .fail s → ∀ e, Φ.failed e s) ∧ (T.struck .kill s → Φ.killed s) := by
  constructor
  · intro h
    exact h [] fun _ => rfl
  · intro h acts hacts
    obtain rfl := hacts rfl
    exact h

theorem wp_perform_orCut {T : Terms σ ι} {f : σ → Except ε σ} {s t : σ} {Q P : σ → Prop}
    (hf : f s = .ok t) (hmoves : T.moves s t) (hQ : Q t) (hP : P s) :
    wp T (Prog.perform f) (.orCut (fun _ => Q) P) s := by
  rw [wp_perform, hf]
  exact ⟨⟨hmoves, hQ⟩, fun _ _ => hP, fun _ => hP⟩

theorem wp_perform_to {T : Terms σ ι} {f : σ → Except ε σ} {s t : σ} {P : σ → Prop}
    (hf : f s = .ok t) (hmoves : T.moves s t) (hP : P s) :
    wp T (Prog.perform f) (.orCut (fun _ s' => s' = t) P) s :=
  wp_perform_orCut hf hmoves rfl hP

/-- The rule of a shared step: it is taken after any number of foreign actions. -/
theorem wp_performShared (T : Terms σ ι) (f : σ → Except ε σ) (Φ : Post σ ε Unit) (s : σ) :
    wp T (Prog.performShared f) Φ s ↔
      ∀ acts : List ι, let s' := meddled T.meddle acts s
      (match f s' with
        | .ok s'' => T.moves s' s'' ∧ Φ.ok () s''
        | .error e => Φ.raised e s') ∧
      (T.struck .fail s' → ∀ e, Φ.failed e s') ∧ (T.struck .kill s' → Φ.killed s') :=
  ⟨fun h acts => h acts nofun, fun h acts _ => h acts⟩

/-- An assertion that foreign actions keep survives any number of them. -/
theorem meddled_keeps {meddle : ι → σ → σ} {P : σ → Prop}
    (hkeep : ∀ i s, P s → P (meddle i s)) (acts : List ι) {s : σ} (hs : P s) :
    P (meddled meddle acts s) := by
  induction acts generalizing s with
  | nil => exact hs
  | cons i acts ih => exact ih (hkeep i s hs)

/-- A shared step from an assertion that foreign actions keep. -/
theorem wp_performShared_orCut {T : Terms σ ι} {f : σ → Except ε σ} {P Q R : σ → Prop}
    (hkeep : ∀ i s, P s → P (T.meddle i s))
    (hf : ∀ s, P s → ∃ t, f s = .ok t ∧ T.moves s t ∧ Q t) (hcut : ∀ s, P s → R s) {s : σ}
    (hs : P s) : wp T (Prog.performShared f) (.orCut (fun _ => Q) R) s := by
  rw [wp_performShared]
  intro acts
  have hacts : P (meddled T.meddle acts s) := meddled_keeps hkeep acts hs
  obtain ⟨t, ht, hmoves, hQ⟩ := hf _ hacts
  simp only [ht]
  exact ⟨⟨hmoves, hQ⟩, fun _ _ => hcut _ hacts, fun _ => hcut _ hacts⟩

/-- The rule of a loop over a list: its body keeps the invariant. -/
theorem wp_forM {T : Terms σ ι} {f : β → Prog σ ε PUnit} {I P : σ → Prop} (l : List β)
    (hbody : ∀ b ∈ l, ∀ s, I s → wp T (f b) (.orCut (fun _ => I) P) s) {s : σ} (hs : I s) :
    wp T (l.forM f) (.orCut (fun _ => I) P) s := by
  induction l generalizing s with
  | nil => exact hs
  | cons b l ih =>
    change wp T (f b >>= fun _ => l.forM f) _ s
    exact wp_seq (hbody b List.mem_cons_self s hs)
      (fun _ s' hs' => ih (fun b' hb' => hbody b' (List.mem_cons_of_mem _ hb')) hs') fun _ h => h

/-- The states a step is made to fail in, or the program killed in, are states
that may be struck so. -/
def Post.marked (Φ : Post σ ε α) (T : Terms σ ι) : Post σ ε α :=
  ⟨Φ.ok, Φ.raised, fun e s => Φ.failed e s ∧ T.struck .fail s,
    fun s => Φ.killed s ∧ T.struck .kill s⟩

theorem wp_marked {T : Terms σ ι} {p : Prog σ ε α} {Φ : Post σ ε α} {s : σ} (h : wp T p Φ s) :
    wp T p (Φ.marked T) s := by
  induction p generalizing s with
  | pure a => exact h
  | throw e => exact h
  | silent f k ih => exact ih _ h
  | step x f k ih =>
    intro acts hacts
    obtain ⟨hstep, hfail, hkill⟩ := h acts hacts
    refine ⟨?_, fun hs e => ⟨hfail hs e, hs⟩, fun hs => ⟨hkill hs, hs⟩⟩
    cases hf : f (meddled T.meddle acts s) with
    | ok s'' =>
      simp only [hf] at hstep
      exact ⟨hstep.1, ih hstep.2⟩
    | error e =>
      simp only [hf] at hstep
      exact hstep
  | attempt body handler k ihb ihh ihk =>
    have hhandler : ∀ e s',
        wp T (handler e) (Φ.next fun b s'' => wp T (k b) Φ s'') s' →
        wp T (handler e) ((Φ.marked T).next fun b s'' => wp T (k b) (Φ.marked T) s'') s' :=
      fun e s' he => wp_mono (ihh e he)
        ⟨fun b s'' hb => ihk b hb, fun _ _ h => h, fun _ _ h => h, fun _ h => h⟩
    rw [wp_attempt]
    exact wp_mono (ihb h)
      ⟨fun b s' hb => ihk b hb, hhandler, fun e s' he => hhandler e s' he.1, fun _ h => h⟩

/-! ### Soundness -/

/-- A moment is allowed when the surroundings struck only where they may. -/
def Terms.Allows (T : Terms σ ι) : Moment σ → Prop
  | .done _ _ => True
  | .struck k s => T.struck k s

/-- A completed step satisfies what is asked of it. -/
def Terms.Kept (T : Terms σ ι) : Moment σ → Prop
  | .done s s' => T.moves s s'
  | .struck _ _ => True

def Post.Holds (Φ : Post σ ε α) : Outcome ε α → σ → Prop
  | .ok a, s => Φ.ok a s
  | .raised e, s => Φ.raised e s ∨ Φ.failed e s
  | .killed, s => Φ.killed s

/-- The result is what the postcondition asks for, when the strikes are where they may be. -/
def Terms.Meets (T : Terms σ ι) (Φ : Post σ ε α) (r : Result σ ε ι α) : Prop :=
  (∀ m ∈ r.moments, T.Allows m) →
    Φ.Holds r.outcome r.state ∧ ∀ m ∈ r.moments, T.Kept m

theorem Terms.Meets.after {T : Terms σ ι} {Φ : Post σ ε α} {r : Result σ ε ι α}
    {past : List (Moment σ)}
    (h : (∀ m ∈ past, T.Allows m) → (∀ m ∈ past, T.Kept m) ∧ T.Meets Φ r) :
    T.Meets Φ (r.after past) := by
  intro hallowed
  obtain ⟨hpast, hr⟩ := h fun m hm => hallowed m (List.mem_append_left _ hm)
  obtain ⟨hend, hkept⟩ := hr fun m hm => hallowed m (List.mem_append_right _ hm)
  exact ⟨hend, fun m hm => (List.mem_append.mp hm).elim (hpast m) (hkept m)⟩

/-- A handler starts from any way the body may raise. -/
theorem Terms.Meets.caught {T : Terms σ ι} {Φ : Post σ ε α} {H : ε → σ → Prop}
    {r : Result σ ε ι α} {handle : ε → Plan ε ι → σ → Result σ ε ι α}
    (hr : T.Meets ⟨Φ.ok, H, H, Φ.killed⟩ r)
    (hhandle : ∀ e pl s, H e s → T.Meets Φ (handle e pl s)) : T.Meets Φ (r.caught handle) := by
  simp only [Result.caught]
  cases ho : r.outcome with
  | raised e =>
    refine Terms.Meets.after fun hallowed => ?_
    obtain ⟨hend, hkept⟩ := hr hallowed
    rw [ho] at hend
    exact ⟨hkept, hhandle e _ _ (hend.elim id id)⟩
  | ok a | killed =>
    intro hallowed
    have hend := hr hallowed
    rw [ho] at hend ⊢
    exact hend

theorem Terms.Meets.andThen {T : Terms σ ι} {Φ : Post σ ε α} {Q : β → σ → Prop}
    {r : Result σ ε ι β} {next : β → Plan ε ι → σ → Result σ ε ι α} (hr : T.Meets (Φ.next Q) r)
    (hnext : ∀ b pl s, Q b s → T.Meets Φ (next b pl s)) : T.Meets Φ (r.andThen next) := by
  simp only [Result.andThen]
  cases ho : r.outcome with
  | ok b =>
    refine Terms.Meets.after fun hallowed => ?_
    obtain ⟨hend, hkept⟩ := hr hallowed
    rw [ho] at hend
    exact ⟨hkept, hnext b _ _ hend⟩
  | raised e | killed =>
    intro hallowed
    have hend := hr hallowed
    rw [ho] at hend
    exact hend

theorem exec_sound (T : Terms σ ι) (p : Prog σ ε α) {Φ : Post σ ε α} {s : σ} (h : wp T p Φ s)
    (pl : Plan ε ι) (hallowed : ∀ m ∈ (exec T.meddle p pl s).moments, T.Allows m) :
    Φ.Holds (exec T.meddle p pl s).outcome (exec T.meddle p pl s).state ∧
      ∀ m ∈ (exec T.meddle p pl s).moments, T.Kept m := by
  induction p generalizing s pl with
  | pure a => exact ⟨h, fun m hm => absurd hm List.not_mem_nil⟩
  | throw e => exact ⟨Or.inl h, fun m hm => absurd hm List.not_mem_nil⟩
  | silent f k ih => exact ih _ h pl hallowed
  | step x f k ih =>
    -- only a shared step comes after foreign actions
    have hs := h (if x then pl.next.1.meddling else []) (by cases x <;> simp)
    have hstate : meddled T.meddle (if x then pl.next.1.meddling else []) s =
        if x then meddled T.meddle pl.next.1.meddling s else s := by cases x <;> rfl
    rw [hstate] at hs
    simp only [exec] at hallowed ⊢
    generalize (if x then meddled T.meddle pl.next.1.meddling s else s) = s' at hs hallowed ⊢
    obtain ⟨hstep, hfail, hkill⟩ := hs
    cases hv : pl.next.1.verdict with
    | go =>
      simp only [hv] at hallowed ⊢
      cases hf : f s' with
      | ok s'' =>
        simp only [hf] at hstep hallowed ⊢
        have hrest := ih hstep.2 pl.next.2 fun m hm =>
          hallowed m (List.mem_append_right _ hm)
        refine ⟨hrest.1, fun m hm => ?_⟩
        rcases List.mem_append.mp hm with hm | hm
        · obtain rfl := List.mem_singleton.mp hm
          exact hstep.1
        · exact hrest.2 m hm
      | error e =>
        simp only [hf] at hstep ⊢
        exact ⟨Or.inl hstep, fun m hm => absurd hm List.not_mem_nil⟩
    | fail e =>
      simp only [hv] at hallowed ⊢
      refine ⟨Or.inr (hfail (hallowed _ (List.mem_singleton.mpr rfl)) e), fun m hm => ?_⟩
      obtain rfl := List.mem_singleton.mp hm
      trivial
    | kill =>
      simp only [hv] at hallowed ⊢
      refine ⟨hkill (hallowed _ (List.mem_singleton.mpr rfl)), fun m hm => ?_⟩
      obtain rfl := List.mem_singleton.mp hm
      trivial
  | attempt body handler k ihb ihh ihk =>
    rw [exec_attempt] at hallowed ⊢
    have hcaught : T.Meets (Φ.next fun b s' => wp T (k b) Φ s')
        ((exec T.meddle body pl s).caught fun e => exec T.meddle (handler e)) :=
      Terms.Meets.caught (ihb h pl) fun e pl s he => ihh e he pl
    exact hcaught.andThen (fun b pl s hb => ihk b hb pl) hallowed

end Wp

/-! ### Working on a part of the state -/

/-- A part `τ` of a state `σ`, with the relation "only that part has changed". -/
structure Focus (σ τ : Type) where
  get : σ → τ
  set : σ → τ → σ
  frame : σ → σ → Prop
  get_set : ∀ s t, get (set s t) = t
  frame_refl : ∀ s, frame s s
  frame_set : ∀ {s s' : σ} (t : τ), frame s s' → frame s (set s' t)

/-- A part of a part. -/
def Focus.comp {σ τ υ : Type} (F : Focus σ τ) (G : Focus τ υ) : Focus σ υ where
  get s := G.get (F.get s)
  set s u := F.set s (G.set (F.get s) u)
  frame s s' := F.frame s s' ∧ G.frame (F.get s) (F.get s')
  get_set s u := by rw [F.get_set, G.get_set]
  frame_refl s := ⟨F.frame_refl s, G.frame_refl _⟩
  frame_set u h := ⟨F.frame_set _ h.1, by rw [F.get_set]; exact G.frame_set u h.2⟩

/-- Run a program of the part inside the whole. -/
def Prog.zoom {σ τ ε α : Type} (F : Focus σ τ) : Prog τ ε α → Prog σ ε α
  | .pure a => .pure a
  | .throw e => .throw e
  | .silent f k => .silent (fun s => ((f (F.get s)).1, F.set s (f (F.get s)).2)) fun b => (k b).zoom F
  | .step x f k => .step x (fun s => (f (F.get s)).map (F.set s)) (k.zoom F)
  | .attempt body h k => .attempt (body.zoom F) (fun e => (h e).zoom F) fun b => (k b).zoom F

section Zoom

variable {σ τ ε ι α : Type}

/-- The terms a program of the part runs under, from a state `s₀` of the whole. -/
def Terms.through (T : Terms σ ι) (F : Focus σ τ) (s₀ : σ) : Terms τ Empty where
  meddle := alone
  struck k t := ∃ s, F.frame s₀ s ∧ F.get s = t ∧ T.struck k s
  moves t t' := ∀ s, F.frame s₀ s → F.get s = t → T.moves s (F.set s t')

/-- What a postcondition of the part says of the whole: the part satisfies it,
the rest is as it was. -/
def Post.across (Φ : Post τ ε α) (F : Focus σ τ) (s₀ : σ) : Post σ ε α where
  ok a s := F.frame s₀ s ∧ Φ.ok a (F.get s)
  raised e s := F.frame s₀ s ∧ Φ.raised e (F.get s)
  failed e s := F.frame s₀ s ∧ Φ.failed e (F.get s)
  killed s := F.frame s₀ s ∧ Φ.killed (F.get s)

/-- Nothing is asked of the completed steps. -/
def Terms.Free (T : Terms σ ι) : Prop := ∀ s s', T.moves s s'

theorem Terms.Free.through {T : Terms σ ι} (hT : T.Free) (F : Focus σ τ) (s₀ : σ) :
    (T.through F s₀).Free := fun _ _ _ _ _ => hT _ _

/-- Some step may be made to raise. -/
def Terms.CanFail (T : Terms σ ι) : Prop := ∃ s, T.struck .fail s

theorem Terms.CanFail.of_through {T : Terms σ ι} {F : Focus σ τ} {s₀ : σ}
    (h : (T.through F s₀).CanFail) : T.CanFail := by
  obtain ⟨t, s, _, _, hs⟩ := h
  exact ⟨s, hs⟩

theorem meddled_eq_of_isEmpty [IsEmpty ι] (meddle : ι → σ → σ) (acts : List ι) (s : σ) :
    meddled meddle acts s = s := by
  cases acts with
  | nil => rfl
  | cons i _ => exact isEmptyElim i

/-- The rule of a focus: a proof about the part is a proof about the whole. -/
theorem wp_zoom [IsEmpty ι] (F : Focus σ τ) (T : Terms σ ι) {s₀ : σ} (p : Prog τ ε α)
    {Φ : Post τ ε α} {s : σ} (hs : F.frame s₀ s) (h : wp (T.through F s₀) p Φ (F.get s)) :
    wp T (p.zoom F) (Φ.across F s₀) s := by
  induction p generalizing s with
  | pure a => exact ⟨hs, h⟩
  | throw e => exact ⟨hs, h⟩
  | silent f k ih =>
    refine ih _ (F.frame_set _ hs) ?_
    rw [F.get_set]
    exact h
  | step x f k ih =>
    intro acts _
    simp only [meddled_eq_of_isEmpty]
    obtain ⟨hstep, hfail, hkill⟩ := h [] fun _ => rfl
    simp only [meddled_eq_of_isEmpty] at hstep hfail hkill
    refine ⟨?_, fun hk e => ⟨hs, hfail ⟨s, hs, rfl, hk⟩ e⟩, fun hk => ⟨hs, hkill ⟨s, hs, rfl, hk⟩⟩⟩
    cases hf : f (F.get s) with
    | ok t' =>
      simp only [hf] at hstep
      refine ⟨hstep.1 s hs rfl, ih (F.frame_set _ hs) ?_⟩
      simpa only [F.get_set] using hstep.2
    | error e =>
      simp only [hf] at hstep
      exact ⟨hs, hstep⟩
  | attempt body handler k ihb ihh ihk =>
    have hhandler : ∀ e s', F.frame s₀ s' →
        wp (T.through F s₀) (handler e)
          (Φ.next fun b t => wp (T.through F s₀) (k b) Φ t) (F.get s') →
        wp T ((handler e).zoom F)
          ((Φ.across F s₀).next fun b s'' => wp T ((k b).zoom F) (Φ.across F s₀) s'') s' :=
      fun e s' hs' he => wp_mono (ihh e hs' he)
        ⟨fun b s'' hb => ihk b hb.1 hb.2, fun _ _ h => h, fun _ _ h => h, fun _ h => h⟩
    rw [Prog.zoom, wp_attempt]
    exact wp_mono (ihb hs h)
      ⟨fun b s' hb => ihk b hb.1 hb.2, fun e s' he => hhandler e s' he.1 he.2,
        fun e s' he => hhandler e s' he.1 he.2, fun _ h => h⟩

theorem wp_zoom_orCut [IsEmpty ι] (F : Focus σ τ) (T : Terms σ ι) {p : Prog τ ε α}
    {Q : α → τ → Prop} {P : τ → Prop} {s : σ}
    (h : wp (T.through F s) p (.orCut Q P) (F.get s)) :
    wp T (p.zoom F) (.orCut (fun a s' => F.frame s s' ∧ Q a (F.get s'))
      fun s' => F.frame s s' ∧ P (F.get s')) s :=
  wp_mono (wp_zoom F T p (F.frame_refl s) h)
    ⟨fun _ _ h => h, fun _ _ h => h.2, fun _ _ h => h, fun _ h => h⟩

theorem wp_zoom_orFail [IsEmpty ι] (F : Focus σ τ) (T : Terms σ ι) {p : Prog τ ε α}
    {Q : α → τ → Prop} {P : τ → Prop} {s : σ}
    (h : wp (T.through F s) p (.orFail Q P (T.through F s).CanFail) (F.get s)) :
    wp T (p.zoom F) (.orFail (fun a s' => F.frame s s' ∧ Q a (F.get s'))
      (fun s' => F.frame s s' ∧ P (F.get s')) T.CanFail) s :=
  wp_mono (wp_zoom F T p (F.frame_refl s) h)
    ⟨fun _ _ h => h, fun _ _ h => ⟨⟨h.1, h.2.1⟩, h.2.2.of_through⟩, fun _ _ h => h, fun _ h => h⟩

/-- A program that catches nothing. -/
def Prog.Plain : Prog σ ε α → Prop
  | .pure _ => True
  | .throw _ => True
  | .silent _ k => ∀ b, (k b).Plain
  | .step _ _ k => k.Plain
  | .attempt _ _ _ => False

theorem Prog.Plain.bind {p : Prog σ ε α} {β : Type} {g : α → Prog σ ε β}
    (hp : p.Plain) (hg : ∀ a, (g a).Plain) : (p >>= g).Plain := by
  change (Prog.bind p g).Plain
  induction p with
  | pure a => exact hg a
  | throw e => trivial
  | silent f k ih => exact fun b => ih b (hp b) hg
  | step x f k ih => exact ih hp hg
  | attempt body h k => exact hp.elim

theorem Prog.plain_read (f : σ → α) : (Prog.read f : Prog σ ε α).Plain := fun _ => trivial

theorem Prog.Plain.forM {β : Type} {f : β → Prog σ ε PUnit} (hf : ∀ b, (f b).Plain)
    (l : List β) : (l.forM f).Plain := by
  induction l with
  | nil => trivial
  | cons b l ih => exact Plain.bind (hf b) fun _ => ih

/-- The run that nothing disturbs, as far as it returns. -/
def Prog.Returns (p : Prog σ ε α) (s : σ) (a : α) (s' : σ) : Prop :=
  (exec alone p [] s).outcome = .ok a ∧ (exec alone p [] s).state = s'

/-- A program that catches nothing and is alone returns, whatever the plan, only
what it returns undisturbed. -/
theorem wp_plain [IsEmpty ι] (T : Terms σ ι) (hmoves : ∀ s s', T.moves s s') {p : Prog σ ε α}
    (hp : p.Plain) (s : σ) :
    wp T p ⟨fun a s' => p.Returns s a s', fun _ _ => True, fun _ _ => True, fun _ => True⟩ s := by
  induction p generalizing s with
  | pure a => exact ⟨rfl, rfl⟩
  | throw e => trivial
  | silent f k ih => exact ih _ (hp _) _
  | step x f k ih =>
    intro acts _
    simp only [meddled_eq_of_isEmpty]
    refine ⟨?_, fun _ _ => trivial, fun _ => trivial⟩
    cases hf : f s with
    | ok s' =>
      have hrest := ih hp s'
      refine ⟨hmoves _ _, wp_mono hrest
        ⟨fun a s'' h => ?_, fun _ _ h => h, fun _ _ h => h, fun _ h => h⟩⟩
      simpa [Prog.Returns, exec, Plan.next, meddled, hf, Result.after] using h
    | error e => trivial
  | attempt body h k => exact hp.elim

end Zoom

end CrashLogic
