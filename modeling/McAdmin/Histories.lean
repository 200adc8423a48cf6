import McAdmin.CrashLogic

/-!
# Programs judged by what came before

Some requirements are about the order of steps: this one only after that one.  `wpPast` is a
weakest precondition that sees the past: what is asked of a completed step, and what holds
when the program ends, may depend on every moment before.  The program runs alone.

Most of a program has nothing to do with such a requirement.  `Prog.Keeps` is an assertion
that every step keeps, whatever is struck; a program that keeps one meets any contract that
the assertion is enough for, and the past only grows by moments within it.
-/

namespace CrashLogic

/-- The moments so far, the first one first. -/
abbrev History (σ : Type) := List (Moment σ)

/-- What is asked of a completed step after a history. -/
abbrev Contract (σ : Type) := History σ → σ → σ → Prop

/-- The states of the moment are all in `P`. -/
def Moment.Within {σ : Type} (P : σ → Prop) : Moment σ → Prop
  | .done s s' => P s ∧ P s'
  | .struck _ s => P s

theorem Moment.Within.mono {σ : Type} {P Q : σ → Prop} {m : Moment σ} (h : m.Within P)
    (hPQ : ∀ s, P s → Q s) : m.Within Q := by
  cases m with
  | done s s' => exact ⟨hPQ s h.1, hPQ s' h.2⟩
  | struck k s => exact hPQ s h

section

variable {σ ε α β : Type} {R : Contract σ}

/-! ### Histories under a contract -/

/-- Every completed step of the moments meets the contract, after `past` and the moments
before it. -/
def Follows (R : Contract σ) : History σ → List (Moment σ) → Prop
  | _, [] => True
  | past, .done s s' :: rest => R past s s' ∧ Follows R (past ++ [.done s s']) rest
  | past, .struck k s :: rest => Follows R (past ++ [.struck k s]) rest

theorem follows_append {past : History σ} {l l' : List (Moment σ)} :
    Follows R past (l ++ l') ↔ Follows R past l ∧ Follows R (past ++ l) l' := by
  induction l generalizing past with
  | nil => simp [Follows]
  | cons m l ih =>
    cases m with
    | done s s' => simp [Follows, ih, and_assoc]
    | struck k s => simp [Follows, ih]

/-- What the contract says of a step, wherever it stands. -/
theorem Follows.at_step {past a b : History σ} {s s' : σ}
    (h : Follows R past (a ++ .done s s' :: b)) : R (past ++ a) s s' :=
  (follows_append.mp h).2.1

/-! ### The weakest precondition -/

/-- `Q` is asked where the program returns, `E` where it raises, nothing where it is killed. -/
def wpPast (R : Contract σ) {α : Type} :
    Prog σ ε α → (α → History σ → σ → Prop) → (History σ → σ → Prop) → History σ → σ → Prop
  | .pure a, Q, _, past, s => Q a past s
  | .throw _, _, E, past, s => E past s
  | .silent f k, Q, E, past, s => wpPast R (k (f s).1) Q E past (f s).2
  | .step _ f k, Q, E, past, s =>
    (match f s with
      | .ok s' => R past s s' ∧ wpPast R k Q E (past ++ [.done s s']) s'
      | .error _ => E past s) ∧ E (past ++ [.struck .fail s]) s
  | .attempt body h k, Q, E, past, s =>
    wpPast R body (fun b => wpPast R (k b) Q E)
      (fun past s => ∀ e, wpPast R (h e) (fun b => wpPast R (k b) Q E) E past s) past s

theorem wpPast_mono {p : Prog σ ε α} {Q Q' : α → History σ → σ → Prop}
    {E E' : History σ → σ → Prop} {past : History σ} {s : σ} (h : wpPast R p Q E past s)
    (hQ : ∀ a past s, Q a past s → Q' a past s) (hE : ∀ past s, E past s → E' past s) :
    wpPast R p Q' E' past s := by
  induction p generalizing E E' past s with
  | pure a => exact hQ _ _ _ h
  | throw e => exact hE _ _ h
  | silent f k ih => exact ih _ h hQ hE
  | step x f k ih =>
    obtain ⟨hstep, hfail⟩ := h
    refine ⟨?_, hE _ _ hfail⟩
    cases hf : f s with
    | ok s' =>
      simp only [hf] at hstep
      exact ⟨hstep.1, ih hstep.2 hQ hE⟩
    | error e =>
      simp only [hf] at hstep
      exact hE _ _ hstep
  | attempt body handler k ihb ihh ihk =>
    have hnext : ∀ b past s, wpPast R (k b) Q E past s → wpPast R (k b) Q' E' past s :=
      fun b past s hb => ihk b hb hQ hE
    exact ihb h hnext fun past s he e => ihh e (he e) hnext hE

theorem wpPast_bind' (p : Prog σ ε α) (g : α → Prog σ ε β) (Q : β → History σ → σ → Prop)
    (E : History σ → σ → Prop) (past : History σ) (s : σ) :
    wpPast R (p.bind g) Q E past s ↔ wpPast R p (fun a => wpPast R (g a) Q E) E past s := by
  induction p generalizing past s with
  | pure a => exact Iff.rfl
  | throw e => exact Iff.rfl
  | silent f k ih => exact ih _ g past (f s).2
  | step x f k ih =>
    simp only [Prog.bind, wpPast]
    refine and_congr_left fun _ => ?_
    cases f s with
    | ok s' => exact and_congr_right fun _ => ih g _ s'
    | error e => exact Iff.rfl
  | attempt body handler k ihb ihh ihk =>
    have hnext : ∀ b, wpPast R ((k b).bind g) Q E =
        wpPast R (k b) (fun a => wpPast R (g a) Q E) E := fun b =>
      funext fun past => funext fun s => propext (ihk b g past s)
    simp only [Prog.bind, wpPast, hnext]

@[simp] theorem wpPast_bind (p : Prog σ ε α) (g : α → Prog σ ε β) (Q : β → History σ → σ → Prop)
    (E : History σ → σ → Prop) (past : History σ) (s : σ) :
    wpPast R (p >>= g) Q E past s ↔ wpPast R p (fun a => wpPast R (g a) Q E) E past s :=
  wpPast_bind' p g Q E past s

@[simp] theorem wpPast_assign (f : σ → σ) (Q : Unit → History σ → σ → Prop)
    (E : History σ → σ → Prop) (past : History σ) (s : σ) :
    wpPast R (Prog.assign f : Prog σ ε Unit) Q E past s ↔ Q () past (f s) := Iff.rfl

theorem wpPast_tryCatch (p : Prog σ ε α) (h : ε → Prog σ ε α) (Q : α → History σ → σ → Prop)
    (E : History σ → σ → Prop) (past : History σ) (s : σ) :
    wpPast R (tryCatch p h) Q E past s ↔
      wpPast R p Q (fun past s => ∀ e, wpPast R (h e) Q E past s) past s := Iff.rfl

/-- The rule of a step that does not fail of its own accord. -/
theorem wpPast_perform (f : σ → σ) (Q : Unit → History σ → σ → Prop) (E : History σ → σ → Prop)
    (past : History σ) (s : σ) :
    wpPast R (Prog.perform fun s => .ok (f s) : Prog σ ε Unit) Q E past s ↔
      (R past s (f s) ∧ Q () (past ++ [.done s (f s)]) (f s)) ∧ E (past ++ [.struck .fail s]) s :=
  Iff.rfl

/-- A run that begins after `past` meets the contract and ends as it is asked to. -/
def FollowsTo (R : Contract σ) (Q : α → History σ → σ → Prop) (E : History σ → σ → Prop)
    (past : History σ) (r : Result σ ε Empty α) : Prop :=
  Follows R past r.moments ∧
    match r.outcome with
    | .ok a => Q a (past ++ r.moments) r.state
    | .raised _ => E (past ++ r.moments) r.state
    | .killed => True

section

variable {Q : α → History σ → σ → Prop} {Q' : β → History σ → σ → Prop}
  {E E' : History σ → σ → Prop} {past : History σ}

theorem FollowsTo.after {r : Result σ ε Empty α} {l : List (Moment σ)} (hl : Follows R past l)
    (hr : FollowsTo R Q E (past ++ l) r) : FollowsTo R Q E past (r.after l) := by
  refine ⟨follows_append.mpr ⟨hl, hr.1⟩, ?_⟩
  simp only [Result.after, ← List.append_assoc]
  exact hr.2

theorem FollowsTo.caught {r : Result σ ε Empty α}
    {handle : ε → Plan ε Empty → σ → Result σ ε Empty α} (hr : FollowsTo R Q E' past r)
    (hhandle : ∀ e pl past s, E' past s → FollowsTo R Q E past (handle e pl s)) :
    FollowsTo R Q E past (r.caught handle) := by
  obtain ⟨hmoments, hend⟩ := hr
  simp only [Result.caught]
  cases ho : r.outcome with
  | raised e =>
    rw [ho] at hend
    exact FollowsTo.after hmoments (hhandle e _ _ _ hend)
  | ok a =>
    refine ⟨hmoments, ?_⟩
    rw [ho] at hend ⊢
    exact hend
  | killed =>
    refine ⟨hmoments, ?_⟩
    rw [ho]
    trivial

theorem FollowsTo.andThen {r : Result σ ε Empty β}
    {next : β → Plan ε Empty → σ → Result σ ε Empty α} (hr : FollowsTo R Q' E past r)
    (hnext : ∀ b pl past s, Q' b past s → FollowsTo R Q E past (next b pl s)) :
    FollowsTo R Q E past (r.andThen next) := by
  obtain ⟨hmoments, hend⟩ := hr
  simp only [Result.andThen]
  cases ho : r.outcome with
  | ok b =>
    rw [ho] at hend
    exact FollowsTo.after hmoments (hnext b _ _ _ hend)
  | raised e =>
    rw [ho] at hend
    exact ⟨hmoments, hend⟩
  | killed => exact ⟨hmoments, trivial⟩

end

/-- What a weakest precondition says of a run, whatever the plan. -/
theorem exec_follows (p : Prog σ ε α) {Q : α → History σ → σ → Prop}
    {E : History σ → σ → Prop} {past : History σ} {s : σ} (h : wpPast R p Q E past s)
    (pl : Plan ε Empty) : FollowsTo R Q E past (exec alone p pl s) := by
  induction p generalizing E past s pl with
  | pure a => exact ⟨trivial, by simpa only [exec, List.append_nil, wpPast] using h⟩
  | throw e => exact ⟨trivial, by simpa only [exec, List.append_nil, wpPast] using h⟩
  | silent f k ih => exact ih _ h pl
  | step x f k ih =>
    obtain ⟨hstep, hfail⟩ := h
    have halone : (if x then meddled alone pl.next.1.meddling s else s) = s := by
      rw [meddled_eq_of_isEmpty, ite_self]
    simp only [exec, halone]
    cases pl.next.1.verdict with
    | go =>
      cases hf : f s with
      | ok s' =>
        simp only [hf] at hstep
        exact FollowsTo.after ⟨hstep.1, trivial⟩ (ih hstep.2 pl.next.2)
      | error e =>
        simp only [hf] at hstep
        exact ⟨trivial, by simpa only [List.append_nil] using hstep⟩
    | fail e => exact ⟨trivial, hfail⟩
    | kill => exact ⟨trivial, trivial⟩
  | attempt body handler k ihb ihh ihk =>
    rw [exec_attempt]
    have hcaught : FollowsTo R (fun b => wpPast R (k b) Q E) E past
        ((exec alone body pl s).caught fun e => exec alone (handler e)) :=
      (ihb h pl).caught fun e pl past s he => ihh e (he e) pl
    exact hcaught.andThen fun b pl past s hb => ihk b hb pl

/-! ### Triples -/

/-- From `P` the program meets the contract, returns in `Q` and raises in `E`. -/
def Triple (R : Contract σ) (P : History σ → σ → Prop) (p : Prog σ ε α)
    (Q E : History σ → σ → Prop) : Prop :=
  ∀ past s, P past s → wpPast R p (fun _ => Q) E past s

variable {P Q M E : History σ → σ → Prop}

theorem Triple.pure (a : α) (h : ∀ past s, P past s → Q past s) :
    Triple R P (Pure.pure a : Prog σ ε α) Q E := h

theorem Triple.throw (e : ε) (h : ∀ past s, P past s → E past s) :
    Triple R P (MonadExcept.throw e : Prog σ ε α) Q E := h

theorem Triple.seq {p : Prog σ ε α} {g : α → Prog σ ε β} (hp : Triple R P p M E)
    (hg : ∀ a, Triple R M (g a) Q E) : Triple R P (p >>= g) Q E := by
  intro past s h
  rw [wpPast_bind]
  exact wpPast_mono (hp past s h) (fun a past s hM => hg a past s hM) fun _ _ hE => hE

theorem Triple.read {f : σ → β} {g : β → Prog σ ε α} (hg : ∀ b, Triple R P (g b) Q E) :
    Triple R P (Prog.read f >>= g) Q E := fun past s h => hg (f s) past s h

theorem Triple.catch {p : Prog σ ε α} {h : ε → Prog σ ε α} (hp : Triple R P p Q E)
    (hh : ∀ e, Triple R E (h e) Q E) : Triple R P (tryCatch p h) Q E := by
  intro past s hP
  rw [wpPast_tryCatch]
  exact wpPast_mono (hp past s hP) (fun _ _ _ hQ => hQ) fun past s hE e => hh e past s hE

end

/-! ### Assertions that every step keeps -/

namespace Prog

variable {σ τ ε α β : Type} {P : σ → Prop}

def Keeps (P : σ → Prop) {α : Type} : Prog σ ε α → Prop
  | .pure _ => True
  | .throw _ => True
  | .silent f k => (∀ s, P s → P (f s).2) ∧ ∀ b, (k b).Keeps P
  | .step _ f k => (∀ s s', P s → f s = .ok s' → P s') ∧ k.Keeps P
  | .attempt body h k => body.Keeps P ∧ (∀ e, (h e).Keeps P) ∧ ∀ b, (k b).Keeps P

theorem Keeps.bind {p : Prog σ ε α} {g : α → Prog σ ε β} (hp : p.Keeps P)
    (hg : ∀ a, (g a).Keeps P) : (p >>= g).Keeps P := by
  change (Prog.bind p g).Keeps P
  induction p with
  | pure a => exact hg a
  | throw e => trivial
  | silent f k ih => exact ⟨hp.1, fun b => ih b (hp.2 b) hg⟩
  | step x f k ih => exact ⟨hp.1, ih hp.2 hg⟩
  | attempt body h k _ _ ihk => exact ⟨hp.1, hp.2.1, fun b => ihk b (hp.2.2 b) hg⟩

theorem keeps_read (f : σ → α) : (Prog.read f : Prog σ ε α).Keeps P :=
  ⟨fun _ h => h, fun _ => trivial⟩

theorem keeps_assign {f : σ → σ} (hf : ∀ s, P s → P (f s)) :
    (Prog.assign f : Prog σ ε Unit).Keeps P :=
  ⟨hf, fun _ => trivial⟩

/-- A program of a part keeps what no change of the part touches. -/
theorem Keeps.zoom (F : Focus σ τ) (hF : ∀ s t, P s → P (F.set s t)) (p : Prog τ ε α) :
    (p.zoom F).Keeps P := by
  induction p with
  | pure a => trivial
  | throw e => trivial
  | silent f k ih => exact ⟨fun s h => hF s _ h, ih⟩
  | step x f k ih =>
    refine ⟨fun s s' h hf => ?_, ih⟩
    cases hpart : f (F.get s) with
    | ok t =>
      simp only [hpart, Except.map, Except.ok.injEq] at hf
      subst hf
      exact hF s t h
    | error e =>
      simp only [hpart, Except.map, reduceCtorEq] at hf
  | attempt body h k ihb ihh ihk => exact ⟨ihb, ihh, ihk⟩

end Prog

/-- A history goes on as another one, by moments within `P`. -/
def Grows {σ : Type} (P : σ → Prop) (past past' : History σ) : Prop :=
  ∃ more, past' = past ++ more ∧ ∀ m ∈ more, m.Within P

theorem Grows.refl {σ : Type} (P : σ → Prop) (past : History σ) : Grows P past past :=
  ⟨[], (List.append_nil _).symm, fun _ h => absurd h List.not_mem_nil⟩

theorem Grows.snoc {σ : Type} {P : σ → Prop} {past past' : History σ} {m : Moment σ}
    (h : Grows P past past') (hm : m.Within P) : Grows P past (past' ++ [m]) := by
  obtain ⟨more, rfl, hmore⟩ := h
  refine ⟨more ++ [m], List.append_assoc .., fun m' hm' => ?_⟩
  rcases List.mem_append.mp hm' with hm' | hm'
  · exact hmore m' hm'
  · rw [List.mem_singleton.mp hm']
    exact hm

/-- A kept assertion that is enough for the contract, after any growth of the past. -/
theorem wpPast_of_keeps {σ ε α : Type} {R : Contract σ} {P : σ → Prop} {p : Prog σ ε α}
    (hp : p.Keeps P) {start past : History σ} {s : σ}
    (hR : ∀ past s s', Grows P start past → P s → P s' → R past s s')
    (hpast : Grows P start past) (hs : P s) :
    wpPast R p (fun _ past s => Grows P start past ∧ P s)
      (fun past s => Grows P start past ∧ P s) past s := by
  induction p generalizing past s with
  | pure a => exact ⟨hpast, hs⟩
  | throw e => exact ⟨hpast, hs⟩
  | silent f k ih => exact ih _ (hp.2 _) hpast (hp.1 s hs)
  | step x f k ih =>
    refine ⟨?_, hpast.snoc hs, hs⟩
    cases hf : f s with
    | ok s' =>
      have hs' : P s' := hp.1 s s' hs hf
      exact ⟨hR past s s' hpast hs hs', ih hp.2 (hpast.snoc ⟨hs, hs'⟩) hs'⟩
    | error e => exact ⟨hpast, hs⟩
  | attempt body h k ihb ihh ihk =>
    obtain ⟨hb, hh, hk⟩ := hp
    have hnext : ∀ b past s, Grows P start past ∧ P s → wpPast R (k b)
        (fun _ past s => Grows P start past ∧ P s) (fun past s => Grows P start past ∧ P s) past s :=
      fun b past s h => ihk b (hk b) h.1 h.2
    change wpPast R body _ _ past s
    exact wpPast_mono (ihb hb hpast hs) hnext fun past s he e =>
      wpPast_mono (ihh e (hh e) he.1 he.2) hnext fun _ _ h => h

end CrashLogic
