import McAdmin.CrashLogic

/-!
# Programs alike in the states they reach

Two programs of the same shape may differ in their steps as functions, and still do the
same wherever an invariant holds.  `Like` compares them step by step, and says on the way
what each completed step does; `Like.wp` carries a specification from one to the other.
-/

namespace CrashLogic

variable {σ τ ε α β ι : Type}

/-- The values a program returns are in `V`. -/
def Prog.Only {α : Type} (V : α → Prop) : Prog σ ε α → Prop
  | .pure a => V a
  | .throw _ => True
  | .silent _ k => ∀ b, (k b).Only V
  | .step _ _ k => k.Only V
  | .attempt _ _ k => ∀ b, (k b).Only V

theorem Prog.Only.of_forall {V : α → Prop} (h : ∀ a, V a) (p : Prog σ ε α) : p.Only V := by
  induction p with
  | pure a => exact h a
  | throw e => trivial
  | silent f k ih => exact fun b => ih b h
  | step x f k ih => exact ih h
  | attempt body handler k _ _ ihk => exact fun b => ihk b h

theorem Prog.Only.bind {U : α → Prop} {V : β → Prop} {p : Prog σ ε α} {g : α → Prog σ ε β}
    (hp : p.Only U) (hg : ∀ a, U a → (g a).Only V) : (p >>= g).Only V := by
  change (p.bind g).Only V
  induction p with
  | pure a => exact hg a hp
  | throw e => trivial
  | silent f k ih => exact fun b => ih b (hp b) hg
  | step x f k ih => exact ih hp hg
  | attempt body handler k _ _ ihk => exact fun b => ihk b (hp b) hg

theorem Prog.Only.after {V : β → Prop} (p : Prog σ ε α) {g : α → Prog σ ε β}
    (hg : ∀ a, (g a).Only V) : (p >>= g).Only V :=
  (Prog.Only.of_forall (fun _ => trivial) p).bind (U := fun _ => True) fun a _ => hg a

/-- Nothing is asked of the completed steps any more. -/
def Terms.eased (T : Terms σ ι) : Terms σ ι := { T with moves := fun _ _ => True }

theorem Terms.eased_free (T : Terms σ ι) : T.eased.Free := fun _ _ => trivial

/-- From a state of `I`, both do the same; each step stays in `I` and satisfies `M`. -/
inductive Prog.Like (I : σ → Prop) (M : σ → σ → Prop) :
    {α : Type} → Prog σ ε α → Prog σ ε α → Prop
  | pure {α : Type} (a : α) : Like I M (.pure a) (.pure a)
  | throw {α : Type} (e : ε) : Like I M (.throw e : Prog σ ε α) (.throw e)
  | silent {α β γ : Type} {f : σ → β × σ} {g : σ → γ × σ} {k : β → Prog σ ε α}
      {k' : γ → Prog σ ε α} (R : β → γ → Prop)
      (h : ∀ s, I s → R (f s).1 (g s).1 ∧ (f s).2 = (g s).2 ∧ I (f s).2)
      (hk : ∀ b c, R b c → Like I M (k b) (k' c)) : Like I M (.silent f k) (.silent g k')
  | step {α : Type} {f g : σ → Except ε σ} {k k' : Prog σ ε α}
      (h : ∀ s, I s → f s = g s ∧ ∀ s', f s = .ok s' → M s s' ∧ I s') (hk : Like I M k k') :
      Like I M (.step false f k) (.step false g k')
  | attempt {α β : Type} {p p' : Prog σ ε β} {h h' : ε → Prog σ ε β} {k k' : β → Prog σ ε α}
      (hp : Like I M p p') (hh : ∀ e, Like I M (h e) (h' e)) (hk : ∀ b, Like I M (k b) (k' b)) :
      Like I M (.attempt p h k) (.attempt p' h' k')

namespace Prog.Like

variable {I : σ → Prop} {M M' : σ → σ → Prop} {p p' : Prog σ ε α} {s : σ}

theorem bind_only {V : α → Prop} {g g' : α → Prog σ ε β} (hp : Like I M p p') (hV : p.Only V)
    (hg : ∀ a, V a → Like I M (g a) (g' a)) : Like I M (p >>= g) (p' >>= g') := by
  change Like I M (p.bind g) (p'.bind g')
  induction hp with
  | pure a => exact hg a hV
  | throw e => exact .throw e
  | silent R h _ ih => exact .silent R h fun b c hR => ih b c hR (hV b) hg
  | step h _ ih => exact .step h (ih hV hg)
  | attempt hp hh _ _ _ ihk => exact .attempt hp hh fun b => ihk b (hV b) hg

theorem bind {g g' : α → Prog σ ε β} (hp : Like I M p p') (hg : ∀ a, Like I M (g a) (g' a)) :
    Like I M (p >>= g) (p' >>= g') :=
  hp.bind_only (Prog.Only.of_forall (fun _ => trivial) p) (V := fun _ => True) fun a _ => hg a

theorem perform {f g : σ → Except ε σ}
    (h : ∀ s, I s → f s = g s ∧ ∀ s', f s = .ok s' → M s s' ∧ I s') :
    Like I M (.perform f) (.perform g) := .step h (.pure ())

theorem forM {f f' : β → Prog σ ε PUnit} (l : List β) (h : ∀ b ∈ l, Like I M (f b) (f' b)) :
    Like I M (l.forM f) (l.forM f') := by
  induction l with
  | nil => exact .pure _
  | cons b l ih =>
    exact bind (h b List.mem_cons_self) fun _ => ih fun b hb => h b (List.mem_cons_of_mem _ hb)

theorem mono (h : Like I M p p') (hM : ∀ s s', M s s' → M' s s') : Like I M' p p' := by
  induction h with
  | pure a => exact .pure a
  | throw e => exact .throw e
  | silent R h _ ih => exact .silent R h ih
  | step h _ ih =>
    exact .step (fun s hs => ⟨(h s hs).1, fun s' hf => ((h s hs).2 s' hf).imp_left (hM s s')⟩) ih
  | attempt _ _ _ ihp ihh ihk => exact .attempt ihp ihh ihk

/-- What is alike in a part is alike in the whole. -/
theorem zoom {F : Focus τ σ} {J : τ → Prop} {N : τ → τ → Prop} (h : Like I M p p')
    (hI : ∀ t, J t → I (F.get t)) (hJ : ∀ t s, J t → I s → J (F.set t s))
    (hN : ∀ t s, J t → M (F.get t) s → N t (F.set t s)) :
    Like J N (p.zoom F) (p'.zoom F) := by
  induction h with
  | pure a => exact .pure a
  | throw e => exact .throw e
  | silent R h _ ih =>
    refine .silent R (fun t ht => ?_) ih
    rcases h (F.get t) (hI t ht) with ⟨hvalue, hstate, hnext⟩
    exact ⟨hvalue, congrArg (F.set t) hstate, hJ t _ ht hnext⟩
  | @step _ f g _ _ h _ ih =>
    refine .step (fun t ht => ?_) ih
    rcases h (F.get t) (hI t ht) with ⟨heq, hnext⟩
    refine ⟨by rw [heq], fun t' hf => ?_⟩
    cases hpart : f (F.get t) with
    | ok s' =>
      simp only [hpart, Except.map, Except.ok.injEq] at hf
      subst hf
      exact ⟨hN t s' ht (hnext s' hpart).1, hJ t s' ht (hnext s' hpart).2⟩
    | error e => simp only [hpart, Except.map, reduceCtorEq] at hf
  | attempt _ _ _ ihp ihh ihk => exact .attempt ihp ihh ihk

/-- A specification of the one, in the states of the invariant, is one of the other; what
each step does can be asked of it. -/
theorem wp [IsEmpty ι] {T : Terms σ ι} {Φ : Post σ ε α} (h : Like I M p p')
    (hM : ∀ s s', M s s' → T.moves s s') (hs : I s) (hwp : CrashLogic.wp T.eased p' Φ s) :
    CrashLogic.wp T p
      ⟨fun a s' => Φ.ok a s' ∧ I s', fun e s' => Φ.raised e s' ∧ I s',
        fun e s' => Φ.failed e s' ∧ I s', fun s' => Φ.killed s' ∧ I s'⟩ s := by
  induction h generalizing s with
  | pure a => exact ⟨hwp, hs⟩
  | throw e => exact ⟨hwp, hs⟩
  | silent R h _ ih =>
    rcases h s hs with ⟨hvalue, hstate, hnext⟩
    simp only [CrashLogic.wp] at hwp ⊢
    rw [← hstate] at hwp
    exact ih _ _ hvalue hnext hwp
  | @step _ f g _ _ h _ ih =>
    intro acts hacts
    rcases h s hs with ⟨heq, hnext⟩
    rcases hwp acts hacts with ⟨hstep, hfail, hkill⟩
    simp only [meddled_eq_of_isEmpty] at hstep hfail hkill ⊢
    refine ⟨?_, fun hstruck e => ⟨hfail hstruck e, hs⟩, fun hstruck => ⟨hkill hstruck, hs⟩⟩
    rw [← heq] at hstep
    cases hf : f s with
    | ok s' =>
      rw [hf] at hstep
      exact ⟨hM s s' (hnext s' hf).1, ih (hnext s' hf).2 hstep.2⟩
    | error e =>
      rw [hf] at hstep
      exact ⟨hstep, hs⟩
  | attempt _ _ _ ihp ihh ihk =>
    rw [wp_attempt] at hwp ⊢
    refine wp_mono (ihp hs hwp) ⟨fun b s' hb => ihk b hb.2 hb.1, fun e s' he => ?_,
      fun e s' he => ?_, fun s' h => h⟩
    · exact wp_mono (ihh e he.2 he.1) ⟨fun b s'' hb => ihk b hb.2 hb.1, fun _ _ h => h,
        fun _ _ h => h, fun _ h => h⟩
    · exact wp_mono (ihh e he.2 he.1) ⟨fun b s'' hb => ihk b hb.2 hb.1, fun _ _ h => h,
        fun _ _ h => h, fun _ h => h⟩

end Prog.Like

/-- A program of a part, put in the whole, goes on there. -/
theorem Prog.zoom_bind (F : Focus σ τ) (p : Prog τ ε α) (g : α → Prog τ ε β) :
    (p >>= g).zoom F = (p.zoom F >>= fun a => (g a).zoom F) := by
  change (p.bind g).zoom F = (p.zoom F).bind fun a => (g a).zoom F
  induction p with
  | pure a => rfl
  | throw e => rfl
  | silent f k ih =>
    simp only [Prog.bind, Prog.zoom]
    congr
    funext b
    exact ih b g
  | step x f k ih =>
    simp only [Prog.bind, Prog.zoom]
    rw [ih]
  | attempt body h k _ _ ihk =>
    simp only [Prog.bind, Prog.zoom]
    congr
    funext b
    exact ihk b g

theorem Prog.zoom_forM (F : Focus σ τ) (f : β → Prog τ ε PUnit) (l : List β) :
    (l.forM f).zoom F = l.forM fun b => (f b).zoom F := by
  induction l with
  | nil => rfl
  | cons b l ih =>
    change (f b >>= fun _ => l.forM f).zoom F = ((f b).zoom F >>= fun _ => _)
    rw [Prog.zoom_bind, ih]

/-! ### Runs of a sequence -/

theorem Result.after_after (r : Result σ ε ι α) (l l' : List (Moment σ)) :
    (r.after l).after l' = r.after (l' ++ l) := by
  simp only [Result.after, List.append_assoc]

theorem Result.after_andThen (r : Result σ ε ι α) (l : List (Moment σ))
    (next : α → Plan ε ι → σ → Result σ ε ι β) :
    (r.after l).andThen next = (r.andThen next).after l := by
  simp only [Result.andThen]
  rw [show (r.after l).outcome = r.outcome from rfl]
  cases r.outcome with
  | ok a => exact (Result.after_after _ _ _).symm
  | raised e => rfl
  | killed => rfl

theorem Result.andThen_andThen {γ : Type} (r : Result σ ε ι α)
    (next : α → Plan ε ι → σ → Result σ ε ι β) (last : β → Plan ε ι → σ → Result σ ε ι γ) :
    (r.andThen next).andThen last = r.andThen fun a pl s => (next a pl s).andThen last := by
  simp only [Result.andThen]
  cases r.outcome with
  | ok a => exact Result.after_andThen _ _ _
  | raised e => rfl
  | killed => rfl

/-- A sequence runs its second part where the first returns. -/
theorem exec_bind (meddle : ι → σ → σ) (p : Prog σ ε α) (g : α → Prog σ ε β) (pl : Plan ε ι)
    (s : σ) : exec meddle (p >>= g) pl s =
      (exec meddle p pl s).andThen fun a => exec meddle (g a) := by
  change exec meddle (p.bind g) pl s = _
  induction p generalizing pl s with
  | pure a => rfl
  | throw e => rfl
  | silent f k ih => exact ih _ g pl _
  | step x f k ih =>
    simp only [Prog.bind, exec]
    generalize (if x then meddled meddle pl.next.1.meddling s else s) = s'
    cases pl.next.1.verdict with
    | go =>
      cases f s' with
      | ok s'' =>
        simp only
        rw [ih g, Result.after_andThen]
      | error e => rfl
    | fail e => rfl
    | kill => rfl
  | attempt body h k _ _ ihk =>
    simp only [Prog.bind]
    rw [exec_attempt, exec_attempt, Result.andThen_andThen]
    exact Result.andThen_congr fun b _ => ihk b g _ _

theorem mem_andThen {r : Result σ ε ι α} {next : α → Plan ε ι → σ → Result σ ε ι β}
    {m : Moment σ} (hm : m ∈ r.moments) : m ∈ (r.andThen next).moments := by
  simp only [Result.andThen]
  cases r.outcome with
  | ok a => exact List.mem_append_left _ hm
  | raised e => exact hm
  | killed => exact hm

theorem mem_andThen_next {r : Result σ ε ι α} {next : α → Plan ε ι → σ → Result σ ε ι β} {a : α}
    {m : Moment σ} (hr : r.outcome = .ok a) (hm : m ∈ (next a r.plan r.state).moments) :
    m ∈ (r.andThen next).moments := by
  simp only [Result.andThen, hr]
  exact List.mem_append_right _ hm

end CrashLogic
