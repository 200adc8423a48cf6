import Mathlib.Algebra.Ring.Nat
import Mathlib.Data.List.Count
import Mathlib.Data.List.Induction
import McAdmin.Calls

/-!
# Rules for programs that make calls

An assertion is about the calls a program has made, and `Triple` reads as a triple of program logic
does: after calls of which `H` holds, each call of the program may be made and its result satisfies
`K`.  Most of what a program relies on is lasting, so that a handler may rely on it too.

In a run every record of the trace is a step of one process, so that what is counted along the
trace is counted along the processes; and what holds of the calls before each record is an
invariant of the prefixes of the trace.
-/

namespace Calls

/-! ### Triples -/

section

variable {C : Type} {A : C → Type} {φ ε α β : Type} {P : List (Made C A φ) → C → Prop}

/-- After calls that satisfy `H`, the program makes only calls that satisfy `P`, and the calls
until it returns satisfy `K`. -/
def Triple (P : List (Made C A φ) → C → Prop) (H : List (Made C A φ) → Prop)
    (p : Prog C A φ ε α) (K : α → List (Made C A φ) → Prop) : Prop :=
  ∀ past, H past → Obeys P (fun past result => ∀ a, result = .ok a → K a past) past p

/-- What is true of some calls is true of more. -/
def Lasting (H : List (Made C A φ) → Prop) : Prop :=
  ∀ past past', H past → past ⊆ past' → H past'

variable {H H' : List (Made C A φ) → Prop} {J : α → List (Made C A φ) → Prop}
  {K K' : β → List (Made C A φ) → Prop} {p : Prog C A φ ε α} {f : α → Prog C A φ ε β}

theorem Lasting.true : Lasting fun _ : List (Made C A φ) => True := fun _ _ h _ => h

theorem Lasting.mem (m : Made C A φ) : Lasting fun past => m ∈ past :=
  fun _ _ h hsubset => hsubset h

theorem Lasting.and (h : Lasting H) (h' : Lasting H') : Lasting fun past => H past ∧ H' past :=
  fun _ _ hpast hsubset => ⟨h _ _ hpast.1 hsubset, h' _ _ hpast.2 hsubset⟩

theorem Lasting.or (h : Lasting H) (h' : Lasting H') : Lasting fun past => H past ∨ H' past :=
  fun _ _ hpast hsubset =>
    hpast.imp (fun hpast => h _ _ hpast hsubset) fun hpast => h' _ _ hpast hsubset

theorem Triple.pure {a : β} (h : ∀ past, H past → K a past) :
    Triple P H (Pure.pure a : Prog C A φ ε β) K := by
  intro past hpast a' ha'
  obtain rfl := Except.ok.inj ha'
  exact h past hpast

theorem Triple.throw {e : ε} : Triple P H (throw e : Prog C A φ ε β) K := by
  intro past _ a ha
  exact absurd ha (by simp)

theorem Triple.bind (hp : Triple P H p J) (hf : ∀ a, Triple P (J a) (f a) K) :
    Triple P H (p >>= f) K := by
  intro past hpast
  rw [obeys_bind]
  refine (hp past hpast).mono (fun _ _ hP => hP) fun past' result hresult => ?_
  cases result with
  | ok a => exact hf a past' (hresult a rfl)
  | error e => exact fun a ha => absurd ha (by simp)

theorem Triple.weaken {K K' : α → List (Made C A φ) → Prop} (h : Triple P H p K)
    (hH : ∀ past, H' past → H past) (hK : ∀ a past, K a past → K' a past) :
    Triple P H' p K' :=
  fun past hpast => (h past (hH past hpast)).mono (fun _ _ hP => hP)
    fun past' _ hresult a ha => hK a past' (hresult a ha)

/-- A program that makes only some calls makes only calls of more kinds. -/
theorem Triple.mono {P' : List (Made C A φ) → C → Prop} {K : α → List (Made C A φ) → Prop}
    (h : Triple P H p K) (hP : ∀ past c, P past c → P' past c) : Triple P' H p K :=
  fun past hpast => (h past hpast).mono hP fun _ _ hresult => hresult

theorem Triple.pre {K : α → List (Made C A φ) → Prop} (h : Triple P H p K)
    (hH : ∀ past, H' past → H past) : Triple P H' p K :=
  h.weaken hH fun _ _ hK => hK

/-- What lasts holds in the end as it did before. -/
theorem Triple.keep (hH : Lasting H) (h : Triple P H p J) :
    Triple P H p fun a past => H past ∧ J a past := by
  intro past hpast
  refine (h past hpast).later.mono (fun _ _ hP => hP) fun past' result hresult a ha => ?_
  exact ⟨hH past past' hpast hresult.1, hresult.2 a ha⟩

/-- A handler may rely on what lasts. -/
theorem Triple.tryCatch {h : ε → Prog C A φ ε α} (hH : Lasting H) (hp : Triple P H p J)
    (hh : ∀ e, Triple P H (h e) J) : Triple P H (tryCatch p h) J := by
  intro past hpast
  rw [obeys_tryCatch]
  refine (hp past hpast).later.mono (fun _ _ hP => hP) fun past' result hresult => ?_
  cases result with
  | ok a => exact hresult.2
  | error e => exact hh e past' (hH past past' hpast hresult.1)

theorem Triple.ite {c : Prop} [Decidable c] {p q : Prog C A φ ε α} (hp : c → Triple P H p J)
    (hq : ¬c → Triple P H q J) : Triple P H (if c then p else q) J := by
  by_cases h : c
  · rw [if_pos h]
    exact hp h
  · rw [if_neg h]
    exact hq h

theorem Triple.perform {raised : φ → ε} {c : C} {K : A c → List (Made C A φ) → Prop}
    (hP : ∀ past, H past → P past c) (hK : ∀ past a, H past → K a (past ++ [⟨c, .ok a⟩])) :
    Triple P H (.perform raised c : Prog C A φ ε (A c)) K := by
  intro past hpast
  rw [obeys_perform]
  refine ⟨hP past hpast, fun a a' ha' => ?_, fun e a ha => absurd ha (by simp)⟩
  obtain rfl := Except.ok.inj ha'
  exact hK past a hpast

/-! ### Programs that may run anywhere -/

/-- Each call of the program may be made, whatever calls came before it. -/
def Safe (P : List (Made C A φ) → C → Prop) (p : Prog C A φ ε α) : Prop :=
  Triple P (fun _ => True) p fun _ _ => True

theorem Safe.pure {a : α} : Safe P (Pure.pure a : Prog C A φ ε α) :=
  Triple.pure fun _ _ => trivial

theorem Safe.throw {e : ε} : Safe P (throw e : Prog C A φ ε α) := Triple.throw

theorem Safe.bind (hp : Safe P p) (hf : ∀ a, Safe P (f a)) : Safe P (p >>= f) :=
  Triple.bind hp hf

theorem Safe.tryCatch {h : ε → Prog C A φ ε α} (hp : Safe P p) (hh : ∀ e, Safe P (h e)) :
    Safe P (tryCatch p h) := Triple.tryCatch Lasting.true hp hh

theorem Safe.ite {c : Prop} [Decidable c] {p q : Prog C A φ ε α} (hp : c → Safe P p)
    (hq : ¬c → Safe P q) : Safe P (if c then p else q) := Triple.ite hp hq

theorem Safe.perform {raised : φ → ε} {c : C} (hP : ∀ past, P past c) :
    Safe P (.perform raised c : Prog C A φ ε (A c)) :=
  Triple.perform (fun past _ => hP past) fun _ _ _ => trivial

/-- Before a program of its own, a safe one leaves what lasts as it was. -/
theorem Safe.then (hp : Safe P p) (hH : Lasting H) (hf : ∀ a, Triple P H (f a) K) :
    Triple P H (p >>= f) K := by
  have hp' : Triple P H p fun _ _ => True := Triple.pre hp fun _ _ => trivial
  exact Triple.bind (hp'.keep hH) fun a => (hf a).pre fun _ h => h.1

/-- A program after calls of which something is known. -/
theorem Triple.then (hp : Triple P H p J) (hH : Lasting H)
    (hf : ∀ a, Triple P (fun past => H past ∧ J a past) (f a) K) : Triple P H (p >>= f) K :=
  (hp.keep hH).bind hf

theorem Triple.safe (h : Triple P (fun _ => True) p J) : Safe P p :=
  h.weaken (fun _ h => h) fun _ _ _ => trivial

theorem Safe.obeys (h : Safe P p) (past : List (Made C A φ)) :
    Obeys P (fun _ _ => True) past p :=
  (h past trivial).mono (fun _ _ hP => hP) fun _ _ _ => trivial

theorem Obeys.and {P' : List (Made C A φ) → C → Prop}
    {Q Q' : List (Made C A φ) → Except ε α → Prop} {past : List (Made C A φ)}
    (h : Obeys P Q past p) (h' : Obeys P' Q' past p) :
    Obeys (fun past c => P past c ∧ P' past c) (fun past result => Q past result ∧ Q' past result)
      past p := by
  induction p generalizing past with
  | pure a => exact ⟨h, h'⟩
  | throw e => exact ⟨h, h'⟩
  | call c next ih => exact ⟨⟨h.1, h'.1⟩, fun answer => ih answer (h.2 answer) (h'.2 answer)⟩

/-- What every call keeps that the program may make holds at each call and in the end. -/
theorem Obeys.keep {Q : List (Made C A φ) → Except ε α → Prop} {past : List (Made C A φ)}
    (h : Obeys P Q past p) (hkeep : ∀ past c answer, P past c → H past → H (past ++ [⟨c, answer⟩]))
    (hpast : H past) :
    Obeys (fun past c => P past c ∧ H past) (fun past result => Q past result ∧ H past) past p := by
  induction p generalizing past with
  | pure a => exact ⟨h, hpast⟩
  | throw e => exact ⟨h, hpast⟩
  | call c next ih =>
    exact ⟨⟨h.1, hpast⟩, fun answer => ih answer (h.2 answer) (hkeep past c answer h.1 hpast)⟩

end

/-! ### Counting along a run -/

section

variable {σ C : Type} {A : C → Type} {φ ε α ρ χ : Type} {m : Server σ C A φ ε α ρ χ}

/-- The records of a run, by the steps they are. -/
def World.steps (w : World σ C A φ ρ χ) : List (Step σ C A φ χ) := w.trace.map (·.toStep)

/-- So many steps of some kind are on the trace as the processes have taken. -/
def Balanced (f : Step σ C A φ χ → Bool) (p : Pool σ C A φ ε α ρ χ) : Prop :=
  p.world.steps.countP f = (p.processes.map fun q => q.past.countP f).sum

theorem sum_set {l : List ℕ} {i n k : ℕ} (h : l[i]? = some n) :
    (l.set i (n + k)).sum = l.sum + k := by
  induction l generalizing i with
  | nil => simp at h
  | cons a l ih =>
    cases i with
    | zero =>
      obtain rfl := Option.some.inj h
      simp only [List.set_cons_zero, List.sum_cons]
      omega
    | succ i =>
      simp only [List.set_cons_succ, List.sum_cons, ih h]
      omega

variable (m) in
/-- What a process does at its turn: nothing that is seen, or one step. -/
theorem Server.advance_steps (choice : χ) (w : World σ C A φ ρ χ)
    (q : Process σ C A φ ε α ρ χ) :
    ∃ new, (m.advance choice w q).1.steps = w.steps ++ new ∧
      (m.advance choice w q).2.past = q.past ++ new := by
  obtain ⟨caller, past, rest⟩ := q
  match rest with
  | none => exact ⟨[], by simp [Server.advance]⟩
  | some (.pure a) => exact ⟨[], by simp [Server.advance, Server.deliverTo, World.steps]⟩
  | some (.throw e) => exact ⟨[], by simp [Server.advance, Server.deliverTo, World.steps]⟩
  | some (.call c next) =>
    by_cases hallows : m.allows choice c w.state = true
    · refine ⟨[m.stepOf choice c w.state], ?_⟩
      simp [Server.advance, hallows, Server.reply, World.steps]
    · exact ⟨[], by simp [Server.advance, hallows]⟩

theorem Balanced.step {f : Step σ C A φ χ → Bool} {p : Pool σ C A φ ε α ρ χ}
    (h : Balanced f p) (event : Event ρ χ) : Balanced f (m.step p event) := by
  unfold Balanced at h ⊢
  cases event with
  | arrive request =>
    simp only [Server.step]
    by_cases hadmits : m.admits request p.world.state = true
    · rw [if_pos hadmits, h]
      simp
    · rw [if_neg hadmits]
      exact h
  | proceed i choice =>
    simp only [Server.step]
    cases hi : p.processes[i]? with
    | none => exact h
    | some q =>
      obtain ⟨new, hsteps, hpast⟩ := m.advance_steps choice p.world q
      have hcount : ((p.processes.map fun q => q.past.countP f))[i]? = some (q.past.countP f) := by
        simp [hi]
      calc ((m.advance choice p.world q).1.steps).countP f
          = p.world.steps.countP f + new.countP f := by rw [hsteps, List.countP_append]
        _ = (p.processes.map fun q => q.past.countP f).sum + new.countP f := by rw [h]
        _ = ((p.processes.map fun q => q.past.countP f).set i
              (q.past.countP f + new.countP f)).sum := (sum_set hcount).symm
        _ = _ := by rw [List.map_set, hpast, List.countP_append]

theorem balanced_run (f : Step σ C A φ χ → Bool) (state : σ) (events : List (Event ρ χ)) :
    Balanced f (Runs.run m.step (Pool.start state) events) := by
  have hstart : Balanced f (Pool.start state : Pool σ C A φ ε α ρ χ) := rfl
  induction events using List.reverseRecOn with
  | nil => exact hstart
  | append_singleton events event ih =>
    rw [Runs.run_snoc]
    exact ih.step event

/-! ### How requests end -/

variable {D : Duty C A φ ε α ρ} {R : ρ → Prop} {G : Growth σ} {K : Condition σ C A φ ρ χ}

/-- A request that is over ended as its handler may. -/
def Concluded (D : Duty C A φ ε α ρ) (p : Pool σ C A φ ε α ρ χ) : Prop :=
  ∀ q ∈ p.processes, q.rest = none → ∃ result, D.result q.caller.request (made q.past) result

theorem Concluded.advance {q : Process σ C A φ ε α ρ χ} {w : World σ C A φ ρ χ} (choice : χ)
    (hq : q.Sound m D R G w)
    (h : q.rest = none → ∃ result, D.result q.caller.request (made q.past) result)
    (hover : (m.advance choice w q).2.rest = none) :
    ∃ result, D.result (m.advance choice w q).2.caller.request
      (made (m.advance choice w q).2.past) result := by
  obtain ⟨caller, past, rest⟩ := q
  match rest with
  | none => exact h rfl
  | some (.pure a) => exact ⟨.ok a, hq.rest _ rfl⟩
  | some (.throw e) => exact ⟨.error e, hq.rest _ rfl⟩
  | some (.call c next) =>
    exfalso
    by_cases hallows : m.allows choice c w.state = true
    · simp [Server.advance, hallows] at hover
    · simp [Server.advance, hallows] at hover

theorem Concluded.step {p : Pool σ C A φ ε α ρ χ} (hp : p.Sound m D R G) (h : Concluded D p)
    (event : Event ρ χ) : Concluded D (m.step p event) := by
  cases event with
  | arrive request =>
    simp only [Server.step]
    by_cases hadmits : m.admits request p.world.state = true
    · rw [if_pos hadmits]
      intro q hq hover
      rcases List.mem_append.mp hq with hq | hq
      · exact h q hq hover
      · obtain rfl := List.mem_singleton.mp hq
        exact absurd hover (by simp)
    · rw [if_neg hadmits]
      exact h
  | proceed i choice =>
    simp only [Server.step]
    cases hi : p.processes[i]? with
    | none => exact h
    | some q =>
      have hmem := List.mem_of_getElem? hi
      intro q' hq' hover
      rcases List.mem_or_eq_of_mem_set hq' with hq' | rfl
      · exact h q' hq' hover
      · exact Concluded.advance choice (hp.processes q hmem) (h q hmem) hover

theorem concluded_run (hm : m.Does D) (hG : Grows m D R G K) {state : σ}
    {events : List (Event ρ χ)} (h : Runs.Along m.step (Meets R K) (Pool.start state) events) :
    Concluded D (Runs.run m.step (Pool.start state) events) := by
  refine (Runs.run_induction (P := fun p => p.Sound m D R G ∧ Concluded D p) ?_
    ⟨Pool.Sound.start state, fun q hq => absurd hq List.not_mem_nil⟩ h).2
  rintro p event ⟨hp, hconcluded⟩ hmeets
  exact ⟨(hp.step hm hG hmeets).2, hconcluded.step hp event⟩

/-! ### The records before a record -/

/-- Each record is as `J` has it, by those before it. -/
def Ordered (J : List (Record σ C A φ ρ χ) → Record σ C A φ ρ χ → Prop)
    (trace : List (Record σ C A φ ρ χ)) : Prop :=
  ∀ before record after, trace = before ++ record :: after → J before record

variable {J : List (Record σ C A φ ρ χ) → Record σ C A φ ρ χ → Prop}
  {trace : List (Record σ C A φ ρ χ)}

theorem Ordered.nil : Ordered J ([] : List (Record σ C A φ ρ χ)) :=
  fun _ _ _ h => absurd h (by simp)

theorem Ordered.snoc {record : Record σ C A φ ρ χ} (h : Ordered J trace) (hJ : J trace record) :
    Ordered J (trace ++ [record]) := by
  intro before record' after heq
  rcases List.eq_nil_or_concat after with rfl | ⟨after, last, rfl⟩
  · obtain ⟨rfl, hlast⟩ := List.append_inj' heq rfl
    obtain rfl := (List.cons.inj hlast).1
    exact hJ
  · rw [List.concat_eq_append, ← List.cons_append, ← List.append_assoc] at heq
    obtain ⟨rfl, -⟩ := List.append_inj' heq rfl
    exact h before record' after rfl

end

end Calls
