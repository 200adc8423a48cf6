import Mathlib.Logic.Basic

/-!
# Procedures that may raise

A procedure works on a state and returns or raises; what it did before it raises stays done.
`Meets` says of one start what there is afterwards, in either case, and has one rule for each way
to build a procedure.
-/

namespace Procedures

/-- A procedure on states `σ`, which returns an `α` or raises an `ε`. -/
def Proc (σ ε α : Type) := σ → Except ε α × σ

namespace Proc

variable {σ τ ε ε' α β : Type}

def pure (a : α) : Proc σ ε α := fun s => (.ok a, s)

def raise (e : ε) : Proc σ ε α := fun s => (.error e, s)

def bind (x : Proc σ ε α) (f : α → Proc σ ε β) : Proc σ ε β := fun s =>
  match x s with
  | (.ok a, s') => f a s'
  | (.error e, s') => (.error e, s')

/-- `try: x; except: h` -/
def handle (x : Proc σ ε α) (h : ε → Proc σ ε' α) : Proc σ ε' α := fun s =>
  match x s with
  | (.ok a, s') => (.ok a, s')
  | (.error e, s') => h e s'

instance : Monad (Proc σ ε) where
  pure := pure
  bind := bind

/-- `try: x; finally: y` -/
def ensure (x : Proc σ ε α) (y : Proc σ ε Unit) : Proc σ ε α := fun s =>
  match x s with
  | (.ok a, s') => (y >>= fun _ => pure a) s'
  | (.error e, s') => (y >>= fun _ => raise e) s'

/-- Look at the state. -/
def get : Proc σ ε σ := fun s => (.ok s, s)

/-- Change the state. -/
def update (f : σ → σ) : Proc σ ε Unit := fun s => (.ok (), f s)

/-- Work on a part of the state. -/
def on (part : τ → σ) (put : σ → τ → τ) (x : Proc σ ε α) : Proc τ ε α := fun s =>
  ((x (part s)).1, put (x (part s)).2 s)

/-- What may fail for one reason. -/
def ofOption (e : ε) : Option α → Proc σ ε α
  | none => raise e
  | some a => pure a

/-- What a procedure returns or raises. -/
def result (x : Proc σ ε α) (s : σ) : Except ε α := (x s).1

end Proc

variable {σ τ ε ε' α β : Type}

/-- What there is at the end, of a return or of an error. -/
def Ends (Q : α → σ → Prop) (E : ε → σ → Prop) : Except ε α × σ → Prop
  | (.ok a, s) => Q a s
  | (.error e, s) => E e s

/-- From `s`, the procedure returns with `Q` or raises with `E`. -/
structure Meets (x : Proc σ ε α) (s : σ) (Q : α → σ → Prop) (E : ε → σ → Prop) : Prop where
  ends : Ends Q E (x s)

section

variable {x : Proc σ ε α} {f : α → Proc σ ε β} {h : ε → Proc σ ε' α} {y : Proc σ ε Unit}
  {s : σ} {a : α} {e : ε} {Q Q' : α → σ → Prop} {E E' : ε → σ → Prop}

theorem Ends.mono {end' : Except ε α × σ} (h : Ends Q E end') (hQ : ∀ a s, Q a s → Q' a s)
    (hE : ∀ e s, E e s → E' e s) : Ends Q' E' end' := by
  obtain ⟨result, s⟩ := end'
  cases result with
  | ok a => exact hQ a s h
  | error e => exact hE e s h

theorem Meets.mono (hx : Meets x s Q E) (hQ : ∀ a s, Q a s → Q' a s)
    (hE : ∀ e s, E e s → E' e s) : Meets x s Q' E' := ⟨hx.ends.mono hQ hE⟩

theorem result_eq {r : Except ε α} {s' : σ} (h : x s = (r, s')) : x.result s = r := by
  rw [Proc.result, h]

theorem Meets.elim (hx : Meets x s Q E) :
    (∃ a s', x s = (.ok a, s') ∧ Q a s') ∨ ∃ e s', x s = (.error e, s') ∧ E e s' := by
  have hends := hx.ends
  cases hend : x s with
  | mk result s' =>
    rw [hend] at hends
    cases result with
    | ok a => exact .inl ⟨a, s', rfl, hends⟩
    | error e => exact .inr ⟨e, s', rfl, hends⟩

/-- A procedure that cannot raise returns. -/
theorem Meets.exists_ok (hx : Meets x s Q fun _ _ => False) :
    ∃ a s', x s = (.ok a, s') ∧ Q a s' := by
  rcases hx.elim with hok | ⟨e, s', -, hnever⟩
  · exact hok
  · exact hnever.elim

theorem meets_pure (hQ : Q a s) : Meets (pure a : Proc σ ε α) s Q E := ⟨hQ⟩

theorem meets_raise (hE : E e s) : Meets (.raise e : Proc σ ε α) s Q E := ⟨hE⟩

theorem meets_get {Q : σ → σ → Prop} (hQ : Q s s) : Meets (.get : Proc σ ε σ) s Q E := ⟨hQ⟩

theorem meets_update {f : σ → σ} {Q : Unit → σ → Prop} (hQ : Q () (f s)) :
    Meets (.update f : Proc σ ε Unit) s Q E := ⟨hQ⟩

theorem meets_bind {Q : β → σ → Prop} (hx : Meets x s (fun a s => Meets (f a) s Q E) E) :
    Meets (x >>= f) s Q E := by
  constructor
  change Ends Q E (Proc.bind x f s)
  have hends := hx.ends
  rw [Proc.bind]
  cases hend : x s with
  | mk result s' =>
    rw [hend] at hends
    cases result with
    | ok a => exact hends.ends
    | error e => exact hends

theorem meets_handle {E : ε' → σ → Prop} (hx : Meets x s Q fun e s => Meets (h e) s Q E) :
    Meets (x.handle h) s Q E := by
  constructor
  have hends := hx.ends
  rw [Proc.handle]
  cases hend : x s with
  | mk result s' =>
    rw [hend] at hends
    cases result with
    | ok a => exact hends
    | error e => exact hends.ends

theorem meets_ensure (hx : Meets x s (fun a s => Meets y s (fun _ => Q a) E)
    fun e s => Meets y s (fun _ => E e) E) : Meets (x.ensure y) s Q E := by
  constructor
  have hends := hx.ends
  rw [Proc.ensure]
  cases hend : x s with
  | mk result s' =>
    rw [hend] at hends
    cases result with
    | ok a =>
      have hy : Meets y s' (fun _ => Q a) E := hends
      exact (meets_bind (hy.mono (fun _ _ hQ => meets_pure hQ) fun _ _ hE => hE)).ends
    | error e =>
      have hy : Meets y s' (fun _ => E e) E := hends
      exact (meets_bind (hy.mono (fun _ _ hE => meets_raise hE) fun _ _ hE => hE)).ends

theorem meets_on {part : τ → σ} {put : σ → τ → τ} {t : τ} {Q : α → τ → Prop} {E : ε → τ → Prop}
    (hx : Meets x (part t) (fun a s => Q a (put s t)) fun e s => E e (put s t)) :
    Meets (x.on part put) t Q E := by
  constructor
  have hends := hx.ends
  rw [Proc.on]
  cases hend : x (part t) with
  | mk result s' =>
    rw [hend] at hends
    cases result with
    | ok a => exact hends
    | error e => exact hends

theorem meets_ite {b : Prop} [Decidable b] {x' : Proc σ ε α} (hx : b → Meets x s Q E)
    (hx' : ¬ b → Meets x' s Q E) : Meets (if b then x else x') s Q E := by
  by_cases hb : b
  · rw [if_pos hb]
    exact hx hb
  · rw [if_neg hb]
    exact hx' hb

theorem meets_ofOption {o : Option α} (hnone : o = none → E e s) (hsome : ∀ a, o = some a → Q a s) :
    Meets (.ofOption e o : Proc σ ε α) s Q E := by
  cases o with
  | none => exact meets_raise (hnone rfl)
  | some a => exact meets_pure (hsome a rfl)

end

end Procedures
