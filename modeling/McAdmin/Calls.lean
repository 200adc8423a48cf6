import McAdmin.Runs

/-!
# Programs that make calls

A program asks for one call after the other and goes on from what each answers; a call may
raise.  What the calls do is no part of it.  `exec` runs a program alone, against answers of any
kind, and `Obeys` is what holds whatever the calls answer: each call is one that may be made
after those before it, and the result is one there may be after all of them.

A `Server` answers the calls of many programs at once, one for each request that arrived.  An
event lets one of them make its next call, so that a run is any interleaving.  What each program
obeys alone it obeys among the others, and `run_invariant` is the rule for the rest: a predicate
of the world that each permitted call keeps, in whatever world it comes, holds of every run.
-/

namespace Calls

/-! ### Programs -/

/-- `A c` is what a call `c` answers, `φ` what it raises and `ε` what a program raises. -/
inductive Prog (C : Type) (A : C → Type) (φ ε α : Type) : Type where
  | pure (value : α)
  | throw (error : ε)
  | call (c : C) (next : Except φ (A c) → Prog C A φ ε α)

namespace Prog

variable {C : Type} {A : C → Type} {φ ε α β : Type}

def bind : Prog C A φ ε α → (α → Prog C A φ ε β) → Prog C A φ ε β
  | .pure a, f => f a
  | .throw e, _ => .throw e
  | .call c next, f => .call c fun answer => (next answer).bind f

def handle : Prog C A φ ε α → (ε → Prog C A φ ε α) → Prog C A φ ε α
  | .pure a, _ => .pure a
  | .throw e, h => h e
  | .call c next, h => .call c fun answer => (next answer).handle h

instance : Monad (Prog C A φ ε) where
  pure := .pure
  bind := .bind

instance : MonadExceptOf ε (Prog C A φ ε) where
  throw := .throw
  tryCatch := .handle

/-- A call whose error is raised. -/
def perform (raised : φ → ε) (c : C) : Prog C A φ ε (A c) :=
  .call c fun answer =>
    match answer with
    | .ok a => .pure a
    | .error e => .throw (raised e)

end Prog

/-- A call and its answer. -/
structure Made (C : Type) (A : C → Type) (φ : Type) where
  call : C
  answer : Except φ (A call)

/-! ### A program alone -/

section

variable {C : Type} {A : C → Type} {φ ε α β : Type}

/-- What is made of a program by answers that may depend on everything before them. -/
def exec (answers : List (Made C A φ) → (c : C) → Except φ (A c)) :
    List (Made C A φ) → Prog C A φ ε α → List (Made C A φ) × Except ε α
  | past, .pure a => (past, .ok a)
  | past, .throw e => (past, .error e)
  | past, .call c next =>
    exec answers (past ++ [⟨c, answers past c⟩]) (next (answers past c))

/-- Each call satisfies `P` after the calls before it, and the result `Q` after all of them. -/
def Obeys (P : List (Made C A φ) → C → Prop) (Q : List (Made C A φ) → Except ε α → Prop) :
    List (Made C A φ) → Prog C A φ ε α → Prop
  | past, .pure a => Q past (.ok a)
  | past, .throw e => Q past (.error e)
  | past, .call c next => P past c ∧ ∀ answer, Obeys P Q (past ++ [⟨c, answer⟩]) (next answer)

variable {P P' : List (Made C A φ) → C → Prop} {Q Q' : List (Made C A φ) → Except ε α → Prop}
  {past : List (Made C A φ)} {p q : Prog C A φ ε α}

theorem exec_of_obeys (h : Obeys P Q past p)
    (answers : List (Made C A φ) → (c : C) → Except φ (A c)) :
    Q (exec answers past p).1 (exec answers past p).2 := by
  induction p generalizing past with
  | pure a => exact h
  | throw e => exact h
  | call c next ih => exact ih _ (h.2 _)

theorem Obeys.mono (h : Obeys P Q past p) (hP : ∀ past c, P past c → P' past c)
    (hQ : ∀ past result, Q past result → Q' past result) : Obeys P' Q' past p := by
  induction p generalizing past with
  | pure a => exact hQ _ _ h
  | throw e => exact hQ _ _ h
  | call c next ih => exact ⟨hP _ _ h.1, fun answer => ih answer (h.2 answer)⟩

/-- What was made stays made. -/
theorem Obeys.later (h : Obeys P Q past p) :
    Obeys P (fun past' result => past ⊆ past' ∧ Q past' result) past p := by
  induction p generalizing past with
  | pure a => exact ⟨fun _ hmade => hmade, h⟩
  | throw e => exact ⟨fun _ hmade => hmade, h⟩
  | call c next ih =>
    refine ⟨h.1, fun answer => (ih answer (h.2 answer)).mono (fun _ _ hP => hP) ?_⟩
    rintro past' result ⟨hsubset, hQ⟩
    exact ⟨fun made hmade => hsubset (List.mem_append_left _ hmade), hQ⟩

@[simp] theorem obeys_pure {a : α} : Obeys P Q past (pure a) ↔ Q past (.ok a) := Iff.rfl

@[simp] theorem obeys_throw {e : ε} :
    Obeys P Q past (throw e : Prog C A φ ε α) ↔ Q past (.error e) := Iff.rfl

theorem obeys_bind {Q : List (Made C A φ) → Except ε β → Prop} {f : α → Prog C A φ ε β} :
    Obeys P Q past (p >>= f) ↔
      Obeys P (fun past result =>
        match result with
        | .ok a => Obeys P Q past (f a)
        | .error e => Q past (.error e)) past p := by
  change Obeys P Q past (p.bind f) ↔ _
  induction p generalizing past with
  | pure a => exact Iff.rfl
  | throw e => exact Iff.rfl
  | call c next ih => exact and_congr_right fun _ => forall_congr' fun answer => ih answer

theorem obeys_tryCatch {h : ε → Prog C A φ ε α} :
    Obeys P Q past (tryCatch p h) ↔
      Obeys P (fun past result =>
        match result with
        | .ok a => Q past (.ok a)
        | .error e => Obeys P Q past (h e)) past p := by
  change Obeys P Q past (p.handle h) ↔ _
  induction p generalizing past with
  | pure a => exact Iff.rfl
  | throw e => exact Iff.rfl
  | call c next ih => exact and_congr_right fun _ => forall_congr' fun answer => ih answer

theorem obeys_perform {raised : φ → ε} {c : C} {Q : List (Made C A φ) → Except ε (A c) → Prop} :
    Obeys P Q past (.perform raised c) ↔
      P past c ∧ (∀ a, Q (past ++ [⟨c, .ok a⟩]) (.ok a)) ∧
        ∀ e, Q (past ++ [⟨c, .error e⟩]) (.error (raised e)) := by
  refine and_congr_right fun _ => ⟨fun h => ⟨fun a => h (.ok a), fun e => h (.error e)⟩, ?_⟩
  rintro ⟨hok, herror⟩ (e | a)
  · exact herror e
  · exact hok a

theorem obeys_ite {b : Prop} [Decidable b] :
    Obeys P Q past (if b then p else q) ↔
      (b → Obeys P Q past p) ∧ (¬b → Obeys P Q past q) := by
  by_cases h : b <;> simp [h]

end

/-! ### Many programs at once -/

/-- What the requests run as, which requests can arrive, which choices the surroundings have at a
call, what a call answers and does, and what the end of a request does. -/
structure Server (σ C : Type) (A : C → Type) (φ ε α ρ χ : Type) where
  handler : ρ → Prog C A φ ε α
  admits : ρ → σ → Bool
  allows : χ → C → σ → Bool
  respond : χ → (c : C) → σ → Except φ (A c) × σ
  deliver : ρ → Except ε α → σ → σ

/-- A request, and the state it arrived in. -/
structure Caller (σ ρ : Type) where
  request : ρ
  arrival : σ

/-- A call that was made, the state it was made in and what the surroundings chose. -/
structure Step (σ C : Type) (A : C → Type) (φ χ : Type) extends Made C A φ where
  before : σ
  choice : χ

/-- A step, who took it and the steps it had taken before. -/
structure Record (σ C : Type) (A : C → Type) (φ ρ χ : Type) extends Step σ C A φ χ where
  caller : Caller σ ρ
  past : List (Step σ C A φ χ)

/-- The state, and every step so far. -/
structure World (σ C : Type) (A : C → Type) (φ ρ χ : Type) where
  state : σ
  trace : List (Record σ C A φ ρ χ) := []

/-- A request under way, or over. -/
structure Process (σ C : Type) (A : C → Type) (φ ε α ρ χ : Type) where
  caller : Caller σ ρ
  past : List (Step σ C A φ χ) := []
  rest : Option (Prog C A φ ε α)

structure Pool (σ C : Type) (A : C → Type) (φ ε α ρ χ : Type) where
  world : World σ C A φ ρ χ
  processes : List (Process σ C A φ ε α ρ χ) := []

/-- A request arrives, or a process makes its next call or ends. -/
inductive Event (ρ χ : Type) where
  | arrive (request : ρ)
  | proceed (i : ℕ) (choice : χ)

section

variable {σ C : Type} {A : C → Type} {φ ε α ρ χ : Type}

/-- The calls of some steps. -/
abbrev made (past : List (Step σ C A φ χ)) : List (Made C A φ) := past.map (·.toMade)

namespace Server

variable (m : Server σ C A φ ε α ρ χ)

/-- The step of a call. -/
def stepOf (choice : χ) (c : C) (s : σ) : Step σ C A φ χ :=
  ⟨⟨c, (m.respond choice c s).1⟩, s, choice⟩

/-- The world after a call. -/
def reply (choice : χ) (k : Caller σ ρ) (past : List (Step σ C A φ χ)) (c : C)
    (w : World σ C A φ ρ χ) : World σ C A φ ρ χ :=
  ⟨(m.respond choice c w.state).2, w.trace ++ [⟨m.stepOf choice c w.state, k, past⟩]⟩

def deliverTo (k : Caller σ ρ) (result : Except ε α) (w : World σ C A φ ρ χ) : World σ C A φ ρ χ :=
  { w with state := m.deliver k.request result w.state }

/-- A process at its next call, or at its end. -/
def advance (choice : χ) (w : World σ C A φ ρ χ) (q : Process σ C A φ ε α ρ χ) :
    World σ C A φ ρ χ × Process σ C A φ ε α ρ χ :=
  match q.rest with
  | none => (w, q)
  | some (.pure a) => (m.deliverTo q.caller (.ok a) w, { q with rest := none })
  | some (.throw e) => (m.deliverTo q.caller (.error e) w, { q with rest := none })
  | some (.call c next) =>
    if m.allows choice c w.state then
      (m.reply choice q.caller q.past c w,
        { q with
          past := q.past ++ [m.stepOf choice c w.state]
          rest := some (next (m.respond choice c w.state).1) })
    else (w, q)

def step (p : Pool σ C A φ ε α ρ χ) : Event ρ χ → Pool σ C A φ ε α ρ χ
  | .arrive request =>
    if m.admits request p.world.state then
      { p with processes :=
          p.processes ++ [⟨⟨request, p.world.state⟩, [], some (m.handler request)⟩] }
    else p
  | .proceed i choice =>
    match p.processes[i]? with
    | none => p
    | some q =>
      let (world, q) := m.advance choice p.world q
      ⟨world, p.processes.set i q⟩

end Server

/-- A server that nobody has asked for anything. -/
def Pool.start (state : σ) : Pool σ C A φ ε α ρ χ := ⟨⟨state, []⟩, []⟩

/-- What is asked of a call before it is made: of the world, of the request, of the calls it has
made and of the call itself. -/
abbrev Condition (σ C : Type) (A : C → Type) (φ ρ χ : Type) :=
  World σ C A φ ρ χ → Caller σ ρ → List (Step σ C A φ χ) → C → Prop

/-- The next call of a process. -/
def Process.next (q : Process σ C A φ ε α ρ χ) : Option C :=
  match q.rest with
  | some (.call c _) => some c
  | _ => none

/-- The requests are in `R`, and the call an event makes meets the condition. -/
def Meets (R : ρ → Prop) (K : Condition σ C A φ ρ χ) (p : Pool σ C A φ ε α ρ χ) : Event ρ χ → Prop
  | .arrive request => R request
  | .proceed i _ => ∀ q ∈ p.processes[i]?, ∀ c ∈ q.next, K p.world q.caller q.past c

instance (R : ρ → Prop) (K : Condition σ C A φ ρ χ) [DecidablePred R]
    [∀ w k past c, Decidable (K w k past c)] (p : Pool σ C A φ ε α ρ χ) :
    ∀ event : Event ρ χ, Decidable (Meets R K p event)
  | .arrive request => inferInstanceAs (Decidable (R request))
  | .proceed i _ => inferInstanceAs
      (Decidable (∀ q ∈ p.processes[i]?, ∀ c ∈ q.next, K p.world q.caller q.past c))

/-- A request that arrives is in `R`. -/
def Event.Asks (R : ρ → Prop) : Event ρ χ → Prop
  | .arrive request => R request
  | .proceed .. => True

instance (R : ρ → Prop) [DecidablePred R] : DecidablePred (Event.Asks R : Event ρ χ → Prop)
  | .arrive request => inferInstanceAs (Decidable (R request))
  | .proceed .. => isTrue trivial

/-! ### A program among others -/

/-- What a handler is held to: the calls it may make and the results it may have. -/
structure Duty (C : Type) (A : C → Type) (φ ε α ρ : Type) where
  call : ρ → List (Made C A φ) → C → Prop
  result : ρ → List (Made C A φ) → Except ε α → Prop

def Server.Does (m : Server σ C A φ ε α ρ χ) (D : Duty C A φ ε α ρ) : Prop :=
  ∀ r, Obeys (D.call r) (D.result r) [] (m.handler r)

/-- What states have in common with the states after them. -/
structure Growth (σ : Type) where
  le : σ → σ → Prop
  refl : ∀ s, le s s
  trans : ∀ {s s' s''}, le s s' → le s' s'' → le s s''

/-- Nothing. -/
def Growth.none : Growth σ := ⟨fun _ _ => True, fun _ => trivial, fun _ _ => trivial⟩

variable (m : Server σ C A φ ε α ρ χ) (D : Duty C A φ ε α ρ) (R : ρ → Prop) (G : Growth σ)

/-- How far a caller got: its request was let in, and its calls are on the trace. -/
structure Credible (w : World σ C A φ ρ χ) (k : Caller σ ρ) (past : List (Step σ C A φ χ)) :
    Prop where
  requested : R k.request
  admitted : m.admits k.request k.arrival = true
  arrived : G.le k.arrival w.state
  answered : ∀ s ∈ past, m.allows s.choice s.call s.before = true ∧
    s = m.stepOf s.choice s.call s.before
  recorded : ∀ s ∈ past, ∃ record ∈ w.trace, record.toStep = s ∧ record.caller = k

/-- A step that was taken was one the request could take. -/
structure Record.Sound (w : World σ C A φ ρ χ) (record : Record σ C A φ ρ χ) : Prop where
  credible : Credible m R G w record.caller record.past
  called : D.call record.caller.request (made record.past) record.call
  answered : m.allows record.choice record.call record.before = true ∧
    record.toStep = m.stepOf record.choice record.call record.before
  arrived : G.le record.caller.arrival record.before
  before : G.le record.before w.state

structure Process.Sound (w : World σ C A φ ρ χ) (q : Process σ C A φ ε α ρ χ) : Prop where
  credible : Credible m R G w q.caller q.past
  rest : ∀ p, q.rest = some p →
    Obeys (D.call q.caller.request) (D.result q.caller.request) (made q.past) p

structure World.Sound (w : World σ C A φ ρ χ) : Prop where
  trace : ∀ record ∈ w.trace, record.Sound m D R G w

structure Pool.Sound (p : Pool σ C A φ ε α ρ χ) : Prop where
  world : p.world.Sound m D R G
  processes : ∀ q ∈ p.processes, q.Sound m D R G p.world

variable {m D R G}

/-- The world after another. -/
structure World.Later (G : Growth σ) (w w' : World σ C A φ ρ χ) : Prop where
  state : G.le w.state w'.state
  trace : w.trace ⊆ w'.trace

theorem Credible.later {w w' : World σ C A φ ρ χ} {k : Caller σ ρ} {past : List (Step σ C A φ χ)}
    (h : Credible m R G w k past) (hlater : w.Later G w') : Credible m R G w' k past where
  requested := h.requested
  admitted := h.admitted
  arrived := G.trans h.arrived hlater.state
  answered := h.answered
  recorded s hs := by
    obtain ⟨record, hrecord, hstep⟩ := h.recorded s hs
    exact ⟨record, hlater.trace hrecord, hstep⟩

/-- What states have in common by one growth they have by a coarser one. -/
theorem Credible.weaken {G' : Growth σ} {w : World σ C A φ ρ χ} {k : Caller σ ρ}
    {past : List (Step σ C A φ χ)} (h : Credible m R G w k past)
    (hG : ∀ s s', G.le s s' → G'.le s s') : Credible m R G' w k past :=
  { h with arrived := hG _ _ h.arrived }

theorem Record.Sound.later {w w' : World σ C A φ ρ χ} {record : Record σ C A φ ρ χ}
    (h : record.Sound m D R G w) (hlater : w.Later G w') : record.Sound m D R G w' :=
  ⟨h.credible.later hlater, h.called, h.answered, h.arrived, G.trans h.before hlater.state⟩

theorem Record.Sound.weaken {G' : Growth σ} {w : World σ C A φ ρ χ} {record : Record σ C A φ ρ χ}
    (h : record.Sound m D R G w) (hG : ∀ s s', G.le s s' → G'.le s s') :
    record.Sound m D R G' w :=
  ⟨h.credible.weaken hG, h.called, h.answered, hG _ _ h.arrived, hG _ _ h.before⟩

theorem World.Sound.weaken {G' : Growth σ} {w : World σ C A φ ρ χ} (h : w.Sound m D R G)
    (hG : ∀ s s', G.le s s' → G'.le s s') : w.Sound m D R G' :=
  ⟨fun record hrecord => (h.trace record hrecord).weaken hG⟩

theorem Process.Sound.later {w w' : World σ C A φ ρ χ} {q : Process σ C A φ ε α ρ χ}
    (h : q.Sound m D R G w) (hlater : w.Later G w') : q.Sound m D R G w' :=
  ⟨h.credible.later hlater, h.rest⟩

/-- How an event changes the world: not at all, by the call of a process that may make it, or by
the end of one that may end so. -/
inductive Move (m : Server σ C A φ ε α ρ χ) (D : Duty C A φ ε α ρ) (R : ρ → Prop) (G : Growth σ)
    (K : Condition σ C A φ ρ χ) (w : World σ C A φ ρ χ) : World σ C A φ ρ χ → Prop where
  | stay : Move m D R G K w w
  | call (k : Caller σ ρ) (past : List (Step σ C A φ χ)) (c : C) (choice : χ) :
    Credible m R G w k past → D.call k.request (made past) c → K w k past c →
      m.allows choice c w.state = true → Move m D R G K w (m.reply choice k past c w)
  | result (k : Caller σ ρ) (past : List (Step σ C A φ χ)) (result : Except ε α) :
    Credible m R G w k past → D.result k.request (made past) result →
      Move m D R G K w (m.deliverTo k result w)

theorem Move.weaken {G' : Growth σ} {K : Condition σ C A φ ρ χ} {w w' : World σ C A φ ρ χ}
    (h : Move m D R G K w w') (hG : ∀ s s', G.le s s' → G'.le s s') : Move m D R G' K w w' := by
  cases h with
  | stay => exact .stay
  | call k past c choice hk hcall hK hallows =>
    exact .call k past c choice (hk.weaken hG) hcall hK hallows
  | result k past result hk hresult => exact .result k past result (hk.weaken hG) hresult

/-- Every move makes the state grow. -/
def Grows (m : Server σ C A φ ε α ρ χ) (D : Duty C A φ ε α ρ) (R : ρ → Prop) (G : Growth σ)
    (K : Condition σ C A φ ρ χ) : Prop :=
  ∀ w w', w.Sound m D R G → Move m D R G K w w' → G.le w.state w'.state

variable {K : Condition σ C A φ ρ χ} {p : Pool σ C A φ ε α ρ χ}

theorem grows_none : Grows m D R Growth.none K := fun _ _ _ _ => trivial

theorem Move.trace_subset {w w' : World σ C A φ ρ χ} (h : Move m D R G K w w') :
    w.trace ⊆ w'.trace := by
  cases h with
  | stay => exact fun _ h => h
  | call k past c choice => exact fun _ h => List.mem_append_left _ h
  | result k past result => exact fun _ h => h

theorem Move.later {w w' : World σ C A φ ρ χ} (hG : Grows m D R G K) (hw : w.Sound m D R G)
    (h : Move m D R G K w w') : w.Later G w' := ⟨hG w w' hw h, h.trace_subset⟩

theorem Move.sound {w w' : World σ C A φ ρ χ} (hG : Grows m D R G K) (hw : w.Sound m D R G)
    (h : Move m D R G K w w') : w'.Sound m D R G := by
  have hlater := h.later hG hw
  refine ⟨fun record hrecord => ?_⟩
  cases h with
  | stay => exact hw.trace record hrecord
  | result k past result => exact (hw.trace record hrecord).later hlater
  | call k past c choice hcredible hcall _ hallows =>
    rcases List.mem_append.mp hrecord with hrecord | hrecord
    · exact (hw.trace record hrecord).later hlater
    · obtain rfl := List.mem_singleton.mp hrecord
      exact ⟨hcredible.later hlater, hcall, ⟨hallows, rfl⟩, hcredible.arrived,
        hlater.state⟩

/-- A step of a process. -/
theorem Process.Sound.advance {w : World σ C A φ ρ χ} {q : Process σ C A φ ε α ρ χ}
    (hG : Grows m D R G K) (hw : w.Sound m D R G) (hq : q.Sound m D R G w)
    (hK : ∀ c ∈ q.next, K w q.caller q.past c) (choice : χ) :
    Move m D R G K w (m.advance choice w q).1 ∧
      (m.advance choice w q).2.Sound m D R G (m.advance choice w q).1 := by
  obtain ⟨caller, past, rest⟩ := q
  have hover : ∀ w' : World σ C A φ ρ χ, Move m D R G K w w' →
      Move m D R G K w w' ∧ (⟨caller, past, none⟩ : Process σ C A φ ε α ρ χ).Sound m D R G w' :=
    fun w' hmove => ⟨hmove, hq.credible.later (hmove.later hG hw), fun p hp => absurd hp (by simp)⟩
  match rest with
  | none => exact hover w .stay
  | some (.pure a) => exact hover _ (.result caller past _ hq.credible (hq.rest _ rfl))
  | some (.throw e) => exact hover _ (.result caller past _ hq.credible (hq.rest _ rfl))
  | some (.call c next) =>
    simp only [Server.advance]
    by_cases hallows : m.allows choice c w.state = true
    · rw [if_pos hallows]
      obtain ⟨hcall, hnext⟩ := hq.rest _ rfl
      -- the call is answered; otherwise the process waits
      have hmove : Move m D R G K w (m.reply choice caller past c w) :=
        .call caller past c choice hq.credible hcall (hK c rfl) hallows
      have hcredible := hq.credible.later (hmove.later hG hw)
      refine ⟨hmove, ?_, ?_⟩
      · refine { hcredible with answered := fun s hs => ?_, recorded := fun s hs => ?_ }
        · rcases List.mem_append.mp hs with hs | hs
          · exact hcredible.answered s hs
          · obtain rfl := List.mem_singleton.mp hs
            exact ⟨hallows, rfl⟩
        · rcases List.mem_append.mp hs with hs | hs
          · exact hcredible.recorded s hs
          · obtain rfl := List.mem_singleton.mp hs
            exact ⟨_, List.mem_append_right _ (List.mem_singleton_self _), rfl, rfl⟩
      · intro p hp
        obtain rfl := Option.some.inj hp
        simp only [made, List.map_append]
        exact hnext _
    · rw [if_neg hallows]
      exact ⟨.stay, hq⟩

theorem Pool.Sound.step (hm : m.Does D) (hG : Grows m D R G K) (h : p.Sound m D R G)
    {event : Event ρ χ} (hmeets : Meets R K p event) :
    Move m D R G K p.world (m.step p event).world ∧ (m.step p event).Sound m D R G := by
  cases event with
  | arrive request =>
    simp only [Server.step]
    by_cases hadmits : m.admits request p.world.state = true
    · rw [if_pos hadmits]
      refine ⟨.stay, h.world, fun q hq => ?_⟩
      rcases List.mem_append.mp hq with hq | hq
      · exact h.processes q hq
      · obtain rfl := List.mem_singleton.mp hq
        refine ⟨⟨hmeets, hadmits, G.refl _, by simp, by simp⟩, fun p' hp' => ?_⟩
        obtain rfl := Option.some.inj hp'
        exact hm request
    · rw [if_neg hadmits]
      exact ⟨.stay, h⟩
  | proceed i choice =>
    simp only [Server.step]
    cases hi : p.processes[i]? with
    | none => exact ⟨.stay, h⟩
    | some q =>
      obtain ⟨hmove, hq⟩ := (h.processes q (List.mem_of_getElem? hi)).advance hG h.world
        (fun c hc => hmeets q hi c hc) choice
      refine ⟨hmove, hmove.sound hG h.world, fun q' hq' => ?_⟩
      rcases List.mem_or_eq_of_mem_set hq' with hq' | rfl
      · exact (h.processes q' hq').later (hmove.later hG h.world)
      · exact hq

theorem Pool.Sound.start (state : σ) : (Pool.start state : Pool σ C A φ ε α ρ χ).Sound m D R G :=
  ⟨⟨fun _ h => absurd h List.not_mem_nil⟩, fun _ h => absurd h List.not_mem_nil⟩

/-- The rule of an invariant of the world: every move keeps it. -/
theorem run_invariant (hm : m.Does D) (hG : Grows m D R G K) (inv : World σ C A φ ρ χ → Prop)
    (hmove : ∀ w w', w.Sound m D R G → inv w → Move m D R G K w w' → inv w')
    {state : σ} (hstart : inv ⟨state, []⟩) {events : List (Event ρ χ)}
    (h : Runs.Along m.step (Meets R K) (Pool.start state) events) :
    (Runs.run m.step (Pool.start state) events).Sound m D R G ∧
      inv (Runs.run m.step (Pool.start state) events).world := by
  refine Runs.run_induction (P := fun p => p.Sound m D R G ∧ inv p.world) ?_
    ⟨Pool.Sound.start state, hstart⟩ h
  rintro p event ⟨hp, hinv⟩ hmeets
  obtain ⟨hworld, hsound⟩ := hp.step hm hG hmeets
  exact ⟨hsound, hmove _ _ hp.world hinv hworld⟩

/-- What an invariant says of every move holds of every step of a run. -/
theorem along_move (hm : m.Does D) (hG : Grows m D R G K) {state : σ} {events : List (Event ρ χ)}
    (h : Runs.Along m.step (Meets R K) (Pool.start state) events) :
    Runs.Along m.step (fun p event => p.world.Sound m D R G ∧
      Move m D R G K p.world (m.step p event).world) (Pool.start state) events :=
  Runs.Along.of_invariant (P := fun p => p.Sound m D R G)
    (fun _ _ hp hmeets => (hp.step hm hG hmeets).2)
    (fun _ _ hp hmeets => ⟨hp.world, (hp.step hm hG hmeets).1⟩) (Pool.Sound.start state) h

end

end Calls
