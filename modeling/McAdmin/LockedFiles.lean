import Mathlib.Algebra.Ring.Nat
import Mathlib.Data.List.Nodup
import Mathlib.Logic.Function.Basic
import Mathlib.Order.Basic
import McAdmin.Runs

/-!
# Files that are replaced under a lock

Threads share files that are read whole and replaced whole.  A call either takes the lock of its
file, reads it and may replace it, or it only reads.  Any access to the disk may fail, also the one
after the replacement, and the process may be killed at any moment: its threads are gone and their
locks are free.

Each call takes effect at one point at most, between its beginning and its end.  `serialised_run`
says that the files are what the calls make of them one after the other, in the order of these
points, and that a call that answers has one.  `Refines.linearized` reads this over an object:
what the files are for, and what a call does to it.
-/

namespace LockedFiles

inductive Content (V : Type) where
  | absent
  | unreadable
  | value (v : V)
deriving DecidableEq

def Content.present {V : Type} : Content V → Bool
  | .absent => false
  | _ => true

/-- How an access to the disk goes: the file cannot be read, or it is not seen although it is there,
as by a look that takes every error for no. -/
inductive Sight where
  | clear
  | unreadable
  | unseen
deriving DecidableEq

def Sight.content {V : Type} (sight : Sight) (c : Content V) : Content V :=
  match sight with
  | .unreadable => .unreadable
  | _ => c

def Sight.finds {V : Type} (sight : Sight) (c : Content V) : Bool :=
  match sight with
  | .unseen => false
  | _ => c.present

/-- What a call answers and what it puts in the place of its file, from how it sees what is there.  A
call that takes no lock replaces nothing. -/
structure Method (ι V ε α : Type) where
  path : ι
  locks : Bool
  run : Sight → Content V → Except ε α × Option V
  reads : locks = false → ∀ sight c, (run sight c).2 = none

inductive Ending (ε α : Type) where
  | answered (answer : Except ε α)
  /-- An access to the disk failed while the file was replaced. -/
  | failed

inductive Phase (V ε α : Type) where
  | called
  | locked
  | loaded (sight : Sight) (c : Content V)
  | replaced (answer : Except ε α)
  | leaving (ending : Ending ε α)
  | ended (ending : Ending ε α) (till : ℕ)
  | killed (till : ℕ)

def Phase.till {V ε α : Type} : Phase V ε α → Option ℕ
  | .ended _ till | .killed till => some till
  | _ => none

/-- The points before a call began are `since` many, and those before it ended are `till` many. -/
structure Thread (C V ε α : Type) where
  call : C
  since : ℕ
  phase : Phase V ε α

/-- A call takes effect, from what it has seen of its file. -/
structure Point (C : Type) where
  thread : ℕ
  call : C
  sight : Sight

structure World (ι C V ε α : Type) where
  files : ι → Content V
  holder : ι → Option ℕ
  threads : List (Thread C V ε α)
  points : List (Point C)

inductive Event (C : Type) where
  | call (c : C)
  | act (i : ℕ) (sight : Sight)
  | kill

section

variable {ι C V ε α : Type}

/-! ### The threads -/

def World.start (files : ι → Content V) : World ι C V ε α := ⟨files, fun _ => none, [], []⟩

def World.moved (w : World ι C V ε α) (i : ℕ) (t : Thread C V ε α) (phase : Phase V ε α) :
    List (Thread C V ε α) :=
  w.threads.set i { t with phase := phase }

def Thread.kill (till : ℕ) (t : Thread C V ε α) : Thread C V ε α :=
  match t.phase with
  | .ended .. | .killed _ => t
  | _ => { t with phase := .killed till }

theorem kill_eq (till : ℕ) (t : Thread C V ε α) :
    (t.kill till).call = t.call ∧ (t.kill till).since = t.since ∧
      ((t.kill till).phase = t.phase ∨ (t.kill till).phase = .killed till) := by
  unfold Thread.kill
  split
  · exact ⟨rfl, rfl, .inl rfl⟩
  · exact ⟨rfl, rfl, .inl rfl⟩
  · exact ⟨rfl, rfl, .inr rfl⟩

/-- Each point is one of a call that had begun and that had not ended. -/
def Placed (w : World ι C V ε α) : Prop :=
  ∀ (n : ℕ) (p : Point C), w.points[n]? = some p →
    ∃ t : Thread C V ε α, w.threads[p.thread]? = some t ∧ t.call = p.call ∧ t.since ≤ n ∧
      ∀ till, t.phase.till = some till → n < till

section

variable {w w' : World ι C V ε α} {i : ℕ} {t : Thread C V ε α} {phase : Phase V ε α} {p : Point C}

theorem Placed.lt (h : Placed w) (hp : p ∈ w.points) : p.thread < w.threads.length := by
  obtain ⟨n, hn⟩ := List.mem_iff_getElem?.mp hp
  obtain ⟨t, ht, -⟩ := h n p hn
  exact (List.getElem?_eq_some_iff.mp ht).1

/-- The points stay placed as a thread goes on, which ends with all of them before it. -/
theorem Placed.act (h : Placed w) (hi : w.threads[i]? = some t)
    (hthreads : w'.threads = w.moved i t phase)
    (hpoints : w'.points = w.points ∨ t.since ≤ w.points.length ∧
      ∃ p, p.thread = i ∧ p.call = t.call ∧ w'.points = w.points ++ [p])
    (htill : ∀ till, phase.till = some till → till = w'.points.length) : Placed w' := by
  have hlt : i < w.threads.length := (List.getElem?_eq_some_iff.mp hi).1
  have hself : w'.threads[i]? = some { t with phase := phase } := by
    rw [hthreads, World.moved, List.getElem?_set_self hlt]
  have hold : ∀ n p, w.points[n]? = some p → n < w'.points.length →
      ∃ t', w'.threads[p.thread]? = some t' ∧ t'.call = p.call ∧ t'.since ≤ n ∧
        ∀ till, t'.phase.till = some till → n < till := by
    intro n p hp hn
    obtain ⟨t', ht', hcall, hsince, hend⟩ := h n p hp
    by_cases hthread : p.thread = i
    · rw [hthread, hi] at ht'
      obtain rfl := Option.some.inj ht'
      refine ⟨{ t with phase := phase }, hthread ▸ hself, hcall, hsince, fun till htill' => ?_⟩
      rwa [htill till htill']
    · refine ⟨t', ?_, hcall, hsince, hend⟩
      rw [hthreads, World.moved, List.getElem?_set_ne (Ne.symm hthread), ht']
  intro n p hp
  have hn : n < w'.points.length := (List.getElem?_eq_some_iff.mp hp).1
  rcases hpoints with heq | ⟨hsince, q, hq, hcall, heq⟩
  · exact hold n p (heq ▸ hp) hn
  · rw [heq] at hp
    rcases Nat.lt_or_ge n w.points.length with hlt' | hle
    · exact hold n p (by rwa [List.getElem?_append_left hlt'] at hp) hn
    · rw [List.getElem?_append_right hle] at hp
      obtain rfl := List.mem_singleton.mp (List.mem_of_getElem? hp)
      refine ⟨{ t with phase := phase }, hq ▸ hself, hcall.symm, hsince.trans hle,
        fun till htill' => ?_⟩
      rwa [htill till htill']

end

variable [DecidableEq ι] (m : C → Method ι V ε α)

/-! ### The steps -/

def World.advance (w : World ι C V ε α) (i : ℕ) (t : Thread C V ε α) (sight : Sight) :
    World ι C V ε α :=
  match t.phase with
  | .called =>
    if (m t.call).locks then
      if w.holder (m t.call).path = none then
        { w with
          holder := Function.update w.holder (m t.call).path (some i)
          threads := w.moved i t .locked }
      else w
    else
      let answer := ((m t.call).run sight (w.files (m t.call).path)).1
      { w with
        threads := w.moved i t (.ended (.answered answer) (w.points.length + 1))
        points := w.points ++ [⟨i, t.call, sight⟩] }
  | .locked => { w with threads := w.moved i t (.loaded sight (w.files (m t.call).path)) }
  | .loaded seen c =>
    match (m t.call).run seen c with
    | (answer, none) =>
      { w with
        threads := w.moved i t (.leaving (.answered answer))
        points := w.points ++ [⟨i, t.call, seen⟩] }
    | (answer, some v) =>
      if sight = .clear then
        { w with
          files := Function.update w.files (m t.call).path (.value v)
          threads := w.moved i t (.replaced answer)
          points := w.points ++ [⟨i, t.call, seen⟩] }
      else { w with threads := w.moved i t (.leaving .failed) }
  | .replaced answer =>
    let ending := if sight = .clear then .answered answer else .failed
    { w with threads := w.moved i t (.leaving ending) }
  | .leaving ending =>
    { w with
      holder := Function.update w.holder (m t.call).path none
      threads := w.moved i t (.ended ending w.points.length) }
  | .ended .. | .killed _ => w

def World.step (w : World ι C V ε α) : Event C → World ι C V ε α
  | .call c => { w with threads := w.threads ++ [⟨c, w.points.length, .called⟩] }
  | .act i sight =>
    match w.threads[i]? with
    | some t => w.advance m i t sight
    | none => w
  | .kill =>
    { w with
      holder := fun _ => none
      threads := w.threads.map (Thread.kill w.points.length) }

/-! ### The calls one after the other -/

def answerOf (files : ι → Content V) (p : Point C) : Except ε α :=
  ((m p.call).run p.sight (files (m p.call).path)).1

def effect (files : ι → Content V) (p : Point C) : ι → Content V :=
  match ((m p.call).run p.sight (files (m p.call).path)).2 with
  | some v => Function.update files (m p.call).path (.value v)
  | none => files

def replay (files : ι → Content V) (points : List (Point C)) : ι → Content V :=
  Runs.run (effect m) files points

/-- The answer is the one of the call at its point, which is not before its beginning and among
the first `bound` ones. -/
def Explained (start : ι → Content V) (points : List (Point C)) (i : ℕ) (t : Thread C V ε α)
    (bound : ℕ) (answer : Except ε α) : Prop :=
  ∃ n p, points[n]? = some p ∧ p.thread = i ∧ p.call = t.call ∧ t.since ≤ n ∧ n < bound ∧
    answer = answerOf m (replay m start (points.take n)) p

structure Serialised (start : ι → Content V) (w : World ι C V ε α) : Prop where
  files : w.files = replay m start w.points
  once : (w.points.map (·.thread)).Nodup
  placed : Placed w
  answered : ∀ i t answer till, w.threads[i]? = some t → t.phase = .ended (.answered answer) till →
    Explained m start w.points i t till answer

/-! ### The invariant -/

def Fresh (i : ℕ) (points : List (Point C)) : Prop := ∀ p ∈ points, p.thread ≠ i

def Stands (start : ι → Content V) (w : World ι C V ε α) (i : ℕ) (t : Thread C V ε α) : Prop :=
  match t.phase with
  | .called => Fresh i w.points ∧ t.since ≤ w.points.length
  | .locked =>
    w.holder (m t.call).path = some i ∧ Fresh i w.points ∧ t.since ≤ w.points.length
  | .loaded _ c =>
    w.holder (m t.call).path = some i ∧ Fresh i w.points ∧ t.since ≤ w.points.length ∧
      c = w.files (m t.call).path
  | .replaced answer | .leaving (.answered answer) =>
    w.holder (m t.call).path = some i ∧ Explained m start w.points i t w.points.length answer
  | .leaving .failed => w.holder (m t.call).path = some i
  | .ended (.answered answer) till => Explained m start w.points i t till answer
  | .ended .failed _ | .killed _ => True

structure Inv (start : ι → Content V) (w : World ι C V ε α) : Prop where
  files : w.files = replay m start w.points
  once : (w.points.map (·.thread)).Nodup
  placed : Placed w
  stands : ∀ i t, w.threads[i]? = some t → Stands m start w i t

variable {m} {start : ι → Content V} {w w' : World ι C V ε α} {i j bound : ℕ}
  {t u : Thread C V ε α} {phase : Phase V ε α} {points : List (Point C)} {p : Point C}
  {answer : Except ε α}

theorem replay_snoc : replay m start (points ++ [p]) = effect m (replay m start points) p :=
  Runs.run_snoc ..

theorem effect_of_none {files : ι → Content V}
    (h : ((m p.call).run p.sight (files (m p.call).path)).2 = none) :
    effect m files p = files := by
  rw [effect, h]

theorem effect_of_some {files : ι → Content V} {v : V}
    (h : ((m p.call).run p.sight (files (m p.call).path)).2 = some v) :
    effect m files p = Function.update files (m p.call).path (.value v) := by
  rw [effect, h]

theorem Fresh.snoc (h : Fresh i points) (hp : p.thread ≠ i) : Fresh i (points ++ [p]) := by
  intro q hq
  rcases List.mem_append.mp hq with hq | hq
  · exact h q hq
  · rwa [List.mem_singleton.mp hq]

theorem Explained.mono {bound' : ℕ} (h : Explained m start points i t bound answer)
    (hbound : bound ≤ bound') : Explained m start points i t bound' answer := by
  obtain ⟨n, p, hp, hi, hcall, hsince, hn, hanswer⟩ := h
  exact ⟨n, p, hp, hi, hcall, hsince, hn.trans_le hbound, hanswer⟩

theorem Explained.snoc (h : Explained m start points i t bound answer) :
    Explained m start (points ++ [p]) i t bound answer := by
  obtain ⟨n, q, hq, hi, hcall, hsince, hn, hanswer⟩ := h
  have hlt : n < points.length := (List.getElem?_eq_some_iff.mp hq).1
  refine ⟨n, q, ?_, hi, hcall, hsince, hn, ?_⟩
  · rwa [List.getElem?_append_left hlt]
  · rwa [List.take_append_of_le_length hlt.le]

theorem Explained.last (hcall : p.call = t.call) (hsince : t.since ≤ points.length)
    (hanswer : answer = answerOf m (replay m start points) p) (hi : p.thread = i) :
    Explained m start (points ++ [p]) i t (points.length + 1) answer :=
  ⟨points.length, p, by simp, hi, hcall, hsince, Nat.lt_succ_self _, by simpa using hanswer⟩

theorem Stands.frame (h : Stands m start w j u)
    (hpoints : w'.points = w.points ∨ ∃ p, p.thread ≠ j ∧ w'.points = w.points ++ [p])
    (hheld : w.holder (m u.call).path = some j →
      w'.holder (m u.call).path = some j ∧ w'.files (m u.call).path = w.files (m u.call).path) :
    Stands m start w' j u := by
  have hfresh : Fresh j w.points → Fresh j w'.points := by
    rcases hpoints with heq | ⟨p, hp, heq⟩ <;> rw [heq]
    · exact id
    · exact fun hfresh => hfresh.snoc hp
  have hlength : w.points.length ≤ w'.points.length := by
    rcases hpoints with heq | ⟨p, -, heq⟩ <;> simp [heq]
  have hexplained : ∀ bound answer, Explained m start w.points j u bound answer →
      Explained m start w'.points j u bound answer := by
    intro bound answer hexplained
    rcases hpoints with heq | ⟨p, -, heq⟩ <;> rw [heq]
    · exact hexplained
    · exact hexplained.snoc
  unfold Stands at h ⊢
  split at h
  · exact ⟨hfresh h.1, h.2.trans hlength⟩
  · exact ⟨(hheld h.1).1, hfresh h.2.1, h.2.2.trans hlength⟩
  · exact ⟨(hheld h.1).1, hfresh h.2.1, h.2.2.1.trans hlength, by rw [(hheld h.1).2]; exact h.2.2.2⟩
  · exact ⟨(hheld h.1).1, (hexplained _ _ h.2).mono hlength⟩
  · exact ⟨(hheld h.1).1, (hexplained _ _ h.2).mono hlength⟩
  · exact (hheld h).1
  · exact hexplained _ _ h
  · trivial
  · trivial

theorem Inv.act (h : Inv m start w) (hi : w.threads[i]? = some t)
    (hthreads : w'.threads = w.moved i t phase)
    (hpoints : w'.points = w.points ∨ (Fresh i w.points ∧ t.since ≤ w.points.length) ∧
      ∃ p, p.thread = i ∧ p.call = t.call ∧ w'.points = w.points ++ [p])
    (htill : ∀ till, phase.till = some till → till = w'.points.length)
    (hfiles : w'.files = replay m start w'.points)
    (hothers : ∀ j (t' : Thread C V ε α), j ≠ i → w.holder (m t'.call).path = some j →
      w'.holder (m t'.call).path = some j ∧ w'.files (m t'.call).path = w.files (m t'.call).path)
    (hstands : Stands m start w' i { t with phase := phase }) : Inv m start w' := by
  have hlt : i < w.threads.length := (List.getElem?_eq_some_iff.mp hi).1
  refine ⟨hfiles, ?_, ?_, ?_⟩
  · rcases hpoints with heq | ⟨⟨hfresh, -⟩, p, hp, -, heq⟩ <;> rw [heq]
    · exact h.once
    · rw [List.map_append, List.nodup_append]
      refine ⟨h.once, List.nodup_singleton _, ?_⟩
      intro a ha b hb
      obtain ⟨q, hq, rfl⟩ := List.mem_map.mp ha
      obtain rfl := List.mem_singleton.mp hb
      change q.thread ≠ p.thread
      rw [hp]
      exact hfresh q hq
  · refine h.placed.act hi hthreads ?_ htill
    rcases hpoints with heq | ⟨⟨-, hsince⟩, hlast⟩
    · exact .inl heq
    · exact .inr ⟨hsince, hlast⟩
  · intro j t' hj
    rw [hthreads, World.moved] at hj
    by_cases hji : j = i
    · subst hji
      rw [List.getElem?_set_self hlt] at hj
      obtain rfl := Option.some.inj hj
      exact hstands
    · rw [List.getElem?_set_ne (Ne.symm hji)] at hj
      refine (h.stands j t' hj).frame ?_ (hothers j t' hji)
      rcases hpoints with heq | ⟨-, p, hp, -, heq⟩
      · exact .inl heq
      · exact .inr ⟨p, hp ▸ Ne.symm hji, heq⟩

theorem inv_start : Inv m start (World.start start) :=
  ⟨rfl, List.nodup_nil, by simp [World.start, Placed], by simp [World.start]⟩

theorem Inv.call (h : Inv m start w) (c : C) : Inv m start (w.step m (.call c)) := by
  refine ⟨h.files, h.once, fun n p hp => ?_, ?_⟩
  · obtain ⟨t, ht, hplaced⟩ := h.placed n p hp
    refine ⟨t, ?_, hplaced⟩
    change (w.threads ++ _)[p.thread]? = some t
    rw [List.getElem?_append_left (List.getElem?_eq_some_iff.mp ht).1, ht]
  intro j t' hj
  change (w.threads ++ _)[j]? = some t' at hj
  rcases Nat.lt_or_ge j w.threads.length with hlt | hle
  · rw [List.getElem?_append_left hlt] at hj
    exact (h.stands j t' hj).frame (.inl rfl) fun hheld => ⟨hheld, rfl⟩
  · rw [List.getElem?_append_right hle] at hj
    obtain rfl := List.mem_singleton.mp (List.mem_of_getElem? hj)
    exact ⟨fun p hp => ((h.placed.lt hp).trans_le hle).ne, le_rfl⟩

theorem Inv.kill (h : Inv m start w) : Inv m start (w.step m .kill) := by
  refine ⟨h.files, h.once, fun n p hp => ?_, ?_⟩
  · obtain ⟨t, ht, hcall, hsince, hend⟩ := h.placed n p hp
    obtain ⟨hcall', hsince', hphase⟩ := kill_eq w.points.length t
    refine ⟨t.kill w.points.length, ?_, hcall'.trans hcall, hsince'.trans_le hsince, ?_⟩
    · change (w.threads.map _)[p.thread]? = _
      rw [List.getElem?_map, ht, Option.map_some]
    · intro till htill
      rcases hphase with hphase | hphase
      · exact hend till (hphase ▸ htill)
      · rw [hphase] at htill
        obtain rfl := Option.some.inj htill
        exact (List.getElem?_eq_some_iff.mp hp).1
  intro j t' hj
  obtain ⟨t, ht, rfl⟩ := Option.map_eq_some_iff.mp ((List.getElem?_map ..).symm.trans hj)
  have hstands := h.stands j t ht
  unfold Thread.kill
  split
  · next ending till hphase =>
    unfold Stands at hstands ⊢
    rw [hphase] at hstands ⊢
    cases ending with
    | answered answer => exact hstands
    | failed => trivial
  · next hphase => rw [Stands, hphase]; trivial
  · trivial

theorem others_of_lock {path : ι} {holder : Option ℕ} {files : ι → Content V}
    (hfree : w.holder path = none ∨ w.holder path = some i) (hj : j ≠ i)
    (hheld : w.holder (m u.call).path = some j) :
    Function.update w.holder path holder (m u.call).path = some j ∧
      files (m u.call).path = files (m u.call).path := by
  refine ⟨?_, rfl⟩
  rw [Function.update_of_ne, hheld]
  rintro rfl
  rcases hfree with hfree | hfree
  · simp [hfree] at hheld
  · exact hj (Option.some.inj (hheld.symm.trans hfree))

theorem Inv.advance (h : Inv m start w) (hi : w.threads[i]? = some t) (sight : Sight) :
    Inv m start (w.advance m i t sight) := by
  have hstands := h.stands i t hi
  have hreplay : ∀ p : Point C,
      ((m p.call).run p.sight (w.files (m p.call).path)).2 = none →
        w.files = replay m start (w.points ++ [p]) := by
    intro p hp
    rw [replay_snoc, ← h.files, effect_of_none hp]
  unfold Stands at hstands
  unfold World.advance
  split
  · next hphase =>
    rw [hphase] at hstands
    split
    -- a method that locks waits until the lock is free
    · split
      · next hfree =>
        refine h.act hi rfl (.inl rfl) (fun till htill => by cases htill) h.files
          (fun j t' hj => ?_) ?_
        · exact others_of_lock (.inl hfree) hj
        · exact ⟨Function.update_self .., hstands⟩
      · exact h
    -- one that does not lock reads in one step, which is its point
    · next hlocks =>
      have hnone := (m t.call).reads (by simpa using hlocks) sight (w.files (m t.call).path)
      refine h.act hi rfl (.inr ⟨hstands, _, rfl, rfl, rfl⟩) (fun till htill => ?_)
        (hreplay ⟨i, t.call, sight⟩ hnone) (fun j t' _ hheld => ⟨hheld, rfl⟩) ?_
      · rw [← Option.some.inj htill, List.length_append, List.length_singleton]
      · exact Explained.last (by rfl) hstands.2 (by rw [← h.files]; rfl) rfl
  · next hphase =>
    rw [hphase] at hstands
    refine h.act hi rfl (.inl rfl) (fun till htill => by cases htill) h.files
      (fun j t' _ hheld => ⟨hheld, rfl⟩) ?_
    exact ⟨hstands.1, hstands.2.1, hstands.2.2, rfl⟩
  -- what was read settles the point, at which a write is made or not
  · next seen c hphase =>
    rw [hphase] at hstands
    obtain ⟨hheld, hfresh, hsince, rfl⟩ := hstands
    split
    · next answer hrun =>
      refine h.act hi rfl (.inr ⟨⟨hfresh, hsince⟩, _, rfl, rfl, rfl⟩)
        (fun till htill => by cases htill) (hreplay ⟨i, t.call, seen⟩ (congrArg Prod.snd hrun))
        (fun j t' _ hheld => ⟨hheld, rfl⟩) ⟨hheld, ?_⟩
      rw [List.length_append]
      refine Explained.last (by rfl) hsince ?_ rfl
      rw [← h.files]
      exact (congrArg Prod.fst hrun).symm
    · next answer v hrun =>
      split
      · refine h.act hi rfl (.inr ⟨⟨hfresh, hsince⟩, _, rfl, rfl, rfl⟩)
          (fun till htill => by cases htill) ?_ (fun j t' hj hheld' => ⟨hheld', ?_⟩) ⟨hheld, ?_⟩
        · rw [replay_snoc, ← h.files]
          exact (effect_of_some (p := ⟨i, t.call, seen⟩) (congrArg Prod.snd hrun)).symm
        · refine Function.update_of_ne (fun hpath => hj ?_) ..
          rw [hpath, hheld] at hheld'
          exact (Option.some.inj hheld').symm
        · rw [List.length_append]
          refine Explained.last (by rfl) hsince ?_ rfl
          rw [← h.files]
          exact (congrArg Prod.fst hrun).symm
      · exact h.act hi rfl (.inl rfl) (fun till htill => by cases htill) h.files
          (fun j t' _ hheld => ⟨hheld, rfl⟩) hheld
  -- after the replacement the call may still fail; its point stands
  · next answer hphase =>
    rw [hphase] at hstands
    refine h.act hi rfl (.inl rfl) (fun till htill => by cases htill) h.files
      (fun j t' _ hheld => ⟨hheld, rfl⟩) ?_
    by_cases hclear : sight = .clear
    · rw [if_pos hclear]
      exact hstands
    · rw [if_neg hclear]
      exact hstands.1
  · next ending hphase =>
    rw [hphase] at hstands
    have hheld : w.holder (m t.call).path = some i := by
      cases ending with
      | answered answer => exact hstands.1
      | failed => exact hstands
    refine h.act hi rfl (.inl rfl) (fun till htill => (Option.some.inj htill).symm) h.files
      (fun j t' hj => ?_) ?_
    · exact others_of_lock (.inr hheld) hj
    · cases ending with
      | answered answer => exact hstands.2
      | failed => trivial
  · exact h
  · exact h

theorem Inv.step (h : Inv m start w) (event : Event C) : Inv m start (w.step m event) := by
  cases event with
  | call c => exact h.call c
  | act i sight =>
    change Inv m start (match w.threads[i]? with
      | some t => w.advance m i t sight
      | none => w)
    split
    · next t hi => exact h.advance hi sight
    · exact h
  | kill => exact h.kill

theorem Inv.serialised (h : Inv m start w) : Serialised m start w := by
  refine ⟨h.files, h.once, h.placed, fun i t answer till hi hphase => ?_⟩
  have hstands := h.stands i t hi
  unfold Stands at hstands
  rwa [hphase] at hstands

theorem serialised_run (m : C → Method ι V ε α) (start : ι → Content V) (events : List (Event C)) :
    Serialised m start (Runs.run (World.step m) (World.start start) events) :=
  Inv.serialised (Runs.run_induction (P := Inv m start) (Q := fun _ _ => True)
    (fun _ event h _ => h.step event) inv_start
    (Runs.Along.of_forall (fun _ _ => trivial) _ events))

end

/-! ### Objects -/

/-- What the files stand for: how a call that sees its file so answers, and what it leaves. -/
structure Object (C S ε α : Type) where
  answer : C → Sight → S → Except ε α
  after : C → Sight → S → S

namespace Object

variable {C S ε α : Type} (obj : Object C S ε α)

def replay (s : S) (points : List (Point C)) : S :=
  Runs.run (fun s p => obj.after p.call p.sight s) s points

/-- One order of the calls, in which none that ended before another began stands after it,
explains each answer by what the object was at its point. -/
structure Linearized {ι V : Type} (s : S) (w : World ι C V ε α) : Prop where
  once : (w.points.map (·.thread)).Nodup
  placed : Placed w
  answered : ∀ i t answer till, w.threads[i]? = some t → t.phase = .ended (.answered answer) till →
    ∃ n p, w.points[n]? = some p ∧ p.thread = i ∧ p.call = t.call ∧ t.since ≤ n ∧ n < till ∧
      answer = obj.answer p.call p.sight (obj.replay s (w.points.take n))

end Object

section

variable {ι C V S ε α : Type} [DecidableEq ι] {m : C → Method ι V ε α}
  {abs : (ι → Content V) → S} {obj : Object C S ε α}

/-- Alone, each call does to the files what it does to the object. -/
structure Refines (m : C → Method ι V ε α) (abs : (ι → Content V) → S) (obj : Object C S ε α) :
    Prop where
  answer : ∀ c sight files, ((m c).run sight (files (m c).path)).1 = obj.answer c sight (abs files)
  after : ∀ i c sight files, abs (effect m files ⟨i, c, sight⟩) = obj.after c sight (abs files)

theorem Refines.replay (h : Refines m abs obj) (files : ι → Content V) (points : List (Point C)) :
    abs (LockedFiles.replay m files points) = obj.replay (abs files) points := by
  induction points generalizing files with
  | nil => rfl
  | cons p points ih =>
    exact (ih _).trans (congrArg (obj.replay · points) (h.after p.thread p.call p.sight files))

theorem Refines.linearized (h : Refines m abs obj) (start : ι → Content V)
    (events : List (Event C)) :
    obj.Linearized (abs start) (Runs.run (World.step m) (World.start start) events) := by
  have hserialised := serialised_run m start events
  refine ⟨hserialised.once, hserialised.placed, fun i t answer till hi hphase => ?_⟩
  obtain ⟨n, p, hp, hthread, hcall, hsince, hn, hanswer⟩ :=
    hserialised.answered i t answer till hi hphase
  refine ⟨n, p, hp, hthread, hcall, hsince, hn, ?_⟩
  rw [hanswer, LockedFiles.answerOf, h.answer, h.replay]

theorem Refines.files (h : Refines m abs obj) (start : ι → Content V) (events : List (Event C)) :
    abs (Runs.run (World.step m) (World.start start) events).files =
      obj.replay (abs start) (Runs.run (World.step m) (World.start start) events).points := by
  rw [(serialised_run m start events).files, h.replay]

end

end LockedFiles
