import Mathlib.Algebra.GroupWithZero.Nat
import Mathlib.Data.List.Basic

/-!
# Words of a shell

How `shlex` splits a text into words, with quotes and escapes as in a POSIX shell.  What a
word holds is bounded by what was read: by the marks that are lost to quoting, or by what a
word has taken of the text behind it.
-/

namespace ShellWords

abbrev Text := List Char

def whitespace : List Char := [' ', '\t', '\r', '\n']

inductive State where
  | between
  | word
  | single
  | double
  | escaped
  | escapedDouble
deriving DecidableEq

/-- A character that is no whitespace, in a word that has been read so far. -/
def inWord (w : Text) (c : Char) : State × Text :=
  if c = '\\' then (.escaped, w)
  else if c = '\'' then (.single, w)
  else if c = '"' then (.double, w)
  else (.word, w ++ [c])

/-- The state, the word and the words that are complete after a character. -/
def next : State → Text → Char → State × Text × List Text
  | .between, _, c =>
    if c ∈ whitespace then (.between, [], []) else ((inWord [] c).1, (inWord [] c).2, [])
  | .word, w, c =>
    if c ∈ whitespace then (.between, [], [w]) else ((inWord w c).1, (inWord w c).2, [])
  | .single, w, c => if c = '\'' then (.word, w, []) else (.single, w ++ [c], [])
  | .double, w, c =>
    if c = '"' then (.word, w, [])
    else if c = '\\' then (.escapedDouble, w, [])
    else (.double, w ++ [c], [])
  | .escaped, w, c => (.word, w ++ [c], [])
  | .escapedDouble, w, c =>
    if c = '\\' ∨ c = '"' then (.double, w ++ [c], []) else (.double, w ++ ['\\', c], [])

/-- There is no end in a quote or before what is escaped. -/
def finish : State → Text → Option (List Text)
  | .between, _ => some []
  | .word, w => some [w]
  | _, _ => none

def tokens : State → Text → Text → Option (List Text)
  | σ, w, [] => finish σ w
  | σ, w, c :: cs => (tokens (next σ w c).1 (next σ w c).2.1 cs).map ((next σ w c).2.2 ++ ·)

def split (text : Text) : Option (List Text) := tokens .between [] text

def Plain (c : Char) : Prop := c ∉ whitespace ∧ c ≠ '\\' ∧ c ≠ '\'' ∧ c ≠ '"'

instance (c : Char) : Decidable (Plain c) := inferInstanceAs (Decidable (_ ∧ _ ∧ _ ∧ _))

section

variable {σ σ' : State} {w w' cs rest tok : Text} {c x : Char} {ts : List Text}

/-! ### One character -/

theorem inWord_plain (hc : Plain c) (w : Text) : inWord w c = (.word, w ++ [c]) := by
  rcases hc with ⟨_, hescape, hsingle, hdouble⟩
  rw [inWord, if_neg hescape, if_neg hsingle, if_neg hdouble]

theorem tokens_cons (h : next σ w c = (σ', w', [])) :
    tokens σ w (c :: cs) = tokens σ' w' cs := by
  rw [tokens, h]
  simp

theorem tokens_between_of_mem (hc : c ∈ whitespace) :
    tokens .between w (c :: cs) = tokens .between [] cs :=
  tokens_cons (by rw [next, if_pos hc])

theorem tokens_between_of_notMem (hc : c ∉ whitespace) :
    tokens .between w (c :: cs) = tokens .word [] (c :: cs) := by
  rw [tokens, tokens, next, next, if_neg hc, if_neg hc]

theorem tokens_word_of_mem (hc : c ∈ whitespace) :
    tokens .word w (c :: cs) = (tokens .between [] cs).map (w :: ·) := by
  rw [tokens, next, if_pos hc]
  rfl

def Adds (c : Char) (p : Text) : Prop := ∀ x, Plain x → p.count x = [c].count x

theorem adds_self (c : Char) : Adds c [c] := fun _ _ => rfl

theorem adds_nil (hc : ¬ Plain c) : Adds c [] := by
  intro x hx
  have hne : c ≠ x := fun heq => hc (heq ▸ hx)
  simp [hne]

theorem adds_escaped (c : Char) : Adds c ['\\', c] := by
  intro x hx
  simp [hx.2.1.symm]

theorem inWord_adds (w : Text) (c : Char) :
    ∃ σ' p, σ' ≠ State.between ∧ inWord w c = (σ', w ++ p) ∧ Adds c p := by
  unfold inWord
  split
  · exact ⟨.escaped, [], nofun, by simp, adds_nil fun h => h.2.1 ‹_›⟩
  · split
    · exact ⟨.single, [], nofun, by simp, adds_nil fun h => h.2.2.1 ‹_›⟩
    · split
      · exact ⟨.double, [], nofun, by simp, adds_nil fun h => h.2.2.2 ‹_›⟩
      · exact ⟨.word, [c], nofun, rfl, adds_self c⟩

theorem next_cases (hw : σ = .between → w = []) :
    (c ∈ whitespace ∧ σ = .between ∧ next σ w c = (.between, [], [])) ∨
      (c ∈ whitespace ∧ σ = .word ∧ next σ w c = (.between, [], [w])) ∨
      ∃ σ' p, σ' ≠ .between ∧ next σ w c = (σ', w ++ p, []) ∧ Adds c p := by
  cases σ with
  | between =>
    by_cases hc : c ∈ whitespace
    · exact .inl ⟨hc, rfl, if_pos hc⟩
    · rcases inWord_adds [] c with ⟨σ', p, hσ', hword, hadds⟩
      refine .inr (.inr ⟨σ', p, hσ', ?_, hadds⟩)
      rw [next, if_neg hc, hword, hw rfl]
  | word =>
    by_cases hc : c ∈ whitespace
    · exact .inr (.inl ⟨hc, rfl, if_pos hc⟩)
    · rcases inWord_adds w c with ⟨σ', p, hσ', hword, hadds⟩
      refine .inr (.inr ⟨σ', p, hσ', ?_, hadds⟩)
      rw [next, if_neg hc, hword]
  | single =>
    refine .inr (.inr ?_)
    by_cases hc : c = '\''
    · exact ⟨.word, [], nofun, by simp [next, hc], adds_nil fun h => h.2.2.1 hc⟩
    · exact ⟨.single, [c], nofun, if_neg hc, adds_self c⟩
  | double =>
    refine .inr (.inr ?_)
    by_cases hquote : c = '"'
    · exact ⟨.word, [], nofun, by simp [next, hquote], adds_nil fun h => h.2.2.2 hquote⟩
    · by_cases hescape : c = '\\'
      · exact ⟨.escapedDouble, [], nofun, by simp [next, hescape],
          adds_nil fun h => h.2.1 hescape⟩
      · exact ⟨.double, [c], nofun, by rw [next, if_neg hquote, if_neg hescape], adds_self c⟩
  | escaped => exact .inr (.inr ⟨.word, [c], nofun, rfl, adds_self c⟩)
  | escapedDouble =>
    refine .inr (.inr ?_)
    by_cases hc : c = '\\' ∨ c = '"'
    · exact ⟨.double, [c], nofun, if_pos hc, adds_self c⟩
    · exact ⟨.double, ['\\', c], nofun, if_neg hc, adds_escaped c⟩

/-! ### Words -/

theorem finish_eq_some (hσ : σ ≠ .between) (h : finish σ w = some ts) : ts = [w] := by
  cases σ with
  | between => exact absurd rfl hσ
  | word => exact (Option.some.inj h).symm
  | _ => cases h

theorem tokens_head (hσ : σ ≠ .between) (h : tokens σ w cs = some ts) :
    ∃ tok rest, ts = tok :: rest ∧ w <+: tok := by
  induction cs generalizing σ w with
  | nil => exact ⟨w, [], finish_eq_some hσ h, List.prefix_refl w⟩
  | cons c cs ih =>
    rcases next_cases (c := c) (fun heq => absurd heq hσ : σ = .between → w = []) with
      ⟨_, hbetween, _⟩ | ⟨_, _, hnext⟩ | ⟨σ', p, hσ', hnext, _⟩
    · exact absurd hbetween hσ
    · rw [tokens, hnext] at h
      rcases Option.map_eq_some_iff.mp h with ⟨rest, _, rfl⟩
      exact ⟨w, rest, rfl, List.prefix_refl w⟩
    · rw [tokens_cons hnext] at h
      rcases ih hσ' h with ⟨tok, rest, hts, hprefix⟩
      exact ⟨tok, rest, hts, (List.prefix_append w p).trans hprefix⟩

theorem sum_count_tokens (hx : Plain x) (hw : σ = .between → w = [])
    (h : tokens σ w cs = some ts) : (ts.map (List.count x)).sum = w.count x + cs.count x := by
  have hspace : ∀ c ∈ whitespace, c ≠ x := fun c hc heq => hx.1 (heq ▸ hc)
  induction cs generalizing σ w ts with
  | nil =>
    by_cases hσ : σ = .between
    · subst hσ
      cases h
      simp [hw rfl]
    · simp [finish_eq_some hσ h]
  | cons c cs ih =>
    rcases next_cases (c := c) hw with
      ⟨hc, rfl, hnext⟩ | ⟨hc, _, hnext⟩ | ⟨σ', p, hσ', hnext, hadds⟩
    · rw [tokens_cons hnext] at h
      rw [ih (fun _ => rfl) h, hw rfl, List.count_cons_of_ne (hspace c hc)]
    · rw [tokens, hnext] at h
      rcases Option.map_eq_some_iff.mp h with ⟨rest, hrest, rfl⟩
      have hsum := ih (fun _ => rfl) hrest
      simp only [List.singleton_append, List.map_cons, List.sum_cons, hsum,
        List.count_cons_of_ne (hspace c hc), List.count_nil, Nat.zero_add]
    · rw [tokens_cons hnext] at h
      rw [ih (fun heq => absurd heq hσ') h, List.count_append, hadds x hx, Nat.add_assoc,
        ← List.count_append, List.singleton_append]

theorem next_plain (hσ : σ = .word ∨ σ = .single ∨ σ = .double) (hc : Plain c) (w : Text) :
    next σ w c = (σ, w ++ [c], []) := by
  rcases hσ with rfl | rfl | rfl
  · rw [next, if_neg hc.1, inWord_plain hc]
  · exact if_neg hc.2.2.1
  · rw [next, if_neg hc.2.2.2, if_neg hc.2.1]

theorem tokens_of_plain {p : Text} (hσ : σ = .word ∨ σ = .single ∨ σ = .double)
    (hp : ∀ c ∈ p, Plain c) : tokens σ w (p ++ rest) = tokens σ (w ++ p) rest := by
  induction p generalizing w with
  | nil => rw [List.nil_append, List.append_nil]
  | cons c p ih =>
    rcases List.forall_mem_cons.mp hp with ⟨hc, hp⟩
    rw [List.cons_append, tokens_cons (next_plain hσ hc w), ih hp, List.append_assoc,
      List.singleton_append]

end

/-! ### What follows a word

The text ends, or a space follows and plain characters up to a mark. -/

section

variable {σ : State} {w cs rest tok : Text} {c x : Char} {ts : List Text}

def Follows (x : Char) (rest : Text) : Prop :=
  rest = [] ∨ ∃ key tail, (∀ c ∈ key, Plain c) ∧ Plain x ∧ rest = ' ' :: (key ++ x :: tail)

theorem Follows.tokens_word (h : Follows x rest) (w : Text) :
    tokens .word w rest = (tokens .between [] rest).map (w :: ·) := by
  rcases h with rfl | ⟨key, tail, _, _, rfl⟩
  · rfl
  · rw [tokens_word_of_mem (by decide), tokens_between_of_mem (by decide)]

theorem count_lt_of_mark {key tail : Text} (hkey : ∀ c ∈ key, Plain c) (hx : Plain x)
    (hσ : σ = .word ∨ σ = .single ∨ σ = .double)
    (h : tokens σ w (key ++ x :: tail) = some (tok :: ts)) : w.count x < tok.count x := by
  have hmark : ∀ c ∈ key ++ [x], Plain c :=
    List.forall_mem_append.mpr ⟨hkey, by simpa using hx⟩
  have htaken : tokens σ w (key ++ x :: tail) = tokens σ (w ++ (key ++ [x])) tail := by
    rw [List.append_cons key x tail, tokens_of_plain hσ hmark]
  rw [htaken] at h
  have hnot : σ ≠ .between := by rcases hσ with rfl | rfl | rfl <;> nofun
  rcases tokens_head hnot h with ⟨tok', rest, heq, hprefix⟩
  cases heq
  have hcount := hprefix.sublist.count_le x
  simp only [List.count_append, List.count_cons_self, List.count_nil] at hcount
  omega

theorem Follows.count_lt (h : Follows x rest) (hσ : σ ≠ .between) (hword : σ ≠ .word)
    (hts : tokens σ w rest = some (tok :: ts)) : w.count x < tok.count x := by
  rcases h with rfl | ⟨key, tail, hkey, hx, rfl⟩
  · cases σ <;> first | exact absurd rfl hσ | exact absurd rfl hword | cases hts
  · have hspace : ∀ {σ' : State} {p : Text}, next σ w ' ' = (σ', w ++ p, []) →
        (σ' = .word ∨ σ' = .single ∨ σ' = .double) → w.count x < tok.count x := by
      intro σ' p hnext hσ'
      rw [tokens_cons hnext] at hts
      have hlt := count_lt_of_mark hkey hx hσ' hts
      rw [List.count_append] at hlt
      omega
    cases σ with
    | between => exact absurd rfl hσ
    | word => exact absurd rfl hword
    | single => exact hspace rfl (.inr (.inl rfl))
    | double => exact hspace rfl (.inr (.inr rfl))
    | escaped => exact hspace rfl (.inl rfl)
    | escapedDouble => exact hspace rfl (.inr (.inr rfl))

end

/-! ### What a word can hold

`visible` characters are counted, among which are the marks of quoting. -/

section

variable {visible : Char → Bool} {φ : State → ℕ} {σ : State} {w cs rest tail tok : Text}
  {c x : Char} {ts : List Text}

/-- With `φ` for what a state may still add, a character adds no more than itself. -/
def Weighs (visible : Char → Bool) (φ : State → ℕ) : Prop :=
  ∀ σ w c, σ ≠ .between → φ (next σ w c).1 + (next σ w c).2.1.countP visible ≤
    φ σ + w.countP visible + [c].countP visible

theorem Weighs.countP_le (hφ : Weighs visible φ) (hx : Plain x)
    (hbase : ∀ σ w, σ ≠ .between → tokens σ w tail = some (tok :: ts) →
      tok.countP visible ≤ w.countP visible + φ σ ∨ w.count x < tok.count x)
    (hσ : σ ≠ .between) (h : tokens σ w (cs ++ tail) = some (tok :: ts)) :
    tok.countP visible ≤ w.countP visible + φ σ + cs.countP visible ∨
      w.count x + cs.count x < tok.count x := by
  induction cs generalizing σ w with
  | nil => exact hbase σ w hσ h
  | cons c cs ih =>
    have hstep := hφ σ w c hσ
    rw [List.cons_append] at h
    have hcons : (c :: cs).countP visible = [c].countP visible + cs.countP visible := by
      rw [← List.countP_append, List.singleton_append]
    have hcount : (c :: cs).count x = [c].count x + cs.count x := by
      rw [← List.count_append, List.singleton_append]
    rcases next_cases (c := c) (fun heq => absurd heq hσ : σ = .between → w = []) with
      ⟨_, hbetween, _⟩ | ⟨_, _, hnext⟩ | ⟨σ', p, hσ', hnext, hadds⟩
    · exact absurd hbetween hσ
    · rw [tokens, hnext] at h
      rcases Option.map_eq_some_iff.mp h with ⟨rest, _, heq⟩
      cases heq
      exact .inl (by omega)
    · rw [tokens_cons hnext] at h
      rw [hnext] at hstep
      dsimp only at hstep
      have hp := hadds x hx
      rcases ih hσ' h with hle | hlt
      · exact .inl (by omega)
      · rw [List.count_append] at hlt
        exact .inr (by omega)

def pending : State → ℕ
  | .escapedDouble => 1
  | _ => 0

def pendingQuote : State → ℕ
  | .between => 0
  | .word => 0
  | .single => 1
  | .double => 0
  | .escaped => 1
  | .escapedDouble => 1

section

variable (hmarks : ∀ c, c = '\\' ∨ c = '\'' ∨ c = '"' → visible c = true)

include hmarks

theorem weighs_pending : Weighs visible pending := by
  intro σ w c hσ
  have hescape : visible '\\' = true := hmarks '\\' (.inl rfl)
  cases σ with
  | between => exact absurd rfl hσ
  | escaped => simp [next, pending]
  | _ =>
    simp only [next, inWord]
    split_ifs <;> simp [*, pending] <;> omega

theorem weighs_pendingQuote : Weighs visible pendingQuote := by
  intro σ w c hσ
  have hescape : visible '\\' = true := hmarks '\\' (.inl rfl)
  have hsingle : visible '\'' = true := hmarks '\'' (.inr (.inl rfl))
  cases σ with
  | between => exact absurd rfl hσ
  | escaped => simp [next, pendingQuote]
  | _ =>
    simp only [next, inWord]
    split_ifs <;> simp [*, pendingQuote] <;> omega

end

/-! ### Texts without quotes -/

def RawClean (visible : Char → Bool) (cs : Text) : Prop :=
  ∃ core blanks, cs = core ++ blanks ∧ (∀ c ∈ core, Plain c) ∧ ∀ c ∈ blanks, visible c = false

theorem Follows.base (h : Follows x rest) (φ : State → ℕ) (hσ : σ ≠ .between)
    (hts : tokens σ w rest = some (tok :: ts)) :
    tok.countP visible ≤ w.countP visible + φ σ ∨ w.count x < tok.count x := by
  by_cases hword : σ = .word
  · subst hword
    rw [h.tokens_word w] at hts
    rcases Option.map_eq_some_iff.mp hts with ⟨_, _, heq⟩
    cases heq
    exact .inl (Nat.le_add_right _ _)
  · exact .inr (h.count_lt hσ hword hts)

theorem RawClean.cons (hc : Plain c) (h : RawClean visible cs) : RawClean visible (c :: cs) := by
  rcases h with ⟨core, blanks, rfl, hcore, hblanks⟩
  exact ⟨c :: core, blanks, rfl, List.forall_mem_cons.mpr ⟨hc, hcore⟩, hblanks⟩

theorem raw_short (hmarks : ∀ c, c = '\\' ∨ c = '\'' ∨ c = '"' → visible c = true) (hx : Plain x)
    (hrest : Follows x rest) (hcs : ¬ RawClean visible cs)
    (h : tokens .word w (cs ++ rest) = some (tok :: ts)) :
    tok.countP visible < w.countP visible + cs.countP visible ∨
      w.count x + cs.count x < tok.count x := by
  induction cs generalizing w with
  | nil => exact absurd ⟨[], [], rfl, nofun, nofun⟩ hcs
  | cons c cs ih =>
    rw [List.cons_append] at h
    by_cases hplain : Plain c
    · have hnext : next .word w c = (.word, w ++ [c], []) := by
        rw [next, if_neg hplain.1, inWord_plain hplain]
      rw [tokens_cons hnext] at h
      have hle := ih (fun hclean => hcs (hclean.cons hplain)) h
      simp only [List.countP_append, List.count_append, Nat.add_assoc] at hle
      rwa [← List.countP_append, ← List.count_append, List.singleton_append] at hle
    by_cases hspace : c ∈ whitespace
    · rw [tokens_word_of_mem hspace] at h
      rcases Option.map_eq_some_iff.mp h with ⟨_, _, heq⟩
      cases heq
      have hpos : 0 < (c :: cs).countP visible := by
        by_contra hzero
        have hnone := List.countP_eq_zero.mp (Nat.eq_zero_of_not_pos hzero)
        exact hcs ⟨[], c :: cs, rfl, nofun, fun c' hc' => Bool.eq_false_iff.mpr (hnone c' hc')⟩
      exact .inl (by omega)
    -- what is left is a mark, which is lost
    have hmark : c = '\\' ∨ c = '\'' ∨ c = '"' := by
      by_contra hnone
      simp only [not_or] at hnone
      exact hplain ⟨hspace, hnone⟩
    have hnext : ∃ σ', σ' ≠ .between ∧ pending σ' = 0 ∧ next .word w c = (σ', w, []) := by
      rcases hmark with rfl | rfl | rfl
      · exact ⟨.escaped, nofun, rfl, rfl⟩
      · exact ⟨.single, nofun, rfl, rfl⟩
      · exact ⟨.double, nofun, rfl, rfl⟩
    rcases hnext with ⟨σ', hσ', hpending, hnext⟩
    rw [tokens_cons hnext] at h
    have hvisible : (c :: cs).countP visible = cs.countP visible + 1 :=
      List.countP_cons_of_pos (hmarks c hmark)
    have hcount : (c :: cs).count x = cs.count x :=
      List.count_cons_of_ne fun heq : c = x => hplain (heq ▸ hx)
    rcases (weighs_pending hmarks).countP_le hx (fun _ _ => hrest.base pending) hσ' h with
      hle | hlt
    · exact .inl (by omega)
    · exact .inr (by omega)

theorem tokens_blanks (hmarks : ∀ c, c = '\\' ∨ c = '\'' ∨ c = '"' → visible c = true)
    (hrest : Follows x rest) {blanks : Text} (hblanks : ∀ c ∈ blanks, visible c = false) :
    (∃ garbage : List Text, (∀ tok ∈ garbage, ∀ c ∈ tok, visible c = false) ∧
      tokens .between [] (blanks ++ rest) = (tokens .between [] rest).map (garbage ++ ·)) ∧
    ∀ w, ∃ (front : Text) (garbage : List Text), (∀ c ∈ front, visible c = false) ∧
      (∀ tok ∈ garbage, ∀ c ∈ tok, visible c = false) ∧
      tokens .word w (blanks ++ rest) =
        (tokens .between [] rest).map ((w ++ front) :: garbage ++ ·) := by
  induction blanks with
  | nil =>
    refine ⟨⟨[], nofun, ?_⟩, fun w => ⟨[], [], nofun, nofun, ?_⟩⟩
    · simp
    · simpa using hrest.tokens_word w
  | cons c blanks ih =>
    rcases List.forall_mem_cons.mp hblanks with ⟨hc, hblanks⟩
    rcases ih hblanks with ⟨⟨garbage, hgarbage, hbetween⟩, hword⟩
    -- a blank that is no space of the splitter becomes part of a word
    by_cases hspace : c ∈ whitespace
    · refine ⟨⟨garbage, hgarbage, ?_⟩, fun w => ⟨[], garbage, nofun, hgarbage, ?_⟩⟩
      · rw [List.cons_append, tokens_between_of_mem hspace, hbetween]
      · rw [List.cons_append, tokens_word_of_mem hspace, hbetween, Option.map_map]
        simp [Function.comp_def]
    · have hplain : Plain c := by
        refine ⟨hspace, ?_, ?_, ?_⟩ <;> rintro rfl
        · exact absurd (hmarks _ (.inl rfl)) (Bool.eq_false_iff.mp hc)
        · exact absurd (hmarks _ (.inr (.inl rfl))) (Bool.eq_false_iff.mp hc)
        · exact absurd (hmarks _ (.inr (.inr rfl))) (Bool.eq_false_iff.mp hc)
      have hnext : ∀ w, tokens .word w (c :: blanks ++ rest) =
          tokens .word (w ++ [c]) (blanks ++ rest) := fun w =>
        tokens_of_plain (p := [c]) (.inl rfl) (by simpa using hplain)
      refine ⟨?_, fun w => ?_⟩
      · rcases hword [c] with ⟨front, garbage, hfront, hgarbage, heq⟩
        refine ⟨([c] ++ front) :: garbage, ?_, ?_⟩
        · refine List.forall_mem_cons.mpr ⟨?_, hgarbage⟩
          exact List.forall_mem_append.mpr ⟨by simpa using hc, hfront⟩
        · rw [List.cons_append, tokens_between_of_notMem hspace, ← List.cons_append, hnext [],
            List.nil_append, heq]
      · rcases hword (w ++ [c]) with ⟨front, garbage, hfront, hgarbage, heq⟩
        refine ⟨c :: front, garbage, List.forall_mem_cons.mpr ⟨hc, hfront⟩, hgarbage, ?_⟩
        rw [hnext w, heq]
        simp

/-! ### Texts between double quotes -/

/-- No double quote, no two backslashes in succession, and none at the end. -/
def quotedClean : Text → Bool
  | [] => true
  | [c] => c ≠ '"' && c ≠ '\\'
  | c :: d :: cs =>
    if c = '"' then false
    else if c = '\\' then d ≠ '"' && d ≠ '\\' && quotedClean cs
    else quotedClean (d :: cs)

theorem Follows.base_quote (h : Follows x rest) (hσ : σ ≠ .between)
    (hts : tokens σ w ('"' :: rest) = some (tok :: ts)) :
    tok.countP visible ≤ w.countP visible + pendingQuote σ ∨ w.count x < tok.count x := by
  have hopen : ∀ (σ' : State) (p : Text), σ' ≠ .between → σ' ≠ .word →
      next σ w '"' = (σ', w ++ p, []) → w.count x < tok.count x := by
    intro σ' p hσ' hword hnext
    rw [tokens_cons hnext] at hts
    have hlt := h.count_lt hσ' hword hts
    rw [List.count_append] at hlt
    omega
  have hend : ∀ p : Text, next σ w '"' = (.word, w ++ p, []) → tok = w ++ p := by
    intro p hnext
    rw [tokens_cons hnext, h.tokens_word] at hts
    rcases Option.map_eq_some_iff.mp hts with ⟨_, _, heq⟩
    exact (List.cons.inj heq).1.symm
  cases σ with
  | between => exact absurd rfl hσ
  | word =>
    have hnext : next .word w '"' = (.double, w ++ [], []) := by simp [next, inWord, whitespace]
    exact .inr (hopen .double [] nofun nofun hnext)
  | single => exact .inr (hopen .single ['"'] nofun nofun rfl)
  | double =>
    rw [hend [] (by simp [next])]
    exact .inl (by simp)
  | escaped =>
    rw [hend ['"'] rfl, List.countP_append]
    exact .inl (Nat.add_le_add_left List.countP_le_length _)
  | escapedDouble => exact .inr (hopen .double ['"'] nofun nofun rfl)

theorem tokens_double_literal (hquote : c ≠ '"') (hescape : c ≠ '\\') :
    tokens .double w (c :: cs) = tokens .double (w ++ [c]) cs :=
  tokens_cons (by rw [next, if_neg hquote, if_neg hescape])

theorem tokens_double_escaped (hquote : c ≠ '"') (hescape : c ≠ '\\') :
    tokens .double w ('\\' :: c :: cs) = tokens .double (w ++ ['\\', c]) cs := by
  have hnext : next .escapedDouble w c = (.double, w ++ ['\\', c], []) :=
    if_neg fun h => h.elim hescape hquote
  exact (tokens_cons rfl).trans (tokens_cons hnext)

theorem tokens_double_mark (h : c = '\\' ∨ c = '"') :
    tokens .double w ('\\' :: c :: cs) = tokens .double (w ++ [c]) cs := by
  have hnext : next .escapedDouble w c = (.double, w ++ [c], []) := if_pos h
  exact (tokens_cons rfl).trans (tokens_cons hnext)

theorem tokens_double_quote : tokens .double w ('"' :: cs) = tokens .word w cs := tokens_cons rfl

theorem tokens_double_clean (h : quotedClean cs = true) :
    tokens .double w (cs ++ '"' :: rest) = tokens .word (w ++ cs) rest := by
  induction cs using quotedClean.induct generalizing w with
  | case1 => rw [List.nil_append, tokens_double_quote, List.append_nil]
  | case2 c =>
    have hc : c ≠ '"' ∧ c ≠ '\\' := by simpa [quotedClean] using h
    rw [List.singleton_append, tokens_double_literal hc.1 hc.2, tokens_double_quote]
  | case3 => simp [quotedClean] at h
  | case4 d cs _ ih =>
    have hd : (d ≠ '"' ∧ d ≠ '\\') ∧ quotedClean cs = true := by simpa [quotedClean] using h
    rw [List.cons_append, List.cons_append, tokens_double_escaped hd.1.1 hd.1.2, ih hd.2]
    simp
  | case5 c d cs hquote hescape ih =>
    have hclean : quotedClean (d :: cs) = true := by simpa [quotedClean, hquote, hescape] using h
    rw [List.cons_append, tokens_double_literal hquote hescape, ih hclean]
    simp

theorem quoted_short (hmarks : ∀ c, c = '\\' ∨ c = '\'' ∨ c = '"' → visible c = true)
    (hx : Plain x) (hrest : Follows x rest) (hcs : quotedClean cs = false)
    (h : tokens .double w (cs ++ '"' :: rest) = some (tok :: ts)) :
    tok.countP visible < w.countP visible + cs.countP visible ∨
      w.count x + cs.count x < tok.count x := by
  have hle : ∀ {σ : State} {w cs : Text}, σ ≠ .between →
      tokens σ w (cs ++ '"' :: rest) = some (tok :: ts) →
      tok.countP visible ≤ w.countP visible + pendingQuote σ + cs.countP visible ∨
        w.count x + cs.count x < tok.count x := fun hσ h =>
    (weighs_pendingQuote hmarks).countP_le hx (fun _ _ => hrest.base_quote) hσ h
  have hmark : ∀ {c : Char} (cs : Text), c = '\\' ∨ c = '"' →
      (c :: cs).countP visible = cs.countP visible + 1 ∧ (c :: cs).count x = cs.count x := by
    intro c cs hc
    have hvisible : visible c = true := hmarks c (hc.imp_right .inr)
    have hne : c ≠ x := by
      rintro rfl
      exact hc.elim hx.2.1 hx.2.2.2
    exact ⟨List.countP_cons_of_pos hvisible, List.count_cons_of_ne hne⟩
  -- a double quote ends what is quoted, and is lost
  have hquote : ∀ {w cs : Text}, tokens .double w ('"' :: (cs ++ '"' :: rest)) = some (tok :: ts) →
      tok.countP visible < w.countP visible + ('"' :: cs).countP visible ∨
        w.count x + ('"' :: cs).count x < tok.count x := by
    intro w cs h
    rw [tokens_double_quote] at h
    rcases hmark cs (.inr rfl) with ⟨hvisible, hcount⟩
    rcases hle (by decide) h with hle | hlt
    · simp only [pendingQuote, Nat.add_zero] at hle
      exact .inl (by omega)
    · exact .inr (by omega)
  -- the first sign that is not clean loses a mark or moves a plain character
  induction cs using quotedClean.induct generalizing w with
  | case1 => simp [quotedClean] at hcs
  | case2 c =>
    by_cases hc : c = '"'
    · subst hc
      exact hquote h
    · have hescape : c = '\\' := by simpa [quotedClean, hc] using hcs
      subst hescape
      rw [List.singleton_append, tokens_double_mark (.inr rfl)] at h
      have hlt := hrest.count_lt (by decide) (by decide) h
      rw [List.count_append] at hlt
      rcases hmark [] (.inl rfl) with ⟨_, hcount⟩
      rw [List.count_nil] at hcount
      exact .inr (by omega)
  | case3 d cs => exact hquote h
  | case4 d cs _ ih =>
    rcases hmark (d :: cs) (.inl rfl) with ⟨hvisible, hcount⟩
    -- an escape is kept unless it is in front of a mark
    by_cases hd : d = '\\' ∨ d = '"'
    · rw [List.cons_append, List.cons_append, tokens_double_mark hd] at h
      rcases hmark cs hd with ⟨hvisible', hcount'⟩
      rcases hmark [] hd with ⟨hvisible'', hcount''⟩
      rcases hle (by decide) h with hle | hlt
      · simp only [pendingQuote, Nat.add_zero, List.countP_append, hvisible'',
          List.countP_nil] at hle
        exact .inl (by omega)
      · rw [List.count_append, hcount''] at hlt
        exact .inr (by omega)
    · simp only [not_or] at hd
      have hclean : quotedClean cs = false := by simpa [quotedClean, hd] using hcs
      rw [List.cons_append, List.cons_append, tokens_double_escaped hd.2 hd.1] at h
      have hshort := ih hclean h
      have hvisible' : ['\\', d].countP visible = [d].countP visible + 1 := (hmark [d] (.inl rfl)).1
      have hcount' : ['\\', d].count x = [d].count x := (hmark [d] (.inl rfl)).2
      rw [List.countP_append, List.count_append, hvisible', hcount'] at hshort
      rw [hvisible, hcount, ← List.singleton_append, List.countP_append, List.count_append]
      omega
  | case5 c d cs hc hescape ih =>
    have hclean : quotedClean (d :: cs) = false := by simpa [quotedClean, hc, hescape] using hcs
    rw [List.cons_append, tokens_double_literal hc hescape] at h
    have hshort := ih hclean h
    simp only [List.countP_append, List.count_append, Nat.add_assoc] at hshort
    rwa [← List.countP_append, ← List.count_append, List.singleton_append] at hshort

end

end ShellWords
