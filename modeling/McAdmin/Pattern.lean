import Mathlib.Data.List.Basic
import Mathlib.Data.List.DropRight
import Mathlib.Data.List.TakeWhile

/-!
# Backtracking patterns

The regular expressions of a backtracking engine, as far as a repetition is of a
class of characters.  `hits` lists the ways a pattern matches at the start of a
text in the order the engine tries them, so the first one is the match it reports;
`search` reports the first match at the first place that has one.
-/

namespace Backtracking

abbrev Text := List Char

inductive Pattern where
  | lit (text : Text)
  /-- Between `least` and `most` characters of a class, the longest first or last. -/
  | many (greedy : Bool) (p : Char → Bool) (least : Nat) (most : Option Nat)
  | group (body : Pattern)
  | seq (first second : Pattern)
  | alt (first second : Pattern)
  /-- `(?:..)?` -/
  | opt (body : Pattern)
  /-- `$`: the end, or a newline that ends the text. -/
  | stop

instance : Append Pattern := ⟨Pattern.seq⟩

/-- The text of a string, as a pattern. -/
def Pattern.str (text : String) : Pattern := .lit text.toList

/-- A way to match: the text matched, what its groups captured, the text left. -/
structure Hit where
  text : Text
  captures : List (Option Text)
  rest : Text
deriving DecidableEq

/-- What group `n` captured, empty when it took no part in the match. -/
def Hit.group (h : Hit) (n : Nat) : Text := (h.captures.getD (n - 1) none).getD []

/-- The starts of a text whose characters are all of a class, the shortest first. -/
def prefixes (p : Char → Bool) (most : Option Nat) (t : Text) : List (Text × Text) :=
  let longest := (t.takeWhile p).length
  (List.range (most.elim longest (min longest) + 1)).map t.splitAt

namespace Pattern

/-- How many groups a pattern has. -/
def groups : Pattern → Nat
  | lit _ => 0
  | many .. => 0
  | group body => body.groups + 1
  | seq first second => first.groups + second.groups
  | alt first second => first.groups + second.groups
  | opt body => body.groups
  | stop => 0

def hits : Pattern → Text → List Hit
  | lit text, t => if text.isPrefixOf t then [⟨text, [], t.drop text.length⟩] else []
  | many greedy p least most, t =>
    let found := (prefixes p most t).filter fun u => least ≤ u.1.length
    (if greedy then found.reverse else found).map fun u => ⟨u.1, [], u.2⟩
  | group body, t => (body.hits t).map fun h => { h with captures := some h.text :: h.captures }
  | seq first second, t =>
    (first.hits t).flatMap fun h => (second.hits h.rest).map fun h' =>
      ⟨h.text ++ h'.text, h.captures ++ h'.captures, h'.rest⟩
  | alt first second, t =>
    ((first.hits t).map fun h =>
        { h with captures := h.captures ++ List.replicate second.groups none }) ++
      (second.hits t).map fun h =>
        { h with captures := List.replicate first.groups none ++ h.captures }
  | opt body, t => body.hits t ++ [⟨[], List.replicate body.groups none, t⟩]
  | stop, t => if t = [] ∨ t = ['\n'] then [⟨[], [], t⟩] else []

section

variable (text t : Text) (greedy : Bool) (p : Char → Bool) (least : Nat) (most : Option Nat)
  (body first second : Pattern)

theorem hits_lit : (lit text).hits t =
    if text.isPrefixOf t then [⟨text, [], t.drop text.length⟩] else [] := rfl

theorem hits_many : (many greedy p least most).hits t =
    (if greedy then ((prefixes p most t).filter fun u => least ≤ u.1.length).reverse
      else (prefixes p most t).filter fun u => least ≤ u.1.length).map
        fun u => ⟨u.1, [], u.2⟩ := rfl

theorem hits_group : (group body).hits t =
    (body.hits t).map fun h => { h with captures := some h.text :: h.captures } := rfl

theorem hits_seq : (seq first second).hits t =
    (first.hits t).flatMap fun h => (second.hits h.rest).map fun h' =>
      ⟨h.text ++ h'.text, h.captures ++ h'.captures, h'.rest⟩ := rfl

theorem hits_alt : (alt first second).hits t =
    ((first.hits t).map fun h =>
        { h with captures := h.captures ++ List.replicate second.groups none }) ++
      (second.hits t).map fun h =>
        { h with captures := List.replicate first.groups none ++ h.captures } := rfl

theorem hits_opt : (opt body).hits t =
    body.hits t ++ [⟨[], List.replicate body.groups none, t⟩] := rfl

theorem hits_stop : stop.hits t = if t = [] ∨ t = ['\n'] then [⟨[], [], t⟩] else [] := rfl

end

/-- The match at the start of a text. -/
def atStart (p : Pattern) (t : Text) : Option Hit := (p.hits t).head?

/-- The first match anywhere in a text. -/
def search (p : Pattern) : Text → Option Hit
  | [] => p.atStart []
  | c :: t => (p.atStart (c :: t)).or (search p t)

end Pattern

/-- The classes of the engine's Unicode tables, fixed here on ASCII only. -/
structure CharTable where
  /-- `\w` -/
  isWord : Char → Bool
  /-- `\d` -/
  isDecimal : Char → Bool
  /-- What `strip` removes. -/
  isSpace : Char → Bool
  lower : Text → Text
  isWord_ascii : ∀ c : Char, c.toNat < 128 → isWord c = (c.isAlphanum || c == '_')
  isDecimal_ascii : ∀ c : Char, c.toNat < 128 → isDecimal c = c.isDigit
  isSpace_ascii : ∀ c : Char, c.toNat < 128 →
    isSpace c = ((9 ≤ c.toNat && c.toNat ≤ 13) || (28 ≤ c.toNat && c.toNat ≤ 32))

def CharTable.strip (u : CharTable) (t : Text) : Text :=
  (t.dropWhile u.isSpace).rdropWhile u.isSpace

/-- The tables of a server that prints ASCII only. -/
def CharTable.ascii : CharTable where
  isWord c := c.isAlphanum || c == '_'
  isDecimal := Char.isDigit
  isSpace c := (9 ≤ c.toNat && c.toNat ≤ 13) || (28 ≤ c.toNat && c.toNat ≤ 32)
  lower t := t.map Char.toLower
  isWord_ascii _ _ := rfl
  isDecimal_ascii _ _ := rfl
  isSpace_ascii _ _ := rfl

/-- A character of ASCII that is shown is no space. -/
theorem CharTable.isSpace_of_shown (u : CharTable) {c : Char} (hlow : 32 < c.toNat)
    (hhigh : c.toNat < 128) : u.isSpace c = false := by
  have hcontrol : ¬ c.toNat ≤ 13 := by omega
  have hblank : ¬ c.toNat ≤ 32 := by omega
  rw [u.isSpace_ascii c hhigh]
  simp [hcontrol, hblank]

theorem CharTable.isSpace_ascii_table {c : Char} (h : 32 < c.toNat) :
    CharTable.ascii.isSpace c = false := by
  have hcontrol : ¬ c.toNat ≤ 13 := by omega
  have hblank : ¬ c.toNat ≤ 32 := by omega
  simp [CharTable.ascii, hcontrol, hblank]

/-! ### What a hit is -/

theorem mem_prefixes {p : Char → Bool} {most : Option Nat} {t : Text} {u : Text × Text} :
    u ∈ prefixes p most t ↔
      t = u.1 ++ u.2 ∧ (∀ c ∈ u.1, p c = true) ∧ ∀ n ∈ most, u.1.length ≤ n := by
  have hbound : ∀ k, k < most.elim (t.takeWhile p).length (min (t.takeWhile p).length) + 1 ↔
      k ≤ (t.takeWhile p).length ∧ ∀ n ∈ most, k ≤ n := by
    intro k
    cases most with
    | none =>
      simp only [Option.elim_none, Nat.lt_succ_iff, Option.not_mem_none, false_imp_iff,
        implies_true, and_true]
    | some n =>
      simp only [Option.elim_some, Option.mem_def, Option.some.injEq, forall_eq']
      omega
  unfold prefixes
  simp only [List.mem_map, List.mem_range, hbound]
  constructor
  · rintro ⟨k, ⟨hlongest, hmost⟩, rfl⟩
    rw [List.splitAt_eq]
    refine ⟨(List.take_append_drop k t).symm, fun c hc => ?_, fun n hn => ?_⟩
    · have hstarts : t.take k <+: t.takeWhile p :=
        List.prefix_of_prefix_length_le (List.take_prefix k t) (List.takeWhile_prefix p)
          (Nat.le_trans (List.length_take_le k t) hlongest)
      exact List.mem_takeWhile_imp (hstarts.subset hc)
    · exact Nat.le_trans (List.length_take_le k t) (hmost n hn)
  · rintro ⟨ht, hall, hmost⟩
    refine ⟨u.1.length, ⟨?_, hmost⟩, ?_⟩
    · rw [ht, List.takeWhile_append_of_pos hall, List.length_append]
      exact Nat.le_add_right _ _
    · rw [List.splitAt_eq, ht, List.take_left, List.drop_left]

theorem mem_hits_many {greedy : Bool} {p : Char → Bool} {least : Nat} {most : Option Nat}
    {t : Text} {h : Hit} :
    h ∈ (Pattern.many greedy p least most).hits t ↔
      t = h.text ++ h.rest ∧ h.captures = [] ∧ (∀ c ∈ h.text, p c = true) ∧
        least ≤ h.text.length ∧ ∀ n ∈ most, h.text.length ≤ n := by
  have hfound : h ∈ (Pattern.many greedy p least most).hits t ↔
      ∃ u ∈ prefixes p most t, least ≤ u.1.length ∧ (⟨u.1, [], u.2⟩ : Hit) = h := by
    rw [Pattern.hits_many]
    cases greedy <;> simp [and_assoc]
  rw [hfound]
  constructor
  · rintro ⟨u, hmem, hleast, rfl⟩
    obtain ⟨ht, hall, hmost⟩ := mem_prefixes.mp hmem
    exact ⟨ht, rfl, hall, hleast, hmost⟩
  · rintro ⟨ht, hcaptures, hall, hleast, hmost⟩
    refine ⟨(h.text, h.rest), mem_prefixes.mpr ⟨ht, hall, hmost⟩, hleast, ?_⟩
    rw [← hcaptures]

theorem mem_hits_lit {text t : Text} {h : Hit} :
    h ∈ (Pattern.lit text).hits t ↔ h.text = text ∧ h.captures = [] ∧ t = text ++ h.rest := by
  rw [Pattern.hits_lit]
  constructor
  · intro hmem
    split at hmem
    · rename_i hstarts
      obtain rfl := List.mem_singleton.mp hmem
      obtain ⟨r, rfl⟩ := List.isPrefixOf_iff_prefix.mp hstarts
      exact ⟨rfl, rfl, by rw [List.drop_left]⟩
    · exact absurd hmem List.not_mem_nil
  · rintro ⟨htext, hcaptures, rfl⟩
    have hstarts : text.isPrefixOf (text ++ h.rest) = true :=
      List.isPrefixOf_iff_prefix.mpr (List.prefix_append _ _)
    rw [if_pos hstarts, List.drop_left, ← htext, ← hcaptures]
    exact List.mem_singleton.mpr rfl

theorem mem_hits_stop {t : Text} {h : Hit} :
    h ∈ Pattern.stop.hits t ↔ h = ⟨[], [], t⟩ ∧ (t = [] ∨ t = ['\n']) := by
  rw [Pattern.hits_stop]
  split
  · rename_i ht
    exact ⟨fun hmem => ⟨List.mem_singleton.mp hmem, ht⟩,
      fun ⟨h, _⟩ => h ▸ List.mem_singleton.mpr rfl⟩
  · rename_i ht
    exact ⟨fun hmem => absurd hmem List.not_mem_nil, fun h => absurd h.2 ht⟩

theorem mem_hits_append {first second : Pattern} {t : Text} {h : Hit} :
    h ∈ (first ++ second).hits t ↔
      ∃ h₁ ∈ first.hits t, ∃ h₂ ∈ second.hits h₁.rest,
        h = ⟨h₁.text ++ h₂.text, h₁.captures ++ h₂.captures, h₂.rest⟩ := by
  change h ∈ (Pattern.seq first second).hits t ↔ _
  simp only [Pattern.hits_seq, List.mem_flatMap, List.mem_map, eq_comm]

theorem mem_hits_group {body : Pattern} {t : Text} {h : Hit} :
    h ∈ (Pattern.group body).hits t ↔
      ∃ h₁ ∈ body.hits t, h = { h₁ with captures := some h₁.text :: h₁.captures } := by
  simp only [Pattern.hits_group, List.mem_map, eq_comm]

theorem mem_hits_alt {first second : Pattern} {t : Text} {h : Hit} :
    h ∈ (Pattern.alt first second).hits t ↔
      (∃ h₁ ∈ first.hits t,
        h = { h₁ with captures := h₁.captures ++ List.replicate second.groups none }) ∨
      ∃ h₁ ∈ second.hits t,
        h = { h₁ with captures := List.replicate first.groups none ++ h₁.captures } := by
  simp only [Pattern.hits_alt, List.mem_append, List.mem_map, eq_comm]

theorem mem_hits_opt {body : Pattern} {t : Text} {h : Hit} :
    h ∈ (Pattern.opt body).hits t ↔
      h ∈ body.hits t ∨ h = ⟨[], List.replicate body.groups none, t⟩ := by
  simp only [Pattern.hits_opt, List.mem_append, List.mem_singleton]

/-- A hit cuts the text in two. -/
theorem hit_splits {p : Pattern} : ∀ {t : Text} {h : Hit}, h ∈ p.hits t → t = h.text ++ h.rest := by
  induction p with
  | lit text =>
    intro t h hmem
    obtain ⟨htext, -, ht⟩ := mem_hits_lit.mp hmem
    rw [htext, ht]
  | many greedy p least most =>
    intro t h hmem
    exact (mem_hits_many.mp hmem).1
  | group body ih =>
    intro t h hmem
    obtain ⟨h₁, hmem₁, rfl⟩ := mem_hits_group.mp hmem
    exact ih (h := h₁) hmem₁
  | seq first second ih₁ ih₂ =>
    intro t h hmem
    obtain ⟨h₁, hmem₁, h₂, hmem₂, rfl⟩ := mem_hits_append.mp hmem
    rw [ih₁ hmem₁, ih₂ hmem₂]
    exact (List.append_assoc _ _ _).symm
  | alt first second ih₁ ih₂ =>
    intro t h hmem
    obtain ⟨h₁, hmem₁, rfl⟩ | ⟨h₁, hmem₁, rfl⟩ := mem_hits_alt.mp hmem
    · exact ih₁ (h := h₁) hmem₁
    · exact ih₂ (h := h₁) hmem₁
  | opt body ih =>
    intro t h hmem
    obtain hmem | rfl := mem_hits_opt.mp hmem
    · exact ih hmem
    · rfl
  | stop =>
    intro t h hmem
    obtain ⟨rfl, -⟩ := mem_hits_stop.mp hmem
    rfl

/-- A hit captures one text for each group. -/
theorem length_captures {p : Pattern} :
    ∀ {t : Text} {h : Hit}, h ∈ p.hits t → h.captures.length = p.groups := by
  induction p with
  | lit text =>
    intro t h hmem
    rw [(mem_hits_lit.mp hmem).2.1]
    rfl
  | many greedy p least most =>
    intro t h hmem
    rw [(mem_hits_many.mp hmem).2.1]
    rfl
  | group body ih =>
    intro t h hmem
    obtain ⟨h₁, hmem₁, rfl⟩ := mem_hits_group.mp hmem
    simp [Pattern.groups, ih hmem₁]
  | seq first second ih₁ ih₂ =>
    intro t h hmem
    obtain ⟨h₁, hmem₁, h₂, hmem₂, rfl⟩ := mem_hits_append.mp hmem
    simp [Pattern.groups, ih₁ hmem₁, ih₂ hmem₂]
  | alt first second ih₁ ih₂ =>
    intro t h hmem
    obtain ⟨h₁, hmem₁, rfl⟩ | ⟨h₁, hmem₁, rfl⟩ := mem_hits_alt.mp hmem
    · simp [Pattern.groups, ih₁ hmem₁]
    · simp [Pattern.groups, ih₂ hmem₁]
  | opt body ih =>
    intro t h hmem
    obtain hmem | rfl := mem_hits_opt.mp hmem
    · exact ih hmem
    · simp [Pattern.groups]
  | stop =>
    intro t h hmem
    rw [(mem_hits_stop.mp hmem).1]
    rfl

theorem atStart_ne_none {p : Pattern} {t : Text} : p.atStart t ≠ none ↔ ∃ h, h ∈ p.hits t := by
  unfold Pattern.atStart
  cases p.hits t with
  | nil => simp
  | cons h l => exact ⟨fun _ => ⟨h, List.mem_cons_self⟩, fun _ => nofun⟩

/-- Every hit starts with a character of the class. -/
def Starts (p : Pattern) (q : Char → Bool) : Prop :=
  ∀ t h, h ∈ p.hits t → ∃ c rest, t = c :: rest ∧ q c = true

theorem starts_many {greedy : Bool} {q : Char → Bool} {least : Nat} {most : Option Nat}
    (hleast : 0 < least) : Starts (.many greedy q least most) q := by
  intro t h hmem
  obtain ⟨ht, -, hall, hlength, -⟩ := mem_hits_many.mp hmem
  cases htext : h.text with
  | nil =>
    rw [htext, List.length_nil] at hlength
    omega
  | cons c rest =>
    rw [htext] at ht hall
    exact ⟨c, rest ++ h.rest, ht, hall c List.mem_cons_self⟩

theorem Starts.group {p : Pattern} {q : Char → Bool} (hp : Starts p q) : Starts (.group p) q := by
  intro t h hmem
  obtain ⟨h₁, hmem₁, -⟩ := mem_hits_group.mp hmem
  exact hp t h₁ hmem₁

theorem Starts.append {p r : Pattern} {q : Char → Bool} (hp : Starts p q) : Starts (p ++ r) q := by
  intro t h hmem
  obtain ⟨h₁, hmem₁, -⟩ := mem_hits_append.mp hmem
  exact hp t h₁ hmem₁

theorem Starts.atStart_eq_none {p : Pattern} {q : Char → Bool} (hp : Starts p q) {c : Char}
    (hc : q c = false) (t : Text) : p.atStart (c :: t) = none := by
  by_contra hne
  obtain ⟨h, hmem⟩ := atStart_ne_none.mp hne
  obtain ⟨c', rest, ht, hc'⟩ := hp _ h hmem
  obtain ⟨rfl, -⟩ := List.cons.inj ht
  rw [hc] at hc'
  exact absurd hc' Bool.false_ne_true

theorem starts_lit (c : Char) (text : Text) : Starts (.lit (c :: text)) (· == c) := by
  intro t h hmem
  obtain ⟨-, -, ht⟩ := mem_hits_lit.mp hmem
  exact ⟨c, text ++ h.rest, ht, beq_self_eq_true c⟩

/-! ### The first hit -/

/-- What has been matched, and then what follows it. -/
def Hit.join (h h' : Hit) : Hit := ⟨h.text ++ h'.text, h.captures ++ h'.captures, h'.rest⟩

theorem hits_append_assoc (first second third : Pattern) (t : Text) :
    ((first ++ second) ++ third).hits t = (first ++ (second ++ third)).hits t := by
  change (Pattern.seq (.seq first second) third).hits t =
    (Pattern.seq first (.seq second third)).hits t
  simp only [Pattern.hits_seq, List.flatMap_assoc, List.flatMap_map, List.map_flatMap,
    List.map_map, Function.comp_def, List.append_assoc]

/-- The first hit of a sequence follows the first hit of its first part that something follows. -/
theorem atStart_append (first second : Pattern) (t : Text) :
    (first ++ second).atStart t =
      (first.hits t).findSome? fun h => (second.atStart h.rest).map h.join := by
  change ((first.hits t).flatMap fun h => (second.hits h.rest).map h.join).head? = _
  rw [List.head?_flatMap]
  simp only [List.head?_map, Pattern.atStart]

theorem atStart_append_assoc (first second third : Pattern) (t : Text) :
    ((first ++ second) ++ third).atStart t = (first ++ (second ++ third)).atStart t :=
  congrArg List.head? (hits_append_assoc first second third t)

/-- An optional part is tried first, and left out when nothing follows it. -/
theorem atStart_opt_append (body p : Pattern) (t : Text) :
    (.opt body ++ p : Pattern).atStart t = ((body ++ p).atStart t).or
      ((p.atStart t).map (Hit.join ⟨[], List.replicate body.groups none, t⟩)) := by
  rw [atStart_append, atStart_append, Pattern.hits_opt, List.findSome?_append,
    List.findSome?_cons, List.findSome?_nil]
  cases p.atStart t <;> rfl

theorem atStart_lit_append (text t : Text) (p : Pattern) :
    (.lit text ++ p : Pattern).atStart (text ++ t) =
      (p.atStart t).map (Hit.join ⟨text, [], t⟩) := by
  have hstarts : text.isPrefixOf (text ++ t) = true :=
    List.isPrefixOf_iff_prefix.mpr (List.prefix_append _ _)
  rw [atStart_append, Pattern.hits_lit, if_pos hstarts, List.drop_left, List.findSome?_cons,
    List.findSome?_nil]
  cases p.atStart t <;> rfl

theorem atStart_lit_append_none {text t : Text} (p : Pattern) (h : ¬ text <+: t) :
    (.lit text ++ p : Pattern).atStart t = none := by
  rw [atStart_append, Pattern.hits_lit, if_neg fun hstarts =>
    h (List.isPrefixOf_iff_prefix.mp hstarts)]
  rfl

/-- A list in which only one element counts. -/
theorem findSome?_of_unique {α β : Type} {l : List α} {f : α → Option β} {a : α} (ha : a ∈ l)
    (hothers : ∀ b ∈ l, b ≠ a → f b = none) : l.findSome? f = f a := by
  cases hf : f a with
  | none =>
    rw [List.findSome?_eq_none_iff]
    intro b hb
    by_cases hba : b = a
    · rw [hba, hf]
    · exact hothers b hb hba
  | some b =>
    induction l with
    | nil => exact absurd ha List.not_mem_nil
    | cons c l ih =>
      by_cases hc : c = a
      · rw [hc, List.findSome?_cons_of_isSome (by simp [hf]), hf]
      · have hnone : f c = none := hothers c List.mem_cons_self hc
        have hmem : a ∈ l := (List.mem_cons.mp ha).resolve_left (Ne.symm hc)
        rw [List.findSome?_cons_of_isNone (by simp [hnone])]
        exact ih hmem fun b hb => hothers b (List.mem_cons_of_mem _ hb)

/-- What a repetition can take. -/
structure Takes (p : Char → Bool) (least : Nat) (most : Option Nat) (k : Text) : Prop where
  all : ∀ c ∈ k, p c = true
  least : least ≤ k.length
  most : ∀ n ∈ most, k.length ≤ n

section Repetition

variable {greedy : Bool} {p : Char → Bool} {least : Nat} {most : Option Nat} {q : Pattern}
  {t k rest : Text} {found h : Hit}

/-- The ways a repetition can start a text, the shortest first. -/
def taken (p : Char → Bool) (least : Nat) (most : Option Nat) (t : Text) : List (Text × Text) :=
  (prefixes p most t).filter fun u => least ≤ u.1.length

theorem mem_taken {u : Text × Text} :
    u ∈ taken p least most t ↔ t = u.1 ++ u.2 ∧ Takes p least most u.1 := by
  unfold taken
  rw [List.mem_filter, mem_prefixes, decide_eq_true_iff]
  constructor
  · rintro ⟨⟨ht, hall, hmost⟩, hleast⟩
    exact ⟨ht, hall, hleast, hmost⟩
  · rintro ⟨ht, hall, hleast, hmost⟩
    exact ⟨⟨ht, hall, hmost⟩, hleast⟩

theorem taken_sorted (p : Char → Bool) (least : Nat) (most : Option Nat) (t : Text) :
    (taken p least most t).Pairwise fun u v => u.1.length < v.1.length := by
  apply List.Pairwise.filter
  unfold prefixes
  rw [List.pairwise_map]
  apply List.Pairwise.imp_of_mem _ List.pairwise_lt_range
  intro n m _ hm hlt
  have hlength : m ≤ t.length := by
    have hwhile : (t.takeWhile p).length ≤ t.length := (List.takeWhile_prefix p).length_le
    have hbound := List.mem_range.mp hm
    cases most with
    | none =>
      simp only [Option.elim_none] at hbound
      omega
    | some most =>
      simp only [Option.elim_some] at hbound
      omega
  simp only [List.splitAt_eq, List.length_take]
  omega

theorem atStart_many_append : (.group (.many greedy p least most) ++ q : Pattern).atStart t =
    (if greedy then (taken p least most t).reverse else taken p least most t).findSome?
      fun u => (q.atStart u.2).map (Hit.join ⟨u.1, [some u.1], u.2⟩) := by
  rw [atStart_append, Pattern.hits_group, Pattern.hits_many, List.map_map, List.findSome?_map]
  rfl

/-- Another cut of a text falls in the part before the character out of the class. -/
theorem cut_in_class {c : Char} {k' after : Text} (hc : p c = false)
    (hk' : ∀ d ∈ k', p d = true) (h : k ++ c :: after = k' ++ rest) (hne : k' ≠ k) :
    ∃ d more, rest = d :: (more ++ c :: after) ∧ d ∈ k := by
  rcases List.append_eq_append_iff.mp h with ⟨more, hlonger, hcut⟩ | ⟨more, hshorter, hcut⟩
  · cases more with
    | nil => exact absurd (by rw [hlonger, List.append_nil]) hne
    | cons d more =>
      obtain ⟨rfl, -⟩ := List.cons.inj hcut
      have hin : c ∈ k' := by
        rw [hlonger]
        exact List.mem_append_right _ List.mem_cons_self
      rw [hk' c hin] at hc
      exact absurd hc.symm Bool.false_ne_true
  · cases more with
    | nil => exact absurd (by rw [hshorter, List.append_nil]) hne
    | cons d more =>
      refine ⟨d, more, hcut, ?_⟩
      rw [hshorter]
      exact List.mem_append_right _ List.mem_cons_self

/-- Where only one length of the repetition is followed by the rest. -/
theorem atStart_many_of_unique (hk : Takes p least most k)
    (hothers : ∀ k' rest', k ++ rest = k' ++ rest' → Takes p least most k' → k' ≠ k →
      q.atStart rest' = none) :
    (.group (.many greedy p least most) ++ q : Pattern).atStart (k ++ rest) =
      (q.atStart rest).map (Hit.join ⟨k, [some k], rest⟩) := by
  have hmem : (k, rest) ∈ taken p least most (k ++ rest) := mem_taken.mpr ⟨rfl, hk⟩
  have hnone : ∀ u ∈ taken p least most (k ++ rest), u ≠ (k, rest) →
      (q.atStart u.2).map (Hit.join ⟨u.1, [some u.1], u.2⟩) = none := by
    intro u hu hne
    obtain ⟨hsplit, htakes⟩ := mem_taken.mp hu
    have hk' : u.1 ≠ k := by
      intro heq
      rw [heq] at hsplit
      exact hne (Prod.ext heq (List.append_cancel_left hsplit).symm)
    rw [hothers u.1 u.2 hsplit htakes hk']
    rfl
  rw [atStart_many_append]
  cases greedy with
  | true =>
    rw [if_pos rfl]
    exact findSome?_of_unique (List.mem_reverse.mpr hmem) fun u hu =>
      hnone u (List.mem_reverse.mp hu)
  | false =>
    rw [if_neg Bool.false_ne_true]
    exact findSome?_of_unique hmem hnone

/-- A lazy repetition stops where the rest first follows. -/
theorem atStart_lazy (hk : Takes p least most k)
    (hshorter : ∀ k' rest', k ++ rest = k' ++ rest' → Takes p least most k' →
      k'.length < k.length → q.atStart rest' = none) (hrest : q.atStart rest = some h) :
    (.group (.many false p least most) ++ q : Pattern).atStart (k ++ rest) =
      some (Hit.join ⟨k, [some k], rest⟩ h) := by
  have hmem : (k, rest) ∈ taken p least most (k ++ rest) := mem_taken.mpr ⟨rfl, hk⟩
  have hsorted := taken_sorted p least most (k ++ rest)
  rw [atStart_many_append, if_neg Bool.false_ne_true, List.findSome?_eq_some_iff]
  obtain ⟨before, after, hsplit⟩ := List.append_of_mem hmem
  rw [hsplit] at hsorted
  refine ⟨before, (k, rest), after, hsplit, by rw [hrest]; rfl, ?_⟩
  intro u hu
  have hlt : u.1.length < k.length :=
    (List.pairwise_append.mp hsorted).2.2 u hu (k, rest) List.mem_cons_self
  have hu' : u ∈ taken p least most (k ++ rest) := by
    rw [hsplit]
    exact List.mem_append_left _ hu
  obtain ⟨hcut, htakes⟩ := mem_taken.mp hu'
  rw [hshorter u.1 u.2 hcut htakes hlt]
  rfl

/-- What a lazy repetition takes is the shortest that the rest follows. -/
theorem lazy_shortest
    (hfound : (.group (.many false p least most) ++ q : Pattern).atStart t = some found) :
    ∃ k rest h, t = k ++ rest ∧ Takes p least most k ∧ q.atStart rest = some h ∧
      found = Hit.join ⟨k, [some k], rest⟩ h ∧
      ∀ k' rest', t = k' ++ rest' → Takes p least most k' → q.atStart rest' ≠ none →
        k.length ≤ k'.length := by
  have hsorted := taken_sorted p least most t
  rw [atStart_many_append, if_neg Bool.false_ne_true, List.findSome?_eq_some_iff] at hfound
  obtain ⟨before, u, after, hsplit, hu, hbefore⟩ := hfound
  obtain ⟨h, hh, rfl⟩ := Option.map_eq_some_iff.mp hu
  have hmem : u ∈ taken p least most t := by
    rw [hsplit]
    exact List.mem_append_right _ List.mem_cons_self
  obtain ⟨hcut, htakes⟩ := mem_taken.mp hmem
  refine ⟨u.1, u.2, h, hcut, htakes, hh, rfl, ?_⟩
  intro k' rest' hcut' htakes' hrest'
  have hmem' : (k', rest') ∈ taken p least most t := mem_taken.mpr ⟨hcut', htakes'⟩
  rw [hsplit] at hmem' hsorted
  rcases List.mem_append.mp hmem' with hmem' | hmem'
  · have hnone := hbefore (k', rest') hmem'
    exact absurd (Option.map_eq_none_iff.mp hnone) hrest'
  · rcases List.mem_cons.mp hmem' with heq | hmem'
    · rw [← heq]
    · have hrest := List.pairwise_cons.mp (List.pairwise_append.mp hsorted).2.1
      exact Nat.le_of_lt (hrest.1 (k', rest') hmem')

end Repetition

/-! ### Matching from left to right -/

/-- The pattern can match the start of a text and leave the rest. -/
def Leaves (p : Pattern) (t rest : Text) : Prop := ∃ h ∈ p.hits t, h.rest = rest

theorem leaves_lit (text rest : Text) : Leaves (.lit text) (text ++ rest) rest :=
  ⟨⟨text, [], rest⟩, mem_hits_lit.mpr ⟨rfl, rfl, rfl⟩, rfl⟩

theorem leaves_many (greedy : Bool) {p : Char → Bool} {least : Nat} {most : Option Nat} {k : Text}
    (hk : Takes p least most k) (rest : Text) :
    Leaves (.many greedy p least most) (k ++ rest) rest :=
  ⟨⟨k, [], rest⟩, mem_hits_many.mpr ⟨rfl, rfl, hk.all, hk.least, hk.most⟩, rfl⟩

theorem leaves_stop : Leaves .stop [] [] :=
  ⟨⟨[], [], []⟩, mem_hits_stop.mpr ⟨rfl, .inl rfl⟩, rfl⟩

theorem Leaves.group {p : Pattern} {t rest : Text} (h : Leaves p t rest) :
    Leaves (.group p) t rest := by
  obtain ⟨h', hmem, hrest⟩ := h
  exact ⟨_, mem_hits_group.mpr ⟨h', hmem, rfl⟩, hrest⟩

theorem Leaves.append {first second : Pattern} {t middle rest : Text}
    (h : Leaves first t middle) (h' : Leaves second middle rest) :
    Leaves (first ++ second) t rest := by
  obtain ⟨h₁, hmem₁, rfl⟩ := h
  obtain ⟨h₂, hmem₂, rfl⟩ := h'
  exact ⟨_, mem_hits_append.mpr ⟨h₁, hmem₁, h₂, hmem₂, rfl⟩, rfl⟩

theorem leaves_opt (body : Pattern) (t : Text) : Leaves (.opt body) t t :=
  ⟨_, mem_hits_opt.mpr (.inr rfl), rfl⟩

/-- What can be followed by a match is part of one. -/
theorem Leaves.followed {first second : Pattern} {t middle : Text} (h : Leaves first t middle)
    (hrest : second.atStart middle ≠ none) : (first ++ second).atStart t ≠ none := by
  obtain ⟨h₁, hmem₁, rfl⟩ := h
  obtain ⟨h₂, hmem₂⟩ := atStart_ne_none.mp hrest
  exact atStart_ne_none.mpr ⟨_, mem_hits_append.mpr ⟨h₁, hmem₁, h₂, hmem₂, rfl⟩⟩

theorem Leaves.atStart_ne_none {p : Pattern} {t rest : Text} (h : Leaves p t rest) :
    p.atStart t ≠ none := by
  obtain ⟨h', hmem, -⟩ := h
  exact Backtracking.atStart_ne_none.mpr ⟨h', hmem⟩

/-! ### Searching -/

/-- A search succeeds when the pattern matches somewhere. -/
theorem search_ne_none {p : Pattern} {t : Text} :
    p.search t ≠ none ↔ ∃ before after, t = before ++ after ∧ ∃ h, h ∈ p.hits after := by
  induction t with
  | nil =>
    unfold Pattern.search
    rw [atStart_ne_none]
    constructor
    · rintro ⟨h, hmem⟩
      exact ⟨[], [], rfl, h, hmem⟩
    · rintro ⟨before, after, ht, h, hmem⟩
      obtain ⟨rfl, rfl⟩ := List.append_eq_nil_iff.mp ht.symm
      exact ⟨h, hmem⟩
  | cons c t ih =>
    have hsplit : p.search (c :: t) ≠ none ↔
        (∃ h, h ∈ p.hits (c :: t)) ∨ p.search t ≠ none := by
      rw [Pattern.search, ← atStart_ne_none]
      cases p.atStart (c :: t) <;> simp
    rw [hsplit, ih]
    constructor
    · rintro (h | ⟨before, after, rfl, h⟩)
      · exact ⟨[], c :: t, rfl, h⟩
      · exact ⟨c :: before, after, rfl, h⟩
    · rintro ⟨before, after, ht, h⟩
      cases before with
      | nil =>
        left
        rw [ht]
        exact h
      | cons d before =>
        right
        obtain ⟨rfl, rfl⟩ := List.cons.inj ht
        exact ⟨before, after, rfl, h⟩

end Backtracking
