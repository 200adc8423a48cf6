import Mathlib.Algebra.Order.BigOperators.Group.List
import Mathlib.Algebra.Order.Group.Nat
import Mathlib.Data.List.Perm.Subperm
import McAdmin.AuditDetails

/-!
# Which details come back

A detail is a sequence of segments.  A clean segment gives the field it was written for, and
whatever else it gives is no field.  A segment that is not clean gives a field with a wrong
value, and there are not enough equals signs for a right one besides.
-/

namespace AuditDetails

open PlainText ShellWords

structure Segment where
  name : Name
  value : Text
  body : Text
  quoted : Bool
  same : norm body = norm value

namespace Segment

def source (seg : Segment) : Text :=
  assign seg.name.val (if seg.quoted then '"' :: (seg.body ++ ['"']) else seg.body)

def Clean (seg : Segment) : Prop :=
  if seg.quoted then quotedClean seg.body = true else RawClean visible seg.body

def written (seg : Segment) : Text × Text := (seg.name.val, seg.value)

end Segment

def after (segs : List Segment) : Text := segs.flatMap fun seg => ' ' :: seg.source

section

variable {key value token rest : Text} {fields : List (Text × Text)} {toks : List Text}
  {seg : Segment} {segs : List Segment}

/-! ### Fields -/

theorem IsName.notMem (h : IsName key) : '=' ∉ key := fun hmem => (h.2 _ hmem).2 rfl

theorem IsName.takeWhile (h : IsName key) (value : Text) :
    (assign key value).takeWhile (· ≠ '=') = key := by
  have hkey : ∀ c ∈ key, decide (c ≠ '=') = true := fun c hc => by simpa using (h.2 c hc).2
  rw [assign, List.takeWhile_append_of_pos hkey, List.takeWhile_cons_of_neg (by simp),
    List.append_nil]

theorem fieldOf_assign (h : IsName key) (value : Text) :
    fieldOf (assign key value) = some (key, value) := by
  have hkey : ∀ c ∈ key, decide (c ≠ '=') = true := fun c hc => by simpa using (h.2 c hc).2
  have hdrop : (assign key value).dropWhile (· ≠ '=') = '=' :: value := by
    rw [assign, List.dropWhile_append_of_pos hkey, List.dropWhile_cons_of_neg (by simp)]
  have hmem : '=' ∈ assign key value := by simp [assign]
  rw [fieldOf, if_pos hmem, h.takeWhile, hdrop]
  exact if_neg h.1

theorem eq_assign_of_fieldOf (h : fieldOf token = some (key, value)) :
    token = assign key value := by
  unfold fieldOf at h
  split_ifs at h with hmem
  dsimp only at h
  split_ifs at h
  cases h
  have hsplit := (List.takeWhile_append_dropWhile (p := (· ≠ '=')) (l := token)).symm
  have hdrop : token.dropWhile (· ≠ '=') ≠ [] := by
    intro hnil
    have hall := List.dropWhile_eq_nil_iff.mp hnil _ hmem
    simp at hall
  have hhead : (token.dropWhile (· ≠ '=')).head hdrop = '=' := by
    simpa using List.head_dropWhile_not (· ≠ '=') hdrop
  have hcons := (List.cons_head_tail hdrop).symm.trans (congrArg (· :: _) hhead)
  exact hsplit.trans (congrArg (token.takeWhile (· ≠ '=') ++ ·) hcons)

theorem fieldOf_eq_none (h : '=' ∉ token) : fieldOf token = none := if_neg h

/-! ### Dictionaries of fields -/

theorem mem_of_lookup_foldl {d : Dict Text Text}
    (h : (fields.foldl (fun d field => Dict.set d field.1 field.2) d).lookup key = some value) :
    (key, value) ∈ fields ∨ d.lookup key = some value := by
  induction fields generalizing d with
  | nil => exact .inr h
  | cons field fields ih =>
    rcases ih h with hmem | hlookup
    · exact .inl (List.mem_cons_of_mem _ hmem)
    · rw [Dict.lookup_set] at hlookup
      split_ifs at hlookup with hkey
      · cases hlookup
        subst hkey
        exact .inl List.mem_cons_self
      · exact .inr hlookup

theorem mem_foldl {d : Dict Text Text} :
    key ∈ fields.foldl (fun d field => Dict.set d field.1 field.2) d ↔
      key ∈ fields.map Prod.fst ∨ key ∈ d := by
  induction fields generalizing d with
  | nil => simp
  | cons field fields ih =>
    have hset : key ∈ Dict.set d field.1 field.2 ↔ key = field.1 ∨ key ∈ d := by
      rw [← AList.lookup_isSome, ← AList.lookup_isSome, Dict.lookup_set]
      by_cases hkey : key = field.1 <;> simp [hkey]
    rw [List.foldl_cons, ih, hset, List.map_cons, List.mem_cons]
    tauto

theorem mem_of_lookup_fieldsOf (h : (fieldsOf toks).lookup key = some value) :
    assign key value ∈ toks := by
  rcases mem_of_lookup_foldl h with hmem | hempty
  · rcases List.mem_filterMap.mp hmem with ⟨token, htoken, hfield⟩
    rwa [eq_assign_of_fieldOf hfield] at htoken
  · cases hempty

/-! ### One segment -/

theorem plain_equals : Plain '=' := by decide

theorem Segment.tokens_name (seg : Segment) (w : Text) :
    tokens .between [] (assign seg.name.val w) =
      tokens .word (seg.name.val ++ ['=']) w := by
  have hplain : ∀ c ∈ seg.name.val ++ ['='], Plain c := by
    refine List.forall_mem_append.mpr ⟨fun c hc => (seg.name.property.2 c hc).1, ?_⟩
    simpa using plain_equals
  rcases List.exists_cons_of_ne_nil seg.name.property.1 with ⟨c, key, hkey⟩
  have hc : c ∉ whitespace := (seg.name.property.2 c (by rw [hkey]; simp)).1.1
  have hbegin : tokens .between [] (assign seg.name.val w) =
      tokens .word [] (assign seg.name.val w) := by
    rw [assign, hkey, List.cons_append, tokens_between_of_notMem hc]
  rw [hbegin, assign, List.append_cons, tokens_of_plain (.inl rfl) hplain, List.nil_append]

theorem Segment.tokens_source (seg : Segment) (rest : Text) :
    tokens .between [] (seg.source ++ rest) =
      if seg.quoted then tokens .double (seg.name.val ++ ['=']) (seg.body ++ '"' :: rest)
      else tokens .word (seg.name.val ++ ['=']) (seg.body ++ rest) := by
  have hsource : seg.source ++ rest = assign seg.name.val
      ((if seg.quoted then '"' :: (seg.body ++ ['"']) else seg.body) ++ rest) := by
    simp [source, assign]
  rw [hsource, seg.tokens_name]
  cases seg.quoted with
  | false => rfl
  | true =>
    have hnext : next .word (seg.name.val ++ ['=']) '"' =
        (.double, seg.name.val ++ ['='], []) := by simp [next, inWord, whitespace]
    simp only [if_true, List.cons_append, List.append_assoc, List.nil_append]
    exact tokens_cons hnext

theorem Segment.Clean.tokens (h : seg.Clean) (hrest : Follows '=' rest) :
    ∃ found garbage, norm found = norm seg.value ∧ (∀ tok ∈ garbage, fieldOf tok = none) ∧
      tokens .between [] (seg.source ++ rest) =
        (ShellWords.tokens .between [] rest).map
          (assign seg.name.val found :: garbage ++ ·) := by
  rw [seg.tokens_source]
  unfold Segment.Clean at h
  have hassign : ∀ found, seg.name.val ++ ['='] ++ found = assign seg.name.val found :=
    fun found => by simp [assign]
  cases hquoted : seg.quoted with
  | true =>
    rw [hquoted, if_pos rfl] at h
    refine ⟨seg.body, [], seg.same, nofun, ?_⟩
    rw [if_pos rfl, tokens_double_clean h, hrest.tokens_word, hassign]
    rfl
  | false =>
    rw [hquoted, if_neg (by simp)] at h
    rcases h with ⟨core, blanks, hbody, hcore, hblanks⟩
    rcases (tokens_blanks visible_marks hrest hblanks).2 (seg.name.val ++ ['='] ++ core) with
      ⟨front, garbage, hfront, hgarbage, htokens⟩
    refine ⟨core ++ front, garbage, ?_, fun tok htok => fieldOf_eq_none fun hmem => ?_, ?_⟩
    · rw [← seg.same, hbody, norm_append fun c hc => isSpace_of_visible (hfront c hc),
        norm_append fun c hc => isSpace_of_visible (hblanks c hc)]
    · exact absurd (hgarbage tok htok '=' hmem) (by decide)
    · rw [if_neg (by simp), hbody, List.append_assoc, tokens_of_plain (.inl rfl) hcore, htokens,
        List.append_assoc, hassign]

theorem Segment.tokens_head (h : ¬ seg.Clean) (hrest : Follows '=' rest)
    (htoks : tokens .between [] (seg.source ++ rest) = some toks) :
    ∃ found rest', toks = assign seg.name.val found :: rest' ∧ norm found ≠ norm seg.value := by
  rw [seg.tokens_source] at htoks
  unfold Segment.Clean at h
  -- the word has less that is visible, or another equals sign
  have hwrong : ∀ found, norm found = norm seg.value →
      ¬ ((assign seg.name.val found).countP visible <
          (seg.name.val ++ ['=']).countP visible + seg.body.countP visible ∨
        (seg.name.val ++ ['=']).count '=' + seg.body.count '=' <
          (assign seg.name.val found).count '=') := by
    intro found hnorm
    have hassign : assign seg.name.val found = seg.name.val ++ ['='] ++ found := by simp [assign]
    have hvisible : found.countP visible = seg.body.countP visible := by
      rw [← countP_visible_norm, hnorm, ← seg.same, countP_visible_norm]
    have hcount : found.count '=' = seg.body.count '=' := by
      rw [← count_norm, hnorm, ← seg.same, count_norm]
    have hsplit : (seg.name.val ++ ['='] ++ found).count '=' =
        (seg.name.val ++ ['=']).count '=' + found.count '=' := List.count_append
    rw [hassign, List.countP_append, hsplit, hvisible, hcount]
    omega
  have hfirst : ∀ {σ : State} {cs : Text}, σ ≠ .between →
      tokens σ (seg.name.val ++ ['=']) cs = some toks →
      ∃ found rest', toks = assign seg.name.val found :: rest' := by
    intro σ cs hσ htoks
    rcases ShellWords.tokens_head hσ htoks with ⟨tok, rest', rfl, found, rfl⟩
    exact ⟨found, rest', by simp [assign]⟩
  cases hquoted : seg.quoted with
  | true =>
    rw [hquoted, if_pos rfl] at h htoks
    rcases hfirst (by decide) htoks with ⟨found, rest', rfl⟩
    have hshort := quoted_short visible_marks plain_equals hrest (Bool.eq_false_iff.mpr h) htoks
    exact ⟨found, rest', rfl, fun hnorm => hwrong found hnorm hshort⟩
  | false =>
    rw [hquoted, if_neg (by simp)] at h htoks
    rcases hfirst (by decide) htoks with ⟨found, rest', rfl⟩
    have hshort := raw_short visible_marks plain_equals hrest h htoks
    exact ⟨found, rest', rfl, fun hnorm => hwrong found hnorm hshort⟩

/-! ### The segments of a detail -/

theorem follows_after (segs : List Segment) : Follows '=' (after segs) := by
  cases segs with
  | nil => exact .inl rfl
  | cons seg segs =>
    refine .inr ⟨seg.name.val, (if seg.quoted then '"' :: (seg.body ++ ['"']) else seg.body) ++
      after segs, fun c hc => (seg.name.property.2 c hc).1, plain_equals, ?_⟩
    simp [after, Segment.source, assign]

theorem tokens_after_cons (seg : Segment) (segs : List Segment) :
    tokens .between [] (after (seg :: segs)) = tokens .between [] (seg.source ++ after segs) :=
  tokens_between_of_mem (by decide)

theorem split_joined (segs : List Segment) :
    split (joined (segs.map Segment.source)) = tokens .between [] (after segs) := by
  cases segs with
  | nil => rfl
  | cons seg segs =>
    rw [tokens_after_cons, split, List.map_cons, joined, List.flatMap_map]
    rfl

theorem tokens_after_of_clean (h : ∀ seg ∈ segs, seg.Clean) :
    ∃ toks, tokens .between [] (after segs) = some toks ∧
      (toks.filterMap fieldOf).map Prod.fst = segs.map (·.name.val) ∧
      ∀ field ∈ toks.filterMap fieldOf,
        ∃ seg ∈ segs, field.1 = seg.name.val ∧ norm field.2 = norm seg.value := by
  induction segs with
  | nil => exact ⟨[], rfl, rfl, nofun⟩
  | cons seg segs ih =>
    rcases List.forall_mem_cons.mp h with ⟨hseg, hsegs⟩
    rcases ih hsegs with ⟨toks, htoks, hkeys, hfields⟩
    rcases hseg.tokens (follows_after segs) with ⟨found, garbage, hnorm, hgarbage, heq⟩
    have hfilter : (assign seg.name.val found :: garbage ++ toks).filterMap fieldOf =
        (seg.name.val, found) :: toks.filterMap fieldOf := by
      rw [List.filterMap_append, List.filterMap_cons_some (fieldOf_assign seg.name.property found),
        List.filterMap_eq_nil_iff.mpr hgarbage]
      rfl
    refine ⟨assign seg.name.val found :: garbage ++ toks, ?_, ?_, ?_⟩
    · rw [tokens_after_cons, heq, htoks]
      rfl
    · rw [hfilter, List.map_cons, List.map_cons, hkeys]
    · rw [hfilter]
      refine List.forall_mem_cons.mpr ⟨⟨seg, List.mem_cons_self, rfl, hnorm⟩, ?_⟩
      intro field hfield
      rcases hfields field hfield with ⟨seg', hmem, hsame⟩
      exact ⟨seg', List.mem_cons_of_mem _ hmem, hsame⟩

theorem exists_wrong (h : ∃ seg ∈ segs, ¬ seg.Clean)
    (htoks : tokens .between [] (after segs) = some toks) :
    ∃ seg ∈ segs, ∃ found, assign seg.name.val found ∈ toks ∧ norm found ≠ norm seg.value := by
  induction segs generalizing toks with
  | nil => simp at h
  | cons seg segs ih =>
    rw [tokens_after_cons] at htoks
    by_cases hseg : seg.Clean
    · rcases hseg.tokens (follows_after segs) with ⟨found, garbage, _, _, heq⟩
      rw [heq] at htoks
      rcases Option.map_eq_some_iff.mp htoks with ⟨toks', htoks', rfl⟩
      have hrest : ∃ seg ∈ segs, ¬ seg.Clean := by
        rcases h with ⟨seg', hmem, hbad⟩
        rcases List.mem_cons.mp hmem with rfl | hmem
        · exact absurd hseg hbad
        · exact ⟨seg', hmem, hbad⟩
      rcases ih hrest htoks' with ⟨seg', hmem, wrong, htok, hnorm⟩
      exact ⟨seg', List.mem_cons_of_mem _ hmem, wrong, List.mem_append_right _ htok, hnorm⟩
    · rcases seg.tokens_head hseg (follows_after segs) htoks with ⟨found, rest', rfl, hnorm⟩
      exact ⟨seg, List.mem_cons_self, found, List.mem_cons_self, hnorm⟩

/-! ### Equals signs -/

theorem count_assign (h : IsName key) (value : Text) :
    (assign key value).count '=' = value.count '=' + 1 := by
  rw [assign, List.count_append, List.count_eq_zero.mpr h.notMem, List.count_cons_self, Nat.zero_add]

theorem Segment.count_source (seg : Segment) :
    seg.source.count '=' = seg.value.count '=' + 1 := by
  rw [source, count_assign seg.name.property, ← count_norm seg.value, ← seg.same, count_norm]
  cases seg.quoted <;> simp

theorem count_after (segs : List Segment) :
    (after segs).count '=' = (segs.map fun seg => seg.value.count '=' + 1).sum := by
  induction segs with
  | nil => rfl
  | cons seg segs ih =>
    have hcons : after (seg :: segs) = ' ' :: seg.source ++ after segs := rfl
    rw [hcons, List.count_append, ih, List.map_cons, List.sum_cons,
      List.count_cons_of_ne (by decide), seg.count_source]

/-! ### What comes back -/

theorem sum_map_le_of_subset {α : Type} [DecidableEq α] {l l' : List α} (hl : l.Nodup) (h : l ⊆ l')
    (f : α → ℕ) : (l.map f).sum ≤ (l'.map f).sum := by
  rcases List.subperm_of_subset hl h with ⟨l₁, hperm, hsub⟩
  rw [← (hperm.map f).sum_eq]
  exact (hsub.map f).sum_le_sum fun _ _ => Nat.zero_le _

theorem clean_of_recovers (hdistinct : (segs.map (·.name.val)).Nodup)
    (h : Recovers (segs.map Segment.written) (parseDetail (joined (segs.map Segment.source)))) :
    ∀ seg ∈ segs, seg.Clean := by
  by_contra hnot
  have hbad : ∃ seg ∈ segs, ¬ seg.Clean := by simpa using hnot
  obtain ⟨toks, htoks, hparse⟩ : ∃ toks, tokens .between [] (after segs) = some toks ∧
      parseDetail (joined (segs.map Segment.source)) = fieldsOf toks := by
    rcases hbad with ⟨seg, hseg, _⟩
    have hmem := (h.1 seg.name.val).mpr
      (List.mem_map.mpr ⟨seg.written, List.mem_map_of_mem hseg, rfl⟩)
    unfold parseDetail at hmem ⊢
    rw [split_joined] at hmem ⊢
    split_ifs at hmem ⊢ with hempty
    · exact absurd hmem (AList.notMem_empty _)
    · cases htoks : tokens .between [] (after segs) with
      | none =>
        rw [htoks] at hmem
        exact absurd hmem (AList.notMem_empty _)
      | some toks => exact ⟨toks, rfl, rfl⟩
  rw [hparse] at h
  rcases exists_wrong hbad htoks with ⟨seg, hseg, wrong, hwrong, hnorm⟩
  -- the tokens of the values that were found
  have hfound : ∀ seg ∈ segs, ∃ found, (fieldsOf toks).lookup seg.name.val = some found ∧
      norm found = norm seg.value := fun seg hseg =>
    h.2 _ _ (List.mem_map_of_mem (f := Segment.written) hseg)
  have hlookup : ∀ seg ∈ segs, norm (((fieldsOf toks).lookup seg.name.val).getD []) =
      norm seg.value ∧
      assign seg.name.val (((fieldsOf toks).lookup seg.name.val).getD []) ∈ toks := by
    intro seg hseg
    rcases hfound seg hseg with ⟨found, heq, hsame⟩
    rw [heq]
    exact ⟨hsame, mem_of_lookup_fieldsOf heq⟩
  set right := segs.map fun seg =>
    assign seg.name.val (((fieldsOf toks).lookup seg.name.val).getD []) with hright
  have hnodup : right.Nodup := by
    apply List.Nodup.of_map (List.takeWhile (· ≠ '='))
    rw [hright, List.map_map]
    have hnames : (List.takeWhile (· ≠ '=') ∘ fun seg : Segment =>
        assign seg.name.val (((fieldsOf toks).lookup seg.name.val).getD [])) = (·.name.val) :=
      funext fun seg => seg.name.property.takeWhile _
    rw [hnames]
    exact hdistinct
  have hnew : assign seg.name.val wrong ∉ right := by
    intro hmem
    rcases List.mem_map.mp hmem with ⟨seg', hseg', heq⟩
    have hkey := congrArg (List.takeWhile (· ≠ '=')) heq
    rw [seg'.name.property.takeWhile, seg.name.property.takeWhile] at hkey
    rw [hkey, assign, assign, List.append_cancel_left_eq, List.cons.injEq] at heq
    exact hnorm (heq.2 ▸ (hlookup seg hseg).1)
  have hsubset : assign seg.name.val wrong :: right ⊆ toks := by
    refine List.cons_subset.mpr ⟨hwrong, fun tok htok => ?_⟩
    rcases List.mem_map.mp htok with ⟨seg', hseg', rfl⟩
    exact (hlookup seg' hseg').2
  have hle := sum_map_le_of_subset (List.nodup_cons.mpr ⟨hnew, hnodup⟩) hsubset (List.count '=')
  have htotal := sum_count_tokens plain_equals (fun _ => rfl) htoks
  have hcounts : (right.map (List.count '=')).sum =
      (segs.map fun seg => seg.value.count '=' + 1).sum := by
    rw [hright, List.map_map]
    refine congrArg List.sum (List.map_congr_left fun seg hseg => ?_)
    rw [Function.comp_apply, count_assign seg.name.property, ← count_norm,
      (hlookup seg hseg).1, count_norm]
  rw [htotal, List.count_nil, Nat.zero_add, count_after, List.map_cons, List.sum_cons, hcounts,
    count_assign seg.name.property] at hle
  omega

theorem recovers_of_clean (hdistinct : (segs.map (·.name.val)).Nodup)
    (h : ∀ seg ∈ segs, seg.Clean) :
    Recovers (segs.map Segment.written) (parseDetail (joined (segs.map Segment.source))) := by
  rcases tokens_after_of_clean h with ⟨toks, htoks, hkeys, hfields⟩
  have hparse : parseDetail (joined (segs.map Segment.source)) = fieldsOf toks := by
    unfold parseDetail
    split_ifs with hempty
    · have hsplit := split_joined segs
      rw [hempty, htoks] at hsplit
      cases hsplit
      rfl
    · rw [split_joined, htoks]
  have hwritten : (segs.map Segment.written).map Prod.fst = segs.map (·.name.val) :=
    List.map_map
  have hmem : ∀ key, key ∈ fieldsOf toks ↔ key ∈ segs.map (·.name.val) := by
    intro key
    rw [fieldsOf, mem_foldl, hkeys]
    simp [AList.notMem_empty]
  rw [hparse]
  refine ⟨fun key => by rw [hmem, hwritten], fun key value hvalue => ?_⟩
  rcases List.mem_map.mp hvalue with ⟨seg, hseg, heq⟩
  cases heq
  rcases Option.isSome_iff_exists.mp
    (AList.lookup_isSome.mpr ((hmem _).mpr (List.mem_map_of_mem hseg))) with ⟨found, hfound⟩
  refine ⟨found, hfound, ?_⟩
  rcases mem_of_lookup_foldl hfound with hfield | hempty
  · rcases hfields _ hfield with ⟨seg', hseg', hname, hnorm⟩
    rw [hnorm, List.inj_on_of_nodup_map hdistinct hseg hseg' hname]
  · cases hempty

theorem recovers_iff (hdistinct : (segs.map (·.name.val)).Nodup) :
    Recovers (segs.map Segment.written) (parseDetail (joined (segs.map Segment.source))) ↔
      ∀ seg ∈ segs, seg.Clean :=
  ⟨clean_of_recovers hdistinct, recovers_of_clean hdistinct⟩

end

/-! ### The details of the application -/

def Segment.raw (name : Name) (value : Text) : Segment := ⟨name, value, value, false, rfl⟩

def Segment.quotedAs (name : Name) (value : Text) : Segment := ⟨name, value, value, true, rfl⟩

/-- A field of `_restore_event`. -/
def Segment.shownAs (name : Name) (value : Text) : Segment :=
  let text := strip (withoutBreaks value)
  if ' ' ∈ text then
    ⟨name, value, withApostrophes text, true, (norm_withApostrophes _).trans (norm_strip value)⟩
  else ⟨name, value, text, false, norm_strip value⟩

theorem Segment.clean_raw (name : Name) (value : Text) :
    (raw name value).Clean ↔ CleanRaw value := (cleanRaw_iff value).symm

theorem Segment.clean_quotedAs (name : Name) (value : Text) :
    (quotedAs name value).Clean ↔ quotedClean value = true := Iff.rfl

theorem Segment.source_shownAs (name : Name) (value : Text) :
    (shownAs name value).source = assign name.val (shown value) := by
  simp only [shownAs, shown]
  split_ifs <;> rfl

theorem Segment.written_shownAs (name : Name) (value : Text) :
    (shownAs name value).written = (name.val, value) := by
  simp only [shownAs]
  split_ifs <;> rfl

theorem Segment.clean_shownAs (name : Name) (value : Text) :
    (shownAs name value).Clean ↔ CleanShown value := by
  simp only [shownAs, CleanShown]
  split_ifs
  · exact Iff.rfl
  · exact (cleanRaw_iff _).symm

def phaseName : Name := ⟨"phase".toList, by decide⟩

namespace RestoreEvent

def segments (e : RestoreEvent) : List Segment :=
  Segment.raw phaseName e.phase :: e.present.map fun field => Segment.shownAs field.1 field.2

theorem detail_eq (e : RestoreEvent) : e.detail = joined (e.segments.map Segment.source) := by
  simp only [detail, segments, List.map_cons, List.map_map, Function.comp_def,
    Segment.source_shownAs]
  rfl

theorem written_eq (e : RestoreEvent) : e.written = e.segments.map Segment.written := by
  simp only [written, segments, List.map_cons, List.map_map, Function.comp_def,
    Segment.written_shownAs]
  rfl

theorem clean_iff (e : RestoreEvent) : e.Clean ↔ ∀ seg ∈ e.segments, seg.Clean := by
  rw [Clean, segments, List.forall_mem_cons, List.forall_mem_map, Segment.clean_raw]
  simp only [Segment.clean_shownAs]

theorem names_distinct (e : RestoreEvent) : (e.segments.map (·.name.val)).Nodup := by
  have hnames : e.segments.map (·.name.val) =
      "phase".toList :: e.present.map (·.1.val) := by
    have hname : ∀ field : Name × Text,
        (Segment.shownAs field.1 field.2).name.val = field.1.val := by
      intro field
      simp only [Segment.shownAs]
      split_ifs <;> rfl
    simp only [segments, List.map_cons, List.map_map, Function.comp_def, hname]
    rfl
  have hsublist : (e.present.map (·.1.val)).Sublist (e.fields.map (·.1.val)) := by
    have hpresent : ∀ fields : List (Name × Option Text),
        ((fields.filterMap fun field => field.2.map fun value => (field.1, value)).map
          (·.1.val)).Sublist (fields.map (·.1.val)) := by
      intro fields
      induction fields with
      | nil => exact List.Sublist.refl _
      | cons field fields ih =>
        rcases field with ⟨name, value⟩
        cases value with
        | none => exact ih.cons _
        | some value => exact ih.cons_cons _
    exact hpresent e.fields
  rw [hnames]
  exact e.distinct.sublist (hsublist.cons_cons _)

end RestoreEvent

namespace ProfileEvent

def segments : ProfileEvent → List Segment
  | .created slug name categories =>
    [.raw phaseName "profile_created".toList, .raw ⟨"profile".toList, by decide⟩ slug,
      .quotedAs ⟨"name".toList, by decide⟩ name,
      .raw ⟨"include".toList, by decide⟩ (List.intercalate [','] categories)]
  | .updated id name =>
    [.raw phaseName "profile_updated".toList, .raw ⟨"profile".toList, by decide⟩ id,
      .quotedAs ⟨"name".toList, by decide⟩ name]
  | .switched enabled id =>
    [.raw phaseName (switchedPhase enabled), .raw ⟨"profile".toList, by decide⟩ id]
  | .deleted id =>
    [.raw phaseName "profile_deleted".toList, .raw ⟨"profile".toList, by decide⟩ id]
  | .started id name requestedBy operationId =>
    [.raw phaseName "backup_started".toList, .raw ⟨"kind".toList, by decide⟩ id,
      .quotedAs ⟨"profile".toList, by decide⟩ name,
      .raw ⟨"requested_by".toList, by decide⟩ requestedBy,
      .raw ⟨"operation_id".toList, by decide⟩ operationId]
  | .done kind archive sizeMio operationId =>
    [.raw phaseName "backup_done".toList, .raw ⟨"kind".toList, by decide⟩ kind,
      .raw ⟨"archive".toList, by decide⟩ archive,
      .raw ⟨"size_mio".toList, by decide⟩ (Nat.toDigits 10 sizeMio),
      .raw ⟨"operation_id".toList, by decide⟩ operationId]
  | .failed kind operationId =>
    [.raw phaseName "backup_failed".toList, .raw ⟨"kind".toList, by decide⟩ kind,
      .raw ⟨"operation_id".toList, by decide⟩ operationId]
  | .retained kind count operationId =>
    [.raw phaseName "retention_applied".toList, .raw ⟨"kind".toList, by decide⟩ kind,
      .raw ⟨"deleted".toList, by decide⟩ (Nat.toDigits 10 count),
      .raw ⟨"operation_id".toList, by decide⟩ operationId]

theorem cleanRaw_digits (n : ℕ) : CleanRaw (Nat.toDigits 10 n) := by
  intro c hc
  have hdigit := Nat.isDigit_of_mem_toDigits (by decide) (by decide)
    ((List.rdropWhile_prefix isSpace (l := Nat.toDigits 10 n)).subset hc)
  refine ⟨?_, ?_, ?_, ?_⟩
  · intro hspace
    simp only [whitespace, List.mem_cons, List.not_mem_nil, or_false] at hspace
    rcases hspace with rfl | rfl | rfl | rfl <;> exact absurd hdigit (by decide)
  all_goals
    rintro rfl
    exact absurd hdigit (by decide)

theorem detail_eq (p : ProfileEvent) : p.detail = joined (p.segments.map Segment.source) := by
  cases p <;> rfl

theorem written_eq (p : ProfileEvent) : p.written = p.segments.map Segment.written := by
  cases p <;> rfl

theorem clean_iff (p : ProfileEvent) : p.Clean ↔ ∀ seg ∈ p.segments, seg.Clean := by
  have hcreated : CleanRaw "profile_created".toList := by decide
  have hupdated : CleanRaw "profile_updated".toList := by decide
  have hswitched : ∀ enabled, CleanRaw (switchedPhase enabled) := by decide
  have hdeleted : CleanRaw "profile_deleted".toList := by decide
  have hstarted : CleanRaw "backup_started".toList := by decide
  have hdone : CleanRaw "backup_done".toList := by decide
  have hfailed : CleanRaw "backup_failed".toList := by decide
  have hretained : CleanRaw "retention_applied".toList := by decide
  cases p <;>
    simp only [Clean, segments, List.forall_mem_cons, Segment.clean_raw, Segment.clean_quotedAs,
      hcreated, hupdated, hswitched, hdeleted, hstarted, hdone, hfailed, hretained,
      cleanRaw_digits, true_and, List.not_mem_nil, false_imp_iff, implies_true, and_true]

theorem names_distinct (p : ProfileEvent) : (p.segments.map (·.name.val)).Nodup := by
  cases p with
  | created => exact (by decide : ["phase".toList, "profile".toList, "name".toList,
      "include".toList].Nodup)
  | updated => exact (by decide : ["phase".toList, "profile".toList, "name".toList].Nodup)
  | switched | deleted => exact (by decide : ["phase".toList, "profile".toList].Nodup)
  | started => exact (by decide : ["phase".toList, "kind".toList, "profile".toList,
      "requested_by".toList, "operation_id".toList].Nodup)
  | done => exact (by decide : ["phase".toList, "kind".toList, "archive".toList,
      "size_mio".toList, "operation_id".toList].Nodup)
  | failed => exact (by decide : ["phase".toList, "kind".toList, "operation_id".toList].Nodup)
  | retained => exact (by decide : ["phase".toList, "kind".toList, "deleted".toList,
      "operation_id".toList].Nodup)

end ProfileEvent

/-- The fields of a detail come back exactly when its values are clean. -/
theorem recovered_iff (e : RestoreEvent) (p : ProfileEvent) :
    (Recovers e.written (parseDetail e.detail) ↔ e.Clean) ∧
      (Recovers p.written (parseDetail p.detail) ↔ p.Clean) := by
  constructor
  · rw [e.written_eq, e.detail_eq, recovers_iff e.names_distinct, e.clean_iff]
  · rw [p.written_eq, p.detail_eq, recovers_iff p.names_distinct, p.clean_iff]

/-- A rejected restoration of `x`, a tab and `phase=restore_completed`. -/
def rejected : RestoreEvent where
  phase := "restore_rejected".toList
  fields :=
    [(⟨"archive".toList, by decide⟩, some "x\tphase=restore_completed".toList),
      (⟨"reason".toList, by decide⟩, some "archive_not_found".toList)]
  distinct := by decide

theorem phase_forged :
    (parseDetail rejected.detail).lookup "phase".toList = some "restore_completed".toList ∧
      ¬ Recovers rejected.written (parseDetail rejected.detail) := by
  have hforged : (parseDetail rejected.detail).lookup "phase".toList =
      some "restore_completed".toList := by decide +kernel
  refine ⟨hforged, fun h => ?_⟩
  rcases h.2 "phase".toList rejected.phase List.mem_cons_self with ⟨found, heq, hnorm⟩
  cases hforged.symm.trans heq
  exact absurd hnorm (by decide)

end AuditDetails
