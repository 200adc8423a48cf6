import McAdmin.Pattern

/-!
# Substitution from left to right

A list is read from left to right; where something is found, it is replaced, and what was found is
skipped.  `re.sub` does so with the matches of a pattern.  A substitution may be followed on the
items that a text is the writing of, when what is found in the text begins and ends with items.
-/

namespace Substitution

open Backtracking

section

variable {α β γ δ : Type}

/-- What is found at the start of a list tells what to put there, and how many items to skip. -/
def scan (find : List α → Option (List β × ℕ)) (pass : α → β) : ℕ → List α → List β
  | _, [] => []
  | skip + 1, _ :: items => scan find pass skip items
  | 0, a :: items =>
    match find (a :: items) with
    | none => pass a :: scan find pass 0 items
    | some (out, n) => out ++ scan find pass (n - 1) items

variable {find : List α → Option (List β × ℕ)} {pass : α → β} {items : List α} {a : α}
  {out : List β} {n : ℕ}

@[simp] theorem scan_nil (skip : ℕ) : scan find pass skip [] = [] := by
  cases skip <;> rfl

theorem scan_skip (skip : ℕ) (items : List α) :
    scan find pass skip items = scan find pass 0 (items.drop skip) := by
  induction skip generalizing items with
  | zero => rfl
  | succ skip ih =>
    cases items with
    | nil => rfl
    | cons a items => exact ih items

theorem scan_none (h : find (a :: items) = none) :
    scan find pass 0 (a :: items) = pass a :: scan find pass 0 items := by
  rw [scan, h]

theorem scan_some (h : find (a :: items) = some (out, n)) (hn : 0 < n) :
    scan find pass 0 (a :: items) = out ++ scan find pass 0 ((a :: items).drop n) := by
  rw [scan, h]
  obtain ⟨n, rfl⟩ : ∃ m, n = m + 1 := ⟨n - 1, by omega⟩
  rw [List.drop_succ_cons, ← scan_skip]
  rfl

theorem drop_flatMap_length {write : α → List γ} (items : List α) (n : ℕ) :
    (items.flatMap write).drop ((items.take n).flatMap write).length =
      (items.drop n).flatMap write := by
  have hsplit : items.flatMap write =
      (items.take n).flatMap write ++ (items.drop n).flatMap write := by
    rw [← List.flatMap_append, List.take_append_drop]
  rw [hsplit, List.drop_left]

/-- What a text is written from is substituted as the text is: what is found among the items is
found in the text, and nothing is found inside the writing of an item. -/
theorem scan_flatMap {find' : List γ → Option (List δ × ℕ)} {pass' : γ → δ} {write : α → List γ}
    {write' : β → List δ} {items : List α} (hwrite : ∀ a, write a ≠ [])
    (hpass : ∀ a, (write a).map pass' = write' (pass a))
    (hfound : ∀ a rest out n, a :: rest <:+ items → find (a :: rest) = some (out, n) → 0 < n ∧
      find' ((a :: rest).flatMap write) =
        some (out.flatMap write', (((a :: rest).take n).flatMap write).length))
    (hnone : ∀ a rest x y, a :: rest <:+ items → find (a :: rest) = none → write a = x ++ y →
      y ≠ [] → find' (y ++ rest.flatMap write) = none) :
    scan find' pass' 0 (items.flatMap write) = (scan find pass 0 items).flatMap write' := by
  -- on the number of items, since a hit takes several of them
  induction hlength : items.length using Nat.strong_induction_on generalizing items with
  | _ length ih =>
    cases items with
    | nil => simp
    | cons a rest =>
      have hlater : ∀ k, 0 < k → scan find' pass' 0 (((a :: rest).drop k).flatMap write) =
          (scan find pass 0 ((a :: rest).drop k)).flatMap write' := by
        intro k hk
        have hsuffix := List.drop_suffix k (a :: rest)
        refine ih _ ?_ (fun b rest' out n h => hfound b rest' out n (h.trans hsuffix))
          (fun b rest' x y h => hnone b rest' x y (h.trans hsuffix)) rfl
        rw [← hlength, List.length_drop, List.length_cons]
        omega
      cases hfind : find (a :: rest) with
      | some found =>
        obtain ⟨out, n⟩ := found
        obtain ⟨hn, hfind'⟩ := hfound a rest out n List.suffix_rfl hfind
        have hskip : 0 < (((a :: rest).take n).flatMap write).length := by
          obtain ⟨m, rfl⟩ : ∃ m, n = m + 1 := ⟨n - 1, by omega⟩
          rw [List.take_succ_cons, List.flatMap_cons, List.length_append]
          exact Nat.add_pos_left (List.length_pos_iff.mpr (hwrite a)) _
        rw [scan_some hfind hn, List.flatMap_append, ← hlater n hn, ← drop_flatMap_length]
        obtain ⟨c, text, htext⟩ := List.exists_cons_of_ne_nil (l := (a :: rest).flatMap write)
          (by simp [hwrite a])
        rw [htext] at hfind' ⊢
        exact scan_some hfind' hskip
      | none =>
        -- no hit begins within what an item is written as
        have hwriting : ∀ x y, write a = x ++ y →
            scan find' pass' 0 (y ++ rest.flatMap write) =
              y.map pass' ++ scan find' pass' 0 (rest.flatMap write) := by
          intro x y hsplit
          induction y generalizing x with
          | nil => rfl
          | cons c y ihy =>
            have hnone' := hnone a rest x (c :: y) List.suffix_rfl hfind hsplit
              (List.cons_ne_nil _ _)
            rw [List.cons_append] at hnone'
            rw [List.cons_append, scan_none hnone', ihy (x ++ [c]) (by simp [hsplit])]
            rfl
        rw [scan_none hfind, List.flatMap_cons, List.flatMap_cons, hwriting [] _ rfl, hpass a]
        exact congrArg (write' (pass a) ++ ·) (hlater 1 Nat.one_pos)

end

/-! ### Where the items of a text begin -/

theorem flatMap_split_start {α γ : Type} {write : α → List γ} {d : γ}
    (hstart : ∀ a, d ∈ write a → ∃ tail, write a = d :: tail ∧ d ∉ tail)
    {items : List α} {x y : List γ} (h : items.flatMap write = x ++ d :: y) :
    ∃ before a tail after, items = before ++ a :: after ∧ write a = d :: tail ∧
      before.flatMap write = x ∧ y = tail ++ after.flatMap write := by
  induction items generalizing x with
  | nil => simp at h
  | cons a items ih =>
    rw [List.flatMap_cons] at h
    rcases List.append_eq_append_iff.mp h with ⟨z, rfl, hrest⟩ | ⟨z, hz, hrest⟩
    · obtain ⟨before, b, tail, after, rfl, hb, rfl, hy⟩ := ih hrest
      exact ⟨a :: before, b, tail, after, rfl, hb, rfl, hy⟩
    · cases z with
      | nil =>
        obtain ⟨before, b, tail, after, rfl, hb, hx, hy⟩ := ih (x := []) hrest.symm
        rw [List.append_nil] at hz
        refine ⟨a :: before, b, tail, after, rfl, hb, ?_, hy⟩
        rw [List.flatMap_cons, hx, hz, List.append_nil]
      | cons c z =>
        obtain ⟨rfl, rfl⟩ := List.cons.inj hrest
        obtain ⟨tail, htail, hnot⟩ := hstart a (by simp [hz])
        rw [htail] at hz
        cases x with
        | nil =>
          obtain ⟨-, rfl⟩ := List.cons.inj hz
          exact ⟨[], a, tail, items, rfl, htail, rfl, rfl⟩
        | cons c x =>
          obtain ⟨-, rfl⟩ := List.cons.inj hz
          exact absurd (List.mem_append_right x List.mem_cons_self) hnot

theorem flatMap_split {α γ : Type} {write : α → List γ} {a : α} {d : γ} (ha : write a = [d])
    (hothers : ∀ b, d ∈ write b → b = a) {items : List α} {x y : List γ}
    (h : items.flatMap write = x ++ d :: y) : ∃ before after, items = before ++ a :: after ∧
      before.flatMap write = x ∧ after.flatMap write = y := by
  have hstart : ∀ b, d ∈ write b → ∃ tail, write b = d :: tail ∧ d ∉ tail := by
    intro b hb
    rw [hothers b hb, ha]
    exact ⟨[], rfl, List.not_mem_nil⟩
  obtain ⟨before, b, tail, after, rfl, hb, rfl, rfl⟩ := flatMap_split_start hstart h
  obtain rfl : b = a := hothers b (by rw [hb]; exact List.mem_cons_self)
  rw [ha] at hb
  obtain ⟨-, rfl⟩ := List.cons.inj hb
  exact ⟨before, after, rfl, rfl, rfl⟩

theorem flatMap_injective {α γ : Type} {write : α → List γ}
    (hstarts : ∀ a b, write a <+: write b → a = b) (hne : ∀ a, write a ≠ [])
    {items items' : List α} (h : items.flatMap write = items'.flatMap write) : items = items' := by
  induction items generalizing items' with
  | nil =>
    cases items' with
    | nil => rfl
    | cons b items' =>
      rw [List.flatMap_nil, List.flatMap_cons] at h
      exact absurd (List.append_eq_nil_iff.mp h.symm).1 (hne b)
  | cons a items ih =>
    cases items' with
    | nil =>
      rw [List.flatMap_nil, List.flatMap_cons] at h
      exact absurd (List.append_eq_nil_iff.mp h).1 (hne a)
    | cons b items' =>
      rw [List.flatMap_cons, List.flatMap_cons] at h
      have hab : a = b := by
        have hleft : write a <+: write b ++ items'.flatMap write := by
          rw [← h]
          exact List.prefix_append _ _
        rcases List.prefix_or_prefix_of_prefix hleft (List.prefix_append _ _) with hpre | hpre
        · exact hstarts a b hpre
        · exact (hstarts b a hpre).symm
      subst hab
      rw [ih (List.append_cancel_left h)]

theorem scan_induction {α β : Type} {find : List α → Option (List β × ℕ)} {pass : α → β}
    {motive : List α → List β → Prop} (hnil : motive [] [])
    (hpass : ∀ a rest out, find (a :: rest) = none → motive rest out →
      motive (a :: rest) (pass a :: out))
    (hfound : ∀ a rest found n out, find (a :: rest) = some (found, n) →
      motive ((a :: rest).drop n) out → motive (a :: rest) (found ++ out))
    (hpos : ∀ a rest found n, find (a :: rest) = some (found, n) → 0 < n) (items : List α) :
    motive items (scan find pass 0 items) := by
  induction hlength : items.length using Nat.strong_induction_on generalizing items with
  | _ length ih =>
    cases items with
    | nil => exact hnil
    | cons a rest =>
      cases hfind : find (a :: rest) with
      | none =>
        rw [scan_none hfind]
        exact hpass a rest _ hfind (ih rest.length (by simp [← hlength]) rest rfl)
      | some found =>
        obtain ⟨found, n⟩ := found
        have hn := hpos a rest found n hfind
        rw [scan_some hfind hn]
        refine hfound a rest found n _ hfind (ih _ ?_ _ rfl)
        rw [← hlength, List.length_drop, List.length_cons]
        omega

theorem forall_scan {α β : Type} {find : List α → Option (List β × ℕ)} {pass : α → β}
    {P : α → Prop} {Q : β → Prop} (hpass : ∀ a, P a → Q (pass a))
    (hfound : ∀ items out n, (∀ a ∈ items, P a) → find items = some (out, n) → ∀ b ∈ out, Q b)
    {items : List α} (h : ∀ a ∈ items, P a) : ∀ b ∈ scan find pass 0 items, Q b := by
  have hskip : ∀ skip, ∀ b ∈ scan find pass skip items, Q b := by
    induction items with
    | nil =>
      intro skip b hb
      rw [scan_nil] at hb
      cases hb
    | cons a rest ih =>
      obtain ⟨ha, hrest⟩ := List.forall_mem_cons.mp h
      intro skip
      cases skip with
      | succ skip => exact ih hrest skip
      | zero =>
        rw [scan]
        split
        · exact List.forall_mem_cons.mpr ⟨hpass a ha, ih hrest 0⟩
        · rename_i out n hfind
          exact List.forall_mem_append.mpr ⟨hfound _ out n h hfind, ih hrest (n - 1)⟩
  exact hskip 0

/-! ### Patterns -/

/-- A match at the start of a text, with what is to replace it. -/
def replaced (p : Pattern) (replace : Hit → Text) (t : Text) : Option (Text × ℕ) :=
  (p.atStart t).map fun hit => (replace hit, hit.text.length)

/-- `re.sub`, of a pattern that matches no empty text -/
def sub (p : Pattern) (replace : Hit → Text) (t : Text) : Text :=
  scan (replaced p replace) id 0 t

end Substitution
