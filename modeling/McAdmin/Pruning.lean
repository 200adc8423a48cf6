import Mathlib.Order.WellFoundedSet

/-!
# Pruning what is dominated

A store from which elements are pruned as time passes: one that is due goes when it has
expired, or when the store holds another that dominates it.  Pruning early changes nothing
of what a later pruning leaves.
-/

namespace Pruning

structure Rule (τ α : Type) [Preorder τ] where
  dominates : α → α → Prop
  irrefl : ∀ a, ¬ dominates a a
  trans : ∀ {a b c}, dominates a b → dominates b c → dominates a c
  due : τ → α → Prop
  due_mono : ∀ {t t' a}, t ≤ t' → due t a → due t' a
  expired : τ → α → Prop
  expired_mono : ∀ {t t' a}, t ≤ t' → expired t a → expired t' a
  /-- What is dominated expires first. -/
  expired_dominated : ∀ {t a b}, dominates b a → expired t b → expired t a

variable {τ α : Type} [Preorder τ] {R : Rule τ α} {t later : τ} {all current next : Set α} {a : α}

def Rule.Condemned (R : Rule τ α) (t : τ) (s : Set α) (a : α) : Prop :=
  R.due t a ∧ (R.expired t a ∨ ∃ b ∈ s, R.dominates b a)

/-- What a pruning leaves. -/
def Rule.left (R : Rule τ α) (t : τ) (s : Set α) : Set α := {a ∈ s | ¬ R.Condemned t s a}

/-- All that is missing of the first set is condemned in it. -/
structure Rule.Pruned (R : Rule τ α) (t : τ) (all current : Set α) : Prop where
  subset : current ⊆ all
  condemned : ∀ a ∈ all, a ∉ current → R.Condemned t all a

theorem Rule.Condemned.mono (htime : t ≤ later) (hsubset : current ⊆ all)
    (h : R.Condemned t current a) : R.Condemned later all a := by
  rcases h with ⟨hdue, hexpired | ⟨b, hb, hdominates⟩⟩
  · exact ⟨R.due_mono htime hdue, .inl (R.expired_mono htime hexpired)⟩
  · exact ⟨R.due_mono htime hdue, .inr ⟨b, hsubset hb, hdominates⟩⟩

/-- In a finite set, what dominates an element is itself dominated by something that
nothing dominates. -/
theorem Rule.exists_top (R : Rule τ α) {s : Set α} (hfinite : s.Finite) {b : α} (hb : b ∈ s)
    (hdominates : R.dominates b a) :
    ∃ c ∈ s, R.dominates c a ∧ ∀ d ∈ s, ¬ R.dominates d c := by
  have : IsStrictOrder α (fun a b => R.dominates a b) :=
    { irrefl := R.irrefl, trans := fun _ _ _ => R.trans }
  have hwell : s.WellFoundedOn R.dominates := hfinite.wellFoundedOn
  have htops := hwell.has_min {c : s | R.dominates c a} ⟨⟨b, hb⟩, hdominates⟩
  rcases htops with ⟨c, hc, hmin⟩
  refine ⟨c, c.2, hc, ?_⟩
  intro d hd hdc
  exact hmin ⟨d, hd⟩ (R.trans hdc hc) hdc

/-- Pruning takes no condemnation away. -/
theorem Rule.Condemned.of_pruned (hfinite : all.Finite) (hpruned : R.Pruned t all current)
    (h : R.Condemned t all a) : R.Condemned t current a := by
  rcases h with ⟨hdue, hexpired | ⟨b, hb, hdominates⟩⟩
  · exact ⟨hdue, .inl hexpired⟩
  rcases R.exists_top hfinite hb hdominates with ⟨c, hc, hca, htop⟩
  by_cases hcurrent : c ∈ current
  · exact ⟨hdue, .inr ⟨c, hcurrent, hca⟩⟩
  rcases (hpruned.condemned c hc hcurrent).2 with hexpired | ⟨d, hd, hdc⟩
  · exact ⟨hdue, .inl (R.expired_dominated hca hexpired)⟩
  · exact absurd hdc (htop d hd)

theorem Rule.Pruned.refl (R : Rule τ α) (t : τ) (s : Set α) : R.Pruned t s s :=
  ⟨Set.Subset.rfl, fun _ hmem hmissing => absurd hmem hmissing⟩

/-- An element arrives. -/
theorem Rule.Pruned.insert (h : R.Pruned t all current) (a : α) :
    R.Pruned t (insert a all) (insert a current) := by
  refine ⟨Set.insert_subset_insert h.subset, ?_⟩
  intro b hb hmissing
  rcases Set.mem_insert_iff.mp hb with rfl | hb
  · exact absurd (Set.mem_insert b current) hmissing
  · have hgone : b ∉ current := fun hmem => hmissing (Set.mem_insert_of_mem a hmem)
    exact (h.condemned b hb hgone).mono le_rfl (Set.subset_insert a all)

/-- A pruning that is made no later, and of which some elements may be spared. -/
theorem Rule.Pruned.trans (h : R.Pruned later all current) (htime : t ≤ later)
    (hnext : R.Pruned t current next) : R.Pruned later all next := by
  refine ⟨hnext.subset.trans h.subset, ?_⟩
  intro a ha hmissing
  by_cases hcurrent : a ∈ current
  · exact (hnext.condemned a hcurrent hmissing).mono htime h.subset
  · exact h.condemned a ha hcurrent

/-- The prunings made before leave the last one as much. -/
theorem Rule.Pruned.left_eq (hfinite : all.Finite) (h : R.Pruned t all current) :
    R.left t current = R.left t all := by
  ext a
  constructor
  · rintro ⟨hcurrent, hspared⟩
    exact ⟨h.subset hcurrent, fun hcondemned => hspared (hcondemned.of_pruned hfinite h)⟩
  · rintro ⟨hall, hspared⟩
    have hcurrent : a ∈ current := by
      by_contra hmissing
      exact hspared (h.condemned a hall hmissing)
    exact ⟨hcurrent, fun hcondemned => hspared (hcondemned.mono le_rfl h.subset)⟩

end Pruning
