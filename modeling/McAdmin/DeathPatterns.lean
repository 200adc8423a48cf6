import Mathlib.Data.List.Infix
import McAdmin.GameEvents

/-!
# The pattern of a death message

What the pattern of one entry reads in a message: the name up to the first blank, a killer up to
the shortest end that follows it, and the weapon of the suffix.
-/

namespace GameEvents

open Backtracking

/-! ### Messages -/

/-- `[A-Za-z0-9_]{3,16}` -/
abbrev IsPlayer (player : Text) : Prop := Takes isNameChar 3 (some 16) player

structure IsKiller (u : CharTable) (k : Text) : Prop where
  nonempty : 1 ≤ k.length
  short : k.length ≤ 48
  unbroken : '\n' ∉ k
  unweaponed : ¬ " using ".toList <:+: k
  leading : ∀ c ∈ k.head?, u.isSpace c = false
  trailing : ∀ c ∈ k.getLast?, u.isSpace c = false

def weaponText : Option Text → Text
  | none => []
  | some w => " using [".toList ++ (w ++ [']'])

def Death.rest (d : Death) (k : Text) (weapon : Option Text) : Text :=
  match d.afterKiller with
  | none => weaponText weapon
  | some after => k ++ (after.toList ++ weaponText weapon)

theorem Death.rest_bare {d : Death} (hd : d.afterKiller = none) (k : Text)
    (weapon : Option Text) : d.rest k weapon = weaponText weapon := by
  unfold Death.rest
  rw [hd]

theorem Death.rest_killer {d : Death} {after : String} (hd : d.afterKiller = some after)
    (k : Text) (weapon : Option Text) :
    d.rest k weapon = k ++ (after.toList ++ weaponText weapon) := by
  unfold Death.rest
  rw [hd]

theorem Death.names {d : Death} {after : String} (hd : d.afterKiller = some after) :
    d.afterKiller ≠ none := by
  rw [hd]
  exact Option.some_ne_none after

def Death.message (d : Death) (player k : Text) (weapon : Option Text) : Text :=
  player ++ ' ' :: (d.text.toList ++ d.rest k weapon)

/-- `hh:mm:ss` -/
structure IsTime (u : CharTable) (time : Text) : Prop where
  digits : ∃ h₁ h₂ m₁ m₂ s₁ s₂, time = [h₁, h₂, ':', m₁, m₂, ':', s₁, s₂] ∧
    ∀ c ∈ [h₁, h₂, m₁, m₂, s₁, s₂], u.isDecimal c = true

def Death.fact (d : Death) (player k : Text) (weapon : Option Text) : GameEvent :=
  let named := if d.afterKiller = none then [] else k
  { kind := .death, player, key := d.key, cause := d.cause, killer := named,
    killerId := entityId named, weapon := weapon.getD [], raw := d.message player k weapon }

/-! ### The end of a message -/

def tailRe : Pattern :=
  .opt (.str " using " ++ .opt (.str "[") ++ .group (.many true notBracket 1 none) ++
    .opt (.str "]")) ++ .stop

def Tail (t : Text) : Prop :=
  t = [] ∨ ∃ w, w ≠ [] ∧ ']' ∉ w ∧
    (t = " using ".toList ++ w ∨ t = " using ".toList ++ (w ++ [']']))

section

variable {t w : Text} {h : Hit}

theorem takes_weapon (hw : ']' ∉ w) (hne : w ≠ []) : Takes notBracket 1 none w :=
  ⟨all_ne hw, List.length_pos_of_ne_nil hne, fun _ hn => absurd hn (Option.not_mem_none _)⟩

theorem opt_str_hit {text : String} (hmem : h ∈ (Pattern.opt (.str text)).hits t) :
    t = text.toList ++ h.rest ∨ t = h.rest := by
  rcases mem_hits_opt.mp hmem with hmem | rfl
  · exact .inl (mem_hits_lit.mp hmem).2.2
  · exact .inr rfl

theorem tail_of_hit (hbreak : '\n' ∉ t) (hmem : h ∈ tailRe.hits t) : Tail t := by
  unfold tailRe at hmem
  obtain ⟨suffix, hsuffix, final, hfinal, rfl⟩ := mem_hits_append.mp hmem
  have hend := (mem_hits_stop.mp hfinal).2
  rcases mem_hits_opt.mp hsuffix with hsuffix | rfl
  · obtain ⟨h₁, hmem₁, close, hclose, rfl⟩ := mem_hits_append.mp hsuffix
    obtain ⟨h₂, hmem₂, weapon, hweapon, rfl⟩ := mem_hits_append.mp hmem₁
    obtain ⟨word, hword, bracket, hbracket, rfl⟩ := mem_hits_append.mp hmem₂
    obtain ⟨weapon', hweapon', rfl⟩ := mem_hits_group.mp hweapon
    obtain ⟨hsplit, -, hall, hleast, -⟩ := mem_hits_many.mp hweapon'
    have hw : ']' ∉ weapon'.text := fun h => absurd (hall _ h) (by decide)
    have hne : weapon'.text ≠ [] := List.ne_nil_of_length_pos hleast
    have hword := (mem_hits_lit.mp hword).2.2
    have hbracket := opt_str_hit hbracket
    have hclose := opt_str_hit hclose
    simp only at hsplit hbracket hclose hend
    have hrest : close.rest = [] := by
      rcases hend with hend | hend
      · exact hend
      · refine absurd ?_ hbreak
        have hlast : '\n' ∈ weapon'.rest := by
          rcases hclose with hclose | hclose <;> rw [hclose, hend] <;> simp
        have hlast' : '\n' ∈ bracket.rest := by
          rw [hsplit]
          exact List.mem_append_right _ hlast
        rw [hword]
        apply List.mem_append_right
        rcases hbracket with hbracket | hbracket <;> rw [hbracket]
        · exact List.mem_append_right _ hlast'
        · exact hlast'
    rw [hrest, List.append_nil] at hclose
    -- an opening bracket can as well belong to the weapon
    have hwhole : ∃ w, w ≠ [] ∧ ']' ∉ w ∧ word.rest = w ++ weapon'.rest := by
      rcases hbracket with hbracket | hbracket
      · refine ⟨'[' :: weapon'.text, List.cons_ne_nil _ _, ?_, ?_⟩
        · simpa using hw
        · rw [hbracket, hsplit]
          rfl
      · exact ⟨weapon'.text, hne, hw, hbracket.trans hsplit⟩
    obtain ⟨w, hne, hw, hwhole⟩ := hwhole
    refine .inr ⟨w, hne, hw, ?_⟩
    rw [hword, hwhole]
    rcases hclose with hclose | hclose
    · exact .inr (by rw [hclose]; rfl)
    · exact .inl (by rw [hclose, List.append_nil])
  · rcases hend with hend | hend
    · exact .inl hend
    · have ht : t = ['\n'] := hend
      rw [ht] at hbreak
      exact absurd List.mem_cons_self hbreak

def weaponRe : Pattern := .group (.many true notBracket 1 none) ++ (.opt (.str "]") ++ .stop)

theorem atStart_close : (.opt (.str "]") ++ .stop : Pattern).atStart [']'] =
    some ⟨[']'], [], []⟩ := rfl

theorem atStart_close_none {c : Char} (hc : c ≠ ']') (ht : t ≠ []) :
    (.opt (.str "]") ++ .stop : Pattern).atStart (c :: t) = none := by
  by_contra hne
  obtain ⟨h, hmem⟩ := atStart_ne_none.mp hne
  obtain ⟨close, hclose, final, hfinal, rfl⟩ := mem_hits_append.mp hmem
  have hend := (mem_hits_stop.mp hfinal).2
  rcases opt_str_hit hclose with hopen | hopen
  · exact hc (List.cons.inj hopen).1
  · rw [← hopen] at hend
    rcases hend with hend | hend
    · cases hend
    · exact ht (List.cons.inj hend).2

theorem atStart_weapon (hw : ']' ∉ w) (hne : w ≠ []) :
    weaponRe.atStart (w ++ [']']) = some ⟨w ++ [']'], [some w], []⟩ := by
  unfold weaponRe
  rw [atStart_many_of_unique (takes_weapon hw hne), atStart_close]
  · rfl
  · intro k rest hsplit hk hdiffers
    obtain ⟨c, more, rfl, hc⟩ :=
      cut_in_class (by decide) hk.all hsplit hdiffers
    refine atStart_close_none ?_ (by simp)
    rintro rfl
    exact hw hc

theorem atStart_weapon_nil : weaponRe.atStart [']'] = none := by decide

theorem atStart_tail (t : Text) : tailRe.atStart t =
    ((.str " using " ++ (.opt (.str "[") ++ weaponRe) : Pattern).atStart t).or
      ((Pattern.stop.atStart t).map (Hit.join ⟨[], [none], t⟩)) := by
  unfold tailRe weaponRe
  rw [atStart_opt_append, atStart_append_assoc, atStart_append_assoc, atStart_append_assoc]
  rfl

def readWeapon : Option Text → Option Text
  | none => none
  | some [] => some ['[']
  | some w => some w

theorem atStart_tail_weapon {weapon : Option Text} (hweapon : ∀ w ∈ weapon, ']' ∉ w) :
    tailRe.atStart (weaponText weapon) =
      some ⟨weaponText weapon, [readWeapon weapon], []⟩ := by
  cases weapon with
  | none => rfl
  | some w =>
    have hw := hweapon w rfl
    have htext : weaponText (some w) = " using ".toList ++ ("[".toList ++ (w ++ [']'])) := rfl
    rw [atStart_tail, htext, Pattern.str, atStart_lit_append, atStart_opt_append, Pattern.str,
      atStart_lit_append]
    cases w with
    | nil =>
      -- the opening bracket stands for the weapon that is missing
      have hbracket := atStart_weapon (show ']' ∉ ['['] by decide) (List.cons_ne_nil _ _)
      rw [List.nil_append, atStart_weapon_nil, Option.map_none, Option.none_or,
        show "[".toList = ['['] from rfl, hbracket]
      rfl
    | cons c w =>
      rw [atStart_weapon hw (List.cons_ne_nil c w)]
      rfl

theorem atStart_tail_bare (hw : ']' ∉ w) (hne : w ≠ []) :
    tailRe.atStart (" using ".toList ++ (w ++ [']'])) ≠ none := by
  have hweapon : weaponRe.atStart (w ++ [']']) ≠ none := by
    rw [atStart_weapon hw hne]
    exact Option.some_ne_none _
  have hsuffix : (.str " using " ++ (.opt (.str "[") ++ weaponRe) : Pattern).atStart
      (" using ".toList ++ (w ++ [']'])) ≠ none :=
    (leaves_lit " using ".toList _).followed ((leaves_opt _ _).followed hweapon)
  obtain ⟨h, hh⟩ := Option.ne_none_iff_exists'.mp hsuffix
  rw [atStart_tail, hh]
  exact Option.some_ne_none _

end

/-! ### One entry on a text -/

section

variable {d : Death} {player r : Text}

theorem atStart_deathRe (hplayer : IsPlayer player) (r : Text) :
    (deathRe d).atStart (player ++ ' ' :: r) = ((d.pattern ++ tailRe).atStart r).map fun h =>
      ⟨player ++ ' ' :: h.text, some player :: h.captures, h.rest⟩ := by
  have hassoc : (deathRe d).atStart (player ++ ' ' :: r) =
      (.group name ++ (.str " " ++ (d.pattern ++ tailRe)) : Pattern).atStart
        (player ++ ' ' :: r) := by
    unfold deathRe tailRe
    rw [atStart_append_assoc, atStart_append_assoc, atStart_append_assoc]
  have hblank : (.str " " ++ (d.pattern ++ tailRe) : Pattern).atStart (' ' :: r) =
      ((d.pattern ++ tailRe).atStart r).map (Hit.join ⟨[' '], [], r⟩) :=
    atStart_lit_append [' '] r _
  rw [hassoc, name, atStart_many_of_unique hplayer, hblank, Option.map_map]
  · congr 1
  · intro k rest hsplit hk hdiffers
    obtain ⟨c, more, rfl, hc⟩ := cut_in_class (by decide) hk.all hsplit hdiffers
    refine (starts_lit ' ' []).append.atStart_eq_none ?_ _
    rw [beq_eq_false_iff_ne]
    rintro rfl
    exact absurd (hplayer.all _ hc) (by decide)

theorem atStart_pattern_none (h : ¬ d.text.toList <+: r) :
    (d.pattern ++ tailRe).atStart r = none := by
  unfold Death.pattern
  cases d.afterKiller with
  | none => exact atStart_lit_append_none _ h
  | some after =>
    simp only
    rw [atStart_append_assoc, atStart_append_assoc]
    exact atStart_lit_append_none _ h

theorem atStart_pattern_bare (hd : d.afterKiller = none) (r : Text) :
    (d.pattern ++ tailRe).atStart (d.text.toList ++ r) =
      (tailRe.atStart r).map (Hit.join ⟨d.text.toList, [], r⟩) := by
  unfold Death.pattern
  rw [hd]
  exact atStart_lit_append _ _ _

def killerRe (after : String) : Pattern := .group killer ++ (.str after ++ tailRe)

theorem atStart_pattern_killer {after : String} (hd : d.afterKiller = some after) (r : Text) :
    (d.pattern ++ tailRe).atStart (d.text.toList ++ r) =
      ((killerRe after).atStart r).map (Hit.join ⟨d.text.toList, [], r⟩) := by
  unfold Death.pattern killerRe
  rw [hd]
  simp only
  rw [atStart_append_assoc, atStart_append_assoc]
  exact atStart_lit_append _ _ _

end

/-! ### Where a killer ends -/

section

variable {u : CharTable} {k t : Text} {after : String} {weapon : Option Text}

theorem weaponText_starts (weapon : Option Text) :
    weaponText weapon = [] ∨ ∃ more, weaponText weapon = ' ' :: more := by
  cases weapon with
  | none => exact .inl rfl
  | some w => exact .inr ⟨_, rfl⟩

theorem using_border {left right more : Text} (h : left ++ right = " using ".toList ++ more)
    (hleft : ¬ " using ".toList <:+: left) (hright : right = [] ∨ ∃ more, right = ' ' :: more) :
    left = [] ∨ left = " using".toList ∧ right = ' ' :: more := by
  have hshort : left.length < 7 := by
    by_contra hlong
    have hwhole : " using ".toList <+: left ++ right := h ▸ List.prefix_append _ _
    exact hleft (List.prefix_of_prefix_length_le hwhole (List.prefix_append left right)
      (Nat.le_of_not_lt hlong)).isInfix
  have htake : left = " using ".toList.take left.length := by
    have htaken := congrArg (List.take left.length) h
    rwa [List.take_left, List.take_append_of_le_length (Nat.le_of_lt hshort)] at htaken
  rcases hright with rfl | ⟨right, rfl⟩
  · have hlength := congrArg List.length h
    rw [List.append_nil, List.length_append] at hlength
    change left.length = 7 + more.length at hlength
    omega
  · have hget : (" using ".toList ++ more)[left.length]? = some ' ' := by
      rw [← h, List.getElem?_append_right (Nat.le_refl _), Nat.sub_self]
      rfl
    rw [List.getElem?_append_left hshort] at hget
    have hplace : left.length = 0 ∨ left.length = 6 := by
      have hletters : ∀ n < 7, " using ".toList[n]? = some ' ' → n = 0 ∨ n = 6 := by decide
      exact hletters _ hshort hget
    rcases hplace with hzero | hsix
    · exact .inl (List.eq_nil_of_length_eq_zero hzero)
    · rw [hsix] at htake
      refine .inr ⟨htake, ?_⟩
      rw [htake] at h
      have hcut : " using".toList ++ ' ' :: right = " using".toList ++ ' ' :: more := h
      exact List.append_cancel_left hcut

theorem atStart_after {rest : Text} {h : Hit}
    (hfound : (.str after ++ tailRe : Pattern).atStart rest = some h) :
    ∃ t h', rest = after.toList ++ t ∧ tailRe.atStart t = some h' ∧ h.captures = h'.captures := by
  by_cases hstarts : after.toList <+: rest
  · obtain ⟨t, rfl⟩ := hstarts
    rw [Pattern.str, atStart_lit_append] at hfound
    obtain ⟨h', hh', rfl⟩ := Option.map_eq_some_iff.mp hfound
    exact ⟨t, h', rfl, hh', rfl⟩
  · rw [Pattern.str, atStart_lit_append_none _ hstarts] at hfound
    cases hfound

theorem atStart_killerRe_ne_none (hk : Takes isDot 1 (some 48) k)
    (ht : tailRe.atStart t ≠ none) :
    (killerRe after).atStart (k ++ (after.toList ++ t)) ≠ none :=
  (leaves_many false hk _).group.followed ((leaves_lit after.toList t).followed ht)

theorem takes_killer (hne : k ≠ []) (hunbroken : '\n' ∉ k) (hshort : k.length ≤ 48) :
    Takes isDot 1 (some 48) k := by
  refine ⟨all_ne hunbroken, List.length_pos_of_ne_nil hne, fun n hn => ?_⟩
  rw [← Option.some.inj hn]
  exact hshort

theorem IsKiller.takes (hk : IsKiller u k) : Takes isDot 1 (some 48) k :=
  takes_killer (List.ne_nil_of_length_pos hk.nonempty) hk.unbroken hk.short

theorem not_mem_weaponText (hweapon : ∀ w ∈ weapon, '\n' ∉ w) : '\n' ∉ weaponText weapon := by
  cases weapon with
  | none => exact List.not_mem_nil
  | some w =>
    intro hmem
    rcases List.mem_append.mp hmem with hmem | hmem
    · exact absurd hmem (by decide)
    · rcases List.mem_append.mp hmem with hmem | hmem
      · exact hweapon w rfl hmem
      · exact absurd hmem (by decide)

abbrev After (after : String) : Prop := after = "" ∨ after = " using magic"

theorem using_of_end {rest : Text} (hafter : After after) (hbreak : '\n' ∉ rest)
    (hrest : (.str after ++ tailRe : Pattern).atStart rest ≠ none) :
    (after = "" ∧ rest = []) ∨ ∃ more, rest = " using ".toList ++ more ∧
      (after = " using magic" → "magic".toList <+: more) := by
  obtain ⟨h, hfound⟩ := Option.ne_none_iff_exists'.mp hrest
  obtain ⟨t, h', rfl, ht, -⟩ := atStart_after hfound
  rcases hafter with rfl | rfl
  · rcases tail_of_hit hbreak (List.mem_of_mem_head? ht) with rfl | ⟨w, -, -, rfl | rfl⟩
    · exact .inl ⟨rfl, rfl⟩
    · exact .inr ⟨w, rfl, fun h => absurd h (by decide)⟩
    · exact .inr ⟨w ++ [']'], rfl, fun h => absurd h (by decide)⟩
  · exact .inr ⟨"magic".toList ++ t, rfl, fun _ => List.prefix_append _ _⟩

theorem atStart_killerRe (hk : IsKiller u k) (hafter : After after)
    (hclosed : ∀ w ∈ weapon, ']' ∉ w) (hweapon : ∀ w ∈ weapon, '\n' ∉ w)
    (hends : after = "" → weapon ≠ none → ¬ " using".toList <:+ k) :
    (killerRe after).atStart (k ++ (after.toList ++ weaponText weapon)) =
      some ⟨k ++ (after.toList ++ weaponText weapon), [some k, readWeapon weapon], []⟩ := by
  have htail : (.str after ++ tailRe : Pattern).atStart (after.toList ++ weaponText weapon) =
      some ⟨after.toList ++ weaponText weapon, [readWeapon weapon], []⟩ := by
    rw [Pattern.str, atStart_lit_append, atStart_tail_weapon hclosed]
    rfl
  unfold killerRe
  rw [killer, atStart_lazy hk.takes _ htail]
  · rfl
  · intro k' rest' hsplit hk' hshorter
    by_contra hrest
    rcases List.append_eq_append_iff.mp hsplit with ⟨more, rfl, -⟩ | ⟨left, rfl, rfl⟩
    · rw [List.length_append] at hshorter
      omega
    have hleft : left ≠ [] := by
      rintro rfl
      rw [List.append_nil] at hshorter
      exact Nat.lt_irrefl _ hshorter
    have hbreak : '\n' ∉ left ++ (after.toList ++ weaponText weapon) := by
      intro hmem
      rcases List.mem_append.mp hmem with hmem | hmem
      · exact hk.unbroken (List.mem_append_right _ hmem)
      · rcases List.mem_append.mp hmem with hmem | hmem
        · rcases hafter with rfl | rfl <;> exact absurd hmem (by decide)
        · exact not_mem_weaponText hweapon hmem
    rcases using_of_end hafter hbreak hrest with ⟨-, hnil⟩ | ⟨more, husing, hmagic⟩
    · exact hleft (List.append_eq_nil_iff.mp hnil).1
    have hunweaponed : ¬ " using ".toList <:+: left := fun hin =>
      hk.unweaponed (hin.trans (List.suffix_append k' left).isInfix)
    rcases hafter with rfl | rfl
    · rcases using_border husing hunweaponed (weaponText_starts weapon) with hnil | ⟨rfl, hblank⟩
      · exact hleft hnil
      · refine hends rfl ?_ (List.suffix_append k' _)
        rintro rfl
        exact absurd hblank (List.cons_ne_nil _ _).symm
    · rcases using_border husing hunweaponed (.inr ⟨_, rfl⟩) with hnil | ⟨rfl, hblank⟩
      · exact hleft hnil
      · -- the word after the blank is not the word that the entry asks for
        obtain ⟨more, rfl⟩ := hmagic rfl
        exact absurd (List.cons.inj (List.cons.inj hblank).2).1 (by decide)

theorem killerRe_reads {found : Hit} (hk : IsKiller u k) (hclosed : ∀ w ∈ weapon, ']' ∉ w)
    (hfound : (killerRe after).atStart (k ++ (after.toList ++ weaponText weapon)) = some found)
    (hkiller : found.captures.head? = some (some k)) :
    found.captures = [some k, readWeapon weapon] ∧
      (after = "" → weapon ≠ none → ¬ " using".toList <:+ k) := by
  unfold killerRe at hfound
  obtain ⟨k', rest, h, hsplit, -, hh, rfl, hleast⟩ := lazy_shortest hfound
  obtain rfl : k' = k := Option.some.inj (Option.some.inj hkiller)
  obtain rfl := List.append_cancel_left hsplit
  constructor
  · rw [Pattern.str, atStart_lit_append, atStart_tail_weapon hclosed] at hh
    obtain rfl := Option.some.inj hh
    rfl
  · rintro rfl hsome ⟨left, rfl⟩
    obtain ⟨w, rfl⟩ := Option.ne_none_iff_exists'.mp hsome
    have hw := hclosed w rfl
    have hnonempty : left ≠ [] := by
      rintro rfl
      have hblank := hk.leading ' ' rfl
      rw [u.isSpace_ascii ' ' (by decide)] at hblank
      exact absurd hblank (by decide)
    have htakes : Takes isDot 1 (some 48) left :=
      takes_killer hnonempty (fun hmem => hk.unbroken (List.mem_append_left _ hmem))
        (Nat.le_trans (List.prefix_append left _).length_le hk.short)
    have hbare : (.str "" ++ tailRe : Pattern).atStart
        (" using ".toList ++ (("using [".toList ++ w) ++ [']'])) ≠ none := by
      have hclosed' : ']' ∉ "using [".toList ++ w := by
        intro hmem
        rcases List.mem_append.mp hmem with hmem | hmem
        · exact absurd hmem (by decide)
        · exact hw hmem
      have htail := atStart_tail_bare hclosed' (List.append_ne_nil_of_left_ne_nil (by decide) w)
      exact (leaves_lit [] _).followed htail
    have hshorter := hleast left _ (by rw [List.append_assoc]; rfl) htakes hbare
    rw [List.length_append] at hshorter
    change left.length + 6 ≤ left.length at hshorter
    omega

end

end GameEvents
