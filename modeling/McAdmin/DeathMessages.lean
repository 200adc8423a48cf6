import Mathlib.Data.List.Nodup
import Mathlib.Tactic.MkIffOfInductiveProp
import McAdmin.DeathPatterns

/-!
# Death messages read back

The table renders a death as the victim's name, the text of its entry, the killer when the
entry names one, and the weapon.  An entry reads its own messages back unless an entry before it
reads them first, or the killer or the weapon can be cut elsewhere.
-/

namespace GameEvents

open Backtracking

/-! ### The table -/

/-- An entry with a killer reads the text of the entry as its own and a killer. -/
def Shadowed (d : Death) : Prop :=
  ∃ e ∈ deaths, e.afterKiller = some "" ∧ e.text.toList <+: d.text.toList

instance (d : Death) : Decidable (Shadowed d) := List.decidableBEx _ _

def Death.stem (d : Death) : Text :=
  match d.afterKiller with
  | none => d.text.toList ++ " using [".toList
  | some _ => d.text.toList

@[mk_iff]
structure Death.WellFormed (d : Death) : Prop where
  after : ∀ after ∈ d.afterKiller, After after
  by_magic : d.key = "magic_by" →
    d.text = "was killed by " ∧ d.afterKiller = some " using magic"
  killed : d.key = "killed_by" → d.text = "was killed by " ∧ d.afterKiller = some ""
  unbroken : '\n' ∉ d.text.toList
  /-- The text is not that of an advancement. -/
  starts : ¬ ("has ".toList <+: d.text.toList ∨ d.text.toList <+: "has ".toList)
  ends : d.afterKiller = none → d.text.toList.getLast?.any Char.isAlpha = true

instance (d : Death) : Decidable d.WellFormed := decidable_of_iff' _ d.wellFormed_iff

@[mk_iff]
structure Ordered (table : List Death) : Prop where
  entries : ∀ d ∈ table, d.WellFormed
  keys : (table.map Death.key).Nodup
  killers_first : table.Pairwise fun e d => e.afterKiller = none → d.afterKiller = none
  /-- An entry opens no message of a later one unless it reads a killer in a text without. -/
  apart : table.Pairwise fun e d => e.text.toList <+: d.stem ∨ d.stem <+: e.text.toList →
    (e.key = "magic_by" ∧ d.key = "killed_by") ∨ (d.afterKiller = none ∧ Shadowed d)
  /-- What an entry reads as a killer in the text of another is neither empty nor too long. -/
  shadows : ∀ d ∈ table, ∀ e ∈ table, d.afterKiller = none → e.afterKiller = some "" →
    e.text.toList <+: d.text.toList → e.text.toList.length < d.text.toList.length ∧
      d.text.toList.length ≤ e.text.toList.length + 48

instance (table : List Death) : Decidable (Ordered table) :=
  decidable_of_iff' _ (ordered_iff table)

theorem deaths_ordered : Ordered deaths := by decide +kernel

example : (deaths.filter fun d => decide (d.afterKiller = none ∧ Shadowed d)).map Death.key =
    ["anvil", "falling_block", "more_magic", "magic"] := by
  decide +kernel

/-! ### The entries before -/

section

variable {u : CharTable} {d e : Death} {player k : Text} {weapon : Option Text}
  {before later : List Death}

theorem mem_of_split (hsplit : deaths = before ++ d :: later) : d ∈ deaths := by
  rw [hsplit]
  exact List.mem_append_right _ List.mem_cons_self

theorem before_of_listed (hsplit : deaths = before ++ d :: later) (he : e ∈ deaths) (hne : e ≠ d)
    (hlater : e ∉ later) : e ∈ before := by
  rw [hsplit] at he
  refine (List.mem_append.mp he).resolve_right fun hrest => ?_
  exact (List.mem_cons.mp hrest).elim hne hlater

theorem stem_or_text {t : Text} (h : t <+: d.text.toList ++ d.rest k weapon) :
    t <+: d.stem ∨ d.stem <+: t := by
  unfold Death.stem
  cases hafter : d.afterKiller with
  | some after => exact List.prefix_or_prefix_of_prefix h (List.prefix_append _ _)
  | none =>
    rw [Death.rest_bare hafter] at h
    cases weapon with
    | none =>
      have hwhole : d.text.toList ++ weaponText none = d.text.toList := List.append_nil _
      rw [hwhole] at h
      exact .inl (h.trans (List.prefix_append _ _))
    | some w =>
      have hwhole : d.text.toList ++ weaponText (some w) =
          (d.text.toList ++ " using [".toList) ++ (w ++ [']']) :=
        (List.append_assoc _ _ _).symm
      rw [hwhole] at h
      exact List.prefix_or_prefix_of_prefix h (List.prefix_append _ _)

/-- A weapon that `was killed by .. using magic` reads as its end. -/
def ByMagic (k : Text) (weapon : Option Text) : Prop :=
  ∃ a b, weapon = some (a ++ (" using magic using ".toList ++ b)) ∧ b ≠ [] ∧
    k.length + 8 + a.length ≤ 48

theorem mem_of_last {c : Char} {w left right : Text} (h : w ++ [c] = left ++ right)
    (hright : right ≠ []) : c ∈ right := by
  have hlast := congrArg List.getLast? h
  rw [List.getLast?_append_of_ne_nil _ hright, List.getLast?_concat] at hlast
  exact List.mem_of_getLast? hlast.symm

theorem weapon_by_magic {w a t : Text} (h : w ++ [']'] = a ++ (" using magic".toList ++ t))
    (ht : Tail t) : ∃ b, b ≠ [] ∧ w = a ++ (" using magic using ".toList ++ b) := by
  have hcut : " using magic using ".toList = " using magic".toList ++ " using ".toList := rfl
  rcases ht with rfl | ⟨b, hb, hclosed, rfl | rfl⟩
  · exact absurd (mem_of_last h (by decide)) (by decide)
  · have hwhole : w ++ [']'] = (a ++ " using magic using ".toList) ++ b := by
      rw [h, hcut]
      simp only [List.append_assoc]
    exact absurd (mem_of_last hwhole hb) hclosed
  · have hwhole : w ++ [']'] = (a ++ (" using magic using ".toList ++ b)) ++ [']'] := by
      rw [h, hcut]
      simp only [List.append_assoc]
    exact ⟨b, hb, List.append_cancel_right hwhole⟩

theorem magic_in_weapon {w left t : Text}
    (h : " using [".toList ++ (w ++ [']']) = left ++ (" using magic".toList ++ t)) :
    ∃ a, left = " using [".toList ++ a ∧ w ++ [']'] = a ++ (" using magic".toList ++ t) := by
  rcases List.append_eq_append_iff.mp h with ⟨a, hleft, hright⟩ | ⟨more, hopen, hright⟩
  · exact ⟨a, hleft, hright⟩
  · have hplace : more ∈ " using [".toList.tails := (List.mem_tails _ _).mpr ⟨left, hopen.symm⟩
    have hapart : ∀ more ∈ " using [".toList.tails, more <+: " using magic".toList ∨
        " using magic".toList <+: more → more = [] := by decide
    have hboth : more <+: " using magic".toList ∨ " using magic".toList <+: more :=
      List.prefix_or_prefix_of_prefix ⟨_, hright.symm⟩ (List.prefix_append _ t)
    obtain rfl := hapart more hplace hboth
    rw [List.append_nil] at hopen
    rw [List.nil_append] at hright
    exact ⟨[], by rw [hopen, List.append_nil], hright.symm⟩

theorem magic_not_at_border {left t : Text}
    (h : left ++ weaponText weapon = " using magic".toList ++ t)
    (hleft : ¬ " using ".toList <:+: left) : False := by
  rcases using_border h hleft (weaponText_starts weapon) with rfl | ⟨-, hblank⟩
  · cases weapon with
    | none => cases h
    | some w =>
      have hletter : some '[' = some 'm' := congrArg (fun t => t[7]?) h
      cases hletter
  · cases weapon with
    | none => cases hblank
    | some w =>
      have hletter : some 'u' = some 'm' := congrArg (fun t => t[1]?) hblank
      cases hletter

theorem byMagic_of_killerRe (hk : IsKiller u k) (hweapon : ∀ w ∈ weapon, '\n' ∉ w)
    (h : (killerRe " using magic").atStart (k ++ weaponText weapon) ≠ none) :
    ByMagic k weapon := by
  obtain ⟨found, hmem⟩ := atStart_ne_none.mp h
  obtain ⟨first, hfirst, second, hsecond, -⟩ := mem_hits_append.mp hmem
  obtain ⟨k', hk', rfl⟩ := mem_hits_group.mp hfirst
  obtain ⟨hsplit, -, -, -, hmost⟩ := mem_hits_many.mp hk'
  obtain ⟨_, hread⟩ := Option.ne_none_iff_exists'.mp (atStart_ne_none.mpr ⟨second, hsecond⟩)
  obtain ⟨t, _, hrest, ht, -⟩ := atStart_after hread
  simp only at hrest
  have hbreak : '\n' ∉ k ++ weaponText weapon := by
    intro hmem
    rcases List.mem_append.mp hmem with hmem | hmem
    · exact hk.unbroken hmem
    · exact not_mem_weaponText hweapon hmem
  have htail : Tail t := by
    refine tail_of_hit (fun hmem => hbreak ?_) (List.mem_of_mem_head? ht)
    rw [hsplit, hrest]
    exact List.mem_append_right _ (List.mem_append_right _ hmem)
  rw [hrest] at hsplit
  rcases List.append_eq_append_iff.mp hsplit with ⟨left, hleft, hwhole⟩ | ⟨left, hleft, hwhole⟩
  · cases weapon with
    | none => exact absurd (List.append_eq_nil_iff.mp hwhole.symm).2 (by simp)
    | some w =>
      obtain ⟨a, rfl, hw⟩ := magic_in_weapon hwhole
      obtain ⟨b, hb, rfl⟩ := weapon_by_magic hw htail
      refine ⟨a, b, rfl, hb, ?_⟩
      have hlength := hmost 48 rfl
      rw [hleft, List.length_append, List.length_append] at hlength
      change k.length + (8 + a.length) ≤ 48 at hlength
      omega
  · have hunweaponed : ¬ " using ".toList <:+: left := by
      intro hin
      refine hk.unweaponed (hin.trans ?_)
      rw [hleft]
      exact (List.suffix_append _ _).isInfix
    exact (magic_not_at_border hwhole.symm hunweaponed).elim

theorem killerRe_of_byMagic (hk : IsKiller u k) (hclosed : ∀ w ∈ weapon, ']' ∉ w)
    (hweapon : ∀ w ∈ weapon, '\n' ∉ w) (h : ByMagic k weapon) :
    (killerRe " using magic").atStart (k ++ weaponText weapon) ≠ none := by
  obtain ⟨a, b, rfl, hb, hlength⟩ := h
  have htakes : Takes isDot 1 (some 48) (k ++ (" using [".toList ++ a)) := by
    have hne : k ≠ [] := List.ne_nil_of_length_pos hk.nonempty
    refine takes_killer (List.append_ne_nil_of_left_ne_nil hne _) (fun hmem => ?_) ?_
    · rcases List.mem_append.mp hmem with hmem | hmem
      · exact hk.unbroken hmem
      · rcases List.mem_append.mp hmem with hmem | hmem
        · exact absurd hmem (by decide)
        · exact hweapon _ rfl (List.mem_append_left _ hmem)
    · rw [List.length_append, List.length_append]
      change k.length + (8 + a.length) ≤ 48
      omega
  have hclosed' : ']' ∉ b := fun hmem =>
    hclosed _ rfl (List.mem_append_right _ (List.mem_append_right _ hmem))
  have hread : (killerRe " using magic").atStart ((k ++ (" using [".toList ++ a)) ++
      (" using magic".toList ++ (" using ".toList ++ (b ++ [']'])))) ≠ none :=
    atStart_killerRe_ne_none htakes (atStart_tail_bare hclosed' hb)
  have hwhole : k ++ weaponText (some (a ++ (" using magic using ".toList ++ b))) =
      (k ++ (" using [".toList ++ a)) ++
        (" using magic".toList ++ (" using ".toList ++ (b ++ [']']))) := by
    have hcut : " using magic using ".toList = " using magic".toList ++ " using ".toList := rfl
    unfold weaponText
    rw [hcut]
    simp only [List.append_assoc]
  rw [hwhole]
  exact hread

theorem matches_iff_pattern (hplayer : IsPlayer player) (r : Text) :
    (deathRe e).atStart (player ++ ' ' :: r) ≠ none ↔ (e.pattern ++ tailRe).atStart r ≠ none := by
  rw [atStart_deathRe hplayer, Ne, Option.map_eq_none_iff]

theorem matches_killer {after : String} (hafter : e.afterKiller = some after)
    (hplayer : IsPlayer player) (r : Text) :
    (deathRe e).atStart (player ++ ' ' :: (e.text.toList ++ r)) ≠ none ↔
      (killerRe after).atStart r ≠ none := by
  rw [matches_iff_pattern hplayer, atStart_pattern_killer hafter, Ne, Option.map_eq_none_iff]

theorem magic_message (he : e ∈ deaths) (hd : d ∈ deaths) (hmagic : e.key = "magic_by")
    (hkilled : d.key = "killed_by") : d.message player k weapon =
      player ++ ' ' :: (e.text.toList ++ (k ++ weaponText weapon)) := by
  obtain ⟨htext, -⟩ := (deaths_ordered.entries e he).by_magic hmagic
  obtain ⟨htext', hafter⟩ := (deaths_ordered.entries d hd).killed hkilled
  unfold Death.message
  rw [Death.rest_killer hafter, htext, htext']
  rfl

theorem magic_by_listed : ∃ e ∈ deaths, e.key = "magic_by" := by decide +kernel

theorem read_before (hsplit : deaths = before ++ d :: later) (he : e ∈ before)
    (hplayer : IsPlayer player) (hkiller : d.afterKiller ≠ none → IsKiller u k)
    (hweapon : ∀ w ∈ weapon, '\n' ∉ w)
    (hread : (deathRe e).atStart (d.message player k weapon) ≠ none) :
    (d.afterKiller = none ∧ Shadowed d) ∨ (d.key = "killed_by" ∧ ByMagic k weapon) := by
  have hordered := deaths_ordered
  have hin : e ∈ deaths := by
    rw [hsplit]
    exact List.mem_append_left _ he
  have hd := mem_of_split hsplit
  have hapart := hordered.apart
  rw [hsplit, List.pairwise_append] at hapart
  have hpattern := (matches_iff_pattern hplayer _).mp hread
  have hstarts : e.text.toList <+: d.text.toList ++ d.rest k weapon := by
    by_contra hno
    exact hpattern (atStart_pattern_none hno)
  rcases hapart.2.2 e he d List.mem_cons_self (stem_or_text hstarts) with
    ⟨hmagic, hkilled⟩ | hshadowed
  · have hafter := ((hordered.entries e hin).by_magic hmagic).2
    have hk : IsKiller u k :=
      hkiller (Death.names ((hordered.entries d hd).killed hkilled).2)
    rw [magic_message hin hd hmagic hkilled, matches_killer hafter hplayer] at hread
    exact .inr ⟨hkilled, byMagic_of_killerRe hk hweapon hread⟩
  · exact .inl hshadowed

theorem shadow_reads (hsplit : deaths = before ++ d :: later) (hplayer : IsPlayer player)
    (hclosed : ∀ w ∈ weapon, ']' ∉ w) (hbare : d.afterKiller = none) (hshadowed : Shadowed d) :
    ∃ e ∈ before, (deathRe e).atStart (d.message player k weapon) ≠ none := by
  have hordered := deaths_ordered
  have hd := mem_of_split hsplit
  obtain ⟨e, he, hafter, hstarts⟩ := hshadowed
  obtain ⟨hlonger, hshort⟩ := hordered.shadows d hd e he hbare hafter hstarts
  have hunbroken := (hordered.entries d hd).unbroken
  obtain ⟨k', htext⟩ := hstarts
  rw [← htext] at hunbroken
  rw [← htext, List.length_append] at hlonger hshort
  have htakes : Takes isDot 1 (some 48) k' := by
    refine takes_killer ?_ (fun hmem => hunbroken (List.mem_append_right _ hmem)) (by omega)
    rintro rfl
    exact Nat.lt_irrefl _ hlonger
  have hmessage : d.message player k weapon =
      player ++ ' ' :: (e.text.toList ++ (k' ++ ("".toList ++ weaponText weapon))) := by
    unfold Death.message
    rw [Death.rest_bare hbare, ← htext, List.append_assoc]
    rfl
  refine ⟨e, ?_, ?_⟩
  · refine before_of_listed hsplit he ?_ fun hlater => ?_
    · rintro rfl
      rw [hbare] at hafter
      cases hafter
    · have hfirst := hordered.killers_first
      rw [hsplit] at hfirst
      have hrest := (List.pairwise_cons.mp (List.pairwise_append.mp hfirst).2.1).1
      rw [hrest e hlater hbare] at hafter
      cases hafter
  · rw [hmessage, matches_killer hafter hplayer]
    refine atStart_killerRe_ne_none htakes ?_
    rw [atStart_tail_weapon hclosed]
    exact Option.some_ne_none _

theorem magic_reads (hsplit : deaths = before ++ d :: later) (hplayer : IsPlayer player)
    (hk : IsKiller u k) (hclosed : ∀ w ∈ weapon, ']' ∉ w) (hweapon : ∀ w ∈ weapon, '\n' ∉ w)
    (hkilled : d.key = "killed_by") (hmagic : ByMagic k weapon) :
    ∃ e ∈ before, (deathRe e).atStart (d.message player k weapon) ≠ none := by
  have hordered := deaths_ordered
  have hd := mem_of_split hsplit
  obtain ⟨e, hlisted, hkey⟩ := magic_by_listed
  obtain ⟨htext, hafter⟩ := (hordered.entries e hlisted).by_magic hkey
  refine ⟨e, ?_, ?_⟩
  · refine before_of_listed hsplit hlisted ?_ fun hlater => ?_
    · rintro rfl
      rw [hkilled] at hkey
      exact absurd hkey (by decide)
    · have hapart := hordered.apart
      rw [hsplit] at hapart
      have hrest := (List.pairwise_cons.mp (List.pairwise_append.mp hapart).2.1).1 e hlater
      have hsame : d.text.toList <+: e.stem := by
        unfold Death.stem
        rw [hafter, htext, ((hordered.entries d hd).killed hkilled).1]
      rcases hrest (.inl hsame) with ⟨hwrong, -⟩ | ⟨hbare, -⟩
      · rw [hkilled] at hwrong
        exact absurd hwrong (by decide)
      · rw [hafter] at hbare
        cases hbare
  · rw [magic_message hlisted hd hkey hkilled, matches_killer hafter hplayer]
    exact killerRe_of_byMagic hk hclosed hweapon hmagic

end

/-! ### The entry itself -/

section

variable {u : CharTable} {d : Death} {player k body : Text} {weapon cap : Option Text}
  {found : Hit}

theorem deathEvent_bare (h : found.captures = [some player, cap]) :
    deathEvent d found body = ⟨.death, player, d.key, d.cause, [], [], cap.getD [], [], body⟩ := by
  unfold deathEvent Hit.group
  rw [h]
  rfl

theorem deathEvent_killer (h : found.captures = [some player, some k, cap]) :
    deathEvent d found body =
      ⟨.death, player, d.key, d.cause, k, entityId k, cap.getD [], [], body⟩ := by
  unfold deathEvent Hit.group
  rw [h]
  rfl

theorem fact_bare (hd : d.afterKiller = none) :
    d.fact player k weapon = ⟨.death, player, d.key, d.cause, [], [], weapon.getD [], [],
      d.message player k weapon⟩ := by
  unfold Death.fact
  rw [if_pos hd]
  rfl

theorem fact_killer {after : String} (hd : d.afterKiller = some after) :
    d.fact player k weapon = ⟨.death, player, d.key, d.cause, k, entityId k, weapon.getD [], [],
      d.message player k weapon⟩ := by
  unfold Death.fact
  rw [if_neg (Death.names hd)]

theorem readWeapon_getD : (readWeapon weapon).getD [] = weapon.getD [] ↔ ∀ w ∈ weapon, w ≠ [] := by
  cases weapon with
  | none => exact ⟨fun _ w hw => absurd hw (Option.not_mem_none w), fun _ => rfl⟩
  | some w =>
    cases w with
    | nil =>
      constructor
      · intro h
        exact absurd h (List.cons_ne_nil '[' [])
      · intro h
        exact absurd rfl (h [] rfl)
    | cons c w =>
      refine ⟨fun _ w' hw' => ?_, fun _ => rfl⟩
      obtain rfl := Option.some.inj hw'
      exact List.cons_ne_nil c w

theorem killerRe_captures {after : String} {t : Text}
    (h : (killerRe after).atStart t = some found) :
    ∃ k' cap, found.captures = [some k', cap] := by
  have hlength : found.captures.length = 2 := length_captures (List.mem_of_mem_head? h)
  unfold killerRe at h
  obtain ⟨k', rest, h', -, -, -, rfl, -⟩ := lazy_shortest h
  have hcaptures : (Hit.join ⟨k', [some k'], rest⟩ h').captures = some k' :: h'.captures := rfl
  rw [hcaptures, List.length_cons] at hlength
  obtain ⟨cap, hcap⟩ := List.length_eq_one_iff.mp (Nat.succ.inj hlength)
  exact ⟨k', cap, by rw [hcaptures, hcap]⟩

theorem own_reads (hd : d ∈ deaths) (hplayer : IsPlayer player)
    (hkiller : d.afterKiller ≠ none → IsKiller u k) (hclosed : ∀ w ∈ weapon, ']' ∉ w)
    (hweapon : ∀ w ∈ weapon, '\n' ∉ w) :
    (∃ found, (deathRe d).atStart (d.message player k weapon) = some found ∧
        deathEvent d found (d.message player k weapon) = d.fact player k weapon) ↔
      (∀ w ∈ weapon, w ≠ []) ∧
        (d.afterKiller = some "" → weapon ≠ none → ¬ " using".toList <:+ k) := by
  unfold Death.message
  cases hafter : d.afterKiller with
  | none =>
    rw [fact_bare hafter, Death.rest_bare hafter, atStart_deathRe hplayer,
      atStart_pattern_bare hafter, atStart_tail_weapon hclosed]
    constructor
    · rintro ⟨found, hfound, hevent⟩
      obtain rfl := Option.some.inj hfound
      rw [deathEvent_bare rfl] at hevent
      exact ⟨readWeapon_getD.mp (congrArg GameEvent.weapon hevent),
        fun h => absurd h.symm (Option.some_ne_none _)⟩
    · rintro ⟨hnonempty, -⟩
      refine ⟨_, rfl, ?_⟩
      rw [deathEvent_bare rfl, readWeapon_getD.mpr hnonempty]
      unfold Death.message
      rw [Death.rest_bare hafter]
  | some after =>
    have hk : IsKiller u k := hkiller (Death.names hafter)
    have hallowed := (deaths_ordered.entries d hd).after after hafter
    rw [fact_killer hafter, Death.rest_killer hafter, atStart_deathRe hplayer,
      atStart_pattern_killer hafter, Option.map_map]
    constructor
    · rintro ⟨found, hfound, hevent⟩
      obtain ⟨h, hh, rfl⟩ := Option.map_eq_some_iff.mp hfound
      -- what the pattern took for the killer has to be the killer
      obtain ⟨k', cap, hcaptures⟩ := killerRe_captures hh
      rw [deathEvent_killer (congrArg (some player :: ·) hcaptures)] at hevent
      obtain rfl : k' = k := congrArg GameEvent.killer hevent
      obtain ⟨hreads, hends⟩ := killerRe_reads hk hclosed hh (by rw [hcaptures]; rfl)
      rw [hcaptures] at hreads
      obtain rfl : cap = readWeapon weapon := by
        simpa using hreads
      refine ⟨readWeapon_getD.mp (congrArg GameEvent.weapon hevent), fun heq => ?_⟩
      exact hends (Option.some.inj heq)
    · rintro ⟨hnonempty, hends⟩
      rw [atStart_killerRe hk hallowed hclosed hweapon fun h => hends (congrArg some h)]
      refine ⟨_, rfl, ?_⟩
      rw [deathEvent_killer rfl, readWeapon_getD.mpr hnonempty]
      unfold Death.message
      rw [Death.rest_killer hafter]

end

/-! ### The line of a message -/

section

variable {u : CharTable} {time thread body player k : Text} {d : Death} {weapon : Option Text}

theorem takes_digits {p : Char → Bool} {c c' : Char} (hc : p c = true) (hc' : p c' = true) :
    Takes p 2 (some 2) [c, c'] := by
  refine ⟨?_, Nat.le_refl _, fun n hn => ?_⟩
  · rintro d hd
    rcases List.mem_cons.mp hd with rfl | hd
    · exact hc
    · rw [List.mem_singleton.mp hd]
      exact hc'
  · obtain rfl := Option.some.inj hn
    exact Nat.le_refl _

theorem IsTime.leaves (htime : IsTime u time) (rest : Text) :
    Leaves (clock u) (time ++ rest) rest := by
  obtain ⟨h₁, h₂, m₁, m₂, s₁, s₂, rfl, hdigits⟩ := htime.digits
  simp only [List.mem_cons, List.not_mem_nil, or_false, forall_eq_or_imp, forall_eq] at hdigits
  obtain ⟨hh₁, hh₂, hm₁, hm₂, hs₁, hs₂⟩ := hdigits
  have hours := leaves_many true (takes_digits hh₁ hh₂)
    ([':', m₁, m₂, ':', s₁, s₂] ++ rest)
  have colon := leaves_lit [':'] ([m₁, m₂, ':', s₁, s₂] ++ rest)
  have minutes := leaves_many true (takes_digits hm₁ hm₂) ([':', s₁, s₂] ++ rest)
  have colon' := leaves_lit [':'] ([s₁, s₂] ++ rest)
  have seconds := leaves_many true (takes_digits hs₁ hs₂) rest
  exact (((hours.append colon).append minutes).append colon').append seconds

theorem IsTime.length (htime : IsTime u time) : time.length = 8 := by
  obtain ⟨h₁, h₂, m₁, m₂, s₁, s₂, rfl, -⟩ := htime.digits
  rfl

theorem lineRe_leaves (htime : IsTime u time) (hthread : Takes notBracket 1 none thread)
    (hbody : Takes isDot 1 none body) : Leaves (lineRe u) (logLine time thread body) [] := by
  have bracket := leaves_lit "[".toList
    (time ++ ("] [".toList ++ (thread ++ ("/INFO]: ".toList ++ (body ++ [])))))
  have clock := htime.leaves ("] [".toList ++ (thread ++ ("/INFO]: ".toList ++ (body ++ []))))
  have middle := leaves_lit "] [".toList (thread ++ ("/INFO]: ".toList ++ (body ++ [])))
  have threads := (leaves_many true hthread ("/INFO]: ".toList ++ (body ++ []))).group
  have info := leaves_lit "/INFO]: ".toList (body ++ [])
  have bodies := (leaves_many true hbody []).group
  have hwhole : Leaves (lineRe u) ("[".toList ++ (time ++ ("] [".toList ++ (thread ++
      ("/INFO]: ".toList ++ (body ++ [])))))) [] :=
    (((((bracket.append clock).append middle).append threads).append info).append
      bodies).append leaves_stop
  unfold logLine
  simpa only [List.append_assoc, List.append_nil] using hwhole

theorem logLine_rdropWhile {front : Text} {c : Char} (hc : c ≠ '\n') (n : Nat) :
    (logLine time thread (front ++ [c]) ++ List.replicate n '\n').rdropWhile (· == '\n') =
      logLine time thread (front ++ [c]) := by
  induction n with
  | zero =>
    unfold logLine
    rw [List.replicate_zero, List.append_nil, ← List.append_assoc]
    exact List.rdropWhile_concat_neg _ _ _ (by simpa using hc)
  | succ n ih =>
    rw [List.replicate_succ', ← List.append_assoc, List.rdropWhile_concat_pos _ _ _ (by simp)]
    exact ih

theorem isSpace_eq_false {c : Char} (h : isNameChar c = true) : u.isSpace c = false := by
  have hascii : c.toNat < 128 ∧ 33 ≤ c.toNat := by
    have hclass : (((decide (c.val ≥ 65 ∧ c.val ≤ 90) ||
        (decide (97 ≤ c.val) && decide (c.val ≤ 122))) ||
          (decide (48 ≤ c.val) && decide (c.val ≤ 57))) || c == '_') = true := h
    simp only [Bool.or_eq_true, Bool.and_eq_true, decide_eq_true_iff, beq_iff_eq,
      UInt32.le_iff_toNat_le, ge_iff_le] at hclass
    rcases hclass with hclass | rfl
    · have hletters : ((65 ≤ c.toNat ∧ c.toNat ≤ 90) ∨ (97 ≤ c.toNat ∧ c.toNat ≤ 122)) ∨
          (48 ≤ c.toNat ∧ c.toNat ≤ 57) := hclass
      omega
    · decide
  exact u.isSpace_of_shown hascii.2 hascii.1

theorem ends_append {left right : Text}
    (h : ∃ front c, right = front ++ [c] ∧ u.isSpace c = false) :
    ∃ front c, left ++ right = front ++ [c] ∧ u.isSpace c = false := by
  obtain ⟨front, c, rfl, hc⟩ := h
  exact ⟨left ++ front, c, (List.append_assoc _ _ _).symm, hc⟩

theorem rest_ends (hd : d ∈ deaths) (hkiller : d.afterKiller ≠ none → IsKiller u k) :
    ∃ front c, d.text.toList ++ d.rest k weapon = front ++ [c] ∧ u.isSpace c = false := by
  have hentry := deaths_ordered.entries d hd
  cases weapon with
  | some w =>
    have hlast : ∃ front c, weaponText (some w) = front ++ [c] ∧ u.isSpace c = false :=
      ends_append ⟨w, ']', rfl, u.isSpace_ascii _ (by decide)⟩
    apply ends_append
    cases hafter : d.afterKiller with
    | none =>
      rw [Death.rest_bare hafter]
      exact hlast
    | some after =>
      rw [Death.rest_killer hafter]
      exact ends_append (ends_append hlast)
  | none =>
    cases hafter : d.afterKiller with
    | none =>
      rw [Death.rest_bare hafter]
      have hends := hentry.ends hafter
      cases hlast : d.text.toList.getLast? with
      | none =>
        rw [hlast] at hends
        exact absurd hends Bool.false_ne_true
      | some c =>
        rw [hlast] at hends
        obtain ⟨front, htext⟩ := List.getLast?_eq_some_iff.mp hlast
        have hletter : c.isAlpha = true := hends
        refine ⟨front, c, (List.append_nil _).trans htext, isSpace_eq_false ?_⟩
        have hname : isNameChar c = ((c.isAlpha || c.isDigit) || c == '_') := rfl
        rw [hname, hletter]
        rfl
    | some after =>
      apply ends_append
      rw [Death.rest_killer hafter]
      rcases hentry.after after hafter with rfl | rfl
      · have hk := hkiller (Death.names hafter)
        obtain ⟨front, c, rfl⟩ := (List.eq_nil_or_concat' k).resolve_left
          (List.ne_nil_of_length_pos hk.nonempty)
        refine ⟨front, c, List.append_nil _, hk.trailing c ?_⟩
        exact List.getLast?_concat ..
      · exact ends_append ⟨" using magi".toList, 'c', rfl, u.isSpace_ascii _ (by decide)⟩

theorem message_ends (hd : d ∈ deaths) (hkiller : d.afterKiller ≠ none → IsKiller u k) :
    ∃ front c, d.message player k weapon = front ++ [c] ∧ u.isSpace c = false := by
  have hwhole : d.message player k weapon =
      (player ++ [' ']) ++ (d.text.toList ++ d.rest k weapon) := by
    unfold Death.message
    rw [List.append_assoc]
    rfl
  rw [hwhole]
  exact ends_append (rest_ends hd hkiller)

theorem strip_message (hd : d ∈ deaths) (hplayer : IsPlayer player)
    (hkiller : d.afterKiller ≠ none → IsKiller u k) :
    u.strip (d.message player k weapon) = d.message player k weapon := by
  obtain ⟨front, c, hends, hc⟩ : ∃ front c, d.message player k weapon = front ++ [c] ∧
      u.isSpace c = false := message_ends hd hkiller
  have hfront : (d.message player k weapon).dropWhile u.isSpace = d.message player k weapon := by
    obtain ⟨c', name, rfl⟩ := List.exists_cons_of_length_pos (Nat.lt_of_lt_of_le
      (by decide) hplayer.least)
    refine List.dropWhile_cons_of_neg ?_
    rw [isSpace_eq_false (hplayer.all c' List.mem_cons_self)]
    exact Bool.false_ne_true
  rw [CharTable.strip, hfront, hends, List.rdropWhile_concat_neg]
  rw [hc]
  exact Bool.false_ne_true

theorem not_advancement (hd : d ∈ deaths) (hplayer : IsPlayer player) :
    advancementRe.atStart (d.message player k weapon) = none := by
  by_contra hne
  obtain ⟨_, hmem⟩ := atStart_ne_none.mp hne
  unfold advancementRe at hmem
  obtain ⟨_, hmem, -⟩ := mem_hits_append.mp hmem
  obtain ⟨_, hmem, -⟩ := mem_hits_append.mp hmem
  obtain ⟨_, hmem, -⟩ := mem_hits_append.mp hmem
  obtain ⟨_, hmem, -⟩ := mem_hits_append.mp hmem
  obtain ⟨_, hmem, -⟩ := mem_hits_append.mp hmem
  obtain ⟨first, hfirst, second, hsecond, -⟩ := mem_hits_append.mp hmem
  obtain ⟨player', hplayer', rfl⟩ := mem_hits_group.mp hfirst
  obtain ⟨hsplit, -, hall, -, -⟩ := mem_hits_many.mp hplayer'
  have hhas : player'.rest = ' ' :: ("has ".toList ++ second.rest) := (mem_hits_lit.mp hsecond).2.2
  rw [hhas] at hsplit
  by_cases hsame : player'.text = player
  · rw [hsame] at hsplit
    have hbody := (List.cons.inj (List.append_cancel_left hsplit)).2
    exact (deaths_ordered.entries d hd).starts
      (List.prefix_or_prefix_of_prefix ⟨_, hbody.symm⟩ (List.prefix_append _ _))
  · obtain ⟨c, more, hrest, hc⟩ := cut_in_class (by decide) hall hsplit hsame
    obtain ⟨rfl, -⟩ := List.cons.inj hrest
    exact absurd (hplayer.all _ hc) (by decide)

theorem message_unbroken (hd : d ∈ deaths) (hplayer : IsPlayer player)
    (hkiller : d.afterKiller ≠ none → IsKiller u k) (hweapon : ∀ w ∈ weapon, '\n' ∉ w) :
    '\n' ∉ d.message player k weapon := by
  have hentry := deaths_ordered.entries d hd
  have hrest : '\n' ∉ d.rest k weapon := by
    cases hafter : d.afterKiller with
    | none =>
      rw [Death.rest_bare hafter]
      exact not_mem_weaponText hweapon
    | some after =>
      have hk := hkiller (Death.names hafter)
      rw [Death.rest_killer hafter, List.mem_append, List.mem_append]
      rintro (hmem | hmem | hmem)
      · exact hk.unbroken hmem
      · rcases hentry.after after hafter with rfl | rfl <;> exact absurd hmem (by decide)
      · exact not_mem_weaponText hweapon hmem
  unfold Death.message
  rw [List.mem_append, List.mem_cons, List.mem_append]
  rintro (hmem | hmem | hmem | hmem)
  · exact absurd (hplayer.all _ hmem) (by decide)
  · exact absurd hmem (by decide)
  · exact hentry.unbroken hmem
  · exact hrest hmem

theorem takes_dots {t : Text} (hne : t ≠ []) (hunbroken : '\n' ∉ t) : Takes isDot 1 none t :=
  ⟨all_ne hunbroken, List.length_pos_of_ne_nil hne, fun n hn => absurd hn (Option.not_mem_none n)⟩

theorem parseLine_body (htime : IsTime u time) (hthread : Takes notBracket 1 none thread)
    (hne : body ≠ []) (hunbroken : '\n' ∉ body) (n : Nat) :
    parseLine u (logLine time thread body ++ List.replicate n '\n') =
      parseBody u thread (u.strip body) := by
  obtain ⟨front, last, hends⟩ := (List.eq_nil_or_concat' body).resolve_left hne
  have hnewline : last ≠ '\n' := by
    rintro rfl
    exact hunbroken (by rw [hends]; exact List.mem_append_right _ List.mem_cons_self)
  have hclosed : ']' ∉ thread := fun hmem => absurd (hthread.all _ hmem) (by decide)
  obtain ⟨found, hfound⟩ := Option.ne_none_iff_exists'.mp
    (lineRe_leaves htime hthread (takes_dots hne hunbroken)).atStart_ne_none
  obtain ⟨time', thread', body', rest, hline, htime', hthread', -, hgroup, hgroup', -, hrest⟩ :=
    lineRe_hit (List.mem_of_mem_head? hfound)
  obtain ⟨hsame, hwhole⟩ := logLine_inj hline htime.length htime' hclosed hthread'
  have hnil : rest = [] := by
    refine hrest.resolve_right fun hbreak => hunbroken ?_
    rw [hwhole, hbreak]
    exact List.mem_append_right _ List.mem_cons_self
  rw [hnil, List.append_nil] at hwhole
  unfold parseLine
  rw [hends, logLine_rdropWhile hnewline, ← hends, hfound]
  simp only
  rw [hgroup, hgroup', ← hsame, ← hwhole]

theorem parseBody_message (hd : d ∈ deaths) (hplayer : IsPlayer player) :
    parseBody u serverThread (d.message player k weapon) =
      parseDeath (d.message player k weapon) := by
  obtain ⟨c, name, rfl⟩ := List.exists_cons_of_length_pos (Nat.lt_of_lt_of_le
    (by decide) hplayer.least)
  have hangle : (c == '<') = false := by
    rw [beq_eq_false_iff_ne]
    rintro rfl
    exact absurd (hplayer.all _ List.mem_cons_self) (by decide)
  have hchat : chatRe.atStart (d.message (c :: name) k weapon) = none :=
    (starts_lit '<' []).append.append.append.append.atStart_eq_none hangle _
  have hstarts : ¬ ['<'].isPrefixOf (d.message (c :: name) k weapon) = true := by
    intro hopen
    rw [(List.cons_prefix_cons.mp (List.isPrefixOf_iff_prefix.mp hopen)).1] at hangle
    exact absurd hangle (by simp)
  unfold parseBody
  rw [if_neg fun h => h.1 rfl, hchat]
  simp only
  rw [if_neg fun h => h rfl, if_neg hstarts]
  unfold parseFact
  rw [not_advancement hd hplayer]

theorem parseLine_message (hd : d ∈ deaths) (htime : IsTime u time) (hplayer : IsPlayer player)
    (hkiller : d.afterKiller ≠ none → IsKiller u k) (hweapon : ∀ w ∈ weapon, '\n' ∉ w) (n : Nat) :
    parseLine u (logLine time serverThread (d.message player k weapon) ++ List.replicate n '\n') =
      parseDeath (d.message player k weapon) := by
  have hthread : Takes notBracket 1 none serverThread :=
    ⟨List.all_eq_true.mp (by decide), by decide, fun n hn => absurd hn (Option.not_mem_none n)⟩
  have hne : d.message player k weapon ≠ [] :=
    List.append_ne_nil_of_right_ne_nil _ (List.cons_ne_nil _ _)
  rw [parseLine_body htime hthread hne (message_unbroken hd hplayer hkiller hweapon),
    strip_message hd hplayer hkiller, parseBody_message hd hplayer]

theorem message_broken (hweapon : ¬ ∀ w ∈ weapon, '\n' ∉ w) :
    '\n' ∈ d.message player k weapon := by
  have hin : '\n' ∈ weaponText weapon := by
    cases weapon with
    | none => exact absurd (fun w hw => absurd hw (Option.not_mem_none w)) hweapon
    | some w =>
      refine List.mem_append_right _ (List.mem_append_left _ (Decidable.not_not.mp fun hw => ?_))
      refine hweapon fun w' hw' => ?_
      rw [← Option.some.inj hw']
      exact hw
  have hrest : '\n' ∈ d.rest k weapon := by
    cases hafter : d.afterKiller with
    | none =>
      rw [Death.rest_bare hafter]
      exact hin
    | some after =>
      rw [Death.rest_killer hafter]
      exact List.mem_append_right _ (List.mem_append_right _ hin)
  exact List.mem_append_right _ (List.mem_cons_of_mem _ (List.mem_append_right _ hrest))

theorem parseLine_broken (hd : d ∈ deaths) (htime : time.length = 8)
    (hkiller : d.afterKiller ≠ none → IsKiller u k)
    (hbroken : '\n' ∈ d.message player k weapon) (n : Nat) :
    parseLine u (logLine time serverThread (d.message player k weapon) ++ List.replicate n '\n') =
      none := by
  obtain ⟨front, last, hends, hlast⟩ : ∃ front c, d.message player k weapon = front ++ [c] ∧
      u.isSpace c = false := message_ends hd hkiller
  have hnewline : last ≠ '\n' := by
    rintro rfl
    rw [u.isSpace_ascii _ (by decide)] at hlast
    exact absurd hlast (by decide)
  unfold parseLine
  rw [hends, logLine_rdropWhile hnewline, ← hends]
  cases hfound : (lineRe u).atStart (logLine time serverThread (d.message player k weapon)) with
  | none => rfl
  | some found =>
    obtain ⟨time', thread', body', rest, hline, htime', hthread', -, -, -, hunbroken, hrest⟩ :=
      lineRe_hit (List.mem_of_mem_head? hfound)
    obtain ⟨-, hwhole⟩ := logLine_inj hline htime htime' (by decide) hthread'
    rcases hrest with rfl | rfl
    · rw [List.append_nil] at hwhole
      rw [hwhole] at hbroken
      exact absurd hbroken hunbroken
    · have hcut : front ++ [last] = body' ++ ['\n'] := hends.symm.trans hwhole
      exact absurd (List.cons.inj (List.append_inj' hcut rfl).2).1 hnewline

end

/-! ### What the messages of the table are read as -/

structure Readable (d : Death) (k : Text) (weapon : Option Text) : Prop where
  /-- No entry with a killer reads one in the text of an entry without. -/
  unshadowed : d.afterKiller = none → ¬ Shadowed d
  armed : ∀ w ∈ weapon, w ≠ []
  unbroken : ∀ w ∈ weapon, '\n' ∉ w
  uncut : d.afterKiller = some "" → weapon ≠ none → ¬ " using".toList <:+ k
  unmagic : d.key = "killed_by" → ¬ ByMagic k weapon

section

variable {u : CharTable} {time player k : Text} {d : Death} {weapon : Option Text}

theorem parseDeath_iff {event : GameEvent} {body : Text} :
    parseDeath body = some event ↔ ∃ before d later, deaths = before ++ d :: later ∧
      (∃ found, (deathRe d).atStart body = some found ∧ deathEvent d found body = event) ∧
        ∀ e ∈ before, (deathRe e).atStart body = none := by
  unfold parseDeath
  simp only [List.findSome?_eq_some_iff, Option.map_eq_some_iff, Option.map_eq_none_iff]

theorem eq_of_key {e : Death} (he : e ∈ deaths) (hd : d ∈ deaths) (h : e.key = d.key) : e = d :=
  List.inj_on_of_nodup_map deaths_ordered.keys he hd h

theorem parseDeath_message (hd : d ∈ deaths) (hplayer : IsPlayer player)
    (hkiller : d.afterKiller ≠ none → IsKiller u k) (hclosed : ∀ w ∈ weapon, ']' ∉ w)
    (hweapon : ∀ w ∈ weapon, '\n' ∉ w) :
    parseDeath (d.message player k weapon) = some (d.fact player k weapon) ↔
      Readable d k weapon := by
  rw [parseDeath_iff]
  constructor
  · rintro ⟨before, e, later, hsplit, ⟨found, hfound, hevent⟩, hbefore⟩
    obtain rfl : e = d := eq_of_key (mem_of_split hsplit) hd (congrArg GameEvent.key hevent)
    obtain ⟨harmed, huncut⟩ :=
      (own_reads hd hplayer hkiller hclosed hweapon).mp ⟨found, hfound, hevent⟩
    refine ⟨fun hbare hshadowed => ?_, harmed, hweapon, huncut, fun hkilled hmagic => ?_⟩
    · obtain ⟨e', he', hread⟩ := shadow_reads (k := k) hsplit hplayer hclosed hbare hshadowed
      exact hread (hbefore e' he')
    · have hafter := ((deaths_ordered.entries e hd).killed hkilled).2
      have hk := hkiller (Death.names hafter)
      obtain ⟨e', he', hread⟩ :=
        magic_reads hsplit hplayer hk hclosed hweapon hkilled hmagic
      exact hread (hbefore e' he')
  · rintro ⟨hunshadowed, harmed, -, huncut, hunmagic⟩
    obtain ⟨before, later, hsplit⟩ := List.append_of_mem hd
    refine ⟨before, d, later, hsplit,
      (own_reads hd hplayer hkiller hclosed hweapon).mpr ⟨harmed, huncut⟩, fun e he => ?_⟩
    by_contra hread
    rcases read_before hsplit he hplayer hkiller hweapon hread with
      ⟨hbare, hshadowed⟩ | ⟨hkilled, hmagic⟩
    · exact hunshadowed hbare hshadowed
    · exact hunmagic hkilled hmagic

/-- A message of the table is read as the fact it was made from exactly when it is readable. -/
theorem death_message_read_back (hd : d ∈ deaths) (htime : IsTime u time)
    (hplayer : IsPlayer player) (hkiller : d.afterKiller ≠ none → IsKiller u k)
    (hclosed : ∀ w ∈ weapon, ']' ∉ w) (n : Nat) :
    parseLine u (logLine time serverThread (d.message player k weapon) ++
        List.replicate n '\n') = some (d.fact player k weapon) ↔ Readable d k weapon := by
  by_cases hweapon : ∀ w ∈ weapon, '\n' ∉ w
  · rw [parseLine_message hd htime hplayer hkiller hweapon]
    exact parseDeath_message hd hplayer hkiller hclosed hweapon
  · rw [parseLine_broken hd htime.length hkiller (message_broken hweapon)]
    constructor
    · intro h
      cases h
    · intro h
      exact absurd h.unbroken hweapon

theorem noon : IsTime .ascii "12:00:00".toList :=
  ⟨'1', '2', '0', '0', '0', '0', rfl, List.all_eq_true.mp (by decide)⟩

theorem steve : IsPlayer "Steve".toList :=
  ⟨List.all_eq_true.mp (by decide), by decide, by decide⟩

theorem zombie : IsKiller .ascii "Zombie".toList where
  nonempty := by decide
  short := by decide
  unbroken := by decide
  unweaponed := by decide
  leading c hc := by
    have hfirst : 'Z' = c := Option.some.inj hc
    rw [← hfirst]
    decide
  trailing c hc := by
    have hlast : 'e' = c := Option.some.inj hc
    rw [← hlast]
    decide

theorem zombie_message_read_back : parseLine .ascii (logLine "12:00:00".toList serverThread
    (Death.message ⟨"was slain by ", some "", "slain_by", "attack"⟩ "Steve".toList
      "Zombie".toList (some "Iron Sword".toList)) ++ List.replicate 1 '\n') =
    some (Death.fact ⟨"was slain by ", some "", "slain_by", "attack"⟩ "Steve".toList
      "Zombie".toList (some "Iron Sword".toList)) :=
  (death_message_read_back List.mem_cons_self noon steve (fun _ => zombie) (by decide) 1).mpr
    ⟨by decide, by decide, by decide, by decide, fun h => absurd h (by decide)⟩

/-- The anvil that falls on a player is read as who killed him. -/
theorem falling_anvil_read_as_killer : IsTime .ascii "12:00:00".toList ∧ IsPlayer "Steve".toList ∧
    ∃ d ∈ deaths, d.key = "anvil" ∧ d.afterKiller = none ∧
      d.message "Steve".toList [] none = "Steve was squashed by a falling anvil".toList ∧
      parseLine .ascii (logLine "12:00:00".toList serverThread
        (d.message "Steve".toList [] none)) = some
          { kind := .death, player := "Steve".toList, key := "squashed_by", cause := "crush",
            killer := "a falling anvil".toList, raw := d.message "Steve".toList [] none } ∧
      parseLine .ascii (logLine "12:00:00".toList serverThread
        (d.message "Steve".toList [] none)) ≠ some (d.fact "Steve".toList [] none) :=
  ⟨noon, steve, by decide +kernel⟩

end

end GameEvents
