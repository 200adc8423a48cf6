import McAdmin.AuditJournal
import McAdmin.LastItems

/-!
# What the journal keeps

A file is a sequence of pieces, each the start of a line, and all but the last are whole lines.
As long as nothing goes behind a torn one, each piece is a line of what is read, and gives its
entry where it is whole.
-/

namespace AuditJournal

open Calendar (Time Month isoformat fromisoformat)
open JsonText LastItems PlainText

structure Piece where
  entry : Entry
  text : Text
  start : text <+: line entry
  nonempty : text ≠ []

namespace Piece

def write (p : Piece) : Write := ⟨p.entry, (encode p.text).length⟩

def Full (p : Piece) : Prop := p.text = line p.entry

instance (p : Piece) : Decidable p.Full := inferInstanceAs (Decidable (_ = _))

def raw (p : Piece) : Text := if p.Full then dumps (payload p.entry) else p.text

end Piece

section

variable {e : Entry} {text text' : Text} {p : Piece} {ps : List Piece}

/-! ### Lines -/

theorem payload_ne_nil (e : Entry) : payload e ≠ [] := List.cons_ne_nil _ _

theorem linesFrom_cons {c : Char} (hline : c ≠ '\n') (hreturn : c ≠ '\r') (begun text : Text) :
    linesFrom begun (c :: text) = linesFrom (begun ++ [c]) text := by
  rw [linesFrom]
  · rw [if_neg (by simp [hline, hreturn])]
  · rintro text' rfl
    exact absurd rfl hreturn

theorem linesFrom_newline (begun text : Text) :
    linesFrom begun ('\n' :: text) = begun :: linesFrom [] text := by
  rw [linesFrom]
  · rw [if_pos (.inl rfl)]
  · rintro text' ⟨⟩

theorem linesFrom_printable {begun : Text} (h : ∀ c ∈ text, 0x20 ≤ c.toNat) :
    linesFrom begun (text ++ text') = linesFrom (begun ++ text) text' := by
  induction text generalizing begun with
  | nil => simp
  | cons c text ih =>
    rcases List.forall_mem_cons.mp h with ⟨hc, h⟩
    have hline : c ≠ '\n' := by
      rintro rfl
      exact absurd hc (by decide)
    have hreturn : c ≠ '\r' := by
      rintro rfl
      exact absurd hc (by decide)
    rw [List.cons_append, linesFrom_cons hline hreturn, ih h, List.append_assoc,
      List.singleton_append]

/-! ### Pieces -/

theorem Piece.raw_prefix (p : Piece) : p.raw <+: dumps (payload p.entry) := by
  unfold raw
  split_ifs with hfull
  · exact List.prefix_refl _
  · rcases List.prefix_concat_iff.mp p.start with hline | hprefix
    · exact absurd hline hfull
    · exact hprefix

theorem Piece.text_of_full (h : p.Full) : p.text = p.raw ++ ['\n'] := by
  rw [raw, if_pos h]
  exact h

theorem Piece.text_of_not_full (h : ¬ p.Full) : p.text = p.raw := by rw [raw, if_neg h]

theorem Piece.raw_printable (p : Piece) : ∀ c ∈ p.raw, 0x20 ≤ c.toNat := fun c hc =>
  dumps_printable _ c (p.raw_prefix.subset hc)

theorem linesFrom_pieces (h : ∀ p ∈ ps.dropLast, p.Full) :
    linesFrom [] (ps.flatMap Piece.text) = ps.map Piece.raw := by
  induction ps with
  | nil => rfl
  | cons p ps ih =>
    have hfull : p.Full → linesFrom [] (p.text ++ ps.flatMap Piece.text) =
        p.raw :: linesFrom [] (ps.flatMap Piece.text) := by
      intro hfull
      rw [p.text_of_full hfull, List.append_assoc, linesFrom_printable p.raw_printable,
        List.nil_append, List.singleton_append, linesFrom_newline]
    rw [List.flatMap_cons, List.map_cons]
    cases ps with
    | nil =>
      by_cases hlast : p.Full
      · rw [hfull hlast]
        rfl
      · have hraw : p.raw ≠ [] := p.text_of_not_full hlast ▸ p.nonempty
        rw [p.text_of_not_full hlast, linesFrom_printable p.raw_printable]
        exact if_neg hraw
    | cons p' ps =>
      rw [List.dropLast_cons_cons, List.forall_mem_cons] at h
      rw [hfull h.1, ih h.2]

/-! ### Reading a line -/

theorem strip_dumps (ms : List (Text × Text)) : strip (dumps ms) = dumps ms := by
  rcases membersText_concat ms with ⟨body, hbody⟩
  have hbrace : isSpace '{' = false ∧ isSpace '}' = false := by decide
  rw [strip, dumps, List.dropWhile_cons_of_neg (by simp [hbrace]), hbody, ← List.cons_append,
    List.rdropWhile_concat_neg _ _ _ (by simp [hbrace])]

theorem strip_prefix_of_prefix {ms : List (Text × Text)} (h : text <+: dumps ms) :
    strip text <+: text := by
  have hfront : text.dropWhile isSpace = text := by
    cases text with
    | nil => rfl
    | cons c text =>
      have hc : c = '{' := (List.cons_prefix_cons.mp h).1
      have hbrace : isSpace '{' = false := by decide
      rw [List.dropWhile_cons_of_neg (by simp [hc, hbrace])]
  rw [strip, hfront]
  exact List.rdropWhile_prefix _ _

theorem entryOf_payload (e : Entry) :
    entryOf (.object ((payload e).map (Prod.map id .text))) = some e.asRead := by
  have htime : timeOf (.text (isoformat e.timestamp)) = some e.timestamp :=
    Calendar.fromisoformat_isoformat e.timestamp
  have hget : ∀ key v, ((payload e).map (Prod.map id Json.text)).reverse.lookup key = some v →
      (Json.object ((payload e).map (Prod.map id .text))).get key = some v := fun _ _ h => h
  rw [entryOf, hget "timestamp".toList (.text (isoformat e.timestamp)) rfl,
    hget "username".toList (.text e.username) rfl, hget "role".toList (.text e.role) rfl,
    hget "action".toList (.text e.action) rfl, hget "target".toList (.text e.target) rfl,
    hget "outcome".toList (.text e.outcome) rfl, hget "detail".toList (.text e.detail) rfl]
  simp only [Option.bind_eq_bind, Option.bind_some, htime]
  rfl

theorem readLine_dumps (e : Entry) : readLine (dumps (payload e)) = some e.asRead := by
  have hne : dumps (payload e) ≠ [] := List.cons_ne_nil _ _
  rw [readLine, strip_dumps, if_neg hne, loads_dumps (payload_ne_nil e)]
  exact entryOf_payload e

theorem readLine_broken (h : text <+: dumps (payload e)) (hne : text ≠ dumps (payload e)) :
    readLine text = none := by
  rcases strip_prefix_of_prefix h with ⟨blanks, hblanks⟩
  rcases h with ⟨q, hq⟩
  have hrest : blanks ++ q ≠ [] := by
    intro hnil
    rw [List.append_eq_nil_iff] at hnil
    rw [hnil.2, List.append_nil] at hq
    exact hne hq
  have hdumps : strip text ++ (blanks ++ q) = dumps (payload e) := by
    rw [← List.append_assoc, hblanks, hq]
  rw [readLine, loads_broken (payload_ne_nil e) hrest hdumps]
  split_ifs <;> rfl

theorem length_encode_lt (h : text <+: text') (hne : text ≠ text') :
    (encode text).length < (encode text').length := by
  rcases h with ⟨q, rfl⟩
  have hq : encode q ≠ [] := fun hnil => hne (by rw [encode_eq_nil.mp hnil, List.append_nil])
  rw [encode_append, List.length_append]
  have hpos := List.length_pos_of_ne_nil hq
  omega

theorem Piece.whole_iff (p : Piece) : p.write.Whole ↔ p.raw = dumps (payload p.entry) := by
  constructor
  · intro hwhole
    by_contra hne
    have hfull : ¬ p.Full := fun hfull => hne (if_pos hfull)
    have hlt := length_encode_lt p.raw_prefix hne
    rw [← p.text_of_not_full hfull] at hlt
    exact absurd hwhole (Nat.not_le.mpr hlt)
  · intro hraw
    have hprefix : p.raw <+: p.text := by
      by_cases hfull : p.Full
      · rw [p.text_of_full hfull]
        exact List.prefix_append _ _
      · exact (p.text_of_not_full hfull).symm ▸ List.prefix_refl _
    rcases hprefix with ⟨q, hq⟩
    rw [Write.Whole, write, ← hq, ← hraw, encode_append, List.length_append]
    exact Nat.le_add_right _ _

theorem Piece.readLine_raw (p : Piece) :
    readLine p.raw = if p.write.Whole then some p.entry.asRead else none := by
  split_ifs with hwhole
  · rw [p.whole_iff.mp hwhole, readLine_dumps]
  · exact readLine_broken p.raw_prefix fun hraw => hwhole (p.whole_iff.mpr hraw)

end

/-! ### The last lines -/

section

variable {s : Files} {limit : ℕ} {paths : List Path} {collected : List Text}

theorem slice_append (hcollected : collected.length < limit) (lines : List Text) :
    slice (limit - collected.length) (lines.rtake limit) ++ collected =
      (lines ++ collected).rtake limit := by
  rw [slice, if_neg (by omega), rtake_rtake (by omega), rtake_append,
    rtake_of_length_le hcollected.le]

theorem collect_eq {content : Path → List Text} (hcollected : collected.length < limit)
    (hread : ∀ path ∈ paths, ∃ bytes text, s.content path = some bytes ∧ decode bytes = some text ∧
      linesFrom [] text = content path) :
    s.collect limit paths collected =
      some ((paths.reverse.flatMap content ++ collected).rtake limit) := by
  induction paths generalizing collected with
  | nil =>
    rw [Files.collect, List.reverse_nil, List.flatMap_nil, List.nil_append,
      rtake_of_length_le hcollected.le]
  | cons path paths ih =>
    rcases List.forall_mem_cons.mp hread with ⟨⟨bytes, text, hbytes, htext, hlines⟩, hread⟩
    have hall : (path :: paths).reverse.flatMap content ++ collected =
        paths.reverse.flatMap content ++ (content path ++ collected) := by
      simp
    rw [Files.collect, hbytes]
    dsimp only
    rw [htext]
    dsimp only
    rw [hlines, slice_append hcollected, hall]
    split_ifs with henough
    · have hlength : limit ≤ (content path ++ collected).length :=
        henough.trans (List.length_drop.trans_le (Nat.sub_le _ _))
      rw [rtake_append limit (paths.reverse.flatMap content), Nat.sub_eq_zero_of_le hlength,
        List.rtake_zero, List.nil_append]
    · have hshort : (content path ++ collected).length ≤ limit := by
        rw [List.rtake, List.length_drop] at henough
        omega
      have hsame := rtake_of_length_le hshort
      rw [hsame] at henough ⊢
      exact ih (Nat.lt_of_not_le henough) hread

theorem collect_zero (hread : ∀ path ∈ paths, ∃ bytes text, s.content path = some bytes ∧
      decode bytes = some text) : s.collect 0 paths [] = some [] := by
  cases paths with
  | nil => rfl
  | cons path paths =>
    rcases hread path List.mem_cons_self with ⟨bytes, text, hbytes, htext⟩
    rw [Files.collect, hbytes]
    dsimp only
    rw [htext]
    simp [slice, List.rtake]

end

/-! ### The invariant of a run -/

section

variable {Allowed : Files → Event → Prop} {old : Option (List Entry)} {events : List Event}
  {s : Files} {e : Entry} {kept : ℕ} {m : Month} {name : Text} {ps : List Piece}

def fullPiece (e : Entry) : Piece :=
  ⟨e, line e, List.prefix_refl _, fun h => List.append_ne_nil_of_right_ne_nil _ (by decide) h⟩

def oldPieces (old : Option (List Entry)) : List Piece := (old.getD []).map fullPiece

structure Holds (s : Files) (old : Option (List Entry)) (pieces : Text → List Piece) : Prop where
  monthly : ∀ name, (s.monthly.lookup name).getD [] = encode ((pieces name).flatMap Piece.text)
  full : ∀ name, ∀ p ∈ (pieces name).dropLast, p.Full
  legacy : s.legacy = old.map fun es => encode (es.flatMap line)
  ascending : s.monthly.keys.Pairwise (· < ·)
  past : ∀ name ∈ s.monthly.keys, name = s.month.name ∨ name < s.month.name

def allPieces (s : Files) (old : Option (List Entry)) (pieces : Text → List Piece) : List Piece :=
  oldPieces old ++ s.monthly.keys.flatMap pieces

theorem flatMap_text_eq_nil : ps.flatMap Piece.text = [] ↔ ps = [] := by
  constructor
  · intro h
    by_contra hne
    rcases List.exists_mem_of_ne_nil ps hne with ⟨p, hp⟩
    exact p.nonempty (List.flatMap_eq_nil_iff.mp h p hp)
  · rintro rfl
    rfl

theorem Holds.pieces_eq_nil {pieces : Text → List Piece} (h : Holds s old pieces)
    (hname : s.monthly.lookup name = none) : pieces name = [] := by
  have hbytes := h.monthly name
  rw [hname, Option.getD_none] at hbytes
  exact flatMap_text_eq_nil.mp (encode_eq_nil.mp hbytes.symm)

theorem Holds.full_of_not_torn {pieces : Text → List Piece} (h : Holds s old pieces)
    (htorn : s.torn = false) : ∀ p ∈ pieces s.month.name, p.Full := by
  have hfull := h.full s.month.name
  have hcurrent : s.current = encode ((pieces s.month.name).flatMap Piece.text) :=
    h.monthly s.month.name
  rcases List.eq_nil_or_concat (pieces s.month.name) with hnil | ⟨init, last, hconcat⟩
  · rw [hnil]
    intro p hp
    cases hp
  · rw [List.concat_eq_append] at hconcat
    rw [hconcat, List.dropLast_concat] at hfull
    rw [hconcat] at hcurrent ⊢
    refine List.forall_mem_append.mpr ⟨hfull, ?_⟩
    rw [List.forall_mem_singleton]
    by_contra hlast
    have hend : encode last.text ≠ [] := fun hnil => last.nonempty (encode_eq_nil.mp hnil)
    have hbyte : s.current.getLast? = some ((encode last.text).getLast hend) := by
      rw [hcurrent, List.flatMap_append, encode_append, List.flatMap_singleton,
        List.getLast?_append_of_ne_nil _ hend, List.getLast?_eq_some_getLast hend]
    have hten : (encode last.text).getLast hend = 10 := by
      rw [Files.torn, hbyte] at htorn
      simpa using htorn
    have hmem := mem_encode_ten (hten ▸ List.getLast_mem hend)
    rw [last.text_of_not_full hlast] at hmem
    exact absurd (last.raw_printable _ hmem) (by decide)

theorem Holds.start (m : Month) : Holds ⟨m, ∅, old.map fun es => encode (es.flatMap line)⟩ old
    fun _ => [] where
  monthly _ := rfl
  full _ _ hp := absurd hp (List.not_mem_nil)
  legacy := rfl
  ascending := .nil
  past _ hname := absurd hname (List.not_mem_nil)

theorem Holds.rollover {pieces : Text → List Piece} (h : Holds s old pieces)
    (later : s.month.Before m) : Holds { s with month := m } old pieces where
  monthly := h.monthly
  full := h.full
  legacy := h.legacy
  ascending := h.ascending
  past name hname := by
    have hlt := Month.name_lt later
    rcases h.past name hname with rfl | hpast
    · exact .inr hlt
    · exact .inr (List.lt_trans hpast hlt)

theorem Holds.keys_eq {pieces : Text → List Piece} (h : Holds s old pieces)
    (hname : s.month.name ∈ s.monthly.keys) :
    ∃ init, s.monthly.keys = init ++ [s.month.name] ∧ s.month.name ∉ init := by
  rcases List.mem_iff_append.mp hname with ⟨init, later, hkeys⟩
  have hascending := h.ascending
  rw [hkeys, List.pairwise_append, List.pairwise_cons] at hascending
  rcases hascending with ⟨_, ⟨hlater, _⟩, hinit⟩
  have hnil : later = [] := by
    apply List.eq_nil_iff_forall_not_mem.mpr
    intro name hmem
    have hlt := hlater name hmem
    rcases h.past name (by rw [hkeys]; simp [hmem]) with rfl | hpast
    · exact List.lt_irrefl _ hlt
    · exact List.lt_irrefl _ (List.lt_trans hlt hpast)
  rw [hnil] at hkeys
  exact ⟨init, hkeys, fun hmem => List.lt_irrefl _ (hinit _ hmem _ List.mem_cons_self)⟩

theorem keys_record (s : Files) (e : Entry) (kept : ℕ) :
    (s.record e kept).monthly.keys = if s.month.name ∈ s.monthly.keys then s.monthly.keys
      else s.monthly.keys ++ [s.month.name] := by
  split_ifs with hname
  · rcases Option.isSome_iff_exists.mp (AList.lookup_isSome.mpr (AList.mem_keys.mpr hname)) with
      ⟨bytes, hbytes⟩
    exact Dict.keys_set_of_some hbytes _
  · exact Dict.keys_set_of_none (AList.lookup_eq_none.mpr fun hmem => hname (AList.mem_keys.mp hmem)) _

theorem Holds.record {pieces : Text → List Piece} (h : Holds s old pieces) (new : List Piece)
    (hbytes : (encode (line e)).take kept = encode (new.flatMap Piece.text))
    (hfull : ∀ p ∈ (pieces s.month.name ++ new).dropLast, p.Full) :
    Holds (s.record e kept) old
      (Function.update pieces s.month.name (pieces s.month.name ++ new)) where
  monthly name := by
    have hcurrent : s.current = encode ((pieces s.month.name).flatMap Piece.text) :=
      h.monthly s.month.name
    rw [Files.record, Dict.lookup_set]
    by_cases hname : name = s.month.name
    · rw [if_pos hname, hname, Function.update_self, hcurrent, hbytes, List.flatMap_append,
        encode_append, Option.getD_some]
    · rw [if_neg hname, Function.update_of_ne hname]
      exact h.monthly name
  full name := by
    by_cases hname : name = s.month.name
    · rw [hname, Function.update_self]
      exact hfull
    · rw [Function.update_of_ne hname]
      exact h.full name
  legacy := h.legacy
  ascending := by
    rw [keys_record]
    split_ifs with hname
    · exact h.ascending
    · refine List.pairwise_append.mpr ⟨h.ascending, List.pairwise_singleton _ _, ?_⟩
      intro name hmem name' hname'
      rw [List.mem_singleton.mp hname']
      rcases h.past name hmem with rfl | hpast
      · exact absurd hmem hname
      · exact hpast
  past name hmem := by
    rw [keys_record] at hmem
    split_ifs at hmem
    · exact h.past name hmem
    · rcases List.mem_append.mp hmem with hmem | hmem
      · exact h.past name hmem
      · exact .inl (List.mem_singleton.mp hmem)

theorem Holds.allPieces_record {pieces : Text → List Piece} (h : Holds s old pieces)
    (e : Entry) (kept : ℕ) (new : List Piece) :
    allPieces (s.record e kept) old
        (Function.update pieces s.month.name (pieces s.month.name ++ new)) =
      allPieces s old pieces ++ new := by
  have hothers : ∀ names : List Text, s.month.name ∉ names →
      names.flatMap (Function.update pieces s.month.name (pieces s.month.name ++ new)) =
        names.flatMap pieces := by
    intro names hnot
    refine List.flatMap_congr fun name hname => Function.update_of_ne ?_ _ _
    rintro rfl
    exact hnot hname
  rw [allPieces, allPieces, keys_record]
  split_ifs with hname
  · rcases h.keys_eq hname with ⟨init, hkeys, hnot⟩
    rw [hkeys, List.flatMap_append, List.flatMap_append, hothers init hnot]
    simp
  · have hnil : pieces s.month.name = [] :=
      h.pieces_eq_nil (AList.lookup_eq_none.mpr fun hmem => hname (AList.mem_keys.mp hmem))
    rw [List.flatMap_append, hothers _ hname]
    simp [hnil]

theorem run_holds (h : Run Intact old events s) : ∃ pieces, Holds s old pieces ∧
    (allPieces s old pieces).map Piece.write = journal old events := by
  induction h with
  | start m =>
    refine ⟨fun _ => [], .start m, ?_⟩
    simp [allPieces, oldPieces, journal, fullPiece, Piece.write, Function.comp_def]
  | @record events s e kept run part allowed ih =>
    rcases ih with ⟨pieces, hholds, hjournal⟩
    rcases allowed with ⟨hplace, n, hn⟩
    have hevents : journal old (events ++ [.record e kept]) =
        journal old events ++ Event.left (.record e kept) := by
      simp [journal]
    by_cases hzero : kept = 0
    · refine ⟨_, hholds.record [] (by simp [hzero]) ?_, ?_⟩
      · rw [List.append_nil]
        exact hholds.full _
      · rw [hholds.allPieces_record, List.append_nil, hjournal, hevents, Event.left, if_pos hzero,
          List.append_nil]
    · have hne : (line e).take n ≠ [] := by
        intro hnil
        rw [hnil] at hn
        exact hzero hn
      -- the cut falls between two characters, so that a part of the line was written
      have htake : (encode (line e)).take kept = encode ((line e).take n) := by
        have hsplit : encode (line e) = encode ((line e).take n) ++ encode ((line e).drop n) := by
          rw [← encode_append, List.take_append_drop]
        rw [hsplit, List.take_left' hn.symm]
      have hfull := hholds.full_of_not_torn (hplace.resolve_left hzero)
      let piece : Piece := ⟨e, (line e).take n, List.take_prefix n _, hne⟩
      refine ⟨_, hholds.record [piece] ?_ ?_, ?_⟩
      · simpa [piece] using htake
      · rw [List.dropLast_concat]
        exact hfull
      · rw [hholds.allPieces_record, List.map_append, hjournal, hevents, Event.left,
          if_neg hzero]
        simp [piece, Piece.write, hn]
  | rollover run later allowed ih =>
    rcases ih with ⟨pieces, hholds, hjournal⟩
    refine ⟨pieces, hholds.rollover later, ?_⟩
    simpa [journal, Event.left, allPieces] using hjournal

/-! ### What is shown -/

theorem readPaths_reverse {pieces : Text → List Piece} (h : Holds s old pieces) :
    s.readPaths.reverse =
      (if s.legacy.isSome then [.legacy] else []) ++ s.monthly.keys.map .monthly := by
  have hsort : s.monthly.keys.mergeSort (fun name name' => name' ≤ name) =
      s.monthly.keys.reverse := by
    have hsorted : (s.monthly.keys.mergeSort fun name name' => name' ≤ name).Pairwise
        fun name name' => decide (name' ≤ name) :=
      List.pairwise_mergeSort (fun a b c => by simpa using fun hab hbc => le_trans hbc hab)
        (fun a b => by simpa using le_total b a) s.monthly.keys
    have hreverse : s.monthly.keys.reverse.Pairwise fun name name' => decide (name' ≤ name) :=
      List.pairwise_reverse.mpr (h.ascending.imp fun hlt => by simpa using (le_of_lt hlt : _ ≤ _))
    refine List.Perm.eq_of_pairwise (fun a b _ _ hab hba => ?_) hsorted hreverse
      ((List.mergeSort_perm _ _).trans (List.reverse_perm _).symm)
    exact le_antisymm (by simpa using hba) (by simpa using hab)
  rw [Files.readPaths, hsort, List.map_reverse, List.reverse_append, List.reverse_reverse]
  congr 1
  split_ifs <;> rfl

def linesOf (old : Option (List Entry)) (pieces : Text → List Piece) : Path → List Text
  | .monthly name => (pieces name).map Piece.raw
  | .legacy => (oldPieces old).map Piece.raw

theorem Holds.read {pieces : Text → List Piece} (h : Holds s old pieces) :
    ∀ path ∈ s.readPaths, ∃ bytes text, s.content path = some bytes ∧ decode bytes = some text ∧
      linesFrom [] text = linesOf old pieces path := by
  intro path hpath
  have hmem := List.mem_reverse.mpr hpath
  rw [readPaths_reverse h, List.mem_append] at hmem
  rcases hmem with hlegacy | hmonthly
  · have hsome : s.legacy.isSome = true := by
      by_contra hnot
      rw [if_neg hnot] at hlegacy
      exact absurd hlegacy (List.not_mem_nil)
    rw [if_pos hsome, List.mem_singleton] at hlegacy
    rw [hlegacy]
    rw [h.legacy, Option.isSome_map] at hsome
    rcases Option.isSome_iff_exists.mp hsome with ⟨es, hes⟩
    have htext : es.flatMap line = (oldPieces old).flatMap Piece.text := by
      rw [oldPieces, hes, Option.getD_some, List.flatMap_map]
      rfl
    refine ⟨_, _, (by rw [Files.content, h.legacy, hes, Option.map_some]), decode_encode _, ?_⟩
    rw [htext]
    apply linesFrom_pieces
    intro p hp
    rcases List.mem_map.mp (List.dropLast_subset _ hp) with ⟨e, _, rfl⟩
    rfl
  · rcases List.mem_map.mp hmonthly with ⟨name, hname, rfl⟩
    rcases Option.isSome_iff_exists.mp (AList.lookup_isSome.mpr (AList.mem_keys.mpr hname)) with
      ⟨bytes, hbytes⟩
    have hencode := h.monthly name
    rw [hbytes, Option.getD_some] at hencode
    refine ⟨bytes, (pieces name).flatMap Piece.text, hbytes, ?_, linesFrom_pieces (h.full name)⟩
    rw [hencode, decode_encode]

theorem Holds.recent {pieces : Text → List Piece} (h : Holds s old pieces) (limit : ℕ) :
    s.recent limit = some (lastEntries limit ((allPieces s old pieces).map Piece.write)) := by
  have hlines : s.readPaths.reverse.flatMap (linesOf old pieces) =
      (allPieces s old pieces).map Piece.raw := by
    have hold : (if s.legacy.isSome then [Path.legacy] else []).flatMap (linesOf old pieces) =
        (oldPieces old).map Piece.raw := by
      rw [h.legacy, Option.isSome_map]
      cases old with
      | none => rfl
      | some es => simp [linesOf]
    rw [readPaths_reverse h, List.flatMap_append, hold, List.flatMap_map, allPieces,
      List.map_append, List.map_flatMap]
    rfl
  have hcollect : s.collect limit s.readPaths [] =
      some (((allPieces s old pieces).map Piece.raw).rtake limit) := by
    rcases Nat.eq_zero_or_pos limit with rfl | hpos
    · rw [List.rtake_zero]
      refine collect_zero fun path hpath => ?_
      rcases h.read path hpath with ⟨bytes, text, hbytes, htext, _⟩
      exact ⟨bytes, text, hbytes, htext⟩
    · rw [collect_eq hpos h.read, hlines, List.append_nil]
  rw [Files.recent, hcollect, Option.map_some, lastEntries, List.rtake, List.rtake,
    List.length_map, List.length_map, ← List.map_drop, ← List.map_drop, List.filterMap_map,
    List.filterMap_map]
  refine congrArg some (List.filterMap_congr fun p _ => ?_)
  exact p.readLine_raw

/-- While nothing goes behind a torn line and no character is torn, what is shown are the whole
entries among the last ones, in the order in which they were recorded. -/
theorem entries_shown (h : Run Intact old events s) (limit : ℕ) :
    s.recent limit = some (lastEntries limit (journal old events)) := by
  rcases run_holds h with ⟨pieces, hholds, hjournal⟩
  rw [hholds.recent, hjournal]

end

/-! ### Samples -/

def july : Month := ⟨2026, 7, by decide⟩

def august : Month := ⟨2026, 8, by decide⟩

/-- An entry whose detail ends with a character of two bytes. -/
def restart : Entry where
  timestamp := ⟨2026, 7, 31, 12, 0, 0, 0, by decide⟩
  username := "jeremy".toList
  role := "owner".toList
  action := "RESTART".toList
  target := "minecraft".toList
  outcome := "allowed".toList
  detail := "é".toList

def empty : Files := ⟨july, ∅, none⟩

def rolledOver : Files := { empty.record restart 20 with month := august }

/-- August begins with another one. -/
theorem shown_after_torn :
    (rolledOver.record restart 164).recent 2 =
      some (lastEntries 2 (journal none
        [.record restart 20, .rollover august, .record restart 164])) := by
  have htorn : Intact empty (.record restart 20) := ⟨.inr rfl, 20, by decide +kernel⟩
  have hrest : Intact rolledOver (.record restart 164) :=
    ⟨.inr (by decide +kernel), 163, by decide +kernel⟩
  have hstart : Run Intact none [] empty := .start july
  have hrolled : Run Intact none [.record restart 20, .rollover august] rolledOver :=
    (hstart.record (by decide +kernel) htorn).rollover (by decide) trivial
  exact entries_shown (hrolled.record (by decide +kernel) hrest) 2

/-- An entry behind a torn line is lost, and with a torn character all of the journal is. -/
theorem lost_behind_torn :
    (Run (fun _ _ => True) none [.record restart 1, .record restart 164]
        ((empty.record restart 1).record restart 164) ∧
      ((empty.record restart 1).record restart 164).recent 50 ≠
        some (lastEntries 50 (journal none [.record restart 1, .record restart 164]))) ∧
    Run (fun _ _ => True) none [.record restart 164, .record restart 160]
        ((empty.record restart 164).record restart 160) ∧
      ((empty.record restart 164).record restart 160).recent 50 ≠
        some (lastEntries 50 (journal none [.record restart 164, .record restart 160])) := by
  have hstart : Run (fun _ _ => True) none [] empty := .start july
  refine ⟨⟨?_, fun h => ?_⟩, ?_, fun h => ?_⟩
  · exact (hstart.record (by decide +kernel) trivial).record (by decide +kernel) trivial
  · have hshown : (((empty.record restart 1).record restart 164).recent 50).map List.length =
        some 0 := by decide +kernel
    have hexpected : (lastEntries 50 (journal none
        [.record restart 1, .record restart 164])).length = 1 := by decide +kernel
    rw [h, Option.map_some, hexpected] at hshown
    cases hshown
  · exact (hstart.record (by decide +kernel) trivial).record (by decide +kernel) trivial
  · have hshown : ((empty.record restart 164).record restart 160).recent 50 = none := by
      decide +kernel
    rw [h] at hshown
    cases hshown

end AuditJournal
