import Mathlib.Data.List.Basic
import McAdmin.Runs

/-!
# The tail of the server's log

The server appends to `latest.log` in chunks and now and then begins a new file under the same
name.  `_consume_new_lines` remembers how far it has read as a number of bytes, and nothing
else: neither which file that was, nor whether it stopped at the end of a line.
-/

namespace LogTail

open Runs

/-! ### Lines -/

abbrev Content := List UInt8

def lineFeed : UInt8 := 10

def carriageReturn : UInt8 := 13

def isLineEnd (b : UInt8) : Bool := b = lineFeed || b = carriageReturn

/-- `for line in fh`: a line ends with a line feed, a carriage return or both, which reads as
one line feed, and the last one may lack it.  The flag tells that a carriage return came just
before, and `line` is what the line under way has so far. -/
def linesFrom : Bool → Content → Content → List Content
  | _, line, [] => if line = [] then [] else [line]
  | afterReturn, line, b :: rest =>
    if b = lineFeed then
      if afterReturn then linesFrom false [] rest
      else (line ++ [lineFeed]) :: linesFrom false [] rest
    else if b = carriageReturn then (line ++ [lineFeed]) :: linesFrom true [] rest
    else linesFrom false (line ++ [b]) rest

def lines (content : Content) : List Content := linesFrom false [] content

def completeFrom : Bool → Content → Content → List Content
  | _, _, [] => []
  | afterReturn, line, b :: rest =>
    if b = lineFeed then
      if afterReturn then completeFrom false [] rest
      else (line ++ [lineFeed]) :: completeFrom false [] rest
    else if b = carriageReturn then (line ++ [lineFeed]) :: completeFrom true [] rest
    else completeFrom false (line ++ [b]) rest

def completeLines (content : Content) : List Content := completeFrom false [] content

/-! ### The log and its tailer -/

structure State where
  /-- What the file holds, `none` while there is none. -/
  file : Option Content
  /-- The files begin one after the other, and are numbered. -/
  generation : ℕ := 0
  /-- How far the tailer has read, once it is ready. -/
  position : Option ℕ := none
  /-- The lines given to the handler, with the file they come from. -/
  handed : List (ℕ × Content) := []
  /-- What of the file was there when the tailer became ready. -/
  since : ℕ := 0
  /-- The file has begun since the last look at it. -/
  rotated : Bool := false

inductive Event where
  | append (chunk : Content)
  /-- A new file takes the place of the old one. -/
  | rotate
  | remove
  /-- `_initial_position` -/
  | ready
  /-- `_consume_new_lines` -/
  | poll

def initialPosition (s : State) : ℕ :=
  match s.file with
  | none => 0
  | some content => content.length

def consumeNewLines (position : ℕ) (s : State) : State :=
  match s.file with
  | none => s
  | some content =>
    let position := if content.length < position then 0 else position
    { s with
      position := some content.length
      handed := s.handed ++ (lines (content.drop position)).map fun line => (s.generation, line)
      rotated := false }

def step (s : State) : Event → State
  | .append chunk => { s with file := s.file.map (· ++ chunk) }
  | .rotate =>
    { s with file := some [], generation := s.generation + 1, since := 0, rotated := true }
  | .remove => { s with file := none }
  | .ready =>
    match s.position with
    | some _ => s
    | none =>
      { s with position := some (initialPosition s), since := initialPosition s, rotated := false }
  | .poll =>
    match s.position with
    | none => s
    | some position => consumeNewLines position s

def start (file : Option Content) : State := { file }

def State.handedOf (s : State) (generation : ℕ) : List Content :=
  (s.handed.filter (·.1 = generation)).map (·.2)

/-- After a look at the file, the handler has had each complete line written to it since the
tailer was ready, once, whole and in order, and nothing more of the files before. -/
def HandedOnce (s : State) : Event → Prop
  | .poll => ∀ content ∈ s.file, s.position.isSome = true →
      (step s .poll).handedOf s.generation = completeLines (content.drop s.since) ∧
        ∀ generation, generation ≠ s.generation →
          (step s .poll).handedOf generation = s.handedOf generation
  | _ => True

def readsFrom (position : ℕ) (content : Content) : ℕ :=
  if content.length < position then 0 else position

def EndsLine (content : Content) : Prop := ∀ b ∈ content.getLast?, isLineEnd b = true

/-- The position falls between the two bytes of one line end. -/
def SplitsLineEnd (position : ℕ) (content : Content) : Prop :=
  content[position - 1]? = some carriageReturn ∧ content[position]? = some lineFeed

/-- A look ends where a line ends, and a file that has begun since the look before it is
shorter than the position, unless nothing had been read. -/
def Whole (s : State) : Event → Prop
  | .poll => ∀ content ∈ s.file, ∀ position ∈ s.position,
      EndsLine (content.drop (readsFrom position content)) ∧
        if s.rotated then position = 0 ∨ content.length < position
        else s.since < position → ¬ SplitsLineEnd position content
  | _ => True

/-! ### Lines of a text that is read in two parts -/

section

variable {content read fresh line : Content} {afterReturn : Bool} {b : UInt8}

theorem EndsLine.tail (h : EndsLine (b :: content)) : EndsLine content := by
  intro last hlast
  apply h last
  rw [List.getLast?_cons, Option.mem_def.mp hlast]
  rfl

theorem EndsLine.append (hread : EndsLine read) (hfresh : EndsLine fresh) :
    EndsLine (read ++ fresh) := by
  intro last hlast
  rw [List.getLast?_append] at hlast
  cases hlastFresh : fresh.getLast? with
  | none =>
    rw [hlastFresh] at hlast
    exact hread last hlast
  | some other =>
    rw [hlastFresh] at hlast
    exact hfresh last (hlastFresh ▸ hlast)

theorem linesFrom_eq (h : EndsLine content) (hline : content = [] → line = []) :
    linesFrom afterReturn line content = completeFrom afterReturn line content := by
  induction content generalizing afterReturn line with
  | nil => simp [linesFrom, completeFrom, hline rfl]
  | cons b rest ih =>
    have hrest : ∀ {flag : Bool}, linesFrom flag [] rest = completeFrom flag [] rest :=
      ih h.tail fun _ => rfl
    simp only [linesFrom, completeFrom]
    split
    · split
      · exact hrest
      · rw [hrest]
    split
    · rw [hrest]
    · rename_i hfeed hreturn
      apply ih h.tail
      intro hnil
      have hlast := h b (by rw [hnil]; rfl)
      simp [isLineEnd, hfeed, hreturn] at hlast

theorem lines_eq (h : EndsLine content) : lines content = completeLines content :=
  linesFrom_eq h fun _ => rfl

theorem completeFrom_cons (afterReturn : Bool) (line : Content) (b : UInt8) (rest : Content) :
    completeFrom afterReturn line (b :: rest) =
      if b = lineFeed then
        if afterReturn then completeFrom false [] rest
        else (line ++ [lineFeed]) :: completeFrom false [] rest
      else if b = carriageReturn then (line ++ [lineFeed]) :: completeFrom true [] rest
      else completeFrom false (line ++ [b]) rest := rfl

theorem completeFrom_append {last : UInt8} (hlast : read.getLast? = some last)
    (hend : isLineEnd last = true) :
    completeFrom afterReturn line (read ++ fresh) =
      completeFrom afterReturn line read ++
        completeFrom (decide (last = carriageReturn)) [] fresh := by
  induction read generalizing afterReturn line with
  | nil => cases hlast
  | cons b rest ih =>
    rw [List.getLast?_cons] at hlast
    rw [List.cons_append, completeFrom_cons, completeFrom_cons afterReturn line b rest]
    cases hrest : rest.getLast? with
    | none =>
      rw [hrest, Option.getD_none] at hlast
      obtain rfl := Option.some.inj hlast
      rw [List.getLast?_eq_none_iff.mp hrest]
      by_cases hfeed : b = lineFeed
      · have hreturn : ¬ b = carriageReturn := by rw [hfeed]; decide
        rw [if_pos hfeed, if_pos hfeed, decide_eq_false hreturn]
        split
        · rfl
        · rfl
      · have hreturn : b = carriageReturn := by
          simpa only [isLineEnd, hfeed, decide_false, Bool.false_or, decide_eq_true_eq] using hend
        rw [if_neg hfeed, if_neg hfeed, if_pos hreturn, if_pos hreturn, decide_eq_true hreturn]
        rfl
    | some last' =>
      rw [hrest] at hlast
      have hsame : rest.getLast? = some last := hrest.trans hlast
      split
      · split
        · exact ih hsame
        · rw [ih hsame, List.cons_append]
      split
      · rw [ih hsame, List.cons_append]
      · exact ih hsame

theorem completeFrom_afterReturn (h : fresh.head? ≠ some lineFeed) :
    completeFrom true [] fresh = completeFrom false [] fresh := by
  cases fresh with
  | nil => rfl
  | cons b rest =>
    have hb : b ≠ lineFeed := fun heq => h (by rw [heq]; rfl)
    simp [completeFrom, hb]

theorem completeLines_append (hread : EndsLine read)
    (hsplit : ¬ (read.getLast? = some carriageReturn ∧ fresh.head? = some lineFeed)) :
    completeLines (read ++ fresh) = completeLines read ++ completeLines fresh := by
  cases hlast : read.getLast? with
  | none =>
    rw [List.getLast?_eq_none_iff.mp hlast]
    rfl
  | some last =>
    rw [completeLines, completeFrom_append hlast (hread last hlast)]
    by_cases hreturn : last = carriageReturn
    · have hhead : fresh.head? ≠ some lineFeed := fun heq => hsplit ⟨hreturn ▸ hlast, heq⟩
      rw [decide_eq_true hreturn, completeFrom_afterReturn hhead]
      rfl
    · rw [decide_eq_false hreturn]
      rfl

end

/-! ### What has been read -/

section

variable {s : State} {content : Content} {position : ℕ}

def ReadUpTo (content : Content) (position : ℕ) (s : State) : Prop :=
  ∃ old read fresh, content = old ++ read ++ fresh ∧ s.since = old.length ∧
    position = (old ++ read).length ∧ EndsLine read ∧
    s.handedOf s.generation = completeLines read

structure Invariant (s : State) : Prop where
  tags : ∀ line ∈ s.handed, line.1 ≤ s.generation
  unready : s.position = none → s.handed = []
  here : ∀ content position, s.file = some content → s.position = some position →
    s.rotated = false → ReadUpTo content position s
  begun : s.rotated = true → s.since = 0 ∧ s.handedOf s.generation = []

theorem handedOf_append (s : State) (given : List Content) (generation : ℕ) (position : Option ℕ)
    (rotated : Bool) :
    State.handedOf { s with
      position := position
      handed := s.handed ++ given.map fun line => (s.generation, line)
      rotated := rotated } generation =
      s.handedOf generation ++ if generation = s.generation then given else [] := by
  simp only [State.handedOf, List.filter_append, List.map_append]
  congr 1
  split
  · rename_i heq
    simp [heq, List.filter_map, Function.comp_def]
  · rename_i hne
    have hne' : s.generation ≠ generation := fun heq => hne heq.symm
    simp [List.filter_map, Function.comp_def, hne']

theorem handedOf_eq_nil (h : ∀ line ∈ s.handed, line.1 ≠ position) : s.handedOf position = [] := by
  simp only [State.handedOf, List.map_eq_nil_iff, List.filter_eq_nil_iff, decide_eq_true_eq]
  exact h

theorem splitsLineEnd_of_ends {old read fresh : Content} (hread : read.getLast? = some carriageReturn)
    (hfresh : fresh.head? = some lineFeed) :
    SplitsLineEnd (old ++ read).length (old ++ read ++ fresh) := by
  have hlast : (old ++ read).getLast? = some carriageReturn := by
    rw [List.getLast?_append, hread]
    rfl
  have hne : old ++ read ≠ [] := by
    intro hnil
    rw [hnil] at hlast
    cases hlast
  have hpos : (old ++ read).length - 1 < (old ++ read).length :=
    Nat.sub_lt (List.length_pos_iff.mpr hne) Nat.one_pos
  constructor
  · rw [List.getElem?_append_left hpos, ← List.getLast?_eq_getElem?]
    exact hlast
  · rw [List.getElem?_append_right (Nat.le_refl _), Nat.sub_self, ← List.head?_eq_getElem?]
    exact hfresh

theorem handed_of_poll (h : Invariant s) (hfile : s.file = some content)
    (hposition : s.position = some position) (hwhole : Whole s .poll) :
    s.handedOf s.generation ++ lines (content.drop (readsFrom position content)) =
      completeLines (content.drop s.since) ∧ EndsLine (content.drop s.since) ∧
      s.since ≤ content.length := by
  rcases hwhole content hfile position hposition with ⟨hends, hcut⟩
  cases hrotated : s.rotated with
  | true =>
    rcases h.begun hrotated with ⟨hsince, hnone⟩
    rw [hrotated] at hcut
    -- a new file is read from its start, and nothing of it was handed before
    have hstart : readsFrom position content = 0 := by
      simp only [readsFrom]
      rcases hcut with hzero | hshorter
      · rw [hzero]
        exact ite_self 0
      · exact if_pos hshorter
    rw [hstart] at hends ⊢
    rw [hnone, hsince, lines_eq hends]
    exact ⟨rfl, hends, Nat.zero_le _⟩
  | false =>
    rcases h.here content position hfile hposition hrotated with
      ⟨old, read, fresh, rfl, hsince, hp, hread, hhanded⟩
    have hstart : readsFrom position (old ++ read ++ fresh) = position := by
      apply if_neg
      simp only [hp, List.length_append]
      omega
    -- the same file goes on: what is read now follows what was read
    have hfresh : (old ++ read ++ fresh).drop position = fresh := by
      rw [hp, List.drop_left]
    have hwritten : (old ++ read ++ fresh).drop s.since = read ++ fresh := by
      rw [hsince, List.append_assoc, List.drop_left]
    rw [hstart, hfresh] at hends
    rw [hstart, hfresh, hwritten, hhanded, lines_eq hends]
    refine ⟨(completeLines_append hread ?_).symm, hread.append hends, ?_⟩
    -- a line end of two bytes is never read in two parts
    · rintro ⟨hlast, hhead⟩
      rw [hrotated] at hcut
      have hsplits : SplitsLineEnd (old ++ read).length (old ++ read ++ fresh) :=
        splitsLineEnd_of_ends hlast hhead
      rw [← hp] at hsplits
      refine hcut ?_ hsplits
      have hne : read ≠ [] := by
        intro hnil
        rw [hnil] at hlast
        cases hlast
      rw [hsince, hp, List.length_append]
      exact Nat.lt_add_of_pos_right (List.length_pos_iff.mpr hne)
    · rw [hsince, List.length_append, List.length_append]
      omega

/-! ### Steps -/

theorem Invariant.append (h : Invariant s) (chunk : Content) :
    Invariant (step s (.append chunk)) := by
  refine ⟨h.tags, h.unready, ?_, h.begun⟩
  intro content position hfile hposition hrotated
  rcases Option.map_eq_some_iff.mp hfile with ⟨before, hbefore, rfl⟩
  rcases h.here before position hbefore hposition hrotated with
    ⟨old, read, fresh, rfl, hsince, hp, hread, hhanded⟩
  exact ⟨old, read, fresh ++ chunk, List.append_assoc _ _ _, hsince, hp, hread, hhanded⟩

theorem Invariant.rotate (h : Invariant s) : Invariant (step s .rotate) := by
  refine ⟨?_, h.unready, fun _ _ _ _ hrotated => (nomatch hrotated), fun _ => ⟨rfl, ?_⟩⟩
  · exact fun line hline => Nat.le_succ_of_le (h.tags line hline)
  · apply handedOf_eq_nil
    intro line hline
    exact Nat.ne_of_lt (Nat.lt_succ_of_le (h.tags line hline))

theorem Invariant.ready (h : Invariant s) : Invariant (step s .ready) := by
  simp only [step]
  split
  · exact h
  rename_i hnone
  have hhanded := h.unready hnone
  refine ⟨h.tags, fun _ => hhanded, ?_, fun hrotated => (nomatch hrotated)⟩
  intro content position hfile hposition _
  have hfile' : s.file = some content := hfile
  have hlength : initialPosition s = content.length := by simp only [initialPosition, hfile']
  obtain rfl := Option.some.inj hposition
  refine ⟨content, [], [], by simp, hlength, by simp [hlength], fun _ hlast => (nomatch hlast), ?_⟩
  exact handedOf_eq_nil fun line hline => by rw [hhanded] at hline; cases hline

theorem step_poll (hfile : s.file = some content) (hposition : s.position = some position) :
    step s .poll = { s with
      position := some content.length
      handed := s.handed ++
        (lines (content.drop (readsFrom position content))).map fun line => (s.generation, line)
      rotated := false } := by
  simp only [step, consumeNewLines, hfile, hposition]
  rfl

theorem Invariant.poll (h : Invariant s) (hwhole : Whole s .poll) : Invariant (step s .poll) := by
  cases hposition : s.position with
  | none =>
    simp only [step, hposition]
    exact h
  | some position =>
    cases hfile : s.file with
    | none =>
      simp only [step, hposition, consumeNewLines, hfile]
      exact h
    | some content =>
      rcases handed_of_poll h hfile hposition hwhole with ⟨hhanded, hends, hsince⟩
      rw [step_poll hfile hposition]
      refine ⟨?_, fun hnone => (nomatch hnone), ?_, fun hrotated => (nomatch hrotated)⟩
      · intro line hline
        rcases List.mem_append.mp hline with hbefore | hnow
        · exact h.tags line hbefore
        · rcases List.mem_map.mp hnow with ⟨_, _, rfl⟩
          exact Nat.le_refl _
      · intro content' position' hfile' hposition' _
        obtain rfl := Option.some.inj (hfile.symm.trans hfile')
        obtain rfl := Option.some.inj hposition'
        refine ⟨content.take s.since, content.drop s.since, [], ?_, ?_, ?_, hends, ?_⟩
        · rw [List.append_nil, List.take_append_drop]
        · exact (List.length_take_of_le hsince).symm
        · rw [List.take_append_drop]
        · rw [handedOf_append, if_pos rfl]
          exact hhanded

theorem Invariant.step (h : Invariant s) {event : Event} (hwhole : Whole s event) :
    Invariant (step s event) := by
  cases event with
  | append chunk => exact h.append chunk
  | rotate => exact h.rotate
  | remove => exact ⟨h.tags, h.unready, fun _ _ hfile => (nomatch hfile), h.begun⟩
  | ready => exact h.ready
  | poll => exact h.poll hwhole

theorem Invariant.handedOnce (h : Invariant s) {event : Event} (hwhole : Whole s event) :
    HandedOnce s event := by
  cases event with
  | poll =>
    intro content hfile hready
    rcases Option.isSome_iff_exists.mp hready with ⟨position, hposition⟩
    rw [step_poll hfile hposition]
    constructor
    · rw [handedOf_append, if_pos rfl]
      exact (handed_of_poll h hfile hposition hwhole).1
    · intro generation hne
      rw [handedOf_append, if_neg hne, List.append_nil]
  | append chunk => trivial
  | rotate => trivial
  | remove => trivial
  | ready => trivial

theorem invariant_start (file : Option Content) : Invariant (start file) := by
  refine ⟨fun _ hline => absurd hline List.not_mem_nil, fun _ => rfl, ?_, ?_⟩
  · intro content position _ hposition
    cases hposition
  · intro hrotated
    cases hrotated

/-- In every run whose looks end where a line ends, and in which a file that has begun since
the look before is shorter than the position: after every look, the handler has had each
complete line of the file since the tailer was ready once, whole and in order. -/
theorem lines_handed_once (file : Option Content) (events : List Event)
    (hwhole : Along step Whole (start file) events) :
    Along step HandedOnce (start file) events :=
  Along.of_invariant (P := Invariant) (fun _ _ h => h.step) (fun _ _ h => h.handedOnce)
    (invariant_start file) hwhole

end

/-! ### Small runs -/

instance (content : Content) : Decidable (EndsLine content) :=
  inferInstanceAs (Decidable (∀ b ∈ content.getLast?, isLineEnd b = true))

instance (position : ℕ) (content : Content) : Decidable (SplitsLineEnd position content) :=
  inferInstanceAs (Decidable (_ ∧ _))

instance (s : State) : ∀ event, Decidable (Whole s event)
  | .poll => inferInstanceAs (Decidable (∀ content ∈ s.file, ∀ position ∈ s.position,
      EndsLine (content.drop (readsFrom position content)) ∧
        if s.rotated then position = 0 ∨ content.length < position
        else s.since < position → ¬ SplitsLineEnd position content))
  | .append _ => instDecidableTrue
  | .rotate => instDecidableTrue
  | .remove => instDecidableTrue
  | .ready => instDecidableTrue

def text (s : String) : Content := s.toList.map fun c => UInt8.ofNat c.toNat

/-- A line comes in two chunks between two looks, and the next file is still short when it is
looked at. -/
def sampleEvents : List Event := [
  .ready, .append (text "alice jo"), .append (text "ined the game\r\n"), .poll, .poll,
  .append (text "alice left the game\n"), .poll, .rotate, .append (text "bob joined the game\n"),
  .poll, .remove, .poll]

theorem lines_handed_once_sample :
    Along step HandedOnce (start (some (text "an old line\n"))) sampleEvents :=
  lines_handed_once _ sampleEvents (by decide +kernel)

/-- The file begins anew and grows past the position before the next look: its first lines are
never read. -/
theorem grown_file_missed :
    ¬ ∀ (file : Option Content) (events : List Event), Along step HandedOnce (start file) events := by
  intro h
  let before : List Event := [
    .ready, .append (text "alice joined the game\n"), .poll, .rotate,
    .append (text "alice left the game\nbob joined the game\n")]
  have hpolled := h (some []) (before ++ [.poll])
  rw [along_append] at hpolled
  have hpoll := hpolled.2.1
  have hhanded := (hpoll (text "alice left the game\nbob joined the game\n") (by decide +kernel)
    (by decide +kernel)).1
  have hlost : (step (run step (start (some [])) before) .poll).handedOf 1 =
      [text "b joined the game\n"] := by
    decide +kernel
  rw [show (run step (start (some [])) before).generation = 1 from rfl, hlost] at hhanded
  exact absurd hhanded (by decide +kernel)

end LogTail
