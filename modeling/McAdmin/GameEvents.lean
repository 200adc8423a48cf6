import McAdmin.Pattern

/-!
# The game facts of a log line

`parseLine` reads one line of the server's log: a chat message, an advancement, or
one of the death messages of the table, tried in the order of the table.
-/

namespace GameEvents

open Backtracking

inductive Kind where
  | death
  | advancement
  | chat
deriving DecidableEq

structure GameEvent where
  kind : Kind
  player : Text
  key : String := ""
  cause : String := ""
  killer : Text := []
  killerId : Text := []
  weapon : Text := []
  detail : Text := []
  raw : Text := []
deriving DecidableEq

/-! ### The patterns -/

/-- `.` -/
def isDot (c : Char) : Bool := c != '\n'

def isNameChar (c : Char) : Bool := c.isAlphanum || c == '_'

def notBracket (c : Char) : Bool := c != ']'

/-- `[A-Za-z0-9_]{3,16}` -/
def name : Pattern := .many true isNameChar 3 (some 16)

/-- `.{1,48}?` -/
def killer : Pattern := .many false isDot 1 (some 48)

/-- `.+` -/
def anything : Pattern := .many true isDot 1 none

/-- `\d{2}:\d{2}:\d{2}` -/
def clock (u : CharTable) : Pattern :=
  .many true u.isDecimal 2 (some 2) ++ .str ":" ++ .many true u.isDecimal 2 (some 2) ++
    .str ":" ++ .many true u.isDecimal 2 (some 2)

def lineRe (u : CharTable) : Pattern :=
  .str "[" ++ clock u ++ .str "] [" ++ .group (.many true notBracket 1 none) ++
    .str "/INFO]: " ++ .group anything ++ .stop

def serverThread : Text := "Server thread".toList

def chatThreadRe (u : CharTable) : Pattern :=
  .str "Async Chat Thread - #" ++ .many true u.isDecimal 1 none ++ .stop

def chatRe : Pattern :=
  .str "<" ++ .group name ++ .str "> " ++ .group anything ++ .stop

def advancementRe : Pattern :=
  .group name ++ .str " has " ++
    .alt (.alt (.str "made the advancement") (.str "completed the challenge"))
      (.str "reached the goal") ++
    .str " [" ++ .group anything ++ .str "]" ++ .stop

/-! ### The death messages -/

/-- A message: its text, what follows the killer when it names one, its key and cause. -/
structure Death where
  text : String
  afterKiller : Option String
  key : String
  cause : String

/-- The order counts: a message with a killer comes before the same one without. -/
def deaths : List Death :=
  [⟨"was slain by ", some "", "slain_by", "attack"⟩,
   ⟨"was shot by ", some "", "shot_by", "projectile"⟩,
   ⟨"was pummeled by ", some "", "pummeled_by", "attack"⟩,
   ⟨"was fireballed by ", some "", "fireballed_by", "fire"⟩,
   ⟨"was impaled by ", some "", "impaled_by", "attack"⟩,
   ⟨"was speared by ", some "", "speared_by", "projectile"⟩,
   ⟨"was blown up by ", some "", "blown_up_by", "explosion"⟩,
   ⟨"was squashed by ", some "", "squashed_by", "crush"⟩,
   ⟨"was stung to death by ", some "", "stung_by", "sting"⟩,
   ⟨"was killed by ", some " using magic", "magic_by", "magic"⟩,
   ⟨"was killed by ", some "", "killed_by", "attack"⟩,
   ⟨"was doomed to fall by ", some "", "doomed_to_fall_by", "fall"⟩,
   ⟨"was burnt to a crisp whilst fighting ", some "", "burnt_fighting", "fire"⟩,
   ⟨"walked into fire whilst fighting ", some "", "fire_fighting", "fire"⟩,
   ⟨"walked into a cactus whilst trying to escape ", some "", "cactus_escaping", "cactus"⟩,
   ⟨"drowned whilst trying to escape ", some "", "drowned_escaping", "drown"⟩,
   ⟨"tried to swim in lava to escape ", some "", "lava_escaping", "lava"⟩,
   ⟨"hit the ground too hard whilst trying to escape ", some "", "fall_escaping", "fall"⟩,
   ⟨"didn't want to live in the same world as ", some "", "despair", "magic"⟩,
   ⟨"was killed while trying to hurt ", some "", "thorns", "thorns"⟩,
   ⟨"was impaled on a stalagmite whilst fighting ", some "", "stalagmite_fighting", "crush"⟩,
   ⟨"fell from a high place", none, "fell_high", "fall"⟩,
   ⟨"fell off a ladder", none, "fell_ladder", "fall"⟩,
   ⟨"fell off some vines", none, "fell_vines", "fall"⟩,
   ⟨"fell off scaffolding", none, "fell_scaffolding", "fall"⟩,
   ⟨"fell while climbing", none, "fell_climbing", "fall"⟩,
   ⟨"was doomed to fall", none, "doomed_to_fall", "fall"⟩,
   ⟨"fell out of the world", none, "void", "void"⟩,
   ⟨"hit the ground too hard", none, "ground_too_hard", "fall"⟩,
   ⟨"experienced kinetic energy", none, "kinetic", "kinetic"⟩,
   ⟨"was squashed by a falling anvil", none, "anvil", "crush"⟩,
   ⟨"was squashed by a falling block", none, "falling_block", "crush"⟩,
   ⟨"was skewered by a falling stalactite", none, "stalactite", "crush"⟩,
   ⟨"was impaled on a stalagmite", none, "stalagmite", "crush"⟩,
   ⟨"drowned", none, "drowned", "drown"⟩,
   ⟨"burned to death", none, "burned", "fire"⟩,
   ⟨"went up in flames", none, "in_flames", "fire"⟩,
   ⟨"was burnt to a crisp", none, "burnt_crisp", "fire"⟩,
   ⟨"discovered the floor was lava", none, "floor_was_lava", "lava"⟩,
   ⟨"tried to swim in lava", none, "swim_in_lava", "lava"⟩,
   ⟨"walked into danger zone due to intentional game design", none, "danger_zone", "lava"⟩,
   ⟨"was struck by lightning", none, "lightning", "lightning"⟩,
   ⟨"froze to death", none, "froze", "freeze"⟩,
   ⟨"starved to death", none, "starved", "starve"⟩,
   ⟨"suffocated in a wall", none, "suffocated", "suffocation"⟩,
   ⟨"was squished too much", none, "squished", "suffocation"⟩,
   ⟨"withered away", none, "withered", "wither"⟩,
   ⟨"was pricked to death", none, "pricked", "cactus"⟩,
   ⟨"walked into a cactus", none, "walked_into_cactus", "cactus"⟩,
   ⟨"was poked to death by a sweet berry bush", none, "berry_bush", "berry"⟩,
   ⟨"was obliterated by a sonically-charged shriek", none, "sonic_boom", "sonic"⟩,
   ⟨"was roasted in dragon's breath", none, "dragon_breath", "dragon_breath"⟩,
   ⟨"went off with a bang", none, "firework", "firework"⟩,
   ⟨"was killed by even more magic", none, "more_magic", "magic"⟩,
   ⟨"was killed by magic", none, "magic", "magic"⟩,
   ⟨"died", none, "died", "unknown"⟩]

def Death.pattern (d : Death) : Pattern :=
  match d.afterKiller with
  | none => .str d.text
  | some after => .str d.text ++ .group killer ++ .str after

def deathRe (d : Death) : Pattern :=
  .group name ++ .str " " ++ d.pattern ++
    .opt (.str " using " ++ .opt (.str "[") ++ .group (.many true notBracket 1 none) ++
      .opt (.str "]")) ++
    .stop

/-! ### Reading a line -/

def isEntityWord : Text → Bool
  | [] => false
  | c :: letters => c.isUpper && letters.all Char.isAlpha

/-- `^[A-Z][A-Za-z]*(?: [A-Z][A-Za-z]*)*$`, where `$` allows for one final newline. -/
def isEntityName (name : Text) : Bool :=
  let words := if name.getLast? = some '\n' then name.dropLast else name
  (words.splitOn ' ').all isEntityWord

def entityId (name : Text) : Text :=
  if name = [] ∨ ¬ isEntityName name then []
  else "minecraft:".toList ++
    (name.map Char.toLower).map fun c => if c = ' ' then '_' else c

/-- The event of a death message: the victim is the first group, the weapon the last,
and the killer between them when the message has one. -/
def deathEvent (d : Death) (found : Hit) (body : Text) : GameEvent :=
  let killer := if found.captures.length = 3 then found.group 2 else []
  { kind := .death, player := found.group 1, key := d.key, cause := d.cause, killer,
    killerId := entityId killer, weapon := (found.captures.getLastD none).getD [], raw := body }

def parseDeath (body : Text) : Option GameEvent :=
  deaths.findSome? fun d => ((deathRe d).atStart body).map fun found => deathEvent d found body

def parseFact (body : Text) : Option GameEvent :=
  match advancementRe.atStart body with
  | some found =>
    some { kind := .advancement, player := found.group 1, key := "advancement",
           detail := found.group 2, raw := body }
  | none => parseDeath body

def parseBody (u : CharTable) (thread body : Text) : Option GameEvent :=
  if thread ≠ serverThread ∧ (chatThreadRe u).atStart thread = none then none
  else match chatRe.atStart body with
  | some found =>
    some { kind := .chat, player := found.group 1, key := "chat",
           detail := found.group 2, raw := body }
  | none =>
    if thread ≠ serverThread then none
    else if ['<'].isPrefixOf body then none
    else parseFact body

def parseLine (u : CharTable) (line : Text) : Option GameEvent :=
  match (lineRe u).atStart (line.rdropWhile (· == '\n')) with
  | none => none
  | some found => parseBody u (found.group 1) (u.strip (found.group 2))

/-! ### What a line that no player's name opens can carry -/

theorem starts_name : Starts (.group name) isNameChar :=
  Starts.group (starts_many (by decide))

theorem starts_deathRe (d : Death) : Starts (deathRe d) isNameChar := by
  unfold deathRe
  exact starts_name.append.append.append.append

theorem starts_advancementRe : Starts advancementRe isNameChar := by
  unfold advancementRe
  exact starts_name.append.append.append.append.append.append

theorem parseFact_eq_none {c : Char} (hc : isNameChar c = false) (t : Text) :
    parseFact (c :: t) = none := by
  unfold parseFact
  rw [starts_advancementRe.atStart_eq_none hc]
  unfold parseDeath
  rw [List.findSome?_eq_none_iff]
  intro d _
  rw [(starts_deathRe d).atStart_eq_none hc]
  rfl

theorem parseBody_chat {u : CharTable} {thread t : Text} {c : Char} {event : GameEvent}
    (hc : isNameChar c = false) (h : parseBody u thread (c :: t) = some event) :
    event.kind = .chat := by
  unfold parseBody at h
  split at h
  · contradiction
  · split at h
    · obtain rfl := Option.some.inj h
      rfl
    · split at h
      · contradiction
      · split at h
        · contradiction
        · rw [parseFact_eq_none hc] at h
          contradiction

/-! ### The shape of a line -/

theorem strip_cons {u : CharTable} {c : Char} (hc : u.isSpace c = false) (t : Text) :
    ∃ t', u.strip (c :: t) = c :: t' := by
  unfold CharTable.strip
  rw [List.dropWhile_cons_of_neg (by simp [hc])]
  have hne : List.rdropWhile u.isSpace (c :: t) ≠ [] := by
    intro hnil
    have hall := List.rdropWhile_eq_nil_iff.mp hnil c List.mem_cons_self
    rw [hc] at hall
    exact absurd hall Bool.false_ne_true
  obtain ⟨d, t', ht'⟩ := List.exists_cons_of_ne_nil hne
  have hstarts := List.rdropWhile_prefix u.isSpace (c :: t)
  rw [ht', List.cons_prefix_cons] at hstarts
  exact ⟨t', hstarts.1 ▸ ht'⟩

theorem length_clock {u : CharTable} {t : Text} {h : Hit} (hmem : h ∈ (clock u).hits t) :
    h.text.length = 8 := by
  have hdigits : ∀ {t : Text} {h : Hit},
      h ∈ (Pattern.many true u.isDecimal 2 (some 2)).hits t → h.text.length = 2 := by
    intro t h hmem
    obtain ⟨-, -, -, hleast, hmost⟩ := mem_hits_many.mp hmem
    exact Nat.le_antisymm (hmost 2 rfl) hleast
  unfold clock at hmem
  obtain ⟨h₁, hmem₁, seconds, hseconds, rfl⟩ := mem_hits_append.mp hmem
  obtain ⟨h₂, hmem₂, colon', hcolon', rfl⟩ := mem_hits_append.mp hmem₁
  obtain ⟨h₃, hmem₃, minutes, hminutes, rfl⟩ := mem_hits_append.mp hmem₂
  obtain ⟨hours, hhours, colon, hcolon, rfl⟩ := mem_hits_append.mp hmem₃
  have hcolon : colon.text = [':'] := (mem_hits_lit.mp hcolon).1
  have hcolon' : colon'.text = [':'] := (mem_hits_lit.mp hcolon').1
  simp [hdigits hhours, hdigits hminutes, hdigits hseconds, hcolon, hcolon']

/-- A line of the log: `[hh:mm:ss] [thread/INFO]: body`. -/
def logLine (time thread body : Text) : Text :=
  "[".toList ++ time ++ "] [".toList ++ thread ++ "/INFO]: ".toList ++ body

theorem lineRe_hit {u : CharTable} {t : Text} {h : Hit} (hmem : h ∈ (lineRe u).hits t) :
    ∃ time thread body rest, t = logLine time thread (body ++ rest) ∧ time.length = 8 ∧
      ']' ∉ thread ∧ body ≠ [] ∧ h.group 1 = thread ∧ h.group 2 = body ∧ '\n' ∉ body ∧
        (rest = [] ∨ rest = ['\n']) := by
  unfold lineRe at hmem
  obtain ⟨h₁, hmem₁, final, hfinal, rfl⟩ := mem_hits_append.mp hmem
  obtain ⟨h₂, hmem₂, body, hbody, rfl⟩ := mem_hits_append.mp hmem₁
  obtain ⟨h₃, hmem₃, info, hinfo, rfl⟩ := mem_hits_append.mp hmem₂
  obtain ⟨h₄, hmem₄, thread, hthread, rfl⟩ := mem_hits_append.mp hmem₃
  obtain ⟨h₅, hmem₅, middle, hmiddle, rfl⟩ := mem_hits_append.mp hmem₄
  obtain ⟨start, hstart, time, htime, rfl⟩ := mem_hits_append.mp hmem₅
  obtain ⟨-, hstart', ht⟩ := mem_hits_lit.mp hstart
  obtain ⟨-, hmiddle', htime'⟩ := mem_hits_lit.mp hmiddle
  obtain ⟨-, hinfo', hthread'⟩ := mem_hits_lit.mp hinfo
  have htime'' : time.captures = [] := List.eq_nil_of_length_eq_zero (length_captures htime)
  have hlength := length_clock htime
  have htime := hit_splits htime
  obtain ⟨thread₁, hthread₁, rfl⟩ := mem_hits_group.mp hthread
  obtain ⟨body₁, hbody₁, rfl⟩ := mem_hits_group.mp hbody
  obtain ⟨hsplit, hthread₁', hall, -, -⟩ := mem_hits_many.mp hthread₁
  obtain ⟨hsplit', -, hdots, hleast, -⟩ := mem_hits_many.mp hbody₁
  refine ⟨time.text, thread₁.text, body₁.text, body₁.rest, ?_, hlength, ?_, ?_, ?_, ?_, ?_,
    (mem_hits_stop.mp hfinal).2⟩
  · unfold logLine
    simp only at hthread' hbody₁ hmiddle hinfo
    rw [ht, htime, htime', hsplit, hthread', hsplit']
    simp only [List.append_assoc]
  · intro hmem
    exact absurd (hall _ hmem) (by decide)
  · intro hnil
    rw [hnil] at hleast
    exact absurd hleast (by decide)
  · simp [Hit.group, hstart', htime'', hmiddle']
  · simp [Hit.group, hstart', htime'', hmiddle', hthread₁', hinfo']
  · intro hmem
    exact absurd (hdots _ hmem) (by decide)

theorem all_ne {c : Char} {t : Text} (h : c ∉ t) : ∀ d ∈ t, (d != c) = true := by
  intro d hd
  rw [bne_iff_ne]
  rintro rfl
  exact h hd

theorem takeWhile_notBracket {t : Text} (ht : ']' ∉ t) (rest : Text) :
    (t ++ ']' :: rest).takeWhile notBracket = t := by
  have hall : ∀ c ∈ t, notBracket c = true := all_ne ht
  rw [List.takeWhile_append_of_pos hall, List.takeWhile_cons_of_neg (by decide),
    List.append_nil]

theorem logLine_inj {time time' thread thread' body body' : Text}
    (h : logLine time thread body = logLine time' thread' body') (htime : time.length = 8)
    (htime' : time'.length = 8) (hthread : ']' ∉ thread) (hthread' : ']' ∉ thread') :
    thread = thread' ∧ body = body' := by
  unfold logLine at h
  simp only [List.append_assoc] at h
  have hopen := List.append_cancel_left h
  have hmiddle := (List.append_inj hopen (htime.trans htime'.symm)).2
  have hrest := List.append_cancel_left hmiddle
  have hinfo : ∀ thread body : Text, thread ++ ("/INFO]: ".toList ++ body) =
      (thread ++ "/INFO".toList) ++ ']' :: (": ".toList ++ body) := by
    intro thread body
    rw [List.append_assoc]
    rfl
  have hnotin : ∀ {thread : Text}, ']' ∉ thread → ']' ∉ thread ++ "/INFO".toList := by
    intro thread hthread hmem
    rcases List.mem_append.mp hmem with hmem | hmem
    · exact hthread hmem
    · exact absurd hmem (by decide)
  have hsame : thread ++ "/INFO".toList = thread' ++ "/INFO".toList := by
    have hwhile := congrArg (List.takeWhile notBracket) hrest
    rw [hinfo, hinfo, takeWhile_notBracket (hnotin hthread),
      takeWhile_notBracket (hnotin hthread')] at hwhile
    exact hwhile
  obtain rfl := List.append_cancel_right hsame
  exact ⟨rfl, List.append_cancel_left (List.append_cancel_left hrest)⟩

theorem parseLine_logLine {u : CharTable} {time thread body : Text} {event : GameEvent}
    (htime : time.length = 8) (hthread : ']' ∉ thread)
    (h : parseLine u (logLine time thread body) = some event) :
    ∃ t, t <+: body ∧ t ≠ [] ∧ parseBody u thread (u.strip t) = some event := by
  unfold parseLine at h
  cases hfound : (lineRe u).atStart ((logLine time thread body).rdropWhile (· == '\n')) with
  | none =>
    rw [hfound] at h
    cases h
  | some found =>
    rw [hfound] at h
    obtain ⟨time', thread', t, rest, hline, htime', hthread', ht, hgroup, hgroup', -⟩ :=
      lineRe_hit (List.mem_of_mem_head? hfound)
    obtain ⟨final, hfinal⟩ := List.rdropWhile_prefix (· == '\n') (logLine time thread body)
    rw [hline] at hfinal
    have hwhole : logLine time' thread' (t ++ (rest ++ final)) = logLine time thread body := by
      rw [← hfinal]
      unfold logLine
      simp only [List.append_assoc]
    obtain ⟨rfl, hbody⟩ := logLine_inj hwhole htime' htime hthread' hthread
    refine ⟨t, ⟨rest ++ final, hbody⟩, ht, ?_⟩
    rw [← hgroup, ← hgroup']
    exact h

end GameEvents
