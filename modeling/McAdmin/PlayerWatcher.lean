import Mathlib.Data.List.Chain
import McAdmin.Dict
import McAdmin.GameEvents

/-!
# The player watcher

`handleLine` reads each new line of the server's log: a session that opens or
closes, a command, and otherwise a game fact.  The sessions and commands are
searched anywhere in the line, the message of a chat line included.
-/

namespace PlayerWatcher

open Backtracking GameEvents

/-! ### The patterns -/

/-- `\w{3,16}` -/
def player (u : CharTable) : Pattern := .group (.many true u.isWord 3 (some 16))

def joinRe (u : CharTable) : Pattern := player u ++ .str " joined the game"

def leaveRe (u : CharTable) : Pattern := player u ++ .str " left the game"

def cmdRe (u : CharTable) : Pattern :=
  player u ++ .str " issued server command: " ++ (.group anything ++ .stop)

/-! ### Handling a line -/

inductive KillerType where
  | unknown
  | player
  | mob
deriving DecidableEq

/-- The calls a line leads to, on the history, the notifier and the game events. -/
inductive Effect where
  | recordJoin (player : Text) (now : Int)
  | recordLeave (player : Text) (now : Int)
  | recordCommand (player command : Text) (now : Int)
  | notify (title : String) (body : Text) (level event : String)
  | recordEvent (event : GameEvent) (now : Int) (killerType : KillerType)
deriving DecidableEq

/-- What the watcher was built with, and what the clock and the history say now. -/
structure Surroundings where
  now : Int
  isKnown : Text → Bool
  notifier : Bool
  notifyCooldown : Int
  gameEvents : Bool
  /-- `none` also when the source of the known players fails. -/
  knownPlayers : Option (Text → Bool)

structure Watcher where
  lastNotified : Dict Text Int

abbrev Result := Watcher × List Effect

def mayNotify (s : Surroundings) (w : Watcher) (player : Text) : Bool × Watcher :=
  if ∃ last ∈ w.lastNotified.lookup player, s.now - last < s.notifyCooldown then (false, w)
  else (true, { w with lastNotified := Dict.set w.lastNotified player s.now })

def notifyPlayer (s : Surroundings) (w : Watcher) (player : Text) (title : String)
    (body : Text) : Result :=
  if s.notifier then
    let (may, w) := mayNotify s w player
    (w, if may then [.notify title body "info" "player"] else [])
  else (w, [])

/-- Whether the player is new is asked before the join is recorded. -/
def joined (s : Surroundings) (w : Watcher) (player : Text) : Result :=
  let (w, notified) :=
    notifyPlayer s w player "Joueur connecté" (player ++ " a rejoint le serveur".toList)
  (w, .recordJoin player s.now :: notified ++
    if s.isKnown player = false ∧ s.notifier then
      [.notify "Nouveau joueur 🎉" ("Première connexion de ".toList ++ player ++ " !".toList)
        "info" "new_player"]
    else [])

def left (s : Surroundings) (w : Watcher) (player : Text) : Result :=
  let (w, notified) :=
    notifyPlayer s w player "Joueur déconnecté" (player ++ " a quitté le serveur".toList)
  (w, .recordLeave player s.now :: notified)

def isPlayer (u : CharTable) (s : Surroundings) (name : Text) : Bool :=
  match s.knownPlayers with
  | none => false
  | some known => known (u.lower name)

def recordGameEvent (u : CharTable) (s : Surroundings) (w : Watcher) (line : Text) : Result :=
  match parseLine u line with
  | none => (w, [])
  | some event =>
    (w, [.recordEvent event s.now
      (if event.kind = .death ∧ event.killer ≠ [] then
        if isPlayer u s event.killer then .player else .mob
      else .unknown)])

def handleLine (u : CharTable) (s : Surroundings) (w : Watcher) (line : Text) : Result :=
  match (joinRe u).search line with
  | some found => joined s w (found.group 1)
  | none =>
    match (leaveRe u).search line with
    | some found => left s w (found.group 1)
    | none =>
      match (cmdRe u).search line with
      | some found =>
        (w, [.recordCommand (found.group 1) (u.strip (found.group 2)) s.now])
      | none => if s.gameEvents then recordGameEvent u s w line else (w, [])

/-! ### Chat lines -/

inductive ChatThread where
  | server
  | async (number : Nat)

def ChatThread.text : ChatThread → Text
  | server => serverThread
  | async number => "Async Chat Thread - #".toList ++ Nat.toDigits 10 number

structure ChatLine where
  hour : Nat
  minute : Nat
  second : Nat
  thread : ChatThread
  /-- The message carries no valid signature. -/
  notSecure : Bool
  name : Text
  message : Text
  /-- The line is complete. -/
  ended : Bool
  name_line : '\n' ∉ name
  message_line : '\n' ∉ message

namespace ChatLine

def twoDigits (n : Nat) : Text := [Nat.digitChar (n / 10 % 10), Nat.digitChar (n % 10)]

def time (line : ChatLine) : Text :=
  twoDigits line.hour ++ [':'] ++ twoDigits line.minute ++ [':'] ++ twoDigits line.second

/-- What follows the `<` of the line. -/
def shown (line : ChatLine) : Text := line.name ++ "> ".toList ++ line.message

def tag (line : ChatLine) : Text := if line.notSecure then "[Not Secure] ".toList else []

def ending (line : ChatLine) : Text := if line.ended then ['\n'] else []

def text (line : ChatLine) : Text :=
  logLine line.time line.thread.text (line.tag ++ '<' :: (line.shown ++ line.ending))

end ChatLine

def AtMostChat (s : Surroundings) (w : Watcher) (result : Result) : Prop :=
  result = (w, []) ∨
    ∃ event, event.kind = .chat ∧ result = (w, [.recordEvent event s.now .unknown])

def Says (u : CharTable) (words : String) (text rest : Text) : Prop :=
  ∃ before name, text = before ++ name ++ words.toList ++ rest ∧ name.length = 3 ∧
    ∀ c ∈ name, u.isWord c = true

def Imitates (u : CharTable) (text : Text) : Prop :=
  (∃ rest, Says u " joined the game" text rest) ∨
    (∃ rest, Says u " left the game" text rest) ∨
    ∃ rest, Says u " issued server command: " text rest ∧ rest ≠ []

/-! ### What the searches find -/

theorem hit_says {u : CharTable} {words : String} {t rest : Text} :
    (∃ before after, t = before ++ after ∧
      ∃ h ∈ (player u ++ .str words).hits after, h.rest = rest) ↔ Says u words t rest := by
  constructor
  · rintro ⟨before, after, rfl, h, hmem, rfl⟩
    obtain ⟨h₁, hmem₁, h₂, hmem₂, rfl⟩ := mem_hits_append.mp hmem
    obtain ⟨h₃, hmem₃, rfl⟩ := mem_hits_group.mp hmem₁
    obtain ⟨hafter, -, hword, hlength, -⟩ := mem_hits_many.mp hmem₃
    obtain ⟨-, -, hrest⟩ := mem_hits_lit.mp hmem₂
    simp only at hrest
    -- the last three characters of the name are enough
    refine ⟨before ++ h₃.text.take (h₃.text.length - 3), h₃.text.drop (h₃.text.length - 3),
      ?_, ?_, fun c hc => hword c (List.mem_of_mem_drop hc)⟩
    · rw [hafter, hrest, List.append_assoc before, List.take_append_drop]
      simp only [List.append_assoc]
    · rw [List.length_drop]
      omega
  · rintro ⟨before, name, rfl, hlength, hword⟩
    have hname : (⟨name, [], words.toList ++ rest⟩ : Hit) ∈
        (Pattern.many true u.isWord 3 (some 16)).hits (name ++ (words.toList ++ rest)) := by
      apply mem_hits_many.mpr
      refine ⟨rfl, rfl, hword, Nat.le_of_eq hlength.symm, ?_⟩
      rintro n ⟨⟩
      simp only
      omega
    refine ⟨before, name ++ (words.toList ++ rest), by simp only [List.append_assoc], _,
      mem_hits_append.mpr ⟨_, mem_hits_group.mpr ⟨_, hname, rfl⟩, ⟨words.toList, [], rest⟩,
        mem_hits_lit.mpr ⟨rfl, rfl, rfl⟩, rfl⟩, rfl⟩

theorem search_says {u : CharTable} {words : String} {t : Text} :
    (player u ++ .str words).search t ≠ none ↔ ∃ rest, Says u words t rest := by
  rw [search_ne_none]
  constructor
  · rintro ⟨before, after, ht, h, hmem⟩
    exact ⟨h.rest, hit_says.mp ⟨before, after, ht, h, hmem, rfl⟩⟩
  · rintro ⟨rest, hsays⟩
    obtain ⟨before, after, ht, h, hmem, -⟩ := hit_says.mpr hsays
    exact ⟨before, after, ht, h, hmem⟩

theorem hit_command {t : Text} :
    (∃ h, h ∈ (Pattern.group anything ++ .stop).hits t) ↔
      ∃ command ending, t = command ++ ending ∧ command ≠ [] ∧ '\n' ∉ command ∧
        (ending = [] ∨ ending = ['\n']) := by
  constructor
  · rintro ⟨h, hmem⟩
    obtain ⟨h₁, hmem₁, h₂, hmem₂, rfl⟩ := mem_hits_append.mp hmem
    obtain ⟨h₃, hmem₃, rfl⟩ := mem_hits_group.mp hmem₁
    obtain ⟨ht, -, hdot, hlength, -⟩ := mem_hits_many.mp hmem₃
    refine ⟨h₃.text, h₃.rest, ht, ?_, ?_, (mem_hits_stop.mp hmem₂).2⟩
    · intro hnil
      rw [hnil] at hlength
      exact absurd hlength (by decide)
    · intro hnewline
      exact absurd (hdot _ hnewline) (by decide)
  · rintro ⟨command, ending, rfl, hne, hline, hending⟩
    have hcommand : (⟨command, [], ending⟩ : Hit) ∈ anything.hits (command ++ ending) := by
      apply mem_hits_many.mpr
      refine ⟨rfl, rfl, ?_, List.length_pos_of_ne_nil hne, nofun⟩
      intro c hc
      unfold isDot
      rw [bne_iff_ne]
      rintro rfl
      exact hline hc
    exact ⟨_, mem_hits_append.mpr ⟨_, mem_hits_group.mpr ⟨_, hcommand, rfl⟩, _,
      mem_hits_stop.mpr ⟨rfl, hending⟩, rfl⟩⟩

theorem search_command {u : CharTable} {t : Text} :
    (cmdRe u).search t ≠ none ↔ ∃ rest, Says u " issued server command: " t rest ∧
      ∃ h, h ∈ (Pattern.group anything ++ .stop).hits rest := by
  unfold cmdRe
  rw [search_ne_none]
  constructor
  · rintro ⟨before, after, ht, h, hmem⟩
    obtain ⟨h₁, hmem₁, h₂, hmem₂, -⟩ := mem_hits_append.mp hmem
    exact ⟨h₁.rest, hit_says.mp ⟨before, after, ht, h₁, hmem₁, rfl⟩, h₂, hmem₂⟩
  · rintro ⟨rest, hsays, h₂, hmem₂⟩
    obtain ⟨before, after, ht, h₁, hmem₁, rfl⟩ := hit_says.mpr hsays
    exact ⟨before, after, ht, _, mem_hits_append.mpr ⟨h₁, hmem₁, h₂, hmem₂, rfl⟩⟩

/-! ### Where the words stand in the line -/

def initials : List Char := ['j', 'l', 'i']

theorem initial_not_digit {c : Char} (hc : c ∈ initials) : ¬ (c.isDigit = true ∨ c = ':') := by
  simp only [initials, List.mem_cons, List.not_mem_nil, or_false] at hc
  rcases hc with rfl | rfl | rfl <;> decide

def Neutral (t : Text) : Prop := ∀ c ∈ t.head?, c ∉ initials

instance : ∀ t : Text, Decidable (Neutral t)
  | [] => isTrue nofun
  | c :: _ => decidable_of_iff (c ∉ initials) (by simp [Neutral])

def Calm (t : Text) : Prop := t.IsChain fun a b => a = ' ' → b ∉ initials

instance (t : Text) : Decidable (Calm t) :=
  inferInstanceAs (Decidable (t.IsChain fun a b => a = ' ' → b ∉ initials))

theorem calm_of_no_blank {t : Text} (ht : ' ' ∉ t) : Calm t := by
  induction t with
  | nil => exact List.IsChain.nil
  | cons c t ih =>
    apply List.isChain_cons.mpr
    refine ⟨?_, ih fun hmem => ht (List.mem_cons_of_mem _ hmem)⟩
    rintro d - rfl
    exact absurd List.mem_cons_self ht

theorem Calm.append {t t' : Text} (ht : Calm t) (ht' : Calm t') (hhead : Neutral t') :
    Calm (t ++ t') :=
  List.IsChain.append ht ht' fun _ _ c hc _ => hhead c hc

theorem Calm.not_initial {t before after : Text} {w : Char} (ht : Calm t)
    (h : t = before ++ ' ' :: w :: after) : w ∉ initials :=
  List.isChain_iff_forall_rel_of_append_cons_cons.mp ht h rfl

def Searched (words : String) : Prop :=
  '\n' ∉ words.toList ∧ ∃ w ∈ initials, ∃ ws, words.toList = ' ' :: w :: ws

theorem searched_join : Searched " joined the game" :=
  ⟨by decide, 'j', by decide, "oined the game".toList, rfl⟩

theorem searched_leave : Searched " left the game" :=
  ⟨by decide, 'l', by decide, "eft the game".toList, rfl⟩

theorem searched_command : Searched " issued server command: " :=
  ⟨by decide, 'i', by decide, "ssued server command: ".toList, rfl⟩

/-- Words said in a line whose start is calm are said after the `<` that ends it. -/
theorem says_after_header {u : CharTable} {words : String} (hsearched : Searched words)
    {header t rest : Text} (hheader : Calm header) :
    Says u words (header ++ '<' :: t) rest ↔ Says u words t rest := by
  obtain ⟨-, w, hw, ws, hwords⟩ := hsearched
  constructor
  · rintro ⟨before, name, hline, hlength, hword⟩
    rw [hwords, List.append_assoc (before ++ name)] at hline
    -- the words open behind the header, since none of their initials is in it
    rcases List.append_eq_append_iff.mp hline with ⟨c, hname, ht⟩ | ⟨c, hname, ht⟩
    · cases c with
      | nil =>
        obtain ⟨hchar, -⟩ := List.cons.inj ht
        exact absurd hchar (by decide)
      | cons d c =>
        obtain ⟨rfl, htail⟩ := List.cons.inj ht
        rcases List.append_eq_append_iff.mp hname with ⟨b, hheader', hname'⟩ | ⟨b, rfl, hb⟩
        · -- the name would reach back to the `<`
          have hmem : '<' ∈ name := by
            rw [hname']
            exact List.mem_append_right _ List.mem_cons_self
          have hchar := hword _ hmem
          rw [u.isWord_ascii _ (by decide)] at hchar
          exact absurd hchar (by decide)
        · cases b with
          | nil =>
            obtain rfl := hb
            have hchar := hword _ List.mem_cons_self
            rw [u.isWord_ascii _ (by decide)] at hchar
            exact absurd hchar (by decide)
          | cons d b =>
            obtain ⟨rfl, rfl⟩ := List.cons.inj hb
            refine ⟨b, name, ?_, hlength, hword⟩
            rw [htail, hwords, List.append_assoc (b ++ name)]
            rfl
    · cases c with
      | nil =>
        obtain ⟨hchar, -⟩ := List.cons.inj ht
        exact absurd hchar (by decide)
      | cons d c =>
        obtain ⟨rfl, htail⟩ := List.cons.inj ht
        cases c with
        | nil =>
          obtain ⟨rfl, -⟩ := List.cons.inj htail
          exact absurd hw (by decide)
        | cons e c =>
          obtain ⟨rfl, -⟩ := List.cons.inj htail
          exact absurd hw (hheader.not_initial hname)
  · rintro ⟨before, name, rfl, hlength, hword⟩
    refine ⟨header ++ '<' :: before, name, ?_, hlength, hword⟩
    simp only [List.append_assoc, List.cons_append]

theorem says_ending {u : CharTable} {words : String} (hsearched : Searched words)
    {t rest : Text} :
    Says u words (t ++ ['\n']) rest ↔ ∃ rest', rest = rest' ++ ['\n'] ∧ Says u words t rest' := by
  constructor
  · rintro ⟨before, name, hline, hlength, hword⟩
    rcases List.eq_nil_or_concat rest with rfl | ⟨rest', c, rfl⟩
    · -- the newline would end the name or the words
      have hmem : '\n' ∈ name ++ words.toList := by
        have hlast := congrArg List.getLast? hline
        rw [List.append_nil, List.append_assoc, List.getLast?_concat] at hlast
        have hne : name ++ words.toList ≠ [] := by
          intro hnil
          rw [(List.append_eq_nil_iff.mp hnil).1] at hlength
          exact absurd hlength (by decide)
        rw [List.getLast?_append_of_ne_nil _ hne] at hlast
        exact List.mem_of_getLast? hlast.symm
      rcases List.mem_append.mp hmem with hmem | hmem
      · have hchar := hword _ hmem
        rw [u.isWord_ascii _ (by decide)] at hchar
        exact absurd hchar (by decide)
      · exact absurd hmem hsearched.1
    · rw [List.concat_eq_append, ← List.append_assoc, List.append_singleton_inj] at hline
      obtain ⟨hline, rfl⟩ := hline
      exact ⟨rest', List.concat_eq_append, before, name, hline, hlength, hword⟩
  · rintro ⟨rest', rfl, before, name, rfl, hlength, hword⟩
    refine ⟨before, name, ?_, hlength, hword⟩
    simp only [List.append_assoc]

namespace ChatLine

theorem mem_twoDigits {n : Nat} {c : Char} (hc : c ∈ twoDigits n) : c.isDigit = true := by
  unfold twoDigits at hc
  have hdigit : ∀ d < 10, (Nat.digitChar d).isDigit = true := by decide
  rcases List.mem_cons.mp hc with rfl | hc
  · exact hdigit _ (Nat.mod_lt _ (by decide))
  · rw [List.mem_singleton.mp hc]
    exact hdigit _ (Nat.mod_lt _ (by decide))

theorem length_time (line : ChatLine) : line.time.length = 8 := rfl

theorem mem_time {line : ChatLine} {c : Char} (hc : c ∈ line.time) :
    c.isDigit = true ∨ c = ':' := by
  unfold time at hc
  simp only [List.mem_append, List.mem_singleton] at hc
  obtain (((hc | hc) | hc) | hc) | hc := hc
  · exact .inl (mem_twoDigits hc)
  · exact .inr hc
  · exact .inl (mem_twoDigits hc)
  · exact .inr hc
  · exact .inl (mem_twoDigits hc)

theorem mem_thread {thread : ChatThread} {c : Char} (hc : c ∈ thread.text) :
    c ∈ serverThread ∨ c ∈ "Async Chat Thread - #".toList ∨ c.isDigit = true := by
  cases thread with
  | server => exact .inl hc
  | async number =>
    rcases List.mem_append.mp hc with hc | hc
    · exact .inr (.inl hc)
    · exact .inr (.inr (Nat.isDigit_of_mem_toDigits (by decide) (by decide) hc))

theorem bracket_not_mem_thread (thread : ChatThread) : ']' ∉ thread.text := by
  intro hmem
  rcases mem_thread hmem with hmem | hmem | hdigit
  · exact absurd hmem (by decide)
  · exact absurd hmem (by decide)
  · exact absurd hdigit (by decide)

theorem calm_thread (thread : ChatThread) : Calm thread.text := by
  cases thread with
  | server => decide
  | async number =>
    have hdigits : ∀ c ∈ Nat.toDigits 10 number, c.isDigit = true := fun c hc =>
      Nat.isDigit_of_mem_toDigits (by decide) (by decide) hc
    apply Calm.append
    · decide
    · apply calm_of_no_blank
      intro hmem
      exact absurd (hdigits _ hmem) (by decide)
    · intro c hc hinitial
      exact initial_not_digit hinitial (.inl (hdigits c (List.mem_of_mem_head? hc)))

def header (line : ChatLine) : Text := logLine line.time line.thread.text line.tag

theorem text_eq (line : ChatLine) :
    line.text = line.header ++ '<' :: (line.shown ++ line.ending) := by
  unfold text header logLine
  simp only [List.append_assoc]

theorem calm_header (line : ChatLine) : Calm line.header := by
  have htime : Calm line.time := by
    apply calm_of_no_blank
    intro hmem
    rcases mem_time hmem with hdigit | hcolon
    · exact absurd hdigit (by decide)
    · exact absurd hcolon (by decide)
  have hhead : Neutral line.time := by
    intro c hc hinitial
    exact initial_not_digit hinitial (mem_time (List.mem_of_mem_head? hc))
  have hthread : Neutral line.thread.text := by
    cases line.thread with
    | server => decide
    | async number =>
      rintro c ⟨⟩
      decide
  have htag : Calm line.tag ∧ Neutral line.tag := by
    unfold tag
    cases line.notSecure <;> decide
  unfold header logLine
  exact (((((Calm.append (by decide) htime hhead).append (by decide) (by decide)).append
    (calm_thread _) hthread).append (by decide) (by decide)).append htag.1 htag.2)

theorem says_text {u : CharTable} (line : ChatLine) {words : String}
    (hsearched : Searched words) {rest : Text} :
    Says u words line.text rest ↔
      ∃ rest', rest = rest' ++ line.ending ∧ Says u words line.shown rest' := by
  rw [text_eq, says_after_header hsearched line.calm_header]
  unfold ending
  cases line.ended with
  | false => simp
  | true => exact says_ending hsearched

theorem shown_line (line : ChatLine) : '\n' ∉ line.shown := by
  intro hmem
  rcases List.mem_append.mp hmem with hmem | hmem
  · rcases List.mem_append.mp hmem with hmem | hmem
    · exact line.name_line hmem
    · exact absurd hmem (by decide)
  · exact line.message_line hmem

theorem says_shown {u : CharTable} (line : ChatLine) {words : String}
    (hsearched : Searched words) :
    (∃ rest, Says u words line.text rest) ↔ ∃ rest, Says u words line.shown rest := by
  simp only [line.says_text hsearched]
  constructor
  · rintro ⟨_, rest, rfl, hsays⟩
    exact ⟨rest, hsays⟩
  · rintro ⟨rest, hsays⟩
    exact ⟨_, rest, rfl, hsays⟩

theorem command_shown {u : CharTable} (line : ChatLine) :
    (cmdRe u).search line.text ≠ none ↔
      ∃ rest, Says u " issued server command: " line.shown rest ∧ rest ≠ [] := by
  rw [search_command]
  simp only [line.says_text searched_command, hit_command]
  constructor
  · rintro ⟨_, ⟨rest, rfl, hsays⟩, command, ending, hrest, hne, hline, -⟩
    refine ⟨rest, hsays, ?_⟩
    rintro rfl
    -- the command would be made of the newline that ends the line
    have hmem : ∀ c ∈ command, c = '\n' := by
      intro c hc
      have hending : c ∈ line.ending := by
        rw [List.nil_append] at hrest
        rw [hrest]
        exact List.mem_append_left _ hc
      unfold ChatLine.ending at hending
      split at hending
      · exact List.mem_singleton.mp hending
      · exact absurd hending List.not_mem_nil
    obtain ⟨c, command, rfl⟩ := List.exists_cons_of_ne_nil hne
    exact hline (hmem c List.mem_cons_self ▸ List.mem_cons_self)
  · rintro ⟨rest, hsays, hne⟩
    refine ⟨_, ⟨rest, rfl, hsays⟩, rest, line.ending, rfl, hne, ?_, ?_⟩
    · obtain ⟨before, name, hshown, -⟩ := hsays
      intro hmem
      apply line.shown_line
      rw [hshown]
      exact List.mem_append_right _ hmem
    · unfold ending
      cases line.ended with
      | false => exact .inl rfl
      | true => exact .inr rfl

theorem parseLine_text {u : CharTable} (line : ChatLine) {event : GameEvent}
    (h : parseLine u line.text = some event) : event.kind = .chat := by
  obtain ⟨t, hstarts, hne, hbody⟩ :=
    parseLine_logLine line.length_time (bracket_not_mem_thread _) h
  obtain ⟨c, t, rfl⟩ := List.exists_cons_of_ne_nil hne
  have hopen : c = '[' ∨ c = '<' := by
    unfold tag at hstarts
    split at hstarts
    · exact .inl (List.cons_prefix_cons.mp hstarts).1
    · exact .inr (List.cons_prefix_cons.mp hstarts).1
  have hchars : u.isSpace c = false ∧ isNameChar c = false := by
    rcases hopen with rfl | rfl <;> rw [u.isSpace_ascii _ (by decide)] <;> decide
  obtain ⟨t', ht'⟩ := strip_cons hchars.1 t
  rw [ht'] at hbody
  exact parseBody_chat hchars.2 hbody

end ChatLine

/-! ### No chat line forges a fact, unless its message imitates one -/

theorem recordGameEvent_chat {u : CharTable} {s : Surroundings} {w : Watcher} (line : ChatLine) :
    AtMostChat s w (recordGameEvent u s w line.text) := by
  unfold recordGameEvent
  cases hparse : parseLine u line.text with
  | none => exact .inl rfl
  | some event =>
    have hkind := line.parseLine_text hparse
    refine .inr ⟨event, hkind, ?_⟩
    simp [hkind]

theorem joined_not_chat (s : Surroundings) (w : Watcher) (player : Text) :
    ¬ AtMostChat s w (joined s w player) := by
  unfold joined
  rintro (h | ⟨event, -, h⟩)
  · cases congrArg Prod.snd h
  · cases congrArg (List.head? ∘ Prod.snd) h

theorem left_not_chat (s : Surroundings) (w : Watcher) (player : Text) :
    ¬ AtMostChat s w (left s w player) := by
  unfold left
  rintro (h | ⟨event, -, h⟩)
  · cases congrArg Prod.snd h
  · cases congrArg (List.head? ∘ Prod.snd) h

/-- A chat line forges a game fact exactly when what it shows imitates a session or a
command: the game facts are refused to it, the searches are not. -/
theorem chat_line_forges_nothing_iff (u : CharTable) (s : Surroundings) (w : Watcher)
    (line : ChatLine) :
    AtMostChat s w (handleLine u s w line.text) ↔ ¬ Imitates u line.shown := by
  have hjoin : (joinRe u).search line.text ≠ none ↔ _ :=
    search_says.trans (line.says_shown searched_join)
  have hleave : (leaveRe u).search line.text ≠ none ↔ _ :=
    search_says.trans (line.says_shown searched_leave)
  have hcommand := line.command_shown (u := u)
  unfold Imitates
  rw [← hjoin, ← hleave, ← hcommand]
  unfold handleLine
  cases (joinRe u).search line.text with
  | some found =>
    simp only [ne_eq, reduceCtorEq, not_false_eq_true, true_or, not_true_eq_false, iff_false]
    exact joined_not_chat s w _
  | none =>
    cases (leaveRe u).search line.text with
    | some found =>
      simp only [ne_eq, reduceCtorEq, not_false_eq_true, true_or, or_true, not_true_eq_false,
        iff_false]
      exact left_not_chat s w _
    | none =>
      cases (cmdRe u).search line.text with
      | some found =>
        simp only [ne_eq, reduceCtorEq, not_false_eq_true, or_true, not_true_eq_false, iff_false]
        rintro (h | ⟨event, -, h⟩)
        · cases congrArg Prod.snd h
        · cases congrArg (List.head? ∘ Prod.snd) h
      | none =>
        simp only [ne_eq, not_true_eq_false, or_self, not_false_eq_true, iff_true]
        split
        · exact recordGameEvent_chat line
        · exact .inl rfl

def forgedJoin : ChatLine where
  hour := 21
  minute := 15
  second := 16
  thread := .server
  notSecure := false
  name := "Trappeur".toList
  message := "Bucheron joined the game".toList
  ended := true
  name_line := by decide
  message_line := by decide

def quietServer : Surroundings where
  now := 0
  isKnown _ := true
  notifier := true
  notifyCooldown := 900
  gameEvents := true
  knownPlayers := none

theorem chat_line_forges_join :
    ¬ ∀ (u : CharTable) (s : Surroundings) (w : Watcher) (line : ChatLine),
      AtMostChat s w (handleLine u s w line.text) := by
  intro h
  have hforged : (handleLine CharTable.ascii quietServer ⟨∅⟩ forgedJoin.text).2.head? =
      some (.recordJoin "Bucheron".toList 0) := by decide +kernel
  rcases h CharTable.ascii quietServer ⟨∅⟩ forgedJoin with hresult | ⟨event, -, hresult⟩
  · rw [hresult] at hforged
    cases hforged
  · rw [hresult] at hforged
    cases hforged

end PlayerWatcher
