import Mathlib.Data.Rat.Defs
import McAdmin.DataFiles

/-!
# What the files of the data directory are for

Each file is an object of its own: accounts, a text or a second factor for each user, API tokens,
servers, container names.  A file that is damaged shows what can be made of it and refuses every
change.  Each method does to its file what the call does to the object.
-/

namespace DataFiles

open LockedFiles
open OpLevelsWorker (Json)
open NotificationConfig (Fields truthy textObject)

/-! ### Objects that may be damaged -/

/-- What a file shows, the error that a change raises, and whether there is a file. -/
structure Kept (T : Type) where
  shows : T
  damage : Option Error
  present : Bool

/-- What a change leaves: what is shown, and the damage if the change does some. -/
abbrev Change (T : Type) := Except Error Answer × Option (T × Option Error)

inductive Spec (T : Type) where
  | reads (read : T → Except Error Answer)
  | edits (edit : Bool → T → Change T)
  | seeds (value : Option (T × Option Error))

def Kept.changed {T : Type} (k : Kept T) : Option (T × Option Error) → Kept T
  | some (t, damage) => ⟨t, damage, true⟩
  | none => k

def Spec.answer {T : Type} (k : Kept T) : Spec T → Except Error Answer
  | .reads read => read k.shows
  | .edits edit =>
    match k.damage with
    | some e => .error e
    | none => (edit k.present k.shows).1
  | .seeds value => .ok (.flag (!k.present && value.isSome))

def Spec.change {T : Type} (k : Kept T) : Spec T → Option (T × Option Error)
  | .reads _ => none
  | .edits edit =>
    match k.damage with
    | some _ => none
    | none => (edit k.present k.shows).2
  | .seeds value => if k.present then none else value

structure View (T : Type) where
  shows : Fields → T
  damage : Fields → Option Error

def View.look {T : Type} (v : View T) (path : String) (c : Content Json) (present : Bool) :
    Kept T where
  shows := v.shows (loadJson c)
  damage := match loadStrict path c with
    | .error e => some e
    | .ok data => v.damage data
  present := present

def View.kept {T : Type} (v : View T) (path : String) (c : Content Json) : Kept T :=
  v.look path c c.present

/-- What is kept, to a call that sees its file so: one that cannot read it takes it for an empty one
that refuses a change. -/
def View.seen {T : Type} (v : View T) (path : String) (sight : Sight) (k : Kept T) : Kept T :=
  match sight with
  | .clear => k
  | .unreadable =>
    { k with
      shows := v.shows []
      damage := some (.corrupt ("état JSON illisible : " ++ path)) }
  | .unseen => { k with present := false }

section

variable {T : Type}

inductive Writes (v : View T) : Option Json → Option (T × Option Error) → Prop
  | nothing : Writes v none none
  | object (data : Fields) (t : T) (damage : Option Error) (hshows : v.shows data = t)
      (hdamage : v.damage data = damage) : Writes v (some (.obj data)) (some (t, damage))

inductive Simulates (v : View T) : Work → Spec T → Prop
  | reads (read : Fields → Except Error Answer) (read' : T → Except Error Answer)
      (h : ∀ data, read data = read' (v.shows data)) : Simulates v (.reads read) (.reads read')
  | edits (edit : Bool → Fields → Outcome) (edit' : Bool → T → Change T)
      (hdamage : ∀ present data e, v.damage data = some e → edit present data = raises e)
      (hanswer : ∀ present data, v.damage data = none →
        (edit present data).1 = (edit' present (v.shows data)).1)
      (hwrites : ∀ present data, v.damage data = none →
        Writes v (edit present data).2 (edit' present (v.shows data)).2) :
      Simulates v (.edits edit) (.edits edit')
  | seeds (value : Option Json) (value' : Option (T × Option Error)) (h : Writes v value value') :
      Simulates v (.seeds value) (.seeds value')

variable {v : View T} {work : Work} {spec : Spec T} {path : String}

def rewritten (c : Content Json) : Option Json → Content Json
  | some value => .value value
  | none => c

theorem Writes.kept {value : Option Json} {value' : Option (T × Option Error)}
    (h : Writes v value value') (path : String) (c : Content Json) :
    v.kept path (rewritten c value) = (v.kept path c).changed value' := by
  cases h with
  | nothing => rfl
  | object data t damage hshows hdamage => subst hshows hdamage; rfl

theorem loadJson_of_loadStrict {c : Content Json} {data : Fields}
    (h : loadStrict path c = .ok data) : loadJson c = data := by
  cases c with
  | absent => exact Except.ok.inj h
  | unreadable => cases h
  | value json =>
    cases json with
    | obj fields => exact Except.ok.inj h
    | null => cases h
    | bool b => cases h
    | int n => cases h
    | float x => cases h
    | str s => cases h
    | arr items => cases h

theorem View.look_of_ok {c : Content Json} {data : Fields} (present : Bool)
    (h : loadStrict path c = .ok data) :
    v.look path c present = ⟨v.shows data, v.damage data, present⟩ := by
  rw [View.look, loadJson_of_loadStrict h, h]

theorem View.seen_kept (sight : Sight) (c : Content Json) :
    v.seen path sight (v.kept path c) =
      v.look path (sight.content c) (sight.finds c) := by
  cases sight <;> rfl

theorem Simulates.answer (h : Simulates v work spec) (sight : Sight) (c : Content Json) :
    (work.run path sight c).1 = spec.answer (v.seen path sight (v.kept path c)) := by
  rw [View.seen_kept]
  cases h with
  | reads read read' h => exact h _
  | edits edit edit' hdamage hanswer hwrites =>
    cases hload : loadStrict path (sight.content c) with
    | error e => simp [Work.run, Spec.answer, View.look, hload, raises]
    | ok data =>
      cases hv : v.damage data with
      | some e =>
        simp [Work.run, Spec.answer, View.look_of_ok _ hload, hload, hv, hdamage _ _ _ hv, raises]
      | none =>
        simp [Work.run, Spec.answer, View.look_of_ok _ hload, hload, hv, hanswer _ _ hv]
  | seeds value value' h =>
    cases h <;> cases hfinds : sight.finds c <;>
      simp [Work.run, Spec.answer, View.look, hfinds, DataFiles.writes, answers]

theorem Simulates.change (h : Simulates v work spec) (sight : Sight) (c : Content Json) :
    Writes v (work.run path sight c).2 (spec.change (v.seen path sight (v.kept path c))) := by
  rw [View.seen_kept]
  cases h with
  | reads read read' h => exact .nothing
  | edits edit edit' hdamage hanswer hwrites =>
    cases hload : loadStrict path (sight.content c) with
    | error e => simpa [Work.run, Spec.change, View.look, hload, raises] using .nothing
    | ok data =>
      cases hv : v.damage data with
      | some e =>
        simpa [Work.run, Spec.change, View.look_of_ok _ hload, hload, hv, hdamage _ _ _ hv, raises]
          using .nothing
      | none =>
        simpa [Work.run, Spec.change, View.look_of_ok _ hload, hload, hv]
          using hwrites (sight.finds c) data hv
  | seeds value value' h =>
    cases hfinds : sight.finds c with
    | true => simpa [Work.run, Spec.change, View.look, hfinds, answers] using .nothing
    | false =>
      cases h with
      | nothing => simpa [Work.run, Spec.change, View.look, hfinds, answers] using .nothing
      | object data t damage hshows hdamage =>
        simpa [Work.run, Spec.change, View.look, hfinds, DataFiles.writes] using
          Writes.object data t damage hshows hdamage

theorem Simulates.after (h : Simulates v work spec) (sight : Sight) (c : Content Json) :
    v.kept path (rewritten c (work.run path sight c).2) =
      (v.kept path c).changed (spec.change (v.seen path sight (v.kept path c))) :=
  (h.change sight c).kept path c

theorem Simulates.damaged (h : Simulates v work spec) (hempty : v.damage [] = none) {sight : Sight}
    {c : Content Json} {e : Error} (hdamage : (v.kept path c).damage = some e)
    (hsight : sight ≠ .unseen ∨ ∀ value, work ≠ .seeds value) :
    (work.run path sight c).2 = none := by
  cases h with
  | reads read read' h => rfl
  | edits edit edit' hraises hanswer hwrites =>
    cases hload : loadStrict path (sight.content c) with
    | error e' => simp [Work.run, hload, raises]
    | ok data =>
      have hcontent : sight.content c = c := by
        cases sight with
        | unreadable => cases hload
        | _ => rfl
      rw [View.kept, View.look_of_ok _ (hcontent ▸ hload)] at hdamage
      simp [Work.run, hload, hraises _ _ _ hdamage, raises]
  | seeds value value' h =>
    have hsight := hsight.resolve_right fun hwork => hwork value rfl
    have hpresent : c.present = true := by
      cases c with
      | absent => simp [View.kept, View.look, loadStrict, hempty] at hdamage
      | _ => rfl
    have hfinds : sight.finds c = true := by
      cases sight with
      | unseen => exact absurd rfl hsight
      | _ => exact hpresent
    simp [Work.run, hfinds, answers]

end

/-! ### Dictionaries -/

section

variable {β : Type} (key key' : String) (value : β) (data : List (String × β))

theorem lookup_cons_ite (entry : String × β) :
    (entry :: data).lookup key' = if key' = entry.1 then some entry.2 else data.lookup key' := by
  rw [List.lookup_cons]
  by_cases h : key' = entry.1
  · simp [h]
  · rw [if_neg h, beq_eq_false_iff_ne.mpr h]

@[simp] theorem lookup_put :
    (put key value data).lookup key' = if key' = key then some value else data.lookup key' := by
  induction data with
  | nil => rw [put, lookup_cons_ite]
  | cons entry data ih =>
    rw [put]
    split
    · next h => simp only [lookup_cons_ite, h]; split <;> rfl
    · next h =>
      rw [lookup_cons_ite, ih, lookup_cons_ite]
      by_cases hkey : key' = key
      · have hne : ¬key' = entry.1 := fun heq => h (heq.symm.trans hkey)
        simp only [if_pos hkey, if_neg hne]
      · simp only [if_neg hkey]

@[simp] theorem lookup_del :
    (del key data).lookup key' = if key' = key then none else data.lookup key' := by
  induction data with
  | nil => simp [del]
  | cons entry data ih =>
    unfold del at ih ⊢
    rw [List.filter_cons]
    by_cases h : entry.1 = key
    · rw [if_neg (by simpa using h), ih, lookup_cons_ite, h]
      by_cases hkey : key' = key
      · simp only [if_pos hkey]
      · simp only [if_neg hkey]
    · rw [if_pos (by simpa using h), lookup_cons_ite, ih, lookup_cons_ite]
      by_cases hkey : key' = key
      · have hne : ¬key' = entry.1 := fun heq => h (heq.symm.trans hkey)
        simp only [if_pos hkey, if_neg hne]
      · simp only [if_neg hkey]

end

/-! ### The accounts -/

namespace JsonUsers

def view (cfg : Config) : View Data := ⟨load cfg, fun _ => none⟩

def changes (data : Data) (users : List (String × String)) : Option (Data × Option Error) :=
  some (⟨users, [], data.yamlImportDone⟩, none)

def spec : Call → Spec Data
  | .all => .reads fun data => .ok (.accounts data.users)
  | .add username role => .edits fun _ data =>
    (.ok .none, changes data (put username role data.users))
  | .remove username => .edits fun _ data =>
    if has username data.users then (.ok (.flag true), changes data (del username data.users))
    else (.ok (.flag false), none)
  | .yamlImportDone => .reads fun data => .ok (.flag data.yamlImportDone)
  | .legacyRemoved => .reads fun data => .ok (.texts data.removed)
  | .importYamlUsers entries => .edits fun _ data =>
    (.ok .none, some (⟨entries.foldl (fun users entry => setDefault entry.1 entry.2 users)
      data.users, [], true⟩, none))

theorem load_written (cfg : Config) (data : Data) :
    (view cfg).shows
        [("users", textObject data.users), ("yaml_import_done", .bool data.yamlImportDone)] =
      ⟨data.users, [], data.yamlImportDone⟩ := by
  have hstr : (fun entry => (entry.1, cfg.str entry.2)) ∘
      (fun entry : String × String => (entry.1, .str entry.2)) = id := by
    funext entry
    simp [cfg.str_text]
  simp [view, load, has, textObject, lookup_cons_ite, truthy, hstr]

theorem simulates (cfg : Config) (c : Call) : Simulates (view cfg) (work cfg c) (spec c) := by
  have hwritten : ∀ data : Data, Writes (view cfg) (some (written data))
      (some (⟨data.users, [], data.yamlImportDone⟩, none)) :=
    fun data => .object _ _ _ (load_written cfg data) rfl
  cases c with
  | all => exact .reads _ _ fun data => rfl
  | add username role =>
    exact .edits _ _ (fun _ _ _ h => nomatch h) (fun _ _ _ => rfl) fun _ _ _ => hwritten _
  | remove username =>
    refine .edits _ _ (fun _ _ _ h => nomatch h) (fun _ data _ => ?_) fun _ data _ => ?_
    · dsimp only [view]
      cases has username (load cfg data).users <;> rfl
    · dsimp only [view]
      cases has username (load cfg data).users with
      | false => exact .nothing
      | true => exact hwritten _
  | yamlImportDone => exact .reads _ _ fun data => rfl
  | legacyRemoved => exact .reads _ _ fun data => rfl
  | importYamlUsers entries =>
    exact .edits _ _ (fun _ _ _ h => nomatch h) (fun _ _ _ => rfl) fun _ _ _ => hwritten _

end JsonUsers

/-! ### A value for each user -/

def byName {T : Type} (of : Option Json → T) : View (String → T) :=
  ⟨fun data name => of (data.lookup name), fun _ => none⟩

section

variable {T : Type} {of : Option Json → T}

theorem writes_put (name : String) (value : Json) (data : Fields) :
    Writes (byName of) (some (.obj (put name value data)))
      (some (Function.update ((byName of).shows data) name (of (some value)), none)) := by
  refine .object _ _ _ (funext fun name' => ?_) rfl
  simp only [byName, lookup_put, Function.update_apply]
  split <;> rfl

theorem writes_del (name : String) (data : Fields) :
    Writes (byName of) (some (.obj (del name data)))
      (some (Function.update ((byName of).shows data) name (of none), none)) := by
  refine .object _ _ _ (funext fun name' => ?_) rfl
  simp only [byName, lookup_del, Function.update_apply]
  split <;> rfl

theorem simulates_remove [DecidableEq T] (name : String) (h : ∀ value, of (some value) ≠ of none) :
    Simulates (byName of)
      (.edits fun _ data =>
        if !has name data then answers (.flag false)
        else DataFiles.writes (.obj (del name data)) (.flag true))
      (.edits fun _ values =>
        if values name = of none then (.ok (.flag false), none)
        else (.ok (.flag true), some (Function.update values name (of none), none))) := by
  have hsome : ∀ value : Option Json, value.isSome = !decide (of value = of none) := by
    intro value
    cases value with
    | none => simp
    | some value => simp [h value]
  have hhas : ∀ data : Fields, has name data = !decide ((byName of).shows data name = of none) :=
    fun data => hsome (data.lookup name)
  refine .edits _ _ (fun _ _ _ h => nomatch h) (fun _ data _ => ?_) fun _ data _ => ?_
  · rw [hhas]
    by_cases habsent : (byName of).shows data name = of none
    · simp [habsent, answers]
    · simp [habsent, DataFiles.writes]
  · rw [hhas]
    by_cases habsent : (byName of).shows data name = of none
    · simpa [habsent, answers] using .nothing
    · simpa [habsent, DataFiles.writes] using writes_del name data

end

inductive Slot where
  | absent
  | useless
  | text (s : String)
deriving DecidableEq

def Slot.given (s : String) : Slot := if s = "" then .useless else .text s

def Slot.of : Option Json → Slot
  | none => .absent
  | some (.str s) => .given s
  | some _ => .useless

def Slot.text? : Slot → Option String
  | .text s => some s
  | _ => none

theorem textOf_eq (value : Option Json) : textOf value = (Slot.of value).text? := by
  cases value with
  | none => rfl
  | some value =>
    cases value with
    | str s => by_cases h : s = "" <;> simp [textOf, Slot.of, Slot.given, Slot.text?, h]
    | _ => rfl

theorem slot_of_some (value : Json) : Slot.of (some value) ≠ Slot.of none := by
  cases value with
  | str s => by_cases h : s = "" <;> simp [Slot.of, Slot.given, h]
  | _ => exact Slot.noConfusion

namespace JsonCredentials

def spec : Call → Spec (String → Slot)
  | .get username => .reads fun slots => .ok (.text (slots username).text?)
  | .set username passwordHash => .edits fun _ slots =>
    (.ok .none, some (Function.update slots username (.given passwordHash), none))
  | .remove username => .edits fun _ slots =>
    if slots username = .absent then (.ok (.flag false), none)
    else (.ok (.flag true), some (Function.update slots username .absent, none))

theorem simulates (c : Call) : Simulates (byName Slot.of) (work c) (spec c) := by
  cases c with
  | get username => exact .reads _ _ fun data => by rw [textOf_eq]; rfl
  | set username passwordHash =>
    exact .edits _ _ (fun _ _ _ h => nomatch h) (fun _ _ _ => rfl)
      fun _ data _ => writes_put username (.str passwordHash) data
  | remove username => exact simulates_remove username slot_of_some

end JsonCredentials

namespace JsonDisplayNames

def spec : Call → Spec (String → Slot)
  | .get username => .reads fun slots => .ok (.text (slots username).text?)
  | .set username displayName => .edits fun _ slots =>
    (.ok .none, some (Function.update slots username
      (if displayName = "" then .absent else .text displayName), none))

theorem simulates (c : Call) : Simulates (byName Slot.of) (work c) (spec c) := by
  cases c with
  | get username => exact .reads _ _ fun data => by rw [textOf_eq]; rfl
  | set username displayName =>
    refine .edits _ _ (fun _ _ _ h => nomatch h) (fun _ data _ => ?_) fun _ data _ => ?_
    · by_cases h : displayName = "" <;> simp [h, writes]
    · by_cases h : displayName = ""
      · have hwrites : Writes (byName Slot.of) _ _ := writes_del username data
        simpa [h, writes, Slot.of] using hwrites
      · have hwrites : Writes (byName Slot.of) _ _ := writes_put username (.str displayName) data
        simpa [h, writes, Slot.of, Slot.given] using hwrites

end JsonDisplayNames

/-! ### The second factors -/

/-- The second factor of a user.  An entry of no use may still be confirmed, and stays useless. -/
inductive TwoFactor where
  | absent
  | useless (confirmable : Bool)
  | pending (secret : String)
  | enabled (secret : String)
deriving DecidableEq

namespace TwoFactor

def of : Option Json → TwoFactor
  | none => .absent
  | some (.obj entry) =>
    match textOf (entry.lookup "secret") with
    | some secret =>
      if truthy ((entry.lookup "confirmed").getD .null) then .enabled secret else .pending secret
    | none => .useless (truthy ((entry.lookup "secret").getD .null))
  | some _ => .useless false

def secret? : TwoFactor → Option String
  | .pending secret | .enabled secret => some secret
  | _ => none

def isEnabled : TwoFactor → Bool
  | .enabled _ => true
  | _ => false

def isPending : TwoFactor → Bool
  | .pending _ => true
  | _ => false

def started (secret : String) : TwoFactor := if secret = "" then .useless false else .pending secret

def confirmed : TwoFactor → Option TwoFactor
  | .pending secret | .enabled secret => some (.enabled secret)
  | .useless true => some (.useless true)
  | _ => none

end TwoFactor

namespace JsonTotp

def spec : Call → Spec (String → TwoFactor)
  | .isEnabled username => .reads fun factors => .ok (.flag (factors username).isEnabled)
  | .hasPending username => .reads fun factors => .ok (.flag (factors username).isPending)
  | .secret username => .reads fun factors => .ok (.text (factors username).secret?)
  | .setPending username secret => .edits fun _ factors =>
    (.ok .none, some (Function.update factors username (.started secret), none))
  | .confirm username => .edits fun _ factors =>
    match (factors username).confirmed with
    | some factor => (.ok (.flag true), some (Function.update factors username factor, none))
    | none => (.ok (.flag false), none)
  | .remove username => .edits fun _ factors =>
    if factors username = .absent then (.ok (.flag false), none)
    else (.ok (.flag true), some (Function.update factors username .absent, none))

theorem entry_eq (data : Fields) (username : String) :
    entry data username = match TwoFactor.of (data.lookup username) with
      | .pending secret => some ⟨secret, false⟩
      | .enabled secret => some ⟨secret, true⟩
      | _ => none := by
  unfold entry TwoFactor.of
  cases data.lookup username with
  | none => rfl
  | some value =>
    cases value with
    | obj fields =>
      cases hsecret : textOf (fields.lookup "secret") with
      | none => simp [hsecret]
      | some secret =>
        cases hconfirmed : truthy ((fields.lookup "confirmed").getD .null) <;>
          simp [hsecret, hconfirmed]
    | _ => rfl

theorem of_started (secret : String) :
    TwoFactor.of (some (.obj [("secret", .str secret), ("confirmed", .bool false)])) =
      .started secret := by
  by_cases h : secret = "" <;>
    simp [TwoFactor.of, TwoFactor.started, lookup_cons_ite, textOf, truthy, h]

theorem of_confirmed (fields : Fields) :
    (TwoFactor.of (some (.obj fields))).confirmed =
      if truthy ((fields.lookup "secret").getD .null) then
        some (TwoFactor.of (some (.obj (put "confirmed" (.bool true) fields))))
      else none := by
  have hsecret : (put "confirmed" (.bool true) fields).lookup "secret" =
      fields.lookup "secret" := by
    rw [lookup_put, if_neg (by decide)]
  have hconfirmed : (put "confirmed" (.bool true) fields).lookup "confirmed" =
      some (.bool true) := by
    rw [lookup_put, if_pos rfl]
  simp only [TwoFactor.of, hsecret, hconfirmed]
  cases htext : textOf (fields.lookup "secret") with
  | none =>
    cases htruthy : truthy ((fields.lookup "secret").getD .null) <;>
      simp [TwoFactor.confirmed]
  | some secret =>
    have htruthy : truthy ((fields.lookup "secret").getD .null) = true := by
      unfold textOf at htext
      split at htext
      · next s hs =>
        rw [hs]
        by_cases h : s = ""
        · simp [h] at htext
        · simp [truthy, h]
      · cases htext
    rw [if_pos htruthy]
    cases truthy ((fields.lookup "confirmed").getD .null) <;>
      simp [TwoFactor.confirmed, truthy]

theorem simulates (c : Call) : Simulates (byName TwoFactor.of) (work c) (spec c) := by
  cases c with
  | isEnabled username =>
    refine .reads _ _ fun data => ?_
    rw [entry_eq]
    cases h : TwoFactor.of (data.lookup username) <;> simp [byName, TwoFactor.isEnabled, h]
  | hasPending username =>
    refine .reads _ _ fun data => ?_
    rw [entry_eq]
    cases h : TwoFactor.of (data.lookup username) <;> simp [byName, TwoFactor.isPending, h]
  | secret username =>
    refine .reads _ _ fun data => ?_
    rw [entry_eq]
    cases h : TwoFactor.of (data.lookup username) <;> simp [byName, TwoFactor.secret?, h]
  | setPending username secret =>
    refine .edits _ _ (fun _ _ _ h => nomatch h) (fun _ _ _ => rfl) fun _ data _ => ?_
    rw [← of_started]
    exact writes_put username _ data
  | confirm username =>
    refine .edits _ _ (fun _ _ _ h => nomatch h) (fun _ data _ => ?_) fun _ data _ => ?_
    · simp only [byName]
      rcases data.lookup username with _ | _ | _ | _ | _ | _ | _ | fields
      case some.obj =>
        rw [of_confirmed]
        dsimp only
        cases truthy ((fields.lookup "secret").getD .null) <;> rfl
      all_goals rfl
    · simp only [byName]
      rcases data.lookup username with _ | _ | _ | _ | _ | _ | _ | fields
      case some.obj =>
        rw [of_confirmed]
        dsimp only
        cases truthy ((fields.lookup "secret").getD .null) with
        | false => exact .nothing
        | true => exact writes_put username _ data
      all_goals exact .nothing
  | remove username =>
    refine simulates_remove username fun value => ?_
    cases value with
    | obj fields =>
      simp only [TwoFactor.of]
      split
      · split <;> exact TwoFactor.noConfusion
      · exact TwoFactor.noConfusion
    | _ => exact TwoFactor.noConfusion

end JsonTotp

/-! ### The API tokens -/

namespace ApiTokenStore

/-- An entry is found by its hash, if it has one, and then shown, which may fail. -/
inductive Token where
  | useless
  | entry (hash : Option String) (shown : Except Error ApiTokenInfo)

def Token.of (cfg : Config) (tokenId : String) : Json → Token
  | .obj fields =>
    let hash := match fields.lookup "token_hash" with
      | some (.str stored) => some stored
      | _ => none
    .entry hash (info cfg tokenId fields)
  | _ => .useless

abbrev Tokens := List (String × Token)

def view (cfg : Config) : View Tokens :=
  ⟨fun data => data.map fun entry => (entry.1, .of cfg entry.1 entry.2), fun _ => none⟩

def find (wanted : String) : Tokens → Except Error (Option ApiTokenInfo)
  | [] => .ok none
  | (_, .entry (some stored) shown) :: rest => do
    if ← compareDigest stored wanted then return some (← shown)
    else find wanted rest
  | _ :: rest => find wanted rest

def shownOf : Tokens → Except Error (List ApiTokenInfo)
  | [] => .ok []
  | (_, .entry _ shown) :: rest => do
    let first ← shown
    let others ← shownOf rest
    return first :: others
  | _ :: rest => shownOf rest

def Token.new (cfg : Config) (tokenId raw label role : String) (now : ℚ) : Token :=
  .entry (some (cfg.sha256 raw)) (.ok ⟨tokenId, cleanLabel cfg.u label, role, some now⟩)

def spec (cfg : Config) : Call → Spec Tokens
  | .create tokenId raw label role now => .edits fun _ tokens =>
    (.ok (.created tokenId raw),
      some (put tokenId (.new cfg tokenId raw label role now) tokens, none))
  | .resolve raw => .reads fun tokens =>
    if raw = "" then .ok (.resolved none) else .resolved <$> find (cfg.sha256 raw) tokens
  | .list => .reads fun tokens =>
    (fun infos => .tokens (cfg.newestFirst infos)) <$> shownOf tokens
  | .revoke tokenId => .edits fun _ tokens =>
    if has tokenId tokens then (.ok (.flag true), some (del tokenId tokens, none))
    else (.ok (.flag false), none)

variable (cfg : Config)

theorem resolveIn_eq (wanted : String) (data : Fields) :
    resolveIn cfg wanted data = find wanted ((view cfg).shows data) := by
  induction data with
  | nil => rfl
  | cons entry data ih =>
    obtain ⟨tokenId, value⟩ := entry
    change _ = find wanted ((tokenId, Token.of cfg tokenId value) :: (view cfg).shows data)
    cases value with
    | obj fields =>
      rw [resolveIn, ih]
      simp only [Token.of]
      cases fields.lookup "token_hash" with
      | none => rfl
      | some value => cases value <;> rfl
    | _ => exact ih

theorem infosOf_eq (data : Fields) : infosOf cfg data = shownOf ((view cfg).shows data) := by
  induction data with
  | nil => rfl
  | cons entry data ih =>
    obtain ⟨tokenId, value⟩ := entry
    change _ = shownOf ((tokenId, Token.of cfg tokenId value) :: (view cfg).shows data)
    cases value with
    | obj fields =>
      rw [infosOf, ih]
      rfl
    | _ => simpa only [infosOf, Token.of, shownOf] using ih

theorem shows_put (tokenId : String) (value : Json) (data : Fields) :
    (view cfg).shows (put tokenId value data) =
      put tokenId (.of cfg tokenId value) ((view cfg).shows data) := by
  induction data with
  | nil => rfl
  | cons entry data ih =>
    obtain ⟨tokenId', value'⟩ := entry
    by_cases h : tokenId' = tokenId
    · simp [put, view, h]
    · simpa [put, view, h] using ih

theorem shows_del (tokenId : String) (data : Fields) :
    (view cfg).shows (del tokenId data) = del tokenId ((view cfg).shows data) := by
  simp only [view, del, List.filter_map]
  rfl

theorem has_shows (tokenId : String) (data : Fields) :
    has tokenId ((view cfg).shows data) = has tokenId data := by
  induction data with
  | nil => rfl
  | cons entry data ih =>
    simp only [has, view, List.map_cons, lookup_cons_ite] at ih ⊢
    by_cases h : tokenId = entry.1 <;> simp [h, ← ih]

theorem cleanLabel_ne_empty (u : Backtracking.CharTable) (label : String) :
    cleanLabel u label ≠ "" := by
  unfold cleanLabel
  dsimp only
  split
  · decide
  · next h =>
    intro hempty
    have htake : List.take 64 _ = [] := String.ofList_eq_empty_iff.mp hempty
    rcases List.take_eq_nil_iff.mp htake with h64 | hnil
    · exact absurd h64 (by decide)
    · exact h hnil

theorem of_newEntry (tokenId raw label role : String) (now : ℚ) :
    Token.of cfg tokenId (.obj (newEntry cfg raw label role now)) =
      .new cfg tokenId raw label role now := by
  have hrole : getOr (newEntry cfg raw label role now) "role" (.str "") = .str role := by
    by_cases h : role = "" <;> simp [getOr, newEntry, lookup_cons_ite, truthy, h]
  have hlabel : getOr (newEntry cfg raw label role now) "label" (.str "sans nom") =
      .str (cleanLabel cfg.u label) := by
    simp [getOr, newEntry, truthy, cleanLabel_ne_empty]
  have hnow : getOr (newEntry cfg raw label role now) "created_at" (.float (some 0)) =
      .float (some now) := by
    by_cases h : now = 0 <;> simp [getOr, newEntry, lookup_cons_ite, truthy, h]
  simp only [Token.of, info, hrole, hlabel, hnow, cfg.float_float, cfg.str_text]
  rfl

theorem simulates (c : Call) : Simulates (view cfg) (work cfg c) (spec cfg c) := by
  cases c with
  | create tokenId raw label role now =>
    refine .edits _ _ (fun _ _ _ h => nomatch h) (fun _ _ _ => rfl) fun _ data _ => ?_
    refine .object _ _ _ ?_ rfl
    rw [shows_put, of_newEntry]
  | resolve raw => exact .reads _ _ fun data => by rw [resolveIn_eq]
  | list => exact .reads _ _ fun data => by rw [infosOf_eq]
  | revoke tokenId =>
    refine .edits _ _ (fun _ _ _ h => nomatch h) (fun _ data _ => ?_) fun _ data _ => ?_
    · rw [has_shows]
      cases has tokenId data <;> rfl
    · rw [has_shows]
      cases has tokenId data with
      | false => exact .nothing
      | true => exact .object _ _ _ (shows_del cfg tokenId data) rfl

end ApiTokenStore

/-! ### The containers that are watched -/

namespace JsonWatched

def view (cfg : Config) : View Data :=
  ⟨load cfg, fun data =>
    if validSchema data then none else some (unexpectedSchema (cfg.path .watched))⟩

def spec : Call → Spec Data
  | .all => .reads fun data => .ok (.texts data.containers)
  | .add name => .edits fun _ data =>
    if data.containers.contains name then (.ok (.flag false), none)
    else (.ok (.flag true), some (⟨data.containers ++ [name], data.envImportDone⟩, none))
  | .remove name => .edits fun _ data =>
    if data.containers.contains name then
      (.ok (.flag true), some (⟨data.containers.erase name, data.envImportDone⟩, none))
    else (.ok (.flag false), none)
  | .importFromEnv names => .edits fun present data =>
    let imported := names.filter fun n => n ≠ "" && !data.containers.contains n
    if data.envImportDone || (imported = [] && !present) then (.ok (.texts []), none)
    else (.ok (.texts imported), some (⟨data.containers ++ imported, true⟩, none))

variable (cfg : Config)

theorem writes_written (data : Data) :
    Writes (view cfg) (some (written data)) (some (data, none)) := by
  refine .object _ _ _ ?_ ?_
  · have hstr : cfg.str ∘ Json.str = id := funext cfg.str_text
    simp [view, load, lookup_cons_ite, truthy, hstr]
  · have hall : ∀ containers : List String, (containers.map Json.str).all isText = true := by
      simp [isText]
    simp [view, validSchema, lookup_cons_ite, hall]

theorem simulates_edits (edit : Bool → Data → Outcome) (edit' : Bool → Data → Change Data)
    (hanswer : ∀ present data, (edit present data).1 = (edit' present data).1)
    (hwrites : ∀ present data, Writes (view cfg) (edit present data).2 (edit' present data).2) :
    Simulates (view cfg) (edits cfg edit) (.edits edit') := by
  refine .edits _ _ (fun _ data e h => ?_) (fun present data h => ?_) fun present data h => ?_
  all_goals cases hvalid : validSchema data
  all_goals simp [view, hvalid] at h
  · subst h
    rfl
  · exact hanswer present (load cfg data)
  · exact hwrites present (load cfg data)

theorem simulates (c : Call) : Simulates (view cfg) (work cfg c) (spec c) := by
  cases c with
  | all => exact .reads _ _ fun data => rfl
  | add name =>
    rw [work, spec]
    refine simulates_edits cfg _ _ (fun _ data => ?_) fun _ data => ?_
    · cases data.containers.contains name <;> rfl
    · cases data.containers.contains name with
      | true => exact .nothing
      | false => exact writes_written cfg _
  | remove name =>
    rw [work, spec]
    refine simulates_edits cfg _ _ (fun _ data => ?_) fun _ data => ?_
    · cases data.containers.contains name <;> rfl
    · cases data.containers.contains name with
      | false => exact .nothing
      | true => exact writes_written cfg _
  | importFromEnv names =>
    rw [work, spec]
    refine simulates_edits cfg _ _ (fun present data => ?_) fun present data => ?_
    all_goals
      cases data.envImportDone with
      | true => first | rfl | exact .nothing
      | false => ?_
    all_goals
      simp only [Bool.false_eq_true, if_false, Bool.false_or]
      split
      · first | rfl | exact .nothing
      · first | rfl | exact writes_written cfg _

end JsonWatched

end DataFiles
