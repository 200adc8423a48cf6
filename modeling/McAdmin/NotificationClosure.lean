import McAdmin.NotificationConfig
import McAdmin.Runs

/-!
# The notification file is closed under its calls

What a strict reading makes of a file that was written; which calls leave a file that a
strict reading accepts.
-/

namespace NotificationConfig

open Backtracking (CharTable)
open OpLevelsWorker (Json)
open ProfileStore (slugify freshSlug freshSlug_notMem)
open Runs (run Along)

/-! ### Dictionaries -/

section

variable {β γ : Type} {l : List (String × β)}

theorem lookup_map (f : β → γ) (l : List (String × β)) (k : String) :
    (l.map fun (k, v) => (k, f v)).lookup k = (l.lookup k).map f := by
  induction l with
  | nil => rfl
  | cons entry l ih =>
    rcases entry with ⟨k', v⟩
    simp only [List.map_cons, List.lookup_cons, ih]
    cases k == k' <;> rfl

theorem keys_map (ks : List String) (f : String → β) :
    (ks.map fun k => (k, f k)).map (·.1) = ks := by
  rw [List.map_map]
  exact List.map_id ks

theorem rebuild (hl : (l.map (·.1)).Nodup) (f : String → Option β → γ) :
    ((l.map (·.1)).map fun k => (k, f k (l.lookup k))) = l.map fun (k, v) => (k, f k (some v)) := by
  induction l with
  | nil => rfl
  | cons entry l ih =>
    rcases entry with ⟨k, v⟩
    rw [List.map_cons, List.nodup_cons] at hl
    simp only [List.map_cons, List.lookup_cons_self]
    refine congrArg _ (Eq.trans (List.map_congr_left fun k' hk' => ?_) (ih hl.2))
    have hne : k' ≠ k := fun heq => hl.1 (heq ▸ hk')
    have hbeq : (k' == k) = false := by simpa using hne
    rw [List.lookup_cons, hbeq]

end

/-! ### Channels that have been read -/

structure Channel.Normal (ch : Channel) : Prop where
  named : ch.id ≠ ""
  config : ch.config.map (·.1) = ch.type.fields
  events : ch.events.map (·.1) = eventKeys

def Channel.relabelled (ch : Channel) : Channel := { ch with label := orElse ch.label ch.type.name }

section

variable {u : CharTable} {path : String} {ch : Channel} {raw : Fields}

theorem fields_nodup (type : ChannelType) : type.fields.Nodup := by
  cases type <;> decide

theorem eventKeys_nodup : eventKeys.Nodup := by decide

theorem channelType_name (type : ChannelType) : channelType (some (.str type.name)) = some type := by
  cases type <;> rfl

theorem slugify_ne_empty (name : Backtracking.Text) : slugify u name ≠ "" := by
  simp only [slugify]
  split
  · decide
  · rename_i hslug
    exact fun heq => hslug (by simpa using congrArg String.toList heq)

theorem orElse_ne_empty {first other : String} (h : other ≠ "") : orElse first other ≠ "" := by
  by_cases hfirst : first = ""
  · rwa [orElse, if_pos hfirst]
  · rwa [orElse, if_neg hfirst]

theorem orElse_of_ne {first other : String} (h : first ≠ "") : orElse first other = first :=
  if_neg h

theorem normEvents_keys (raw : Option Json) : (normEvents raw).map (·.1) = eventKeys :=
  keys_map eventKeys _

theorem normChannel_normal (h : normChannel u raw = some ch) : ch.Normal := by
  rcases Option.map_eq_some_iff.mp h with ⟨type, _, rfl⟩
  exact ⟨orElse_ne_empty (slugify_ne_empty _), keys_map type.fields _, normEvents_keys _⟩

theorem normEvents_flagObject {events : List (String × Bool)}
    (h : events.map (·.1) = eventKeys) : normEvents (some (flagObject events)) = events := by
  have hnodup : (events.map (·.1)).Nodup := h ▸ eventKeys_nodup
  have hrebuilt := rebuild hnodup fun k (value : Option Bool) =>
    value.getD (eventLegacyDefault k)
  simp only [Option.getD_some, List.map_id'] at hrebuilt
  simp only [normEvents, flagObject, lookup_map, ← h]
  refine Eq.trans (List.map_congr_left fun k _ => ?_) hrebuilt
  cases events.lookup k <;> rfl

theorem config_textObject {config : List (String × String)} {type : ChannelType}
    (h : config.map (·.1) = type.fields) :
    (type.fields.map fun k => (k, text ((config.map fun (k, v) => (k, Json.str v)).lookup k))) =
      config := by
  have hnodup : (config.map (·.1)).Nodup := h ▸ fields_nodup type
  have hrebuilt := rebuild hnodup fun _ (value : Option String) => text (value.map Json.str)
  simp only [Option.map_some, text, List.map_id'] at hrebuilt
  simp only [lookup_map, ← h]
  exact hrebuilt

theorem normChannel_fields (h : ch.Normal) : normChannel u ch.fields = some ch.relabelled := by
  have htype : ch.fields.lookup "type" = some (.str ch.type.name) := rfl
  have hconfig : ch.fields.lookup "config" = some (textObject ch.config) := rfl
  have hevents : ch.fields.lookup "events" = some (flagObject ch.events) := rfl
  have hid : ch.fields.lookup "id" = some (.str ch.id) := rfl
  have hlabel : ch.fields.lookup "label" = some (.str ch.label) := rfl
  have henabled : ch.fields.lookup "enabled" = some (.bool ch.enabled) := rfl
  simp only [normChannel, htype, hconfig, hevents, hid, hlabel, henabled, channelType_name,
    Option.map_some, normEvents_flagObject h.events, Option.getD_some, textObject]
  rw [config_textObject h.config, show text (some (.str ch.id)) = ch.id from rfl,
    orElse_of_ne h.named]
  rfl

theorem validConfig_textObject (type : ChannelType) (config : List (String × String)) :
    validConfig type (textObject config) = true := by
  simp only [validConfig, textObject, lookup_map, List.all_eq_true]
  intro field _
  cases config.lookup field <;> rfl

theorem validEvents_flagObject {events : List (String × Bool)}
    (h : events.map (·.1) = eventKeys) : validEvents (flagObject events) = true := by
  simp only [validEvents, flagObject, List.all_map, List.all_eq_true]
  intro event hevent
  have hkey : event.1 ∈ eventKeys := h ▸ List.mem_map_of_mem hevent
  simp [hkey, isFlag]

theorem validV2Channel_fields (h : ch.Normal) : validV2Channel ch.fields = .ok true := by
  have htype : ch.fields.lookup "type" = some (.str ch.type.name) := rfl
  have hid : ch.fields.lookup "id" = some (.str ch.id) := rfl
  have hlabel : ch.fields.lookup "label" = some (.str ch.label) := rfl
  have hconfig : ch.fields.lookup "config" = some (textObject ch.config) := rfl
  have hevents : ch.fields.lookup "events" = some (flagObject ch.events) := rfl
  have henabled : ch.fields.lookup "enabled" = some (.bool ch.enabled) := rfl
  simp only [validV2Channel, htype, hid, hlabel, hconfig, hevents, henabled, channelType_name]
  simp [isTextOrNone, isFlag, validConfig_textObject, validEvents_flagObject h.events]

/-! ### Files that have been written -/

structure Data.Sound (data : Data) : Prop where
  normal : ∀ ch ∈ data.channels, ch.Normal
  distinct : (ids data.channels).Nodup

theorem loadChannels_sound {out channels : List Channel} {items : List Json}
    (hnormal : ∀ ch ∈ out, ch.Normal) (hdistinct : (ids out).Nodup)
    (h : loadChannels u path out items = .ok channels) :
    (∀ ch ∈ channels, ch.Normal) ∧ (ids channels).Nodup := by
  induction items generalizing out with
  | nil =>
    cases h
    exact ⟨hnormal, hdistinct⟩
  | cons item items ih =>
    cases item with
    | obj raw =>
      simp only [loadChannels, bind, Except.bind] at h
      cases hvalid : validV2Channel raw with
      | error e =>
        rw [hvalid] at h
        cases h
      | ok valid =>
        rw [hvalid] at h
        cases valid with
        | false => cases h
        | true =>
          simp only [Bool.not_true, Bool.false_eq_true, if_false] at h
          cases hnorm : normChannel u raw with
          | none =>
            rw [hnorm] at h
            cases h
          | some ch =>
            rw [hnorm] at h
            simp only at h
            by_cases hseen : ch.id ∈ ids out
            · rw [if_pos hseen] at h
              cases h
            · rw [if_neg hseen] at h
              refine ih ?_ ?_ h
              · intro ch' hch'
                rcases List.mem_append.mp hch' with hch' | hch'
                · exact hnormal ch' hch'
                · rw [List.mem_singleton.mp hch']
                  exact normChannel_normal hnorm
              · rw [ids, List.map_append, List.nodup_append']
                exact ⟨hdistinct, by simp, by simpa [ids] using hseen⟩
    | null => cases h
    | bool b => cases h
    | int n => cases h
    | float value => cases h
    | str s => cases h
    | arr items => cases h

theorem loadChannels_fields {out channels : List Channel} (hnormal : ∀ ch ∈ channels, ch.Normal)
    (hout : (ids out).Nodup) :
    loadChannels u path out (channels.map fun ch => .obj ch.fields) =
      if (ids out ++ ids channels).Nodup then .ok (out ++ channels.map Channel.relabelled)
      else .error (duplicateId path) := by
  induction channels generalizing out with
  | nil =>
    rw [if_pos (by simpa [ids] using hout)]
    simp [loadChannels]
  | cons ch channels ih =>
    rcases List.forall_mem_cons.mp hnormal with ⟨hch, hrest⟩
    simp only [List.map_cons, loadChannels, validV2Channel_fields hch, bind, Except.bind,
      Bool.not_true, Bool.false_eq_true, if_false, normChannel_fields hch]
    have hids : ids out ++ ids (ch :: channels) = ids (out ++ [ch.relabelled]) ++ ids channels := by
      simp [ids, Channel.relabelled]
    by_cases hseen : ch.id ∈ ids out
    · rw [if_pos (show ch.relabelled.id ∈ ids out from hseen), if_neg]
      intro hnodup
      exact (List.disjoint_of_nodup_append hnodup) hseen (by simp [ids])
    · have hnext : (ids (out ++ [ch.relabelled])).Nodup := by
        rw [ids, List.map_append, List.nodup_append']
        exact ⟨hout, by simp, by simpa [ids, Channel.relabelled] using hseen⟩
      rw [if_neg (show ch.relabelled.id ∉ ids out from hseen), ih hrest hnext, hids]
      simp

theorem load_written {channels : List Channel} (hnormal : ∀ ch ∈ channels, ch.Normal)
    (done : Bool) :
    load u path (written (channels.map fun ch => .obj ch.fields) done) =
      if (ids channels).Nodup then .ok ⟨channels.map Channel.relabelled, done⟩
      else .error (duplicateId path) := by
  have hload : load u path (written (channels.map fun ch => .obj ch.fields) done) =
      (loadChannels u path [] (channels.map fun ch => .obj ch.fields)).map
        fun channels => ⟨channels, done⟩ := by
    change (loadChannels u path [] _ >>= fun channels => _) = _
    cases loadChannels u path [] (channels.map fun ch => .obj ch.fields) <;> rfl
  rw [hload, loadChannels_fields hnormal (by simp [ids])]
  simp only [show ids [] = [] from rfl, List.nil_append]
  split <;> rfl

theorem bind_ok {α β : Type} {x : Except Error α} {f : α → Except Error β} {b : β}
    (h : (x >>= f) = .ok b) : ∃ a, x = .ok a ∧ f a = .ok b := by
  cases x with
  | error e => cases h
  | ok a => exact ⟨a, rfl, h⟩

theorem load_sound {file : File} {data : Data} (h : load u path file = .ok data) : data.Sound := by
  rcases bind_ok h with ⟨fields, _, h⟩
  rcases bind_ok h with ⟨done, _, h⟩
  rcases bind_ok h with ⟨raw, _, h⟩
  rcases bind_ok h with ⟨channels, hchannels, h⟩
  cases h
  rcases loadChannels_sound (by simp) (by simp [ids]) hchannels with ⟨hnormal, hdistinct⟩
  exact ⟨hnormal, hdistinct⟩

end

/-! ### The calls -/

def Channel.settings (ch : Channel) :
    String × ChannelType × List (String × String) × List (String × Bool) × Bool :=
  (ch.id, ch.type, ch.config, ch.events, ch.enabled)

inductive Operation where
  | addChannel (type label : String) (config : List (String × String)) (events : Fields)
      (enabled : Bool)
  | updateChannel (channelId : String) (edit : Update)
  | removeChannel (channelId : String)
  | importFromEnv (channels : List (String × String)) (events : Fields)

def Operation.target : Operation → Option String
  | .updateChannel channelId _ => some channelId
  | .removeChannel channelId => some channelId
  | _ => none

def Operation.edit (u : CharTable) (path : String) (file : File) :
    Operation → Except Error (Option File)
  | .addChannel type label config events enabled =>
    (NotificationConfig.addChannel u path type label config events enabled file).map fun added =>
      some added.1
  | .updateChannel channelId edit => NotificationConfig.updateChannel u path channelId edit file
  | .removeChannel channelId => NotificationConfig.removeChannel u path channelId file
  | .importFromEnv channels events => NotificationConfig.importFromEnv u path channels events file

def imported (channels : List (String × String)) (events : Fields) : List Channel :=
  let value := fun key => (channels.lookup key).getD ""
  let events := normEvents (some (.obj events))
  (if value "discord_webhook_url" ≠ "" then
      [⟨"discord-importe", .discord, "Discord (importé)",
        [("webhook_url", value "discord_webhook_url")], events, true⟩]
    else []) ++
  if value "telegram_bot_token" ≠ "" ∧ value "telegram_chat_id" ≠ "" then
    [⟨"telegram-importe", .telegram, "Telegram (importé)",
      [("bot_token", value "telegram_bot_token"), ("chat_id", value "telegram_chat_id")],
      events, true⟩]
  else []

/-- The import is carried out: it is the first, and there is a value to take or a file. -/
def ImportGoes (file : File) (data : Data) (channels : List (String × String)) (events : Fields) :
    Prop :=
  data.envImportDone = false ∧ ((channels.any fun entry => entry.2 ≠ "") = true ∨
    (events.any fun event => truthy event.2) = true ∨ file ≠ .absent)

/-- An import that is carried out appends no channel whose identifier is there. -/
def Operation.Clear (file : File) (data : Data) : Operation → Prop
  | .importFromEnv channels events => ImportGoes file data channels events →
      ∀ id ∈ ids (imported channels events), id ∉ ids data.channels
  | _ => True

section

variable {u : CharTable} {path : String} {file file' : File} {data : Data} {op : Operation}

theorem fromV1_textFields (channels : List (String × String)) (events : Fields) :
    fromV1 (textFields channels) (some (.obj events)) =
      (imported channels events).map fun ch => .obj ch.fields := by
  have htruthy : ∀ key, truthy (((textFields channels).lookup key).getD .null) =
      decide ((channels.lookup key).getD "" ≠ "") := by
    intro key
    rw [textFields, lookup_map]
    cases channels.lookup key <;> simp [truthy]
  have hvalue : ∀ key, (channels.lookup key).getD "" ≠ "" →
      ((textFields channels).lookup key).getD .null = .str ((channels.lookup key).getD "") := by
    intro key hkey
    rw [textFields, lookup_map]
    cases hlookup : channels.lookup key with
    | none => simp [hlookup] at hkey
    | some value => rfl
  simp only [fromV1, imported, htruthy, List.map_append]
  congr 1
  · by_cases hdiscord : (channels.lookup "discord_webhook_url").getD "" ≠ ""
    · rw [if_pos (by simpa using hdiscord), if_pos hdiscord, hvalue _ hdiscord]
      rfl
    · rw [if_neg (by simpa using hdiscord), if_neg hdiscord]
      rfl
  · by_cases htelegram : (channels.lookup "telegram_bot_token").getD "" ≠ "" ∧
        (channels.lookup "telegram_chat_id").getD "" ≠ ""
    · rw [if_pos (by simpa using htelegram), if_pos htelegram, hvalue _ htelegram.1,
        hvalue _ htelegram.2]
      rfl
    · rw [if_neg (by simpa using htelegram), if_neg htelegram]
      rfl

theorem imported_normal (channels : List (String × String)) (events : Fields) :
    ∀ ch ∈ imported channels events, ch.Normal := by
  intro ch hch
  simp only [imported, List.mem_append] at hch
  rcases hch with hch | hch
  · split at hch
    · rw [List.mem_singleton.mp hch]
      exact ⟨by simp, rfl, normEvents_keys (some (.obj events))⟩
    · cases hch
  · split at hch
    · rw [List.mem_singleton.mp hch]
      exact ⟨by simp, rfl, normEvents_keys (some (.obj events))⟩
    · cases hch

theorem imported_nodup (channels : List (String × String)) (events : Fields) :
    (ids (imported channels events)).Nodup := by
  simp only [imported, ids]
  split <;> split <;> simp

theorem importFromEnv_goes {channels : List (String × String)} {events : Fields}
    (hload : load u path file = .ok data) (h : ImportGoes file data channels events) :
    importFromEnv u path channels events file =
      .ok (some (written ((data.channels ++ imported channels events).map fun ch =>
        .obj ch.fields) true)) := by
  rcases h with ⟨hdone, hcontent⟩
  simp only [importFromEnv, hload, bind, Except.bind, hdone, Bool.false_eq_true, if_false,
    List.map_append, fromV1_textFields]
  split
  · rename_i hnone
    rcases Bool.or_eq_false_iff.mp hnone with ⟨hchannels, hevents⟩
    rcases hcontent with hcontent | hcontent | habsent
    · rw [hchannels] at hcontent
      cases hcontent
    · rw [hevents] at hcontent
      cases hcontent
    · exact absurd rfl habsent
  · rfl

theorem importFromEnv_stays {channels : List (String × String)} {events : Fields}
    (hload : load u path file = .ok data) (h : ¬ ImportGoes file data channels events) :
    importFromEnv u path channels events file = .ok none := by
  simp only [importFromEnv, hload, bind, Except.bind]
  cases hdone : data.envImportDone with
  | true => rfl
  | false =>
    have hnone : ¬ _ := fun hcontent => h ⟨hdone, hcontent⟩
    simp only [not_or, not_not] at hnone
    rcases hnone with ⟨hchannels, hevents, rfl⟩
    rw [Bool.eq_false_iff.mpr hchannels, Bool.eq_false_iff.mpr hevents]
    rfl

theorem search_eq_candidate (existing : List String) (base : String) (most n : ℕ) :
    ∃ k, ProfileStore.search existing base most n = ProfileStore.candidate base k := by
  induction most generalizing n with
  | zero => exact ⟨n, rfl⟩
  | succ most ih =>
    simp only [ProfileStore.search]
    split
    · exact ih (n + 1)
    · exact ⟨n, rfl⟩

theorem freshSlug_ne_empty (existing : List String) {base : String} (hbase : base ≠ "") :
    freshSlug existing base ≠ "" := by
  rcases search_eq_candidate existing base (existing.length + 1) 0 with ⟨k, hk⟩
  rw [freshSlug, hk]
  cases k with
  | zero => exact hbase
  | succ k =>
    intro hempty
    have hlist := congrArg String.toList hempty
    simp [ProfileStore.candidate] at hlist

structure Edited (op : Operation) (file : File) (data : Data) (after : List Channel) : Prop where
  normal : ∀ ch ∈ after, ch.Normal
  kept : ∀ ch ∈ data.channels, op.target ≠ some ch.id → ch ∈ after
  distinct : (ids after).Nodup ↔ op.Clear file data

theorem edited_add {ch : Channel} {type label : String} {config : List (String × String)}
    {events : Fields} {enabled : Bool} (hsound : data.Sound) (hch : ch.Normal)
    (hid : ch.id ∉ ids data.channels) :
    Edited (.addChannel type label config events enabled) file data (data.channels ++ [ch]) := by
  refine ⟨?_, fun ch' hch' _ => List.mem_append_left _ hch', iff_of_true ?_ trivial⟩
  · exact List.forall_mem_append.mpr ⟨hsound.normal, by simpa using hch⟩
  · rw [ids, List.map_append, List.nodup_append']
    exact ⟨hsound.distinct, by simp, by simpa [ids] using hid⟩

theorem apply_normal {ch : Channel} (h : ch.Normal) (edit : Update) : (edit.apply ch).Normal := by
  refine ⟨h.named, ?_, ?_⟩
  · simp only [Update.apply]
    cases edit.config with
    | none => exact h.config
    | some config => exact keys_map ch.type.fields _
  · simp only [Update.apply]
    cases edit.events with
    | none => exact h.events
    | some events => exact normEvents_keys _

theorem updateIn_some {channelId : String} {edit : Update} {channels after : List Channel}
    (hnormal : ∀ ch ∈ channels, ch.Normal) (h : updateIn channelId edit channels = some after) :
    (∀ ch ∈ after, ch.Normal) ∧ ids after = ids channels ∧
      ∀ ch ∈ channels, ch.id ≠ channelId → ch ∈ after := by
  induction channels generalizing after with
  | nil => cases h
  | cons ch channels ih =>
    rcases List.forall_mem_cons.mp hnormal with ⟨hch, hrest⟩
    simp only [updateIn] at h
    by_cases hid : ch.id = channelId
    · rw [if_pos hid] at h
      cases h
      refine ⟨List.forall_mem_cons.mpr ⟨apply_normal hch edit, hrest⟩, rfl, ?_⟩
      intro ch' hch' hne
      rcases List.mem_cons.mp hch' with rfl | hch'
      · exact absurd hid hne
      · exact List.mem_cons_of_mem _ hch'
    · rw [if_neg hid] at h
      rcases Option.map_eq_some_iff.mp h with ⟨rest, hupdated, rfl⟩
      rcases ih hrest hupdated with ⟨hnormal', hids, hkept⟩
      refine ⟨List.forall_mem_cons.mpr ⟨hch, hnormal'⟩, ?_, ?_⟩
      · simp only [ids, List.map_cons] at hids ⊢
        rw [hids]
      · intro ch' hch' hne
        rcases List.mem_cons.mp hch' with rfl | hch'
        · exact List.mem_cons_self
        · exact List.mem_cons_of_mem _ (hkept ch' hch' hne)

theorem edited_update {channelId : String} {edit : Update} {after : List Channel}
    (hsound : data.Sound) (h : updateIn channelId edit data.channels = some after) :
    Edited (.updateChannel channelId edit) file data after := by
  rcases updateIn_some hsound.normal h with ⟨hnormal, hids, hkept⟩
  refine ⟨hnormal, fun ch hch hne => hkept ch hch fun heq => hne (congrArg some heq.symm),
    iff_of_true ?_ trivial⟩
  rw [hids]
  exact hsound.distinct

theorem edited_remove {channelId : String} (hsound : data.Sound) :
    Edited (.removeChannel channelId) file data (data.channels.filter (·.id ≠ channelId)) := by
  refine ⟨fun ch hch => hsound.normal ch (List.mem_filter.mp hch).1, fun ch hch hne => ?_,
    iff_of_true ?_ trivial⟩
  · exact List.mem_filter.mpr ⟨hch, by simpa using fun heq => hne (congrArg some heq.symm)⟩
  · exact hsound.distinct.sublist (List.filter_sublist.map _)

theorem edited_import {channels : List (String × String)} {events : Fields}
    (hsound : data.Sound)
    (hclear : Operation.Clear file data (.importFromEnv channels events) ↔
      ∀ id ∈ ids (imported channels events), id ∉ ids data.channels) :
    Edited (.importFromEnv channels events) file data
      (data.channels ++ imported channels events) := by
  refine ⟨List.forall_mem_append.mpr ⟨hsound.normal, imported_normal channels events⟩,
    fun ch hch _ => List.mem_append_left _ hch, ?_⟩
  rw [hclear, ids, List.map_append, List.nodup_append']
  constructor
  · exact fun h id hid hmem => h.2.2 hmem hid
  · exact fun h => ⟨hsound.distinct, imported_nodup channels events,
      fun id hmem hid => h id hid hmem⟩

theorem edit_written (hload : load u path file = .ok data)
    (h : op.edit u path file = .ok (some file')) :
    ∃ after done, file' = written (after.map fun ch => .obj ch.fields) done ∧
      Edited op file data after := by
  have hsound := load_sound hload
  cases op with
  | addChannel type label config events enabled =>
    simp only [Operation.edit, NotificationConfig.addChannel, hload, bind, Except.bind] at h
    split at h
    · cases h
    · rename_i ch hch
      cases h
      refine ⟨data.channels ++ [ch], data.envImportDone, rfl,
        edited_add hsound (normChannel_normal hch) ?_⟩
      rcases Option.map_eq_some_iff.mp hch with ⟨_, _, rfl⟩
      change orElse (freshSlug _ _) _ ∉ _
      rw [orElse_of_ne (freshSlug_ne_empty _ (slugify_ne_empty _))]
      exact freshSlug_notMem _ _
  | updateChannel channelId edit =>
    simp only [Operation.edit, NotificationConfig.updateChannel, hload, bind, Except.bind] at h
    rcases Option.map_eq_some_iff.mp (Except.ok.inj h) with ⟨after, hafter, rfl⟩
    exact ⟨after, data.envImportDone, rfl, edited_update hsound hafter⟩
  | removeChannel channelId =>
    simp only [Operation.edit, NotificationConfig.removeChannel, hload, bind, Except.bind] at h
    split at h
    · cases h
    · cases h
      exact ⟨_, data.envImportDone, rfl, edited_remove hsound⟩
  | importFromEnv channels events =>
    by_cases hgoes : ImportGoes file data channels events
    · simp only [Operation.edit, importFromEnv_goes hload hgoes] at h
      cases h
      exact ⟨_, true, rfl, edited_import hsound ⟨fun h => h hgoes, fun h _ => h⟩⟩
    · simp only [Operation.edit, importFromEnv_stays hload hgoes] at h
      cases h

theorem clear_of_unwritten (hload : load u path file = .ok data)
    (h : ∀ file', op.edit u path file ≠ .ok (some file')) : op.Clear file data := by
  cases op with
  | importFromEnv channels events =>
    exact fun hgoes => absurd (importFromEnv_goes hload hgoes) (h _)
  | _ => trivial

end

/-! ### Runs -/

/-- A call, and whether what it writes reaches the file. -/
structure Event where
  op : Operation
  written : Bool := true

section

variable (u : CharTable) (path : String)

def step (file : File) (e : Event) : File :=
  match e.op.edit u path file with
  | .ok (some file') => if e.written then file' else file
  | _ => file

def Event.Clear (file : File) (e : Event) : Prop :=
  e.written = true → ∀ data, load u path file = .ok data → e.op.Clear file data

/-- The file is read strictly after the calls, its identifiers are distinct, and a channel
that none of the calls names is as it was. -/
structure Closed (before after : File) (events : List Event) : Prop where
  accepted : ∃ data, load u path after = .ok data ∧ (ids data.channels).Nodup
  kept : ∀ data data', load u path before = .ok data → load u path after = .ok data' →
    ∀ ch ∈ data.channels, (∀ e ∈ events, e.op.target ≠ some ch.id) →
      ∃ ch' ∈ data'.channels, ch'.settings = ch.settings

end

section

variable {u : CharTable} {path : String} {file : File} {data : Data} {e : Event}

theorem step_cases (hload : load u path file = .ok data) :
    (e.Clear u path file ∧ ∃ data', load u path (step u path file e) = .ok data' ∧
        ∀ ch ∈ data.channels, e.op.target ≠ some ch.id →
          ∃ ch' ∈ data'.channels, ch'.settings = ch.settings) ∨
      (¬ e.Clear u path file ∧ ∀ data', load u path (step u path file e) ≠ .ok data') := by
  have hsame : step u path file e = file → e.Clear u path file →
      e.Clear u path file ∧ ∃ data', load u path (step u path file e) = .ok data' ∧
        ∀ ch ∈ data.channels, e.op.target ≠ some ch.id →
          ∃ ch' ∈ data'.channels, ch'.settings = ch.settings := by
    intro hstep hclear
    rw [hstep]
    exact ⟨hclear, data, hload, fun ch hch _ => ⟨ch, hch, rfl⟩⟩
  -- a call that writes nothing leaves a file that can be read
  by_cases hwrites : ∃ file', e.op.edit u path file = .ok (some file')
  · rcases hwrites with ⟨file', hfile'⟩
    cases hwritten : e.written with
    | false =>
      refine .inl (hsame ?_ fun h => ?_)
      · simp only [step, hfile', hwritten, Bool.false_eq_true, if_false]
      · rw [hwritten] at h
        cases h
    | true =>
      have hstep : step u path file e = file' := by
        simp only [step, hfile', hwritten, if_true]
      rcases edit_written hload hfile' with ⟨after, done, rfl, hedited⟩
      -- what is written is read again exactly when its identifiers are distinct
      have hclear : e.Clear u path file ↔ (ids after).Nodup := by
        rw [hedited.distinct]
        constructor
        · exact fun h => h hwritten data hload
        · intro h _ data' hdata'
          rw [hload] at hdata'
          cases hdata'
          exact h
      rw [hclear, hstep, load_written hedited.normal]
      by_cases hnodup : (ids after).Nodup
      · rw [if_pos hnodup]
        refine .inl ⟨hnodup, _, rfl, fun ch hch hne => ?_⟩
        exact ⟨ch.relabelled, List.mem_map_of_mem (hedited.kept ch hch hne), rfl⟩
      · rw [if_neg hnodup]
        exact .inr ⟨hnodup, nofun⟩
  · have hnone : ∀ file', e.op.edit u path file ≠ .ok (some file') := not_exists.mp hwrites
    refine .inl (hsame ?_ fun _ data' hdata' => clear_of_unwritten hdata' hnone)
    unfold step
    split
    · exact absurd ‹_› (hnone _)
    · rfl

theorem step_refused (h : ∀ data, load u path file ≠ .ok data) : step u path file e = file := by
  have hedit : ∀ file', e.op.edit u path file ≠ .ok (some file') := by
    cases hload : load u path file with
    | ok data => exact absurd hload (h data)
    | error error =>
      intro file'
      cases e.op <;> simp [Operation.edit, NotificationConfig.addChannel,
        NotificationConfig.updateChannel, NotificationConfig.removeChannel, importFromEnv, hload,
        bind, Except.bind, Except.map]
  unfold step
  split
  · exact absurd ‹_› (hedit _)
  · rfl

variable {events : List Event}

theorem run_refused (h : ∀ data, load u path file ≠ .ok data) :
    run (step u path) file events = file := by
  induction events with
  | nil => rfl
  | cons e events ih => rw [Runs.run_cons, step_refused h, ih]

theorem run_accepted (hload : load u path file = .ok data)
    (h : Along (step u path) (Event.Clear u path) file events) :
    ∃ data', load u path (run (step u path) file events) = .ok data' ∧
      ∀ ch ∈ data.channels, (∀ e ∈ events, e.op.target ≠ some ch.id) →
        ∃ ch' ∈ data'.channels, ch'.settings = ch.settings := by
  induction events generalizing file data with
  | nil => exact ⟨data, hload, fun ch hch _ => ⟨ch, hch, rfl⟩⟩
  | cons e events ih =>
    rcases h with ⟨hclear, hrest⟩
    rcases step_cases hload with ⟨_, data', hdata', hstep⟩ | ⟨hmixed, _⟩
    · rcases ih hdata' hrest with ⟨data'', hdata'', hrun⟩
      refine ⟨data'', hdata'', fun ch hch hne => ?_⟩
      rcases List.forall_mem_cons.mp hne with ⟨hhead, htail⟩
      rcases hstep ch hch hhead with ⟨ch', hch', hsettings⟩
      have hid : ch'.id = ch.id := congrArg Prod.fst hsettings
      rcases hrun ch' hch' (by rwa [hid]) with ⟨ch'', hch'', hsettings'⟩
      exact ⟨ch'', hch'', hsettings'.trans hsettings⟩
    · exact absurd hclear hmixed

theorem along_of_accepted {data' : Data} (hload : load u path file = .ok data)
    (h : load u path (run (step u path) file events) = .ok data') :
    Along (step u path) (Event.Clear u path) file events := by
  induction events generalizing file data with
  | nil => trivial
  | cons e events ih =>
    rw [Runs.run_cons] at h
    rcases step_cases hload with ⟨hclear, data'', hdata'', _⟩ | ⟨_, hrefused⟩
    · exact ⟨hclear, ih hdata'' h⟩
    · rw [run_refused hrefused] at h
      exact absurd h (hrefused data')

end

/-- The file stays one that is accepted exactly when no import appends a channel whose
identifier is there. -/
theorem closed_iff (u : CharTable) (path : String) (file : File) (events : List Event)
    (haccepted : ∃ data, load u path file = .ok data) :
    Closed u path file (run (step u path) file events) events ↔
      Along (step u path) (Event.Clear u path) file events := by
  rcases haccepted with ⟨data, hload⟩
  constructor
  · rintro ⟨⟨data', hload', _⟩, _⟩
    exact along_of_accepted hload hload'
  · intro h
    rcases run_accepted hload h with ⟨data', hload', hkept⟩
    refine ⟨⟨data', hload', (load_sound hload').distinct⟩, fun first last hfirst hlast => ?_⟩
    rw [hload] at hfirst
    rw [hload'] at hlast
    cases hfirst
    cases hlast
    exact hkept

theorem closed_first_import :
    Closed .ascii "notifications.json" .absent
      (run (step .ascii "notifications.json") .absent
        [{ op := .importFromEnv [("discord_webhook_url", "https://discord.example/1")] [] },
          { op := .removeChannel "discord-importe" }])
      [{ op := .importFromEnv [("discord_webhook_url", "https://discord.example/1")] [] },
        { op := .removeChannel "discord-importe" }] := by
  refine (closed_iff _ _ _ _ ⟨⟨[], false⟩, rfl⟩).mpr ⟨?_, fun _ _ _ => trivial, trivial⟩
  intro _ data hdata _ id _ hmem
  cases hdata
  cases hmem

/-- The channel of the older schema and the imported one have one identifier. -/
theorem migrated_then_imported :
    ¬ Closed .ascii "notifications.json"
      (.json (.obj [("channels", .obj [("discord_webhook_url", .str "https://discord.example/1")])]))
      (run (step .ascii "notifications.json")
        (.json (.obj [("channels",
          .obj [("discord_webhook_url", .str "https://discord.example/1")])]))
        [{ op := .importFromEnv [("discord_webhook_url", "https://discord.example/2")] [] }])
      [{ op := .importFromEnv [("discord_webhook_url", "https://discord.example/2")] [] }] := by
  rintro ⟨⟨data, hdata, _⟩, _⟩
  cases hdata

end NotificationConfig
