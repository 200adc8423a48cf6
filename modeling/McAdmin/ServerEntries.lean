import McAdmin.DataObjects

/-!
# The servers that are kept

A strict reading takes a list of valid entries whose identifiers differ, or refuses the file, and a
lenient one passes over what is not valid.  Setting a field of an entry and adding an entry leave a
file that is taken, save for an entry that has no identifier.
-/

namespace DataFiles

open LockedFiles
open OpLevelsWorker (Json)
open NotificationConfig (Fields)

namespace JsonServers

def view (cfg : Config) : View (List ServerEntry) :=
  ⟨fun data => (load data).map toEntry, fun data =>
    if (loadAll data).isSome then none else some (unexpectedSchema (cfg.path .servers))⟩

def changeEntry (serverId : String) (f : ServerEntry → ServerEntry) (servers : List ServerEntry) :
    Change (List ServerEntry) :=
  if servers.any fun entry => entry.id = serverId then
    (.ok (.flag true),
      some (servers.map fun entry => if entry.id = serverId then f entry else entry, none))
  else (.ok (.flag false), none)

/-- A server without an identifier is not taken, and damages the file. -/
def spec (cfg : Config) : Call → Spec (List ServerEntry)
  | .listServers => .reads fun servers => .ok (.servers servers)
  | .add entry => .edits fun _ servers =>
    if servers.any fun entry' => entry'.id = entry.id then
      (.error (.value ("serveur déjà enregistré : " ++ entry.id)), none)
    else if entry.id = "" then
      (.ok .none, some (servers, some (unexpectedSchema (cfg.path .servers))))
    else (.ok .none, some (servers ++ [entry], none))
  | .setAddress serverId address => .edits fun _ =>
    changeEntry serverId fun entry => { entry with address := address }
  | .setMapUrl serverId mapUrl => .edits fun _ =>
    changeEntry serverId fun entry => { entry with mapUrl := mapUrl }
  | .seedFromEnv settings =>
    if settings.minecraftContainer = "" then .seeds none else .seeds (some ([seed settings], none))

structure Accepted (seen : List String) (raws : List Fields) : Prop where
  valid : ∀ raw ∈ raws, validateRaw raw = true
  nodup : (raws.map fun raw => (toEntry raw).id).Nodup
  fresh : ∀ raw ∈ raws, (toEntry raw).id ∉ seen

section

variable {seen : List String} {raws : List Fields} {raw : Fields}

theorem Accepted.cons_iff :
    Accepted seen (raw :: raws) ↔ validateRaw raw = true ∧ (toEntry raw).id ∉ seen ∧
      Accepted ((toEntry raw).id :: seen) raws := by
  constructor
  · intro h
    have hnodup := List.nodup_cons.mp h.nodup
    refine ⟨h.valid _ (List.mem_cons_self ..), h.fresh _ (List.mem_cons_self ..),
      fun raw' hraw' => h.valid _ (List.mem_cons_of_mem _ hraw'), hnodup.2, fun raw' hraw' => ?_⟩
    rw [List.mem_cons, not_or]
    refine ⟨fun heq => hnodup.1 ?_, h.fresh _ (List.mem_cons_of_mem _ hraw')⟩
    exact List.mem_map.mpr ⟨raw', hraw', heq⟩
  · rintro ⟨hvalid, hfresh, h⟩
    refine ⟨List.forall_mem_cons.mpr ⟨hvalid, h.valid⟩, List.nodup_cons.mpr ⟨?_, h.nodup⟩,
      List.forall_mem_cons.mpr ⟨hfresh, fun raw' hraw' => ?_⟩⟩
    · intro hmem
      obtain ⟨raw', hraw', heq⟩ := List.mem_map.mp hmem
      exact h.fresh raw' hraw' (heq ▸ List.mem_cons_self ..)
    · exact fun hmem => h.fresh raw' hraw' (List.mem_cons_of_mem _ hmem)

theorem loadEach_eq_some {items : List Json} :
    loadEach seen items = some raws ↔ items = raws.map .obj ∧ Accepted seen raws := by
  induction items generalizing seen raws with
  | nil =>
    cases raws with
    | nil => simpa [loadEach] using ⟨by simp, by simp, by simp⟩
    | cons raw raws => simp [loadEach]
  | cons item items ih =>
    cases item with
    | obj raw =>
      cases raws with
      | nil => simp [loadEach]
      | cons raw' raws =>
        simp only [loadEach, List.map_cons, List.cons.injEq, Json.obj.injEq, Accepted.cons_iff]
        split
        · next h =>
          simp only [Option.map_eq_some_iff, List.cons.injEq, ih]
          simp only [Bool.and_eq_true, Bool.not_eq_true', List.contains_eq_mem,
            decide_eq_false_iff_not] at h
          constructor
          · rintro ⟨raws', ⟨rfl, haccepted⟩, rfl, rfl⟩
            exact ⟨⟨rfl, rfl⟩, h.1, h.2, haccepted⟩
          · rintro ⟨⟨rfl, rfl⟩, -, -, haccepted⟩
            exact ⟨raws, ⟨rfl, haccepted⟩, rfl, rfl⟩
        · next h =>
          simp only [reduceCtorEq, false_iff]
          rintro ⟨⟨rfl, -⟩, hvalid, hfresh, -⟩
          exact h (by simp [hvalid, hfresh])
    | _ => cases raws <;> simp [loadEach]

theorem loadAll_eq_some {data : Fields} :
    loadAll data = some raws ↔
      (data.lookup "servers").getD (.arr []) = .arr (raws.map .obj) ∧ Accepted [] raws := by
  unfold loadAll
  split
  · next servers h => rw [loadEach_eq_some, h, Json.arr.injEq]
  · next h =>
    simp only [reduceCtorEq, false_iff, not_and]
    exact fun heq => absurd heq (h _)

theorem load_of_objects {data : Fields}
    (h : (data.lookup "servers").getD (.arr []) = .arr (raws.map .obj)) :
    load data = raws.filter validateRaw := by
  unfold load
  rw [h]
  clear h
  induction raws with
  | nil => rfl
  | cons raw raws ih => cases hraw : validateRaw raw <;> simpa [hraw] using ih

theorem load_of_loadAll {data : Fields} (h : loadAll data = some raws) : load data = raws := by
  obtain ⟨hservers, haccepted⟩ := loadAll_eq_some.mp h
  rw [load_of_objects hservers]
  exact List.filter_eq_self.mpr haccepted.valid

theorem loadAll_written :
    loadAll [("servers", .arr (raws.map .obj))] = loadEach [] (raws.map .obj) :=
  rfl

theorem writes_written (cfg : Config) (h : Accepted [] raws) :
    Writes (view cfg) (some (written raws)) (some (raws.map toEntry, none)) := by
  have hload := loadAll_written.trans (loadEach_eq_some.mpr ⟨rfl, h⟩)
  refine .object _ _ _ ?_ ?_
  · exact congrArg (List.map toEntry) (load_of_loadAll hload)
  · simp [view, hload]

theorem simulates_edits (cfg : Config) (edit : List Fields → Outcome)
    (edit' : List ServerEntry → Change (List ServerEntry))
    (h : ∀ raws, Accepted [] raws → (edit raws).1 = (edit' (raws.map toEntry)).1 ∧
      Writes (view cfg) (edit raws).2 (edit' (raws.map toEntry)).2) :
    Simulates (view cfg) (edits cfg edit) (.edits fun _ => edit') := by
  have hloaded : ∀ data, (view cfg).damage data = none → ∃ raws, loadAll data = some raws := by
    intro data hdamage
    cases hload : loadAll data with
    | none => simp [view, hload] at hdamage
    | some raws => exact ⟨raws, rfl⟩
  refine .edits _ _ (fun _ data e hdamage => ?_) (fun present data hdamage => ?_)
    fun present data hdamage => ?_
  · cases hload : loadAll data with
    | none =>
      simp only [view, hload] at hdamage
      obtain rfl := Option.some.inj hdamage
      rfl
    | some raws => simp [view, hload] at hdamage
  all_goals
    obtain ⟨raws, hload⟩ := hloaded data hdamage
    have hraws := h raws (loadAll_eq_some.mp hload).2
    simp only [hload, view, load_of_loadAll hload]
  · exact hraws.1
  · exact hraws.2

/-! A field of one entry is set. -/

theorem id_put {key value : String} (hkey : key ≠ "id") :
    (toEntry (put key (.str value) raw)).id = (toEntry raw).id := by
  simp [toEntry, textIn, hkey.symm]

theorem validateRaw_put {key value : String} (hid : key ≠ "id") (hport : key ≠ "rcon_port")
    (h : validateRaw raw = true) : validateRaw (put key (.str value) raw) = true := by
  have htext : ∀ key', isTextOrAbsent (raw.lookup key') = true →
      isTextOrAbsent ((put key (.str value) raw).lookup key') = true := by
    intro key' hkey'
    rw [lookup_put]
    split
    · rfl
    · exact hkey'
  simp only [validateRaw, Bool.and_eq_true, List.all_eq_true] at h ⊢
  refine ⟨⟨?_, fun key' hkey' => htext key' (h.1.2 key' hkey')⟩, ?_⟩
  · rw [lookup_put, if_neg hid.symm]
    exact h.1.1
  · rw [lookup_put, if_neg hport.symm]
    exact h.2

theorem setIn_eq_none {serverId key : String} {value : Json} :
    setIn serverId key value raws = none ↔ ∀ raw ∈ raws, (toEntry raw).id ≠ serverId := by
  induction raws with
  | nil => simp [setIn]
  | cons raw raws ih =>
    rw [setIn]
    split
    · next h => simp [h]
    · next h => simp [h, ih]

theorem setIn_eq_some {serverId key value : String} {raws' : List Fields}
    {f : ServerEntry → ServerEntry} (hid : key ≠ "id") (hport : key ≠ "rcon_port")
    (hf : ∀ raw, toEntry (put key (.str value) raw) = f (toEntry raw))
    (haccepted : Accepted seen raws) (h : setIn serverId key (.str value) raws = some raws') :
    Accepted seen raws' ∧ raws'.map toEntry = (raws.map toEntry).map fun entry =>
      if entry.id = serverId then f entry else entry := by
  induction raws generalizing seen raws' with
  | nil => cases h
  | cons raw raws ih =>
    obtain ⟨hvalid, hfresh, hrest⟩ := Accepted.cons_iff.mp haccepted
    rw [setIn] at h
    split at h
    · next hraw =>
      obtain rfl := Option.some.inj h
      refine ⟨Accepted.cons_iff.mpr ⟨validateRaw_put hid hport hvalid, ?_⟩, ?_⟩
      · rw [id_put hid]
        exact ⟨hfresh, hrest⟩
      · have hothers : ∀ entry ∈ raws.map toEntry,
            (if entry.id = serverId then f entry else entry) = entry := by
          intro entry hentry
          obtain ⟨raw', hraw', rfl⟩ := List.mem_map.mp hentry
          refine if_neg fun heq => hrest.fresh raw' hraw' ?_
          rw [heq, hraw]
          exact List.mem_cons_self ..
        rw [List.map_cons, List.map_cons, List.map_cons, if_pos hraw, hf,
          List.map_congr_left hothers, List.map_id']
    · next hraw =>
      obtain ⟨rest, hset, rfl⟩ := Option.map_eq_some_iff.mp h
      obtain ⟨hrest', hmap⟩ := ih hrest hset
      refine ⟨Accepted.cons_iff.mpr ⟨hvalid, hfresh, hrest'⟩, ?_⟩
      rw [List.map_cons, List.map_cons, List.map_cons, if_neg hraw, hmap]

theorem setsField_eq (cfg : Config) {serverId key value : String} {f : ServerEntry → ServerEntry}
    (hid : key ≠ "id") (hport : key ≠ "rcon_port")
    (hf : ∀ raw, toEntry (put key (.str value) raw) = f (toEntry raw)) (h : Accepted [] raws) :
    (setsField serverId key value raws).1 = (changeEntry serverId f (raws.map toEntry)).1 ∧
      Writes (view cfg) (setsField serverId key value raws).2
        (changeEntry serverId f (raws.map toEntry)).2 := by
  have hany : (raws.map toEntry).any (fun entry => entry.id = serverId) =
      (setIn serverId key (.str value) raws).isSome := by
    cases hset : setIn serverId key (.str value) raws with
    | none => simpa using setIn_eq_none.mp hset
    | some raws' =>
      have hne : setIn serverId key (.str value) raws ≠ none := by simp [hset]
      rw [ne_eq, setIn_eq_none] at hne
      simpa using hne
  unfold setsField changeEntry
  rw [hany]
  cases hset : setIn serverId key (.str value) raws with
  | none => exact ⟨rfl, .nothing⟩
  | some raws' =>
    obtain ⟨haccepted, hmap⟩ := setIn_eq_some hid hport hf h hset
    have hwrites := writes_written cfg haccepted
    rw [hmap] at hwrites
    exact ⟨rfl, hwrites⟩

/-! A server is added. -/

theorem toEntry_rawEntry (entry : ServerEntry) : toEntry (rawEntry entry) = entry := rfl

theorem validateRaw_rawEntry (entry : ServerEntry) :
    validateRaw (rawEntry entry) = decide (entry.id ≠ "") := by
  by_cases h : entry.id = "" <;>
    simp [validateRaw, rawEntry, lookup_cons_ite, textOf, isTextOrAbsent, h]

theorem Accepted.snoc (h : Accepted [] raws) (hvalid : validateRaw raw = true)
    (hfresh : (toEntry raw).id ∉ raws.map fun raw => (toEntry raw).id) :
    Accepted [] (raws ++ [raw]) := by
  refine ⟨?_, ?_, by simp⟩
  · intro raw' hraw'
    rcases List.mem_append.mp hraw' with hraw' | hraw'
    · exact h.valid raw' hraw'
    · rwa [List.mem_singleton.mp hraw']
  · rw [List.map_append]
    exact h.nodup.append (List.nodup_singleton _) (List.disjoint_singleton.mpr hfresh)

theorem loadAll_refused (hvalid : validateRaw raw = false) :
    loadAll [("servers", .arr ((raws ++ [raw]).map .obj))] = none := by
  rw [Option.eq_none_iff_forall_ne_some]
  intro raws' h
  obtain ⟨heq, haccepted⟩ := loadAll_eq_some.mp h
  have hmem : .obj raw ∈ raws'.map Json.obj := by
    rw [← Json.arr.inj heq]
    simp
  obtain ⟨raw', hraw', heq'⟩ := List.mem_map.mp hmem
  rw [← Json.obj.inj heq', haccepted.valid raw' hraw'] at hvalid
  cases hvalid

theorem writes_refused (cfg : Config) (h : Accepted [] raws) (hvalid : validateRaw raw = false) :
    Writes (view cfg) (some (written (raws ++ [raw])))
      (some (raws.map toEntry, some (unexpectedSchema (cfg.path .servers)))) := by
  refine .object _ _ _ (congrArg (List.map toEntry) ?_) ?_
  · rw [load_of_objects (by rfl), List.filter_append, List.filter_eq_self.mpr h.valid]
    simp [hvalid]
  · dsimp only [view]
    rw [loadAll_refused hvalid]
    rfl

end

theorem accepted_seed (settings : Settings) :
    Accepted [] [(rawEntry (seed settings)).dropLast] :=
  ⟨by simp [validateRaw, rawEntry, seed, lookup_cons_ite, textOf, isTextOrAbsent], by simp, by simp⟩

theorem simulates (cfg : Config) (c : Call) : Simulates (view cfg) (work cfg c) (spec cfg c) := by
  cases c with
  | listServers => exact .reads _ _ fun data => rfl
  | add entry =>
    rw [work, spec]
    refine simulates_edits cfg _ _ fun raws h => ?_
    rw [List.any_map, Function.comp_def]
    split
    · exact ⟨rfl, .nothing⟩
    · next hnew =>
      have hfresh : (toEntry (rawEntry entry)).id ∉ raws.map fun raw => (toEntry raw).id := by
        simpa [toEntry_rawEntry] using hnew
      by_cases hid : entry.id = ""
      · have hvalid : validateRaw (rawEntry entry) = false := by
          simp [validateRaw_rawEntry, hid]
        simpa [hid, writes] using writes_refused cfg h hvalid
      · have hvalid : validateRaw (rawEntry entry) = true := by
          simp [validateRaw_rawEntry, hid]
        have hwrites := writes_written cfg (h.snoc hvalid hfresh)
        rw [List.map_append] at hwrites
        simpa [hid, writes, toEntry_rawEntry] using hwrites
  | setAddress serverId address | setMapUrl serverId mapUrl =>
    exact simulates_edits cfg _ _ fun raws h =>
      setsField_eq cfg (by decide) (by decide) (fun raw => by simp [toEntry, textIn]) h
  | seedFromEnv settings =>
    rw [work, spec]
    split
    · exact .seeds _ _ .nothing
    · exact .seeds _ _ (writes_written cfg (accepted_seed settings))

end JsonServers

end DataFiles
