import Mathlib.Data.List.Permutation
import McAdmin.ProfileStore

/-!
# Edits of profiles beside the scheduler

An edit reads a profile and writes it back whole, a tick lists the profiles and then marks
those that are due, and any number of these run side by side: between two calls of the store
made by one of them come calls made by the others.
-/

namespace ProfileEdits

open Runs ProfileStore
open Backtracking (CharTable)
open BackupProfiles (Time Site profileDue)

/-! ### Callers and calls -/

structure State where
  store : Store
  /-- What each caller has read and not yet written back. -/
  edits : ℕ → Option (Edit × Profile) := fun _ => none
  /-- The time of the tick under way and the profiles it has still to visit. -/
  tick : Option (Time × List Profile) := none
  /-- The operations that are over and were not refused. -/
  accepted : List Operation := []

inductive Event where
  | reads (caller : ℕ) (edit : Edit)
  | writes (caller : ℕ)
  /-- A deletion, refused while the backup of the profile runs. -/
  | deletes (id : String) (running : Bool)
  | tickLists (now : Time)
  /-- The tick visits the next profile of its list, or is over. -/
  | tickVisits

section

variable (u : CharTable) (site : Site)

def reads (caller : ℕ) (edit : Edit) (s : State) : State :=
  match s.edits caller with
  | some _ => s
  | none =>
    match edit.look u s.store with
    | none => s
    | some base => { s with edits := Function.update s.edits caller (some (edit, base)) }

def writes (caller : ℕ) (s : State) : State :=
  match s.edits caller with
  | none => s
  | some (edit, base) =>
    let s := { s with edits := Function.update s.edits caller none }
    match edit.build u base with
    | none => s
    | some profile =>
      { s with store := upsert profile s.store, accepted := s.accepted ++ [.edit edit] }

def deletes (id : String) (running : Bool) (s : State) : State :=
  if running then s
  else match delete id s.store with
  | none => s
  | some store => { s with store := store, accepted := s.accepted ++ [.delete id] }

def tickLists (now : Time) (s : State) : State :=
  match s.tick with
  | some _ => s
  | none => { s with tick := some (now, s.store) }

/-- What the tick triggers reads the store once more and writes nothing. -/
def tickVisits (s : State) : State :=
  match s.tick with
  | none => s
  | some (now, []) => { s with tick := none, accepted := s.accepted ++ [.tick now] }
  | some (now, p :: rest) =>
    let next := { s with tick := some (now, rest) }
    if p.enabled = false then next
    else match profileDue site p.toBackupProfile now with
    | .no => next
    | .raises => { s with tick := none, accepted := s.accepted ++ [.tick now] }
    | .yes => { next with store := markRun p.id now s.store }
    | .starts => { next with store := markRun p.id now s.store }

def step (s : State) : Event → State
  | .reads caller edit => reads u caller edit s
  | .writes caller => writes u caller s
  | .deletes id running => deletes id running s
  | .tickLists now => tickLists now s
  | .tickVisits => tickVisits site s

def start (store : Store) : State := { store }

/-! ### What a run keeps -/

def creates : Edit → Bool
  | .create _ => true
  | _ => false

def State.due (s : State) : List String :=
  match s.tick with
  | none => []
  | some (now, rest) => dueIds site now rest

/-- What a caller read is still so when it writes, a new profile does not take the
identifier of one that is about to be marked, and the clock has not gone back. -/
def Undisturbed (s : State) : Event → Prop
  | .writes caller => ∀ e ∈ s.edits caller, (e.1.build u e.2).isSome = true →
      e.1.look u s.store = some e.2 ∧ (creates e.1 = true → e.2.id ∉ s.due site)
  | .tickLists now => s.tick = none → ∀ p ∈ s.store, p.id ∈ dueIds site now s.store →
      ∀ t ∈ p.lastRun, t ≤ now
  | _ => True

instance (u : CharTable) (site : Site) (s : State) : ∀ event, Decidable (Undisturbed u site s event)
  | .writes caller => inferInstanceAs (Decidable (∀ e ∈ s.edits caller,
      (e.1.build u e.2).isSome = true →
        e.1.look u s.store = some e.2 ∧ (creates e.1 = true → e.2.id ∉ s.due site)))
  | .tickLists now => inferInstanceAs (Decidable (s.tick = none → ∀ p ∈ s.store,
      p.id ∈ dueIds site now s.store → ∀ t ∈ p.lastRun, t ≤ now))
  | .reads _ _ => instDecidableTrue
  | .deletes _ _ => instDecidableTrue
  | .tickVisits => instDecidableTrue

/-- No last run goes back, a profile appears with its creation and disappears with its
deletion, and its data change by an edit that was made upon them. -/
structure Kept (s : State) (event : Event) : Prop where
  lastRun : ∀ id p p', getProfile s.store id = some p →
    getProfile (step u site s event).store id = some p' →
    ∀ t ∈ p.lastRun, ∃ t' ∈ p'.lastRun, t ≤ t'
  appears : ∀ id, id ∉ ids s.store → id ∈ ids (step u site s event).store →
    ∃ caller edit base, event = .writes caller ∧ s.edits caller = some (edit, base) ∧
      creates edit = true ∧ base.id = id
  disappears : ∀ id, id ∈ ids s.store → id ∉ ids (step u site s event).store →
    ∃ running, event = .deletes id running
  data : ∀ id p p', getProfile s.store id = some p →
    getProfile (step u site s event).store id = some p' →
    p = { p' with lastRun := p.lastRun } ∨
      ∃ caller edit, event = .writes caller ∧ s.edits caller = some (edit, p) ∧
        edit.build u p = some p'

/-- Between two ticks, the content is what the accepted operations give in some order. -/
def Serialised (store : Store) (s : State) : Prop :=
  s.tick = none → ∃ order, order.Perm s.accepted ∧ sequential u site order store = some s.store

end

/-! ### The order -/

def State.underWay (s : State) : List Operation :=
  match s.tick with
  | none => []
  | some (now, _) => [.tick now]

def State.now (s : State) : Time :=
  match s.tick with
  | none => 0
  | some (now, _) => now

section

variable {u : CharTable} {site : Site} {store : Store} {s : State}

/-- The accepted operations, and the tick under way, in an order that gives the content
once the marks that are due are made. -/
structure Serial (u : CharTable) (site : Site) (store : Store) (s : State) : Prop where
  nodup : (ids s.store).Nodup
  order : ∃ order, order.Perm (s.accepted ++ s.underWay) ∧
    sequential u site order store = some (s.store.map (stamp s.now (s.due site)))
  lastRun : ∀ p ∈ s.store, p.id ∈ s.due site → ∀ t ∈ p.lastRun, t ≤ s.now

theorem Serial.serialised (h : Serial u site store s) : Serialised u site store s := by
  intro htick
  rcases h.order with ⟨order, hperm, hsequential⟩
  simp only [State.underWay, State.now, State.due, htick, List.append_nil, map_stamp_nil]
    at hperm hsequential
  exact ⟨order, hperm, hsequential⟩

theorem Serial.snoc (h : Serial u site store s) {operation : Operation} {store' : Store}
    (happly : operation.apply u site (s.store.map (stamp s.now (s.due site))) =
      some (store'.map (stamp s.now (s.due site)))) :
    ∃ order, order.Perm ((s.accepted ++ [operation]) ++ s.underWay) ∧
      sequential u site order store = some (store'.map (stamp s.now (s.due site))) := by
  rcases h.order with ⟨order, hperm, hsequential⟩
  refine ⟨order ++ [operation], ?_, ?_⟩
  · have hlast := hperm.append_right [operation]
    rw [List.append_assoc] at hlast ⊢
    exact hlast.trans (List.perm_append_comm.append_left s.accepted)
  · rw [sequential_snoc hsequential, happly]

theorem mem_upsert {profile p : Profile} (h : p ∈ upsert profile store) :
    p = profile ∨ p ∈ store := by
  induction store with
  | nil => exact .inl (List.mem_singleton.mp h)
  | cons q store ih =>
    simp only [upsert] at h
    split at h
    · rcases List.mem_cons.mp h with heq | hmem
      · exact .inl heq
      · exact .inr (List.mem_cons_of_mem _ hmem)
    · rcases List.mem_cons.mp h with heq | hmem
      · exact .inr (heq ▸ List.mem_cons_self)
      · rcases ih hmem with heq | hmem
        · exact .inl heq
        · exact .inr (List.mem_cons_of_mem _ hmem)

theorem look_map_stamp {edit : Edit} {base : Profile} {now : Time} {due : List String}
    (hlook : edit.look u store = some base) (hcreates : creates edit = true → base.id ∉ due) :
    edit.look u (store.map (stamp now due)) = some (stamp now due base) := by
  cases edit with
  | create form =>
    have hbase : stamp now due base = base := if_neg (hcreates rfl)
    simp only [Edit.look, ids_map_stamp] at hlook ⊢
    rw [hlook, hbase]
  | update id form | toggle id enabled =>
    simp only [Edit.look] at hlook ⊢
    rw [getProfile_map_stamp, hlook]
    rfl

theorem apply_map_stamp {edit : Edit} {base profile : Profile} {now : Time} {due : List String}
    (hlook : edit.look u store = some base) (hcreates : creates edit = true → base.id ∉ due)
    (hbuild : edit.build u base = some profile) :
    (Operation.edit edit).apply u site (store.map (stamp now due)) =
      some ((upsert profile store).map (stamp now due)) := by
  simp only [Operation.apply, look_map_stamp hlook hcreates, build_stamp, hbuild, upsert_map_stamp,
    Option.bind_eq_bind, Option.bind_some, Option.map_some, Option.pure_def]

theorem mem_of_look {edit : Edit} {base : Profile} (hlook : edit.look u store = some base)
    (hcreates : creates edit = false) : getProfile store base.id = some base := by
  cases edit with
  | create form => cases hcreates
  | update id form | toggle id enabled =>
    have hid := getProfile_id hlook
    rw [hid]
    exact hlook

theorem Serial.writes (h : Serial u site store s) (caller : ℕ)
    (hundisturbed : Undisturbed u site s (.writes caller)) :
    Serial u site store (writes u caller s) := by
  simp only [ProfileEdits.writes]
  split
  · exact h
  rename_i edit base hedit
  cases hbuild : edit.build u base with
  | none => exact ⟨h.nodup, h.order, h.lastRun⟩
  | some profile =>
    rcases hundisturbed _ hedit (by rw [hbuild]; rfl) with ⟨hlook, hcreates⟩
    refine ⟨nodup_upsert profile h.nodup, h.snoc (apply_map_stamp hlook hcreates hbuild), ?_⟩
    intro p hp hdue
    rcases mem_upsert hp with rfl | hmem
    · rcases build_keeps hbuild with ⟨hid, hlastRun⟩
      rw [hlastRun]
      rw [hid] at hdue
      cases hcreate : creates edit with
      | true => exact absurd hdue (hcreates hcreate)
      | false => exact h.lastRun base (mem_of_getProfile (mem_of_look hlook hcreate)) hdue
    · exact h.lastRun p hmem hdue

theorem Serial.deletes (h : Serial u site store s) (id : String) (running : Bool) :
    Serial u site store (deletes id running s) := by
  simp only [ProfileEdits.deletes]
  split
  · exact h
  cases hdelete : delete id s.store with
  | none => exact h
  | some store' =>
    refine ⟨nodup_delete hdelete h.nodup, ?_, ?_⟩
    · apply h.snoc
      simp only [Operation.apply, delete_map_stamp, hdelete, Option.map_some]
    · intro p hp
      rw [delete_eq_some hdelete] at hp
      exact h.lastRun p (List.mem_of_mem_filter hp)

theorem Serial.tickLists (h : Serial u site store s) (now : Time)
    (hundisturbed : Undisturbed u site s (.tickLists now)) :
    Serial u site store (tickLists now s) := by
  simp only [ProfileEdits.tickLists]
  split
  · exact h
  rename_i htick
  rcases h.serialised htick with ⟨order, hperm, hsequential⟩
  refine ⟨h.nodup, ⟨order ++ [.tick now], hperm.append_right _, ?_⟩, hundisturbed htick⟩
  rw [sequential_snoc hsequential]
  simp only [Operation.apply, markAll_eq_map now _ h.nodup, State.now, State.due]

theorem Serial.tick_of_due (h : Serial u site store s) {s' : State} (hstore : s'.store = s.store)
    (hnow : s'.due site ≠ [] → s'.now = s.now) (hdue : s'.due site = s.due site)
    (hover : s'.accepted ++ s'.underWay = s.accepted ++ s.underWay) :
    Serial u site store s' := by
  rcases h.order with ⟨order, hperm, hsequential⟩
  have hstamp : s'.store.map (stamp s'.now (s'.due site)) =
      s.store.map (stamp s.now (s.due site)) := by
    rw [hstore]
    by_cases hnil : s'.due site = []
    · rw [← hdue, hnil, map_stamp_nil, map_stamp_nil]
    · rw [hnow hnil, hdue]
  refine ⟨by rw [hstore]; exact h.nodup, ⟨order, ?_, ?_⟩, ?_⟩
  · rw [hover]
    exact hperm
  · rw [hstamp]
    exact hsequential
  · intro p hp hmem
    have hne : s'.due site ≠ [] := List.ne_nil_of_mem hmem
    rw [hnow hne]
    rw [hstore] at hp
    rw [hdue] at hmem
    exact h.lastRun p hp hmem

theorem Serial.tick_marks (h : Serial u site store s) {now : Time} {p : Profile}
    {rest : List Profile} (htick : s.tick = some (now, p :: rest))
    (hdue : dueIds site now (p :: rest) = p.id :: dueIds site now rest) :
    Serial u site store
      { s with tick := some (now, rest), store := markRun p.id now s.store } := by
  have hmarked := markRun_eq_map p.id now h.nodup
  have hlastRun := h.lastRun
  rcases h.order with ⟨order, hperm, hsequential⟩
  simp only [State.now, State.due, State.underWay, htick, hdue] at hperm hsequential hlastRun
  refine ⟨?_, ⟨order, hperm, ?_⟩, ?_⟩
  · rw [hmarked, ids_map_stamp]
    exact h.nodup
  · rw [hsequential, hmarked, List.map_map]
    congr 2
    funext q
    exact (stamp_stamp_singleton now p.id (dueIds site now rest) q).symm
  · intro q hq hmem t ht
    rw [hmarked] at hq
    rcases List.mem_map.mp hq with ⟨q₀, hq₀, rfl⟩
    rw [stamp_id] at hmem
    by_cases hid : q₀.id ∈ [p.id]
    · rw [stamp, if_pos hid] at ht
      exact le_of_eq (Option.some.inj ht).symm
    · rw [stamp, if_neg hid] at ht
      exact hlastRun q₀ hq₀ (List.mem_cons_of_mem _ hmem) t ht

theorem Serial.tickVisits (h : Serial u site store s) :
    Serial u site store (tickVisits site s) := by
  simp only [ProfileEdits.tickVisits]
  split
  · exact h
  · rename_i now htick
    apply h.tick_of_due
    · rfl
    · exact fun hne => absurd rfl hne
    · simp [State.due, htick, dueIds]
    · simp [State.underWay, htick]
  · rename_i now p rest htick
    by_cases henabled : p.enabled = false
    · rw [if_pos henabled]
      apply h.tick_of_due
      · rfl
      · simp [State.now, htick]
      · simp [State.due, htick, dueIds, henabled]
      · simp [State.underWay, htick]
    · rw [if_neg henabled]
      cases hprofile : profileDue site p.toBackupProfile now with
      | no =>
        apply h.tick_of_due
        · rfl
        · simp [State.now, htick]
        · simp [State.due, htick, dueIds, henabled, hprofile]
        · simp [State.underWay, htick]
      | raises =>
        apply h.tick_of_due
        · rfl
        · exact fun hne => absurd rfl hne
        · simp [State.due, htick, dueIds, henabled, hprofile]
        · simp [State.underWay, htick]
      | yes => exact h.tick_marks htick (by simp [dueIds, henabled, hprofile])
      | starts => exact h.tick_marks htick (by simp [dueIds, henabled, hprofile])

theorem Serial.step (h : Serial u site store s) {event : Event}
    (hundisturbed : Undisturbed u site s event) :
    Serial u site store (step u site s event) := by
  cases event with
  | reads caller edit =>
    simp only [ProfileEdits.step, reads]
    split
    · exact h
    · split
      · exact h
      · exact ⟨h.nodup, h.order, h.lastRun⟩
  | writes caller => exact h.writes caller hundisturbed
  | deletes id running => exact h.deletes id running
  | tickLists now => exact h.tickLists now hundisturbed
  | tickVisits => exact h.tickVisits

theorem serial_start (u : CharTable) (site : Site) (hstrict : (ids store).Nodup) :
    Serial u site store (start store) := by
  refine ⟨hstrict, ⟨[], List.Perm.refl _, ?_⟩, ?_⟩
  · simp only [start, State.due, map_stamp_nil]
    rfl
  · exact fun _ _ hdue => absurd hdue List.not_mem_nil

/-! ### What one step does to a profile -/

theorem Kept.of_same {event : Event} (h : (step u site s event).store = s.store) :
    Kept u site s event := by
  constructor
  · intro id p p' hp hp' t ht
    rw [h, hp] at hp'
    obtain rfl := Option.some.inj hp'
    exact ⟨t, ht, le_refl t⟩
  · intro id hbefore hafter
    rw [h] at hafter
    exact absurd hafter hbefore
  · intro id hbefore hafter
    rw [h] at hafter
    exact absurd hbefore hafter
  · intro id p p' hp hp'
    rw [h, hp] at hp'
    obtain rfl := Option.some.inj hp'
    exact .inl rfl

theorem notMem_of_look {edit : Edit} {base : Profile} (hlook : edit.look u store = some base)
    (hcreates : creates edit = true) : base.id ∉ ids store := by
  cases edit with
  | create form =>
    obtain rfl := Option.some.inj hlook
    exact freshSlug_notMem _ _
  | update id form => cases hcreates
  | toggle id enabled => cases hcreates

theorem eq_of_look {edit : Edit} {base p : Profile} (hlook : edit.look u store = some base)
    (hp : getProfile store base.id = some p) : p = base := by
  cases hcreate : creates edit with
  | true =>
    rw [getProfile_eq_none.mpr (notMem_of_look hlook hcreate)] at hp
    cases hp
  | false =>
    rw [mem_of_look hlook hcreate] at hp
    exact (Option.some.inj hp).symm

theorem getProfile_upsert_of_look {edit : Edit} {base profile p p' : Profile} {id : String}
    (hlook : edit.look u store = some base) (hid : profile.id = base.id)
    (hp : getProfile store id = some p) (hp' : getProfile (upsert profile store) id = some p') :
    p' = p ∨ p' = profile ∧ p = base := by
  rw [getProfile_upsert] at hp'
  split at hp'
  · rename_i heq
    rw [← heq, hid] at hp
    exact .inr ⟨(Option.some.inj hp').symm, eq_of_look hlook hp⟩
  · rw [hp] at hp'
    exact .inl (Option.some.inj hp').symm

theorem kept_writes (caller : ℕ) (hundisturbed : Undisturbed u site s (.writes caller)) :
    Kept u site s (.writes caller) := by
  cases hedit : s.edits caller with
  | none =>
    apply Kept.of_same
    simp only [step, writes, hedit]
  | some e =>
    rcases e with ⟨edit, base⟩
    cases hbuild : edit.build u base with
    | none =>
      apply Kept.of_same
      simp only [step, writes, hedit, hbuild]
    | some profile =>
      have hstore : (step u site s (.writes caller)).store = upsert profile s.store := by
        simp only [step, writes, hedit, hbuild]
      rcases hundisturbed _ hedit (by rw [hbuild]; rfl) with ⟨hlook, _⟩
      rcases build_keeps hbuild with ⟨hid, hlastRun⟩
      constructor
      -- the profile written was built from the one that is replaced, with its mark
      · intro id p p' hp hp' t ht
        rw [hstore] at hp'
        rcases getProfile_upsert_of_look hlook hid hp hp' with rfl | ⟨rfl, rfl⟩
        · exact ⟨t, ht, le_refl t⟩
        · exact ⟨t, hlastRun ▸ ht, le_refl t⟩
      · intro id hbefore hafter
        rw [hstore, ← getProfile_isSome, getProfile_upsert] at hafter
        split at hafter
        · rename_i heq
          refine ⟨caller, edit, base, rfl, hedit, ?_, hid ▸ heq⟩
          cases hcreate : creates edit with
          | true => rfl
          | false =>
            have hbase := mem_of_look hlook hcreate
            rw [← hid, heq, getProfile_eq_none.mpr hbefore] at hbase
            cases hbase
        · exact absurd (getProfile_isSome.mp hafter) hbefore
      · intro id hbefore hafter
        rw [hstore, ids_upsert] at hafter
        split at hafter
        · exact absurd hbefore hafter
        · exact absurd (List.mem_append_left _ hbefore) hafter
      · intro id p p' hp hp'
        rw [hstore] at hp'
        rcases getProfile_upsert_of_look hlook hid hp hp' with rfl | ⟨rfl, rfl⟩
        · exact .inl rfl
        · exact .inr ⟨caller, edit, rfl, hedit, hbuild⟩

theorem kept_deletes (id : String) (running : Bool) : Kept u site s (.deletes id running) := by
  cases running with
  | true => exact Kept.of_same rfl
  | false =>
    cases hdelete : delete id s.store with
    | none =>
      apply Kept.of_same
      simp [step, deletes, hdelete]
    | some store' =>
      have hstore : (step u site s (.deletes id false)).store = store' := by
        simp [step, deletes, hdelete]
      -- a deletion changes no profile that it leaves
      have hpair : ∀ id' p p', getProfile s.store id' = some p → getProfile store' id' = some p' →
          p' = p := by
        intro id' p p' hp hp'
        rw [getProfile_delete hdelete] at hp'
        split at hp'
        · cases hp'
        · rw [hp] at hp'
          exact (Option.some.inj hp').symm
      constructor
      · intro id' p p' hp hp' t ht
        rw [hstore] at hp'
        rw [hpair id' p p' hp hp']
        exact ⟨t, ht, le_refl t⟩
      · intro id' hbefore hafter
        rw [hstore, ← getProfile_isSome, getProfile_delete hdelete] at hafter
        split at hafter
        · cases hafter
        · exact absurd (getProfile_isSome.mp hafter) hbefore
      · intro id' hbefore hafter
        rw [hstore, ← getProfile_eq_none, getProfile_delete hdelete] at hafter
        split at hafter
        · rename_i heq
          exact ⟨false, by rw [heq]⟩
        · exact absurd hbefore (getProfile_eq_none.mp hafter)
      · intro id' p p' hp hp'
        rw [hstore] at hp'
        rw [hpair id' p p' hp hp']
        exact .inl rfl

theorem kept_marks (h : Serial u site store s) {event : Event} {now : Time} {p : Profile}
    {rest : List Profile} (htick : s.tick = some (now, p :: rest))
    (hdue : dueIds site now (p :: rest) = p.id :: dueIds site now rest)
    (hstore : (step u site s event).store = markRun p.id now s.store) : Kept u site s event := by
  rw [markRun_eq_map p.id now h.nodup] at hstore
  have hpair : ∀ id q q', getProfile s.store id = some q →
      getProfile (s.store.map (stamp now [p.id])) id = some q' → q' = stamp now [p.id] q := by
    intro id q q' hq hq'
    rw [getProfile_map_stamp, hq] at hq'
    exact (Option.some.inj hq').symm
  constructor
  · intro id q q' hq hq' t ht
    rw [hstore] at hq'
    rw [hpair id q q' hq hq']
    by_cases hid : q.id ∈ [p.id]
    · rw [stamp, if_pos hid]
      refine ⟨now, rfl, ?_⟩
      have hbound := h.lastRun q (mem_of_getProfile hq)
      simp only [State.due, State.now, htick, hdue] at hbound
      rw [List.mem_singleton.mp hid] at hbound
      exact hbound List.mem_cons_self t ht
    · rw [stamp, if_neg hid]
      exact ⟨t, ht, le_refl t⟩
  · intro id hbefore hafter
    rw [hstore, ids_map_stamp] at hafter
    exact absurd hafter hbefore
  · intro id hbefore hafter
    rw [hstore, ids_map_stamp] at hafter
    exact absurd hbefore hafter
  · intro id q q' hq hq'
    rw [hstore] at hq'
    left
    rw [hpair id q q' hq hq', stamp]
    split
    · rfl
    · rfl

theorem Serial.kept (h : Serial u site store s) {event : Event}
    (hundisturbed : Undisturbed u site s event) : Kept u site s event := by
  cases event with
  | reads caller edit =>
    apply Kept.of_same
    simp only [ProfileEdits.step, reads]
    split
    · rfl
    · split
      · rfl
      · rfl
  | writes caller => exact kept_writes caller hundisturbed
  | deletes id running => exact kept_deletes id running
  | tickLists now =>
    apply Kept.of_same
    simp only [ProfileEdits.step, ProfileEdits.tickLists]
    split
    · rfl
    · rfl
  | tickVisits =>
    cases htick : s.tick with
    | none =>
      apply Kept.of_same
      simp only [ProfileEdits.step, ProfileEdits.tickVisits, htick]
    | some under =>
      rcases under with ⟨now, _ | ⟨p, rest⟩⟩
      · apply Kept.of_same
        simp only [ProfileEdits.step, ProfileEdits.tickVisits, htick]
      · by_cases henabled : p.enabled = false
        · apply Kept.of_same
          simp [ProfileEdits.step, ProfileEdits.tickVisits, htick, henabled]
        · cases hprofile : profileDue site p.toBackupProfile now with
          | no | raises =>
            apply Kept.of_same
            simp [ProfileEdits.step, ProfileEdits.tickVisits, htick, henabled, hprofile]
          | yes | starts =>
            apply kept_marks h htick
            · simp [dueIds, henabled, hprofile]
            · simp [ProfileEdits.step, ProfileEdits.tickVisits, htick, henabled, hprofile]

/-- In every run in which what a caller read is still so when it writes, no new profile takes
the identifier of one about to be marked, and the clock does not go back: no last run goes
back, no profile reappears or loses an edit, and between two ticks the content is what some
order of the accepted operations gives. -/
theorem profile_edits_serialisable (u : CharTable) (site : Site) (store : Store)
    (events : List Event) (hstrict : (ids store).Nodup)
    (hundisturbed : Along (step u site) (Undisturbed u site) (start store) events) :
    Along (step u site) (Kept u site) (start store) events ∧
      Serialised u site store (run (step u site) (start store) events) := by
  have hstart := serial_start u site hstrict
  constructor
  · exact Along.of_invariant (P := Serial u site store) (fun _ _ h => h.step)
      (fun _ _ h => h.kept) hstart hundisturbed
  · have hend : Serial u site store (run (step u site) (start store) events) :=
      run_induction (fun _ _ h => h.step) hstart hundisturbed
    exact hend.serialised

end

/-! ### Small runs -/

def sampleStore : Store := [⟨BackupProfiles.worldProfile, 0, 0⟩, ⟨BackupProfiles.modsProfile, 0, 0⟩]

def renamed : Form where
  name := "Le monde".toList
  included := ["world", "config"]
  hours := 6

def halfPastFour : Time := 16200000000

/-- The mods are suspended and a profile is created while the tick is under way; the world is
deleted before the tick comes to the mods. -/
def sampleEvents : List Event := [
  .reads 0 (.create renamed), .tickLists halfPastFour, .reads 1 (.toggle "mods" false),
  .writes 1, .tickVisits, .deletes "monde" false, .writes 0, .tickVisits, .tickVisits]

theorem profile_edits_serialisable_sample :
    Along (step .ascii BackupProfiles.utc) (Kept .ascii BackupProfiles.utc) (start sampleStore)
        sampleEvents ∧
      Serialised .ascii BackupProfiles.utc sampleStore
        (run (step .ascii BackupProfiles.utc) (start sampleStore) sampleEvents) :=
  profile_edits_serialisable .ascii BackupProfiles.utc sampleStore sampleEvents
    (by decide +kernel) (by decide +kernel)

/-- The world is marked between the reading and the writing of its new name: the mark is
lost, which no order of the two gives. -/
theorem mark_overwritten :
    ¬ ∀ (u : CharTable) (site : Site) (store : Store) (events : List Event),
      (ids store).Nodup → Serialised u site store (run (step u site) (start store) events) := by
  intro h
  let events : List Event := [
    .reads 0 (.update "monde" renamed), .tickLists halfPastFour, .tickVisits, .writes 0,
    .tickVisits, .tickVisits]
  let ended := run (step .ascii BackupProfiles.utc) (start sampleStore) events
  have hended : ended.tick = none := by decide +kernel
  rcases h .ascii BackupProfiles.utc sampleStore events (by decide +kernel) hended with
    ⟨order, hperm, hsequential⟩
  have haccepted : ended.accepted =
      [.edit (.update "monde" renamed), .tick halfPastFour] := by decide +kernel
  have hnone : ∀ order ∈ List.permutations'
      [Operation.edit (.update "monde" renamed), .tick halfPastFour],
      sequential .ascii BackupProfiles.utc order sampleStore ≠ some ended.store := by
    decide +kernel
  rw [show (run (step .ascii BackupProfiles.utc) (start sampleStore) events).accepted =
    [.edit (.update "monde" renamed), .tick halfPastFour] from haccepted] at hperm
  exact hnone order (List.mem_permutations'.mpr hperm) hsequential

end ProfileEdits
