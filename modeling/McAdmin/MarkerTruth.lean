import McAdmin.UpdateTally

/-!
# The markers of a run

The journal is what the steps of a run have entered, and the two attributes that tell of an
operation under way hold one that was launched.  So each entry that counts as a marker and does not
mislead is that of an operation that was carried out, and there are as many of updates as updates
were launched.
-/

namespace Markers

open AdminService Calls McAdmin ServiceCore

variable {cfg : Config}

/-! ### What a call does -/

def entryOf : MadeCall → Option AuditEntry
  | ⟨.record entry, .ok _⟩ => some entry
  | _ => none

section

variable {choice : Choice} {s : State}

theorem access_journal (applied : Except Failure Unit) (m : Memory) :
    (access applied s m).2.journal = s.journal := by
  cases m with
  | beginOpLevels operation =>
    simp only [access]
    split
    · rfl
    · split
      · rfl
      · rfl
  | concludeOpLevels operation =>
    simp only [access]
    split
    · rfl
    · rfl
  | _ => rfl

theorem respond_journal (c : Call Port) :
    (respond choice c s).2.journal =
      s.journal ++ (entryOf ⟨c, (respond choice c s).1⟩).toList := by
  match c with
  | .now => simp [respond, entryOf]
  | .port (.outside p) => simp [respond, entryOf]
  | .port (.memory m) => simp [respond, entryOf, access_journal]
  | .record entry =>
    simp only [respond]
    split
    · simp [entryOf]
    · simp [entryOf]

theorem respond_levels {c : Call Port} {op : OpLevelsOperation}
    (h : (respond choice c s).2.opLevelsOperation = some op) :
    s.opLevelsOperation = some op ∨
      (⟨c, (respond choice c s).1⟩ : MadeCall) = accessed (.beginOpLevels op) true := by
  match c with
  | .now => exact .inl h
  | .port (.outside p) => exact .inl h
  | .record entry =>
    left
    simp only [respond] at h
    split at h
    · exact h
    · exact h
  | .port (.memory m) =>
    cases m with
    | beginOpLevels operation =>
      by_cases hsome : s.opLevelsOperation.isSome = true
      · simp only [respond, access, hsome, if_true] at h
        exact .inl h
      · simp only [respond, access, if_neg hsome] at h ⊢
        split at h
        · obtain rfl := Option.some.inj h
          right
          simp [accessed]
        · exact .inl h
    | concludeOpLevels operation =>
      left
      simp only [respond, access] at h
      split at h
      · exact absurd h (by simp)
      · exact h
    | _ => exact .inl h

theorem respond_restore {c : Call Port} {op : RestoreOperation}
    (h : (respond choice c s).2.restoreOperation = some op) :
    s.restoreOperation = some op ∨ c = .port (.memory (.setRestoreOperation (some op))) := by
  match c with
  | .now => exact .inl h
  | .port (.outside p) => exact .inl h
  | .record entry =>
    left
    simp only [respond] at h
    split at h
    · exact h
    · exact h
  | .port (.memory m) =>
    cases m with
    | beginOpLevels operation =>
      left
      simp only [respond, access] at h
      split at h
      · exact h
      · split at h
        · exact h
        · exact h
    | concludeOpLevels operation =>
      left
      simp only [respond, access] at h
      split at h
      · exact h
      · exact h
    | setRestoreOperation operation =>
      obtain rfl : operation = some op := h
      exact .inr rfl
    | _ => exact .inl h

theorem respond_concluded {c : Call Port} {op : OpLevelsOperation}
    (h : (⟨c, (respond choice c s).1⟩ : MadeCall) = accessed (.concludeOpLevels op) true) :
    s.opLevelsOperation = some op := by
  obtain ⟨rfl, hanswer⟩ := Made.mk.inj h
  have hanswer : (respond choice (.port (.memory (.concludeOpLevels op))) s).1 = .ok true :=
    eq_of_heq hanswer
  simp only [respond, access] at hanswer
  split at hanswer
  · assumption
  · exact absurd hanswer (by simp)

theorem respond_underWay {c : Call Port} {op : RestoreOperation}
    (h : (⟨c, (respond choice c s).1⟩ : MadeCall) = accessed .restoreOperation (some op)) :
    s.restoreOperation = some op := by
  obtain ⟨rfl, hanswer⟩ := Made.mk.inj h
  exact Except.ok.inj (eq_of_heq hanswer)

end

/-! ### The invariant -/

structure Justified (before : List Written) (r : Written) : Prop where
  past : ∀ s ∈ r.past, ∃ r' ∈ before, r'.toStep = s
  warranted : Warranted (made r.past) r.call
  plain : plain r.call = true
  concluded : ∀ op, r.toMade = accessed (.concludeOpLevels op) true →
    ∃ r' ∈ before, r'.toMade = accessed (.beginOpLevels op) true
  underWay : ∀ op, r.toMade = accessed .restoreOperation (some op) → op.over = false →
    ∃ r' ∈ before, r'.toMade = answered (.startRestore op.filename) ()

abbrev World := Calls.World State (Call Port) (Answer PortAnswer) Failure Request Choice

structure Inv (w : World) : Prop where
  journal : w.state.journal = w.trace.filterMap fun r => entryOf r.toMade
  levels : ∀ op, w.state.opLevelsOperation = some op →
    ∃ r ∈ w.trace, r.toMade = accessed (.beginOpLevels op) true
  restore : ∀ op, w.state.restoreOperation = some op → op.over = false →
    ∃ r ∈ w.trace, r.toMade = answered (.startRestore op.filename) ()
  ordered : Ordered Justified w.trace

theorem inv_start : Inv ⟨{}, []⟩ where
  journal := rfl
  levels _ h := absurd h (by simp)
  restore _ h := absurd h (by simp)
  ordered := Ordered.nil

theorem justified_of_mem {trace : List Written} (h : Ordered Justified trace) {r : Written}
    (hr : r ∈ trace) : ∃ before after, trace = before ++ r :: after ∧ Justified before r := by
  obtain ⟨before, after, rfl⟩ := List.append_of_mem hr
  exact ⟨before, after, rfl, h before r after rfl⟩

theorem exists_of_underWay {trace : List Written} (h : Ordered Justified trace) {r : Written}
    (hr : r ∈ trace) {op : RestoreOperation}
    (hmade : r.toMade = accessed .restoreOperation (some op)) (hover : op.over = false) :
    ∃ r' ∈ trace, r'.toMade = answered (.startRestore op.filename) () := by
  obtain ⟨before, after, rfl, hjustified⟩ := justified_of_mem h hr
  obtain ⟨r', hr', hmade'⟩ := hjustified.underWay op hmade hover
  exact ⟨r', List.mem_append_left _ hr', hmade'⟩

theorem exists_of_made {trace : List Written} {past : List (Step State (Call Port)
      (Answer PortAnswer) Failure Choice)}
    (h : ∀ s ∈ past, ∃ r ∈ trace, r.toStep = s) {m : MadeCall} (hm : m ∈ made past) :
    ∃ r ∈ trace, r.toMade = m := by
  obtain ⟨s, hs, rfl⟩ := List.mem_map.mp hm
  obtain ⟨r, hr, rfl⟩ := h s hs
  exact ⟨r, hr, rfl⟩

abbrev Any : Request → Prop := fun _ => True

theorem Inv.move {w w' : World} (h : Inv w)
    (hmove : Move (server cfg) duty Any Growth.none Plain w w') : Inv w' := by
  cases hmove with
  | stay => exact h
  | result k past result _ _ => exact ⟨h.journal, h.levels, h.restore, h.ordered⟩
  | call k past c choice hcredible hcall hplain _ =>
    have hpast : ∀ s ∈ past, ∃ r ∈ w.trace, r.toStep = s := by
      intro s hs
      obtain ⟨r, hr, hstep, -⟩ := hcredible.recorded s hs
      exact ⟨r, hr, hstep⟩
    refine ⟨?_, ?_, ?_, ?_⟩
    · change (respond choice c w.state).2.journal = (w.trace ++ [_]).filterMap _
      rw [respond_journal, h.journal, List.filterMap_append]
      congr 1
    · intro op hop
      rcases respond_levels hop with hop | hbegun
      · obtain ⟨r, hr, hmade⟩ := h.levels op hop
        exact ⟨r, List.mem_append_left _ hr, hmade⟩
      · exact ⟨_, List.mem_append_right _ (List.mem_singleton_self _), hbegun⟩
    · intro op hop hover
      have hlaunched : ∃ r ∈ w.trace, r.toMade = answered (.startRestore op.filename) () := by
        rcases respond_restore hop with hop | rfl
        · exact h.restore op hop hover
        · rcases hcall.1 with hover' | hlaunched | ⟨op', hread, hover', hfilename⟩
          · exact absurd hover' (by simp [hover])
          · exact exists_of_made hpast hlaunched
          · obtain ⟨r, hr, hmade⟩ := exists_of_made hpast hread
            rw [← hfilename]
            exact exists_of_underWay h.ordered hr hmade hover'
      obtain ⟨r, hr, hmade⟩ := hlaunched
      exact ⟨r, List.mem_append_left _ hr, hmade⟩
    · apply h.ordered.snoc
      exact ⟨hpast, hcall.1, hplain, fun op hop => h.levels op (respond_concluded hop),
        fun op hop hover => h.restore op (respond_underWay hop) hover⟩

/-! ### What was carried out -/

theorem RestartLaunched.of_ground {trace before after : List Written} {r : Written}
    (h : Ordered Justified trace) (htrace : trace = before ++ r :: after) {detail : String}
    (hground : Ground (made r.past) .restart detail) : RestartLaunched before (made r.past) := by
  have hpast := (h before r after htrace).past
  rcases hground with hcontainer | ⟨op, hpermission, hbegun | hconcluded⟩
  · exact .container hcontainer
  · exact .levels op hpermission hbegun
  · refine .concluded op hpermission hconcluded ?_
    obtain ⟨r', hr', hmade⟩ := exists_of_made hpast hconcluded
    obtain ⟨before', after', rfl⟩ := List.append_of_mem hr'
    have hjustified := h before' r' (after' ++ r :: after) (by simp [htrace])
    obtain ⟨r'', hr'', hmade'⟩ := hjustified.concluded op hmade
    exact ⟨r'', List.mem_append_left _ hr'', hmade'⟩

theorem RestoreLaunched.of_ground {trace before after : List Written} {r : Written}
    (h : Ordered Justified trace) (htrace : trace = before ++ r :: after) {detail : String}
    (hground : Ground (made r.past) .backupRestore detail) :
    RestoreLaunched before (made r.past) := by
  have hpast := (h before r after htrace).past
  rcases hground with ⟨filename, hlaunched⟩ | ⟨op, hread, hover⟩
  · exact .launched filename hlaunched
  · refine .followed op hread hover ?_
    obtain ⟨r', hr', hmade⟩ := exists_of_made hpast hread
    obtain ⟨before', after', rfl⟩ := List.append_of_mem hr'
    have hjustified := h before' r' (after' ++ r :: after) (by simp [htrace])
    obtain ⟨r'', hr'', hmade'⟩ := hjustified.underWay op hmade hover
    exact ⟨r'', List.mem_append_left _ hr'', hmade'⟩

theorem CarriedOut.of_wrote {trace before after : List Written} {r : Written}
    (h : Ordered Justified trace) (htrace : trace = before ++ r :: after) {entry : AuditEntry}
    (hwrote : Wrote r entry) (houtcome : entry.outcome = "allowed") {kind : String}
    (hkind : correctiveKind entry.action entry.detail = some kind) :
    CarriedOut before (made r.past) kind := by
  have hjustified := h before r after htrace
  have hcall : r.call = .record entry := congrArg Made.call hwrote
  have hwarranted := hjustified.warranted
  have hplain := hjustified.plain
  rw [hcall] at hwarranted hplain
  obtain ⟨permission, haction, hground⟩ := hwarranted houtcome (Bool.not_eq_true' _ |>.mp hplain)
  unfold correctiveKind at hkind
  rw [haction] at hkind
  split_ifs at hkind with hrestart hrestore hmaintenance hupdate hbackup
  · obtain rfl := Option.some.inj hkind
    obtain rfl := value_inj hrestart
    exact .restart (.of_ground h htrace hground)
  · obtain rfl := Option.some.inj hkind
    obtain rfl := value_inj hrestore
    exact .restore (.of_ground h htrace hground)
  · obtain rfl := Option.some.inj hkind
    obtain rfl := value_inj hmaintenance
    exact .maintenance hground
  · obtain rfl := Option.some.inj hkind
    obtain rfl := value_inj hupdate.1
    exact .update (hground.resolve_left (by simp [hupdate.2]))
  · obtain rfl := Option.some.inj hkind
    obtain rfl := value_inj hbackup.1
    exact .backup (hground.resolve_left (by simp [hbackup.2]))

theorem entryOf_some {m : MadeCall} {entry : AuditEntry} (h : entryOf m = some entry) :
    m = ⟨.record entry, .ok ()⟩ := by
  unfold entryOf at h
  split at h
  · obtain rfl := Option.some.inj h
    rfl
  · exact absurd h (by simp)

theorem Inv.real {w : World} (h : Inv w) {entry : AuditEntry} (hentry : entry ∈ w.state.journal)
    (houtcome : entry.outcome = "allowed") {kind : String}
    (hkind : correctiveKind entry.action entry.detail = some kind) : Real w.trace entry kind := by
  rw [h.journal] at hentry
  obtain ⟨r, hr, hwrote⟩ := List.mem_filterMap.mp hentry
  obtain ⟨before, after, htrace⟩ := List.append_of_mem hr
  exact ⟨before, r, after, htrace, entryOf_some hwrote,
    .of_wrote h.ordered htrace (entryOf_some hwrote) houtcome hkind⟩

/-! ### The readers -/

theorem corrective_of_marker {action detail kind : String} (h : marker action detail = some kind)
    (hkind : kind ≠ "backup") : correctiveKind action detail = some kind := by
  unfold marker at h
  split_ifs at h with hbackup hdone hrestart hupdate happlied
  · exact absurd (Option.some.inj h).symm hkind
  · rw [correctiveKind, if_pos hrestart, h]
  · have hne : Permission.update.value ≠ Permission.restart.value ∧
        Permission.update.value ≠ Permission.backupRestore.value ∧
        Permission.update.value ≠ Permission.maintenance.value := by decide
    rw [Bool.not_eq_true] at happlied
    rw [correctiveKind, hupdate, if_neg hne.1, if_neg hne.2.1, if_neg hne.2.2,
      if_pos ⟨rfl, happlied⟩, h]

theorem recent_subset (limit : ℕ) (journal : List AuditEntry) :
    recent limit journal ⊆ journal := List.drop_subset _ _

theorem mem_marks {since t : Instant} {entries : List AuditEntry} {kind : String}
    (h : (t, kind) ∈ marks since entries) :
    ∃ entry ∈ entries, entry.outcome = "allowed" ∧ entry.timestamp = t ∧
      marker entry.action entry.detail = some kind := by
  obtain ⟨entry, hentry, hmark⟩ := List.mem_filterMap.mp h
  split_ifs at hmark with hout
  rw [not_or, not_not] at hout
  obtain ⟨kind', hmarker, heq⟩ := Option.map_eq_some_iff.mp hmark
  obtain ⟨rfl, rfl⟩ := Prod.mk.inj heq
  exact ⟨entry, hentry, hout.2, rfl, hmarker⟩

theorem performanceEvents_some {user : User} {since : Instant} {journal : List AuditEntry}
    {events : List (Instant × String)}
    (h : performanceEvents user since journal = some events) :
    events = marks since (recent perfEventScanLimit journal) := by
  unfold performanceEvents at h
  split_ifs at h
  exact (Option.some.inj h).symm

theorem Inv.mark {w : World} (h : Inv w) {user : User} {since t : Instant}
    {events : List (Instant × String)} {kind : String} (hkind : kind ≠ "backup")
    (hevents : performanceEvents user since w.state.journal = some events)
    (hmem : (t, kind) ∈ events) :
    ∃ entry, entry.timestamp = t ∧ Real w.trace entry kind := by
  rw [performanceEvents_some hevents] at hmem
  obtain ⟨entry, hentry, houtcome, htime, hmarker⟩ := mem_marks hmem
  exact ⟨entry, htime, h.real (recent_subset _ _ hentry) houtcome
    (corrective_of_marker hmarker hkind)⟩

theorem mem_correctiveActions {incident : Incident} {ended : Stamp} {audit : List AuditEntry}
    {action : Instant × String} (h : action ∈ correctiveActions incident ended audit) :
    ∃ entry ∈ audit, entry.outcome = "allowed" ∧ entry.timestamp = action.1 ∧
      correctiveKind entry.action entry.detail = some action.2 ∧
      inWindow incident ended action.1 = some true := by
  obtain ⟨entry, hentry, haction⟩ := List.mem_filterMap.mp ((List.mem_insertionSort _).mp h)
  by_cases hout : entry.outcome = "allowed"
  · rw [if_neg (not_not_intro hout)] at haction
    cases hkind : correctiveKind entry.action entry.detail with
    | none => simp [hkind] at haction
    | some kind =>
      simp only [hkind] at haction
      split_ifs at haction with hwindow
      obtain rfl := Option.some.inj haction
      exact ⟨entry, hentry, hout, rfl, hkind, hwindow⟩
  · exact absurd haction (by simp [hout])

theorem Inv.corrective {w : World} (h : Inv w) {user : User} {found : List Incident}
    {clock : Incident → Instant} {listed : List (Incident × List (Instant × String))}
    (hlisted : incidents user found clock w.state.journal = some listed)
    {row : Incident × List (Instant × String)} (hrow : row ∈ listed)
    {action : Instant × String} (haction : action ∈ row.2) :
    ∃ entry, entry.timestamp = action.1 ∧
      inWindow row.1 (row.1.until clock) action.1 = some true ∧ Real w.trace entry action.2 := by
  unfold incidents at hlisted
  split_ifs at hlisted
  obtain rfl := Option.some.inj hlisted
  obtain ⟨incident, -, rfl⟩ := List.mem_map.mp hrow
  dsimp only at haction
  obtain ⟨entry, hentry, houtcome, htime, hkind, hwindow⟩ := mem_correctiveActions haction
  have hjournal : entry ∈ w.state.journal := recent_subset perfEventScanLimit _ hentry
  exact ⟨entry, htime, hwindow, h.real hjournal houtcome hkind⟩

end Markers
