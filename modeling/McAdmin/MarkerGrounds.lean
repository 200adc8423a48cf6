import Mathlib.Data.List.Infix
import McAdmin.Markers

/-!
# What an entry goes by

When an operation writes an entry that counts as a marker and does not mislead, it has made the call
the entry is about, or has found the operation in an attribute that says so.
-/

namespace Markers

open AdminService Calls McAdmin ServiceCore

/-! ### The grounds -/

def Ground (past : List MadeCall) : Permission → String → Prop
  | .restart, _ => answered .restartContainer () ∈ past ∨ ∃ op : OpLevelsOperation,
      op.permission = .restart ∧
        (accessed (.beginOpLevels op) true ∈ past ∨ accessed (.concludeOpLevels op) true ∈ past)
  | .maintenance, _ => Maintained past
  | .update, detail => contains detail "phase=app_update_applied" = true ∨ UpdateLaunched past
  | .backupRestore, _ => (∃ filename, answered (.startRestore filename) () ∈ past) ∨
      ∃ op, accessed .restoreOperation (some op) ∈ past ∧ op.over = false
  | .backupTrigger, detail => contains detail "phase=backup_done" = false ∨ BackedUp past
  | _, _ => True

def RestoreKnown (past : List MadeCall) (op : RestoreOperation) : Prop :=
  op.over = true ∨ answered (.startRestore op.filename) () ∈ past ∨
    ∃ op', accessed .restoreOperation (some op') ∈ past ∧ op'.over = false ∧
      op'.filename = op.filename

def Offered (past : List MadeCall) : Prop :=
  ∃ pending, answered .getPendingRestore (some pending) ∈ past

def Warranted (past : List MadeCall) : Call Port → Prop
  | .record entry => entry.outcome = "allowed" → misleads entry = false →
      ∃ permission : Permission, entry.action = permission.value ∧
        Ground past permission entry.detail
  | .port (.memory (.setRestoreOperation (some op))) => RestoreKnown past op
  | .port (.outside (.startRestore _)) => Offered past
  | _ => True

def Routine (past : List MadeCall) (c : Call Port) : Prop :=
  Warranted past c ∧ c ≠ .port (.outside .startUpdater)

/-- The call asks for a change of the server or its doorman, or for a worker that makes one. -/
def touches : Call Port → Bool
  | .port (.outside .restartContainer) | .port (.outside (.stopContainer _))
  | .port (.outside .startContainer) | .port (.outside (.engage _ _)) | .port (.outside .release)
  | .port (.outside .startUpdater) | .port (.outside (.startRestore _))
  | .port (.memory (.beginOpLevels _)) => true
  | _ => false

def Ordinary (past : List MadeCall) (c : Call Port) : Prop :=
  Warranted past c ∧ touches c = false

theorem Ordinary.routine {past : List MadeCall} {c : Call Port} (h : Ordinary past c) :
    Routine past c := by
  refine ⟨h.1, ?_⟩
  rintro rfl
  cases h.2

/-! ### The start of a text -/

theorem startsWith_append {text start : String} (h : startsWith text start = true) (s : String) :
    startsWith (text ++ s) start = true := by
  unfold startsWith at h ⊢
  rw [List.isPrefixOf_iff_prefix] at h ⊢
  rw [String.toList_append]
  exact h.trans (List.prefix_append _ _)

theorem contains_of_startsWith {text part : String} (h : startsWith text part = true) :
    contains text part = true := by
  unfold contains
  rw [List.any_eq_true]
  exact ⟨text.toList, (List.mem_tails _ _).mpr (List.suffix_refl _), h⟩

/-! ### The calls -/

section

variable {H : List MadeCall → Prop} {α β : Type}

theorem routine_of_ordinary {p : Program α} {K : α → List MadeCall → Prop}
    (h : Triple Ordinary H p K) : Triple Routine H p K := h.mono fun _ _ => Ordinary.routine

theorem Safe.routine {p : Program α} (h : Safe Ordinary p) : Safe Routine p :=
  routine_of_ordinary h

def startsWorker : Outside → Bool
  | .startUpdater | .startRestore _ => true
  | _ => false

theorem outside_warranted {p : Outside} (hp : startsWorker p = false) (past : List MadeCall) :
    Warranted past (.port (.outside p)) := by
  cases p with
  | startRestore filename => cases hp
  | _ => trivial

theorem outside_routine {p : Outside} {K : OutsideAnswer p → List MadeCall → Prop}
    (hp : startsWorker p = false) (hK : ∀ past a, H past → K a (past ++ [answered p a])) :
    Triple Routine H (outside p) K := by
  refine Triple.perform (fun past _ => ⟨outside_warranted hp past, fun h => ?_⟩) hK
  obtain rfl := Port.outside.inj (Call.port.inj h)
  cases hp

theorem outside_triple {p : Outside} {K : OutsideAnswer p → List MadeCall → Prop}
    (hp : touches (.port (.outside p)) = false)
    (hK : ∀ past a, H past → K a (past ++ [answered p a])) :
    Triple Ordinary H (outside p) K := by
  refine Triple.perform (fun past _ => ⟨outside_warranted ?_ past, hp⟩) hK
  cases p <;> first | rfl | cases hp

theorem outside_safe {p : Outside} (hp : touches (.port (.outside p)) = false) :
    Safe Ordinary (outside p) := outside_triple hp fun _ _ _ => trivial

theorem outside_answered {p : Outside} (hp : touches (.port (.outside p)) = false) :
    Triple Ordinary H (outside p) fun a past => answered p a ∈ past :=
  outside_triple hp fun past _ _ => List.mem_append_right past (List.mem_singleton_self _)

theorem memory_triple {m : Memory} {K : MemoryAnswer m → List MadeCall → Prop}
    (hm : ∀ past, H past → Ordinary past (.port (.memory m)))
    (hK : ∀ past a, H past → K a (past ++ [accessed m a])) :
    Triple Ordinary H (memory m) K := Triple.perform hm hK

theorem memory_ordinary {m : Memory} (hm : ∀ past, Ordinary past (.port (.memory m))) :
    Safe Ordinary (memory m) := memory_triple (fun past _ => hm past) fun _ _ _ => trivial

def commits : Memory → Bool
  | .setRestoreOperation (some _) => true
  | .beginOpLevels _ => true
  | _ => false

theorem ordinary_memory {m : Memory} (hm : commits m = false) (past : List MadeCall) :
    Ordinary past (.port (.memory m)) := by
  constructor
  · unfold Warranted
    split
    · rename_i heq
      exact nomatch heq
    · rename_i op heq
      obtain rfl := Port.memory.inj (Call.port.inj heq)
      cases hm
    · rename_i heq
      exact nomatch heq
    · trivial
  · cases m <;> first | rfl | cases hm

theorem memory_safe {m : Memory} (hm : commits m = false) : Safe Ordinary (memory m) :=
  memory_ordinary (ordinary_memory hm)

theorem memory_accessed {m : Memory} (hm : commits m = false) :
    Triple Ordinary H (memory m) fun a past => accessed m a ∈ past :=
  memory_triple (fun past _ => ordinary_memory hm past)
    fun past _ _ => List.mem_append_right past (List.mem_singleton_self _)

theorem now_safe : Safe Ordinary now :=
  Safe.perform fun _ => ⟨trivial, rfl⟩

/-! ### Entries -/

variable {cfg : Config} {user : User} {permission : Permission} {outcome detail : String}

def Misleads (permission : Permission) (detail : String) : Prop :=
  ∀ entry : AuditEntry, entry.outcome = "allowed" → entry.action = permission.value →
    entry.detail = detail → misleads entry = true

theorem record_triple (hH : Lasting H)
    (h : outcome = "allowed" → Misleads permission detail ∨
      ∀ past, H past → Ground past permission detail) :
    Triple Ordinary H (AdminService.record cfg user permission outcome detail)
      fun _ _ => True := by
  apply now_safe.then hH
  intro t
  apply Triple.perform
  · intro past hpast
    refine ⟨fun houtcome hmisleads => ?_, rfl⟩
    rcases h houtcome with hm | hground
    · exact absurd (hm _ houtcome rfl rfl) (by simp [hmisleads])
    · exact ⟨permission, rfl, hground past hpast⟩
  · intro _ _ _
    trivial

theorem record_safe (h : outcome = "allowed" → Misleads permission detail ∨
      ∀ past, Ground past permission detail) :
    Safe Ordinary (AdminService.record cfg user permission outcome detail) :=
  record_triple Lasting.true fun houtcome => (h houtcome).imp_right fun hground past _ =>
    hground past

theorem record_other (h : outcome ≠ "allowed") :
    Safe Ordinary (AdminService.record cfg user permission outcome detail) :=
  record_safe fun houtcome => absurd houtcome h

theorem record_misleading (h : Misleads permission detail) :
    Safe Ordinary (AdminService.record cfg user permission outcome detail) :=
  record_safe fun _ => .inl h

theorem misleads_of_announcement (start : String)
    (hmem : (permission, start) ∈ announcements) (h : startsWith detail start = true) :
    Misleads permission detail := by
  intro entry houtcome haction hdetail
  have hannounces : announces entry.action entry.detail = true := by
    unfold announces
    rw [List.any_eq_true]
    exact ⟨_, hmem, by simp [haction, hdetail, h]⟩
  simp [misleads, houtcome, hannounces]

/-! ### What the operations share -/

theorem notify_safe {title message level : String} {event : Option String} :
    Safe Ordinary (notify title message level event) := outside_safe rfl

theorem attempt_safe {p : Program α} (h : Safe Ordinary p) : Safe Ordinary (attempt p) :=
  Safe.tryCatch (h.bind fun _ => Safe.pure) fun _ => Safe.pure

theorem bestEffort_safe {p : Program Unit} (h : Safe Ordinary p) : Safe Ordinary (bestEffort p) :=
  Safe.tryCatch h fun _ => Safe.pure

theorem say_safe {message : String} : Safe Ordinary (say message) :=
  bestEffort_safe (outside_safe rfl)

theorem refuse_safe {c : ErrorClass} {message : String} :
    Safe Ordinary (refuse c message : Program α) := Safe.throw

theorem refuseIf_safe {condition : Prop} [Decidable condition] {c : ErrorClass} {message : String} :
    Safe Ordinary (refuseIf condition c message) :=
  Safe.ite (fun _ => refuse_safe) fun _ => Safe.pure

theorem deny_safe {c : ErrorClass} {message : String} :
    Safe Ordinary (deny cfg user permission detail c message : Program α) :=
  Safe.bind (record_other (by decide)) fun _ => refuse_safe

theorem authorize_safe : Safe Ordinary (authorize cfg user permission) :=
  Safe.ite (fun _ => Safe.pure) fun _ => Safe.bind (record_other (by decide)) fun _ => Safe.throw

theorem refuseIfMaintenance_safe {hint : String} :
    Safe Ordinary (refuseIfMaintenance cfg user permission hint) := by
  apply Safe.ite
  · intro _
    exact Safe.pure
  · intro _
    apply Safe.bind (attempt_safe (outside_safe rfl))
    intro running
    split
    · exact deny_safe
    · exact Safe.pure

theorem pendingRestore_safe : Safe Ordinary (pendingRestore cfg) :=
  Safe.ite (fun _ => outside_safe rfl) fun _ => Safe.pure

theorem restoreInProgress_safe : Safe Ordinary (restoreInProgress cfg) := by
  apply Safe.bind pendingRestore_safe
  intro pending
  apply Safe.ite
  · intro _
    exact Safe.pure
  · intro _
    apply Safe.bind (memory_safe rfl)
    intro operation
    apply Safe.ite
    · intro _
      exact Safe.pure
    · intro _
      apply Safe.ite
      · intro _
        exact Safe.pure
      · intro _
        exact (attempt_safe (outside_safe rfl)).bind fun _ => Safe.pure

theorem serverConfirmedEmpty_safe : Safe Ordinary serverConfirmedEmpty := by
  apply Safe.bind (attempt_safe (outside_safe rfl))
  intro players
  split
  · exact Safe.pure
  · exact Safe.pure

end

end Markers
