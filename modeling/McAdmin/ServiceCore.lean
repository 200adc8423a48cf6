import Mathlib.Algebra.Order.Ring.Rat
import McAdmin.Calls
import McAdmin.Roles

/-!
# The core of the service

An operation is a program of calls to the clock, to the audit log and to the other ports.
`_record` writes an entry of the log, and `_authorize` refuses, with an entry, a user whose role
lacks the permission.
-/

namespace ServiceCore

open Calls McAdmin

structure AuditEntry where
  timestamp : ℚ
  username : String
  role : String
  action : String
  target : String
  outcome : String
  detail : String
deriving DecidableEq, Repr

/-- A call to the clock, to the audit log or to another port. -/
inductive Call (P : Type) where
  | now
  | record (entry : AuditEntry)
  | port (p : P)
deriving DecidableEq, Repr

variable {P : Type} {A : P → Type} {φ ε α : Type}

abbrev Answer (A : P → Type) : Call P → Type
  | .now => ℚ
  | .record _ => Unit
  | .port p => A p

/-- What an operation raises: what a call raised, or an error of its own. -/
inductive Raised (φ ε : Type) where
  | fault (f : φ)
  | permissionDenied (username permission : String)
  | refused (e : ε)
deriving DecidableEq, Repr

abbrev Program (A : P → Type) (φ ε α : Type) :=
  Prog (Call P) (Answer A) φ (Raised φ ε) α

def call (c : Call P) : Program A φ ε (Answer A c) := .perform .fault c

/-- The entry of `_record`. -/
def auditEntry (containerName : String) (user : User) (permission : Permission)
    (outcome detail : String) (timestamp : ℚ) : AuditEntry where
  timestamp
  username := user.username
  role := user.role.name
  action := permission.value
  target := containerName
  outcome
  detail

def record (containerName : String) (user : User) (permission : Permission)
    (outcome detail : String) : Program A φ ε Unit := do
  let timestamp ← call .now
  call (.record (auditEntry containerName user permission outcome detail timestamp))

def authorize (containerName : String) (user : User) (permission : Permission) :
    Program A φ ε Unit :=
  if user.can permission then return ()
  else do
    record containerName user permission "denied" ""
    throw (.permissionDenied user.username permission.value)

variable {past : List (Made (Call P) (Answer A) φ)} {containerName : String} {user : User}
  {permission : Permission} {outcome detail : String}

theorem obeys_call {C : List (Made (Call P) (Answer A) φ) → Call P → Prop} {c : Call P}
    {Q : List (Made (Call P) (Answer A) φ) → Except (Raised φ ε) (Answer A c) → Prop} :
    Obeys C Q past (call c) ↔
      C past c ∧ (∀ a, Q (past ++ [⟨c, .ok a⟩]) (.ok a)) ∧
        ∀ f, Q (past ++ [⟨c, .error f⟩]) (.error (.fault f)) := obeys_perform

theorem obeys_call_bind {C : List (Made (Call P) (Answer A) φ) → Call P → Prop} {c : Call P}
    {Q : List (Made (Call P) (Answer A) φ) → Except (Raised φ ε) α → Prop}
    {g : Answer A c → Program A φ ε α} :
    Obeys C Q past (call c >>= g) ↔
      C past c ∧ (∀ a, Obeys C Q (past ++ [⟨c, .ok a⟩]) (g a)) ∧
        ∀ f, Q (past ++ [⟨c, .error f⟩]) (.error (.fault f)) := by
  rw [obeys_bind, obeys_call]

inductive Writes (entry : ℚ → AuditEntry) :
    List (Made (Call P) (Answer A) φ) → Except (Raised φ ε) Unit → Prop where
  | written (t : ℚ) : Writes entry [⟨.now, .ok t⟩, ⟨.record (entry t), .ok ()⟩] (.ok ())
  | noClock (f : φ) : Writes entry [⟨.now, .error f⟩] (.error (.fault f))
  | noLog (t : ℚ) (f : φ) :
    Writes entry [⟨.now, .ok t⟩, ⟨.record (entry t), .error f⟩] (.error (.fault f))

theorem obeys_record
    {Q : List (Made (Call P) (Answer A) φ) → Except (Raised φ ε) Unit → Prop}
    (h : ∀ new result,
      Writes (auditEntry containerName user permission outcome detail) new result →
        Q (past ++ new) result) :
    Obeys (fun _ _ => True) Q past (record containerName user permission outcome detail) := by
  refine (obeys_call_bind (A := A) (c := .now)).mpr
    ⟨trivial, fun t => ?_, fun f => h _ _ (.noClock f)⟩
  refine (obeys_call (A := A) (c := .record _)).mpr ⟨trivial, fun _ => ?_, fun f => ?_⟩
  · rw [List.append_assoc]
    exact h _ _ (.written t)
  · rw [List.append_assoc]
    exact h _ _ (.noLog t f)

theorem authorize_of_can (h : user.can permission = true) :
    (authorize containerName user permission : Program A φ ε Unit) = pure () := if_pos h

theorem authorize_of_not_can (h : user.can permission = false) :
    (authorize containerName user permission : Program A φ ε Unit) = (do
      record containerName user permission "denied" ""
      throw (.permissionDenied user.username permission.value)) := if_neg (by simp [h])

end ServiceCore
