import Mathlib.Algebra.Order.Field.Rat
import Mathlib.Data.List.TakeWhile
import Mathlib.Logic.Relation
import Mathlib.Tactic.Linarith
import McAdmin.LoginLimiterInvariant

/-!
# The failures a key can have

A key's bucket changes by a few moves.  All of them but the end of a failed attempt
record nothing, and only an eviction or a success of the key forgets failures that
are still in the window.
-/

namespace LoginAttemptLimiter

open Runs

/-! ### What a call does for a key -/

def Call.now : Call → ℚ
  | .begin _ _ now => now
  | .failure _ now => now
  | .success _ now => now
  | .cancel _ now => now
  | .cleanup now => now

def Records (s : Limiter) (key : Key) : Call → Prop
  | .failure token _ => ∃ lease ∈ s.leases.lookup token, key ∈ lease.keys
  | _ => False

instance (s : Limiter) (key : Key) (call : Call) : Decidable (Records s key call) := by
  cases call with
  | failure token _ =>
    exact inferInstanceAs (Decidable (∃ lease ∈ s.leases.lookup token, key ∈ lease.keys))
  | _ => exact instDecidableFalse

def Succeeds (s : Limiter) (key : Key) : Call → Prop
  | .success token _ => ∃ lease ∈ s.leases.lookup token, key = .pair lease.pairKey
  | _ => False

/-- A full table makes room for a new key by giving up this one. -/
def GivesUp {κ : Type} [LinearOrder κ] (limit : ℕ) (now : ℚ) (buckets : Dict κ Bucket)
    (newKey key : κ) : Prop :=
  buckets.lookup newKey = none ∧ limit ≤ buckets.entries.length ∧
    oldestKey now buckets = some key

def Evicts (c : Settings) (s : Limiter) (key : Key) : Call → Prop
  | .begin clientIp username now => ∃ s₁ ∈ cleanupIfDue c now s, match key with
    | .pair key =>
      GivesUp c.pair.maxKeys now s₁.pairBuckets (pairKey c clientIp username) key
    | .ip key => GivesUp c.ip.maxKeys now s₁.ipBuckets (normalizeIp c clientIp) key
  | _ => False

instance (s : Limiter) (key : Key) (call : Call) : Decidable (Succeeds s key call) := by
  cases call with
  | success token _ =>
    exact inferInstanceAs
      (Decidable (∃ lease ∈ s.leases.lookup token, key = .pair lease.pairKey))
  | _ => exact instDecidableFalse

instance {κ : Type} [LinearOrder κ] (limit : ℕ) (now : ℚ) (buckets : Dict κ Bucket)
    (newKey key : κ) : Decidable (GivesUp limit now buckets newKey key) :=
  inferInstanceAs (Decidable (_ ∧ _ ∧ _))

instance (c : Settings) (s : Limiter) (key : Key) (call : Call) :
    Decidable (Evicts c s key call) := by
  cases call with
  | begin clientIp username now =>
    cases key with
    | pair key => exact inferInstanceAs (Decidable (∃ s₁ ∈ cleanupIfDue c now s,
        GivesUp c.pair.maxKeys now s₁.pairBuckets (pairKey c clientIp username) key))
    | ip key => exact inferInstanceAs (Decidable (∃ s₁ ∈ cleanupIfDue c now s,
        GivesUp c.ip.maxKeys now s₁.ipBuckets (normalizeIp c clientIp) key))
  | _ => exact instDecidableFalse

def Forgets (c : Settings) (s : Limiter) (key : Key) (call : Call) : Prop :=
  Evicts c s key call ∨ Succeeds s key call

instance (c : Settings) (s : Limiter) (key : Key) (call : Call) :
    Decidable (Forgets c s key call) := inferInstanceAs (Decidable (_ ∨ _))

def recorded (c : Settings) (key : Key) : Option Limiter → List Call → List ℚ
  | _, [] => []
  | none, _ :: _ => []
  | some s, call :: calls =>
    (if Records s key call then [call.now] else []) ++ recorded c key (step c s call) calls

/-- No call of the run evicts the key, and none of its attempts succeeds. -/
def Undisturbed (c : Settings) (key : Key) (calls : List Call) : Prop :=
  Along (next c) (fun s call => ∀ s' ∈ s, ¬ Forgets c s' key call) (some {}) calls

instance (c : Settings) (key : Key) (calls : List Call) : Decidable (Undisturbed c key calls) :=
  Along.decidable _ _ _ _

def Limiter.LockedUntil (s : Limiter) (key : Key) (t : ℚ) : Prop :=
  ∃ b ∈ s.bucket key, b.blockedUntil = t ∧ t ≠ 0

instance (s : Limiter) (key : Key) (t : ℚ) : Decidable (s.LockedUntil key t) :=
  inferInstanceAs (Decidable (∃ b ∈ s.bucket key, b.blockedUntil = t ∧ t ≠ 0))

/-! ### The moves of a bucket -/

inductive Move (c : Settings) (limits : Limits) (now : ℚ) (forgets : Prop) :
    Option Bucket → Option Bucket → Prop where
  | prepare (b : Bucket) : Move c limits now forgets (some b) (some (prepareBucket c now b))
  | count (b : Bucket) (inFlight : ℕ) (lastSeen : ℚ) :
      Move c limits now forgets (some b) (some { b with inFlight, lastSeen })
  | create : Move c limits now forgets none (some { lastSeen := now })
  | drop (b : Bucket) : b.isEmpty = true → Move c limits now forgets (some b) none
  | evict (b : Bucket) : forgets → b.blockedUntil ≤ now → Move c limits now forgets (some b) none
  | clear (b : Bucket) : forgets → b.failures.length < limits.maxFailures →
      Move c limits now forgets (some b) (some b.clear)

abbrev Moves (c : Settings) (limits : Limits) (now : ℚ) (forgets : Prop) :
    Option Bucket → Option Bucket → Prop :=
  Relation.ReflTransGen (Move c limits now forgets)

section

variable {κ : Type} [LinearOrder κ] {c : Settings} {limits : Limits} {now : ℚ} {forgets : Prop}
  {buckets buckets' : Dict κ Bucket}

theorem moves_alter {f : Bucket → Bucket} (key k : κ)
    (hf : k = key → ∀ b, buckets.lookup key = some b →
      Moves c limits now forgets (some b) (some (f b))) :
    Moves c limits now forgets (buckets.lookup k) ((alter key f buckets).lookup k) := by
  by_cases hk : k = key
  · subst hk
    rw [lookup_alter_self]
    cases hb : buckets.lookup k with
    | none => exact .refl
    | some b => exact hf rfl b hb
  · rw [lookup_alter_ne hk]

theorem moves_dropEmptyBucket (key k : κ) :
    Moves c limits now forgets (buckets.lookup k) ((dropEmptyBucket key buckets).lookup k) := by
  rw [lookup_dropEmptyBucket]
  by_cases hk : k = key
  · subst hk
    rw [if_pos rfl]
    cases hb : buckets.lookup k with
    | none => exact .refl
    | some b =>
      by_cases hempty : b.isEmpty = true
      · simp only [Option.filter, hempty, Bool.not_true, Bool.false_eq_true, if_false]
        exact .single (.drop b hempty)
      · simp [Option.filter, hempty]
        exact .refl
  · rw [if_neg hk]

theorem moves_tidy (k : κ) :
    Moves c limits now forgets (buckets.lookup k) ((tidy c now buckets).lookup k) := by
  simp only [tidy]
  generalize buckets.keys = keys
  induction keys generalizing buckets with
  | nil => exact .refl
  | cons key keys ih =>
    refine .trans (.trans (moves_alter key k ?_) (moves_dropEmptyBucket key k)) ih
    intro _ b _
    exact .single (.prepare b)

theorem moves_getOrCreate {limit : ℕ} {key : κ} (k : κ)
    (hcreate : getOrCreate key limit now buckets = some buckets')
    (hgives : GivesUp limit now buckets key k → forgets) :
    Moves c limits now forgets (buckets.lookup k) (buckets'.lookup k) := by
  simp only [getOrCreate] at hcreate
  cases hkey : buckets.lookup key with
  | some b =>
    rw [hkey] at hcreate
    cases hcreate
    exact .refl
  | none =>
    simp only [hkey] at hcreate
    rw [Option.map_eq_some_iff] at hcreate
    rcases hcreate with ⟨roomy, hroom, rfl⟩
    by_cases hk : k = key
    · subst hk
      rw [hkey, Dict.lookup_set, if_pos rfl]
      exact .single .create
    · rw [Dict.lookup_set, if_neg hk]
      simp only [makeRoom] at hroom
      split at hroom
      · rename_i hfull
        rw [Option.map_eq_some_iff] at hroom
        rcases hroom with ⟨victim, holdest, rfl⟩
        by_cases hvictim : k = victim
        · subst hvictim
          rcases oldestKey_eq_some holdest with ⟨b, hb, -, hunlocked⟩
          rw [hb, AList.lookup_erase]
          exact .single (.evict b (hgives ⟨hkey, hfull, holdest⟩) hunlocked)
        · rw [AList.lookup_erase_ne hvictim]
      · cases hroom
        exact .refl

theorem moves_getOrCreate_getD {limit : ℕ} {key : κ} (k : κ)
    (hgives : GivesUp limit now buckets key k → forgets) :
    Moves c limits now forgets (buckets.lookup k)
      (((getOrCreate key limit now buckets).getD buckets).lookup k) := by
  cases hcreate : getOrCreate key limit now buckets with
  | none => exact .refl
  | some buckets' => exact moves_getOrCreate k hcreate hgives

end

/-! ### The moves of a call -/

section

variable {c : Settings} {s s' : Limiter} {lease : Lease} {token : ℕ} {now : ℚ} {forgets : Prop}
  {pair : PairKey} {ip : String} {key : Key}

theorem moves_alters {f g : Bucket → Bucket} (s : Limiter) (pair : PairKey) (ip : String)
    (key : Key)
    (hf : ∀ b, Moves c (c.limits key) now forgets (some b) (some (f b)))
    (hg : ∀ b, Moves c (c.limits key) now forgets (some b) (some (g b))) :
    Moves c (c.limits key) now forgets (s.bucket key)
      (Limiter.bucket { s with
        pairBuckets := alter pair f s.pairBuckets
        ipBuckets := alter ip g s.ipBuckets } key) := by
  cases key with
  | pair k => exact moves_alter pair k fun _ b _ => hf b
  | ip k => exact moves_alter ip k fun _ b _ => hg b

theorem moves_ended (token : ℕ) (lease : Lease) (key : Key) :
    Moves c (c.limits key) now forgets (s.bucket key)
      ((s.ended token lease now).bucket key) := by
  have hrelease : ∀ b : Bucket,
      Moves c (c.limits key) now forgets (some b) (some (b.release now)) := by
    intro b
    exact .single (.count b _ _)
  exact moves_alters { s with leases := s.leases.erase token } _ _ key hrelease hrelease

theorem moves_dropEmpty (key : Key) :
    Moves c (c.limits key) now forgets (s.bucket key) ((dropEmpty pair ip s).bucket key) := by
  cases key with
  | pair k => exact moves_dropEmptyBucket pair k
  | ip k => exact moves_dropEmptyBucket ip k

theorem moves_cleanupIfDue (h : Sound c s) (key : Key) :
    ∃ s', cleanupIfDue c now s = some s' ∧ Sound c s' ∧
      Moves c (c.limits key) now forgets (s.bucket key) (s'.bucket key) := by
  apply cleanupIfDue_induction
    (P := fun s' => Moves c (c.limits key) now forgets (s.bucket key) (s'.bucket key)) _ _ _ h .refl
  · intro s' token lease _ hmoves _
    exact hmoves.trans (moves_ended token lease key)
  · intro s' hmoves
    cases key <;> exact hmoves
  · intro s' hmoves
    cases key with
    | pair k => exact hmoves.trans (moves_tidy k)
    | ip k => exact hmoves.trans (moves_tidy k)

theorem moves_attempt (key : Key) :
    Moves c (c.limits key) now forgets (s.bucket key)
      ((attempt c pair ip now s).1.bucket key) := by
  have htouch : ∀ b, Moves c (c.limits key) now forgets (some b)
      (some ((prepareBucket c now b).touch now)) := by
    intro b
    exact (Relation.ReflTransGen.single (.prepare b)).tail (.count _ _ now)
  have hreserve : ∀ b : Bucket, Moves c (c.limits key) now forgets (some b) (some b.reserve) := by
    intro b
    exact .single (.count b _ _)
  have htouched := moves_alters s pair ip key htouch htouch
  unfold attempt
  simp only
  split
  · exact htouched.trans (moves_dropEmpty key)
  · refine htouched.trans ?_
    cases key with
    | pair k => exact moves_alter pair k fun _ b _ => hreserve b
    | ip k => exact moves_alter ip k fun _ b _ => hreserve b

theorem moves_begin {clientIp username : String} {answer : Option ℕ} (h : Sound c s) (key : Key)
    (hbegin : begin c clientIp username now s = some (s', answer)) :
    Moves c (c.limits key) now (Forgets c s key (.begin clientIp username now))
      (s.bucket key) (s'.bucket key) := by
  have hcleaned : ∃ s₁, cleanupIfDue c now s = some s₁ ∧ Sound c s₁ ∧
      Moves c (c.limits key) now (Forgets c s key (.begin clientIp username now))
        (s.bucket key) (s₁.bucket key) := moves_cleanupIfDue h key
  rcases hcleaned with ⟨s₁, hcleanup, -, hmoves⟩
  refine hmoves.trans ?_
  have hpairs : ∀ k, key = .pair k →
      GivesUp c.pair.maxKeys now s₁.pairBuckets (pairKey c clientIp username) k →
      Forgets c s key (.begin clientIp username now) := by
    rintro k rfl hgives
    exact .inl ⟨s₁, hcleanup, hgives⟩
  have hips : ∀ k, key = .ip k →
      GivesUp c.ip.maxKeys now s₁.ipBuckets (normalizeIp c clientIp) k →
      Forgets c s key (.begin clientIp username now) := by
    rintro k rfl hgives
    exact .inl ⟨s₁, hcleanup, hgives⟩
  rcases begin_cases hcleanup clientIp username with ⟨pairBuckets, ipBuckets, hpair, hip, hattempt⟩ |
    hrefused
  · rw [hbegin] at hattempt
    rcases Prod.mk.inj (Option.some.inj hattempt) with ⟨rfl, -⟩
    refine .trans ?_ (moves_attempt key)
    cases key with
    | pair k => exact moves_getOrCreate k hpair (hpairs k rfl)
    | ip k => exact moves_getOrCreate k hip (hips k rfl)
  · rw [hbegin] at hrefused
    rcases Prod.mk.inj (Option.some.inj hrefused) with ⟨rfl, -⟩
    refine .trans ?_ (moves_dropEmpty key)
    cases key with
    | pair k => exact moves_getOrCreate_getD k (hpairs k rfl)
    | ip k => exact moves_getOrCreate_getD k (hips k rfl)

theorem bucket_ended (h : Sound c s) (hlease : s.leases.lookup token = some lease)
    (hkey : key ∈ lease.keys) (now : ℚ) :
    ∃ b, (s.ended token lease now).bucket key = some b ∧
      b.failures.length < (c.limits key).maxFailures := by
  rcases h.ended hlease now with ⟨-, -, hroom⟩
  have hheld : 0 < held s key := by
    rw [held_ended hlease now key, if_pos hkey]
    omega
  have hended : ∃ b, (s.ended token lease now).bucket key = some b := by
    rcases mem_keys.mp hkey with rfl | rfl
    · rcases h.pair.exists_bucket _ hheld with ⟨b, hb⟩
      exact ⟨b.release now, by simp [Limiter.bucket, Limiter.ended, hb]⟩
    · rcases h.ip.exists_bucket _ hheld with ⟨b, hb⟩
      exact ⟨b.release now, by simp [Limiter.bucket, Limiter.ended, hb]⟩
  rcases hended with ⟨b, hb⟩
  have hfree := hroom key hkey b hb
  exact ⟨b, hb, by omega⟩

theorem moves_success (h : Sound c s) (key : Key) (hsuccess : success c token now s = some s') :
    Moves c (c.limits key) now (Forgets c s key (.success token now))
      (s.bucket key) (s'.bucket key) := by
  simp only [success] at hsuccess
  cases hlease : s.leases.lookup token with
  | none =>
    rw [hlease] at hsuccess
    cases hsuccess
    exact .refl
  | some lease =>
    rcases h.ended hlease now with ⟨hend, -, -⟩
    simp only [hlease, hend] at hsuccess
    cases hsuccess
    refine .trans (moves_ended token lease key) (.trans ?_ (moves_dropEmpty key))
    cases key with
    | pair k =>
      apply moves_alter
      rintro rfl b hb
      rcases bucket_ended h hlease (mem_keys.mpr (.inl rfl)) now with ⟨b', hb', hroom⟩
      have hsame : b' = b := Option.some.inj (hb'.symm.trans hb)
      subst hsame
      exact .single (.clear b' (.inr ⟨lease, hlease, rfl⟩) hroom)
    | ip k =>
      apply moves_alter
      intro _ b _
      exact .single (.prepare b)

theorem moves_cancel (h : Sound c s) (key : Key) (hcancel : cancel token now s = some s') :
    Moves c (c.limits key) now forgets (s.bucket key) (s'.bucket key) := by
  simp only [cancel] at hcancel
  cases hlease : s.leases.lookup token with
  | none =>
    rw [hlease] at hcancel
    cases hcancel
    exact .refl
  | some lease =>
    rcases h.ended hlease now with ⟨hend, -, -⟩
    simp only [hlease, hend] at hcancel
    cases hcancel
    exact .trans (moves_ended token lease key) (moves_dropEmpty key)

def Limiter.failed (c : Settings) (s : Limiter) (lease : Lease) (now : ℚ) : Limiter :=
  { s with
    pairBuckets := alter lease.pairKey (fun b => (prepareBucket c now b).fail c.pair now)
      s.pairBuckets
    ipBuckets := alter lease.ipKey (fun b => (prepareBucket c now b).fail c.ip now)
      s.ipBuckets }

theorem failure_eq_failed (h : Sound c s) {token : ℕ} {lease : Lease}
    (hlease : s.leases.lookup token = some lease) :
    failure c token now s = some ((s.ended token lease now).failed c lease now) := by
  rcases h.ended hlease now with ⟨hend, -, -⟩
  simp only [failure, hlease, hend]
  rfl

theorem bucket_failed {lease : Lease} {key : Key} {b : Bucket} (hkey : key ∈ lease.keys)
    (hb : s.bucket key = some b) : (s.failed c lease now).bucket key =
      some ((prepareBucket c now b).fail (c.limits key) now) := by
  rcases mem_keys.mp hkey with rfl | rfl
  · have hb' : s.pairBuckets.lookup lease.pairKey = some b := hb
    simp [Limiter.bucket, Limiter.failed, hb', Settings.limits]
  · have hb' : s.ipBuckets.lookup lease.ipKey = some b := hb
    simp [Limiter.bucket, Limiter.failed, hb', Settings.limits]

theorem bucket_failed_of_notMem {lease : Lease} {key : Key} (hkey : key ∉ lease.keys) :
    (s.failed c lease now).bucket key = s.bucket key := by
  cases key with
  | pair k =>
    have hk : k ≠ lease.pairKey := by
      rintro rfl
      exact hkey (mem_keys.mpr (.inl rfl))
    exact lookup_alter_ne hk _ _
  | ip k =>
    have hk : k ≠ lease.ipKey := by
      rintro rfl
      exact hkey (mem_keys.mpr (.inr rfl))
    exact lookup_alter_ne hk _ _

theorem step_moves {call : Call} (h : Sound c s) (key : Key) (hstep : step c s call = some s') :
    ∃ o, Moves c (c.limits key) call.now (Forgets c s key call) (s.bucket key) o ∧
      (¬ Records s key call ∧ s'.bucket key = o ∨
        Records s key call ∧ ∃ b, o = some b ∧
          b.failures.length < (c.limits key).maxFailures ∧
          s'.bucket key = some (b.fail (c.limits key) call.now)) := by
  cases call with
  | begin clientIp username now =>
    have hbegin : (begin c clientIp username now s).map (·.1) = some s' := hstep
    rw [Option.map_eq_some_iff] at hbegin
    rcases hbegin with ⟨⟨s'', answer⟩, hbegin, rfl⟩
    exact ⟨_, moves_begin h key hbegin, .inl ⟨id, rfl⟩⟩
  | success token now => exact ⟨_, moves_success h key hstep, .inl ⟨id, rfl⟩⟩
  | cancel token now => exact ⟨_, moves_cancel h key hstep, .inl ⟨id, rfl⟩⟩
  | cleanup now =>
    have hcleaned : ∃ s₁, cleanupIfDue c now s = some s₁ ∧ Sound c s₁ ∧
        Moves c (c.limits key) now (Forgets c s key (.cleanup now))
          (s.bucket key) (s₁.bucket key) := moves_cleanupIfDue h key
    rcases hcleaned with ⟨s₁, hcleanup, -, hmoves⟩
    obtain rfl : s₁ = s' := Option.some.inj (hcleanup.symm.trans hstep)
    exact ⟨_, hmoves, .inl ⟨id, rfl⟩⟩
  | failure token now =>
    have hfailure : failure c token now s = some s' := hstep
    cases hlease : s.leases.lookup token with
    | none =>
      simp only [failure, hlease] at hfailure
      cases hfailure
      refine ⟨_, .refl, .inl ⟨?_, rfl⟩⟩
      rintro ⟨lease, hlease', -⟩
      rw [hlease] at hlease'
      cases hlease'
    | some lease =>
      rw [failure_eq_failed h hlease] at hfailure
      cases hfailure
      have hended : Moves c (c.limits key) now (Forgets c s key (.failure token now))
          (s.bucket key) ((s.ended token lease now).bucket key) := moves_ended token lease key
      -- a failure is recorded for the two keys of its lease only
      by_cases hkey : key ∈ lease.keys
      · rcases bucket_ended h hlease hkey now with ⟨b, hb, hroom⟩
        have hlength := length_prepareBucket c now b
        rw [hb] at hended
        exact ⟨some (prepareBucket c now b), hended.tail (.prepare b), .inr ⟨⟨lease, hlease, hkey⟩,
          _, rfl, by omega, bucket_failed hkey hb⟩⟩
      · refine ⟨_, hended, .inl ⟨?_, bucket_failed_of_notMem hkey⟩⟩
        rintro ⟨lease', hlease', hkey'⟩
        obtain rfl : lease = lease' := Option.some.inj (hlease.symm.trans hlease')
        exact hkey hkey'

end

/-! ### A lock -/

def Full (limits : Limits) (o : Option Bucket) : Prop :=
  ∀ b, o = some b → b.blockedUntil ≠ 0 → limits.maxFailures ≤ b.failures.length

/-- The bucket is full and locked until `t`. -/
def FullUntil (limits : Limits) (t : ℚ) (o : Option Bucket) : Prop :=
  ∃ b, o = some b ∧ b.blockedUntil = t ∧ limits.maxFailures ≤ b.failures.length

section

variable {c : Settings} {limits : Limits} {now t : ℚ} {forgets : Prop} {o o' : Option Bucket}
  {b : Bucket}

theorem prepareBucket_locked (hlocked : b.blockedUntil ≠ 0) (hnow : now < b.blockedUntil) :
    prepareBucket c now b = b := by
  simp only [prepareBucket]
  rw [if_pos ⟨hlocked, hnow⟩]

theorem prepareBucket_over (hlocked : b.blockedUntil ≠ 0) (hnow : b.blockedUntil ≤ now) :
    prepareBucket c now b = { b with blockedUntil := 0, failures := [] } := by
  simp only [prepareBucket]
  rw [if_neg (by simp [hnow])]
  simp [hlocked]

theorem prepareBucket_unlocked (hunlocked : b.blockedUntil = 0) :
    prepareBucket c now b = { b with
      failures := b.failures.dropWhile fun failure => failure ≤ now - c.windowSeconds } := by
  simp only [prepareBucket]
  rw [if_neg (by simp [hunlocked])]
  simp [hunlocked]

theorem Full.move (h : Full limits o) (hmove : Move c limits now forgets o o') :
    Full limits o' := by
  cases hmove with
  | prepare b =>
    rintro _ ⟨⟩ hlocked
    by_cases hzero : b.blockedUntil = 0
    · rw [prepareBucket_unlocked hzero] at hlocked
      exact absurd hzero hlocked
    · by_cases hnow : now < b.blockedUntil
      · rw [prepareBucket_locked hzero hnow]
        exact h b rfl hzero
      · rw [prepareBucket_over hzero (not_lt.mp hnow)] at hlocked
        exact absurd rfl hlocked
  | count b inFlight lastSeen =>
    rintro _ ⟨⟩ hlocked
    exact h b rfl hlocked
  | create =>
    rintro _ ⟨⟩ hlocked
    exact absurd rfl hlocked
  | drop b hempty => nofun
  | evict b hforgets hunlocked => nofun
  | clear b hforgets hroom =>
    rintro _ ⟨⟩ hlocked
    exact absurd rfl hlocked

theorem Full.fail (hlength : b.blockedUntil ≠ 0 → limits.maxFailures ≤ b.failures.length) :
    Full limits (some (b.fail limits now)) := by
  rintro _ ⟨⟩ hlocked
  rw [failures_fail, List.length_append, List.length_singleton]
  unfold Bucket.fail at hlocked
  simp only at hlocked
  split at hlocked
  · rename_i hfull
    simpa using hfull
  · have hbefore := hlength hlocked
    omega

theorem FullUntil.move (h : FullUntil limits t o) (ht : t ≠ 0) (hnow : now < t)
    (hmove : Move c limits now forgets o o') : FullUntil limits t o' := by
  rcases h with ⟨b, rfl, rfl, hfull⟩
  cases hmove with
  | prepare =>
    rw [prepareBucket_locked ht hnow]
    exact ⟨b, rfl, rfl, hfull⟩
  | count => exact ⟨_, rfl, rfl, hfull⟩
  | drop _ hempty =>
    simp only [Bucket.isEmpty, Bool.and_eq_true, beq_iff_eq] at hempty
    exact absurd hempty.1.2 ht
  | evict _ hforgets hunlocked => exact absurd hnow (not_lt.mpr hunlocked)
  | clear _ hforgets hroom => omega

theorem FullUntil.moves (h : FullUntil limits t o) (ht : t ≠ 0) (hnow : now < t)
    (hmoves : Moves c limits now forgets o o') : FullUntil limits t o' := by
  induction hmoves with
  | refl => exact h
  | tail _ hmove ih => exact ih.move ht hnow hmove

end

section

variable {c : Settings} {s s' : Limiter} {key : Key} {call : Call} {t : ℚ}

theorem Full.step (hs : Sound c s) (h : Full (c.limits key) (s.bucket key))
    (hstep : step c s call = some s') : Full (c.limits key) (s'.bucket key) := by
  rcases step_moves hs key hstep with ⟨o, hmoves, hend⟩
  have ho : Full (c.limits key) o := by
    clear hend
    induction hmoves with
    | refl => exact h
    | tail _ hmove ih => exact ih.move hmove
  rcases hend with ⟨-, hbucket⟩ | ⟨-, b, rfl, -, hbucket⟩
  · rwa [hbucket]
  · rw [hbucket]
    exact Full.fail (ho b rfl)

theorem FullUntil.step (hs : Sound c s) (ht : t ≠ 0) (hnow : call.now < t)
    (h : FullUntil (c.limits key) t (s.bucket key)) (hstep : step c s call = some s') :
    FullUntil (c.limits key) t (s'.bucket key) := by
  rcases step_moves hs key hstep with ⟨o, hmoves, hend⟩
  have ho := h.moves ht hnow hmoves
  rcases hend with ⟨-, hbucket⟩ | ⟨-, b, rfl, hroom, -⟩
  · rwa [hbucket]
  · rcases ho with ⟨b', hb', -, hfull⟩
    cases hb'
    omega

theorem refuses_of_fullUntil {κ : Type} [LinearOrder κ] {limits : Limits} {key : κ} {now : ℚ}
    {buckets : Dict κ Bucket} (h : FullUntil limits t (buckets.lookup key)) (ht : t ≠ 0)
    (hnow : now < t) :
    refuses key limits now
      (alter key (fun b => (prepareBucket c now b).touch now) buckets) = true := by
  rcases h with ⟨b, hb, rfl, -⟩
  simp only [refuses]
  rw [lookup_alter_self, hb]
  simp [prepareBucket_locked ht hnow, Bucket.refuses, Bucket.touch, hnow]

theorem getOrCreate_of_lookup {κ : Type} [LinearOrder κ] {key : κ} {limit : ℕ} {now : ℚ}
    {buckets buckets' : Dict κ Bucket} {b : Bucket} (hb : buckets.lookup key = some b)
    (h : getOrCreate key limit now buckets = some buckets') : buckets' = buckets := by
  simp only [getOrCreate] at h
  rw [hb] at h
  exact (Option.some.inj h).symm

theorem attempt_refused {pair : PairKey} {ip : String} {now : ℚ}
    (h : (refuses pair c.pair now
        (alter pair (fun b => (prepareBucket c now b).touch now) s.pairBuckets) ||
      refuses ip c.ip now
        (alter ip (fun b => (prepareBucket c now b).touch now) s.ipBuckets)) = true) :
    ∃ s', attempt c pair ip now s = (s', none) := by
  unfold attempt
  simp only
  rw [if_pos h]
  exact ⟨_, rfl⟩

theorem begin_refused {clientIp username : String} {now : ℚ} (hs : Sound c s)
    (h : FullUntil (c.limits key) t (s.bucket key)) (ht : t ≠ 0) (hnow : now < t)
    (hkey : key = .pair (pairKey c clientIp username) ∨ key = .ip (normalizeIp c clientIp)) :
    ∃ s', begin c clientIp username now s = some (s', none) := by
  have hcleaned : ∃ s₁, cleanupIfDue c now s = some s₁ ∧ Sound c s₁ ∧
      Moves c (c.limits key) now False (s.bucket key) (s₁.bucket key) := moves_cleanupIfDue hs key
  rcases hcleaned with ⟨s₁, hcleanup, -, hmoves⟩
  have hlocked := h.moves ht hnow hmoves
  rcases begin_cases hcleanup clientIp username with ⟨pairBuckets, ipBuckets, hpair, hip, hattempt⟩ |
    hrefused
  · rcases id hlocked with ⟨b, hb, -, -⟩
    have hrefused : ∃ s', attempt c (pairKey c clientIp username) (normalizeIp c clientIp) now
        { s₁ with pairBuckets, ipBuckets } = (s', none) := by
      apply attempt_refused
      rcases hkey with rfl | rfl
      · obtain rfl := getOrCreate_of_lookup hb hpair
        rw [Bool.or_eq_true]
        exact .inl (refuses_of_fullUntil hlocked ht hnow)
      · obtain rfl := getOrCreate_of_lookup hb hip
        rw [Bool.or_eq_true]
        exact .inr (refuses_of_fullUntil hlocked ht hnow)
    rcases hrefused with ⟨s', hs'⟩
    rw [hs'] at hattempt
    exact ⟨s', hattempt⟩
  · exact ⟨_, hrefused⟩

end

/-! ### The window -/

def remembered (o : Option Bucket) : List ℚ := o.elim [] (·.failures)

/-- The failures in the half-open interval that starts at `a`. -/
def inSpan (a span : ℚ) (failures : List ℚ) : List ℚ :=
  failures.filter fun t => a ≤ t ∧ t < a + span

def Settings.span (c : Settings) (limits : Limits) : ℚ := min c.windowSeconds limits.lockSeconds

/-- Of the failures recorded so far, the bucket remembers all but those that are as old
as the span. -/
structure Remembers (c : Settings) (limits : Limits) (now : ℚ) (history : List ℚ)
    (o : Option Bucket) : Prop where
  old : ∃ old, history = old ++ remembered o ∧ ∀ t ∈ old, t + c.span limits ≤ now
  past : ∀ t ∈ remembered o, t ≤ now
  locked : ∀ b, o = some b → b.blockedUntil ≠ 0 →
    ∀ t ∈ b.failures, t + limits.lockSeconds ≤ b.blockedUntil
  full : Full limits o
  bound : ∀ a, (inSpan a (c.span limits) history).length ≤ limits.maxFailures

section

variable {c : Settings} {limits : Limits} {now now' : ℚ} {forgets : Prop} {history : List ℚ}
  {o o' : Option Bucket} {b : Bucket}

theorem inSpan_append (a span : ℚ) (l l' : List ℚ) :
    inSpan a span (l ++ l') = inSpan a span l ++ inSpan a span l' :=
  List.filter_append ..

theorem inSpan_eq_nil {a span : ℚ} {l : List ℚ} (h : ∀ t ∈ l, a ≤ t → ¬ t < a + span) :
    inSpan a span l = [] := by
  rw [inSpan, List.filter_eq_nil_iff]
  intro t ht hin
  rw [decide_eq_true_eq] at hin
  exact h t ht hin.1 hin.2

theorem length_inSpan_le (a span : ℚ) (l : List ℚ) : (inSpan a span l).length ≤ l.length :=
  List.length_filter_le ..

theorem span_le_window (c : Settings) (limits : Limits) : c.span limits ≤ c.windowSeconds :=
  min_le_left _ _

theorem span_le_lock (c : Settings) (limits : Limits) : c.span limits ≤ limits.lockSeconds :=
  min_le_right _ _

theorem Remembers.mono (h : Remembers c limits now history o) (hnow : now ≤ now') :
    Remembers c limits now' history o := by
  rcases h.old with ⟨old, hhistory, hold⟩
  refine ⟨⟨old, hhistory, ?_⟩, ?_, h.locked, h.full, h.bound⟩
  · intro t ht
    exact le_trans (hold t ht) hnow
  · intro t ht
    exact le_trans (h.past t ht) hnow

theorem Remembers.forget {g : List ℚ} (h : Remembers c limits now history o)
    (hfailures : remembered o = g ++ remembered o')
    (hgone : ∀ t ∈ g, t + c.span limits ≤ now) (hfull : Full limits o')
    (hlocked : ∀ b, o' = some b → b.blockedUntil ≠ 0 →
      ∀ t ∈ b.failures, t + limits.lockSeconds ≤ b.blockedUntil) :
    Remembers c limits now history o' := by
  rcases h.old with ⟨old, hhistory, hold⟩
  refine ⟨⟨old ++ g, ?_, ?_⟩, ?_, hlocked, hfull, h.bound⟩
  · rw [hhistory, hfailures, List.append_assoc]
  · intro t ht
    rcases List.mem_append.mp ht with ht | ht
    · exact hold t ht
    · exact hgone t ht
  · intro t ht
    apply h.past t
    rw [hfailures]
    exact List.mem_append_right _ ht

theorem Remembers.prepare (h : Remembers c limits now history (some b)) :
    Remembers c limits now history (some (prepareBucket c now b)) := by
  have hmove : Move c limits now False (some b) (some (prepareBucket c now b)) := .prepare b
  have hfull := h.full.move hmove
  by_cases hzero : b.blockedUntil = 0
  · rw [prepareBucket_unlocked hzero] at hfull ⊢
    apply h.forget (g := b.failures.takeWhile fun failure => failure ≤ now - c.windowSeconds)
    · exact (List.takeWhile_append_dropWhile ..).symm
    · intro t ht
      have hcutoff := List.mem_takeWhile_imp ht
      have hspan := span_le_window c limits
      simp only [decide_eq_true_eq] at hcutoff
      linarith
    · exact hfull
    · rintro _ ⟨⟩ hlocked
      exact absurd hzero hlocked
  · by_cases hnow : now < b.blockedUntil
    · rwa [prepareBucket_locked hzero hnow]
    · rw [prepareBucket_over hzero (not_lt.mp hnow)] at hfull ⊢
      apply h.forget (g := b.failures)
      · simp [remembered]
      · intro t ht
        have hlock := h.locked b rfl hzero t ht
        have hspan := span_le_lock c limits
        linarith
      · exact hfull
      · rintro _ ⟨⟩ hlocked
        exact absurd rfl hlocked

theorem Remembers.move (h : Remembers c limits now history o) (hforgets : ¬ forgets)
    (hmove : Move c limits now forgets o o') : Remembers c limits now history o' := by
  have hfull := h.full.move hmove
  cases hmove with
  | prepare b => exact h.prepare
  | count b inFlight lastSeen =>
    apply h.forget (g := [])
    · rfl
    · simp
    · exact hfull
    · rintro _ ⟨⟩
      exact h.locked b rfl
  | create =>
    apply h.forget (g := [])
    · rfl
    · simp
    · exact hfull
    · rintro _ ⟨⟩ hlocked
      exact absurd rfl hlocked
  | drop b hempty =>
    simp only [Bucket.isEmpty, Bool.and_eq_true, List.isEmpty_iff] at hempty
    apply h.forget (g := [])
    · simp [remembered, hempty.1.1]
    · simp
    · exact hfull
    · simp
  | evict b h' => exact absurd h' hforgets
  | clear b h' => exact absurd h' hforgets

theorem Remembers.moves (h : Remembers c limits now history o) (hforgets : ¬ forgets)
    (hmoves : Moves c limits now forgets o o') : Remembers c limits now history o' := by
  induction hmoves with
  | refl => exact h
  | tail _ hmove ih => exact ih.move hforgets hmove

theorem Remembers.fail (h : Remembers c limits now history (some b))
    (hroom : b.failures.length < limits.maxFailures) :
    Remembers c limits now (history ++ [now]) (some (b.fail limits now)) := by
  -- there was room, so that the bucket is not locked
  have hunlocked : b.blockedUntil = 0 := by
    by_contra hlocked
    have hfull := h.full b rfl hlocked
    omega
  rcases h.old with ⟨old, hhistory, hold⟩
  have hremembered : remembered (some (b.fail limits now)) = b.failures ++ [now] :=
    failures_fail limits now b
  have hpast : ∀ t ∈ b.failures ++ [now], t ≤ now := by
    intro t ht
    rcases List.mem_append.mp ht with ht | ht
    · exact h.past t ht
    · rw [List.mem_singleton.mp ht]
  refine ⟨⟨old, ?_, hold⟩, ?_, ?_, ?_, ?_⟩
  · rw [hremembered, hhistory, List.append_assoc]
    rfl
  · rw [hremembered]
    exact hpast
  · rintro _ ⟨⟩ hlocked t ht
    rw [failures_fail] at ht
    have htime := hpast t ht
    unfold Bucket.fail at hlocked ⊢
    simp only at hlocked ⊢
    split at hlocked
    · rename_i hfull
      rw [if_pos hfull]
      have hlock := le_max_right b.blockedUntil (now + limits.lockSeconds)
      simp only
      linarith
    · exact absurd hunlocked hlocked
  · exact Full.fail fun hlocked => absurd hunlocked hlocked
  · intro a
    by_cases hspan : a ≤ now ∧ now < a + c.span limits
    · -- the failures of this interval are all in the bucket
      have hforgotten : inSpan a (c.span limits) old = [] := by
        apply inSpan_eq_nil
        intro t ht hstart
        have hage := hold t ht
        linarith
      have hlength := length_inSpan_le a (c.span limits) (remembered (some b) ++ [now])
      have hremains : (remembered (some b)).length < limits.maxFailures := hroom
      rw [hhistory, List.append_assoc, inSpan_append, hforgotten, List.nil_append]
      rw [List.length_append, List.length_singleton] at hlength
      omega
    -- an interval without this failure has those it had
    · have hnow : inSpan a (c.span limits) [now] = [] := by
        apply inSpan_eq_nil
        intro t ht hstart hend
        rw [List.mem_singleton.mp ht] at hstart hend
        exact hspan ⟨hstart, hend⟩
      rw [inSpan_append, hnow, List.append_nil]
      exact h.bound a

end

/-! ### Whole runs -/

section

variable {c : Settings} {key : Key}

theorem remembers_initial (c : Settings) (limits : Limits) (now : ℚ) :
    Remembers c limits now [] none := by
  refine ⟨⟨[], rfl, nofun⟩, nofun, nofun, nofun, ?_⟩
  intro a
  exact Nat.zero_le _

theorem Remembers.step {s s' : Limiter} {now : ℚ} {history : List ℚ} {call : Call}
    (hs : Sound c s) (h : Remembers c (c.limits key) now history (s.bucket key))
    (hclock : now ≤ call.now) (hforgets : ¬ Forgets c s key call)
    (hstep : step c s call = some s') :
    Remembers c (c.limits key) call.now
      (history ++ if Records s key call then [call.now] else []) (s'.bucket key) := by
  rcases step_moves hs key hstep with ⟨o, hmoves, hend⟩
  have ho := (h.mono hclock).moves hforgets hmoves
  rcases hend with ⟨hquiet, hbucket⟩ | ⟨hrecords, b, rfl, hroom, hbucket⟩
  · rw [if_neg hquiet, List.append_nil, hbucket]
    exact ho
  · rw [if_pos hrecords, hbucket]
    exact ho.fail hroom

theorem bound_recorded {calls : List Call} {s : Limiter} {now : ℚ} {history : List ℚ}
    (hs : Sound c s) (h : Remembers c (c.limits key) now history (s.bucket key))
    (hclock : (now :: calls.map Call.now).Pairwise (· ≤ ·))
    (hundisturbed : Along (next c) (fun s call => ∀ s' ∈ s, ¬ Forgets c s' key call) (some s) calls)
    (a : ℚ) :
    (inSpan a (c.span (c.limits key)) (history ++ recorded c key (some s) calls)).length ≤
      (c.limits key).maxFailures := by
  induction calls generalizing s now history with
  | nil =>
    rw [recorded, List.append_nil]
    exact h.bound a
  | cons call calls ih =>
    rcases hundisturbed with ⟨hforgets, hrest⟩
    rcases hs.step call with ⟨s', hstep, hs'⟩
    have hnext : next c (some s) call = some s' := hstep
    rw [hnext] at hrest
    rw [List.map_cons, List.pairwise_cons] at hclock
    have hkept := h.step hs (hclock.1 call.now (by simp)) (hforgets s rfl) hstep
    rw [recorded, hstep, ← List.append_assoc]
    exact ih hs' hkept hclock.2 hrest

theorem run_full (c : Settings) (key : Key) (calls : List Call) :
    ∃ s, run (next c) (some {}) calls = some s ∧ Sound c s ∧
      Full (c.limits key) (s.bucket key) := by
  apply run_induction
    (P := fun o : Option Limiter => ∃ s, o = some s ∧ Sound c s ∧ Full (c.limits key) (s.bucket key))
    (Q := fun _ _ => True)
  · rintro _ call ⟨s, rfl, hs, hfull⟩ -
    rcases hs.step call with ⟨s', hstep, hs'⟩
    exact ⟨s', hstep, hs', Full.step hs hfull hstep⟩
  · refine ⟨{}, rfl, initial_sound c, ?_⟩
    cases key <;> nofun
  · apply Along.of_forall
    intros
    trivial

theorem run_fullUntil {s : Limiter} {t : ℚ} {calls : List Call} (hs : Sound c s)
    (h : FullUntil (c.limits key) t (s.bucket key)) (ht : t ≠ 0)
    (hclock : ∀ call ∈ calls, call.now < t) :
    ∃ s', run (next c) (some s) calls = some s' ∧ Sound c s' ∧
      FullUntil (c.limits key) t (s'.bucket key) := by
  induction calls generalizing s with
  | nil => exact ⟨s, rfl, hs, h⟩
  | cons call calls ih =>
    rcases hs.step call with ⟨s', hstep, hs'⟩
    have hnext : next c (some s) call = some s' := hstep
    rw [run_cons, hnext]
    apply ih hs' (FullUntil.step hs ht (hclock call (by simp)) h hstep)
    intro call' hcall'
    exact hclock call' (by simp [hcall'])

end

/-- With a clock that never goes back, a key that is neither evicted nor cleared by a
success has at most its maximum of failures in every span, and a locked key is refused
until its time. -/
theorem brute_force_bound (c : Settings) (key : Key) (calls : List Call)
    (hclock : (calls.map Call.now).Pairwise (· ≤ ·)) :
    (Undisturbed c key calls → ∀ a,
      (inSpan a (min c.windowSeconds (c.limits key).lockSeconds)
        (recorded c key (some {}) calls)).length ≤ (c.limits key).maxFailures) ∧
    ∀ earlier later clientIp username now s t,
      calls = earlier ++ later ++ [.begin clientIp username now] →
      run (next c) (some {}) earlier = some s → s.LockedUntil key t → now < t →
      key = .pair (pairKey c clientIp username) ∨ key = .ip (normalizeIp c clientIp) →
      ∃ s' s'', run (next c) (some s) later = some s' ∧
        begin c clientIp username now s' = some (s'', none) := by
  constructor
  · intro hundisturbed a
    cases calls with
    | nil => exact Nat.zero_le _
    | cons call calls =>
      have hinitial : Remembers c (c.limits key) call.now [] (Limiter.bucket {} key) := by
        cases key <;> exact remembers_initial c _ _
      apply bound_recorded (initial_sound c) hinitial _ hundisturbed a
      rw [List.pairwise_cons]
      refine ⟨?_, hclock⟩
      intro now hnow
      rw [List.map_cons, List.mem_cons] at hnow
      rcases hnow with rfl | hnow
      · exact le_refl _
      · rw [List.map_cons, List.pairwise_cons] at hclock
        exact hclock.1 now hnow
  · rintro earlier later clientIp username now s t rfl hrun ⟨b, hb, rfl, ht⟩ hnow hkey
    rcases run_full c key earlier with ⟨s₀, hs₀, hsound, hfull⟩
    obtain rfl : s₀ = s := Option.some.inj (hs₀.symm.trans hrun)
    have hlater : ∀ call ∈ later, call.now < b.blockedUntil := by
      intro call hcall
      rw [List.map_append, List.pairwise_append] at hclock
      have hle := hclock.2.2 call.now (List.mem_map_of_mem (List.mem_append_right _ hcall)) now
        (by simp [Call.now])
      exact lt_of_le_of_lt hle hnow
    obtain ⟨s', hrun', hsound', hlocked⟩ :=
      run_fullUntil hsound ⟨b, hb, rfl, hfull b hb ht⟩ ht hlater
    rcases begin_refused hsound' hlocked ht hnow hkey with ⟨s'', hbegin⟩
    exact ⟨s', s'', hrun', hbegin⟩

/-- The constructor's own values, for texts that are already normalised. -/
def defaults : Settings where
  pair := ⟨5, 300, 4096, by decide, by decide +kernel, by decide⟩
  ip := ⟨20, 600, 1024, by decide, by decide +kernel, by decide⟩
  windowSeconds := 600
  leaseTimeoutSeconds := 120
  cleanupIntervalSeconds := 30
  windowSeconds_pos := by decide +kernel
  leaseTimeoutSeconds_pos := by decide +kernel
  cleanupIntervalSeconds_nonneg := by decide +kernel
  strip := id
  casefold := id
  ipAddress := some

def fiveFailures : List Call :=
  (List.range 5).flatMap fun i =>
    [.begin "192.0.2.10" "jeremy" (1000 + i : ℕ), .failure (i + 1) (1000 + i : ℕ)]

def jeremy : Key := .pair (pairKey defaults "192.0.2.10" "jeremy")

theorem brute_force_bound_sample :
    (inSpan 1000 300 (recorded defaults jeremy (some {})
      (fiveFailures ++ [] ++ [.begin "192.0.2.10" "jeremy" 1200]))).length ≤ 5 ∧
    ∃ s' s'', run (next defaults) (run (next defaults) (some {}) fiveFailures) [] = some s' ∧
      begin defaults "192.0.2.10" "jeremy" 1200 s' = some (s'', none) := by
  obtain ⟨hbound, hlock⟩ := brute_force_bound defaults jeremy
    (fiveFailures ++ [] ++ [.begin "192.0.2.10" "jeremy" 1200]) (by decide +kernel)
  have hspan : min defaults.windowSeconds (defaults.limits jeremy).lockSeconds = 300 := by
    decide +kernel
  constructor
  · have hsample := hbound (by decide +kernel) 1000
    rwa [hspan] at hsample
  · cases hrun : run (next defaults) (some {}) fiveFailures with
    | none => exact absurd hrun (by decide +kernel)
    | some s =>
      have hlocked : ∀ s ∈ run (next defaults) (some {}) fiveFailures,
          s.LockedUntil jeremy 1304 := by decide +kernel
      exact hlock fiveFailures [] "192.0.2.10" "jeremy" 1200 s 1304 rfl hrun (hlocked s hrun)
        (by decide +kernel) (.inl rfl)

end LoginAttemptLimiter
