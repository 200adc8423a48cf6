import Mathlib.Algebra.Order.Ring.Rat
import Mathlib.Data.Prod.Lex
import Mathlib.Data.String.Basic
import McAdmin.Dict
import McAdmin.Runs

/-!
# The limiter of the login attempts

Two tables of buckets, one for each client and user name and one for each client,
and the leases of the password checks in progress.  A call holds the lock from
its first access to its last, so that it is one step.  `none` is a `KeyError`.
-/

namespace LoginAttemptLimiter

/-! ### The data -/

structure Bucket where
  failures : List ℚ := []
  blockedUntil : ℚ := 0
  lastSeen : ℚ := 0
  inFlight : ℕ := 0
deriving DecidableEq

structure Limits where
  maxFailures : ℕ
  lockSeconds : ℚ
  maxKeys : ℕ
  maxFailures_pos : 0 < maxFailures
  lockSeconds_pos : 0 < lockSeconds
  maxKeys_pos : 0 < maxKeys

/-- What a limiter is built with: the constructor refuses other values. -/
structure Settings where
  pair : Limits
  ip : Limits
  windowSeconds : ℚ
  leaseTimeoutSeconds : ℚ
  cleanupIntervalSeconds : ℚ
  windowSeconds_pos : 0 < windowSeconds
  leaseTimeoutSeconds_pos : 0 < leaseTimeoutSeconds
  cleanupIntervalSeconds_nonneg : 0 ≤ cleanupIntervalSeconds
  strip : String → String
  casefold : String → String
  /-- `str(ipaddress.ip_address(value))`, or `none` when it raises. -/
  ipAddress : String → Option String

abbrev PairKey := String ×ₗ String

structure Lease where
  pairKey : PairKey
  ipKey : String
  startedAt : ℚ

structure Limiter where
  pairBuckets : Dict PairKey Bucket := ∅
  ipBuckets : Dict String Bucket := ∅
  leases : Dict ℕ Lease := ∅
  nextToken : ℕ := 1
  lastCleanup : ℚ := 0

def maxUsernameKeyLength : ℕ := 128

def normalizeIp (c : Settings) (value : String) : String :=
  let value := if c.strip value = "" then "unknown" else c.strip value
  (c.ipAddress value).getD (c.casefold value)

def normalizeUsername (c : Settings) (value : String) : String :=
  String.ofList ((c.casefold (c.strip value)).toList.take maxUsernameKeyLength)

def pairKey (c : Settings) (clientIp username : String) : PairKey :=
  toLex (normalizeIp c clientIp, normalizeUsername c username)

/-! ### The buckets -/

section

variable {κ : Type} [LinearOrder κ]

def alter (key : κ) (f : Bucket → Bucket) (buckets : Dict κ Bucket) : Dict κ Bucket :=
  match buckets.lookup key with
  | none => buckets
  | some bucket => Dict.set buckets key (f bucket)

def Bucket.isEmpty (b : Bucket) : Bool :=
  b.failures.isEmpty && b.blockedUntil == 0 && b.inFlight == 0

def dropEmptyBucket (key : κ) (buckets : Dict κ Bucket) : Dict κ Bucket :=
  match buckets.lookup key with
  | none => buckets
  | some bucket => if bucket.isEmpty then buckets.erase key else buckets

def prepareBucket (c : Settings) (now : ℚ) (b : Bucket) : Bucket :=
  if b.blockedUntil ≠ 0 ∧ now < b.blockedUntil then b
  else
    let b := if b.blockedUntil ≠ 0 then { b with blockedUntil := 0, failures := [] } else b
    { b with failures := b.failures.dropWhile fun failure => failure ≤ now - c.windowSeconds }

def oldestKey (now : ℚ) (buckets : Dict κ Bucket) : Option κ :=
  let candidates : List (Bool ×ₗ ℚ ×ₗ κ) := buckets.entries.filterMap fun entry =>
    if entry.2.inFlight = 0 ∧ entry.2.blockedUntil ≤ now then
      some (toLex (!entry.2.failures.isEmpty, toLex (entry.2.lastSeen, entry.1)))
    else none
  candidates.min?.map fun candidate => (ofLex (ofLex candidate).2).2

def makeRoom (limit : ℕ) (now : ℚ) (buckets : Dict κ Bucket) : Option (Dict κ Bucket) :=
  if limit ≤ buckets.entries.length then
    (oldestKey now buckets).map fun key => buckets.erase key
  else some buckets

/-- The table in which the key has a bucket, `none` when there is no room for it. -/
def getOrCreate (key : κ) (limit : ℕ) (now : ℚ) (buckets : Dict κ Bucket) :
    Option (Dict κ Bucket) :=
  match buckets.lookup key with
  | some _ => some buckets
  | none => (makeRoom limit now buckets).map fun buckets =>
      Dict.set buckets key { lastSeen := now }

def Bucket.touch (now : ℚ) (b : Bucket) : Bucket := { b with lastSeen := now }

def Bucket.reserve (b : Bucket) : Bucket := { b with inFlight := b.inFlight + 1 }

def Bucket.release (now : ℚ) (b : Bucket) : Bucket :=
  { b with inFlight := b.inFlight - 1, lastSeen := now }

def Bucket.clear (b : Bucket) : Bucket := { b with failures := [], blockedUntil := 0 }

def Bucket.fail (limits : Limits) (now : ℚ) (b : Bucket) : Bucket :=
  let b := { b with failures := b.failures ++ [now] }
  if limits.maxFailures ≤ b.failures.length then
    { b with blockedUntil := max b.blockedUntil (now + limits.lockSeconds) }
  else b

def Bucket.refuses (limits : Limits) (now : ℚ) (b : Bucket) : Bool :=
  now < b.blockedUntil || limits.maxFailures ≤ b.failures.length + b.inFlight

def refuses (key : κ) (limits : Limits) (now : ℚ) (buckets : Dict κ Bucket) : Bool :=
  (buckets.lookup key).any (·.refuses limits now)

def tidy (c : Settings) (now : ℚ) (buckets : Dict κ Bucket) : Dict κ Bucket :=
  buckets.keys.foldl
    (fun buckets key => dropEmptyBucket key (alter key (prepareBucket c now) buckets)) buckets

end

/-! ### The calls -/

/-- Both buckets of the lease are looked up before either changes. -/
def releaseLease (lease : Lease) (now : ℚ) (s : Limiter) : Option Limiter := do
  let _ ← s.pairBuckets.lookup lease.pairKey
  let _ ← s.ipBuckets.lookup lease.ipKey
  return { s with
    pairBuckets := alter lease.pairKey (.release now) s.pairBuckets
    ipBuckets := alter lease.ipKey (.release now) s.ipBuckets }

/-- `self._leases.pop(token)` and the release of the lease. -/
def endLease (now : ℚ) (s : Limiter) (token : ℕ) : Option Limiter := do
  let lease ← s.leases.lookup token
  releaseLease lease now { s with leases := s.leases.erase token }

def staleTokens (c : Settings) (now : ℚ) (s : Limiter) : List ℕ :=
  s.leases.entries.filterMap fun entry =>
    if c.leaseTimeoutSeconds ≤ now - entry.2.startedAt then some entry.1 else none

def cleanup (c : Settings) (now : ℚ) (s : Limiter) : Option Limiter := do
  let s ← (staleTokens c now s).foldlM (endLease now) { s with lastCleanup := now }
  return { s with
    pairBuckets := tidy c now s.pairBuckets
    ipBuckets := tidy c now s.ipBuckets }

def cleanupIfDue (c : Settings) (now : ℚ) (s : Limiter) : Option Limiter :=
  if now - s.lastCleanup < c.cleanupIntervalSeconds then some s else cleanup c now s

def dropEmpty (pair : PairKey) (ip : String) (s : Limiter) : Limiter :=
  { s with
    pairBuckets := dropEmptyBucket pair s.pairBuckets
    ipBuckets := dropEmptyBucket ip s.ipBuckets }

def attempt (c : Settings) (pair : PairKey) (ip : String) (now : ℚ) (s : Limiter) :
    Limiter × Option ℕ :=
  let s := { s with
    pairBuckets := alter pair (fun b => (prepareBucket c now b).touch now) s.pairBuckets
    ipBuckets := alter ip (fun b => (prepareBucket c now b).touch now) s.ipBuckets }
  if refuses pair c.pair now s.pairBuckets || refuses ip c.ip now s.ipBuckets then
    (dropEmpty pair ip s, none)
  else
    ({ s with
      pairBuckets := alter pair .reserve s.pairBuckets
      ipBuckets := alter ip .reserve s.ipBuckets
      leases := Dict.set s.leases s.nextToken ⟨pair, ip, now⟩
      nextToken := s.nextToken + 1 }, some s.nextToken)

/-- The token of the attempt, or `none` when it is refused. -/
def begin (c : Settings) (clientIp username : String) (now : ℚ) (s : Limiter) :
    Option (Limiter × Option ℕ) := do
  let ip := normalizeIp c clientIp
  let pair := pairKey c clientIp username
  let s ← cleanupIfDue c now s
  match getOrCreate pair c.pair.maxKeys now s.pairBuckets,
      getOrCreate ip c.ip.maxKeys now s.ipBuckets with
  | some pairBuckets, some ipBuckets =>
    return attempt c pair ip now { s with pairBuckets, ipBuckets }
  | pairBuckets, ipBuckets =>
    return (dropEmpty pair ip { s with
      pairBuckets := pairBuckets.getD s.pairBuckets
      ipBuckets := ipBuckets.getD s.ipBuckets }, none)

def failure (c : Settings) (token : ℕ) (now : ℚ) (s : Limiter) : Option Limiter :=
  match s.leases.lookup token with
  | none => some s
  | some lease => do
    let s ← endLease now s token
    return { s with
      pairBuckets := alter lease.pairKey (fun b => (prepareBucket c now b).fail c.pair now)
        s.pairBuckets
      ipBuckets := alter lease.ipKey (fun b => (prepareBucket c now b).fail c.ip now)
        s.ipBuckets }

def success (c : Settings) (token : ℕ) (now : ℚ) (s : Limiter) : Option Limiter :=
  match s.leases.lookup token with
  | none => some s
  | some lease => do
    let s ← endLease now s token
    return dropEmpty lease.pairKey lease.ipKey { s with
      pairBuckets := alter lease.pairKey .clear s.pairBuckets
      ipBuckets := alter lease.ipKey (prepareBucket c now) s.ipBuckets }

def cancel (token : ℕ) (now : ℚ) (s : Limiter) : Option Limiter :=
  match s.leases.lookup token with
  | none => some s
  | some lease => do
    let s ← endLease now s token
    return dropEmpty lease.pairKey lease.ipKey s

inductive Call where
  | begin (clientIp username : String) (now : ℚ)
  | failure (token : ℕ) (now : ℚ)
  | success (token : ℕ) (now : ℚ)
  | cancel (token : ℕ) (now : ℚ)
  | cleanup (now : ℚ)

def step (c : Settings) (s : Limiter) : Call → Option Limiter
  | .begin clientIp username now => (begin c clientIp username now s).map (·.1)
  | .failure token now => failure c token now s
  | .success token now => success c token now s
  | .cancel token now => cancel token now s
  | .cleanup now => cleanupIfDue c now s

/-- A call after a `KeyError` is not made. -/
def next (c : Settings) (s : Option Limiter) (call : Call) : Option Limiter :=
  s.bind fun s => step c s call

/-! ### The keys of both tables -/

inductive Key where
  | pair (key : PairKey)
  | ip (key : String)
deriving DecidableEq

def Limiter.bucket (s : Limiter) : Key → Option Bucket
  | .pair key => s.pairBuckets.lookup key
  | .ip key => s.ipBuckets.lookup key

def Settings.limits (c : Settings) : Key → Limits
  | .pair _ => c.pair
  | .ip _ => c.ip

def Lease.keys (lease : Lease) : List Key := [.pair lease.pairKey, .ip lease.ipKey]

def held (s : Limiter) (key : Key) : ℕ := Dict.count (fun lease => key ∈ lease.keys) s.leases

end LoginAttemptLimiter
