import McAdmin.LoginSecurity

/-!
# The leases and the buckets of the limiter

One table is described by its bound and by the number of leases owed to each of
its keys.  Each operation on buckets keeps the description or moves it by one
lease, and the two tables then follow from the leases in every call.
-/

namespace LoginAttemptLimiter

/-! ### One table -/

section

variable {κ : Type} [LinearOrder κ] {limits : Limits} {owed owed' : κ → ℕ}
  {buckets buckets' : Dict κ Bucket} {key : κ} {now : ℚ} {c : Settings}

theorem lookup_alter (key : κ) (f : Bucket → Bucket) (buckets : Dict κ Bucket) (k : κ) :
    (alter key f buckets).lookup k =
      if k = key then (buckets.lookup key).map f else buckets.lookup k := by
  simp only [alter]
  cases hkey : buckets.lookup key with
  | none =>
    by_cases hk : k = key
    · subst hk
      simp [hkey]
    · simp [hk]
  | some b => simp

@[simp] theorem lookup_alter_self (key : κ) (f : Bucket → Bucket) (buckets : Dict κ Bucket) :
    (alter key f buckets).lookup key = (buckets.lookup key).map f := by
  simp [lookup_alter]

theorem lookup_alter_ne {k : κ} (hk : k ≠ key) (f : Bucket → Bucket) (buckets : Dict κ Bucket) :
    (alter key f buckets).lookup k = buckets.lookup k := by
  simp [lookup_alter, hk]

@[simp] theorem size_alter (key : κ) (f : Bucket → Bucket) (buckets : Dict κ Bucket) :
    (alter key f buckets).entries.length = buckets.entries.length := by
  simp only [alter]
  cases hkey : buckets.lookup key with
  | none => rfl
  | some b => exact Dict.size_set_of_some hkey _

theorem lookup_dropEmptyBucket (key : κ) (buckets : Dict κ Bucket) (k : κ) :
    (dropEmptyBucket key buckets).lookup k =
      if k = key then (buckets.lookup key).filter (!·.isEmpty) else buckets.lookup k := by
  simp only [dropEmptyBucket]
  by_cases hk : k = key
  · subst hk
    cases hkey : buckets.lookup k with
    | none => simp [hkey]
    | some b =>
      by_cases hempty : b.isEmpty = true
      · simp [hempty, Option.filter]
      · simp [hempty, hkey, Option.filter]
  · cases hkey : buckets.lookup key with
    | none => simp [hk]
    | some b =>
      by_cases hempty : b.isEmpty = true
      · simp [hempty, hk]
      · simp [hempty, hk]

theorem size_dropEmptyBucket (key : κ) (buckets : Dict κ Bucket) :
    (dropEmptyBucket key buckets).entries.length ≤ buckets.entries.length := by
  simp only [dropEmptyBucket]
  cases hkey : buckets.lookup key with
  | none => simp
  | some b =>
    by_cases hempty : b.isEmpty = true
    · have hsize := Dict.size_erase hkey
      simp only [hempty, if_true]
      omega
    · simp [hempty]

def inFlight (buckets : Dict κ Bucket) (key : κ) : ℕ := (buckets.lookup key).elim 0 (·.inFlight)

theorem inFlight_of_lookup {b : Bucket} (h : buckets.lookup key = some b) :
    inFlight buckets key = b.inFlight := by
  simp [inFlight, h]

/-- A table within its size, whose buckets are within their capacity and count the
leases owed to their keys. -/
structure Table (limits : Limits) (owed : κ → ℕ) (buckets : Dict κ Bucket) : Prop where
  inFlight : ∀ key, inFlight buckets key = owed key
  capacity : ∀ key b, buckets.lookup key = some b →
    b.failures.length + b.inFlight ≤ limits.maxFailures
  size : buckets.entries.length ≤ limits.maxKeys

theorem Table.exists_bucket (h : Table limits owed buckets) (key : κ) (howed : 0 < owed key) :
    ∃ b, buckets.lookup key = some b := by
  cases hkey : buckets.lookup key with
  | none =>
    have hzero := h.inFlight key
    simp only [LoginAttemptLimiter.inFlight, hkey, Option.elim_none] at hzero
    omega
  | some b => exact ⟨b, rfl⟩

theorem Table.alter {f : Bucket → Bucket} (h : Table limits owed buckets)
    (hnone : buckets.lookup key = none → owed' key = owed key)
    (hkey : ∀ b, buckets.lookup key = some b → (f b).inFlight = owed' key ∧
      (f b).failures.length + (f b).inFlight ≤ limits.maxFailures)
    (hother : ∀ k, k ≠ key → owed' k = owed k) :
    Table limits owed' (alter key f buckets) := by
  constructor
  · intro k
    by_cases hk : k = key
    · subst hk
      have hcount := h.inFlight k
      simp only [LoginAttemptLimiter.inFlight] at hcount ⊢
      rw [lookup_alter_self]
      cases hb : buckets.lookup k with
      | none =>
        rw [hb] at hcount
        rw [hnone hb, ← hcount]
        rfl
      | some b => exact (hkey b hb).1
    · rw [hother k hk, ← h.inFlight k]
      simp only [LoginAttemptLimiter.inFlight]
      rw [lookup_alter_ne hk]
  · intro k b hb
    by_cases hk : k = key
    · subst hk
      rw [lookup_alter_self, Option.map_eq_some_iff] at hb
      rcases hb with ⟨b', hb', rfl⟩
      exact (hkey b' hb').2
    · rw [lookup_alter_ne hk] at hb
      exact h.capacity k b hb
  · rw [size_alter]
    exact h.size

theorem Table.change {f : Bucket → Bucket} (h : Table limits owed buckets)
    (hcount : ∀ b, (f b).inFlight = b.inFlight)
    (hfailures : ∀ b, (f b).failures.length ≤ b.failures.length) :
    Table limits owed (LoginAttemptLimiter.alter key f buckets) := by
  apply h.alter
  · intro _
    rfl
  · intro b hb
    have hcapacity := h.capacity key b hb
    have howed := h.inFlight key
    rw [inFlight_of_lookup hb] at howed
    have hlength := hfailures b
    rw [hcount b]
    omega
  · intro k _
    rfl

theorem Table.dropEmpty (h : Table limits owed buckets) :
    Table limits owed (dropEmptyBucket key buckets) := by
  constructor
  · intro k
    rw [← h.inFlight k]
    simp only [LoginAttemptLimiter.inFlight]
    rw [lookup_dropEmptyBucket]
    by_cases hk : k = key
    · subst hk
      rw [if_pos rfl]
      cases hb : buckets.lookup k with
      | none => rfl
      | some b =>
        by_cases hempty : b.isEmpty = true
        · have hzero : b.inFlight = 0 := by
            simp only [Bucket.isEmpty, Bool.and_eq_true, beq_iff_eq] at hempty
            exact hempty.2
          simp [Option.filter, hempty, hzero]
        · simp [Option.filter, hempty]
    · rw [if_neg hk]
  · intro k b hb
    apply h.capacity k b
    rw [lookup_dropEmptyBucket] at hb
    by_cases hk : k = key
    · subst hk
      rw [if_pos rfl, Option.filter_eq_some_iff] at hb
      exact hb.1
    · rwa [if_neg hk] at hb
  · exact Nat.le_trans (size_dropEmptyBucket key buckets) h.size

/-! ### What each change of a bucket does to the counts -/

@[simp] theorem inFlight_prepareBucket (c : Settings) (now : ℚ) (b : Bucket) :
    (prepareBucket c now b).inFlight = b.inFlight := by
  simp only [prepareBucket]
  split
  · rfl
  · split <;> rfl

theorem length_prepareBucket (c : Settings) (now : ℚ) (b : Bucket) :
    (prepareBucket c now b).failures.length ≤ b.failures.length := by
  simp only [prepareBucket]
  split
  · exact Nat.le_refl _
  · split
    · simp
    · exact (List.dropWhile_sublist _).length_le

theorem Table.prepare (h : Table limits owed buckets) :
    Table limits owed (LoginAttemptLimiter.alter key (prepareBucket c now) buckets) := by
  apply h.change
  · simp
  · exact length_prepareBucket c now

theorem Table.prepareTouch (h : Table limits owed buckets) (c : Settings) (key : κ) (now : ℚ) :
    Table limits owed
      (LoginAttemptLimiter.alter key (fun b => (prepareBucket c now b).touch now) buckets) := by
  apply h.change
  · intro b
    exact inFlight_prepareBucket c now b
  · exact length_prepareBucket c now

theorem Table.clear (h : Table limits owed buckets) :
    Table limits owed (LoginAttemptLimiter.alter key .clear buckets) := by
  apply h.change
  · intro b
    rfl
  · intro b
    exact Nat.zero_le _

theorem Table.tidy (h : Table limits owed buckets) :
    Table limits owed (LoginAttemptLimiter.tidy c now buckets) := by
  simp only [LoginAttemptLimiter.tidy]
  generalize buckets.keys = keys
  induction keys generalizing buckets with
  | nil => exact h
  | cons key keys ih => exact ih h.prepare.dropEmpty

theorem Table.reserve (h : Table limits owed buckets) (hbucket : ∃ b, buckets.lookup key = some b)
    (hroom : refuses key limits now buckets = false) (hkey : owed' key = owed key + 1)
    (hother : ∀ k, k ≠ key → owed' k = owed k) :
    Table limits owed' (LoginAttemptLimiter.alter key .reserve buckets) := by
  apply h.alter
  · intro hnone
    rcases hbucket with ⟨b, hb⟩
    rw [hnone] at hb
    cases hb
  · intro b hb
    have howed := h.inFlight key
    rw [inFlight_of_lookup hb] at howed
    simp only [refuses, hb, Option.any_some, Bucket.refuses, Bool.or_eq_false_iff,
      decide_eq_false_iff_not] at hroom
    simp only [Bucket.reserve]
    omega
  · exact hother

theorem Table.release (h : Table limits owed buckets) (now : ℚ)
    (hkey : owed key = owed' key + 1) (hother : ∀ k, k ≠ key → owed' k = owed k) :
    Table limits owed' (LoginAttemptLimiter.alter key (.release now) buckets) ∧
      ∀ b, (LoginAttemptLimiter.alter key (.release now) buckets).lookup key = some b →
        b.failures.length + b.inFlight < limits.maxFailures := by
  have hreleased : ∀ b, buckets.lookup key = some b →
      (b.release now).inFlight = owed' key ∧
        (b.release now).failures.length + (b.release now).inFlight < limits.maxFailures := by
    intro b hb
    have hcapacity := h.capacity key b hb
    have howed := h.inFlight key
    rw [inFlight_of_lookup hb] at howed
    simp only [Bucket.release]
    omega
  constructor
  · apply h.alter
    · intro hnone
      rcases h.exists_bucket key (by omega) with ⟨b, hb⟩
      rw [hnone] at hb
      cases hb
    · intro b hb
      rcases hreleased b hb with ⟨hcount, hroom⟩
      exact ⟨hcount, Nat.le_of_lt hroom⟩
    · exact hother
  · intro b hb
    rw [lookup_alter_self, Option.map_eq_some_iff] at hb
    rcases hb with ⟨b', hb', rfl⟩
    exact (hreleased b' hb').2

theorem inFlight_fail (limits : Limits) (now : ℚ) (b : Bucket) :
    (b.fail limits now).inFlight = b.inFlight := by
  unfold Bucket.fail
  simp only
  split <;> rfl

theorem failures_fail (limits : Limits) (now : ℚ) (b : Bucket) :
    (b.fail limits now).failures = b.failures ++ [now] := by
  unfold Bucket.fail
  simp only
  split <;> rfl

theorem Table.fail (h : Table limits owed buckets) (c : Settings) (now : ℚ)
    (hroom : ∀ b, buckets.lookup key = some b →
      b.failures.length + b.inFlight < limits.maxFailures) :
    Table limits owed (LoginAttemptLimiter.alter key
      (fun b => (prepareBucket c now b).fail limits now) buckets) := by
  apply h.alter
  · intro _
    rfl
  · intro b hb
    have howed := h.inFlight key
    rw [inFlight_of_lookup hb] at howed
    have hlength := length_prepareBucket c now b
    have hfree := hroom b hb
    rw [inFlight_fail, failures_fail, inFlight_prepareBucket, List.length_append,
      List.length_singleton]
    omega
  · intro k _
    rfl

/-! ### Room for a new bucket -/

theorem oldestKey_eq_some (h : oldestKey now buckets = some key) :
    ∃ b, buckets.lookup key = some b ∧ b.inFlight = 0 ∧ b.blockedUntil ≤ now := by
  simp only [oldestKey] at h
  rw [Option.map_eq_some_iff] at h
  rcases h with ⟨candidate, hmin, rfl⟩
  have hmem := List.min?_mem hmin
  rw [List.mem_filterMap] at hmem
  rcases hmem with ⟨⟨k, b⟩, hentry, hcandidate⟩
  split at hcandidate
  · rename_i hidle
    cases hcandidate
    exact ⟨b, AList.mem_lookup_iff.mpr hentry, hidle⟩
  · cases hcandidate

theorem Table.erase (h : Table limits owed buckets)
    (hidle : ∃ b, buckets.lookup key = some b ∧ b.inFlight = 0) :
    Table limits owed (buckets.erase key) := by
  rcases hidle with ⟨b, hb, hzero⟩
  constructor
  · intro k
    rw [← h.inFlight k]
    simp only [LoginAttemptLimiter.inFlight]
    by_cases hk : k = key
    · subst hk
      simp [hb, hzero]
    · rw [AList.lookup_erase_ne hk]
  · intro k b' hb'
    by_cases hk : k = key
    · subst hk
      simp at hb'
    · rw [AList.lookup_erase_ne hk] at hb'
      exact h.capacity k b' hb'
  · have hsize := Dict.size_erase hb
    have hbound := h.size
    omega

theorem Table.makeRoom (h : Table limits owed buckets)
    (hroom : makeRoom limits.maxKeys now buckets = some buckets') :
    Table limits owed buckets' ∧ buckets'.entries.length < limits.maxKeys := by
  simp only [LoginAttemptLimiter.makeRoom] at hroom
  split at hroom
  · rw [Option.map_eq_some_iff] at hroom
    rcases hroom with ⟨key, holdest, rfl⟩
    rcases oldestKey_eq_some holdest with ⟨b, hb, hzero, -⟩
    refine ⟨h.erase ⟨b, hb, hzero⟩, ?_⟩
    have hsize := Dict.size_erase hb
    have hbound := h.size
    omega
  · rename_i hfree
    cases hroom
    exact ⟨h, by omega⟩

theorem makeRoom_lookup (hroom : makeRoom limits.maxKeys now buckets = some buckets')
    (hnone : buckets.lookup key = none) : buckets'.lookup key = none := by
  simp only [LoginAttemptLimiter.makeRoom] at hroom
  split at hroom
  · rw [Option.map_eq_some_iff] at hroom
    rcases hroom with ⟨k, holdest, rfl⟩
    by_cases hk : key = k
    · subst hk
      simp
    · rw [AList.lookup_erase_ne hk, hnone]
  · cases hroom
    exact hnone

theorem Table.getOrCreate (h : Table limits owed buckets)
    (hcreate : getOrCreate key limits.maxKeys now buckets = some buckets') :
    Table limits owed buckets' ∧ ∃ b, buckets'.lookup key = some b := by
  simp only [LoginAttemptLimiter.getOrCreate] at hcreate
  cases hkey : buckets.lookup key with
  | some b =>
    rw [hkey] at hcreate
    cases hcreate
    exact ⟨h, b, hkey⟩
  | none =>
    simp only [hkey] at hcreate
    rw [Option.map_eq_some_iff] at hcreate
    rcases hcreate with ⟨roomy, hroom, rfl⟩
    rcases h.makeRoom hroom with ⟨hroomy, hsize⟩
    have habsent := makeRoom_lookup hroom hkey
    refine ⟨?_, { lastSeen := now }, by simp⟩
    constructor
    · intro k
      rw [← hroomy.inFlight k]
      simp only [LoginAttemptLimiter.inFlight]
      by_cases hk : k = key
      · subst hk
        simp [habsent]
      · simp [hk]
    · intro k b hb
      by_cases hk : k = key
      · subst hk
        rw [Dict.lookup_set, if_pos rfl] at hb
        cases hb
        simp
      · rw [Dict.lookup_set, if_neg hk] at hb
        exact hroomy.capacity k b hb
    · rw [Dict.size_set_of_none habsent]
      omega

theorem Table.getOrCreate_getD (h : Table limits owed buckets) :
    Table limits owed
      ((LoginAttemptLimiter.getOrCreate key limits.maxKeys now buckets).getD buckets) := by
  cases hcreate : LoginAttemptLimiter.getOrCreate key limits.maxKeys now buckets with
  | none => exact h
  | some buckets' => exact (h.getOrCreate hcreate).1

end

/-! ### Both tables -/

structure Sound (c : Settings) (s : Limiter) : Prop where
  pair : Table c.pair (fun key => held s (.pair key)) s.pairBuckets
  ip : Table c.ip (fun key => held s (.ip key)) s.ipBuckets
  tokens : ∀ token, s.nextToken ≤ token → s.leases.lookup token = none

def Limiter.ended (s : Limiter) (token : ℕ) (lease : Lease) (now : ℚ) : Limiter :=
  { s with
    leases := s.leases.erase token
    pairBuckets := alter lease.pairKey (.release now) s.pairBuckets
    ipBuckets := alter lease.ipKey (.release now) s.ipBuckets }

def Room (c : Settings) (s : Limiter) (key : Key) : Prop :=
  ∀ b, s.bucket key = some b → b.failures.length + b.inFlight < (c.limits key).maxFailures

section

variable {c : Settings} {s s' : Limiter} {lease : Lease} {token : ℕ} {now : ℚ}
  {pair : PairKey} {ip : String}

theorem initial_sound (c : Settings) : Sound c {} := by
  constructor
  · constructor
    · intro key
      rfl
    · intro key b hb
      cases hb
    · exact Nat.zero_le _
  · constructor
    · intro key
      rfl
    · intro key b hb
      cases hb
    · exact Nat.zero_le _
  · intro token _
    rfl

theorem mem_keys {key : Key} :
    key ∈ lease.keys ↔ key = .pair lease.pairKey ∨ key = .ip lease.ipKey := by
  simp [Lease.keys]

theorem held_ended (h : s.leases.lookup token = some lease) (now : ℚ) (key : Key) :
    held s key = held (s.ended token lease now) key + if key ∈ lease.keys then 1 else 0 := by
  simp only [held]
  rw [Dict.count_erase _ h]
  simp [Limiter.ended]

theorem Sound.ended (h : Sound c s) (hlease : s.leases.lookup token = some lease) (now : ℚ) :
    endLease now s token = some (s.ended token lease now) ∧
      Sound c (s.ended token lease now) ∧
      ∀ key ∈ lease.keys, Room c (s.ended token lease now) key := by
  have hheld := held_ended hlease now
  have hpairKey := hheld (.pair lease.pairKey)
  have hipKey := hheld (.ip lease.ipKey)
  rw [if_pos (by simp [mem_keys])] at hpairKey hipKey
  rcases h.pair.exists_bucket lease.pairKey (by omega) with ⟨pairBucket, hpairBucket⟩
  rcases h.ip.exists_bucket lease.ipKey (by omega) with ⟨ipBucket, hipBucket⟩
  have hpairOther : ∀ k, k ≠ lease.pairKey →
      held (s.ended token lease now) (.pair k) = held s (.pair k) := by
    intro k hk
    rw [hheld (.pair k), if_neg (by simp [mem_keys, hk])]
    rfl
  have hipOther : ∀ k, k ≠ lease.ipKey →
      held (s.ended token lease now) (.ip k) = held s (.ip k) := by
    intro k hk
    rw [hheld (.ip k), if_neg (by simp [mem_keys, hk])]
    rfl
  rcases h.pair.release now hpairKey hpairOther with ⟨hpair, hpairRoom⟩
  rcases h.ip.release now hipKey hipOther with ⟨hip, hipRoom⟩
  refine ⟨?_, ⟨hpair, hip, ?_⟩, ?_⟩
  · simp [LoginAttemptLimiter.endLease, releaseLease, hlease, hpairBucket, hipBucket,
      Limiter.ended]
  · intro token' htoken'
    have hnone := h.tokens token' htoken'
    by_cases heq : token' = token
    · subst heq
      simp [Limiter.ended]
    · simpa [Limiter.ended, AList.lookup_erase_ne heq] using hnone
  · intro key hkey
    rcases mem_keys.mp hkey with rfl | rfl
    · exact hpairRoom
    · exact hipRoom

/-! ### The calls -/

theorem foldlM_endLease {P : Limiter → Prop}
    (hP : ∀ s token lease, Sound c s → P s → s.leases.lookup token = some lease →
      P (s.ended token lease now))
    (tokens : List ℕ) (hnodup : tokens.Nodup)
    (htokens : ∀ token ∈ tokens, ∃ lease, s.leases.lookup token = some lease)
    (hs : Sound c s) (h : P s) :
    ∃ s', tokens.foldlM (endLease now) s = some s' ∧ Sound c s' ∧ P s' := by
  induction tokens generalizing s with
  | nil => exact ⟨s, rfl, hs, h⟩
  | cons token tokens ih =>
    rcases htokens token (by simp) with ⟨lease, hlease⟩
    rcases hs.ended hlease now with ⟨hend, hended, -⟩
    rw [List.nodup_cons] at hnodup
    rw [List.foldlM_cons, hend]
    apply ih hnodup.2
    · intro token' htoken'
      rcases htokens token' (by simp [htoken']) with ⟨lease', hlease'⟩
      refine ⟨lease', ?_⟩
      have hne : token' ≠ token := by
        rintro rfl
        exact hnodup.1 htoken'
      simpa [Limiter.ended, AList.lookup_erase_ne hne] using hlease'
    · exact hended
    · exact hP s token lease hs h hlease

theorem nodup_staleTokens (c : Settings) (now : ℚ) (s : Limiter) :
    (staleTokens c now s).Nodup := by
  have hkeys : s.leases.entries.keys.Nodup := s.leases.nodupKeys
  have hsublist : List.Sublist (staleTokens c now s) s.leases.entries.keys := by
    unfold staleTokens List.keys
    induction s.leases.entries with
    | nil => simp
    | cons entry entries ih =>
      simp only [List.filterMap_cons, List.map_cons]
      split
      · rename_i hnone
        exact ih.cons _
      · rename_i token hsome
        split at hsome
        · cases hsome
          exact ih.cons_cons _
        · cases hsome
  exact hkeys.sublist hsublist

theorem lookup_of_mem_staleTokens (h : token ∈ staleTokens c now s) :
    ∃ lease, s.leases.lookup token = some lease := by
  simp only [staleTokens] at h
  rw [List.mem_filterMap] at h
  rcases h with ⟨⟨token', lease⟩, hentry, hstale⟩
  split at hstale
  · cases hstale
    exact ⟨lease, AList.mem_lookup_iff.mpr hentry⟩
  · cases hstale

theorem cleanupIfDue_induction {P : Limiter → Prop}
    (hP : ∀ s token lease, Sound c s → P s → s.leases.lookup token = some lease →
      P (s.ended token lease now))
    (hclock : ∀ s, P s → P { s with lastCleanup := now })
    (htidy : ∀ s, P s → P { s with
      pairBuckets := tidy c now s.pairBuckets
      ipBuckets := tidy c now s.ipBuckets })
    (hs : Sound c s) (h : P s) :
    ∃ s', cleanupIfDue c now s = some s' ∧ Sound c s' ∧ P s' := by
  simp only [cleanupIfDue]
  split
  · exact ⟨s, rfl, hs, h⟩
  · have hs' : Sound c { s with lastCleanup := now } := ⟨hs.pair, hs.ip, hs.tokens⟩
    have htokens : ∀ token ∈ staleTokens c now s, ∃ lease,
        ({ s with lastCleanup := now } : Limiter).leases.lookup token = some lease := by
      intro token htoken
      exact lookup_of_mem_staleTokens htoken
    obtain ⟨s', hfold, hsound, hkept⟩ :=
      foldlM_endLease hP (staleTokens c now s) (nodup_staleTokens c now s) htokens hs' (hclock s h)
    have htidied : Sound c { s' with
        pairBuckets := tidy c now s'.pairBuckets
        ipBuckets := tidy c now s'.ipBuckets } :=
      ⟨hsound.pair.tidy, hsound.ip.tidy, hsound.tokens⟩
    refine ⟨_, ?_, htidied, htidy s' hkept⟩
    simp [cleanup, hfold]

theorem Sound.cleanupIfDue (h : Sound c s) (now : ℚ) :
    ∃ s', LoginAttemptLimiter.cleanupIfDue c now s = some s' ∧ Sound c s' := by
  have hcleanup : ∃ s', LoginAttemptLimiter.cleanupIfDue c now s = some s' ∧ Sound c s' ∧ True := by
    apply cleanupIfDue_induction (P := fun _ => True) _ _ _ h trivial
    · intros
      trivial
    · intros
      trivial
    · intros
      trivial
  rcases hcleanup with ⟨s', hcleanup, hsound, -⟩
  exact ⟨s', hcleanup, hsound⟩

theorem Sound.dropEmpty (h : Sound c s) (pair : PairKey) (ip : String) :
    Sound c (dropEmpty pair ip s) :=
  ⟨h.pair.dropEmpty, h.ip.dropEmpty, h.tokens⟩

theorem held_reserved (h : Sound c s) (lease : Lease) (key : Key) :
    Dict.count (fun lease => key ∈ lease.keys) (Dict.set s.leases s.nextToken lease) =
      held s key + if key ∈ lease.keys then 1 else 0 := by
  rw [Dict.count_set_of_none _ (h.tokens s.nextToken (Nat.le_refl _))]
  simp [held]

theorem Sound.attempt (h : Sound c s) (hpair : ∃ b, s.pairBuckets.lookup pair = some b)
    (hip : ∃ b, s.ipBuckets.lookup ip = some b) (now : ℚ) :
    Sound c (attempt c pair ip now s).1 := by
  have hpairs := h.pair.prepareTouch c pair now
  have hips := h.ip.prepareTouch c ip now
  have htouched : Sound c { s with
      pairBuckets := alter pair (fun b => (prepareBucket c now b).touch now) s.pairBuckets
      ipBuckets := alter ip (fun b => (prepareBucket c now b).touch now) s.ipBuckets } :=
    ⟨hpairs, hips, h.tokens⟩
  unfold LoginAttemptLimiter.attempt
  simp only
  split
  · exact htouched.dropEmpty pair ip
  · rename_i hroom
    simp only [Bool.or_eq_true, not_or, Bool.not_eq_true] at hroom
    have hheld := held_reserved h ⟨pair, ip, now⟩
    constructor
    · apply hpairs.reserve _ hroom.1
      · exact (hheld (.pair pair)).trans (by simp [mem_keys, held])
      · intro k hk
        exact (hheld (.pair k)).trans (by simp [mem_keys, hk, held])
      · rcases hpair with ⟨b, hb⟩
        exact ⟨_, by rw [lookup_alter_self, hb]; rfl⟩
    · apply hips.reserve _ hroom.2
      · exact (hheld (.ip ip)).trans (by simp [mem_keys, held])
      · intro k hk
        exact (hheld (.ip k)).trans (by simp [mem_keys, hk, held])
      · rcases hip with ⟨b, hb⟩
        exact ⟨_, by rw [lookup_alter_self, hb]; rfl⟩
    · intro token htoken
      simp only at htoken ⊢
      rw [Dict.lookup_set, if_neg (by omega)]
      exact h.tokens token (by omega)

theorem begin_cases {s₁ : Limiter} (hcleanup : cleanupIfDue c now s = some s₁)
    (clientIp username : String) :
    (∃ pairBuckets ipBuckets,
      getOrCreate (pairKey c clientIp username) c.pair.maxKeys now s₁.pairBuckets =
        some pairBuckets ∧
      getOrCreate (normalizeIp c clientIp) c.ip.maxKeys now s₁.ipBuckets = some ipBuckets ∧
      begin c clientIp username now s = some (attempt c (pairKey c clientIp username)
        (normalizeIp c clientIp) now { s₁ with pairBuckets, ipBuckets })) ∨
    begin c clientIp username now s = some (dropEmpty (pairKey c clientIp username)
      (normalizeIp c clientIp) { s₁ with
        pairBuckets := (getOrCreate (pairKey c clientIp username) c.pair.maxKeys now
          s₁.pairBuckets).getD s₁.pairBuckets
        ipBuckets := (getOrCreate (normalizeIp c clientIp) c.ip.maxKeys now
          s₁.ipBuckets).getD s₁.ipBuckets }, none) := by
  cases hpair : getOrCreate (pairKey c clientIp username) c.pair.maxKeys now s₁.pairBuckets with
  | none =>
    right
    simp [begin, hcleanup, hpair]
  | some pairBuckets =>
    cases hip : getOrCreate (normalizeIp c clientIp) c.ip.maxKeys now s₁.ipBuckets with
    | none =>
      right
      simp [begin, hcleanup, hpair, hip]
    | some ipBuckets =>
      left
      refine ⟨pairBuckets, ipBuckets, rfl, rfl, ?_⟩
      simp [begin, hcleanup, hpair, hip]

theorem Sound.begin (h : Sound c s) (clientIp username : String) (now : ℚ) :
    ∃ s' answer, LoginAttemptLimiter.begin c clientIp username now s = some (s', answer) ∧
      Sound c s' := by
  rcases h.cleanupIfDue now with ⟨s₁, hcleanup, hsound⟩
  rcases begin_cases hcleanup clientIp username with ⟨pairBuckets, ipBuckets, hpair, hip, hbegin⟩ |
    hbegin
  · rcases hsound.pair.getOrCreate hpair with ⟨hpairs, hpairBucket⟩
    rcases hsound.ip.getOrCreate hip with ⟨hips, hipBucket⟩
    have hcreated : Sound c { s₁ with pairBuckets, ipBuckets } := ⟨hpairs, hips, hsound.tokens⟩
    exact ⟨_, _, hbegin, hcreated.attempt hpairBucket hipBucket now⟩
  · refine ⟨_, _, hbegin, ?_⟩
    apply Sound.dropEmpty
    exact ⟨hsound.pair.getOrCreate_getD, hsound.ip.getOrCreate_getD, hsound.tokens⟩

theorem Sound.failure (h : Sound c s) (token : ℕ) (now : ℚ) :
    ∃ s', LoginAttemptLimiter.failure c token now s = some s' ∧ Sound c s' := by
  cases hlease : s.leases.lookup token with
  | none => exact ⟨s, by simp [LoginAttemptLimiter.failure, hlease], h⟩
  | some lease =>
    rcases h.ended hlease now with ⟨hend, hended, hroom⟩
    have hpairs := hended.pair.fail c now (hroom (.pair lease.pairKey) (by simp [mem_keys]))
    have hips := hended.ip.fail c now (hroom (.ip lease.ipKey) (by simp [mem_keys]))
    have hfailed : Sound c { s.ended token lease now with
        pairBuckets := alter lease.pairKey (fun b => (prepareBucket c now b).fail c.pair now)
          (s.ended token lease now).pairBuckets
        ipBuckets := alter lease.ipKey (fun b => (prepareBucket c now b).fail c.ip now)
          (s.ended token lease now).ipBuckets } :=
      ⟨hpairs, hips, hended.tokens⟩
    refine ⟨_, ?_, hfailed⟩
    simp [LoginAttemptLimiter.failure, hlease, hend]

theorem Sound.success (h : Sound c s) (token : ℕ) (now : ℚ) :
    ∃ s', LoginAttemptLimiter.success c token now s = some s' ∧ Sound c s' := by
  cases hlease : s.leases.lookup token with
  | none => exact ⟨s, by simp [LoginAttemptLimiter.success, hlease], h⟩
  | some lease =>
    rcases h.ended hlease now with ⟨hend, hended, -⟩
    have hcleared : Sound c { s.ended token lease now with
        pairBuckets := alter lease.pairKey .clear (s.ended token lease now).pairBuckets
        ipBuckets := alter lease.ipKey (prepareBucket c now) (s.ended token lease now).ipBuckets } :=
      ⟨hended.pair.clear, hended.ip.prepare, hended.tokens⟩
    refine ⟨_, ?_, hcleared.dropEmpty lease.pairKey lease.ipKey⟩
    simp [LoginAttemptLimiter.success, hlease, hend]

theorem Sound.cancel (h : Sound c s) (token : ℕ) (now : ℚ) :
    ∃ s', LoginAttemptLimiter.cancel token now s = some s' ∧ Sound c s' := by
  cases hlease : s.leases.lookup token with
  | none => exact ⟨s, by simp [LoginAttemptLimiter.cancel, hlease], h⟩
  | some lease =>
    rcases h.ended hlease now with ⟨hend, hended, -⟩
    refine ⟨_, ?_, hended.dropEmpty lease.pairKey lease.ipKey⟩
    simp [LoginAttemptLimiter.cancel, hlease, hend]

theorem Sound.step (h : Sound c s) (call : Call) :
    ∃ s', LoginAttemptLimiter.step c s call = some s' ∧ Sound c s' := by
  cases call with
  | begin clientIp username now =>
    rcases h.begin clientIp username now with ⟨s', answer, hbegin, hsound⟩
    exact ⟨s', by simp [LoginAttemptLimiter.step, hbegin], hsound⟩
  | failure token now => exact h.failure token now
  | success token now => exact h.success token now
  | cancel token now => exact h.cancel token now
  | cleanup now => exact h.cleanupIfDue now

theorem run_sound (c : Settings) (calls : List Call) :
    ∃ s, Runs.run (next c) (some {}) calls = some s ∧ Sound c s := by
  apply Runs.run_induction (P := fun o : Option Limiter => ∃ s, o = some s ∧ Sound c s)
    (Q := fun _ _ => True)
  · rintro _ call ⟨s, rfl, hs⟩ -
    exact hs.step call
  · exact ⟨{}, rfl, initial_sound c⟩
  · apply Runs.Along.of_forall
    intros
    trivial

/-- In every run no lease misses its buckets, each bucket counts the leases that refer
to it and stays within its key's capacity, and both tables stay within their sizes. -/
theorem limiter_sound (c : Settings) (calls : List Call) :
    ∃ s, Runs.run (next c) (some {}) calls = some s ∧
      (∀ key b, s.bucket key = some b → b.inFlight = held s key) ∧
      (∀ token lease, s.leases.lookup token = some lease →
        ∀ key ∈ lease.keys, ∃ b, s.bucket key = some b) ∧
      (∀ key b, s.bucket key = some b →
        b.failures.length + b.inFlight ≤ (c.limits key).maxFailures) ∧
      s.pairBuckets.entries.length ≤ c.pair.maxKeys ∧
      s.ipBuckets.entries.length ≤ c.ip.maxKeys := by
  rcases run_sound c calls with ⟨s, hrun, hs⟩
  refine ⟨s, hrun, ?_, ?_, ?_, hs.pair.size, hs.ip.size⟩
  · intro key b hb
    cases key with
    | pair key =>
      rw [← hs.pair.inFlight key]
      exact (inFlight_of_lookup hb).symm
    | ip key =>
      rw [← hs.ip.inFlight key]
      exact (inFlight_of_lookup hb).symm
  · intro token lease hlease key hkey
    have hheld : 0 < held s key := by
      rw [held_ended hlease 0 key, if_pos hkey]
      omega
    cases key with
    | pair key => exact hs.pair.exists_bucket key hheld
    | ip key => exact hs.ip.exists_bucket key hheld
  · intro key b hb
    cases key with
    | pair key => exact hs.pair.capacity key b hb
    | ip key => exact hs.ip.capacity key b hb

end

end LoginAttemptLimiter
