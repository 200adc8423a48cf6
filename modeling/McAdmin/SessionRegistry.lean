import Mathlib.Algebra.Order.Ring.Rat
import Mathlib.Data.List.Induction
import Mathlib.Data.List.Sort
import Mathlib.Data.String.Basic
import McAdmin.Dict
import McAdmin.Runs

/-!
# The registry of the open sessions

A session is an entry of a dictionary in memory, which answers every request, and of a file,
which a restart reloads.  Entries disappear when they are revoked, when a call finds them
expired, when a restart leaves them out, and when their user has too many of them.

`Book` says what the registry is for: the sessions registered so far, which of them were
revoked, and which of them gave way to newer ones.  Whenever nothing is expired the two agree,
and what has expired is valid in neither.
-/

namespace SessionRegistry

/-! ### The registry -/

structure Settings where
  /-- No session expires when it is zero. -/
  ttlSeconds : ℚ
  maxPerUser : ℤ

/-- The constructor's own values: fourteen days, fifty sessions. -/
def Settings.default : Settings := ⟨14 * 24 * 3600, 50⟩

structure Record where
  username : String
  createdAt : ℚ
  ip : String
  userAgent : String
  lastSeen : ℚ
deriving DecidableEq

abbrev Sessions := Dict String Record

structure Registry where
  sessions : Sessions := ∅
  file : Sessions := ∅

/-- `self._ttl and now - created > self._ttl` -/
def Settings.expired (c : Settings) (now createdAt : ℚ) : Bool :=
  c.ttlSeconds != 0 && decide (c.ttlSeconds < now - createdAt)

/-- `_load_into_memory`, on what the file holds. -/
def loadIntoMemory (c : Settings) (now : ℚ) (s : Registry) : Registry :=
  let kept := Dict.filter (fun sid record =>
    sid != "" && record.username != "" && !c.expired now record.createdAt) s.file
  { s with sessions := Dict.mapValues (fun record =>
      { record with
        lastSeen := if record.lastSeen = 0 then record.createdAt else record.lastSeen }) kept }

def persist (s : Registry) : Registry := { s with file := s.sessions }

def enforceCap (c : Settings) (username : String) (sessions : Sessions) : Sessions :=
  let owned := sessions.entries.filter fun entry => entry.2.username == username
  if (owned.length : ℤ) ≤ c.maxPerUser then sessions
  else
    let owned := owned.insertionSort fun a b => a.2.createdAt ≤ b.2.createdAt
    (owned.take ((owned.length : ℤ) - c.maxPerUser).toNat).foldl
      (fun sessions entry => sessions.erase entry.1) sessions

/-- `register`, for the identifier it draws. -/
def register (c : Settings) (sid username ip userAgent : String) (now : ℚ) (s : Registry) :
    Registry :=
  let record := ⟨username, now, .ofList (ip.toList.take 64), .ofList (userAgent.toList.take 256),
    now⟩
  persist { s with sessions := enforceCap c username (Dict.set s.sessions sid record) }

def isValid (c : Settings) (sid username : String) (now : ℚ) (s : Registry) : Bool × Registry :=
  if sid = "" then (false, s)
  else
    match s.sessions.lookup sid with
    | none => (false, s)
    | some record =>
      if record.username ≠ username then (false, s)
      else if c.expired now record.createdAt then
        (false, persist { s with sessions := s.sessions.erase sid })
      else (true, s)

def touch (sid : String) (now : ℚ) (s : Registry) : Registry :=
  match s.sessions.lookup sid with
  | none => s
  | some record => { s with sessions := Dict.set s.sessions sid { record with lastSeen := now } }

def revoke (sid username : String) (s : Registry) : Bool × Registry :=
  match s.sessions.lookup sid with
  | none => (false, s)
  | some record =>
    if record.username ≠ username then (false, s)
    else (true, persist { s with sessions := s.sessions.erase sid })

def revokeOthers (keepSid username : String) (s : Registry) : ℕ × Registry :=
  let targets := s.sessions.entries.filter fun entry =>
    entry.2.username == username && entry.1 != keepSid
  if targets.isEmpty then (0, s)
  else
    (targets.length, persist { s with
      sessions := targets.foldl (fun sessions entry => sessions.erase entry.1) s.sessions })

def revokeAll (username : String) (s : Registry) : ℕ × Registry := revokeOthers "" username s

/-- A call, or a new process; with the identifier that was drawn and the reading of the clock. -/
inductive Call where
  | register (sid username ip userAgent : String) (now : ℚ)
  | isValid (sid username : String) (now : ℚ)
  | touch (sid : String) (now : ℚ)
  | revoke (sid username : String)
  | revokeOthers (keepSid username : String)
  | revokeAll (username : String)
  | restart (now : ℚ)
deriving DecidableEq

def step (c : Settings) (s : Registry) : Call → Registry
  | .register sid username ip userAgent now => register c sid username ip userAgent now s
  | .isValid sid username now => (isValid c sid username now s).2
  | .touch sid now => touch sid now s
  | .revoke sid username => (revoke sid username s).2
  | .revokeOthers keepSid username => (revokeOthers keepSid username s).2
  | .revokeAll username => (revokeAll username s).2
  | .restart now => loadIntoMemory c now s

/-! ### What the registry is for -/

structure Entry where
  sid : String
  username : String
  createdAt : ℚ
deriving DecidableEq

/-- The sessions registered so far in their order, the identifiers that were revoked and those
that gave way to newer sessions. -/
structure Book where
  registered : List Entry := []
  revoked : List String := []
  dropped : List String := []

namespace Book

def live (b : Book) : List Entry :=
  b.registered.filter fun e => e.sid ∉ b.revoked && e.sid ∉ b.dropped

def oldest (limit : ℤ) (own : List Entry) : List Entry :=
  own.take ((own.length : ℤ) - limit).toNat

def register (limit : ℤ) (e : Entry) (b : Book) : Book :=
  let b := { b with registered := b.registered ++ [e] }
  { b with
    dropped := b.dropped ++
      (oldest limit (b.live.filter fun e' => e'.username == e.username)).map (·.sid) }

/-- The sessions that satisfy `p` are revoked. -/
def revokeWhere (p : Entry → Bool) (b : Book) : Book :=
  { b with revoked := b.revoked ++ (b.registered.filter p).map (·.sid) }

def step (c : Settings) (b : Book) : Call → Book
  | .register sid username _ _ now => b.register c.maxPerUser ⟨sid, username, now⟩
  | .revoke sid username => b.revokeWhere fun e => e.sid == sid && e.username == username
  | .revokeOthers keepSid username =>
    b.revokeWhere fun e => e.username == username && e.sid != keepSid
  | .revokeAll username => b.revokeWhere fun e => e.username == username
  | .isValid .. | .touch .. | .restart .. => b

def Valid (c : Settings) (b : Book) (sid username : String) (now : ℚ) : Prop :=
  ∃ e ∈ b.registered, e.sid = sid ∧ e.username = username ∧ e.sid ∉ b.revoked ∧
    c.expired now e.createdAt = false ∧ e.sid ∉ b.dropped

end Book

/-! ### The registry as a list of entries -/

def view (d : Sessions) : List Entry :=
  d.entries.map fun entry => ⟨entry.1, entry.2.username, entry.2.createdAt⟩

theorem mem_view {d : Sessions} {e : Entry} :
    e ∈ view d ↔ ∃ record, d.lookup e.sid = some record ∧ record.username = e.username ∧
      record.createdAt = e.createdAt := by
  simp only [view, List.mem_map]
  constructor
  · rintro ⟨⟨sid, record⟩, hmem, rfl⟩
    exact ⟨record, AList.mem_lookup_iff.mpr hmem, rfl, rfl⟩
  · rintro ⟨record, hlookup, husername, hcreated⟩
    refine ⟨⟨e.sid, record⟩, AList.mem_lookup_iff.mp hlookup, ?_⟩
    rw [husername, hcreated]

theorem view_filter_entries (d : Sessions) (p : Entry → Bool) :
    (d.entries.filter fun entry => p ⟨entry.1, entry.2.username, entry.2.createdAt⟩).map
      (fun entry => (⟨entry.1, entry.2.username, entry.2.createdAt⟩ : Entry)) =
      (view d).filter p := by
  rw [view, List.filter_map]
  rfl

theorem view_erase (d : Sessions) (sid : String) :
    view (d.erase sid) = (view d).filter fun e => e.sid ≠ sid := by
  rw [view, Dict.entries_erase]
  exact view_filter_entries d fun e => e.sid ≠ sid

theorem view_foldl_erase (l : List (Sigma fun _ : String => Record)) (d : Sessions) :
    view (l.foldl (fun sessions entry => sessions.erase entry.1) d) =
      (view d).filter fun e => e.sid ∉ l.map (·.1) := by
  rw [view, Dict.entries_foldl_erase]
  exact view_filter_entries d fun e => e.sid ∉ l.map (·.1)

theorem view_set_of_none {d : Sessions} {sid : String} (h : d.lookup sid = none)
    (record : Record) :
    view (Dict.set d sid record) = view d ++ [⟨sid, record.username, record.createdAt⟩] := by
  rw [view, Dict.entries_set_of_none h, List.map_append]
  rfl

theorem view_set_of_some {d : Sessions} {sid : String} {record record' : Record}
    (h : d.lookup sid = some record) (husername : record'.username = record.username)
    (hcreated : record'.createdAt = record.createdAt) :
    view (Dict.set d sid record') = view d := by
  rw [view, Dict.entries_set_of_some h, List.map_map]
  refine List.map_congr_left fun entry hentry => ?_
  by_cases hsid : entry.1 = sid
  · have hrecord : entry.2 = record := by
      have hlookup : d.lookup entry.1 = some entry.2 := AList.mem_lookup_iff.mpr hentry
      rw [hsid, h] at hlookup
      exact (Option.some.inj hlookup).symm
    simp [hsid, hrecord, husername, hcreated]
  · simp [hsid]

theorem view_loadIntoMemory (c : Settings) (now : ℚ) (s : Registry) :
    view (loadIntoMemory c now s).sessions =
      (view s.file).filter fun e =>
        e.sid != "" && e.username != "" && !c.expired now e.createdAt := by
  simp only [loadIntoMemory, view, Dict.mapValues, Dict.filter, List.map_map]
  exact view_filter_entries s.file fun e =>
    e.sid != "" && e.username != "" && !c.expired now e.createdAt

theorem view_enforceCap (c : Settings) (username : String) {d : Sessions}
    (hsorted : (view d).Pairwise fun a b => a.createdAt ≤ b.createdAt) :
    view (enforceCap c username d) =
      (view d).filter fun e =>
        e.sid ∉ (Book.oldest c.maxPerUser
          ((view d).filter fun e => e.username == username)).map (·.sid) := by
  have hown := view_filter_entries d fun e => e.username == username
  simp only at hown
  have hlength : (d.entries.filter fun entry => entry.2.username == username).length =
      ((view d).filter fun e => e.username == username).length := by
    rw [← hown, List.length_map]
  simp only [enforceCap]
  by_cases hcap : ((d.entries.filter fun entry => entry.2.username == username).length : ℤ) ≤
      c.maxPerUser
  · rw [if_pos hcap]
    have hnone : Book.oldest c.maxPerUser ((view d).filter fun e => e.username == username) =
        [] := by
      rw [Book.oldest, ← hlength, Int.toNat_of_nonpos (by omega), List.take_zero]
    simp [hnone]
  · rw [if_neg hcap]
    have hpairwise : (d.entries.filter fun entry => entry.2.username == username).Pairwise
        fun a b => a.2.createdAt ≤ b.2.createdAt := by
      refine List.Pairwise.filter _ ?_
      simpa [view, List.pairwise_map] using hsorted
    rw [hpairwise.insertionSort_eq, view_foldl_erase]
    refine List.filter_congr fun e _ => ?_
    rw [Book.oldest, ← hown, List.length_map, ← List.map_take, List.map_map]
    rfl

/-! ### What an operation leaves open -/

theorem mem_view_set {d : Sessions} {sid : String} {record : Record} {e : Entry}
    (h : e ∈ view (Dict.set d sid record)) :
    e ∈ view d ∨ e = ⟨sid, record.username, record.createdAt⟩ := by
  obtain ⟨found, hlookup, husername, hcreated⟩ := mem_view.mp h
  rw [Dict.lookup_set] at hlookup
  by_cases hsid : e.sid = sid
  · rw [if_pos hsid] at hlookup
    obtain rfl := Option.some.inj hlookup
    obtain ⟨esid, eusername, ecreated⟩ := e
    cases hsid
    cases husername
    cases hcreated
    exact .inr rfl
  · rw [if_neg hsid] at hlookup
    exact .inl (mem_view.mpr ⟨found, hlookup, husername, hcreated⟩)

theorem view_erase_subset (d : Sessions) (sid : String) : view (d.erase sid) ⊆ view d := by
  rw [view_erase]
  exact List.filter_sublist.subset

theorem view_enforceCap_subset (c : Settings) (username : String) (d : Sessions) :
    view (enforceCap c username d) ⊆ view d := by
  rw [enforceCap]
  split
  · exact fun _ h => h
  · rw [view_foldl_erase]
    exact List.filter_sublist.subset

theorem mem_view_register {c : Settings} {sid username ip userAgent : String} {now : ℚ}
    {s : Registry} {e : Entry}
    (h : e ∈ view (register c sid username ip userAgent now s).sessions) :
    e ∈ view s.sessions ∨ e = ⟨sid, username, now⟩ :=
  mem_view_set (view_enforceCap_subset _ _ _ h)

theorem view_isValid_subset (c : Settings) (sid username : String) (now : ℚ) (s : Registry) :
    view (isValid c sid username now s).2.sessions ⊆ view s.sessions := by
  unfold isValid
  split
  · exact fun _ h => h
  · split
    · exact fun _ h => h
    · split
      · exact fun _ h => h
      · split
        · exact view_erase_subset _ _
        · exact fun _ h => h

theorem view_touch (sid : String) (now : ℚ) (s : Registry) :
    view (touch sid now s).sessions = view s.sessions := by
  unfold touch
  cases hlookup : s.sessions.lookup sid with
  | none => rfl
  | some record => exact view_set_of_some hlookup rfl rfl

theorem view_revoke_subset (sid username : String) (s : Registry) :
    view (revoke sid username s).2.sessions ⊆ view s.sessions := by
  unfold revoke
  split
  · exact fun _ h => h
  · split
    · exact fun _ h => h
    · exact view_erase_subset _ _

theorem mem_view_revokeOthers {keepSid username : String} {s : Registry} {e : Entry}
    (h : e ∈ view (revokeOthers keepSid username s).2.sessions) :
    e ∈ view s.sessions ∧ (e.username = username → e.sid = keepSid) := by
  have htargets := view_filter_entries s.sessions fun e =>
    e.username == username && e.sid != keepSid
  simp only [revokeOthers] at h
  split at h
  · rename_i hnone
    rw [List.isEmpty_iff.mp hnone, List.map_nil, eq_comm, List.filter_eq_nil_iff] at htargets
    refine ⟨h, fun husername => ?_⟩
    by_contra hother
    exact htargets e h (by simp [husername, hother])
  · simp only [persist, view_foldl_erase, List.mem_filter, decide_eq_true_eq] at h
    refine ⟨h.1, fun husername => ?_⟩
    by_contra hother
    refine h.2 ?_
    have hmem : e ∈ (view s.sessions).filter fun e =>
        e.username == username && e.sid != keepSid :=
      List.mem_filter.mpr ⟨h.1, by simp [husername, hother]⟩
    rw [← htargets, List.mem_map] at hmem
    obtain ⟨entry, hentry, rfl⟩ := hmem
    exact List.mem_map.mpr ⟨entry, hentry, rfl⟩

/-! ### What is left of a list beyond a limit -/

theorem Book.mem_oldest_filter {limit : ℤ} {l : List Entry} {p : Entry → Bool}
    (hp : l.Pairwise fun a b => p a = true → p b = true) {e : Entry} (he : p e = true) :
    e ∈ oldest limit l ↔ e ∈ oldest limit (l.filter p) := by
  induction l with
  | nil => rfl
  | cons a l ih =>
    obtain ⟨hhead, htail⟩ := List.pairwise_cons.mp hp
    by_cases ha : p a = true
    · have hall : (a :: l).filter p = a :: l := by
        refine List.filter_eq_self.mpr fun b hb => ?_
        rcases List.mem_cons.mp hb with rfl | hb
        · exact ha
        · exact hhead b hb ha
      rw [hall]
    · have hne : e ≠ a := fun h => ha (h ▸ he)
      rw [List.filter_cons_of_neg ha, ← ih htail]
      by_cases hlimit : limit ≤ l.length
      · have hsucc :
            (((a :: l).length : ℤ) - limit).toNat = ((l.length : ℤ) - limit).toNat + 1 := by
          rw [List.length_cons]
          omega
        rw [oldest, oldest, hsucc, List.take_succ_cons, List.mem_cons]
        exact or_iff_right hne
      · have hzero : ((l.length : ℤ) - limit).toNat = 0 := by omega
        have hone : (((a :: l).length : ℤ) - limit).toNat ≤ 0 := by
          rw [List.length_cons]
          omega
        rw [oldest, oldest, hzero, Nat.le_zero.mp hone, List.take_zero, List.take_zero]

theorem eq_filter_of_sublist {l l' : List Entry} (h : l'.Sublist l) (hnodup : l.Nodup) :
    l' = l.filter fun e => e ∈ l' := by
  induction h with
  | slnil => rfl
  | @cons l' l a hsub ih =>
    obtain ⟨ha, hrest⟩ := List.nodup_cons.mp hnodup
    have hout : a ∉ l' := fun hmem => ha (hsub.subset hmem)
    rw [List.filter_cons_of_neg (by simpa using hout)]
    exact ih hrest
  | @cons_cons l' l a hsub ih =>
    obtain ⟨ha, hrest⟩ := List.nodup_cons.mp hnodup
    rw [List.filter_cons_of_pos (by simp)]
    refine congrArg (a :: ·) ((ih hrest).trans (List.filter_congr fun e he => ?_))
    have hne : e ≠ a := fun h => ha (h ▸ he)
    simp [hne]

theorem filter_eq_of_sublist {l l₁ l₂ : List Entry} (hnodup : l.Nodup) (h₁ : l₁.Sublist l)
    (h₂ : l₂.Sublist l) {p : Entry → Bool}
    (hiff : ∀ e ∈ l, p e = true → (e ∈ l₁ ↔ e ∈ l₂)) : l₁.filter p = l₂.filter p := by
  rw [eq_filter_of_sublist h₁ hnodup, eq_filter_of_sublist h₂ hnodup, List.filter_filter,
    List.filter_filter]
  refine List.filter_congr fun e he => ?_
  by_cases hpe : p e = true
  · simp [hpe, hiff e he hpe]
  · simp [hpe]

/-! ### The refinement -/

namespace Book

/-- Sessions are registered one after the other, each under an identifier of its own. -/
structure Ordered (b : Book) (now : ℚ) : Prop where
  sorted : b.registered.Pairwise fun e e' => e.createdAt ≤ e'.createdAt
  past : ∀ e ∈ b.registered, e.createdAt ≤ now
  nodup : (b.registered.map (·.sid)).Nodup
  named : ∀ e ∈ b.registered, e.sid ≠ "" ∧ e.username ≠ ""
  revoked : ∀ sid ∈ b.revoked, sid ∈ b.registered.map (·.sid)
  dropped : ∀ sid ∈ b.dropped, sid ∈ b.registered.map (·.sid)

theorem Ordered.eq_of_sid {b : Book} {now : ℚ} (h : b.Ordered now) {e e' : Entry}
    (he : e ∈ b.registered) (he' : e' ∈ b.registered) (hsid : e.sid = e'.sid) : e = e' :=
  List.inj_on_of_nodup_map h.nodup he he' hsid

theorem mem_live {b : Book} {e : Entry} :
    e ∈ b.live ↔ e ∈ b.registered ∧ e.sid ∉ b.revoked ∧ e.sid ∉ b.dropped := by
  simp [live]

theorem live_revokeWhere {b : Book} {now : ℚ} (h : b.Ordered now) {p : Entry → Bool} {e : Entry}
    (he : e ∈ b.registered) : e ∈ (b.revokeWhere p).live ↔ e ∈ b.live ∧ p e = false := by
  have hrevoked : e.sid ∈ (b.registered.filter p).map (·.sid) ↔ p e = true := by
    simp only [List.mem_map, List.mem_filter]
    constructor
    · rintro ⟨e', ⟨he', hp⟩, hsid⟩
      rwa [← h.eq_of_sid he' he hsid]
    · exact fun hp => ⟨e, ⟨he, hp⟩, rfl⟩
  simp only [mem_live, revokeWhere, List.mem_append, hrevoked, not_or, Bool.not_eq_true]
  tauto

end Book

structure Shows (c : Settings) (now : ℚ) (d : Sessions) (b : Book) : Prop where
  sublist : (view d).Sublist b.registered
  mem_iff : ∀ e ∈ b.registered, c.expired now e.createdAt = false → (e ∈ view d ↔ e ∈ b.live)

structure Refines (c : Settings) (now : ℚ) (s : Registry) (b : Book) : Prop where
  ordered : b.Ordered now
  memory : Shows c now s.sessions b
  file : Shows c now s.file b

section

variable {c : Settings} {now : ℚ} {d : Sessions} {s : Registry} {b : Book}

theorem expired_mono {now' createdAt : ℚ} (hnow : now ≤ now')
    (h : c.expired now' createdAt = false) : c.expired now createdAt = false := by
  simp only [Settings.expired, Bool.and_eq_false_iff, decide_eq_false_iff_not, not_lt] at h ⊢
  exact h.imp_right fun h => (sub_le_sub_right hnow _).trans h

theorem Shows.mono {now' : ℚ} (h : Shows c now d b) (hnow : now ≤ now') : Shows c now' d b :=
  ⟨h.sublist, fun e he hfresh => h.mem_iff e he (expired_mono hnow hfresh)⟩

theorem Refines.mono {now' : ℚ} (h : Refines c now s b) (hnow : now ≤ now') :
    Refines c now' s b :=
  ⟨{ h.ordered with past := fun e he => (h.ordered.past e he).trans hnow },
    h.memory.mono hnow, h.file.mono hnow⟩

theorem Shows.of_view_eq {d' : Sessions} (h : Shows c now d b) (hview : view d' = view d) :
    Shows c now d' b :=
  ⟨hview ▸ h.sublist, fun e he hfresh => hview ▸ h.mem_iff e he hfresh⟩

theorem Shows.revokeWhere {d' : Sessions} (h : Shows c now d b) (hb : b.Ordered now)
    {p : Entry → Bool} (hview : view d' = (view d).filter fun e => !p e) :
    Shows c now d' (b.revokeWhere p) := by
  constructor
  · rw [hview]
    exact List.filter_sublist.trans h.sublist
  · intro e he hfresh
    rw [Book.live_revokeWhere hb he, hview, List.mem_filter, ← h.mem_iff e he hfresh,
      Bool.not_eq_true']

theorem Shows.revokeWhere_none {d' : Sessions} (h : Shows c now d b) (h' : Shows c now d' b)
    (hb : b.Ordered now) {p : Entry → Bool} (hnone : ∀ e ∈ view d', p e = false) :
    Shows c now d (b.revokeWhere p) := by
  refine ⟨h.sublist, fun e he hfresh => ?_⟩
  rw [Book.live_revokeWhere hb he, h.mem_iff e he hfresh]
  constructor
  · exact fun hlive => ⟨hlive, hnone e ((h'.mem_iff e he hfresh).mpr hlive)⟩
  · exact And.left

theorem Book.Ordered.revokeWhere (h : b.Ordered now) (p : Entry → Bool) :
    (b.revokeWhere p).Ordered now := by
  refine { h with revoked := fun sid hsid => ?_ }
  rcases List.mem_append.mp hsid with hsid | hsid
  · exact h.revoked sid hsid
  · exact (List.filter_sublist.map _).subset hsid

theorem Shows.erase_expired (h : Shows c now d b) {sid : String} {record : Record}
    (hlookup : d.lookup sid = some record) (hexpired : c.expired now record.createdAt = true) :
    Shows c now (d.erase sid) b := by
  constructor
  · rw [view_erase]
    exact List.filter_sublist.trans h.sublist
  · intro e he hfresh
    rw [← h.mem_iff e he hfresh, view_erase, List.mem_filter, decide_eq_true_eq]
    refine and_iff_left_of_imp fun hmem hsid => ?_
    obtain ⟨record', hlookup', -, hcreated⟩ := mem_view.mp hmem
    rw [hsid, hlookup, Option.some.injEq] at hlookup'
    subst hlookup'
    rw [hcreated, hfresh] at hexpired
    exact Bool.noConfusion hexpired

theorem Shows.loadIntoMemory (h : Shows c now s.file b) (hb : b.Ordered now) :
    Shows c now (loadIntoMemory c now s).sessions b := by
  constructor
  · rw [view_loadIntoMemory]
    exact List.filter_sublist.trans h.sublist
  · intro e he hfresh
    obtain ⟨hsid, husername⟩ := hb.named e he
    rw [← h.mem_iff e he hfresh, view_loadIntoMemory, List.mem_filter]
    simp [hsid, husername, hfresh]

/-! ### A registration -/

theorem Book.Ordered.append (h : b.Ordered now) (e : Entry)
    (hnew : e.sid ∉ b.registered.map (·.sid)) (hat : e.createdAt = now)
    (hnamed : e.sid ≠ "" ∧ e.username ≠ "") :
    Book.Ordered { b with registered := b.registered ++ [e] } now where
  sorted := by
    refine List.pairwise_append.mpr
      ⟨h.sorted, List.pairwise_singleton _ _, fun e' he' e'' he'' => ?_⟩
    rw [List.mem_singleton.mp he'', hat]
    exact h.past e' he'
  past e' he' := by
    rcases List.mem_append.mp he' with he' | he'
    · exact h.past e' he'
    · rw [List.mem_singleton.mp he', hat]
  nodup := by
    rw [List.map_append, List.nodup_append]
    refine ⟨h.nodup, List.nodup_singleton _, fun sid hsid sid' hsid' => ?_⟩
    rw [List.map_singleton, List.mem_singleton] at hsid'
    rintro rfl
    exact hnew (hsid' ▸ hsid)
  named e' he' := by
    rcases List.mem_append.mp he' with he' | he'
    · exact h.named e' he'
    · rwa [List.mem_singleton.mp he']
  revoked sid hsid := by simp [h.revoked sid hsid]
  dropped sid hsid := by simp [h.dropped sid hsid]

theorem Book.Ordered.register (h : b.Ordered now) (e : Entry)
    (hnew : e.sid ∉ b.registered.map (·.sid)) (hat : e.createdAt = now)
    (hnamed : e.sid ≠ "" ∧ e.username ≠ "") (limit : ℤ) : (b.register limit e).Ordered now := by
  have happend := h.append e hnew hat hnamed
  refine { happend with dropped := fun sid hsid => ?_ }
  rcases List.mem_append.mp hsid with hsid | hsid
  · exact happend.dropped sid hsid
  · refine (List.Sublist.map _ ?_).subset hsid
    exact (List.take_sublist _ _).trans (List.filter_sublist.trans List.filter_sublist)

theorem expired_of_le {createdAt createdAt' : ℚ} (hle : createdAt ≤ createdAt')
    (h : c.expired now createdAt = false) : c.expired now createdAt' = false := by
  simp only [Settings.expired, Bool.and_eq_false_iff, decide_eq_false_iff_not, not_lt] at h ⊢
  exact h.imp_right fun h => (sub_le_sub_left hle _).trans h

theorem Shows.append (h : Shows c now d b) (hb : b.Ordered now) {e : Entry} {record : Record}
    (hnew : e.sid ∉ b.registered.map (·.sid)) (husername : record.username = e.username)
    (hcreated : record.createdAt = e.createdAt) :
    view (Dict.set d e.sid record) = view d ++ [e] ∧
      Shows c now (Dict.set d e.sid record) { b with registered := b.registered ++ [e] } := by
  have hnone : d.lookup e.sid = none := by
    cases hlookup : d.lookup e.sid with
    | none => rfl
    | some record' =>
      have hmem : (⟨e.sid, record'.username, record'.createdAt⟩ : Entry) ∈ view d :=
        mem_view.mpr ⟨record', hlookup, rfl, rfl⟩
      exact absurd (List.mem_map_of_mem (h.sublist.subset hmem)) hnew
  have hview : view (Dict.set d e.sid record) = view d ++ [e] := by
    rw [view_set_of_none hnone, husername, hcreated]
  refine ⟨hview, ?_, fun e' he' hfresh => ?_⟩
  · rw [hview]
    exact h.sublist.append (List.Sublist.refl [e])
  · have hlive : e.sid ∉ b.revoked ∧ e.sid ∉ b.dropped :=
      ⟨fun hsid => hnew (hb.revoked _ hsid), fun hsid => hnew (hb.dropped _ hsid)⟩
    rw [hview, List.mem_append, List.mem_singleton, Book.mem_live]
    by_cases heq : e' = e
    · subst heq
      simp [hlive]
    · have hold : e' ∈ b.registered := by simpa [heq] using he'
      have hiff := h.mem_iff e' hold hfresh
      rw [Book.mem_live] at hiff
      simpa [heq, hold] using hiff

theorem Shows.register (h : Shows c now d b) (hb : b.Ordered now) (e : Entry) {record : Record}
    (hnew : e.sid ∉ b.registered.map (·.sid)) (husername : record.username = e.username)
    (hcreated : record.createdAt = e.createdAt) (hat : e.createdAt = now)
    (hnamed : e.sid ≠ "" ∧ e.username ≠ "") :
    Shows c now (enforceCap c e.username (Dict.set d e.sid record))
      (b.register c.maxPerUser e) := by
  obtain ⟨-, hshows⟩ := h.append hb hnew husername hcreated
  have hordered := hb.append e hnew hat hnamed
  generalize Dict.set d e.sid record = d' at hshows ⊢
  have hdrop : b.register c.maxPerUser e =
      { registered := b.registered ++ [e], revoked := b.revoked, dropped := b.dropped ++
        (Book.oldest c.maxPerUser
          ((Book.live { b with registered := b.registered ++ [e] }).filter
            fun e' => e'.username == e.username)).map (·.sid) } := rfl
  rw [hdrop]
  generalize hb' : ({ b with registered := b.registered ++ [e] } : Book) = b' at hshows hordered ⊢
  have hregistered : b.registered ++ [e] = b'.registered := by rw [← hb']
  have hrevoked : b.revoked = b'.revoked := by rw [← hb']
  have hdropped : b.dropped = b'.dropped := by rw [← hb']
  rw [hregistered, hrevoked, hdropped]
  have hsorted := hordered.sorted.sublist hshows.sublist
  have hown : ((view d').filter fun e' => e'.username == e.username).Sublist b'.registered :=
    List.filter_sublist.trans hshows.sublist
  have hownLive : (b'.live.filter fun e' => e'.username == e.username).Sublist b'.registered :=
    List.filter_sublist.trans List.filter_sublist
  constructor
  · rw [view_enforceCap c _ hsorted]
    exact List.filter_sublist.trans hshows.sublist
  · intro e' he' hfresh
    -- sessions are in the order of registration, so that the live ones come last
    have hmono : ∀ {l : List Entry}, l.Sublist b'.registered → l.Pairwise fun x y =>
        (!c.expired now x.createdAt) = true → (!c.expired now y.createdAt) = true := by
      intro l hl
      refine (hordered.sorted.sublist hl).imp fun hle hx => ?_
      rw [Bool.not_eq_true'] at hx ⊢
      exact expired_of_le hle hx
    have hsame : ((view d').filter fun e' => e'.username == e.username).filter
          (fun x => !c.expired now x.createdAt) =
        (b'.live.filter fun e' => e'.username == e.username).filter
          fun x => !c.expired now x.createdAt := by
      refine filter_eq_of_sublist (List.Nodup.of_map _ hordered.nodup) hown hownLive
        fun x hx hp => ?_
      rw [Bool.not_eq_true'] at hp
      rw [List.mem_filter, List.mem_filter, hshows.mem_iff x hx hp]
    have hoff : ∀ {l : List Entry}, l.Sublist b'.registered →
        (e'.sid ∈ (Book.oldest c.maxPerUser l).map (·.sid) ↔ e' ∈ Book.oldest c.maxPerUser l) := by
      intro l hl
      constructor
      · intro hsid
        obtain ⟨x, hx, hxsid⟩ := List.mem_map.mp hsid
        have hxmem := hl.subset ((List.take_sublist _ _).subset hx)
        rwa [← hordered.eq_of_sid hxmem he' hxsid]
      · exact fun hmem => List.mem_map_of_mem hmem
    -- hence the limit drops the same live sessions of both
    have holdest : e' ∈ Book.oldest c.maxPerUser
          ((view d').filter fun e' => e'.username == e.username) ↔
        e' ∈ Book.oldest c.maxPerUser (b'.live.filter fun e' => e'.username == e.username) := by
      have hp : (!c.expired now e'.createdAt) = true := by rw [hfresh]; rfl
      rw [Book.mem_oldest_filter (hmono hown) hp, Book.mem_oldest_filter (hmono hownLive) hp, hsame]
    rw [view_enforceCap c _ hsorted, List.mem_filter, decide_eq_true_eq, hoff hown, holdest,
      hshows.mem_iff e' he' hfresh, Book.mem_live, Book.mem_live, List.mem_append, hoff hownLive]
    simp only [not_or]
    tauto

/-! ### Whole runs -/

theorem Refines.isValid_iff (h : Refines c now s b) (sid username : String) :
    (isValid c sid username now s).1 = true ↔ b.Valid c sid username now := by
  constructor
  · intro hvalid
    simp only [isValid] at hvalid
    by_cases hsid : sid = ""
    · simp [hsid] at hvalid
    rw [if_neg hsid] at hvalid
    cases hlookup : s.sessions.lookup sid with
    | none => simp [hlookup] at hvalid
    | some record =>
      simp only [hlookup] at hvalid
      by_cases husername : record.username = username
      · cases hexpired : c.expired now record.createdAt with
        | true => simp [husername, hexpired] at hvalid
        | false =>
          have hmem : (⟨sid, username, record.createdAt⟩ : Entry) ∈ view s.sessions :=
            mem_view.mpr ⟨record, hlookup, husername, rfl⟩
          have hregistered := h.memory.sublist.subset hmem
          have hlive := (h.memory.mem_iff _ hregistered hexpired).mp hmem
          obtain ⟨-, hrevoked, hdropped⟩ := Book.mem_live.mp hlive
          exact ⟨_, hregistered, rfl, rfl, hrevoked, hexpired, hdropped⟩
      · simp [husername] at hvalid
  · rintro ⟨e, he, rfl, rfl, hrevoked, hexpired, hdropped⟩
    have hmem := (h.memory.mem_iff e he hexpired).mpr (Book.mem_live.mpr ⟨he, hrevoked, hdropped⟩)
    obtain ⟨record, hlookup, husername, hcreated⟩ := mem_view.mp hmem
    simp [isValid, (h.ordered.named e he).1, hlookup, husername, hcreated, hexpired]

def Call.reading : Call → Option ℚ
  | .register _ _ _ _ now | .isValid _ _ now | .touch _ now | .restart now => some now
  | .revoke .. | .revokeOthers .. | .revokeAll _ => none

def Call.drawn : Call → Option String
  | .register sid .. => some sid
  | _ => none

/-- An account has a name, and an identifier that is drawn is not empty. -/
def Call.Named : Call → Prop
  | .register sid username .. => sid ≠ "" ∧ username ≠ ""
  | _ => True

instance (call : Call) : Decidable call.Named := by
  cases call <;> unfold Call.Named <;> infer_instance

theorem Refines.persist (h : Refines c now s b) {d : Sessions} (hd : Shows c now d b) :
    Refines c now (persist { s with sessions := d }) b := ⟨h.ordered, hd, hd⟩

theorem view_erase_lookup {sid username : String} {record : Record}
    (hlookup : d.lookup sid = some record) (husername : record.username = username) :
    view (d.erase sid) =
      (view d).filter fun e => !(e.sid == sid && e.username == username) := by
  rw [view_erase]
  refine List.filter_congr fun e he => ?_
  by_cases hsid : e.sid = sid
  · obtain ⟨record', hlookup', husername', -⟩ := mem_view.mp he
    rw [hsid, hlookup, Option.some.injEq] at hlookup'
    subst hlookup'
    simp [hsid, ← husername', husername]
  · simp [hsid]

theorem Refines.revoke (h : Refines c now s b) (sid username : String) :
    Refines c now (revoke sid username s).2
      (b.revokeWhere fun e => e.sid == sid && e.username == username) := by
  have hordered := h.ordered.revokeWhere fun e => e.sid == sid && e.username == username
  -- No session of this user is under the identifier.
  have hmiss : (∀ e ∈ view s.sessions, (e.sid == sid && e.username == username) = false) →
      Refines c now s (b.revokeWhere fun e => e.sid == sid && e.username == username) :=
    fun hnone => ⟨hordered, h.memory.revokeWhere_none h.memory h.ordered hnone,
      h.file.revokeWhere_none h.memory h.ordered hnone⟩
  simp only [SessionRegistry.revoke]
  cases hlookup : s.sessions.lookup sid with
  | none =>
    refine hmiss fun e he => ?_
    obtain ⟨record, hrecord, -⟩ := mem_view.mp he
    by_cases hsid : e.sid = sid
    · rw [hsid, hlookup] at hrecord
      exact absurd hrecord (Option.some_ne_none record).symm
    · simp [hsid]
  | some record =>
    by_cases husername : record.username = username
    · have hshows := h.memory.revokeWhere h.ordered (view_erase_lookup hlookup husername)
      simp only [husername, ne_eq, not_true_eq_false, if_false]
      exact ⟨hordered, hshows, hshows⟩
    · simp only [ne_eq, husername, not_false_eq_true, if_true]
      refine hmiss fun e he => ?_
      obtain ⟨record', hrecord, hname, -⟩ := mem_view.mp he
      by_cases hsid : e.sid = sid
      · rw [hsid, hlookup, Option.some.injEq] at hrecord
        subst hrecord
        simp [← hname, husername]
      · simp [hsid]

theorem Refines.revokeOthers (h : Refines c now s b) (keepSid username : String) :
    Refines c now (revokeOthers keepSid username s).2
      (b.revokeWhere fun e => e.username == username && e.sid != keepSid) := by
  have hordered := h.ordered.revokeWhere fun e => e.username == username && e.sid != keepSid
  have htargets := view_filter_entries s.sessions fun e =>
    e.username == username && e.sid != keepSid
  simp only at htargets
  simp only [SessionRegistry.revokeOthers]
  by_cases hempty : (s.sessions.entries.filter fun entry =>
      entry.2.username == username && entry.1 != keepSid).isEmpty = true
  · rw [if_pos hempty]
    -- nothing is written, and there is nothing to revoke
    rw [List.isEmpty_iff] at hempty
    rw [hempty, List.map_nil, eq_comm, List.filter_eq_nil_iff] at htargets
    have hnone : ∀ e ∈ view s.sessions, (e.username == username && e.sid != keepSid) = false :=
      fun e he => Bool.eq_false_iff.mpr (htargets e he)
    exact ⟨hordered, h.memory.revokeWhere_none h.memory h.ordered hnone,
      h.file.revokeWhere_none h.memory h.ordered hnone⟩
  · rw [if_neg hempty]
    -- erasing the identifiers one by one is one filter, as each stands once
    have hview : view ((s.sessions.entries.filter fun entry =>
        entry.2.username == username && entry.1 != keepSid).foldl
          (fun sessions entry => sessions.erase entry.1) s.sessions) =
        (view s.sessions).filter fun e => !(e.username == username && e.sid != keepSid) := by
      rw [view_foldl_erase]
      refine List.filter_congr fun e he => ?_
      have hmem : e.sid ∈ (s.sessions.entries.filter fun entry =>
          entry.2.username == username && entry.1 != keepSid).map (·.1) ↔
          (e.username == username && e.sid != keepSid) = true := by
        have hmap : (s.sessions.entries.filter fun entry =>
            entry.2.username == username && entry.1 != keepSid).map (·.1) =
            ((view s.sessions).filter fun e => e.username == username && e.sid != keepSid).map
              (·.sid) := by
          rw [← htargets, List.map_map]
          rfl
        rw [hmap, List.mem_map]
        constructor
        · rintro ⟨e', he', hsid⟩
          obtain ⟨hview', hp⟩ := List.mem_filter.mp he'
          rwa [← h.ordered.eq_of_sid (h.memory.sublist.subset hview')
            (h.memory.sublist.subset he) hsid]
        · exact fun hp => ⟨e, List.mem_filter.mpr ⟨he, hp⟩, rfl⟩
      rw [Bool.eq_iff_iff, decide_eq_true_eq, hmem, Bool.not_eq_true', Bool.not_eq_true]
    have hshows := h.memory.revokeWhere h.ordered hview
    exact ⟨hordered, hshows, hshows⟩

theorem Refines.revokeAll (h : Refines c now s b) (username : String) :
    Refines c now (revokeAll username s).2
      (b.revokeWhere fun e => e.username == username) := by
  have hsame : (b.revokeWhere fun e => e.username == username) =
      b.revokeWhere fun e => e.username == username && e.sid != "" := by
    have hfilter : (b.registered.filter fun e => e.username == username) =
        b.registered.filter fun e => e.username == username && e.sid != "" :=
      List.filter_congr fun e he => by simp [(h.ordered.named e he).1]
    rw [Book.revokeWhere, Book.revokeWhere, hfilter]
  rw [hsame]
  exact h.revokeOthers "" username

theorem Refines.step (h : Refines c now s b) {call : Call}
    (hreading : ∀ t ∈ call.reading, t = now) (hnamed : call.Named)
    (hdrawn : ∀ sid ∈ call.drawn, sid ∉ b.registered.map (·.sid)) :
    Refines c now (step c s call) (b.step c call) := by
  cases call with
  | register sid username ip userAgent t =>
    obtain rfl : t = now := hreading t rfl
    have hnew := hdrawn sid rfl
    have hordered : (b.register c.maxPerUser ⟨sid, username, t⟩).Ordered t :=
      h.ordered.register ⟨sid, username, t⟩ hnew rfl hnamed c.maxPerUser
    have hshows : Shows c t (register c sid username ip userAgent t s).sessions
        (b.register c.maxPerUser ⟨sid, username, t⟩) :=
      h.memory.register h.ordered ⟨sid, username, t⟩ hnew rfl rfl rfl hnamed
    exact ⟨hordered, hshows, hshows⟩
  | isValid sid username t =>
    obtain rfl : t = now := hreading t rfl
    simp only [SessionRegistry.step, isValid, Book.step]
    by_cases hsid : sid = ""
    · rwa [if_pos hsid]
    rw [if_neg hsid]
    cases hlookup : s.sessions.lookup sid with
    | none => exact h
    | some record =>
      by_cases husername : record.username = username
      -- an expired session is no longer in the book's view, and is now written off
      · cases hexpired : c.expired t record.createdAt with
        | true =>
          simp only [husername, ne_eq, not_true_eq_false, if_false, hexpired, if_true]
          exact h.persist (h.memory.erase_expired hlookup hexpired)
        | false => simpa [husername, hexpired] using h
      · simpa [husername] using h
  | touch sid t =>
    simp only [SessionRegistry.step, touch, Book.step]
    cases hlookup : s.sessions.lookup sid with
    | none => exact h
    | some record =>
      exact ⟨h.ordered, h.memory.of_view_eq (view_set_of_some hlookup rfl rfl), h.file⟩
  | revoke sid username => exact h.revoke sid username
  | revokeOthers keepSid username => exact h.revokeOthers keepSid username
  | revokeAll username => exact h.revokeAll username
  | restart t =>
    obtain rfl : t = now := hreading t rfl
    exact ⟨h.ordered, h.file.loadIntoMemory h.ordered, h.file⟩

/-- A clock that never goes back, identifiers that are drawn once, and accounts with names. -/
structure Admissible (calls : List Call) : Prop where
  clock : (calls.filterMap Call.reading).Pairwise (· ≤ ·)
  fresh : (calls.filterMap Call.drawn).Nodup
  named : ∀ call ∈ calls, call.Named

theorem Admissible.of_append {calls calls' : List Call} (h : Admissible (calls ++ calls')) :
    Admissible calls where
  clock := by
    have hclock := h.clock
    rw [List.filterMap_append, List.pairwise_append] at hclock
    exact hclock.1
  fresh := by
    have hfresh := h.fresh
    rw [List.filterMap_append, List.nodup_append] at hfresh
    exact hfresh.1
  named call hcall := h.named call (List.mem_append_left _ hcall)

theorem registered_sids (c : Settings) (calls : List Call) :
    (Runs.run (Book.step c) {} calls).registered.map (·.sid) = calls.filterMap Call.drawn := by
  induction calls using List.reverseRecOn with
  | nil => rfl
  | append_singleton calls call ih =>
    rw [Runs.run_snoc, List.filterMap_append, ← ih]
    cases call <;> simp [Book.step, Book.register, Book.revokeWhere, Call.drawn]

theorem refines_run (c : Settings) {calls : List Call} (h : Admissible calls) {now : ℚ}
    (hnow : ∀ t ∈ calls.filterMap Call.reading, t ≤ now) :
    Refines c now (Runs.run (step c) {} calls) (Runs.run (Book.step c) {} calls) := by
  induction calls using List.reverseRecOn generalizing now with
  | nil =>
    have hempty : Shows c now ∅ {} :=
      ⟨List.Sublist.refl [], fun e he => absurd he (List.not_mem_nil)⟩
    exact ⟨⟨List.Pairwise.nil, by simp, List.nodup_nil, by simp, by simp, by simp⟩, hempty, hempty⟩
  | append_singleton calls call ih =>
    rw [Runs.run_snoc, Runs.run_snoc]
    have hnamed := h.named call (List.mem_append_right _ (List.mem_singleton_self call))
    have hdrawn : ∀ sid ∈ call.drawn,
        sid ∉ (Runs.run (Book.step c) {} calls).registered.map (·.sid) := by
      intro sid hsid
      have hfresh := h.fresh
      rw [List.filterMap_append, List.nodup_append] at hfresh
      rw [registered_sids]
      exact fun hmem => hfresh.2.2 sid hmem sid (by simp [Option.mem_def.mp hsid]) rfl
    have hclock := h.clock
    rw [List.filterMap_append, List.pairwise_append] at hclock
    cases hreading : call.reading with
    | none =>
      refine (ih h.of_append fun t ht => hnow t ?_).step (by simp [hreading]) hnamed hdrawn
      simp only [List.filterMap_append, List.mem_append]
      exact .inl ht
    | some t =>
      have hlast : t ∈ [call].filterMap Call.reading := by simp [hreading]
      have hrefines := (ih h.of_append fun t' ht' => hclock.2.2 t' ht' t hlast).step
        (by simp [hreading]) hnamed hdrawn
      refine hrefines.mono (hnow t ?_)
      simp only [List.filterMap_append, List.mem_append]
      exact .inr hlast

theorem Book.valid_register {sid username : String} (h : b.Ordered now)
    (hnew : sid ∉ b.registered.map (·.sid)) (hcap : 0 < c.maxPerUser) {now' : ℚ}
    (hexpired : c.expired now' now = false) :
    (b.register c.maxPerUser ⟨sid, username, now⟩).Valid c sid username now' := by
  have hrevoked : sid ∉ b.revoked := fun hsid => hnew (h.revoked _ hsid)
  have hdropped : sid ∉ b.dropped := fun hsid => hnew (h.dropped _ hsid)
  refine ⟨⟨sid, username, now⟩, by simp [Book.register], rfl, rfl, hrevoked, hexpired, ?_⟩
  have hown : (Book.live { b with registered := b.registered ++ [⟨sid, username, now⟩] }).filter
        (fun e => e.username == username) =
      (b.live.filter fun e => e.username == username) ++ [⟨sid, username, now⟩] := by
    simp [Book.live, hrevoked, hdropped]
  simp only [Book.register, List.mem_append, hown, not_or]
  refine ⟨hdropped, fun hsid => ?_⟩
  obtain ⟨e, he, hesid⟩ := List.mem_map.mp hsid
  rw [Book.oldest, List.take_append_of_le_length (by rw [List.length_append]; simp; omega)] at he
  have hmem : e ∈ b.registered :=
    (List.filter_sublist.trans List.filter_sublist).subset ((List.take_sublist _ _).subset he)
  exact hnew (hesid ▸ List.mem_map_of_mem hmem)

/-- Over whole runs, with restarts anywhere, the registry answers as its book does; and a session
that was just registered is valid, for as long as a session lives. -/
theorem registry_refines_book (c : Settings) (calls : List Call) (sid username : String) :
    (∀ now, Admissible (calls ++ [.isValid sid username now]) →
      ((isValid c sid username now (Runs.run (step c) {} calls)).1 = true ↔
        (Runs.run (Book.step c) {} calls).Valid c sid username now)) ∧
    ∀ ip userAgent now now',
      Admissible (calls ++ [.register sid username ip userAgent now, .isValid sid username now']) →
      0 < c.maxPerUser → c.expired now' now = false →
      (isValid c sid username now'
        (Runs.run (step c) {} (calls ++ [.register sid username ip userAgent now]))).1 = true := by
  have hreadings : ∀ {calls' : List Call} {call : Call} {now : ℚ}, call.reading = some now →
      Admissible (calls' ++ [call]) → ∀ t ∈ calls'.filterMap Call.reading, t ≤ now := by
    intro calls' call now hreading h t ht
    have hclock := h.clock
    rw [List.filterMap_append, List.pairwise_append] at hclock
    exact hclock.2.2 t ht now (by simp [hreading])
  constructor
  · intro now h
    exact (refines_run c h.of_append (hreadings rfl h)).isValid_iff sid username
  · intro ip userAgent now now' h hcap hexpired
    have hsplit : calls ++ [.register sid username ip userAgent now, .isValid sid username now'] =
        (calls ++ [.register sid username ip userAgent now]) ++ [.isValid sid username now'] := by
      simp
    rw [hsplit] at h
    have hbefore := refines_run c h.of_append.of_append (hreadings rfl h.of_append)
    have hnew : sid ∉ (Runs.run (Book.step c) {} calls).registered.map (·.sid) := by
      have hfresh := h.of_append.fresh
      rw [List.filterMap_append, List.nodup_append] at hfresh
      rw [registered_sids]
      exact fun hmem => hfresh.2.2 sid hmem sid (by simp [Call.drawn]) rfl
    refine ((refines_run c h.of_append (hreadings rfl h)).isValid_iff sid username).mpr ?_
    rw [Runs.run_snoc]
    exact Book.valid_register hbefore.ordered hnew hcap hexpired

end

/-! ### A registry at work -/

def tight : Settings := ⟨3600, 2⟩

def twoSessions : List Call :=
  [.register "s1" "jeremy" "192.0.2.1" "Firefox" 1000,
    .register "s2" "jeremy" "192.0.2.1" "Chrome" 1000, .restart 1010]

/-- The first session gave way to the third one. -/
theorem registry_refines_book_sample :
    (¬(Runs.run (Book.step tight) {} (twoSessions ++
        [.register "s3" "jeremy" "192.0.2.1" "Safari" 1020])).Valid tight "s1" "jeremy" 1030) ∧
    (isValid tight "s3" "jeremy" 1030 (Runs.run (step tight) {} (twoSessions ++
      [.register "s3" "jeremy" "192.0.2.1" "Safari" 1020]))).1 = true := by
  constructor
  · have hclock : Admissible (twoSessions ++ [.register "s3" "jeremy" "192.0.2.1" "Safari" 1020] ++
        [.isValid "s1" "jeremy" 1030]) := ⟨by decide +kernel, by decide +kernel, by decide +kernel⟩
    have hiff := (registry_refines_book tight _ "s1" "jeremy").1 1030 hclock
    exact (not_congr hiff).mp (by decide +kernel)
  · have hclock : Admissible (twoSessions ++ [.register "s3" "jeremy" "192.0.2.1" "Safari" 1020,
        .isValid "s3" "jeremy" 1030]) := ⟨by decide +kernel, by decide +kernel, by decide +kernel⟩
    exact (registry_refines_book tight twoSessions "s3" "jeremy").2 "192.0.2.1" "Safari" 1020 1030
      hclock (by decide) (by decide +kernel)

end SessionRegistry
