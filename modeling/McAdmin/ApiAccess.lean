import McAdmin.DataDirectory
import McAdmin.Roles

/-!
# Who an API token lets in

`_bearer_user` of `api_v1.py` reads a token from the header of a request, looks it up and takes the
role of the token for the role of the request.  `admitted_run` is about requests, creations and
revocations of tokens in any number and interleaved in any way: who is let in holds a token that was
created and not revoked before, and a token that stands is found.
-/

namespace DataFiles

open LockedFiles
open Backtracking (CharTable)
open OpLevelsWorker (Json)
open NotificationConfig (Fields)
open McAdmin

/-! ### The request -/

/-- `HTTPException` -/
structure Refusal where
  statusCode : ℕ
  detail : String
  headers : List (String × String)
deriving DecidableEq

/-- `header.partition(" ")` -/
def partition (header : List Char) : List Char × List Char :=
  (header.takeWhile (· ≠ ' '), (header.dropWhile (· ≠ ' ')).tail)

def bearerToken (u : CharTable) (header : String) : Option String :=
  let (scheme, raw) := partition header.toList
  if u.lower scheme ≠ "bearer".toList ∨ u.strip raw = [] then none
  else some (.ofList (u.strip raw))

def tokenRequired : Refusal :=
  ⟨401, "Jeton d'API requis (Authorization: Bearer …).", [("WWW-Authenticate", "Bearer")]⟩

def tokenInvalid : Refusal := ⟨401, "Jeton d'API invalide.", [("WWW-Authenticate", "Bearer")]⟩

def roleGone : Refusal := ⟨403, "Le rôle de ce jeton n'existe plus.", []⟩

/-- The end of `_bearer_user`, from what the token is resolved to. -/
def admitted (roles : String → Option Role) : Option ApiTokenInfo → Except Refusal User
  | none => .error tokenInvalid
  | some info =>
    match roles info.role with
    | none => .error roleGone
    | some role => .ok ⟨"api:" ++ info.label, role⟩

/-- `_bearer_user`, where `resolved` is what `resolve` returns for the token. -/
def bearerUser (u : CharTable) (roles : String → Option Role)
    (resolved : String → Option ApiTokenInfo) (header : String) : Except Refusal User :=
  match bearerToken u header with
  | none => .error tokenRequired
  | some raw => admitted roles (resolved raw)

theorem bearerToken_ne_empty {u : CharTable} {header raw : String}
    (h : bearerToken u header = some raw) : raw ≠ "" := by
  unfold bearerToken at h
  dsimp only at h
  split at h
  · cases h
  · next hheader =>
    rintro rfl
    have hnil := String.ofList_eq_empty_iff.mp (Option.some.inj h)
    exact hheader (.inr hnil)

/-! ### The tokens that stand -/

def touches (tokenId : String) : Call → Bool
  | .apiTokens (.create tokenId' ..) | .apiTokens (.revoke tokenId') => tokenId' = tokenId
  | _ => false

structure Creation where
  tokenId : String
  raw : String
  label : String
  role : String
  now : ℚ

def Creation.call (c : Creation) : Call := .apiTokens (.create c.tokenId c.raw c.label c.role c.now)

def Creation.info (cfg : Config) (c : Creation) : ApiTokenInfo :=
  ⟨c.tokenId, ApiTokenStore.cleanLabel cfg.u c.label, c.role, some c.now⟩

def Creation.token (cfg : Config) (c : Creation) : ApiTokenStore.Token :=
  .new cfg c.tokenId c.raw c.label c.role c.now

/-- The token was created, and nothing has concerned its identifier since, of the calls that could
read the file. -/
def Creation.Stands (c : Creation) (points : List (Point Call)) : Prop :=
  ∃ before p after, points = before ++ p :: after ∧ p.call = c.call ∧ p.sight ≠ .unreadable ∧
    ∀ q ∈ after, q.sight ≠ .unreadable → touches c.tokenId q.call = false

theorem stands_nil (c : Creation) : ¬c.Stands [] := by
  rintro ⟨before, p, after, h, -⟩
  exact absurd (congrArg List.length h) (by simp)

theorem stands_snoc (c : Creation) (points : List (Point Call)) (p : Point Call) :
    c.Stands (points ++ [p]) ↔
      (p.sight ≠ .unreadable ∧ p.call = c.call) ∨
        c.Stands points ∧ (p.sight ≠ .unreadable → touches c.tokenId p.call = false) := by
  constructor
  · rintro ⟨before, q, after, hpoints, hcall, hread, hafter⟩
    rcases List.eq_nil_or_concat' after with rfl | ⟨after, q', rfl⟩
    · obtain ⟨-, rfl⟩ := List.append_singleton_inj.mp hpoints
      exact .inl ⟨hread, hcall⟩
    · rw [← List.cons_append, ← List.append_assoc] at hpoints
      obtain ⟨rfl, rfl⟩ := List.append_singleton_inj.mp hpoints
      refine .inr ⟨⟨before, q, after, rfl, hcall, hread, fun q' hq' => ?_⟩, hafter p (by simp)⟩
      exact hafter q' (List.mem_append_left _ hq')
  · rintro (⟨hread, hcall⟩ | ⟨⟨before, q, after, rfl, hcall, hread, hafter⟩, hp⟩)
    · exact ⟨points, p, [], rfl, hcall, hread, by simp⟩
    · refine ⟨before, q, after ++ [p], by simp, hcall, hread, ?_⟩
      intro q' hq'
      rcases List.mem_append.mp hq' with hq' | hq'
      · exact hafter q' hq'
      · rwa [List.mem_singleton.mp hq']

/-! ### The tokens that are kept -/

section

variable {β : Type} {key key' : String} {value value' : β} {data : List (String × β)}

theorem keys_put : (put key value data).map (·.1) =
    if key ∈ data.map (·.1) then data.map (·.1) else data.map (·.1) ++ [key] := by
  induction data with
  | nil => rfl
  | cons entry data ih =>
    by_cases h : entry.1 = key
    · simp [put, h]
    · by_cases hmem : key ∈ data.map (·.1)
      · simp only [put, if_neg h, List.map_cons, ih, List.mem_cons, hmem, or_true, if_true]
      · have hne : ¬(key = entry.1 ∨ key ∈ data.map (·.1)) := by
          rintro (heq | hmem')
          · exact h heq.symm
          · exact hmem hmem'
        simp only [put, if_neg h, List.map_cons, ih, if_neg hmem, List.mem_cons, if_neg hne,
          List.cons_append]

theorem nodup_put (h : (data.map (·.1)).Nodup) : ((put key value data).map (·.1)).Nodup := by
  rw [keys_put]
  split
  · exact h
  · next hmem =>
    exact h.append (List.nodup_singleton _) (List.disjoint_singleton.mpr hmem)

theorem mem_put (h : (data.map (·.1)).Nodup) :
    (key', value') ∈ put key value data ↔
      (key' = key ∧ value' = value) ∨ (key' ≠ key ∧ (key', value') ∈ data) := by
  induction data with
  | nil =>
    simp only [put, List.mem_singleton, Prod.mk.injEq, List.not_mem_nil, and_false, or_false]
  | cons entry data ih =>
    obtain ⟨hnew, hnodup⟩ := List.nodup_cons.mp h
    rw [put]
    split
    · next hkey =>
      obtain ⟨k, v⟩ := entry
      obtain rfl : k = key := hkey
      have hdata : (key', value') ∈ data → key' ≠ k := by
        rintro hmem rfl
        exact hnew (List.mem_map.mpr ⟨_, hmem, rfl⟩)
      simp only [List.mem_cons, Prod.mk.injEq]
      grind
    · next hkey =>
      obtain ⟨k, v⟩ := entry
      simp only [List.mem_cons, Prod.mk.injEq, ih hnodup]
      grind

theorem nodup_del (h : (data.map (·.1)).Nodup) : ((del key data).map (·.1)).Nodup :=
  h.sublist (List.filter_sublist.map _)

theorem mem_del : (key', value') ∈ del key data ↔ key' ≠ key ∧ (key', value') ∈ data := by
  simp [del, and_comm]

end

def tokensOf (d : Directory) : ApiTokenStore.Tokens := (d .apiTokens).shows

structure Tally (cfg : Config) (points : List (Point Call)) (d : Directory) : Prop where
  sound : (d .apiTokens).damage = none
  nodup : ((tokensOf d).map (·.1)).Nodup
  kept : ∀ tokenId token, (tokenId, token) ∈ tokensOf d ↔
    ∃ c : Creation, c.Stands points ∧ tokenId = c.tokenId ∧ token = c.token cfg

variable {cfg : Config} {points : List (Point Call)} {d d' : Directory} {p : Point Call}

theorem Tally.aside (h : Tally cfg points d) (hd : d' .apiTokens = d .apiTokens)
    (hcall : p.sight ≠ .unreadable → ∀ c : Creation, p.call ≠ c.call)
    (htouches : p.sight ≠ .unreadable → ∀ tokenId token, (tokenId, token) ∈ tokensOf d →
      touches tokenId p.call = false) : Tally cfg (points ++ [p]) d' := by
  have htokens : tokensOf d' = tokensOf d := congrArg Kept.shows hd
  refine ⟨hd ▸ h.sound, htokens ▸ h.nodup, ?_⟩
  intro tokenId token
  rw [htokens, h.kept]
  constructor
  · rintro ⟨c, hc, rfl, rfl⟩
    have hmem := (h.kept _ _).mpr ⟨c, hc, rfl, rfl⟩
    exact ⟨c, (stands_snoc c points p).mpr (.inr ⟨hc, fun hp => htouches hp _ _ hmem⟩), rfl, rfl⟩
  · rintro ⟨c, hc, rfl, rfl⟩
    rcases (stands_snoc c points p).mp hc with ⟨hp, hlast⟩ | ⟨hc, -⟩
    · exact absurd hlast (hcall hp c)
    · exact ⟨c, hc, rfl, rfl⟩

theorem Tally.create (h : Tally cfg points d) {c : Creation} (hcall : p.call = c.call)
    (hread : p.sight ≠ .unreadable)
    (hd : tokensOf d' = put c.tokenId (c.token cfg) (tokensOf d))
    (hsound : (d' .apiTokens).damage = none) : Tally cfg (points ++ [p]) d' := by
  refine ⟨hsound, hd ▸ nodup_put h.nodup, ?_⟩
  intro tokenId token
  rw [hd, mem_put h.nodup, h.kept]
  constructor
  · rintro (⟨rfl, rfl⟩ | ⟨hne, c', hc', rfl, rfl⟩)
    · exact ⟨c, (stands_snoc ..).mpr (.inl ⟨hread, hcall⟩), rfl, rfl⟩
    · refine ⟨c', (stands_snoc ..).mpr (.inr ⟨hc', fun _ => ?_⟩), rfl, rfl⟩
      rw [hcall]
      exact decide_eq_false (Ne.symm hne)
  · rintro ⟨c', hc', rfl, rfl⟩
    rcases (stands_snoc ..).mp hc' with ⟨-, hlast⟩ | ⟨hc', htouches⟩
    · have heq : c = c' := by
        obtain ⟨tokenId, raw, label, role, now⟩ := c
        obtain ⟨tokenId', raw', label', role', now'⟩ := c'
        simp only [hcall, Creation.call, Call.apiTokens.injEq,
          ApiTokenStore.Call.create.injEq] at hlast
        obtain ⟨rfl, rfl, rfl, rfl, rfl⟩ := hlast
        rfl
      exact .inl ⟨heq ▸ rfl, heq ▸ rfl⟩
    · have hother := htouches hread
      rw [hcall] at hother
      have hne : c.tokenId ≠ c'.tokenId := of_decide_eq_false hother
      exact .inr ⟨hne.symm, c', hc', rfl, rfl⟩

theorem Tally.revoke (h : Tally cfg points d) {tokenId : String}
    (hcall : p.call = .apiTokens (.revoke tokenId)) (hread : p.sight ≠ .unreadable)
    (hd : tokensOf d' = del tokenId (tokensOf d)) (hsound : (d' .apiTokens).damage = none) :
    Tally cfg (points ++ [p]) d' := by
  refine ⟨hsound, hd ▸ nodup_del h.nodup, ?_⟩
  intro tokenId' token
  rw [hd, mem_del, h.kept]
  constructor
  · rintro ⟨hne, c, hc, rfl, rfl⟩
    refine ⟨c, (stands_snoc ..).mpr (.inr ⟨hc, fun _ => ?_⟩), rfl, rfl⟩
    rw [hcall]
    exact decide_eq_false hne.symm
  · rintro ⟨c, hc, rfl, rfl⟩
    rcases (stands_snoc ..).mp hc with ⟨-, hlast⟩ | ⟨hc, htouches⟩
    · cases hcall.symm.trans hlast
    · have hother := htouches hread
      rw [hcall] at hother
      have hne : tokenId ≠ c.tokenId := of_decide_eq_false hother
      exact ⟨hne.symm, c, hc, rfl, rfl⟩

theorem has_eq_true_iff {β : Type} {key : String} {data : List (String × β)} :
    has key data = true ↔ ∃ value, (key, value) ∈ data := by
  induction data with
  | nil => simp [has]
  | cons entry data ih =>
    obtain ⟨k, v⟩ := entry
    unfold has at ih ⊢
    rw [lookup_cons_ite]
    by_cases h : key = k
    · simp [h]
    · simp [h, ih]

theorem Tally.seen (h : Tally cfg points d) {sight : Sight} (hread : sight ≠ .unreadable) :
    ∃ present, (ApiTokenStore.view cfg).seen (cfg.path .apiTokens) sight (d .apiTokens) =
      ⟨tokensOf d, none, present⟩ := by
  cases sight with
  | clear => exact ⟨(d .apiTokens).present, by rw [← h.sound]; rfl⟩
  | unreadable => exact absurd rfl hread
  | unseen => exact ⟨false, by rw [← h.sound]; rfl⟩

theorem Tally.step (h : Tally cfg points d) (p : Point Call) :
    Tally cfg (points ++ [p]) ((object cfg).after p.call p.sight d) := by
  obtain ⟨i, call, sight⟩ := p
  by_cases hstore : Store.apiTokens = call.store
  · cases call with
    | apiTokens call =>
      have hafter : (object cfg).after (.apiTokens call) sight d .apiTokens =
          (d .apiTokens).changed ((ApiTokenStore.spec cfg call).change
            ((ApiTokenStore.view cfg).seen (cfg.path .apiTokens) sight (d .apiTokens))) :=
        Function.update_self Store.apiTokens _ d
      by_cases hunread : sight = .unreadable
      · -- A call that cannot read the file refuses, or takes it for an empty one.
        subst hunread
        refine h.aside (hafter.trans ?_) (fun hread => absurd rfl hread)
          fun hread => absurd rfl hread
        cases call <;> rfl
      -- a call that reads sees the tokens of the tally
      · obtain ⟨present, hseen⟩ := h.seen hunread
        rw [hseen] at hafter
        cases call with
        | create tokenId raw label role now =>
          refine Tally.create (c := ⟨tokenId, raw, label, role, now⟩) h rfl hunread ?_ ?_
          · rw [tokensOf, hafter]
            rfl
          · rw [hafter]
            rfl
        | resolve raw => exact h.aside hafter (fun _ c hcall => by cases hcall) fun _ _ _ _ => rfl
        | list => exact h.aside hafter (fun _ c hcall => by cases hcall) fun _ _ _ _ => rfl
        | revoke tokenId =>
          cases hhas : has tokenId (tokensOf d) with
          | true =>
            have hchanged : (object cfg).after (.apiTokens (.revoke tokenId)) sight d .apiTokens =
                ⟨del tokenId (tokensOf d), none, true⟩ := by
              rw [hafter]
              simp only [ApiTokenStore.spec, Spec.change, hhas, if_true]
              rfl
            exact h.revoke rfl hunread (congrArg Kept.shows hchanged) (congrArg Kept.damage hchanged)
          | false =>
            refine h.aside ?_ (fun _ c hcall => by cases hcall) fun _ tokenId' token hmem => ?_
            · rw [hafter]
              simp only [ApiTokenStore.spec, Spec.change, hhas]
              rfl
            · refine decide_eq_false ?_
              intro heq
              subst heq
              exact Bool.false_ne_true (hhas.symm.trans (has_eq_true_iff.mpr ⟨token, hmem⟩))
    | _ => cases hstore
  · refine h.aside (Function.update_of_ne hstore ..) (fun _ c hcall => ?_) fun _ _ _ _ => ?_
    · exact hstore (congrArg Call.store hcall).symm
    · cases call with
      | apiTokens call => exact absurd rfl hstore
      | _ => rfl

theorem tally_replay (start : Store → Content Json) (hstart : start .apiTokens = .absent)
    (points : List (Point Call)) :
    Tally cfg points ((object cfg).replay (directory cfg start) points) := by
  induction points using List.reverseRecOn with
  | nil =>
    have htokens : directory cfg start .apiTokens = ⟨[], none, false⟩ := by
      rw [directory, hstart]
      rfl
    have hempty : tokensOf (directory cfg start) = [] := congrArg Kept.shows htokens
    refine ⟨congrArg Kept.damage htokens, ?_, fun tokenId token => ?_⟩
    · change ((tokensOf (directory cfg start)).map (·.1)).Nodup
      rw [hempty]
      exact List.nodup_nil
    · change (tokenId, token) ∈ tokensOf (directory cfg start) ↔ _
      rw [hempty]
      simp [stands_nil]
  | append_singleton points p ih =>
    have hreplay : (object cfg).replay (directory cfg start) (points ++ [p]) =
        (object cfg).after p.call p.sight ((object cfg).replay (directory cfg start) points) :=
      Runs.run_snoc ..
    rw [hreplay]
    exact ih.step p

/-! ### What is found -/

def Hexadecimal (cfg : Config) : Prop := ∀ raw, ∀ c ∈ (cfg.sha256 raw).toList, c.toNat < 128

theorem compareDigest_hash (hhex : Hexadecimal cfg) (raw raw' : String) :
    ApiTokenStore.compareDigest (cfg.sha256 raw) (cfg.sha256 raw') =
      .ok (decide (cfg.sha256 raw = cfg.sha256 raw')) := by
  unfold ApiTokenStore.compareDigest
  rw [if_pos]
  rw [List.all_eq_true]
  intro c hc
  rcases List.mem_append.mp hc with hc | hc
  · exact decide_eq_true (hhex raw c hc)
  · exact decide_eq_true (hhex raw' c hc)

theorem find_created (hhex : Hexadecimal cfg) (raw : String) {P : Creation → Prop}
    {tokens : ApiTokenStore.Tokens}
    (h : ∀ entry ∈ tokens, ∃ c, P c ∧ entry = (c.tokenId, c.token cfg)) :
    ∃ found : Option Creation,
      ApiTokenStore.find (cfg.sha256 raw) tokens = .ok (found.map (·.info cfg)) ∧
        (∀ c, found = some c → P c ∧ cfg.sha256 c.raw = cfg.sha256 raw) ∧
        (found = none → ∀ c : Creation, (c.tokenId, c.token cfg) ∈ tokens →
          cfg.sha256 c.raw ≠ cfg.sha256 raw) := by
  induction tokens with
  | nil => exact ⟨none, rfl, by simp, by simp⟩
  | cons entry tokens ih =>
    obtain ⟨hentry, hrest⟩ := List.forall_mem_cons.mp h
    obtain ⟨c, hc, rfl⟩ := hentry
    have hfind : ApiTokenStore.find (cfg.sha256 raw) ((c.tokenId, c.token cfg) :: tokens) =
        if cfg.sha256 c.raw = cfg.sha256 raw then .ok (some (c.info cfg))
        else ApiTokenStore.find (cfg.sha256 raw) tokens := by
      change (do
        if ← ApiTokenStore.compareDigest (cfg.sha256 c.raw) (cfg.sha256 raw) then
          return some (← Except.ok (c.info cfg))
        else ApiTokenStore.find (cfg.sha256 raw) tokens) = _
      rw [compareDigest_hash hhex]
      by_cases hsame : cfg.sha256 c.raw = cfg.sha256 raw
      · simp only [hsame, if_true]
        rfl
      · simp only [hsame, if_false]
        rfl
    rw [hfind]
    split
    · next hsame =>
      refine ⟨some c, rfl, ?_, fun hnone => nomatch hnone⟩
      intro c' hc'
      obtain rfl := Option.some.inj hc'
      exact ⟨hc, hsame⟩
    · next hother =>
      obtain ⟨found, hfound, hsome, hnone⟩ := ih hrest
      refine ⟨found, hfound, hsome, ?_⟩
      intro hfound c' hc'
      rcases List.mem_cons.mp hc' with heq | hc'
      · have htoken : c'.token cfg = c.token cfg := congrArg Prod.snd heq
        rwa [Option.some.inj (ApiTokenStore.Token.entry.inj htoken).1]
      · exact hnone hfound c' hc'

theorem resolve_answer (hhex : Hexadecimal cfg) (h : Tally cfg points d) {raw : String}
    (hraw : raw ≠ "") {sight : Sight} (hread : sight ≠ .unreadable) :
    ∃ found : Option Creation,
      (object cfg).answer (.apiTokens (.resolve raw)) sight d =
          .ok (.resolved (found.map (·.info cfg))) ∧
        (∀ c, found = some c → c.Stands points ∧ cfg.sha256 c.raw = cfg.sha256 raw) ∧
        (found = none → ∀ c : Creation, c.Stands points → cfg.sha256 c.raw ≠ cfg.sha256 raw) := by
  have hcreated : ∀ entry ∈ tokensOf d, ∃ c : Creation,
      c.Stands points ∧ entry = (c.tokenId, c.token cfg) := by
    rintro ⟨tokenId, token⟩ hentry
    obtain ⟨c, hc, rfl, rfl⟩ := (h.kept _ _).mp hentry
    exact ⟨c, hc, rfl⟩
  obtain ⟨present, hseen⟩ := h.seen hread
  obtain ⟨found, hfind, hsome, hnone⟩ := find_created hhex raw hcreated
  refine ⟨found, ?_, hsome, fun hfound c hc => ?_⟩
  · change (ApiTokenStore.spec cfg (.resolve raw)).answer ((ApiTokenStore.view cfg).seen
      (cfg.path .apiTokens) sight (d .apiTokens)) = _
    rw [hseen]
    change (if raw = "" then .ok (.resolved none)
      else Answer.resolved <$> ApiTokenStore.find (cfg.sha256 raw) (tokensOf d)) = _
    rw [if_neg hraw, hfind]
    rfl
  · exact hnone hfound c ((h.kept _ _).mpr ⟨c, hc, rfl, rfl⟩)

/-! ### The runs -/

/-- What the answer to a request rests on: a token that stands at its point, and none with that
hash does if the request is turned away and its file could be read. -/
structure Grounded (cfg : Config) (roles : String → Option Role) (header raw : String)
    (points : List (Point Call)) (sight : Sight) (info : Option ApiTokenInfo) : Prop where
  letIn : ∀ user, bearerUser cfg.u roles (fun _ => info) header = .ok user →
    ∃ c : Creation, c.Stands points ∧ cfg.sha256 c.raw = cfg.sha256 raw ∧
      roles c.role = some user.role ∧
      user.username = "api:" ++ ApiTokenStore.cleanLabel cfg.u c.label
  turnedAway : bearerUser cfg.u roles (fun _ => info) header = .error tokenInvalid →
    sight ≠ .unreadable → ∀ c : Creation, c.Stands points → cfg.sha256 c.raw ≠ cfg.sha256 raw

/-- Each answered request with a token has a point between its beginning and its end, and is decided
by the tokens that stand there. -/
def Guarded (cfg : Config) (roles : String → Option Role)
    (w : World Store Call Json Error Answer) : Prop :=
  ∀ (i : ℕ) (t : Thread Call Json Error Answer) (header raw : String)
    (answer : Except Error Answer) (till : ℕ),
    w.threads[i]? = some t → bearerToken cfg.u header = some raw →
    t.call = .apiTokens (.resolve raw) → t.phase = .ended (.answered answer) till →
      ∃ n p info, w.points[n]? = some p ∧ p.thread = i ∧ t.since ≤ n ∧ n < till ∧
        answer = .ok (.resolved info) ∧
          Grounded cfg roles header raw (w.points.take n) p.sight info

variable {roles : String → Option Role} {header raw : String}

theorem bearerUser_of_token {u : CharTable} (h : bearerToken u header = some raw)
    (info : Option ApiTokenInfo) :
    bearerUser u roles (fun _ => info) header = admitted roles info := by
  simp only [bearerUser, h]

theorem grounded_found (hheader : bearerToken cfg.u header = some raw) {found : Option Creation}
    {sight : Sight}
    (hsome : ∀ c, found = some c → c.Stands points ∧ cfg.sha256 c.raw = cfg.sha256 raw)
    (hnone : found = none → ∀ c : Creation, c.Stands points → cfg.sha256 c.raw ≠ cfg.sha256 raw) :
    Grounded cfg roles header raw points sight (found.map (·.info cfg)) := by
  cases found with
  | none =>
    refine ⟨?_, fun _ _ => hnone rfl⟩
    intro user huser
    rw [bearerUser_of_token hheader] at huser
    cases huser
  | some c =>
    obtain ⟨hc, hhash⟩ := hsome c rfl
    cases hrole : roles c.role with
    | none =>
      -- a role that no longer exists is not answered as an invalid token
      have hgone : admitted roles (some (c.info cfg)) = .error roleGone := by
        simp only [admitted, Creation.info, hrole]
      constructor
      · intro user huser
        rw [bearerUser_of_token hheader, Option.map_some, hgone] at huser
        cases huser
      · intro hinvalid
        rw [bearerUser_of_token hheader, Option.map_some, hgone] at hinvalid
        exact absurd (Except.error.inj hinvalid) (by decide)
    | some role =>
      have hin : admitted roles (some (c.info cfg)) = .ok ⟨"api:" ++ (c.info cfg).label, role⟩ := by
        simp only [admitted, Creation.info, hrole]
      constructor
      · intro user huser
        rw [bearerUser_of_token hheader, Option.map_some, hin] at huser
        obtain rfl := Except.ok.inj huser
        exact ⟨c, hc, hhash, hrole, rfl⟩
      · intro hinvalid
        rw [bearerUser_of_token hheader, Option.map_some, hin] at hinvalid
        cases hinvalid

theorem grounded_unread (hheader : bearerToken cfg.u header = some raw) :
    Grounded cfg roles header raw points .unreadable none := by
  constructor
  · intro user huser
    rw [bearerUser_of_token hheader] at huser
    cases huser
  · intro _ hread
    exact absurd rfl hread

/-- Of requests, creations and revocations in any number, with every access to the disk failing
or not and the process killed at any moment: a request that is answered is let in for a token that
was created and not revoked since, under its role, and is turned away as invalid only where no
token that stands has the hash. -/
theorem admitted_run (cfg : Config) (roles : String → Option Role) (hhex : Hexadecimal cfg)
    (start : Store → Content Json) (hstart : start .apiTokens = .absent)
    (events : List (Event Call)) :
    Guarded cfg roles (Runs.run (World.step (method cfg)) (World.start start) events) := by
  intro i t header raw answer till h hheader hcall hphase
  obtain ⟨n, p, hp, hthread, hpcall, hsince, hn, hanswer⟩ :=
    ((refines cfg).linearized start events).answered i t answer till h hphase
  have hraw := bearerToken_ne_empty hheader
  rw [hcall] at hpcall
  rw [hpcall] at hanswer
  by_cases hunread : p.sight = .unreadable
  · refine ⟨n, p, none, hp, hthread, hsince, hn, ?_, hunread ▸ grounded_unread hheader⟩
    rw [hanswer, hunread]
    change (if raw = "" then Except.ok (.resolved none)
      else Answer.resolved <$> ApiTokenStore.find (cfg.sha256 raw) []) = _
    rw [if_neg hraw]
    rfl
  · obtain ⟨found, hfound, hsome, hnone⟩ :=
      resolve_answer hhex (tally_replay start hstart _) hraw hunread
    refine ⟨n, p, _, hp, hthread, hsince, hn, ?_, grounded_found hheader hsome hnone⟩
    rw [hanswer, hfound]

/-! ### A token that is created, used and revoked -/

def sampleRaw : String := "3Jc0hQyq5v1R0e8zqkYb7nXw2LsTtUuAaBbCcDdEe-_"

def samplePath : Store → String
  | .users => "/data/users.json"
  | .passwords => "/data/passwords.json"
  | .totp => "/data/totp.json"
  | .apiTokens => "/data/api_tokens.json"
  | .displayNames => "/data/display_names.json"
  | .servers => "/data/servers.json"
  | .watched => "/data/watched_containers.json"

def sampleConfig : Config where
  path := samplePath
  u := .ascii
  str
    | .str s => s
    | _ => ""
  str_text _ := rfl
  float
    | .float x => .ok x
    | _ => .error .type
  float_float _ := rfl
  sha256 raw :=
    if raw = sampleRaw then "cca67130d2a5d35d6f4a9fc9e1d71eb80ed7f515b069bb37a0ce9a328b3dfcfe"
    else "e3b0c44298fc1c149afbf4c8996fb92427ae41e4649b934ca495991b7852b855"
  newestFirst infos := infos.mergeSort fun a b => decide (b.createdAt.getD 0 ≤ a.createdAt.getD 0)
  newestFirst_finite _ _ := rfl

def sampleRoles (name : String) : Option Role :=
  if name = "viewer" then some ⟨"viewer", [.status], false⟩ else none

def sampleEvents : List (Event Call) :=
  [.call (.apiTokens (.create "5f0c3a9d1b7e2846" sampleRaw "dashboard" "viewer" 1750000000)),
    .act 0 .clear, .act 0 .clear, .act 0 .clear, .act 0 .clear, .act 0 .clear,
    .call (.apiTokens (.resolve sampleRaw)), .act 1 .clear,
    .call (.apiTokens (.revoke "5f0c3a9d1b7e2846")),
    .act 2 .clear, .act 2 .clear, .act 2 .clear, .act 2 .clear, .act 2 .clear,
    .call (.apiTokens (.resolve sampleRaw)), .act 3 .clear]

theorem hexadecimal_sample : Hexadecimal sampleConfig := by
  intro raw c hc
  have hall : (sampleConfig.sha256 raw).toList.all (fun c => decide (c.toNat < 128)) = true := by
    change (if raw = sampleRaw then _ else _ : String).toList.all _ = true
    split
    · rfl
    · rfl
  exact of_decide_eq_true (List.all_eq_true.mp hall c hc)

theorem admitted_run_sample :
    Guarded sampleConfig sampleRoles
      (Runs.run (World.step (method sampleConfig)) (World.start fun _ => .absent) sampleEvents) :=
  admitted_run sampleConfig sampleRoles hexadecimal_sample (fun _ => .absent) rfl sampleEvents

example :
    (Runs.run (World.step (method sampleConfig)) (World.start fun _ => .absent)
      sampleEvents).threads[1]?.map (·.phase) = some (.ended (.answered (.ok (.resolved
        (some ⟨"5f0c3a9d1b7e2846", "dashboard", "viewer", some 1750000000⟩)))) 2) := by
  rfl

example :
    (Runs.run (World.step (method sampleConfig)) (World.start fun _ => .absent)
      sampleEvents).threads[3]?.map (·.phase) =
        some (.ended (.answered (.ok (.resolved none))) 4) := by
  rfl

end DataFiles
