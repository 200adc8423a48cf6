import McAdmin.LoginSecurity
import McAdmin.Pattern

/-!
# The address a login attempt is counted for

A request comes from a direct peer and may carry an `X-Forwarded-For` header.  Behind a
trusted peer the header is read from its end: the first hop that is no trusted proxy is the
client.  Three guards look at the whole header first, and the direct peer stands in for the
client when one of them refuses it.
-/

namespace ClientIp

open Backtracking

/-! ### Addresses -/

/-- An address of the `ipaddress` module. -/
structure IpAddress where
  version : ℕ
  value : ℕ
  scope : Option Text := none
deriving DecidableEq

structure IpNetwork where
  version : ℕ
  networkAddress : ℕ
  netmask : ℕ
deriving DecidableEq

/-- `address in network` -/
def IpNetwork.contains (network : IpNetwork) (address : IpAddress) : Bool :=
  address.value &&& network.netmask == network.networkAddress

/-- What the resolver uses of the standard library's text functions. -/
structure Library extends CharTable where
  casefold : Text → Text
  /-- `ipaddress.ip_address`, or `none` when it raises. -/
  ipAddress : Text → Option IpAddress
  str : IpAddress → Text
  ipAddress_empty : ipAddress [] = none

/-! ### The resolver -/

def maxForwardedHops : ℕ := 16

def maxHeaderLength : ℕ := 2048

structure ClientIpResolver where
  trustedProxies : List IpNetwork

namespace ClientIpResolver

variable (lib : Library) (r : ClientIpResolver)

def isTrusted (address : IpAddress) : Bool :=
  r.trustedProxies.any fun network =>
    address.version == network.version && network.contains address

/-- `(peer_host or "").strip() or "unknown"` -/
def directText (peerHost : Option Text) : Text :=
  let text := lib.strip (peerHost.getD [])
  if text = [] then "unknown".toList else text

def parts (header : Text) : List Text := (header.splitOn ',').map lib.strip

def observable (chain : List IpAddress) (direct : IpAddress) : IpAddress :=
  match (chain ++ [direct]).reverse.find? fun address => !r.isTrusted address with
  | some address => address
  | none => (chain ++ [direct]).headD direct

def resolve (peerHost xForwardedFor : Option Text) : Text :=
  let text := directText lib peerHost
  match lib.ipAddress text with
  | none => lib.casefold text
  | some direct =>
    let header := xForwardedFor.getD []
    if !r.isTrusted direct || header.isEmpty then lib.str direct
    else if maxHeaderLength < header.length then lib.str direct
    else if maxForwardedHops < (parts lib header).length then lib.str direct
    else
      let forwarded := (parts lib header).map lib.ipAddress
      if forwarded.any Option.isNone then lib.str direct
      else lib.str (r.observable (forwarded.filterMap id) direct)

/-! ### Headers that trusted proxies completed -/

def forwardedFor (client : Option Text) (hops : List Text) : Text :=
  [','].intercalate (client.toList ++ hops)

/-- The header passes the three guards: its length, its number of elements, and that each of
them is an address. -/
def Accepted (header : Text) : Prop :=
  header.length ≤ maxHeaderLength ∧ (parts lib header).length ≤ maxForwardedHops ∧
    ∀ part ∈ parts lib header, (lib.ipAddress part).isSome

instance (header : Text) : Decidable (Accepted lib header) := by
  unfold Accepted
  infer_instance

def Hop (hop : Text) (address : IpAddress) : Prop :=
  ',' ∉ hop ∧ lib.ipAddress (lib.strip hop) = some address

instance (hop : Text) (address : IpAddress) : Decidable (Hop lib hop address) := by
  unfold Hop
  infer_instance

def TrustedTail (tail : List Text) : Prop :=
  ∀ hop ∈ tail, ∃ address, Hop lib hop address ∧ r.isTrusted address = true

variable {lib r}

theorem parts_forwardedFor (client : Option Text) {hops : List Text} (hne : hops ≠ [])
    (hcomma : ∀ hop ∈ hops, ',' ∉ hop) :
    parts lib (forwardedFor client hops) =
      (client.elim [] (parts lib)) ++ hops.map lib.strip := by
  have hhops : ([','].intercalate hops).splitOn ',' = hops :=
    List.splitOn_intercalate ',' hcomma hne
  cases client with
  | none => simp [forwardedFor, parts, hhops]
  | some text =>
    have hcons : [','].intercalate (text :: hops) = text ++ ',' :: [','].intercalate hops := by
      rw [List.intercalate_cons_of_ne_nil hne]
      simp
    simp only [forwardedFor, parts, Option.toList_some, List.singleton_append, hcons,
      List.splitOn_append_cons_self, List.map_append, hhops, Option.elim_some]

theorem exists_address_of_trustedTail {tail : List Text} (htail : r.TrustedTail lib tail) :
    ∃ addresses : List IpAddress,
      tail.map (fun hop => lib.ipAddress (lib.strip hop)) = addresses.map some ∧
        ∀ address ∈ addresses, r.isTrusted address = true := by
  induction tail with
  | nil => exact ⟨[], rfl, by simp⟩
  | cons hop tail ih =>
    obtain ⟨address, hhop, haddress⟩ := htail hop (List.mem_cons_self ..)
    obtain ⟨addresses, hmap, hall⟩ := ih fun hop' hhop' => htail hop' (List.mem_cons_of_mem _ hhop')
    refine ⟨address :: addresses, by simp [hmap, hhop.2], ?_⟩
    intro address' h'
    rcases List.mem_cons.mp h' with rfl | h'
    · exact haddress
    · exact hall address' h'

theorem observable_append {chain addresses : List IpAddress} {a direct : IpAddress}
    (hdirect : r.isTrusted direct = true) (ha : r.isTrusted a = false)
    (hall : ∀ address ∈ addresses, r.isTrusted address = true) :
    r.observable (chain ++ a :: addresses) direct = a := by
  have hnone : addresses.reverse.find? (fun address => !r.isTrusted address) = none := by
    rw [List.find?_eq_none]
    intro address h
    simp [hall address (List.mem_reverse.mp h)]
  have hfound : ((chain ++ a :: addresses) ++ [direct]).reverse.find?
      (fun address => !r.isTrusted address) = some a := by
    simp [hdirect, hnone, ha]
  simp only [observable, hfound]

theorem resolve_of_trusted {peerHost : Option Text} {direct : IpAddress} {header : Text}
    (hdirect : lib.ipAddress (directText lib peerHost) = some direct)
    (htrusted : r.isTrusted direct = true) (hne : header ≠ []) :
    r.resolve lib peerHost (some header) =
      if Accepted lib header then
        lib.str (r.observable ((parts lib header).filterMap lib.ipAddress) direct)
      else lib.str direct := by
  have hnil : header.isEmpty = false := by simpa using hne
  simp only [resolve, hdirect, htrusted, Option.getD_some, hnil, Bool.not_true, Bool.or_self,
    Bool.false_eq_true, if_false]
  by_cases hlength : header.length ≤ maxHeaderLength
  · by_cases hhops : (parts lib header).length ≤ maxForwardedHops
    · have hiff : ((parts lib header).map lib.ipAddress).any Option.isNone = false ↔
          ∀ part ∈ parts lib header, (lib.ipAddress part).isSome := by
        simp [Option.isSome_iff_ne_none]
      by_cases hall : ∀ part ∈ parts lib header, (lib.ipAddress part).isSome
      · have haccepted : Accepted lib header := ⟨hlength, hhops, hall⟩
        rw [if_neg (by omega), if_neg (by omega), if_pos haccepted, hiff.mpr hall]
        simp [List.filterMap_map]
      · have hrefused : ¬Accepted lib header := fun h => hall h.2.2
        rw [if_neg (by omega), if_neg (by omega), if_neg hrefused]
        rw [if_pos]
        simpa using (not_congr hiff).mpr hall
    · have hrefused : ¬Accepted lib header := fun h => hhops h.2.1
      rw [if_neg (by omega), if_pos (by omega), if_neg hrefused]
  · have hrefused : ¬Accepted lib header := fun h => hlength h.1
    rw [if_pos (by omega), if_neg hrefused]

theorem forwardedFor_ne_nil {client : Option Text} {hop : Text} {tail : List Text}
    (hhop : hop ≠ []) : forwardedFor client (hop :: tail) ≠ [] := by
  cases client with
  | none =>
    cases tail with
    | nil => simpa [forwardedFor] using hhop
    | cons hop' tail =>
      simp [forwardedFor, List.intercalate_cons_of_ne_nil]
  | some text => simp [forwardedFor, List.intercalate_cons_of_ne_nil]

theorem hop_ne_nil {hop : Text} {a : IpAddress} (h : Hop lib hop a) : hop ≠ [] := by
  intro hnil
  have hstrip : lib.strip [] = [] := rfl
  have hsome := h.2
  rw [hnil, hstrip, lib.ipAddress_empty] at hsome
  exact absurd hsome (Option.some_ne_none a).symm

theorem resolve_forwardedFor {peerHost : Option Text} {direct a : IpAddress} {hop : Text}
    {tail : List Text} (hdirect : lib.ipAddress (directText lib peerHost) = some direct)
    (htrusted : r.isTrusted direct = true) (hhop : Hop lib hop a) (ha : r.isTrusted a = false)
    (htail : r.TrustedTail lib tail) (client : Option Text) :
    r.resolve lib peerHost (some (forwardedFor client (hop :: tail))) =
      if Accepted lib (forwardedFor client (hop :: tail)) then lib.str a else lib.str direct := by
  have hcomma : ∀ text ∈ hop :: tail, ',' ∉ text := by
    intro text htext
    rcases List.mem_cons.mp htext with rfl | htext
    · exact hhop.1
    · obtain ⟨_, hhop', _⟩ := htail text htext
      exact hhop'.1
  obtain ⟨addresses, haddresses, hall⟩ := exists_address_of_trustedTail htail
  rw [resolve_of_trusted hdirect htrusted (forwardedFor_ne_nil (hop_ne_nil hhop))]
  have htailMap : tail.filterMap (fun hop => lib.ipAddress (lib.strip hop)) = addresses := by
    have hid := congrArg (List.filterMap id) haddresses
    simpa [List.filterMap_map] using hid
  have hchain : (parts lib (forwardedFor client (hop :: tail))).filterMap lib.ipAddress =
      (client.elim [] (parts lib)).filterMap lib.ipAddress ++ a :: addresses := by
    rw [parts_forwardedFor client (List.cons_ne_nil _ _) hcomma, List.filterMap_append,
      List.filterMap_map]
    simp only [List.filterMap_cons, Function.comp_apply, hhop.2, htailMap]
  rw [hchain, observable_append htrusted ha hall]

/-- The client cannot choose what it is counted as, beyond making a guard refuse the header;
two headers that the guards accept give the same key of the limiter. -/
theorem resolve_not_steerable (lib : Library) (r : ClientIpResolver) {peerHost : Option Text}
    {direct a : IpAddress} {hop : Text} {tail : List Text}
    (hdirect : lib.ipAddress (directText lib peerHost) = some direct)
    (htrusted : r.isTrusted direct = true) (hhop : Hop lib hop a) (ha : r.isTrusted a = false)
    (htail : r.TrustedTail lib tail) :
    (∀ client, r.resolve lib peerHost (some (forwardedFor client (hop :: tail))) =
      if Accepted lib (forwardedFor client (hop :: tail)) then lib.str a else lib.str direct) ∧
    ∀ (settings : LoginAttemptLimiter.Settings) (username : String) (client client' : Option Text),
      Accepted lib (forwardedFor client (hop :: tail)) →
      Accepted lib (forwardedFor client' (hop :: tail)) →
      LoginAttemptLimiter.pairKey settings (String.ofList
          (r.resolve lib peerHost (some (forwardedFor client (hop :: tail))))) username =
        LoginAttemptLimiter.pairKey settings (String.ofList
          (r.resolve lib peerHost (some (forwardedFor client' (hop :: tail))))) username := by
  have hresolve := resolve_forwardedFor hdirect htrusted hhop ha htail
  constructor
  · exact hresolve
  · intro settings username client client' haccepted haccepted'
    rw [hresolve, hresolve, if_pos haccepted, if_pos haccepted']

/-! ### A header at work -/

def octet (text : Text) : Option ℕ :=
  let n := text.foldl (fun n c => 10 * n + (c.toNat - 48)) 0
  if text.all Char.isDigit && (text == ['0'] || 0 < text.length && text.head? != some '0') &&
      text.length ≤ 3 && n ≤ 255 then some n
  else none

def ipv4Address (text : Text) : Option IpAddress :=
  match (text.splitOn '.').mapM octet with
  | some [a, b, c, d] => some ⟨4, ((a * 256 + b) * 256 + c) * 256 + d, none⟩
  | _ => none

def ipv4Text (address : IpAddress) : Text :=
  ['.'].intercalate ([16777216, 65536, 256, 1].map fun unit =>
    Nat.toDigits 10 (address.value / unit % 256))

def ipv4Library : Library where
  toCharTable := .ascii
  casefold t := t.map Char.toLower
  ipAddress := ipv4Address
  str := ipv4Text
  ipAddress_empty := by decide

/-- `10.0.0.0/8` -/
def homeProxies : ClientIpResolver := ⟨[⟨4, 167772160, 4278190080⟩]⟩

theorem resolve_not_steerable_sample :
    homeProxies.resolve ipv4Library (some "10.0.0.2".toList)
      (some (forwardedFor (some "203.0.113.9".toList)
        [" 198.51.100.25".toList, " 10.1.1.1".toList])) = "198.51.100.25".toList := by
  have hdirect : ipv4Library.ipAddress (directText ipv4Library (some "10.0.0.2".toList)) =
      some ⟨4, 167772162, none⟩ := by decide +kernel
  have hhop : Hop ipv4Library " 198.51.100.25".toList ⟨4, 3325256729, none⟩ := by decide +kernel
  have htail : homeProxies.TrustedTail ipv4Library [" 10.1.1.1".toList] := by
    intro hop hmem
    rw [List.mem_singleton] at hmem
    subst hmem
    exact ⟨⟨4, 167837953, none⟩, by decide +kernel, by decide +kernel⟩
  have hsample := (resolve_not_steerable ipv4Library homeProxies hdirect (by decide +kernel) hhop
    (by decide +kernel) htail).1 (some "203.0.113.9".toList)
  rw [hsample, if_pos (by decide +kernel)]
  decide +kernel

/-- A client that begins its header with something that is no address is counted as the
proxy. -/
theorem client_steers_resolve :
    ¬∀ (lib : Library) (r : ClientIpResolver) (peerHost : Option Text) (direct a : IpAddress)
        (hop : Text) (tail : List Text),
      lib.ipAddress (directText lib peerHost) = some direct → r.isTrusted direct = true →
      Hop lib hop a → r.isTrusted a = false → r.TrustedTail lib tail →
      ∀ client, r.resolve lib peerHost (some (forwardedFor client (hop :: tail))) = lib.str a := by
  intro h
  have hsteered := h ipv4Library homeProxies (some "10.0.0.2".toList) ⟨4, 167772162, none⟩
    ⟨4, 3325256729, none⟩ " 198.51.100.25".toList [] (by decide +kernel) (by decide +kernel)
    (by decide +kernel) (by decide +kernel)
    (by intro hop hmem; exact absurd hmem (List.not_mem_nil))
    (some "not-an-ip".toList)
  exact absurd hsteered (by decide +kernel)

end ClientIpResolver

end ClientIp
