import McAdmin.PackedInts
import McAdmin.Sockets
import McAdmin.Utf8Cuts

/-!
# Commands over RCON

A connection authenticates, sends a command and reads its answer, whose fragments are told apart
by their size and by the answer to an empty command sent after the first of them.
-/

namespace Rcon

open PackedInts Procedures Sockets
open PlainText (decodeReplace encode)

abbrev Text := List Char

/-! ### Packets -/

/-- `_AUTH` and `_EXEC` -/
def auth : ℤ := 3
def exec : ℤ := 2

def maxPayload : ℕ := 4096

/-- `encode_packet`, or nothing where `struct` raises. -/
def encodePacket (reqId ptype : ℤ) (payload : Text) : Option Bytes :=
  match packTwo reqId ptype with
  | none => none
  | some head =>
    let body := head ++ encode payload ++ [0, 0]
    (pack body.length).map (· ++ body)

/-- `body[8:-2]` -/
def content (body : Bytes) : Bytes := (body.take (body.length - 2)).drop 8

/-- `decode_packet`, or nothing where `struct` raises. -/
def decodePacket (body : Bytes) : Option (ℤ × ℤ × Text) :=
  (unpackTwo (body.take 8)).map fun head => (head.1, head.2, decodeReplace (content body))

/-! ### Connections -/

inductive Error where
  /-- `ConnectionError`, `TimeoutError` and `OSError`. -/
  | os
  | struct
  | serverUnavailable (message : Text)
  /-- The packets have no end; it takes an endless stream. -/
  | endless
deriving DecidableEq

structure Connection where
  sock : Socket
  nextId : ℤ := 0

def Connection.fresh (sock : Socket) : Connection := { sock := sock }

abbrev Talk := Proc Connection Error

def onSock {α : Type} (x : Proc Socket Error α) : Talk α :=
  x.on Connection.sock fun sock conn => { conn with sock }

/-- A closed connection is a `ConnectionError`; of a length below zero nothing is read. -/
def recvExact (n : ℤ) : Talk Bytes := onSock (readExact .os .os n.toNat)

/-- `self._next_id += 1` -/
def newId : Talk ℤ := fun conn => (.ok (conn.nextId + 1), { conn with nextId := conn.nextId + 1 })

/-- `self._sock.sendall(encode_packet(req_id, ptype, payload))` -/
def send (reqId ptype : ℤ) (payload : Text) : Talk Unit := do
  let packet ← .ofOption .struct (encodePacket reqId ptype payload)
  onSock (sendAll .os packet)

def recvBody : Talk Bytes := do
  let length ← .ofOption .struct (unpack (← recvExact 4))
  recvExact length

def roundtrip (ptype : ℤ) (payload : Text) : Talk (ℤ × ℤ × Text) := do
  let reqId ← newId
  send reqId ptype payload
  let body ← recvBody
  .ofOption .struct (decodePacket body)

def recvPacket : Talk ((ℤ × ℤ × Text) × ℤ) := do
  let body ← recvBody
  let packet ← .ofOption .struct (decodePacket body)
  pure (packet, (body.length : ℤ) - 10)

/-- The fragments up to the answer with the id of the end. -/
def collect (endId : ℤ) : ℕ → List Text → Talk Text
  | 0, _ => .raise .endless
  | rounds + 1, parts => do
    let (packet, _) ← recvPacket
    if packet.1 = endId then pure parts.flatten
    else collect endId rounds (parts ++ [packet.2.2])

def rounds (conn : Connection) : ℕ := conn.sock.stream.length + 1

def command (cmd : Text) : Talk Text := do
  let reqId ← newId
  send reqId exec cmd
  let (packet, size) ← recvPacket
  if size < maxPayload then pure packet.2.2
  else do
    let endId ← newId
    send endId exec []
    let conn ← .get
    collect endId (rounds conn) [packet.2.2]

def authRefused : Text := "authentification RCON refusée (vérifier RCON_PASSWORD)".toList

/-- `__enter__`, once the socket is there. -/
def enter (password : Text) : Talk Unit := do
  let packet ← roundtrip auth password
  if packet.1 = -1 then .raise (.serverUnavailable authRefused) else pure ()

/-- `with self._connect() as conn: return conn.command(command)`, once the socket is there. -/
def talk (password cmd : Text) : Talk Text := do
  enter password
  (command cmd).ensure (onSock close)

structure RconGame where
  host : Text
  port : ℕ
  password : Text

def RconGame.unreachable (game : RconGame) : Text :=
  "RCON injoignable (".toList ++ game.host ++ ':' :: (Nat.repr game.port).toList ++ ")".toList

/-- `except _UNAVAILABLE` -/
def RconGame.translate (game : RconGame) (e : Error) : Talk Text :=
  if e = .os then .raise (.serverUnavailable game.unreachable) else .raise e

/-- `RconGame._command`, where the socket is there when the connection can be made. -/
def RconGame.command (game : RconGame) (sock : Option Socket) (cmd : Text) : Except Error Text :=
  match sock with
  | none => .error (.serverUnavailable game.unreachable)
  | some sock => ((talk game.password cmd).handle game.translate).result (.fresh sock)

/-! ### What the steps do -/

/-- The body of the packet a stream begins with, and what follows it; nothing where the stream
breaks off before. -/
def next (stream : Bytes) : Option (Bytes × Bytes) :=
  let length := (signed (ofLittleEndian (stream.take 4))).toNat
  if 4 + length ≤ stream.length ∧ 4 ≤ stream.length then
    some ((stream.drop 4).take length, (stream.drop 4).drop length)
  else none

def Connection.stream (conn : Connection) : Bytes := conn.sock.stream

/-- `later` is `conn` after some bytes have been read. -/
structure Follows (used : Bytes) (conn later : Connection) : Prop where
  stream : conn.stream = used ++ later.stream
  nextId : later.nextId = conn.nextId
  cut : later.sock.cut = conn.sock.cut
  handed : later.sock.handed = conn.sock.handed

def Connection.Accepts (conn : Connection) (others : ℕ) : Prop :=
  conn.sock.cut (conn.sock.handed.length + others) = none

/-- `later` is `conn` after a packet was sent. -/
structure Sent (conn later : Connection) : Prop where
  stream : later.stream = conn.stream
  nextId : later.nextId = conn.nextId
  cut : later.sock.cut = conn.sock.cut
  handed : later.sock.handed.length = conn.sock.handed.length + 1

/-- The payload is short enough for the length of its packet. -/
def Fits (payload : Text) : Prop := ((encode payload).length : ℤ) + 10 < 2 ^ 31

instance (payload : Text) : Decidable (Fits payload) := inferInstanceAs (Decidable (_ < _))

section

variable {conn later last : Connection} {used used' stream body rest : Bytes} {reqId ptype : ℤ}
  {payload : Text}

theorem Follows.trans (h : Follows used conn later) (h' : Follows used' later last) :
    Follows (used ++ used') conn last where
  stream := by rw [h.stream, h'.stream, List.append_assoc]
  nextId := h'.nextId.trans h.nextId
  cut := h'.cut.trans h.cut
  handed := h'.handed.trans h.handed

theorem recvExact_spec (n : ℤ) (conn : Connection) :
    Meets (recvExact n) conn
      (fun bytes later => bytes.length = n.toNat ∧ Follows bytes conn later)
      (fun e _ => e = .os ∧ conn.stream.length < n.toNat) := by
  rw [recvExact, onSock]
  refine meets_on ((readExact_spec Error.os Error.os n.toNat conn.sock).mono ?_ ?_)
  · rintro bytes t ⟨hlength, hreads⟩
    exact ⟨hlength, hreads.stream, rfl, hreads.cut, hreads.handed⟩
  · rintro e t ⟨rfl, hshort, -⟩
    refine ⟨?_, hshort⟩
    rw [Socket.fault]
    cases conn.sock.ending <;> rfl

theorem next_eq_some (hused : used.length = 4)
    (hbody : body.length = (signed (ofLittleEndian used)).toNat) :
    next (used ++ (body ++ rest)) = some (body, rest) := by
  rw [next, List.take_left' hused, List.drop_left' hused, if_pos, ← hbody, List.take_left' rfl,
    List.drop_left' rfl]
  simp only [List.length_append]
  omega

theorem recvBody_spec (conn : Connection) :
    Meets recvBody conn
      (fun body later => ∃ used, Follows used conn later ∧
        next conn.stream = some (body, later.stream) ∧ 4 ≤ used.length)
      (fun e _ => e = .os ∧ next conn.stream = none) := by
  refine meets_bind ((recvExact_spec 4 conn).mono ?_ ?_)
  · rintro used later ⟨hused, hfollows⟩
    have hused : used.length = 4 := hused
    refine meets_bind (meets_ofOption (fun hnone => ?_) fun n hn => ?_)
    · rw [unpack, if_pos hused] at hnone
      cases hnone
    rw [unpack, if_pos hused] at hn
    obtain rfl := Option.some.inj hn
    refine (recvExact_spec _ later).mono ?_ ?_
    · rintro body last ⟨hbody, hlast⟩
      refine ⟨used ++ body, hfollows.trans hlast, ?_, ?_⟩
      · rw [hfollows.stream, hlast.stream]
        exact next_eq_some hused hbody
      · rw [List.length_append]
        omega
    · rintro e _ ⟨rfl, hshort⟩
      refine ⟨rfl, ?_⟩
      rw [next, hfollows.stream, List.take_left' hused, if_neg]
      rw [List.length_append]
      omega
  · rintro e _ ⟨rfl, hshort⟩
    have hshort : conn.stream.length < 4 := hshort
    refine ⟨rfl, ?_⟩
    rw [next, if_neg]
    omega

theorem newId_spec (conn : Connection) :
    Meets newId conn
      (fun n later => n = conn.nextId + 1 ∧ later = { conn with nextId := conn.nextId + 1 })
      (fun _ _ => False) := ⟨rfl, rfl⟩

def packetBytes (reqId ptype : ℤ) (content : Bytes) : Bytes :=
  intBytes (content.length + 10) ++ (intBytes reqId ++ intBytes ptype ++ content ++ [0, 0])

theorem encodePacket_eq (hid : IsInt32 reqId) (htype : IsInt32 ptype) (payload : Text) :
    encodePacket reqId ptype payload = if IsInt32 ((encode payload).length + 10) then
      some (packetBytes reqId ptype (encode payload)) else none := by
  have hlength : (((intBytes reqId ++ intBytes ptype) ++ encode payload ++ [0, 0]).length : ℤ) =
      (encode payload).length + 10 := by
    simp only [List.length_append, length_intBytes, List.length_cons, List.length_nil]
    omega
  rw [encodePacket, packTwo, if_pos ⟨hid, htype⟩]
  simp only [hlength]
  rw [pack]
  split_ifs <;> rfl

theorem send_spec (reqId ptype : ℤ) (payload : Text) (conn : Connection) :
    Meets (send reqId ptype payload) conn
      (fun _ later => (∃ packet, encodePacket reqId ptype payload = some packet) ∧
        conn.Accepts 0 ∧ Sent conn later)
      (fun e _ => e = .struct ∧ encodePacket reqId ptype payload = none ∨
        e = .os ∧ (∃ packet, encodePacket reqId ptype payload = some packet) ∧
          ¬ conn.Accepts 0) := by
  refine meets_bind (meets_ofOption (fun hnone => .inl ⟨rfl, hnone⟩) fun packet hpacket => ?_)
  refine meets_on ⟨?_⟩
  unfold sendAll
  cases hcut : conn.sock.cut conn.sock.handed.length with
  | none => exact ⟨⟨packet, hpacket⟩, hcut, rfl, rfl, rfl, List.length_append⟩
  | some sent =>
    refine .inr ⟨rfl, ⟨packet, hpacket⟩, fun haccepts => ?_⟩
    rw [Connection.Accepts, Nat.add_zero, hcut] at haccepts
    cases haccepts

def idOf (body : Bytes) : ℤ := signed (ofLittleEndian ((body.take 8).take 4))

/-- The stream begins with a length that is too small for a packet, and what goes with it. -/
def Short (stream : Bytes) : Prop := ∃ body rest, next stream = some (body, rest) ∧ body.length < 8

theorem decodePacket_of_short (h : body.length < 8) : decodePacket body = none := by
  have htake : (body.take 8).length ≠ 8 := by
    rw [List.length_take]
    omega
  rw [decodePacket, unpackTwo, if_neg htake]
  rfl

theorem decodePacket_of_long (h : 8 ≤ body.length) :
    ∃ ptype, decodePacket body = some (idOf body, ptype, decodeReplace (content body)) := by
  have htake : (body.take 8).length = 8 := by
    rw [List.length_take]
    omega
  refine ⟨signed (ofLittleEndian ((body.take 8).drop 4)), ?_⟩
  rw [decodePacket, unpackTwo, if_pos htake]
  rfl

/-- An error that is `struct`'s when `leaks` holds, and one of the network otherwise. -/
def Told (leaks : Prop) (e : Error) : Prop := e = .os ∧ ¬ leaks ∨ e = .struct ∧ leaks

theorem Told.congr {leaks leaks' : Prop} {e : Error} (h : Told leaks e) (hiff : leaks ↔ leaks') :
    Told leaks' e := by
  rwa [Told, ← hiff]

theorem not_short_of_none (h : next stream = none) : ¬ Short stream := by
  rintro ⟨body, rest, hsome, -⟩
  rw [h] at hsome
  cases hsome

theorem recvPacket_spec (conn : Connection) :
    Meets recvPacket conn
      (fun r later => ∃ body used, Follows used conn later ∧ 4 ≤ used.length ∧
        next conn.stream = some (body, later.stream) ∧ 8 ≤ body.length ∧
        r.1.1 = idOf body ∧ r.1.2.2 = decodeReplace (content body) ∧ r.2 = (body.length : ℤ) - 10)
      (fun e _ => e = .os ∧ next conn.stream = none ∨ e = .struct ∧ Short conn.stream) := by
  refine meets_bind ((recvBody_spec conn).mono ?_ ?_)
  · rintro body later ⟨used, hfollows, hnext, hused⟩
    by_cases hlong : 8 ≤ body.length
    · obtain ⟨ptype, hdecode⟩ := decodePacket_of_long hlong
      rw [hdecode]
      exact meets_pure ⟨body, used, hfollows, hused, hnext, hlong, rfl, rfl, rfl⟩
    · rw [decodePacket_of_short (not_le.mp hlong)]
      exact meets_raise <| .inr ⟨rfl, body, later.stream, hnext, not_le.mp hlong⟩
  · rintro e _ ⟨rfl, hnone⟩
    exact .inl ⟨rfl, hnone⟩

/-! ### The fragments -/

inductive Leaking (endId : ℤ) : Bytes → Prop
  | short {stream : Bytes} (h : Short stream) : Leaking endId stream
  | later {stream body rest : Bytes} (hnext : next stream = some (body, rest))
      (hlong : 8 ≤ body.length) (hid : idOf body ≠ endId) (hrest : Leaking endId rest) :
      Leaking endId stream

variable {endId : ℤ}

theorem not_leaking_of_none (h : next stream = none) : ¬ Leaking endId stream := by
  intro hleaking
  cases hleaking with
  | short hshort => exact not_short_of_none h hshort
  | later hnext hlong hid hrest =>
    rw [h] at hnext
    cases hnext

theorem leaking_iff_of_next (h : next stream = some (body, rest)) (hlong : 8 ≤ body.length) :
    Leaking endId stream ↔ idOf body ≠ endId ∧ Leaking endId rest := by
  constructor
  · intro hleaking
    cases hleaking with
    | short hshort =>
      obtain ⟨body', rest', hnext, hshort⟩ := hshort
      rw [h] at hnext
      cases hnext
      omega
    | later hnext hlong hid hrest =>
      rw [h] at hnext
      cases hnext
      exact ⟨hid, hrest⟩
  · rintro ⟨hid, hrest⟩
    exact .later h hlong hid hrest

theorem collect_spec (endId : ℤ) {rounds : ℕ} (parts : List Text) {conn : Connection}
    (hrounds : conn.stream.length < rounds) :
    Meets (collect endId rounds parts) conn (fun _ _ => ¬ Leaking endId conn.stream)
      (fun e _ => Told (Leaking endId conn.stream) e) := by
  induction rounds generalizing parts conn with
  | zero => exact absurd hrounds (Nat.not_lt_zero _)
  | succ rounds ih =>
    refine meets_bind ((recvPacket_spec conn).mono ?_ ?_)
    · rintro ⟨⟨reqId, ptype, payload⟩, size⟩ later
        ⟨body, used, hfollows, hused, hnext, hlong, hid, -, -⟩
      have hid : reqId = idOf body := hid
      have hlength : conn.stream.length = used.length + later.stream.length := by
        rw [hfollows.stream, List.length_append]
      rw [leaking_iff_of_next hnext hlong]
      refine meets_ite (fun hend => ?_) fun hother => ?_
      · exact meets_pure fun hleaking => hleaking.1 (hid.symm.trans hend)
      · have hne : idOf body ≠ endId := hid ▸ hother
        refine (ih _ (by omega)).mono ?_ ?_
        · intro _ _ hrest hleaking
          exact hrest hleaking.2
        · intro e _ htold
          exact htold.congr (and_iff_right hne).symm
    · rintro e _ (⟨he, hnone⟩ | ⟨he, hshort⟩)
      · exact .inl ⟨he, not_leaking_of_none hnone⟩
      · exact .inr ⟨he, .short hshort⟩

/-! ### What the peer must send for an error of `struct` -/

/-- A length that is too small comes where the answer to a command is read, or a packet is too
long to be sent. -/
def CommandLeaks (lastId : ℤ) (accepts : ℕ → Prop) (stream : Bytes) (cmd : Text) : Prop :=
  encodePacket (lastId + 1) exec cmd = none ∨ accepts 0 ∧
    (Short stream ∨ ∃ first rest, next stream = some (first, rest) ∧
      maxPayload + 10 ≤ first.length ∧
        (encodePacket (lastId + 2) exec [] = none ∨ accepts 1 ∧ Leaking (lastId + 2) rest))

theorem not_short_of_long (hnext : next stream = some (body, rest)) (hlong : 8 ≤ body.length) :
    ¬ Short stream := by
  rintro ⟨body', rest', hnext', hshort⟩
  rw [hnext] at hnext'
  cases hnext'
  omega

variable {cmd : Text} {first : Bytes}

theorem commandLeaks_iff {lastId : ℤ} {accepts : ℕ → Prop}
    (hpacket : ∃ packet, encodePacket (lastId + 1) exec cmd = some packet) (haccepts : accepts 0)
    (hnext : next stream = some (first, rest)) (hlong : 8 ≤ first.length) :
    CommandLeaks lastId accepts stream cmd ↔ maxPayload + 10 ≤ first.length ∧
      (encodePacket (lastId + 2) exec [] = none ∨ accepts 1 ∧ Leaking (lastId + 2) rest) := by
  obtain ⟨packet, hpacket⟩ := hpacket
  constructor
  · rintro (hnone | ⟨-, hshort | ⟨first', rest', hnext', hfull, hlater⟩⟩)
    · rw [hpacket] at hnone
      cases hnone
    · exact absurd hshort (not_short_of_long hnext hlong)
    · rw [hnext] at hnext'
      cases hnext'
      exact ⟨hfull, hlater⟩
  · rintro ⟨hfull, hlater⟩
    exact .inr ⟨haccepts, .inr ⟨first, rest, hnext, hfull, hlater⟩⟩

theorem not_leaks_of_refused {e : Error} {packet : Option Bytes} {accepts leaks : Prop}
    (h : e = .struct ∧ packet = none ∨ e = .os ∧ (∃ bytes, packet = some bytes) ∧ ¬ accepts) :
    Told (packet = none ∨ accepts ∧ leaks) e := by
  rcases h with ⟨he, hnone⟩ | ⟨he, ⟨bytes, hsome⟩, hrefused⟩
  · exact .inr ⟨he, .inl hnone⟩
  · refine .inl ⟨he, ?_⟩
    rintro (hnone | ⟨haccepts, -⟩)
    · rw [hsome] at hnone
      cases hnone
    · exact hrefused haccepts

theorem command_spec (cmd : Text) (conn : Connection) :
    Meets (command cmd) conn
      (fun _ _ => ¬ CommandLeaks conn.nextId conn.Accepts conn.stream cmd)
      (fun e _ => Told (CommandLeaks conn.nextId conn.Accepts conn.stream cmd) e) := by
  refine meets_bind ((newId_spec conn).mono ?_ fun _ _ hnever => hnever.elim)
  rintro reqId asked ⟨rfl, rfl⟩
  refine meets_bind ((send_spec _ _ _ _).mono ?_ fun e _ => not_leaks_of_refused)
  rintro _ sent ⟨hpacket, haccepts, hsent⟩
  have haccepts : conn.Accepts 0 := haccepts
  have hstream : sent.stream = conn.stream := hsent.stream
  refine meets_bind ((recvPacket_spec sent).mono ?_ ?_)
  · rintro ⟨⟨id, ptype, payload⟩, size⟩ later
      ⟨first, used, hfollows, -, hnext, hlong, -, -, hsize⟩
    have hsize : size = (first.length : ℤ) - 10 := hsize
    rw [hstream] at hnext
    rw [commandLeaks_iff hpacket haccepts hnext hlong]
    -- a first packet that is not full ends the command; a full one asks for the end
    refine meets_ite (fun hsmall => ?_) fun hfull => ?_
    · refine meets_pure ?_
      rintro ⟨hfull, -⟩
      omega
    · have hfull : maxPayload + 10 ≤ first.length := by omega
      rw [and_iff_right hfull]
      refine meets_bind ((newId_spec later).mono ?_ fun _ _ hnever => hnever.elim)
      rintro endId ending ⟨rfl, rfl⟩
      have hid : later.nextId + 1 = conn.nextId + 2 := by
        rw [hfollows.nextId, hsent.nextId]
        exact Int.add_assoc _ 1 1
      have hnextAccepts : Connection.Accepts { later with nextId := later.nextId + 1 } 0 ↔
          conn.Accepts 1 := by
        change later.sock.cut (later.sock.handed.length + 0) = none ↔ _
        rw [hfollows.cut, hfollows.handed, hsent.cut, hsent.handed]
        exact Iff.rfl
      rw [← hid, ← hnextAccepts]
      refine meets_bind ((send_spec _ _ _ _).mono ?_ fun e _ => not_leaks_of_refused)
      rintro _ last ⟨⟨packet, hlast⟩, haccepts, hsent'⟩
      have hrest : last.stream = later.stream := hsent'.stream
      have hleaks : (encodePacket (later.nextId + 1) exec [] = none ∨
          Connection.Accepts { later with nextId := later.nextId + 1 } 0 ∧
            Leaking (later.nextId + 1) later.stream) ↔
          Leaking (later.nextId + 1) later.stream := by
        rw [hlast]
        simp [haccepts]
      rw [hleaks, ← hrest]
      exact meets_bind (meets_get (collect_spec _ _ (Nat.lt_succ_self _)))
  · rintro e _ (⟨he, hnone⟩ | ⟨he, hshort⟩)
    · rw [hstream] at hnone
      refine .inl ⟨he, ?_⟩
      -- without a first packet nothing leaks but a length that is too small
      rintro (hpacket' | ⟨-, hshort | ⟨first, rest, hnext, -⟩⟩)
      · obtain ⟨packet, hpacket⟩ := hpacket
        rw [hpacket] at hpacket'
        cases hpacket'
      · exact not_short_of_none hnone hshort
      · rw [hnone] at hnext
        cases hnext
    · rw [hstream] at hshort
      exact .inr ⟨he, .inr ⟨haccepts, .inl hshort⟩⟩

theorem roundtrip_spec (ptype : ℤ) (payload : Text) (conn : Connection) :
    Meets (roundtrip ptype payload) conn
      (fun packet later => ∃ answer, next conn.stream = some (answer, later.stream) ∧
        8 ≤ answer.length ∧ packet.1 = idOf answer ∧
        (∃ sent, encodePacket (conn.nextId + 1) ptype payload = some sent) ∧ conn.Accepts 0 ∧
        later.nextId = conn.nextId + 1 ∧ later.Accepts = fun others => conn.Accepts (others + 1))
      (fun e _ => e = .struct ∧ (encodePacket (conn.nextId + 1) ptype payload = none ∨
          conn.Accepts 0 ∧ Short conn.stream) ∨
        e = .os ∧ (∃ sent, encodePacket (conn.nextId + 1) ptype payload = some sent) ∧
          (conn.Accepts 0 → next conn.stream = none)) := by
  refine meets_bind ((newId_spec conn).mono ?_ fun _ _ hnever => hnever.elim)
  rintro reqId asked ⟨rfl, rfl⟩
  refine meets_bind ((send_spec _ _ _ _).mono ?_ ?_)
  · rintro _ sent ⟨⟨packet, hpacket⟩, haccepts, hsent⟩
    have haccepts : conn.Accepts 0 := haccepts
    have hstream : sent.stream = conn.stream := hsent.stream
    refine meets_bind ((recvBody_spec sent).mono ?_ ?_)
    · rintro answer later ⟨used, hfollows, hnext, -⟩
      rw [hstream] at hnext
      by_cases hlong : 8 ≤ answer.length
      · obtain ⟨ptype, hdecode⟩ := decodePacket_of_long hlong
        rw [hdecode]
        refine meets_pure ⟨answer, hnext, hlong, rfl, ⟨packet, hpacket⟩, haccepts, ?_, ?_⟩
        · exact hfollows.nextId.trans hsent.nextId
        · funext others
          change (later.sock.cut (later.sock.handed.length + others) = none) = _
          rw [hfollows.cut, hfollows.handed, hsent.cut, hsent.handed, Nat.add_assoc,
            Nat.add_comm 1 others]
          rfl
      · rw [decodePacket_of_short (not_le.mp hlong)]
        exact meets_raise <|
          .inl ⟨rfl, .inr ⟨haccepts, answer, later.stream, hnext, not_le.mp hlong⟩⟩
    · rintro e _ ⟨rfl, hnone⟩
      rw [hstream] at hnone
      exact .inr ⟨rfl, ⟨packet, hpacket⟩, fun _ => hnone⟩
  · rintro e _ (⟨he, hnone⟩ | ⟨he, hsome, hrefused⟩)
    · exact .inl ⟨he, .inl hnone⟩
    · exact .inr ⟨he, hsome, fun haccepts => absurd haccepts hrefused⟩

/-- What a peer must send, or a caller ask for, for an error of `struct`. -/
def Leaks (conn : Connection) (password cmd : Text) : Prop :=
  encodePacket (conn.nextId + 1) auth password = none ∨ conn.Accepts 0 ∧
    (Short conn.stream ∨ ∃ answer rest, next conn.stream = some (answer, rest) ∧
      8 ≤ answer.length ∧ idOf answer ≠ -1 ∧
        CommandLeaks (conn.nextId + 1) (fun others => conn.Accepts (others + 1)) rest cmd)

def Error.IsUnavailable (e : Error) : Prop := ∃ message, e = .serverUnavailable message

theorem leaks_iff (cmd : Text) {password : Text} {answer : Bytes}
    (hpacket : ∃ sent, encodePacket (conn.nextId + 1) auth password = some sent)
    (haccepts : conn.Accepts 0) (hnext : next conn.stream = some (answer, rest))
    (hlong : 8 ≤ answer.length) :
    Leaks conn password cmd ↔ idOf answer ≠ -1 ∧
      CommandLeaks (conn.nextId + 1) (fun others => conn.Accepts (others + 1)) rest cmd := by
  obtain ⟨sent, hsent⟩ := hpacket
  constructor
  · rintro (hnone | ⟨-, hshort | ⟨answer', rest', hnext', -, hid, hlater⟩⟩)
    · rw [hnone] at hsent
      cases hsent
    · exact absurd hshort (not_short_of_long hnext hlong)
    · rw [hnext] at hnext'
      cases hnext'
      exact ⟨hid, hlater⟩
  · rintro ⟨hid, hlater⟩
    exact .inr ⟨haccepts, .inr ⟨answer, rest, hnext, hlong, hid, hlater⟩⟩

theorem enter_spec (password cmd : Text) (conn : Connection) :
    Meets (enter password) conn
      (fun _ entered => Leaks conn password cmd ↔
        CommandLeaks entered.nextId entered.Accepts entered.stream cmd)
      (fun e _ => Told (Leaks conn password cmd) e ∨
        e.IsUnavailable ∧ ¬ Leaks conn password cmd) := by
  refine meets_bind ((roundtrip_spec auth password conn).mono ?_ ?_)
  · rintro ⟨id, ptype, payload⟩ entered
      ⟨answer, hnext, hlong, hid, hsent, haccepts, hnextId, hlater⟩
    have hid : id = idOf answer := hid
    have hleaks := leaks_iff cmd hsent haccepts hnext hlong
    refine meets_ite (fun hrefused => ?_) fun haccepted => ?_
    · refine meets_raise <| .inr ⟨⟨_, rfl⟩, fun hleaking => ?_⟩
      exact (hleaks.mp hleaking).1 (hid.symm.trans hrefused)
    · have hne : idOf answer ≠ -1 := hid ▸ haccepted
      rw [and_iff_right hne, ← hnextId, ← hlater] at hleaks
      exact meets_pure hleaks
  · rintro e _ (⟨he, hleaks⟩ | ⟨he, ⟨sent, hsent⟩, hnone⟩)
    · exact .inl (.inr ⟨he, hleaks.imp_right fun hleaks => ⟨hleaks.1, .inl hleaks.2⟩⟩)
    · refine .inl (.inl ⟨he, ?_⟩)
      rintro (hfits | ⟨haccepts, hshort | ⟨answer, rest, hnext, -⟩⟩)
      · rw [hfits] at hsent
        cases hsent
      · exact not_short_of_none (hnone haccepts) hshort
      · have hnone := hnone haccepts
        rw [hnext] at hnone
        cases hnone

theorem talk_spec (password cmd : Text) (conn : Connection) :
    Meets (talk password cmd) conn (fun _ _ => ¬ Leaks conn password cmd)
      (fun e _ => Told (Leaks conn password cmd) e ∨
        e.IsUnavailable ∧ ¬ Leaks conn password cmd) := by
  refine meets_bind ((enter_spec password cmd conn).mono ?_ fun _ _ htold => htold)
  intro _ entered hleaks
  rw [hleaks]
  refine meets_ensure ((command_spec cmd entered).mono ?_ ?_)
  · intro _ _ hnone
    exact meets_on (meets_update hnone)
  · intro e _ htold
    exact meets_on (meets_update (.inl htold))

/-! ### What a caller of the game gets -/

def Degrades (result : Except Error Text) : Prop :=
  (∃ text, result = .ok text) ∨ ∃ e, result = .error e ∧ e.IsUnavailable

theorem degrades_of_error {e : Error} : Degrades (.error e) ↔ e.IsUnavailable := by
  constructor
  · rintro (⟨text, htext⟩ | ⟨e', he, hunavailable⟩)
    · cases htext
    · cases he
      exact hunavailable
  · exact fun h => .inr ⟨e, rfl, h⟩

theorem translate_spec (game : RconGame) (cmd : Text) (conn : Connection) :
    Meets ((talk game.password cmd).handle game.translate) conn
      (fun _ _ => ¬ Leaks conn game.password cmd)
      (fun e _ => e.IsUnavailable ∧ ¬ Leaks conn game.password cmd ∨
        e = .struct ∧ Leaks conn game.password cmd) := by
  refine meets_handle ((talk_spec game.password cmd conn).mono (fun _ _ hnone => hnone) ?_)
  intro e last htold
  refine meets_ite (fun hos => meets_raise ?_) fun hother => meets_raise ?_
  · rcases htold with (⟨-, hnone⟩ | ⟨hstruct, -⟩) | ⟨-, hnone⟩
    · exact .inl ⟨⟨_, rfl⟩, hnone⟩
    · rw [hos] at hstruct
      cases hstruct
    · exact .inl ⟨⟨_, rfl⟩, hnone⟩
  · rcases htold with (⟨hos, -⟩ | hleaks) | hunavailable
    · exact absurd hos hother
    · exact .inr hleaks
    · exact .inl hunavailable

/-- Whatever the peer sends, a command gives a text or `ServerUnavailable` exactly when the peer
sends no length that is too small where one is read. -/
theorem command_degrades_iff (game : RconGame) (sock : Option Socket) (cmd : Text) :
    Degrades (game.command sock cmd) ↔
      ∀ s, sock = some s → ¬ Leaks (.fresh s) game.password cmd := by
  cases sock with
  | none =>
    refine ⟨fun _ s hs => absurd hs (by simp), fun _ => ?_⟩
    exact .inr ⟨_, rfl, _, rfl⟩
  | some s =>
    simp only [Option.some.injEq, forall_eq', RconGame.command]
    rcases (translate_spec game cmd (.fresh s)).elim with
      ⟨text, last, hend, hnone⟩ | ⟨e, last, hend, hcase⟩
    · rw [result_eq hend]
      exact iff_of_true (.inl ⟨text, rfl⟩) hnone
    · rw [result_eq hend, degrades_of_error]
      rcases hcase with ⟨hunavailable, hnone⟩ | ⟨rfl, hleaks⟩
      · exact iff_of_true hunavailable hnone
      · refine iff_of_false ?_ (not_not_intro hleaks)
        rintro ⟨message, hmessage⟩
        cases hmessage

end

/-- The game on the host `minecraft`, which is answered with a length of zero. -/
def game : RconGame where
  host := "minecraft".toList
  port := 25575
  password := "pw".toList

def zeroLength : Socket where
  arriving := [⟨[0, 0, 0, 0], List.cons_ne_nil _ _⟩]

/-- An answer of length zero ends in an error of `struct`. -/
theorem zero_length_leaks : game.command (some zeroLength) "list".toList = .error .struct ∧
    ¬ Degrades (game.command (some zeroLength) "list".toList) := by
  have hleaks : Leaks (.fresh zeroLength) game.password "list".toList :=
    .inr ⟨rfl, .inl ⟨[], [], by decide, by decide⟩⟩
  have hstruct : game.command (some zeroLength) "list".toList = .error .struct := by
    rcases (translate_spec game "list".toList (.fresh zeroLength)).elim with
      ⟨text, last, hend, hnone⟩ | ⟨e, last, hend, ⟨-, hnone⟩ | ⟨rfl, -⟩⟩
    · exact absurd hleaks hnone
    · exact absurd hleaks hnone
    · exact result_eq hend
  refine ⟨hstruct, ?_⟩
  rw [hstruct, degrades_of_error]
  rintro ⟨message, hmessage⟩
  cases hmessage

end Rcon
