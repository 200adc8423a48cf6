import McAdmin.JsonText
import McAdmin.Sockets
import McAdmin.Utf8
import McAdmin.Varints

/-!
# The doorman of a server in maintenance

It speaks as much of the game's protocol as it takes to show a message in the list of servers and
to refuse a player with another.  Its clients send whatever they like.
-/

namespace DoormanServer

open JsonText (quote)
open PlainText (decodeReplace encode)
open Procedures Sockets

abbrev Text := List Char

/-! ### Primitives -/

/-- `_MAX_PACKET_BYTES` and `_MAX_STRING_BYTES` -/
def maxPacketBytes : ℕ := 32768
def maxStringBytes : ℕ := 1024

inductive Error where
  /-- `ProtocolError` -/
  | protocol
  | os
  /-- An index out of range. -/
  | index
deriving DecidableEq

def readExact (count : ℕ) : Proc Socket Error Bytes := Sockets.readExact .os .protocol count

/-- The rounds of `_read_varint` that are left. -/
def readVarintFrom : ℕ → ℕ → ℕ → Proc Socket Error ℕ
  | 0, _, _ => .raise .protocol
  | rounds + 1, position, value => do
    let byte ← .ofOption .index (← readExact 1)[0]?
    if Varints.isLast byte then pure (Varints.put position value byte)
    else readVarintFrom rounds (position + 1) (Varints.put position value byte)

def readVarint : Proc Socket Error ℕ := readVarintFrom 5 0 0

def readPacket : Proc Socket Error Bytes := do
  let length ← readVarint
  if 0 < length ∧ length ≤ maxPacketBytes then readExact length else .raise .protocol

def prefixed (payload : Bytes) : Bytes := Varints.encode payload.length ++ payload

def sendPacket (payload : Bytes) : Proc Socket Error Unit := sendAll .os (prefixed payload)

structure PacketReader where
  data : Bytes
  offset : ℕ := 0

namespace PacketReader

def rest (r : PacketReader) : Bytes := r.data.drop r.offset

def byte : Proc PacketReader Error UInt8 := fun r =>
  match r.data[r.offset]? with
  | none => (.error .index, r)
  | some b => (.ok b, { r with offset := r.offset + 1 })

/-- The rounds of `varint` that are left. -/
def varintFrom : ℕ → ℕ → ℕ → Proc PacketReader Error ℕ
  | 0, _, _ => .raise .protocol
  | rounds + 1, position, value => do
    let r ← .get
    if r.data.length ≤ r.offset then .raise .protocol
    else do
      let b ← byte
      if Varints.isLast b then pure (Varints.put position value b)
      else varintFrom rounds (position + 1) (Varints.put position value b)

def varint : Proc PacketReader Error ℕ := varintFrom 5 0 0

def skip (count : ℕ) : Proc PacketReader Error Bytes := fun r =>
  if r.data.length < r.offset + count then (.error .protocol, r)
  else (.ok ((r.data.drop r.offset).take count), { r with offset := r.offset + count })

def string : Proc PacketReader Error Text := do
  let length ← varint
  if length ≤ maxStringBytes then do
    let raw ← skip length
    pure (decodeReplace raw)
  else .raise .protocol

/-- The two bytes are `>H`. -/
def unsignedShort : Proc PacketReader Error ℕ := do
  let bytes ← skip 2
  pure (bytes.foldl (fun value b => value * 256 + b.toNat) 0)

end PacketReader

def inPacket {α : Type} (data : Bytes) (x : Proc PacketReader Error α) : Proc Socket Error α :=
  fun s => (x.result { data }, s)

/-! ### What is sent -/

def memberText (member : String × Text) : Text :=
  quote member.1.toList ++ ": ".toList ++ member.2

def membersText : List (String × Text) → Text
  | [] => []
  | [member] => memberText member
  | member :: member' :: members =>
    memberText member ++ (", ".toList ++ membersText (member' :: members))

/-- `json.dumps` of an object, of its members as they are written. -/
def object (members : List (String × Text)) : Text := '{' :: (membersText members ++ ['}'])

/-- `json.dumps` of an integer. -/
def intText : ℤ → Text
  | .ofNat n => Nat.toDigits 10 n
  | .negSucc n => '-' :: Nat.toDigits 10 (n + 1)

def encoded (json : Text) : Bytes := prefixed (encode json)

def chatJson (text : Text) : Bytes := encoded (object [("text", quote text)])

def statusJson (motd : Text) (clientProtocol : ℤ) : Text :=
  object
    [("version",
      object [("name", quote "Maintenance".toList), ("protocol", intText clientProtocol)]),
     ("players", object [("online", intText 0), ("max", intText 0)]),
     ("description", object [("text", quote motd)])]

def statusPayload (motd : Text) (clientProtocol : ℤ) : Bytes :=
  0 :: encoded (statusJson motd clientProtocol)

def refusal (kick : Text) : Bytes := 0 :: chatJson kick

/-! ### A conversation -/

/-- The protocol of the client and the state it asks for; nothing when the packet is no
handshake. -/
def handshake : Proc PacketReader Error (Option (ℕ × ℕ)) := do
  let id ← PacketReader.varint
  if id ≠ 0 then pure none
  else do
    let clientProtocol ← PacketReader.varint
    let _ ← PacketReader.string
    let _ ← PacketReader.unsignedShort
    let nextState ← PacketReader.varint
    pure (some (clientProtocol, nextState))

/-- The answer to a client that asks for the status, and to its ping. -/
def status (motd : Text) (clientProtocol : ℕ) : Proc Socket Error Unit := do
  let request ← readPacket
  let id ← inPacket request PacketReader.varint
  if id ≠ 0 then pure ()
  else do
    sendPacket (statusPayload motd clientProtocol)
    let ping ← readPacket
    if ping.take 1 = [1] ∧ ping.length = 9 then sendPacket ping else pure ()

def conversation (motd kick : Text) : Proc Socket Error Unit := do
  let first ← readPacket
  match ← inPacket first handshake with
  | none => pure ()
  | some (clientProtocol, nextState) =>
    if nextState = 1 then status motd clientProtocol
    else if nextState = 2 ∨ nextState = 3 then sendPacket (refusal kick)
    else pure ()

/-- `except (ProtocolError, OSError): pass` -/
def ignore (e : Error) : Proc Socket Error Unit :=
  if e = .protocol ∨ e = .os then pure () else .raise e

/-- `finally: sock.shutdown(…); sock.close()`, where an `OSError` of the first is ignored. -/
def hangUp : Proc Socket Error Unit := do
  (shutdown .os).handle fun e => if e = .os then pure () else .raise e
  close

def handleClient (motd kick : Text) : Proc Socket Error Unit :=
  ((conversation motd kick).handle ignore).ensure hangUp

/-! ### What the primitives do -/

def Error.IsIgnored (e : Error) : Prop := e = .protocol ∨ e = .os

/-- The body of the packet a stream begins with, and what follows it. -/
def nextPacket (stream : Bytes) : Option (Bytes × Bytes) :=
  (Varints.decode stream).bind fun read =>
    if (0 < read.1 ∧ read.1 ≤ maxPacketBytes) ∧ read.1 ≤ read.2.length then
      some (read.2.take read.1, read.2.drop read.1)
    else none

def Read (s t : Socket) : Prop := ∃ used, Reads used maxPacketBytes s t

theorem isIgnored_fault (s : Socket) : (s.fault Error.os Error.protocol).IsIgnored := by
  rw [Socket.fault]
  cases s.ending with
  | closed => exact .inl rfl
  | failed => exact .inr rfl

theorem Read.trans {s t u : Socket} (h : Read s t) (h' : Read t u) : Read s u := by
  obtain ⟨used, h⟩ := h
  obtain ⟨used', h'⟩ := h'
  exact ⟨used ++ used', h.trans h'⟩

theorem readExact_spec {count : ℕ} (hcount : count ≤ maxPacketBytes) (s : Socket) :
    Meets (readExact count) s
      (fun bytes t => bytes.length = count ∧ s.stream = bytes ++ t.stream ∧ Read s t)
      (fun e t => e.IsIgnored ∧ s.stream.length < count ∧ Read s t) := by
  refine (Sockets.readExact_spec Error.os Error.protocol count s).mono ?_ ?_
  · rintro bytes t ⟨hlength, hreads⟩
    exact ⟨hlength, hreads.stream, bytes, hreads.mono hcount⟩
  · rintro e t ⟨rfl, hshort, hreads⟩
    exact ⟨isIgnored_fault s, hshort, s.stream, hreads.mono hcount⟩

theorem readVarintFrom_spec (rounds position value : ℕ) (s : Socket) :
    Meets (readVarintFrom rounds position value) s
      (fun n t => Varints.decodeFrom rounds position value s.stream = some (n, t.stream) ∧ Read s t)
      (fun e t => Varints.decodeFrom rounds position value s.stream = none ∧ e.IsIgnored ∧
        Read s t) := by
  induction rounds generalizing position value s with
  | zero => exact meets_raise ⟨rfl, .inl rfl, [], Reads.refl s⟩
  | succ rounds ih =>
    have hone : 1 ≤ maxPacketBytes := by decide
    refine meets_bind ((readExact_spec hone s).mono ?_ ?_)
    · rintro bytes t ⟨hlength, hstream, hread⟩
      obtain ⟨b, rfl⟩ := List.length_eq_one_iff.mp hlength
      rw [hstream, List.singleton_append, Varints.decodeFrom]
      refine meets_bind (meets_pure ?_)
      refine meets_ite (fun hlast => meets_pure ?_) fun hmore => ?_
      · rw [if_pos hlast]
        exact ⟨rfl, hread⟩
      · rw [if_neg hmore]
        refine (ih _ _ t).mono ?_ ?_
        · rintro n u ⟨hdecode, hread'⟩
          exact ⟨hdecode, hread.trans hread'⟩
        · rintro e u ⟨hdecode, he, hread'⟩
          exact ⟨hdecode, he, hread.trans hread'⟩
    · rintro e t ⟨he, hshort, hread⟩
      have hnil : s.stream = [] := List.length_eq_zero_iff.mp (by omega)
      rw [hnil]
      exact ⟨rfl, he, hread⟩

theorem readPacket_spec (s : Socket) :
    Meets readPacket s
      (fun body t => nextPacket s.stream = some (body, t.stream) ∧ Read s t)
      (fun e t => nextPacket s.stream = none ∧ e.IsIgnored ∧ Read s t) := by
  refine meets_bind ((readVarintFrom_spec 5 0 0 s).mono ?_ ?_)
  · rintro length t ⟨hdecode, hread⟩
    have hdecode : Varints.decode s.stream = some (length, t.stream) := hdecode
    rw [nextPacket, hdecode]
    refine meets_ite (fun hbounds => ?_) fun hbounds => meets_raise ?_
    · refine (readExact_spec hbounds.2 t).mono ?_ ?_
      · rintro body u ⟨hlength, hstream, hread'⟩
        have henough : length ≤ t.stream.length := by
          rw [hstream, List.length_append]
          omega
        refine ⟨?_, hread.trans hread'⟩
        rw [Option.bind_some, if_pos ⟨hbounds, henough⟩, hstream, List.take_left' hlength,
          List.drop_left' hlength]
      · rintro e u ⟨he, hshort, hread'⟩
        refine ⟨?_, he, hread.trans hread'⟩
        rw [Option.bind_some, if_neg]
        exact fun hall => absurd hall.2 (not_le.mpr hshort)
    · refine ⟨?_, .inl rfl, hread⟩
      rw [Option.bind_some, if_neg]
      exact fun hall => hbounds hall.1
  · rintro e t ⟨hdecode, he, hread⟩
    have hdecode : Varints.decode s.stream = none := hdecode
    rw [nextPacket, hdecode]
    exact ⟨rfl, he, hread⟩

/-! ### Inside a packet -/

namespace PacketReader

def Inside (r : PacketReader) : Prop := r.offset ≤ r.data.length

theorem varintFrom_spec (rounds position value : ℕ) (r : PacketReader) :
    Meets (varintFrom rounds position value) r
      (fun n r' => Varints.decodeFrom rounds position value r.rest = some (n, r'.rest) ∧ r'.Inside)
      (fun e _ => Varints.decodeFrom rounds position value r.rest = none ∧ e = .protocol) := by
  induction rounds generalizing position value r with
  | zero => exact meets_raise ⟨rfl, rfl⟩
  | succ rounds ih =>
    refine meets_bind (meets_get (meets_ite (fun hend => meets_raise ?_) fun hend => ?_))
    · rw [rest, List.drop_eq_nil_of_le hend]
      exact ⟨rfl, rfl⟩
    · have hbyte := List.getElem?_eq_getElem (not_le.mp hend)
      have hrest : r.rest = r.data[r.offset] :: PacketReader.rest { r with offset := r.offset + 1 } :=
        List.drop_eq_getElem_cons (not_le.mp hend)
      rw [hrest, Varints.decodeFrom]
      refine meets_bind ⟨?_⟩
      rw [byte, hbyte]
      refine meets_ite (fun hlast => meets_pure ?_) fun hmore => ?_
      · rw [if_pos hlast]
        exact ⟨rfl, not_le.mp hend⟩
      · rw [if_neg hmore]
        exact ih _ _ _

theorem varint_spec (r : PacketReader) :
    Meets varint r (fun n r' => Varints.decode r.rest = some (n, r'.rest) ∧ r'.Inside)
      (fun e _ => Varints.decode r.rest = none ∧ e = .protocol) :=
  varintFrom_spec 5 0 0 r

theorem skip_spec (count : ℕ) (r : PacketReader) :
    Meets (skip count) r
      (fun bytes r' => bytes.length = count ∧ r.rest = bytes ++ r'.rest ∧ r'.Inside)
      (fun e _ => e = .protocol ∧ (r.Inside → r.rest.length < count)) := by
  constructor
  rw [skip]
  split_ifs with hshort
  · refine ⟨rfl, fun hinside => ?_⟩
    rw [Inside] at hinside
    rw [rest, List.length_drop]
    omega
  · have hlength : (r.data.drop r.offset).length = r.data.length - r.offset := List.length_drop
    refine ⟨?_, ?_, not_lt.mp hshort⟩
    · rw [List.length_take]
      omega
    · change _ = _ ++ r.data.drop (r.offset + count)
      rw [← List.drop_drop, List.take_append_drop]
      rfl

theorem handshake_raises (r : PacketReader) :
    Meets handshake r (fun _ _ => True) (fun e _ => e = .protocol) := by
  refine meets_bind ((varint_spec r).mono ?_ fun e _ he => he.2)
  intro id r₁ _
  refine meets_ite (fun _ => meets_pure trivial) fun _ => ?_
  refine meets_bind ((varint_spec r₁).mono ?_ fun e _ he => he.2)
  intro clientProtocol r₂ _
  refine meets_bind (meets_bind ((varint_spec r₂).mono ?_ fun e _ he => he.2))
  intro length r₃ _
  refine meets_ite (fun _ => ?_) fun _ => meets_raise rfl
  refine meets_bind ((skip_spec length r₃).mono ?_ fun e _ he => he.1)
  intro raw r₄ _
  refine meets_pure (meets_bind (meets_bind ((skip_spec 2 r₄).mono ?_ fun e _ he => he.1)))
  intro bytes r₅ _
  refine meets_pure (meets_bind ((varint_spec r₅).mono ?_ fun e _ he => he.2))
  exact fun nextState r₆ _ => meets_pure trivial

end PacketReader

theorem meets_inPacket {α : Type} {data : Bytes} {x : Proc PacketReader Error α} {s : Socket}
    {Q : α → Socket → Prop} {E : Error → Socket → Prop}
    (hx : Meets x { data } (fun a _ => Q a s) fun e _ => E e s) : Meets (inPacket data x) s Q E := by
  constructor
  rw [inPacket]
  rcases hx.elim with ⟨a, r, hend, hQ⟩ | ⟨e, r, hend, hE⟩
  · rw [result_eq hend]
    exact hQ
  · rw [result_eq hend]
    exact hE

end DoormanServer
