import McAdmin.DoormanConversation

/-!
# The numbers of the doorman's protocol

The doorman reads numbers from the stream and from a packet, and writes them.  The two readers
agree and undo the writer; but they know no sign, which a client's protocol number may have.
-/

namespace DoormanServer

open PlainText (encode)
open Procedures Sockets

section

variable {s : Socket} {r : PacketReader} {n v : ℕ} {body bytes rest : Bytes} {motd : Text}

/-! ### Readers and writer -/

/-- Both read the same number and as much of the bytes, or both fail. -/
def Agree (s : Socket) (r : PacketReader) : Prop :=
  (∃ n t r', readVarint s = (.ok n, t) ∧ PacketReader.varint r = (.ok n, r') ∧
      t.stream = r'.rest) ∨
    ∃ e t e' r', readVarint s = (.error e, t) ∧ PacketReader.varint r = (.error e', r')

theorem agree (h : s.stream = r.rest) : Agree s r := by
  rcases (readVarintFrom_spec 5 0 0 s).elim with
    ⟨n, t, hs, hdecode, -⟩ | ⟨e, t, hs, hdecode, -, -⟩
  all_goals
    rw [h] at hdecode
    rcases (PacketReader.varint_spec r).elim with
      ⟨n', r', hr, hdecode', -⟩ | ⟨e', r', hr, hdecode', -⟩
    all_goals
      rw [Varints.decode, hdecode] at hdecode'
  · obtain ⟨rfl, hrest⟩ := Prod.mk.inj (Option.some.inj hdecode')
    exact .inl ⟨n, t, r', hs, hr, hrest⟩
  · cases hdecode'
  · cases hdecode'
  · exact .inr ⟨e, t, e', r', hs, hr⟩

theorem readVarint_encode (hv : v < 2 ^ 35) (h : s.stream = Varints.encode v ++ rest) :
    ∃ t, readVarint s = (.ok v, t) ∧ t.stream = rest := by
  have hdecode' := Varints.decode_encode hv rest
  rw [← h] at hdecode'
  rcases (readVarintFrom_spec 5 0 0 s).elim with
    ⟨n, t, hs, hdecode, -⟩ | ⟨e, t, hs, hdecode, -, -⟩
  all_goals rw [Varints.decode, hdecode] at hdecode'
  · obtain ⟨rfl, hrest⟩ := Prod.mk.inj (Option.some.inj hdecode')
    exact ⟨t, hs, hrest⟩
  · cases hdecode'

namespace PacketReader

theorem varint_prefix (hv : v < 2 ^ 35) (h : r.rest = Varints.encode v ++ rest) :
    Meets varint r (fun n r' => n = v ∧ r'.rest = rest ∧ r'.Inside) (fun _ _ => False) := by
  have hdecode' := Varints.decode_encode hv rest
  rw [← h] at hdecode'
  refine (varint_spec r).mono ?_ ?_
  · rintro n r' ⟨hdecode, hinside⟩
    rw [hdecode] at hdecode'
    obtain ⟨rfl, hrest⟩ := Prod.mk.inj (Option.some.inj hdecode')
    exact ⟨rfl, hrest, hinside⟩
  · rintro e _ ⟨hdecode, -⟩
    rw [hdecode] at hdecode'
    cases hdecode'

theorem skip_prefix (hinside : r.Inside) (h : r.rest = bytes ++ rest) :
    Meets (skip bytes.length) r (fun raw r' => raw = bytes ∧ r'.rest = rest ∧ r'.Inside)
      (fun _ _ => False) := by
  refine (skip_spec bytes.length r).mono ?_ ?_
  · rintro raw r' ⟨hlength, hrest, hinside'⟩
    rw [h] at hrest
    obtain ⟨hraw, hrest⟩ := List.append_inj hrest hlength.symm
    exact ⟨hraw.symm, hrest.symm, hinside'⟩
  · rintro e _ ⟨-, hshort⟩
    have hshort := hshort hinside
    rw [h, List.length_append] at hshort
    omega

end PacketReader

structure Codec : Prop where
  agree : ∀ s r, s.stream = r.rest → Agree s r
  stream : ∀ v < 2 ^ 32, ∀ s rest, s.stream = Varints.encode v ++ rest →
    ∃ t, readVarint s = (.ok v, t) ∧ t.stream = rest
  packet : ∀ v < 2 ^ 32, ∀ r rest, r.rest = Varints.encode v ++ rest →
    ∃ r', PacketReader.varint r = (.ok v, r') ∧ r'.rest = rest

theorem codec : Codec where
  agree _ _ h := agree h
  stream v hv _ _ h := readVarint_encode (hv.trans (by decide)) h
  packet v hv r rest h := by
    obtain ⟨n, r', hr, rfl, hrest, -⟩ :=
      (PacketReader.varint_prefix (hv.trans (by decide)) h).exists_ok
    exact ⟨r', hr, hrest⟩

/-! ### A client that asks for the status -/

def unsigned (n : ℤ) : ℕ := (n % 2 ^ 32).toNat

/-- The handshake of a client of this protocol, which asks for the status. -/
def handshakeBytes (protocol : ℤ) (address : Bytes) (high low : UInt8) : Bytes :=
  0 :: (Varints.encode (unsigned protocol) ++ (prefixed address ++ [high, low, 1]))

theorem unsigned_lt (n : ℤ) : unsigned n < 2 ^ 32 := by
  rw [unsigned]
  omega

theorem encode_unsigned_length (n : ℤ) : (Varints.encode (unsigned n)).length ≤ 5 :=
  Varints.length_encode_le ((unsigned_lt n).trans (by decide)) (by decide)

theorem nextPacket_prefixed (hpos : 0 < body.length) (hmost : body.length ≤ maxPacketBytes)
    (rest : Bytes) : nextPacket (prefixed body ++ rest) = some (body, rest) := by
  have hsmall : body.length < 2 ^ 35 := hmost.trans_lt (by decide)
  rw [nextPacket, prefixed, List.append_assoc, Varints.decode_encode hsmall, Option.bind_some,
    if_pos, List.take_left' rfl, List.drop_left' rfl]
  rw [List.length_append]
  exact ⟨⟨hpos, hmost⟩, by omega⟩

theorem readPacket_prefixed (hpos : 0 < body.length) (hmost : body.length ≤ maxPacketBytes)
    (h : s.stream = prefixed body ++ rest) :
    Meets readPacket s (fun read t => read = body ∧ t.stream = rest ∧ Read s t)
      (fun _ _ => False) := by
  have hnext' := nextPacket_prefixed hpos hmost rest
  rw [← h] at hnext'
  refine (readPacket_spec s).mono ?_ ?_
  · rintro read t ⟨hnext, hread⟩
    rw [hnext] at hnext'
    obtain ⟨rfl, hrest⟩ := Prod.mk.inj (Option.some.inj hnext')
    exact ⟨rfl, hrest, hread⟩
  · rintro e _ ⟨hnext, -⟩
    rw [hnext] at hnext'
    cases hnext'

variable {protocol : ℤ} {address : Bytes} {high low : UInt8}

theorem handshake_read (haddress : address.length ≤ maxStringBytes) :
    Meets handshake { data := handshakeBytes protocol address high low }
      (fun opening _ => opening = some (unsigned protocol, 1)) (fun _ _ => False) := by
  have hsmall : address.length < 2 ^ 35 := haddress.trans_lt (by decide)
  have hprotocol : unsigned protocol < 2 ^ 35 := (unsigned_lt protocol).trans (by decide)
  have hzero : Varints.encode 0 = [0] := Varints.encode_small (by decide)
  have hone : Varints.encode 1 = [1] := Varints.encode_small (by decide)
  have hstart : PacketReader.rest { data := handshakeBytes protocol address high low } =
      Varints.encode 0 ++ (Varints.encode (unsigned protocol) ++
        (prefixed address ++ [high, low, 1])) := by
    rw [hzero]
    rfl
  refine meets_bind ((PacketReader.varint_prefix (by decide) hstart).mono ?_ fun _ _ h => h)
  rintro _ r₁ ⟨rfl, hrest₁, -⟩
  refine meets_ite (fun hne => absurd rfl hne) fun _ => ?_
  refine meets_bind ((PacketReader.varint_prefix hprotocol hrest₁).mono ?_ fun _ _ h => h)
  rintro _ r₂ ⟨rfl, hrest₂, -⟩
  rw [prefixed, List.append_assoc] at hrest₂
  refine meets_bind (meets_bind
    ((PacketReader.varint_prefix hsmall hrest₂).mono ?_ fun _ _ h => h))
  rintro _ r₃ ⟨rfl, hrest₃, hinside₃⟩
  refine meets_ite (fun _ => ?_) fun hlong => absurd haddress hlong
  refine meets_bind ((PacketReader.skip_prefix hinside₃ hrest₃).mono ?_ fun _ _ h => h)
  rintro _ r₄ ⟨-, hrest₄, hinside₄⟩
  have hport : r₄.rest = [high, low] ++ Varints.encode 1 := by rw [hone, hrest₄]; rfl
  refine meets_pure (meets_bind (meets_bind
    ((PacketReader.skip_prefix hinside₄ hport).mono ?_ fun _ _ h => h)))
  rintro _ r₅ ⟨-, hrest₅, -⟩
  refine meets_pure (meets_bind
    ((PacketReader.varint_prefix (by decide) (hrest₅.trans (List.append_nil _).symm)).mono ?_
      fun _ _ h => h))
  rintro _ r₆ ⟨rfl, -, -⟩
  exact meets_pure rfl

/-- The first thing the client was given is the status with this protocol number. -/
def Shows (motd : Text) (protocol : ℤ) (s : Socket) : Prop :=
  ∃ more, s.handed = prefixed (statusPayload motd protocol) :: more

theorem Gave.shows {handed : List Bytes} {more : List Bytes}
    (h : Gave handed s) (hhanded : handed = prefixed (statusPayload motd protocol) :: more) :
    Shows motd protocol s := ⟨more, h.given.trans hhanded⟩

theorem status_shows (clientProtocol : ℕ) (h : Sent [] s)
    (hstream : s.stream = prefixed [0] ++ rest) :
    Meets (status motd clientProtocol) s (fun _ t => Shows motd clientProtocol t)
      (fun e t => e.IsIgnored ∧ Shows motd clientProtocol t) := by
  have hzero : PacketReader.rest { data := [0] } = Varints.encode 0 ++ [] := by
    rw [Varints.encode_small (by decide : 0 < 128)]
    rfl
  refine meets_bind ((readPacket_prefixed (by decide) (by decide) hstream).mono ?_
    fun _ _ h => h.elim)
  rintro _ t ⟨rfl, -, hread⟩
  refine meets_bind (meets_inPacket
    ((PacketReader.varint_prefix (by decide) hzero).mono ?_ fun _ _ h => h.elim))
  rintro _ _ ⟨rfl, -, -⟩
  refine meets_ite (fun hne => absurd rfl hne) fun _ => ?_
  refine meets_bind ((sendPacket_spec (h.read hread) _).mono ?_ ?_)
  · rintro _ u ⟨hsent, -⟩
    refine meets_bind ((readPacket_spec u).mono ?_ ?_)
    · rintro ping v ⟨-, hread'⟩
      have hsent' := hsent.read hread'
      refine meets_ite (fun _ => ?_) fun _ => meets_pure (hsent'.toGave.shows rfl)
      refine (sendPacket_spec hsent' ping).mono ?_ ?_
      · rintro _ w ⟨hponged, -⟩
        exact hponged.toGave.shows rfl
      · rintro e w ⟨he, hgave⟩
        exact ⟨he, hgave.shows rfl⟩
    · rintro e v ⟨-, he, hread'⟩
      exact ⟨he, (hsent.read hread').toGave.shows rfl⟩
  · rintro e u ⟨he, hgave⟩
    exact ⟨he, hgave.shows rfl⟩

/-- What a client of this protocol sends, and anything after it. -/
def asksStatus (protocol : ℤ) (address : Bytes) (high low : UInt8) (more : Bytes) : Bytes :=
  prefixed (handshakeBytes protocol address high low) ++ (prefixed [0] ++ more)

theorem handshakeBytes_fits (haddress : address.length ≤ maxStringBytes) :
    0 < (handshakeBytes protocol address high low).length ∧
      (handshakeBytes protocol address high low).length ≤ maxPacketBytes := by
  have hprotocol := encode_unsigned_length protocol
  have haddress' : (Varints.encode address.length).length ≤ 2 := by
    refine Varints.length_encode_le (haddress.trans_lt ?_) (by decide)
    decide
  have hstring : maxStringBytes = 1024 := rfl
  have hpacket : maxPacketBytes = 32768 := rfl
  simp only [handshakeBytes, prefixed, List.length_cons, List.length_append, List.length_nil]
  omega

theorem handleClient_shows (motd kick : Text) (haddress : address.length ≤ maxStringBytes)
    {arriving : List Chunk} (ending : Ending) (cut : ℕ → Option ℕ) (shuts : Bool) {more : Bytes}
    (hstream : arriving.flatMap Subtype.val = asksStatus protocol address high low more) :
    ∃ t, handleClient motd kick { arriving, ending, cut, shuts } = (.ok (), t) ∧
      Shows motd (unsigned protocol) t := by
  have hstart : Sent [] ({ arriving, ending, cut, shuts } : Socket) :=
    ⟨⟨rfl, List.prefix_rfl, rfl, fun n hn => absurd hn List.not_mem_nil⟩, rfl⟩
  have hfits : 0 < (handshakeBytes protocol address high low).length ∧
      (handshakeBytes protocol address high low).length ≤ maxPacketBytes :=
    handshakeBytes_fits haddress
  have hstream : Socket.stream { arriving, ending, cut, shuts } =
      asksStatus protocol address high low more := hstream
  have hclosed : ∀ t, Shows motd (unsigned protocol) t →
      Meets hangUp t (fun _ u => Shows motd (unsigned protocol) u) (fun _ _ => False) := by
    rintro t ⟨more, hhanded⟩
    refine (hangUp_spec t).mono ?_ fun _ _ hnever => hnever
    rintro _ u rfl
    exact ⟨more, hhanded⟩
  have htalk : Meets (conversation motd kick) { arriving, ending, cut, shuts }
      (fun _ t => Shows motd (unsigned protocol) t)
      (fun e t => e.IsIgnored ∧ Shows motd (unsigned protocol) t) := by
    refine meets_bind ((readPacket_prefixed hfits.1 hfits.2 hstream).mono ?_ fun _ _ h => h.elim)
    rintro _ t ⟨rfl, hrest, hread⟩
    refine meets_bind (meets_inPacket ((handshake_read haddress).mono ?_ fun _ _ h => h.elim))
    rintro _ _ rfl
    exact meets_ite (fun _ => status_shows _ (hstart.read hread) hrest) fun hne => absurd rfl hne
  have hdone : Meets (handleClient motd kick) { arriving, ending, cut, shuts }
      (fun _ t => Shows motd (unsigned protocol) t) (fun _ _ => False) := by
    refine meets_ensure (meets_handle (htalk.mono ?_ ?_))
    · exact fun _ t hshows => hclosed t hshows
    · rintro e t ⟨he, hshows⟩
      exact meets_ite (fun _ => meets_pure (hclosed t hshows)) fun hother => absurd he hother
  obtain ⟨_, t, hend, hshows⟩ := hdone.exists_ok
  exact ⟨t, hend, hshows⟩

/-! ### The number in the status -/

theorem prefixed_inj {payload payload' : Bytes} (h : prefixed payload = prefixed payload') :
    payload = payload' := (Varints.encode_append_inj h).2

theorem object_split (front back : List (String × Text)) (key : String) :
    ∃ before after, ∀ value, object (front ++ (key, value) :: back) = before ++ (value ++ after) := by
  have hmembers : ∃ before after, ∀ value,
      membersText (front ++ (key, value) :: back) = before ++ (value ++ after) := by
    induction front with
    | nil =>
      cases back with
      | nil =>
        refine ⟨JsonText.quote key.toList ++ ": ".toList, [], fun value => ?_⟩
        rw [List.append_nil]
        rfl
      | cons member back =>
        refine ⟨JsonText.quote key.toList ++ ": ".toList,
          ", ".toList ++ membersText (member :: back), fun value => ?_⟩
        exact List.append_assoc _ _ _
    | cons member front ih =>
      obtain ⟨before, after, hsplit⟩ := ih
      refine ⟨memberText member ++ (", ".toList ++ before), after, fun value => ?_⟩
      have hcons : membersText (member :: (front ++ (key, value) :: back)) =
          memberText member ++ (", ".toList ++ membersText (front ++ (key, value) :: back)) := by
        cases front <;> rfl
      rw [List.cons_append, hcons, hsplit, List.append_assoc, List.append_assoc]
  obtain ⟨before, after, hsplit⟩ := hmembers
  refine ⟨'{' :: before, after ++ ['}'], fun value => ?_⟩
  rw [object, hsplit, List.cons_append, List.append_assoc, List.append_assoc]

theorem statusJson_inj {n m : ℤ} (h : statusJson motd n = statusJson motd m) :
    intText n = intText m := by
  obtain ⟨before, after, hinner⟩ :=
    object_split [("name", JsonText.quote "Maintenance".toList)] [] "protocol"
  obtain ⟨before', after', houter⟩ := object_split []
    [("players", object [("online", intText 0), ("max", intText 0)]),
     ("description", object [("text", JsonText.quote motd)])] "version"
  have hsplit : ∀ k, statusJson motd k =
      before' ++ ((before ++ (intText k ++ after)) ++ after') := fun k => by
    rw [← hinner]
    exact houter _
  rw [hsplit, hsplit] at h
  exact List.append_cancel_right
    (List.append_cancel_left (List.append_cancel_right (List.append_cancel_left h)))

theorem encode_inj {text text' : Text} (h : encode text = encode text') : text = text' := by
  have hdecode := congrArg PlainText.decode h
  rw [PlainText.decode_encode, PlainText.decode_encode] at hdecode
  exact Option.some.inj hdecode

theorem intText_ne (k l : ℕ) : intText k ≠ intText (Int.negSucc l) := by
  intro h
  have hmem : '-' ∈ Nat.toDigits 10 k := by
    have htext : Nat.toDigits 10 k = '-' :: Nat.toDigits 10 (l + 1) := h
    rw [htext]
    exact List.mem_cons_self
  have hdigit := Nat.isDigit_of_mem_toDigits (by decide) (by decide) hmem
  revert hdigit
  decide

theorem shows_iff {n : ℤ} (hn : -2 ^ 31 ≤ n ∧ n < 2 ^ 31) (h : Shows motd (unsigned n) s) :
    Shows motd n s ↔ 0 ≤ n := by
  constructor
  · rintro ⟨more, hhanded⟩
    obtain ⟨more', hhanded'⟩ := h
    rw [hhanded'] at hhanded
    have hpayload := (List.cons.inj (prefixed_inj (List.cons.inj hhanded).1)).2
    have htext := statusJson_inj (encode_inj (prefixed_inj hpayload))
    by_contra hneg
    obtain ⟨l, rfl⟩ := Int.eq_negSucc_of_lt_zero (not_le.mp hneg)
    exact intText_ne _ _ htext
  · intro hpos
    have hsame : (unsigned n : ℤ) = n := by
      rw [unsigned]
      omega
    rwa [hsame] at h

/-- The readers agree and undo the writer; the status carries the number of the client exactly
when that number has no sign. -/
theorem protocol_returned_iff (motd kick : Text) (hprotocol : -2 ^ 31 ≤ protocol ∧ protocol < 2 ^ 31)
    (haddress : address.length ≤ maxStringBytes) {arriving : List Chunk} (ending : Ending)
    (cut : ℕ → Option ℕ) (shuts : Bool) {more : Bytes}
    (hstream : arriving.flatMap Subtype.val = asksStatus protocol address high low more) :
    (Codec ∧ ∃ t, handleClient motd kick { arriving, ending, cut, shuts } = (.ok (), t) ∧
      Shows motd protocol t) ↔ 0 ≤ protocol := by
  obtain ⟨t, hend, hshows⟩ := handleClient_shows motd kick haddress ending cut shuts hstream
  rw [and_iff_right codec, ← shows_iff hprotocol hshows, hend]
  constructor
  · rintro ⟨t', hsame, hshows'⟩
    cases hsame
    exact hshows'
  · exact fun hshows' => ⟨t, rfl, hshows'⟩

end

theorem asksStatus_ne_nil (protocol : ℤ) (address : Bytes) (high low : UInt8) (more : Bytes) :
    asksStatus protocol address high low more ≠ [] := by
  intro hnil
  exact Varints.encode_ne_nil _
    (List.append_eq_nil_iff.mp (List.append_eq_nil_iff.mp hnil).1).1

/-- What a client of this protocol sends to `mc` on the usual port. -/
def client (protocol : ℤ) : List Chunk :=
  [⟨asksStatus protocol [0x6D, 0x63] 0x63 0xDD [], asksStatus_ne_nil _ _ _ _ _⟩]

theorem stream_client (protocol : ℤ) : (client protocol).flatMap Subtype.val =
    asksStatus protocol [0x6D, 0x63] 0x63 0xDD [] := List.append_nil _

/-- A client of a released version sees its own number. -/
theorem release_returned : Codec ∧
    ∃ t, handleClient "Fermé".toList "Reviens".toList (Socket.mk (client 767) .closed (fun _ => none)
      true [] [] [] 0) = (.ok (), t) ∧ Shows "Fermé".toList 767 t :=
  (protocol_returned_iff "Fermé".toList "Reviens".toList (by decide) (by decide) .closed
    (fun _ => none) true (stream_client 767)).mpr (by decide)

/-- A client that asks for any version, with the number -1, is shown another. -/
theorem any_version_not_returned :
    ∃ t, handleClient "Fermé".toList "Reviens".toList (Socket.mk (client (-1)) .closed (fun _ => none)
      true [] [] [] 0) = (.ok (), t) ∧ Shows "Fermé".toList 4294967295 t ∧
      ¬ Shows "Fermé".toList (-1) t := by
  obtain ⟨t, hend, hshows⟩ := handleClient_shows "Fermé".toList "Reviens".toList (by decide) .closed
    (fun _ => none) true (stream_client (-1))
  refine ⟨t, hend, hshows, fun hsigned => ?_⟩
  have hpos := (shows_iff (by decide) hshows).mp hsigned
  revert hpos
  decide

end DoormanServer
