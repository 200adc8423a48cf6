import McAdmin.Rcon

/-!
# Answers in fragments

A server cuts the bytes of its answer into fragments of 4096 and sends each as a packet.  The
fragments are told apart from what follows, but each is decoded by itself.
-/

namespace Rcon

open PackedInts Procedures Sockets
open PlainText (BeginsWhole decodeReplace encode)

/-! ### Packets -/

section

variable {conn later : Connection} {stream content rest after endContent last : Bytes}
  {reqId ptype endId endType : ℤ} {payload text cmd : Text} {fragments front : List Bytes}

def bodyBytes (reqId ptype : ℤ) (content : Bytes) : Bytes :=
  intBytes reqId ++ intBytes ptype ++ content ++ [0, 0]

/-- The length field holds the length of such a packet. -/
def Packable (content : Bytes) : Prop := content.length + 10 < 2 ^ 31

theorem length_bodyBytes (reqId ptype : ℤ) (content : Bytes) :
    (bodyBytes reqId ptype content).length = content.length + 10 := by
  simp only [bodyBytes, List.length_append, length_intBytes, List.length_cons, List.length_nil]
  omega

theorem take_bodyBytes (reqId ptype : ℤ) (content : Bytes) :
    (bodyBytes reqId ptype content).take 8 = intBytes reqId ++ intBytes ptype := by
  rw [bodyBytes, List.append_assoc]
  exact List.take_left' (by simp)

theorem content_bodyBytes (reqId ptype : ℤ) (content : Bytes) :
    Rcon.content (bodyBytes reqId ptype content) = content := by
  have hlength : (bodyBytes reqId ptype content).length - 2 =
      (intBytes reqId ++ intBytes ptype ++ content).length := by
    rw [length_bodyBytes]
    simp only [List.length_append, length_intBytes]
    omega
  rw [Rcon.content, hlength, bodyBytes, List.take_left' rfl]
  exact List.drop_left' (by simp)

theorem idOf_bodyBytes (hid : IsInt32 reqId) (ptype : ℤ) (content : Bytes) :
    idOf (bodyBytes reqId ptype content) = reqId := by
  rw [idOf, take_bodyBytes, List.take_left' (length_intBytes reqId), signed_intBytes hid]

theorem next_packetBytes (h : Packable content) (reqId ptype : ℤ) (rest : Bytes) :
    next (packetBytes reqId ptype content ++ rest) =
      some (bodyBytes reqId ptype content, rest) := by
  have hint : IsInt32 (content.length + 10) := by
    rw [Packable] at h
    constructor <;> omega
  rw [packetBytes, List.append_assoc]
  refine next_eq_some (length_intBytes _) ?_
  rw [signed_intBytes hint]
  exact length_bodyBytes reqId ptype content

theorem decodePacket_encodePacket {packet : Bytes}
    (h : encodePacket reqId ptype payload = some packet) :
    decodePacket (packet.drop 4) = some (reqId, ptype, payload) := by
  have hints : IsInt32 reqId ∧ IsInt32 ptype := by
    by_contra hints
    rw [encodePacket, packTwo, if_neg hints] at h
    cases h
  rw [encodePacket_eq hints.1 hints.2] at h
  split_ifs at h
  obtain rfl := Option.some.inj h
  have hdrop : (packetBytes reqId ptype (encode payload)).drop 4 =
      bodyBytes reqId ptype (encode payload) := List.drop_left' (length_intBytes _)
  rw [hdrop, decodePacket, take_bodyBytes, unpackTwo_intBytes hints.1 hints.2, content_bodyBytes,
    PlainText.decodeReplace_encode]
  rfl

/-! ### Reading the packets of an answer -/

theorem recvPacket_packet (hid : IsInt32 reqId) (hpackable : Packable content)
    (hstream : conn.stream = packetBytes reqId ptype content ++ rest) :
    Meets recvPacket conn
      (fun r later => r.1.1 = reqId ∧ r.1.2.2 = decodeReplace content ∧
        r.2 = (content.length : ℤ) ∧ later.stream = rest ∧ ∃ used, Follows used conn later)
      (fun _ _ => False) := by
  have hnext := next_packetBytes hpackable reqId ptype rest
  rw [← hstream] at hnext
  refine (recvPacket_spec conn).mono ?_ ?_
  · rintro r later ⟨body, used, hfollows, -, hbody, -, hreqId, htext, hsize⟩
    rw [hnext] at hbody
    obtain ⟨rfl, hrest⟩ := Prod.mk.inj (Option.some.inj hbody)
    rw [idOf_bodyBytes hid] at hreqId
    rw [content_bodyBytes] at htext
    rw [length_bodyBytes] at hsize
    refine ⟨hreqId, htext, ?_, hrest.symm, used, hfollows⟩
    rw [hsize]
    omega
  · rintro e _ (⟨-, hnone⟩ | ⟨-, hshort⟩)
    · rw [hnext] at hnone
      cases hnone
    · refine not_short_of_long hnext ?_ hshort
      rw [length_bodyBytes]
      omega

theorem collect_fragments (hid : IsInt32 reqId) (hend : IsInt32 endId) (hne : reqId ≠ endId)
    (hpackable : ∀ fragment ∈ fragments, Packable fragment) (hlast : Packable endContent)
    {rounds : ℕ} (parts : List Text) (hrounds : conn.stream.length < rounds)
    (hstream : conn.stream = fragments.flatMap (packetBytes reqId ptype) ++
      (packetBytes endId endType endContent ++ after)) :
    Meets (collect endId rounds parts) conn
      (fun text later => text = parts.flatten ++ fragments.flatMap decodeReplace ∧
        later.stream = after)
      (fun _ _ => False) := by
  induction fragments generalizing rounds parts conn with
  | nil =>
    cases rounds with
    | zero => omega
    | succ rounds =>
      refine meets_bind ((recvPacket_packet hend hlast hstream).mono ?_ fun _ _ hnever => hnever)
      rintro ⟨⟨id, type, payload⟩, size⟩ later ⟨rfl, -, -, hafter, -⟩
      refine meets_ite (fun _ => meets_pure ⟨?_, hafter⟩) fun hother => absurd rfl hother
      rw [List.flatMap_nil, List.append_nil]
  | cons fragment fragments ih =>
    cases rounds with
    | zero => omega
    | succ rounds =>
      rw [List.flatMap_cons, List.append_assoc] at hstream
      have hfirst := recvPacket_packet hid (hpackable fragment List.mem_cons_self) hstream
      refine meets_bind (hfirst.mono ?_ fun _ _ hnever => hnever)
      rintro ⟨⟨id, type, payload⟩, size⟩ later ⟨rfl, hpayload, -, hrest, used, hfollows⟩
      have hpayload : payload = decodeReplace fragment := hpayload
      refine meets_ite (fun hsame => absurd hsame hne) fun _ => ?_
      -- each fragment takes bytes off the stream, so that the rounds suffice
      have hlength : later.stream.length < rounds := by
        have hbytes := congrArg List.length hstream
        rw [← hrest, List.length_append, packetBytes, List.length_append, length_intBytes]
          at hbytes
        omega
      refine (ih (fun fragment hfragment => hpackable fragment (List.mem_cons_of_mem _ hfragment))
        _ hlength hrest).mono ?_ fun _ _ hnever => hnever
      rintro text last ⟨rfl, hafter⟩
      refine ⟨?_, hafter⟩
      rw [List.flatten_append, List.flatten_singleton, hpayload, List.flatMap_cons,
        List.append_assoc]

/-! ### The answer to a command -/

/-- The bytes of a text, cut into fragments of 4096 and a last one that may be shorter. -/
structure CutUp (text : Text) (front : List Bytes) (last : Bytes) : Prop where
  bytes : (front ++ [last]).flatten = encode text
  full : ∀ fragment ∈ front, fragment.length = maxPayload
  short : last.length ≤ maxPayload

/-- The first fragment is a full one, so that the end is asked for. -/
def AsksForEnd (front : List Bytes) (last : Bytes) : Prop :=
  ∀ first ∈ (front ++ [last]).head?, first.length = maxPayload

instance (front : List Bytes) (last : Bytes) : Decidable (AsksForEnd front last) :=
  inferInstanceAs (Decidable (∀ first ∈ (front ++ [last]).head?, _))

/-- What the server sends: the fragments, and its answer to the command for the end when there is
one. -/
def answer (reqId ptype endType : ℤ) (front : List Bytes) (last endContent : Bytes) : Bytes :=
  (front ++ [last]).flatMap (packetBytes reqId ptype) ++
    if AsksForEnd front last then packetBytes (reqId + 1) endType endContent else []

theorem send_accepted (hid : IsInt32 reqId) (hpayload : Fits payload) (haccepts : conn.Accepts 0) :
    Meets (send reqId exec payload) conn (fun _ later => Sent conn later) (fun _ _ => False) := by
  have hexec : IsInt32 exec := by decide
  have hint : IsInt32 ((encode payload).length + 10) := ⟨by omega, hpayload⟩
  have hpacket := encodePacket_eq hid hexec payload
  rw [if_pos hint] at hpacket
  refine (send_spec reqId exec payload conn).mono (fun _ _ hsent => hsent.2.2) ?_
  rintro e _ (⟨-, hnone⟩ | ⟨-, -, hrefused⟩)
  · rw [hpacket] at hnone
    cases hnone
  · exact hrefused haccepts

theorem packable_of_le (h : content.length ≤ maxPayload) : Packable content := by
  have hmax : maxPayload = 4096 := rfl
  rw [Packable]
  omega

theorem CutUp.length_le (h : CutUp text front last) : ∀ fragment ∈ front ++ [last],
    fragment.length ≤ maxPayload := by
  intro fragment hfragment
  rcases List.mem_append.mp hfragment with hfront | hlast
  · exact (h.full fragment hfront).le
  · rw [List.mem_singleton.mp hlast]
    exact h.short

theorem CutUp.packable (h : CutUp text front last) : ∀ fragment ∈ front ++ [last],
    Packable fragment := by
  intro fragment hfragment
  exact packable_of_le (h.length_le fragment hfragment)

theorem CutUp.eq_nil (h : CutUp text front last) (hends : ¬ AsksForEnd front last) : front = [] := by
  cases front with
  | nil => rfl
  | cons first front =>
    refine absurd (fun fragment hfragment => ?_) hends
    rw [← Option.some.inj hfragment]
    exact h.full first List.mem_cons_self

theorem rest_answer (hid : IsInt32 conn.nextId) (hend : IsInt32 (conn.nextId + 1))
    (haccepts : Connection.Accepts { conn with nextId := conn.nextId + 1 } 0)
    (hpackables : ∀ fragment ∈ fragments, Packable fragment) (hpackable : Packable endContent)
    (hstream : conn.stream = fragments.flatMap (packetBytes conn.nextId ptype) ++
      (packetBytes (conn.nextId + 1) endType endContent ++ after)) (payload : Text) :
    Meets (do
        let endId ← newId
        send endId exec []
        let conn ← .get
        collect endId (rounds conn) [payload]) conn
      (fun text later => text = payload ++ fragments.flatMap decodeReplace ∧ later.stream = after)
      (fun _ _ => False) := by
  refine meets_bind ((newId_spec conn).mono ?_ fun _ _ hnever => hnever)
  rintro endId ending ⟨rfl, rfl⟩
  have hempty : Fits [] := by decide
  refine meets_bind ((send_accepted hend hempty haccepts).mono ?_ fun _ _ hnever => hnever)
  intro _ asked hasked
  have hstream' : asked.stream = conn.stream := hasked.stream
  rw [← hstream'] at hstream
  have hne : conn.nextId ≠ conn.nextId + 1 := by omega
  have hcollect := collect_fragments hid hend hne hpackables hpackable [payload]
    (Nat.lt_succ_self _) hstream
  refine meets_bind (meets_get (hcollect.mono ?_ fun _ _ hnever => hnever))
  rintro text last ⟨rfl, hafter⟩
  refine ⟨?_, hafter⟩
  rw [List.flatten_singleton]

theorem command_answer (hid : IsInt32 (conn.nextId + 1)) (hend : IsInt32 (conn.nextId + 1 + 1))
    (hcmd : Fits cmd) (haccepts : ∀ others, conn.Accepts others) (hcut : CutUp text front last)
    (hpackable : Packable endContent)
    (hstream : conn.stream = answer (conn.nextId + 1) ptype endType front last endContent ++ after) :
    Meets (command cmd) conn
      (fun text later => text = (front ++ [last]).flatMap decodeReplace ∧ later.stream = after)
      (fun _ _ => False) := by
  obtain ⟨first, fragments, hfragments⟩ : ∃ first fragments, front ++ [last] = first :: fragments :=
    List.exists_cons_of_ne_nil (by simp)
  have hasks : AsksForEnd front last ↔ first.length = maxPayload := by
    rw [AsksForEnd, hfragments]
    simp
  have hpackables := hcut.packable
  rw [answer, hfragments, List.flatMap_cons, List.append_assoc, List.append_assoc] at hstream
  rw [hfragments] at hpackables ⊢
  refine meets_bind ((newId_spec conn).mono ?_ fun _ _ hnever => hnever)
  rintro reqId asked ⟨rfl, rfl⟩
  have hfirst : Connection.Accepts { conn with nextId := conn.nextId + 1 } 0 := haccepts 0
  refine meets_bind ((send_accepted hid hcmd hfirst).mono ?_ fun _ _ hnever => hnever)
  intro _ sent hsent
  have hsentStream : sent.stream = conn.stream := hsent.stream
  have hread := recvPacket_packet hid (hpackables first List.mem_cons_self)
    (hsentStream.trans hstream)
  refine meets_bind (hread.mono ?_ fun _ _ hnever => hnever)
  rintro ⟨⟨id, type, payload⟩, size⟩ later ⟨-, hpayload, hsize, hrest, used, hfollows⟩
  have hpayload : payload = decodeReplace first := hpayload
  have hsize : size = (first.length : ℤ) := hsize
  -- a first fragment that is not full is the whole answer
  refine meets_ite (fun hsmall => meets_pure ?_) fun hfull => ?_
  · have hshort : ¬ AsksForEnd front last := by
      rw [hasks]
      omega
    have hnil : fragments = [] := by
      rw [hcut.eq_nil hshort] at hfragments
      exact (List.cons.inj hfragments).2.symm
    rw [if_neg hshort, hnil] at hrest
    refine ⟨?_, hrest⟩
    rw [hnil, hpayload]
    exact (List.append_nil _).symm
  · have hlong : AsksForEnd front last := by
      have hmost : first.length ≤ maxPayload := by
        refine hcut.length_le first ?_
        rw [hfragments]
        exact List.mem_cons_self
      rw [hasks]
      omega
    rw [if_pos hlong] at hrest
    have hnextId : later.nextId = conn.nextId + 1 := hfollows.nextId.trans hsent.nextId
    have haccepted : Connection.Accepts { later with nextId := later.nextId + 1 } 0 := by
      have haccepts := haccepts 1
      change later.sock.cut (later.sock.handed.length + 0) = none
      rw [hfollows.cut, hfollows.handed, hsent.cut, hsent.handed]
      exact haccepts
    -- the second number follows the first, so that the empty answer to it is the end
    rw [← hnextId] at hid hend hrest
    have hlater := rest_answer hid hend haccepted
      (fun fragment hfragment => hpackables fragment (List.mem_cons_of_mem _ hfragment)) hpackable
      hrest payload
    refine hlater.mono ?_ fun _ _ hnever => hnever
    rintro text last ⟨rfl, hafter⟩
    refine ⟨?_, hafter⟩
    rw [hpayload]
    rfl

/-- The command returns the text and leaves nothing of its answer exactly when no fragment begins
inside a character; packets are decoded as they were encoded in any case. -/
theorem command_returns_iff (hid : IsInt32 (conn.nextId + 1))
    (hend : IsInt32 (conn.nextId + 1 + 1)) (hcmd : Fits cmd)
    (haccepts : ∀ others, conn.Accepts others) (hcut : CutUp text front last)
    (hpackable : Packable endContent)
    (hstream : conn.stream = answer (conn.nextId + 1) ptype endType front last endContent ++ after) :
    ((∃ later, command cmd conn = (.ok text, later) ∧ later.stream = after) ∧
      ∀ reqId ptype payload packet, encodePacket reqId ptype payload = some packet →
        decodePacket (packet.drop 4) = some (reqId, ptype, payload)) ↔
      ∀ fragment ∈ front ++ [last], BeginsWhole fragment := by
  obtain ⟨text', later, hcommand, rfl, hafter⟩ :=
    (command_answer hid hend hcmd haccepts hcut hpackable hstream).exists_ok
  rw [and_iff_left fun _ _ _ _ => decodePacket_encodePacket,
    ← PlainText.flatMap_decodeReplace_iff hcut.bytes, hcommand]
  constructor
  · rintro ⟨later, hsame, -⟩
    exact Except.ok.inj (congrArg Prod.fst hsame)
  · rintro rfl
    exact ⟨later, rfl, hafter⟩

theorem answer_ne_nil (reqId ptype endType : ℤ) (front : List Bytes) (last endContent : Bytes) :
    answer reqId ptype endType front last endContent ≠ [] := by
  intro hnil
  obtain ⟨first, fragments, hfragments⟩ : ∃ first fragments, front ++ [last] = first :: fragments :=
    List.exists_cons_of_ne_nil (by simp)
  rw [answer, hfragments, List.flatMap_cons, packetBytes] at hnil
  simp [intBytes, littleEndian] at hnil

end

/-- A connection on which an answer to the first command comes in one piece. -/
def answered (front : List Bytes) (last : Bytes) : Connection :=
  .fresh { arriving := [⟨answer 1 0 0 front last [], answer_ne_nil 1 0 0 front last []⟩] }

theorem stream_answered (front : List Bytes) (last : Bytes) :
    (answered front last).stream = answer 1 0 0 front last [] ++ [] := rfl

theorem packable_nil : Packable [] := packable_of_le (Nat.zero_le _)

theorem encode_letters (n : ℕ) :
    encode (List.replicate n 'a' ++ ['é']) = List.replicate n 0x61 ++ [0xC3, 0xA9] := by
  induction n with
  | zero => decide
  | succ n ih =>
    rw [List.replicate_succ, List.replicate_succ]
    exact congrArg (0x61 :: ·) ih

/-- So many letters that the accent after them begins the second fragment. -/
def wholeText : Text := List.replicate 4096 'a' ++ ['é']

def wholeFront : List Bytes := [List.replicate 4096 0x61]

theorem cutUp_wholeText : CutUp wholeText wholeFront [0xC3, 0xA9] := by
  constructor
  · rw [wholeText, encode_letters]
    rfl
  · intro fragment hfragment
    rw [List.mem_singleton.mp hfragment, List.length_replicate]
    rfl
  · decide

/-- An answer of two fragments is returned as it was sent. -/
theorem accent_returned :
    (∃ later, command "seed".toList (answered wholeFront [0xC3, 0xA9]) = (.ok wholeText, later) ∧
      later.stream = []) ∧
    ∀ reqId ptype payload packet, encodePacket reqId ptype payload = some packet →
      decodePacket (packet.drop 4) = some (reqId, ptype, payload) := by
  have hid : IsInt32 ((answered wholeFront [0xC3, 0xA9]).nextId + 1) := by decide
  have hend : IsInt32 ((answered wholeFront [0xC3, 0xA9]).nextId + 1 + 1) := by decide
  refine (command_returns_iff hid hend (by decide) (fun _ => rfl) cutUp_wholeText packable_nil
    (stream_answered _ _)).mpr ?_
  intro fragment hfragment
  obtain rfl | rfl := List.mem_pair.mp hfragment
  · intro b hb
    rw [List.head?_replicate, if_neg (by decide)] at hb
    rw [← Option.some.inj hb]
    decide
  · intro b hb
    rw [← Option.some.inj hb]
    decide

def longText : Text := List.replicate 4095 'a' ++ ['é']

def longFront : List Bytes := [List.replicate 4095 0x61 ++ [0xC3]]

theorem cutUp_longText : CutUp longText longFront [0xA9] := by
  constructor
  · rw [longText, encode_letters]
    exact (List.append_assoc (List.replicate 4095 0x61) [0xC3] [0xA9])
  · intro fragment hfragment
    rw [List.mem_singleton.mp hfragment, List.length_append, List.length_replicate]
    rfl
  · decide

/-- An answer whose only accent is cut at byte 4096 comes back as another text. -/
theorem cut_accent_not_returned : CutUp longText longFront [0xA9] ∧
    (answered longFront [0xA9]).stream = answer 1 0 0 longFront [0xA9] [] ∧
    ¬ ∃ later, command "seed".toList (answered longFront [0xA9]) = (.ok longText, later) := by
  refine ⟨cutUp_longText, (stream_answered _ _).trans (List.append_nil _), ?_⟩
  have hid : IsInt32 ((answered longFront [0xA9]).nextId + 1) := by decide
  have hend : IsInt32 ((answered longFront [0xA9]).nextId + 1 + 1) := by decide
  have hcmd : Fits "seed".toList := by decide
  obtain ⟨text, later, hcommand, htext, -⟩ :=
    (command_answer hid hend hcmd (fun _ => rfl) cutUp_longText packable_nil
      (stream_answered _ _)).exists_ok
  rintro ⟨later', hsame⟩
  rw [hcommand] at hsame
  have htext' : text = longText := Except.ok.inj (congrArg Prod.fst hsame)
  rw [htext'] at htext
  have hwhole := (PlainText.flatMap_decodeReplace_iff cutUp_longText.bytes).mp htext.symm
  have hlast := hwhole [0xA9] (by simp) 0xA9 rfl
  revert hlast
  decide

end Rcon
