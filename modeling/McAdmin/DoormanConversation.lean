import McAdmin.DoormanServer

/-!
# What the doorman's clients can make it do

Whatever a client sends, the conversation ends in one clean close, and what the client was sent is
nothing, a refusal, or a status and at most its own ping.
-/

namespace DoormanServer

open Procedures Sockets

/-! ### Any client -/

inductive Allowed (motd kick : Text) (stream : Bytes) : List Bytes → Prop
  | nothing : Allowed motd kick stream []
  | refused : Allowed motd kick stream [prefixed (refusal kick)]
  | shown (clientProtocol : ℕ) :
      Allowed motd kick stream [prefixed (statusPayload motd clientProtocol)]
  /-- The third packet of the client comes back. -/
  | ponged (clientProtocol : ℕ) {first request ping stream₁ stream₂ stream₃ : Bytes}
      (hfirst : nextPacket stream = some (first, stream₁))
      (hrequest : nextPacket stream₁ = some (request, stream₂))
      (hping : nextPacket stream₂ = some (ping, stream₃))
      (hshape : ping.take 1 = [1] ∧ ping.length = 9) :
      Allowed motd kick stream [prefixed (statusPayload motd clientProtocol), prefixed ping]

structure Gave (handed : List Bytes) (s : Socket) : Prop where
  given : s.handed = handed
  wire : s.wire <+: handed.flatten
  closes : s.closes = 0
  asked : ∀ n ∈ s.asked, n ≤ maxPacketBytes

structure Sent (handed : List Bytes) (s : Socket) : Prop extends Gave handed s where
  whole : s.wire = handed.flatten

section

variable {s t : Socket} {handed : List Bytes} {motd kick : Text} {stream : Bytes}

theorem Sent.read (h : Sent handed s) (hread : Read s t) : Sent handed t := by
  obtain ⟨used, hreads⟩ := hread
  refine ⟨⟨hreads.handed.trans h.given, ?_, hreads.closes.trans h.closes, ?_⟩,
    hreads.wire.trans h.whole⟩
  · rw [hreads.wire]
    exact h.wire
  · obtain ⟨more, hasked, hmore⟩ := hreads.asked
    intro n hn
    rw [hasked] at hn
    exact (List.mem_append.mp hn).elim (h.asked n) (hmore n)

theorem sendPacket_spec (h : Sent handed s) (payload : Bytes) :
    Meets (sendPacket payload) s
      (fun _ t => Sent (handed ++ [prefixed payload]) t ∧ t.stream = s.stream)
      (fun e t => e.IsIgnored ∧ Gave (handed ++ [prefixed payload]) t) := by
  have hhanded : s.handed ++ [prefixed payload] = handed ++ [prefixed payload] := by rw [h.given]
  have hflatten : (handed ++ [prefixed payload]).flatten = handed.flatten ++ prefixed payload := by
    rw [List.flatten_append, List.flatten_singleton]
  have hwire : s.wire = handed.flatten := h.whole
  constructor
  rw [sendPacket, sendAll]
  cases s.cut s.handed.length with
  | none =>
    have hwhole : s.wire ++ prefixed payload = (handed ++ [prefixed payload]).flatten := by
      rw [hflatten, hwire]
    exact ⟨⟨⟨hhanded, hwhole ▸ List.prefix_rfl, h.closes, h.asked⟩, hwhole⟩, rfl⟩
  | some sent =>
    refine ⟨.inr rfl, hhanded, ?_, h.closes, h.asked⟩
    change s.wire ++ (prefixed payload).take sent <+: _
    rw [hflatten, hwire]
    exact (List.prefix_append_right_inj _).mpr (List.take_prefix _ _)

def Ended (motd kick : Text) (stream : Bytes) (s : Socket) : Prop :=
  ∃ handed, Allowed motd kick stream handed ∧ Gave handed s

theorem status_spec (motd kick : Text) (clientProtocol : ℕ) {first : Bytes}
    (hfirst : nextPacket stream = some (first, s.stream)) (h : Sent [] s) :
    Meets (status motd clientProtocol) s (fun _ t => Ended motd kick stream t)
      (fun e t => e.IsIgnored ∧ Ended motd kick stream t) := by
  have hquiet : ∀ {t}, Sent [] t → Ended motd kick stream t := fun ht => ⟨[], .nothing, ht.toGave⟩
  refine meets_bind ((readPacket_spec s).mono ?_ ?_)
  · rintro request t ⟨hrequest, hread⟩
    refine meets_bind (meets_inPacket ((PacketReader.varint_spec _).mono ?_ ?_))
    · intro id _ _
      refine meets_ite (fun _ => meets_pure (hquiet (h.read hread))) fun _ => ?_
      refine meets_bind ((sendPacket_spec (h.read hread) _).mono ?_ ?_)
      · rintro _ u ⟨hsent, hstream⟩
        have hshown : Ended motd kick stream u := ⟨_, .shown clientProtocol, hsent.toGave⟩
        refine meets_bind ((readPacket_spec u).mono ?_ ?_)
        · rintro ping v ⟨hping, hread'⟩
          rw [hstream] at hping
          refine meets_ite (fun hshape => ?_) fun _ =>
            meets_pure ⟨_, .shown clientProtocol, (hsent.read hread').toGave⟩
          have hallowed : Allowed motd kick stream
              [prefixed (statusPayload motd clientProtocol), prefixed ping] :=
            .ponged clientProtocol hfirst hrequest hping hshape
          refine (sendPacket_spec (hsent.read hread') ping).mono ?_ ?_
          · rintro _ w ⟨hsent', -⟩
            exact ⟨_, hallowed, hsent'.toGave⟩
          · rintro e w ⟨he, hgave⟩
            exact ⟨he, _, hallowed, hgave⟩
        · rintro e v ⟨-, he, hread'⟩
          exact ⟨he, _, .shown clientProtocol, (hsent.read hread').toGave⟩
      · rintro e u ⟨he, hgave⟩
        exact ⟨he, _, .shown clientProtocol, hgave⟩
    · rintro e _ ⟨-, rfl⟩
      exact ⟨.inl rfl, hquiet (h.read hread)⟩
  · rintro e t ⟨-, he, hread⟩
    exact ⟨he, hquiet (h.read hread)⟩

theorem conversation_spec (motd kick : Text) (h : Sent [] s) :
    Meets (conversation motd kick) s (fun _ t => Ended motd kick s.stream t)
      (fun e t => e.IsIgnored ∧ Ended motd kick s.stream t) := by
  have hquiet : ∀ {t}, Sent [] t → Ended motd kick s.stream t :=
    fun ht => ⟨[], .nothing, ht.toGave⟩
  refine meets_bind ((readPacket_spec s).mono ?_ ?_)
  · rintro first t ⟨hfirst, hread⟩
    have hsent := h.read hread
    refine meets_bind (meets_inPacket ((PacketReader.handshake_raises _).mono ?_ ?_))
    · rintro (_ | ⟨clientProtocol, nextState⟩) _ -
      · exact meets_pure (hquiet hsent)
      · refine meets_ite (fun _ => status_spec motd kick clientProtocol hfirst hsent) fun _ => ?_
        refine meets_ite (fun _ => ?_) fun _ => meets_pure (hquiet hsent)
        refine (sendPacket_spec hsent _).mono ?_ ?_
        · rintro _ u ⟨hrefused, -⟩
          exact ⟨_, .refused, hrefused.toGave⟩
        · rintro e u ⟨he, hgave⟩
          exact ⟨he, _, .refused, hgave⟩
    · rintro e _ rfl
      exact ⟨.inl rfl, hquiet hsent⟩
  · rintro e t ⟨-, he, hread⟩
    exact ⟨he, hquiet (h.read hread)⟩

theorem hangUp_spec (s : Socket) :
    Meets hangUp s (fun _ t => t = { s with closes := s.closes + 1 }) (fun _ _ => False) := by
  refine meets_bind (meets_handle ?_)
  constructor
  rw [shutdown]
  split_ifs
  · exact meets_update rfl
  · exact meets_ite (fun _ => meets_pure (meets_update rfl)) fun hne => absurd rfl hne

/-- What is left after a client: the socket is closed once. -/
structure Done (motd kick : Text) (stream : Bytes) (s : Socket) : Prop where
  allowed : Allowed motd kick stream s.handed
  wire : s.wire <+: s.handed.flatten
  closes : s.closes = 1
  asked : ∀ n ∈ s.asked, n ≤ maxPacketBytes

/-- Whatever arrives, in any chunks and up to any end, and whichever sendings fail: the
conversation returns, asks for no more than a packet may have, closes the socket once, and what it
sends is allowed. -/
theorem handleClient_spec (motd kick : Text) (arriving : List Chunk) (ending : Ending)
    (cut : ℕ → Option ℕ) (shuts : Bool) :
    ∃ t, handleClient motd kick { arriving, ending, cut, shuts } = (.ok (), t) ∧
      Done motd kick (arriving.flatMap Subtype.val) t := by
  have hstart : Sent [] ({ arriving, ending, cut, shuts } : Socket) :=
    ⟨⟨rfl, List.prefix_rfl, rfl, fun n hn => absurd hn List.not_mem_nil⟩, rfl⟩
  have hclosed : ∀ t, Ended motd kick (arriving.flatMap Subtype.val) t →
      Meets hangUp t (fun _ u => Done motd kick (arriving.flatMap Subtype.val) u)
        (fun _ _ => False) := by
    rintro t ⟨handed, hallowed, hgave⟩
    refine (hangUp_spec t).mono ?_ fun _ _ hnever => hnever
    rintro _ u rfl
    exact ⟨hgave.given ▸ hallowed, hgave.given ▸ hgave.wire, by rw [hgave.closes], hgave.asked⟩
  have hdone : Meets (handleClient motd kick) { arriving, ending, cut, shuts }
      (fun _ t => Done motd kick (arriving.flatMap Subtype.val) t) (fun _ _ => False) := by
    refine meets_ensure (meets_handle ((conversation_spec motd kick hstart).mono ?_ ?_))
    · exact fun _ t hended => hclosed t hended
    · rintro e t ⟨he, hended⟩
      exact meets_ite (fun _ => meets_pure (hclosed t hended)) fun hother => absurd he hother
  obtain ⟨_, t, hend, hdone⟩ := hdone.exists_ok
  exact ⟨t, hend, hdone⟩

end

end DoormanServer
