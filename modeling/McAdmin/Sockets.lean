import Mathlib.Data.List.Basic
import McAdmin.Procedures

/-!
# Streams of bytes over a socket

What the other side sends arrives in pieces of any lengths, and then the stream is closed or fails
(a reset or a timeout).  What is sent may break off at any byte.  The socket keeps what was asked
of it, what was given to it and how often it was closed.
-/

namespace Sockets

open Procedures

abbrev Bytes := List UInt8

/-- What arrives at once; there is something in it. -/
abbrev Chunk := { bytes : Bytes // bytes ≠ [] }

/-- How a stream ends. -/
inductive Ending where
  | closed
  | failed
deriving DecidableEq

structure Socket where
  arriving : List Chunk := []
  ending : Ending := .closed
  /-- After how many bytes a sending fails, where it does. -/
  cut : ℕ → Option ℕ := fun _ => none
  shuts : Bool := true
  asked : List ℕ := []
  handed : List Bytes := []
  wire : Bytes := []
  closes : ℕ := 0

/-- All that is still to come. -/
def Socket.stream (s : Socket) : Bytes := s.arriving.flatMap Subtype.val

variable {ε : Type}

/-- `sock.recv(most)`, with an error `os` for a stream that fails. -/
def recv (os : ε) (most : ℕ) : Proc Socket ε Bytes := fun s =>
  let s := { s with asked := s.asked ++ [most] }
  match s.arriving with
  | [] =>
    match s.ending with
    | .closed => (.ok [], s)
    | .failed => (.error os, s)
  | chunk :: rest =>
    if h : chunk.val.length ≤ most then (.ok chunk.val, { s with arriving := rest })
    else (.ok (chunk.val.take most),
      { s with arriving := ⟨chunk.val.drop most, fun hnil => h (List.drop_eq_nil_iff.mp hnil)⟩ ::
        rest })

/-- `sock.sendall(payload)` -/
def sendAll (os : ε) (payload : Bytes) : Proc Socket ε Unit := fun s =>
  let handed := s.handed ++ [payload]
  match s.cut s.handed.length with
  | none => (.ok (), { s with handed, wire := s.wire ++ payload })
  | some sent => (.error os, { s with handed, wire := s.wire ++ payload.take sent })

def shutdown (os : ε) : Proc Socket ε Unit := fun s =>
  if s.shuts then (.ok (), s) else (.error os, s)

def close : Proc Socket ε Unit := .update fun s => { s with closes := s.closes + 1 }

/-- Receive until there are `count` bytes; each round brings at least one. -/
def readLoop (os closed : ε) (count : ℕ) : ℕ → Bytes → Proc Socket ε Bytes
  | 0, data => pure data
  | rounds + 1, data =>
    if data.length < count then do
      let chunk ← recv os (count - data.length)
      if chunk = [] then .raise closed else readLoop os closed count rounds (data ++ chunk)
    else pure data

def readExact (os closed : ε) (count : ℕ) : Proc Socket ε Bytes :=
  readLoop os closed count count []

/-! ### What reading does -/

/-- `t` is `s` after `used` bytes have been read, by asking for `most` at a time at most. -/
structure Reads (used : Bytes) (most : ℕ) (s t : Socket) : Prop where
  stream : s.stream = used ++ t.stream
  asked : ∃ more, t.asked = s.asked ++ more ∧ ∀ n ∈ more, n ≤ most
  ending : t.ending = s.ending
  cut : t.cut = s.cut
  shuts : t.shuts = s.shuts
  handed : t.handed = s.handed
  wire : t.wire = s.wire
  closes : t.closes = s.closes

/-- The error of a stream that has come to its end. -/
def Socket.fault (s : Socket) (os closed : ε) : ε :=
  match s.ending with
  | .closed => closed
  | .failed => os

section

variable {s t u : Socket} {used used' : Bytes} {most : ℕ}

theorem Reads.refl (s : Socket) : Reads [] most s s where
  stream := rfl
  asked := ⟨[], (List.append_nil _).symm, fun _ hn => absurd hn List.not_mem_nil⟩
  ending := rfl
  cut := rfl
  shuts := rfl
  handed := rfl
  wire := rfl
  closes := rfl

theorem Reads.trans (h : Reads used most s t) (h' : Reads used' most t u) :
    Reads (used ++ used') most s u where
  stream := by rw [h.stream, h'.stream, List.append_assoc]
  asked := by
    obtain ⟨more, ht, hmore⟩ := h.asked
    obtain ⟨more', hu, hmore'⟩ := h'.asked
    refine ⟨more ++ more', by rw [hu, ht, List.append_assoc], fun n hn => ?_⟩
    exact (List.mem_append.mp hn).elim (hmore n) (hmore' n)
  ending := h'.ending.trans h.ending
  cut := h'.cut.trans h.cut
  shuts := h'.shuts.trans h.shuts
  handed := h'.handed.trans h.handed
  wire := h'.wire.trans h.wire
  closes := h'.closes.trans h.closes

theorem Reads.mono {most' : ℕ} (h : Reads used most s t) (hle : most ≤ most') :
    Reads used most' s t where
  stream := h.stream
  asked := by
    obtain ⟨more, ht, hmore⟩ := h.asked
    exact ⟨more, ht, fun n hn => Nat.le_trans (hmore n hn) hle⟩
  ending := h.ending
  cut := h.cut
  shuts := h.shuts
  handed := h.handed
  wire := h.wire
  closes := h.closes

/-- One `recv` brings the next bytes, and none only when the stream is closed. -/
theorem recv_spec (os : ε) (hmost : 0 < most) (s : Socket) :
    Meets (recv os most) s
      (fun chunk t => Reads chunk most s t ∧ chunk.length ≤ most ∧
        (chunk = [] → s.stream = [] ∧ s.ending = .closed))
      (fun e t => e = os ∧ s.stream = [] ∧ s.ending = .failed ∧ Reads [] most s t) := by
  obtain ⟨arriving, ending, cut, shuts, asked, handed, wire, closes⟩ := s
  have hask : ∃ more, asked ++ [most] = asked ++ more ∧ ∀ n ∈ more, n ≤ most :=
    ⟨[most], rfl, fun n hn => Nat.le_of_eq (List.mem_singleton.mp hn)⟩
  constructor
  unfold recv
  cases arriving with
  | nil =>
    cases ending with
    | closed => exact ⟨⟨rfl, hask, rfl, rfl, rfl, rfl, rfl, rfl⟩, Nat.zero_le _, fun _ => ⟨rfl, rfl⟩⟩
    | failed => exact ⟨rfl, rfl, rfl, rfl, hask, rfl, rfl, rfl, rfl, rfl, rfl⟩
  | cons chunk rest =>
    by_cases hlength : chunk.val.length ≤ most
    · simp only [dif_pos hlength]
      exact ⟨⟨rfl, hask, rfl, rfl, rfl, rfl, rfl, rfl⟩, hlength,
        fun hnil => absurd hnil chunk.property⟩
    · simp only [dif_neg hlength]
      refine ⟨⟨?_, hask, rfl, rfl, rfl, rfl, rfl, rfl⟩, ?_, fun hnil => ?_⟩
      · rw [Socket.stream, Socket.stream, List.flatMap_cons, List.flatMap_cons,
          ← List.append_assoc, List.take_append_drop]
      · rw [List.length_take]
        exact Nat.min_le_left _ _
      · rcases List.take_eq_nil_iff.mp hnil with hzero | hnil
        · exact absurd hzero (Nat.pos_iff_ne_zero.mp hmost)
        · exact absurd hnil chunk.property

/-- The rounds bring all that is missing, or the stream is too short for it. -/
theorem readLoop_spec (os closed : ε) {count rounds : ℕ} {data : Bytes} (hdata : data.length ≤ count)
    (hrounds : count ≤ data.length + rounds) (s : Socket) :
    Meets (readLoop os closed count rounds data) s
      (fun bytes t => ∃ more, bytes = data ++ more ∧ bytes.length = count ∧ Reads more count s t)
      (fun e t => e = s.fault os closed ∧ data.length + s.stream.length < count ∧
        Reads s.stream count s t) := by
  induction rounds generalizing data s with
  | zero => exact meets_pure ⟨[], (List.append_nil _).symm, by omega, Reads.refl s⟩
  | succ rounds ih =>
    rw [readLoop]
    refine meets_ite (fun hmissing => ?_) fun hall => ?_
    · refine meets_bind ((recv_spec os (by omega) s).mono ?_ ?_)
      · rintro chunk t ⟨hreads, hlength, hclosed⟩
        refine meets_ite (fun hnil => ?_) fun hsome => ?_
        -- an empty chunk is the end of the stream
        · subst hnil
          obtain ⟨hstream, hending⟩ := hclosed rfl
          refine meets_raise ⟨?_, ?_, ?_⟩
          · rw [Socket.fault, hending]
          · rw [hstream]
            exact hmissing
          · rw [hstream]
            exact hreads.mono (Nat.sub_le _ _)
        -- each round brings a byte at least, so that the rounds suffice
        · have hpos := List.length_pos_iff.mpr hsome
          have hsum : (data ++ chunk).length = data.length + chunk.length := List.length_append
          refine (ih (by omega) (by omega) t).mono ?_ ?_
          · rintro bytes u ⟨more, hbytes, hcount, hmore⟩
            refine ⟨chunk ++ more, ?_, hcount, (hreads.mono (Nat.sub_le _ _)).trans hmore⟩
            rw [hbytes, List.append_assoc]
          · rintro e u ⟨he, hshort, hmore⟩
            have hstream := hreads.stream
            refine ⟨?_, ?_, ?_⟩
            · rw [he, Socket.fault, Socket.fault, hreads.ending]
            · rw [hstream, List.length_append]
              omega
            · rw [hstream]
              exact (hreads.mono (Nat.sub_le _ _)).trans hmore
      · rintro e t ⟨he, hstream, hending, hreads⟩
        refine ⟨?_, ?_, ?_⟩
        · rw [he, Socket.fault, hending]
        · rw [hstream]
          exact hmissing
        · rw [hstream]
          exact hreads.mono (Nat.sub_le _ _)
    · exact meets_pure ⟨[], (List.append_nil _).symm, by omega, Reads.refl s⟩

/-- Exactly so many bytes are read, unless the stream is too short. -/
theorem readExact_spec (os closed : ε) (count : ℕ) (s : Socket) :
    Meets (readExact os closed count) s
      (fun bytes t => bytes.length = count ∧ Reads bytes count s t)
      (fun e t => e = s.fault os closed ∧ s.stream.length < count ∧ Reads s.stream count s t) := by
  refine (readLoop_spec os closed (Nat.zero_le _) (Nat.le_add_left _ _) s).mono ?_ ?_
  · rintro bytes t ⟨more, rfl, hcount, hreads⟩
    exact ⟨hcount, hreads⟩
  · rintro e t ⟨he, hshort, hreads⟩
    exact ⟨he, by simpa using hshort, hreads⟩

end

end Sockets
