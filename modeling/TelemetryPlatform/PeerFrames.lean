import TelemetryPlatform.WsReceive

/-!
# How a client reads the frames of the server

A client reads unmasked frames from what the connection carries behind the
answer to its handshake: two header bytes, an extended length where the header
announces one, and the payload. Read so, a sequence of messages gives their
contents, and a part of one more message gives nothing yet.
-/

namespace TelemetryPlatform.PeerFrames

open CStrings WsFrames WsReceive

/-- The frame at the front of a stream, and what is behind it. -/
def peerFrame : Bytes → Option ((UInt8 × Bytes) × Bytes)
  | h0 :: h1 :: rest =>
    let size := extendedBytes (shortLength h1)
    let len := declaredLength (shortLength h1) (rest.take size)
    if size + len ≤ rest.length then
      some ((h0 &&& 0x0F, (rest.drop size).take len), (rest.drop size).drop len)
    else none
  | _ => none

/-- The frames of a stream, at most a number of them. -/
def peerFramesLoop : ℕ → Bytes → List (UInt8 × Bytes)
  | 0, _ => []
  | fuel + 1, stream =>
    match peerFrame stream with
    | none => []
    | some (frame, rest) => frame :: peerFramesLoop fuel rest

/-- All frames of a stream. -/
def peerFrames (stream : Bytes) : List (UInt8 × Bytes) := peerFramesLoop stream.length stream

/-- The opcode and the payload of a message that is a frame. -/
def frameOf : WsUnit → UInt8 × Bytes
  | .response _ => (0, [])
  | .text msg => (1, msg)
  | .control opcode payload => (opcode &&& 0x0F, payload.take 125)

/-- The payload of a message has a length of 64 bits. -/
def Sized (u : WsUnit) : Prop := (frameOf u).2.length < 2 ^ 64

instance (u : WsUnit) : Decidable (Sized u) := Nat.decLt _ _

/-- A buffer of no bytes is not sent. -/
theorem flatten_buffers (header payload : Bytes) :
    (header :: if 0 < payload.length then [payload] else []).flatten = header ++ payload := by
  rw [List.flatten_cons]
  cases payload with
  | nil => rfl
  | cons b rest => simp

/-- The bytes of a frame: header, extended length and payload. -/
theorem encode_eq {u : WsUnit} (hu : u.IsFrame) (hsize : Sized u) :
    ∃ h0 h1 ext, u.encode = h0 :: h1 :: (ext ++ (frameOf u).2) ∧ h0 &&& 0x0F = (frameOf u).1 ∧
      ext.length = extendedBytes (shortLength h1) ∧
      declaredLength (shortLength h1) ext = (frameOf u).2.length := by
  cases u with
  | response accept => exact hu.elim
  | text msg =>
    obtain ⟨h1, ext, hbytes, -, hext, hlen⟩ := lengthBytes_announce false hsize
    refine ⟨0x81, h1, ext, ?_, rfl, hext, hlen⟩
    change (wsSendText msg).flatten = _
    rw [wsSendText, flatten_buffers, textHeader_eq]
    change (0x81 :: lengthBytes false (frameOf (.text msg)).2.length) ++ msg = _
    rw [hbytes]
    rfl
  | control opcode payload =>
    have hle : (payload.take 125).length < 126 := by
      rw [List.length_take]
      omega
    have hand : (payload.take 125).length &&& 0x7F = (payload.take 125).length := by
      rw [Nat.and_two_pow_sub_one_eq_mod _ 7]
      exact Nat.mod_eq_of_lt (by omega)
    have hbits : shortLength (UInt8.ofNat (payload.take 125).length) = (payload.take 125).length := by
      simpa using (header_bits false (show (payload.take 125).length < 128 by omega)).1
    have hlow : opcode &&& 0x0F < 16 := by
      have hand' : (opcode &&& 0x0F).toNat ≤ 15 := by
        rw [UInt8.toNat_and]
        exact Nat.and_le_right
      exact UInt8.lt_iff_toNat_lt.mpr (by
        have hnat : (16 : UInt8).toNat = 16 := rfl
        omega)
    refine ⟨0x80 ||| (opcode &&& 0x0F), UInt8.ofNat (payload.take 125).length, [], ?_, ?_, ?_, ?_⟩
    · change (wsSendControl opcode payload).flatten = _
      rw [wsSendControl, flatten_buffers, hand]
      rfl
    · rw [fin_or hlow]
      exact opcode_of_header hlow
    · rw [hbits, extendedBytes, if_neg (by omega), if_neg (by omega)]
      rfl
    · rw [hbits, declaredLength, if_neg (by omega), if_neg (by omega)]
      rfl

/-- A message is read as its content. -/
theorem peerFrame_encode {u : WsUnit} (hu : u.IsFrame) (hsize : Sized u) (tail : Bytes) :
    peerFrame (u.encode ++ tail) = some (frameOf u, tail) := by
  obtain ⟨h0, h1, ext, hbytes, hopcode, hext, hlen⟩ := encode_eq hu hsize
  have htake : (ext ++ (frameOf u).2 ++ tail).take (extendedBytes (shortLength h1)) = ext := by
    rw [List.append_assoc, ← hext, List.take_left]
  have hdrop : (ext ++ (frameOf u).2 ++ tail).drop (extendedBytes (shortLength h1)) =
      (frameOf u).2 ++ tail := by
    rw [List.append_assoc, ← hext, List.drop_left]
  rw [hbytes, List.cons_append, List.cons_append, peerFrame]
  simp only [htake, hdrop, hlen, hopcode, List.take_left, List.drop_left]
  rw [if_pos]
  rw [List.length_append, List.length_append, hext]
  omega

/-- A part of a message is no frame yet. -/
theorem peerFrame_part {u : WsUnit} (hu : u.IsFrame) (hsize : Sized u) {part : Bytes}
    (hpart : part <+: u.encode) (hproper : part ≠ u.encode) : peerFrame part = none := by
  obtain ⟨h0, h1, ext, hbytes, -, hext, hlen⟩ := encode_eq hu hsize
  have hshort : part.length < u.encode.length :=
    Nat.lt_of_le_of_ne hpart.length_le fun heq => hproper (hpart.eq_of_length heq)
  rw [hbytes] at hpart hshort
  match part with
  | [] => rfl
  | [b] => rfl
  | b0 :: b1 :: rest =>
    obtain ⟨-, hpart⟩ := List.cons_prefix_cons.mp hpart
    obtain ⟨rfl, hrest⟩ := List.cons_prefix_cons.mp hpart
    simp only [List.length_cons, List.length_append] at hshort
    rw [peerFrame]
    refine if_neg fun henough => ?_
    -- a part that holds the extended length announces the same payload
    have hext' : rest.take (extendedBytes (shortLength b1)) = ext := by
      have hfront := hrest.take (extendedBytes (shortLength b1))
      rw [← hext, List.take_left, hext] at hfront
      refine hfront.eq_of_length ?_
      rw [List.length_take, hext]
      omega
    rw [hext', hlen] at henough
    omega

/-- A frame is not empty. -/
theorem length_encode_pos (u : WsUnit) : 0 < u.encode.length := by
  obtain ⟨hbuffers, hparts⟩ := u.buffers_ne_nil
  obtain ⟨b, hb⟩ := List.exists_mem_of_ne_nil _ hbuffers
  refine List.length_pos_iff.mpr fun hnil => ?_
  exact hparts b hb (List.flatten_eq_nil_iff.mp hnil b hb)

/-- Messages and a part of one more are read as the contents of the messages. -/
theorem peerFrames_append {units : List WsUnit} (hunits : ∀ u ∈ units, u.IsFrame ∧ Sized u)
    {part : Bytes} (hpart : peerFrame part = none) :
    peerFrames (units.flatMap WsUnit.encode ++ part) = units.map frameOf := by
  have hloop : ∀ fuel, (units.flatMap WsUnit.encode).length ≤ fuel →
      peerFramesLoop fuel (units.flatMap WsUnit.encode ++ part) = units.map frameOf := by
    induction units with
    | nil =>
      intro fuel _
      cases fuel with
      | zero => rfl
      | succ fuel =>
        rw [List.flatMap_nil, List.nil_append, peerFramesLoop, hpart]
        rfl
    | cons u units ih =>
      intro fuel hfuel
      obtain ⟨⟨hu, hsize⟩, hrest⟩ := List.forall_mem_cons.mp hunits
      have hpos := length_encode_pos u
      rw [List.flatMap_cons, List.length_append] at hfuel
      obtain ⟨fuel, rfl⟩ : ∃ n, fuel = n + 1 := ⟨fuel - 1, by omega⟩
      rw [List.flatMap_cons, List.append_assoc, peerFramesLoop, peerFrame_encode hu hsize,
        List.map_cons]
      dsimp only
      rw [ih hrest fuel (by omega)]
  refine hloop _ ?_
  rw [List.length_append]
  omega

end TelemetryPlatform.PeerFrames
