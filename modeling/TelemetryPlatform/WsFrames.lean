import Mathlib.Data.List.Infix
import TelemetryPlatform.FormattedText

/-!
# Messages of the WebSocket server

What the server writes to a connection in one call: the answer to the
handshake, a text frame or a control frame. A frame goes out as its header and
then its payload, each by a loop of sends. History requests are recognised by
substring searches.
-/

namespace TelemetryPlatform.WsFrames

open CStrings FormattedText

/-- The header of a text frame for a payload of the given length. -/
def textHeader (len : ℕ) : Bytes :=
  if len ≤ 125 then [0x81, UInt8.ofNat len]
  else if len ≤ 65535 then [0x81, 126, UInt8.ofNat (len >>> 8 &&& 0xFF), UInt8.ofNat (len &&& 0xFF)]
  else 0x81 :: 127 :: (List.range 8).map fun i => UInt8.ofNat (len >>> (56 - 8 * i) &&& 0xFF)

/-- The buffers that ws_send_text sends, one after the other. -/
def wsSendText (msg : Bytes) : List Bytes :=
  textHeader msg.length :: if 0 < msg.length then [msg] else []

/-- The buffers that ws_send_control sends; the payload is cut to 125 bytes. -/
def wsSendControl (opcode : UInt8) (payload : Bytes) : List Bytes :=
  let payload := payload.take 125
  [0x80 ||| (opcode &&& 0x0F), UInt8.ofNat (payload.length &&& 0x7F)] ::
    if 0 < payload.length then [payload] else []

/-- The answer to a handshake with the given accept key. -/
def handshakeResponse (accept : CString) : CString :=
  format [.text ⟨lit "HTTP/1.1 101 Switching Protocols\r\n", by decide⟩,
    .text ⟨lit "Upgrade: websocket\r\n", by decide⟩,
    .text ⟨lit "Connection: Upgrade\r\n", by decide⟩,
    .text ⟨lit "Sec-WebSocket-Accept: ", by decide⟩, .str accept,
    .text ⟨lit "\r\n", by decide⟩,
    .text ⟨lit "\r\n", by decide⟩]

/-- What one call writes to a connection. -/
inductive WsUnit where
  /-- The answer to the handshake. -/
  | response (accept : CString)
  /-- A text frame. -/
  | text (msg : Bytes)
  /-- A control frame. -/
  | control (opcode : UInt8) (payload : Bytes)

/-- The answer to the handshake is no frame. -/
def WsUnit.IsFrame : WsUnit → Prop
  | .response _ => False
  | .text _ => True
  | .control _ _ => True

instance : DecidablePred WsUnit.IsFrame
  | .response _ => .isFalse id
  | .text _ => .isTrue trivial
  | .control _ _ => .isTrue trivial

/-- The buffers of a call in the order of sending. -/
def WsUnit.buffers : WsUnit → List Bytes
  | .response accept => [(handshakeResponse accept).bytes]
  | .text msg => wsSendText msg
  | .control opcode payload => wsSendControl opcode payload

/-- All bytes of a call. -/
def WsUnit.encode (u : WsUnit) : Bytes := u.buffers.flatten

/-- No call sends an empty buffer. -/
theorem WsUnit.buffers_ne_nil (u : WsUnit) : u.buffers ≠ [] ∧ ∀ b ∈ u.buffers, b ≠ [] := by
  cases u with
  | response accept =>
    refine ⟨List.cons_ne_nil _ _, fun b hb => ?_⟩
    rw [List.mem_singleton.mp hb]
    simp [handshakeResponse, format, Piece.bytes, lit]
  | text msg =>
    refine ⟨List.cons_ne_nil _ _, fun b hb => ?_⟩
    rcases List.mem_cons.mp hb with rfl | hb
    · unfold textHeader
      split_ifs <;> exact List.cons_ne_nil _ _
    · split_ifs at hb with hpos
      · rw [List.mem_singleton.mp hb]
        exact List.length_pos_iff.mp hpos
      · exact absurd hb List.not_mem_nil
  | control opcode payload =>
    refine ⟨List.cons_ne_nil _ _, fun b hb => ?_⟩
    rcases List.mem_cons.mp hb with rfl | hb
    · exact List.cons_ne_nil _ _
    · split_ifs at hb with hpos
      · rw [List.mem_singleton.mp hb]
        exact List.length_pos_iff.mp hpos
      · exact absurd hb List.not_mem_nil

/-- The part of a string from the first occurrence of another one. -/
def strstr (needle : Bytes) : Bytes → Option Bytes
  | [] => if needle = [] then some [] else none
  | b :: rest =>
    if needle.isPrefixOf (b :: rest) = true then some (b :: rest) else strstr needle rest

/-- What is found is the rest of the string from the first occurrence. -/
theorem strstr_eq_some {needle s p : Bytes} (h : strstr needle s = some p) :
    needle <+: p ∧ p <:+ s := by
  induction s with
  | nil =>
    rw [strstr] at h
    split_ifs at h with hnil
    cases h
    rw [hnil]
    exact ⟨List.nil_prefix, List.suffix_refl _⟩
  | cons b rest ih =>
    rw [strstr] at h
    split_ifs at h with hhere
    · cases h
      exact ⟨List.isPrefixOf_iff_prefix.mp hhere, List.suffix_refl _⟩
    · exact ⟨(ih h).1, (ih h).2.trans (List.suffix_cons b rest)⟩

/-- A string is found exactly where it occurs. -/
theorem strstr_isSome_iff (needle s : Bytes) :
    (strstr needle s).isSome = true ↔ needle <:+: s := by
  induction s with
  | nil =>
    rw [strstr, List.infix_nil]
    split_ifs with hnil
    · exact iff_of_true rfl hnil
    · exact iff_of_false Bool.false_ne_true hnil
  | cons b rest ih =>
    rw [strstr, List.infix_cons_iff]
    split_ifs with hhere
    · exact iff_of_true rfl (.inl (List.isPrefixOf_iff_prefix.mp hhere))
    · rw [ih]
      refine ⟨.inr, fun h => h.resolve_left fun hstarts => ?_⟩
      exact hhere (List.isPrefixOf_iff_prefix.mpr hstarts)

/-- The first occurrence is at a known one or in front of it. -/
theorem strstr_of_prefix {needle p : Bytes} (h : needle <+: p) (front : Bytes) :
    ∃ earlier, strstr needle (front ++ p) = some (earlier ++ p) := by
  induction front with
  | nil =>
    refine ⟨[], ?_⟩
    cases p with
    | nil =>
      rw [List.prefix_nil.mp h]
      rfl
    | cons b p => exact if_pos (List.isPrefixOf_iff_prefix.mpr h)
  | cons b front ih =>
    rw [List.cons_append, strstr]
    split_ifs
    · exact ⟨b :: front, rfl⟩
    · exact ih

/-- More text behind a string does not change where something is found in it. -/
theorem strstr_append {needle s p : Bytes} (h : strstr needle s = some p) (t : Bytes) :
    strstr needle (s ++ t) = some (p ++ t) := by
  induction s with
  | nil =>
    rw [strstr] at h
    split_ifs at h with hnil
    cases h
    subst hnil
    cases t with
    | nil => rfl
    | cons c t => rfl
  | cons b rest ih =>
    rw [strstr] at h
    rw [List.cons_append, strstr]
    split_ifs at h with hhere
    · cases h
      have hmore : needle.isPrefixOf (b :: (rest ++ t)) = true :=
        List.isPrefixOf_iff_prefix.mpr
          ((List.isPrefixOf_iff_prefix.mp hhere).trans (List.prefix_append (b :: rest) t))
      rw [if_pos hmore]
      rfl
    · have hlen : needle.length ≤ (b :: rest).length := by
        have hfound := strstr_eq_some h
        have hneedle := hfound.1.length_le
        have hrest := hfound.2.length_le
        rw [List.length_cons]
        omega
      have hnot : ¬ needle.isPrefixOf (b :: (rest ++ t)) = true := fun hmore => hhere
        (List.isPrefixOf_iff_prefix.mpr (List.prefix_of_prefix_length_le
          (List.isPrefixOf_iff_prefix.mp hmore) (List.prefix_append (b :: rest) t) hlen))
      rw [if_neg hnot]
      exact ih h

/-- Whether a text is taken for a history request. -/
def isHistoryRequest (json : CString) : Bool :=
  match (strstr (lit "\"type\"") json.bytes).or (strstr (lit "type") json.bytes) with
  | none => false
  | some p => (strstr (lit "history") p).isSome

/-- White space of the C locale. -/
def isSpace (b : UInt8) : Bool := b = 32 || (9 ≤ b && b ≤ 13)

/-- A decimal digit. -/
def isDigit (b : UInt8) : Bool := 48 ≤ b && b ≤ 57

/-- The digit loop; it stops once the value exceeds a million. -/
def scanDigits (v : ℕ) : Bytes → ℕ
  | [] => v
  | b :: rest =>
    if isDigit b = true then
      let v := v * 10 + (b.toNat - 48)
      if 1000000 < v then v else scanDigits v rest
    else v

/-- The integer behind the first colon after a key. -/
def jsonFindInt (json : CString) (key : Bytes) (defv : ℤ) : ℤ :=
  match strstr key json.bytes with
  | none => defv
  | some p =>
    match p.dropWhile (· ≠ 58) with
    | [] => defv
    | _ :: p =>
      let p := p.dropWhile fun b => isSpace b
      let (sign, p) : ℤ × Bytes := match p with
        | 45 :: rest => (-1, rest)
        | p => (1, p)
      match p with
      | [] => defv
      | b :: _ => if isDigit b = true then sign * scanDigits 0 p else defv

/-- The status message of a new connection. -/
def statusText (expTag : CString) : CString :=
  format [.text ⟨lit "\x7b\"type\":\"status\",\"status\":\"online\",\"exp_tag\":\"", by decide⟩,
    .str expTag, .text ⟨lit "\"\x7d", by decide⟩]

/-- The error reply without a database. -/
def dbNotAvailable : Bytes := lit "\x7b\"type\":\"error\",\"message\":\"db_not_available\"\x7d"

/-- The error reply to a failed query. -/
def historyQueryFailed : Bytes := lit "\x7b\"type\":\"error\",\"message\":\"history_query_failed\"\x7d"

/-- The text of a received payload; a terminator is stored behind it. -/
def payloadText (payload : Bytes) : CString := CString.ofMemory (payload ++ [0])

example : isHistoryRequest ⟨lit "\x7b\"type\": \"history\",\"last\":12\x7d", by decide⟩ = true ∧
    jsonFindInt ⟨lit "\x7b\"type\": \"history\",\"last\":12\x7d", by decide⟩ (lit "\"last\"") 300 = 12 := by
  decide

end TelemetryPlatform.WsFrames
