import TelemetryPlatform.Base64
import TelemetryPlatform.ReceivedSegments
import TelemetryPlatform.WsFrames

/-!
# The opening handshake

The request is received until the empty line behind its header is there. Its
header is searched for the key of the client, and the answer carries the digest
of that key with a fixed suffix.
-/

namespace TelemetryPlatform.HttpHandshake

open Base64 CStrings FormattedText ReceivedSegments Sha1 WsFrames

/-- The suffix of the key. -/
def wsGuid : CString := ⟨lit "258EAFA5-E914-47DA-95CA-C5AB0DC85B11", by decide⟩

/-- Size of the request buffer. -/
def httpMax : ℕ := 8192

/-- The end of a line. -/
def crlf : Bytes := [13, 10]

/-- The end of the header. -/
def crlfCrlf : Bytes := [13, 10, 13, 10]

/-- The string that a buffer holds; a terminator is stored behind it. -/
def bufferText (buf : Bytes) : CString := CString.ofMemory (buf ++ [0])

/-- Receive until the end of the header is in the buffer. An interrupted call is
repeated; the buffer of a failed request is not used. -/
def readHttpRequest (cap : ℕ) (buf : Bytes) : Segments UInt8 → Option Bytes × Segments UInt8
  | [] => (none, [])
  | seg :: rest =>
    if buf.length + 1 < cap then
      if seg = [] then readHttpRequest cap buf rest
      else
        let left := seg.drop (cap - buf.length - 1)
        let buf := buf ++ seg.take (cap - buf.length - 1)
        if (strstr crlfCrlf (bufferText buf).bytes).isSome = true then (some buf, left :: rest)
        else if cap - 1 ≤ buf.length then (none, left :: rest)
        else readHttpRequest cap buf rest
    else (none, seg :: rest)

/-- Lower case of the C locale. -/
def toLower (b : UInt8) : UInt8 := if 65 ≤ b ∧ b ≤ 90 then b + 32 else b

/-- Whether a string starts with another one, regardless of case. -/
def icaseStartsWith : Bytes → Bytes → Bool
  | _, [] => true
  | [], _ :: _ => false
  | c :: s, p :: pre => if toLower c ≠ toLower p then false else icaseStartsWith s pre

/-- A space or a tab. -/
def isBlank (b : UInt8) : Bool := b = 32 || b = 9

/-- The loop over the lines of a header. Every line takes two bytes at least,
so that the length of the text is fuel enough. -/
def findHeaderLoop (name : Bytes) : ℕ → Bytes → Option Bytes
  | 0, _ => none
  | fuel + 1, p =>
    if p = [] then none
    else
      match strstr crlf p with
      | none => none
      | some lineEnd =>
        if lineEnd.length = p.length then none
        else if name.length + 1 < p.length - lineEnd.length ∧ icaseStartsWith p name = true ∧
            p.getD name.length 0 = 58 then
          let v := (p.drop (name.length + 1)).dropWhile isBlank
          some (v.take (v.length - lineEnd.length))
        else findHeaderLoop name fuel (lineEnd.drop 2)

/-- The value of a header line, with its leading blanks taken off. -/
def findHeaderValue (http : CString) (name : Bytes) : Option Bytes :=
  findHeaderLoop name (http.bytes.length + 1) http.bytes

/-- The text that is hashed: the key and the suffix in a buffer of 256 bytes. -/
def keyText (secKey : CString) : CharBuf 256 :=
  CharBuf.ofCString (by decide) (format [.str secKey, .str wsGuid])

/-- The accept key. -/
def computeAcceptKey (secKey : CString) : Option CString :=
  let digest := sha1Final (sha1Update sha1Init (keyText secKey).bytes)
  let (n, out) := base64Encode digest (List.replicate 64 0)
  if n < 0 then none else some (CString.ofMemory out)

/-- Receive the request and answer it, where it is one to be answered. -/
def wsHandshake (segs : Segments UInt8) : Option CString × Segments UInt8 :=
  match readHttpRequest httpMax [] segs with
  | (none, segs) => (none, segs)
  | (some buf, segs) =>
    let http := bufferText buf
    if (lit "GET ").isPrefixOf http.bytes = false then (none, segs)
    else
      match findHeaderValue http (lit "Sec-WebSocket-Key") with
      | none => (none, segs)
      | some key =>
        if key = [] then (none, segs)
        else
          match computeAcceptKey (bufferText key) with
          | none => (none, segs)
          | some accept =>
            let resp := handshakeResponse accept
            if resp.bytes.length = 0 ∨ 256 ≤ resp.bytes.length then (none, segs)
            else (some resp, segs)

end TelemetryPlatform.HttpHandshake
