import TelemetryPlatform.HeaderLines

/-!
# The accept key answers the key of the client

However the request arrives in segments, the answer depends on its header alone.
The key that is answered is the key that was sent where the first key line with
anything behind its colon holds it plainly; otherwise the answer is a different
one, short of a collision of the hash.
-/

namespace TelemetryPlatform.AcceptKey

open Base64 CStrings FormattedText HeaderLines HttpHandshake ReceivedSegments Sha1 WsFrames

/-- The header of a request: what is sent up to the first empty line. -/
def headerBlock (stream : Bytes) : Option Bytes :=
  (strstr crlfCrlf stream).map fun p => stream.take (stream.length - p.length + 4)

/-- The header lines behind the request line. -/
def headerLines (block : Bytes) : List Bytes := (splitCrlf block).tail.takeWhile isLine

/-- The name of the header line with the key. -/
def keyName : Bytes := lit "Sec-WebSocket-Key"

/-- The key of a request that is to be answered: the value of the first header
line with its name that has one. -/
def clientKey (stream : Bytes) : Option Bytes :=
  (headerBlock stream).bind fun block =>
    if block.length ≤ 8191 ∧ (lit "GET ").isPrefixOf block = true then
      (((headerLines block).filter (isField keyName)).map fieldValue).find? isLine
    else none

/-- The accept key that belongs to a text. -/
def acceptFor (text : Bytes) : CString := ⟨base64 (sha1 text), zero_notMem_base64 _⟩

/-- The handshake answers exactly the requests with a key, each with the accept
key for the whole key. -/
def AnswersKey (segs : Segments UInt8) : Prop :=
  (wsHandshake segs).1 =
    (clientKey segs.flatten).map fun v => handshakeResponse (acceptFor (v ++ wsGuid.bytes))

/-- What stands, leading blanks apart, behind the colon of the first key line
that has anything there. -/
def firstKeyText (block : Bytes) : Option Bytes :=
  ((headerLines block).find? fun line => isField keyName line && isLine (fieldText line)).map
    fun line => (fieldText line).dropWhile isOptionalBlank

/-- The key of a request to be answered stands plainly in the first key line
that has anything behind its colon, and is short enough. -/
def SentPlain (stream : Bytes) : Prop :=
  ∀ block v, headerBlock stream = some block → clientKey stream = some v →
    0 ∉ block ∧ firstKeyText block = some v ∧ v.length ≤ 219

/-- The text that is hashed is not the one to be hashed, but has the same hash. -/
def Collides (stream : Bytes) : Prop :=
  ∃ block v w, headerBlock stream = some block ∧ clientKey stream = some v ∧ 0 ∉ block ∧
    firstKeyText block = some w ∧ w ≠ [] ∧
    (w ++ wsGuid.bytes).take 255 ≠ v ++ wsGuid.bytes ∧
    sha1 ((w ++ wsGuid.bytes).take 255) = sha1 (v ++ wsGuid.bytes)

/-- A header that is there stays the header when more is sent. -/
theorem headerBlock_append {s block : Bytes} (h : headerBlock s = some block) (t : Bytes) :
    headerBlock (s ++ t) = some block := by
  obtain ⟨p, hp, rfl⟩ := Option.map_eq_some_iff.mp h
  obtain ⟨hstarts, hsuffix⟩ := strstr_eq_some hp
  have hfour : 4 ≤ p.length := hstarts.length_le
  have hle := hsuffix.length_le
  have hlen : (s ++ t).length - (p ++ t).length = s.length - p.length := by
    rw [List.length_append, List.length_append]
    omega
  rw [headerBlock, strstr_append hp, Option.map_some, hlen,
    List.take_append_of_le_length (by omega)]

/-- A header is the front of what is sent, and ends with the empty line. -/
theorem headerBlock_eq_some {s block : Bytes} (h : headerBlock s = some block) :
    block <+: s ∧ crlfCrlf <:+ block := by
  obtain ⟨p, hp, rfl⟩ := Option.map_eq_some_iff.mp h
  obtain ⟨⟨rest, rfl⟩, front, rfl⟩ := strstr_eq_some hp
  refine ⟨List.take_prefix _ _, front, ?_⟩
  have hlen : (front ++ (crlfCrlf ++ rest)).length - (crlfCrlf ++ rest).length + 4 =
      (front ++ crlfCrlf).length := by
    rw [List.length_append, Nat.add_sub_cancel, List.length_append]
    rfl
  rw [hlen, ← List.append_assoc, List.take_left]

/-- A text with an empty line in it has a header. -/
theorem headerBlock_isSome_iff (s : Bytes) : (headerBlock s).isSome = true ↔ crlfCrlf <:+: s := by
  rw [headerBlock, Option.isSome_map, strstr_isSome_iff]

/-- The string in a buffer is its front up to the first zero byte. -/
theorem bufferText_bytes (buf : Bytes) : (bufferText buf).bytes = buf.takeWhile (· ≠ 0) := by
  change (buf ++ [0]).takeWhile (· ≠ 0) = _
  rw [List.takeWhile_append]
  split_ifs with hall
  · rw [List.takeWhile_cons_of_neg (by decide), List.append_nil]
    exact (List.takeWhile_prefix _).eq_of_length hall |>.symm
  · rfl

/-- The header is in the buffer as a string. -/
def Found (buf : Bytes) : Prop := crlfCrlf <:+: (bufferText buf).bytes

/-- The string in a longer buffer is longer. -/
theorem bufferText_mono {buf more : Bytes} (h : buf <+: more) :
    (bufferText buf).bytes <+: (bufferText more).bytes := by
  rw [bufferText_bytes, bufferText_bytes]
  obtain ⟨t, rfl⟩ := h
  rw [List.takeWhile_append]
  split_ifs with hall
  · rw [(List.takeWhile_prefix _).eq_of_length hall]
    exact List.prefix_append buf _
  · exact List.prefix_refl _

/-- What is found in a buffer is found in a longer one. -/
theorem Found.mono {buf more : Bytes} (hfound : Found buf) (h : buf <+: more) : Found more :=
  List.IsInfix.trans hfound (bufferText_mono h).isInfix

/-- A received request holds its header, and was taken from the stream. -/
theorem readHttpRequest_some {cap : ℕ} {segs : Segments UInt8} {buf request : Bytes}
    (h : (readHttpRequest cap buf segs).1 = some request) :
    request <+: buf ++ segs.flatten ∧ request.length < cap ∧ Found request := by
  induction segs generalizing buf with
  | nil => cases h
  | cons seg rest ih =>
    rw [readHttpRequest] at h
    dsimp only at h
    split_ifs at h with hspace hempty hfound hfull
    · rw [List.flatten_cons, hempty, List.nil_append]
      exact ih h
    · cases h
      refine ⟨?_, ?_, (strstr_isSome_iff _ _).mp hfound⟩
      · rw [List.flatten_cons, List.prefix_append_right_inj]
        exact (List.take_prefix _ seg).trans (List.prefix_append seg _)
      · rw [List.length_append, List.length_take]
        omega
    · have hwhole : seg.take (cap - buf.length - 1) = seg := by
        rw [List.length_append, List.length_take] at hfull
        exact List.take_of_length_le (by omega)
      rw [hwhole] at h
      rw [List.flatten_cons, ← List.append_assoc]
      exact ih h

/-- A request is not received where its header is not in the part of the stream
that fits. -/
theorem readHttpRequest_none {cap : ℕ} {segs : Segments UInt8} {buf : Bytes} (hbuf : ¬ Found buf)
    (h : (readHttpRequest cap buf segs).1 = none) :
    ¬ Found ((buf ++ segs.flatten).take (cap - 1)) := by
  induction segs generalizing buf with
  | nil =>
    rw [List.flatten_nil, List.append_nil]
    exact fun hfound => hbuf (hfound.mono (List.take_prefix _ buf))
  | cons seg rest ih =>
    rw [readHttpRequest] at h
    dsimp only at h
    split_ifs at h with hspace hempty hfound hfull
    · rw [List.flatten_cons, hempty, List.nil_append]
      exact ih hbuf h
    · have hall : (buf ++ (seg :: rest).flatten).take (cap - 1) =
          buf ++ seg.take (cap - buf.length - 1) := by
        rw [List.length_append, List.length_take] at hfull
        rw [List.flatten_cons, List.take_append, List.take_of_length_le (by omega),
          List.take_append_of_le_length (by omega)]
        congr 2
        omega
      rw [hall]
      exact fun hinfix => hfound ((strstr_isSome_iff _ _).mpr hinfix)
    · have hwhole : seg.take (cap - buf.length - 1) = seg := by
        rw [List.length_append, List.length_take] at hfull
        exact List.take_of_length_le (by omega)
      rw [hwhole] at h hfound
      rw [List.flatten_cons, ← List.append_assoc]
      exact ih (fun hinfix => hfound ((strstr_isSome_iff _ _).mpr hinfix)) h
    · rw [List.take_append_of_le_length (by omega)]
      exact fun hfound => hbuf (hfound.mono (List.take_prefix _ buf))

/-- The request that is received starts with the header of the stream. -/
theorem header_of_request {segs : Segments UInt8} {request : Bytes}
    (h : (readHttpRequest httpMax [] segs).1 = some request) :
    ∃ block, headerBlock segs.flatten = some block ∧ block <+: (bufferText request).bytes ∧
      block.length ≤ 8191 ∧ 0 ∉ block := by
  obtain ⟨hstarts, hlen, hfound⟩ := readHttpRequest_some h
  rw [List.nil_append] at hstarts
  obtain ⟨block, hblock⟩ := Option.isSome_iff_exists.mp ((headerBlock_isSome_iff _).mpr hfound)
  have htext : (bufferText request).bytes <+: request := by
    rw [bufferText_bytes]
    exact List.takeWhile_prefix _
  obtain ⟨t, ht⟩ := htext.trans hstarts
  have hfront := (headerBlock_eq_some hblock).1
  refine ⟨block, ?_, hfront, ?_, fun hzero => ?_⟩
  · rw [← ht]
    exact headerBlock_append hblock t
  · have hblock_le := hfront.length_le.trans htext.length_le
    change request.length < 8192 at hlen
    omega
  · exact (bufferText request).nulFree (hfront.subset hzero)

/-- A header that fits and has no zero byte is received. -/
theorem request_of_header {segs : Segments UInt8} {block : Bytes}
    (hblock : headerBlock segs.flatten = some block) (hlen : block.length ≤ 8191)
    (hzero : 0 ∉ block) : (readHttpRequest httpMax [] segs).1 ≠ none := by
  intro hnone
  obtain ⟨hstarts, hsuffix⟩ := headerBlock_eq_some hblock
  have hempty : ¬ Found [] := fun h => absurd (List.IsInfix.length_le h) (by decide)
  have hnot := readHttpRequest_none hempty hnone
  rw [List.nil_append] at hnot
  have hall : ∀ b ∈ block, decide (b ≠ 0) = true :=
    fun b hb => decide_eq_true fun h => hzero (h ▸ hb)
  have hfound : Found block := by
    rw [Found, bufferText_bytes, List.takeWhile_eq_self_iff.mpr hall]
    exact hsuffix.isInfix
  refine hnot (hfound.mono (List.prefix_of_prefix_length_le hstarts (List.take_prefix _ _) ?_))
  have hle := hstarts.length_le
  rw [List.length_take]
  change block.length ≤ min 8191 _
  omega

/-- The lines of a text in front of its first empty line are those of its
header. -/
theorem takeWhile_splitCrlf {block text : Bytes} (hblock : crlfCrlf <:+: block)
    (htext : block <+: text) :
    (splitCrlf text).dropLast.takeWhile isLine = (splitCrlf block).takeWhile isLine := by
  have hended (s : Bytes) (hs : crlfCrlf <:+: s) : [] ∈ (splitCrlf s).dropLast := by
    have hmem := nil_mem_splitCrlf hs
    rw [← List.tail_dropLast] at hmem
    exact List.mem_of_mem_tail hmem
  obtain ⟨t, rfl⟩ := htext
  have hmore : crlfCrlf <:+: block ++ t := hblock.trans (List.prefix_append block t).isInfix
  rw [← takeWhile_isLine_of_prefix (List.dropLast_prefix _) (hended _ hmore),
    takeWhile_isLine_of_prefix (dropLast_splitCrlf_append block t) (hended _ hblock),
    takeWhile_isLine_of_prefix (List.dropLast_prefix _) (hended _ hblock)]

/-- The request line is no key line. -/
theorem splitCrlf_of_get {block : Bytes} (hget : lit "GET " <+: block) :
    ∃ line lines, splitCrlf block = line :: lines ∧ isLine line = true ∧
      lineValue keyName line = none := by
  obtain ⟨t, rfl⟩ := hget
  obtain ⟨line, lines, hlines⟩ := List.exists_cons_of_ne_nil (splitCrlf_ne_nil (69 :: 84 :: 32 :: t))
  refine ⟨71 :: line, lines, ?_, rfl, ?_⟩
  · change splitCrlf (71 :: 69 :: 84 :: 32 :: t) = _
    rw [splitCrlf, if_neg (by decide), hlines]
    rfl
  · have hstart : icaseStartsWith (71 :: line) keyName = false := rfl
    rw [lineValue, hstart, if_neg (fun h => Bool.false_ne_true h.2.1)]

/-- The first value that a condition and a function give is the function at the
first element that meets the condition. -/
theorem findSome_ite (p : Bytes → Bool) (f : Bytes → Bytes) (lines : List Bytes) :
    lines.findSome? (fun line => if p line = true then some (f line) else none) =
      (lines.find? p).map f := by
  induction lines with
  | nil => rfl
  | cons line lines ih =>
    rw [List.findSome?_cons, List.find?_cons]
    cases hp : p line with
    | true => rfl
    | false => simpa using ih

/-- What the loop finds in a request to be answered is the text of the first key
line that has anything behind its colon. -/
theorem findHeaderValue_eq {request : CString} {block : Bytes} (hblock : crlfCrlf <:+: block)
    (hstarts : block <+: request.bytes) (hget : lit "GET " <+: block) :
    findHeaderValue request keyName = firstKeyText block := by
  obtain ⟨line, lines, hlines, hline, hnone⟩ := splitCrlf_of_get hget
  have hvalue : lineValue keyName = fun line =>
      if (isField keyName line && isLine (fieldText line)) = true then
        some ((fieldText line).dropWhile isOptionalBlank)
      else none := by
    funext line
    rw [lineValue_eq (by decide)]
    refine if_congr ?_ rfl rfl
    rw [Bool.and_eq_true]
    exact and_congr_right fun _ => by simp [isLine]
  rw [findHeaderValue, findHeaderLoop_eq keyName (Nat.lt_succ_self _),
    takeWhile_splitCrlf hblock hstarts, hlines, List.takeWhile_cons_of_pos hline,
    List.findSome?_cons, hnone]
  change (lines.takeWhile isLine).findSome? (lineValue keyName) = _
  rw [hvalue, findSome_ite, firstKeyText, headerLines, hlines, List.tail_cons]

/-- The text of a key line is a part of the header. -/
theorem firstKeyText_subset {block text : Bytes} (h : firstKeyText block = some text) :
    text ⊆ block := by
  obtain ⟨line, hfind, rfl⟩ := Option.map_eq_some_iff.mp h
  have hmem : line ∈ splitCrlf block :=
    List.mem_of_mem_tail ((List.takeWhile_prefix _).subset (List.mem_of_find?_eq_some hfind))
  have htext : fieldText line ⊆ line :=
    ((List.tail_suffix _).trans (List.dropWhile_suffix _)).subset
  exact List.Subset.trans (List.dropWhile_suffix _).subset
    (List.Subset.trans htext (mem_of_mem_splitCrlf hmem))

/-- The accept key is computed from the first 255 bytes of the key and the
suffix. -/
theorem computeAcceptKey_eq (secKey : CString) :
    computeAcceptKey secKey = some (acceptFor ((secKey.bytes ++ wsGuid.bytes).take 255)) := by
  have htext : (keyText secKey).bytes = (secKey.bytes ++ wsGuid.bytes).take 255 := by
    change ((format [.str secKey, .str wsGuid]).bytes).take 255 = _
    simp [format, Piece.bytes]
  have hfits : 4 * (((sha1 ((secKey.bytes ++ wsGuid.bytes).take 255)).length + 2) / 3) + 1 ≤
      (List.replicate 64 (0 : UInt8)).length := by
    rw [length_sha1, List.length_replicate]
    decide
  have hencode := ofMemory_base64Encode hfits
  have hreturn : ¬ (base64Encode (sha1 ((secKey.bytes ++ wsGuid.bytes).take 255))
      (List.replicate 64 0)).1 < 0 := by
    rw [base64Encode_of_fits hfits, length_base64, length_sha1]
    exact (by decide : ¬ sizeToInt (4 * ((20 + 2) / 3)) < 0)
  unfold computeAcceptKey
  dsimp only
  rw [htext, sha1Final_sha1Update, if_neg hreturn, hencode]
  rfl

/-- What the answer says in front of the accept key. -/
def responseHead : Bytes :=
  lit "HTTP/1.1 101 Switching Protocols\r\nUpgrade: websocket\r\nConnection: Upgrade\r\n" ++
    lit "Sec-WebSocket-Accept: "

/-- The answer is the accept key with fixed texts around it. -/
theorem handshakeResponse_bytes (accept : CString) :
    (handshakeResponse accept).bytes = responseHead ++ accept.bytes ++ crlfCrlf := by
  have hhead : responseHead = lit "HTTP/1.1 101 Switching Protocols\r\n" ++
      lit "Upgrade: websocket\r\n" ++ lit "Connection: Upgrade\r\n" ++
      lit "Sec-WebSocket-Accept: " := by
    decide
  have hend : crlfCrlf = lit "\r\n" ++ lit "\r\n" := by decide
  rw [hhead, hend]
  simp only [handshakeResponse, format, List.map_cons, List.map_nil, Piece.bytes,
    List.flatten_cons, List.flatten_nil, List.append_assoc, List.append_nil]

/-- The answer with an accept key fits into its buffer. -/
theorem length_handshakeResponse (text : Bytes) :
    (handshakeResponse (acceptFor text)).bytes.length = 129 := by
  have hhead : responseHead.length = 97 := by decide
  have haccept : (acceptFor text).bytes.length = 28 := by
    change (base64 (sha1 text)).length = 28
    rw [length_base64, length_sha1]
  rw [handshakeResponse_bytes, List.length_append, List.length_append, hhead, haccept]
  rfl

/-- Answers are the same where the hashes are. -/
theorem handshakeResponse_eq_iff (text text' : Bytes) :
    handshakeResponse (acceptFor text) = handshakeResponse (acceptFor text') ↔
      sha1 text = sha1 text' := by
  constructor
  · intro h
    have hbytes := congrArg CString.bytes h
    rw [handshakeResponse_bytes, handshakeResponse_bytes] at hbytes
    exact base64_injective (List.append_cancel_left (List.append_cancel_right hbytes))
  · intro h
    have haccept : acceptFor text = acceptFor text' := by
      unfold acceptFor
      simp only [h]
    rw [haccept]

/-- The key that the handshake answers. -/
def heardKey (stream : Bytes) : Option Bytes :=
  (headerBlock stream).bind fun block =>
    if block.length ≤ 8191 ∧ 0 ∉ block ∧ (lit "GET ").isPrefixOf block = true then
      (firstKeyText block).filter isLine
    else none

/-- The handshake depends on the stream alone, not on its segments. -/
theorem wsHandshake_fst (segs : Segments UInt8) :
    (wsHandshake segs).1 = (heardKey segs.flatten).map fun w =>
      handshakeResponse (acceptFor ((w ++ wsGuid.bytes).take 255)) := by
  cases hread : readHttpRequest httpMax [] segs with
  | mk request left =>
    have hfst : (readHttpRequest httpMax [] segs).1 = request := congrArg Prod.fst hread
    rw [wsHandshake, hread]
    cases request with
    | none =>
      have hnone : heardKey segs.flatten = none := by
        rw [heardKey, Option.bind_eq_none_iff]
        intro block hblock
        exact if_neg fun h => request_of_header hblock h.1 h.2.1 hfst
      rw [hnone]
      rfl
    | some request =>
      obtain ⟨block, hblock, hstarts, hlen, hzero⟩ := header_of_request hfst
      have hcrlf := (headerBlock_eq_some hblock).2
      have hget : (lit "GET ").isPrefixOf (bufferText request).bytes =
          (lit "GET ").isPrefixOf block := by
        rw [Bool.eq_iff_iff, List.isPrefixOf_iff_prefix, List.isPrefixOf_iff_prefix]
        exact ⟨fun h => List.prefix_of_prefix_length_le h hstarts hcrlf.length_le,
          fun h => h.trans hstarts⟩
      rw [heardKey, hblock, Option.bind_some]
      dsimp only
      rw [hget]
      cases hstart : (lit "GET ").isPrefixOf block with
      | false =>
        rw [if_pos rfl, if_neg fun h => Bool.false_ne_true h.2.2]
        rfl
      | true =>
        rw [if_neg (by decide), if_pos ⟨hlen, hzero, rfl⟩]
        have hfind : findHeaderValue (bufferText request) (lit "Sec-WebSocket-Key") =
            firstKeyText block :=
          findHeaderValue_eq hcrlf.isInfix hstarts (List.isPrefixOf_iff_prefix.mp hstart)
        rw [hfind]
        cases hkey : firstKeyText block with
        | none => rfl
        | some key =>
          have hkey_zero : 0 ∉ key := fun h => hzero (firstKeyText_subset hkey h)
          have htext : (bufferText key).bytes = key := by
            rw [bufferText_bytes]
            exact List.takeWhile_eq_self_iff.mpr fun b hb => decide_eq_true fun h => hkey_zero (h ▸ hb)
          have hlength := length_handshakeResponse ((key ++ wsGuid.bytes).take 255)
          dsimp only
          rw [computeAcceptKey_eq, htext]
          cases key with
          | nil => rfl
          | cons b key =>
            rw [if_neg (List.cons_ne_nil b key)]
            dsimp only
            rw [if_neg (by rw [hlength]; decide)]
            rfl

/-- A stronger condition that the first match meets finds the same. -/
theorem find_of_imp {p q : Bytes → Bool} {lines : List Bytes} {line : Bytes}
    (himp : ∀ line, q line = true → p line = true) (hfind : lines.find? p = some line)
    (hq : q line = true) : lines.find? q = some line := by
  obtain ⟨-, front, back, rfl, hfront⟩ := List.find?_eq_some_iff_append.mp hfind
  refine List.find?_eq_some_iff_append.mpr ⟨hq, front, back, rfl, fun a ha => ?_⟩
  have hnot := hfront a ha
  rw [Bool.not_eq_true'] at hnot ⊢
  exact Bool.eq_false_iff.mpr fun h => Bool.false_ne_true (hnot.symm.trans (himp a h))

/-- Behind its leading blanks a text has a value where it is not empty. -/
theorem isLine_rdropWhile {text : Bytes} (h : isLine (text.dropWhile isOptionalBlank) = true) :
    isLine ((text.dropWhile isOptionalBlank).rdropWhile isOptionalBlank) = true := by
  have hne : text.dropWhile isOptionalBlank ≠ [] := by simpa [isLine] using h
  have hhead := List.head_dropWhile_not isOptionalBlank hne
  have hvalue : (text.dropWhile isOptionalBlank).rdropWhile isOptionalBlank ≠ [] := by
    rw [Ne, List.rdropWhile_eq_nil_iff]
    intro hall
    exact Bool.false_ne_true (hhead.symm.trans (hall _ (List.head_mem hne)))
  simpa [isLine] using hvalue

/-- The key that is answered is that of the client, with the blanks behind it. -/
theorem clientKey_of_heard {stream w : Bytes} (h : heardKey stream = some w) :
    clientKey stream = some (w.rdropWhile isOptionalBlank) ∧ w ≠ [] ∧
      ∃ block, headerBlock stream = some block ∧ 0 ∉ block ∧ firstKeyText block = some w := by
  obtain ⟨block, hblock, hheard⟩ := Option.bind_eq_some_iff.mp h
  split_ifs at hheard with hcond
  obtain ⟨hlen, hzero, hget⟩ := hcond
  obtain ⟨hkey, hline⟩ := Option.filter_eq_some_iff.mp hheard
  refine ⟨?_, by simpa [isLine] using hline, block, hblock, hzero, hkey⟩
  obtain ⟨line, hfind, rfl⟩ := Option.map_eq_some_iff.mp hkey
  have hvalue := isLine_rdropWhile hline
  have hfield : isField keyName line = true := by
    have hmatch := List.find?_some hfind
    rw [Bool.and_eq_true] at hmatch
    exact hmatch.1
  have himp : ∀ line, (isField keyName line && isLine (fieldValue line)) = true →
      (isField keyName line && isLine (fieldText line)) = true := by
    intro line
    rw [Bool.and_eq_true, Bool.and_eq_true]
    refine fun hboth => ⟨hboth.1, ?_⟩
    cases htext : fieldText line with
    | nil =>
      have hnil := hboth.2
      rw [fieldValue, htext] at hnil
      cases hnil
    | cons b text => rfl
  have hfirst := find_of_imp himp hfind (by rw [hfield]; exact hvalue)
  have hboth : (fun a => decide (isField keyName a = true ∧ (isLine ∘ fieldValue) a = true)) =
      fun line => isField keyName line && isLine (fieldValue line) := by
    funext line
    rw [Bool.decide_and, Bool.decide_eq_true, Bool.decide_eq_true, Function.comp_apply]
  rw [clientKey, hblock, Option.bind_some, if_pos ⟨hlen, hget⟩, List.find?_map, List.find?_filter,
    hboth, hfirst]
  rfl

/-- A request to be answered is answered where its first key line with anything
behind its colon holds more than blanks. -/
theorem heardKey_of_client {stream block v w : Bytes} (hclient : clientKey stream = some v)
    (hblock : headerBlock stream = some block) (hzero : 0 ∉ block)
    (hkey : firstKeyText block = some w) (hw : w ≠ []) : heardKey stream = some w := by
  rw [clientKey, hblock, Option.bind_some] at hclient
  split_ifs at hclient with hcond
  rw [heardKey, hblock, Option.bind_some, if_pos ⟨hcond.1, hzero, hcond.2⟩, hkey]
  exact Option.filter_eq_some_iff.mpr ⟨rfl, by simpa [isLine] using hw⟩

/-- A request to be answered has a header and a key that is not empty. -/
theorem clientKey_eq_some {stream v : Bytes} (hclient : clientKey stream = some v) :
    v ≠ [] ∧ ∃ block, headerBlock stream = some block := by
  obtain ⟨block, hblock, hfind⟩ := Option.bind_eq_some_iff.mp hclient
  split_ifs at hfind
  exact ⟨by simpa [isLine] using List.find?_some hfind, block, hblock⟩

/-- The text that is hashed is the one to be hashed where no blanks stand behind
the key and it is short enough. -/
theorem hashed_eq_iff (w : Bytes) :
    (w ++ wsGuid.bytes).take 255 = w.rdropWhile isOptionalBlank ++ wsGuid.bytes ↔
      w = w.rdropWhile isOptionalBlank ∧ (w.rdropWhile isOptionalBlank).length ≤ 219 := by
  have hsplit : w.rdropWhile isOptionalBlank ++ w.rtakeWhile isOptionalBlank = w :=
    List.rdropWhile_append_rtakeWhile
  have hguid : wsGuid.bytes.length = 36 := by decide
  generalize w.rdropWhile isOptionalBlank = v at hsplit ⊢
  constructor
  · intro h
    have hlen := congrArg List.length h
    rw [List.length_take, List.length_append, List.length_append, hguid] at hlen
    cases hblanks : w.rtakeWhile isOptionalBlank with
    | nil =>
      rw [hblanks, List.append_nil] at hsplit
      subst hsplit
      exact ⟨rfl, by omega⟩
    | cons b blanks =>
      have hblank : isOptionalBlank b = true :=
        List.mem_rtakeWhile_imp (hblanks ▸ List.mem_cons_self)
      rw [hblanks] at hsplit
      subst hsplit
      have hlong : v.length < 255 := by
        rw [List.length_append] at hlen
        omega
      have hat : ((v ++ b :: blanks ++ wsGuid.bytes).take 255)[v.length]? =
          (v ++ wsGuid.bytes)[v.length]? := by rw [h]
      rw [List.getElem?_take_of_lt hlong, List.append_assoc,
        List.getElem?_append_right (Nat.le_refl _), List.getElem?_append_right (Nat.le_refl _),
        Nat.sub_self] at hat
      cases hat
      cases hblank
  · rintro ⟨rfl, hshort⟩
    exact List.take_of_length_le (by rw [List.length_append, hguid]; omega)

/-- The handshake answers exactly the requests with a key, each with the accept
key for the whole key, in exactly the cases where the key was sent plainly or
the text that is hashed collides with the one to be hashed. -/
theorem answers_key_iff (segs : Segments UInt8) :
    AnswersKey segs ↔ SentPlain segs.flatten ∨ Collides segs.flatten := by
  rw [AnswersKey, wsHandshake_fst]
  cases hheard : heardKey segs.flatten with
  | none =>
    constructor
    · intro h
      have hnone : clientKey segs.flatten = none := Option.map_eq_none_iff.mp h.symm
      exact .inl fun block v _ hclient => absurd (hnone.symm.trans hclient) nofun
    · intro h
      have hnone : clientKey segs.flatten = none := by
        refine Option.eq_none_iff_forall_ne_some.mpr fun v hclient => ?_
        rcases h with hplain | ⟨block, v', w, hblock, hclient', hzero, hkey, hw, -, -⟩
        · obtain ⟨hv, block, hblock⟩ := clientKey_eq_some hclient
          obtain ⟨hzero, hkey, -⟩ := hplain block v hblock hclient
          cases hheard.symm.trans (heardKey_of_client hclient hblock hzero hkey hv)
        · cases hheard.symm.trans (heardKey_of_client hclient' hblock hzero hkey hw)
      rw [hnone, Option.map_none, Option.map_none]
  | some w =>
    obtain ⟨hclient, hne, block, hblock, hzero, hkey⟩ := clientKey_of_heard hheard
    rw [hclient, Option.map_some, Option.map_some, Option.some_inj, handshakeResponse_eq_iff]
    constructor
    · intro hhash
      by_cases htext : (w ++ wsGuid.bytes).take 255 = w.rdropWhile isOptionalBlank ++ wsGuid.bytes
      · obtain ⟨hplain, hshort⟩ := (hashed_eq_iff w).mp htext
        refine .inl fun block' v hblock' hclient' => ?_
        cases hblock.symm.trans hblock'
        cases hclient.symm.trans hclient'
        exact ⟨hzero, hplain ▸ hkey, hshort⟩
      · exact .inr ⟨block, _, w, hblock, hclient, hzero, hkey, hne, htext, hhash⟩
    · rintro (hplain | ⟨block', v, w', hblock', hclient', -, hkey', -, -, hhash⟩)
      · obtain ⟨-, hvalue, hshort⟩ := hplain block _ hblock hclient
        have hw : w = w.rdropWhile isOptionalBlank := Option.some.inj (hkey.symm.trans hvalue)
        rw [(hashed_eq_iff w).mpr ⟨hw, hshort⟩]
      · cases hblock.symm.trans hblock'
        cases hclient.symm.trans hclient'
        cases hkey.symm.trans hkey'
        exact hhash

/-- A request whose key has a blank behind it. -/
def blankBehindKey : Bytes := lit "GET / HTTP/1.1\r\nSec-WebSocket-Key: abc \r\n\r\n"

/-- The answer is computed from the key with the blank. -/
theorem trailing_blank_hashed :
    clientKey blankBehindKey = some (lit "abc") ∧
      (wsHandshake [blankBehindKey]).1 =
        some (handshakeResponse (acceptFor (lit "abc " ++ wsGuid.bytes))) ∧
      ¬ AnswersKey [blankBehindKey] := by
  have hclient : clientKey blankBehindKey = some (lit "abc") := by decide +kernel
  have hheard : heardKey blankBehindKey = some (lit "abc ") := by decide +kernel
  have htext : (lit "abc " ++ wsGuid.bytes).take 255 = lit "abc " ++ wsGuid.bytes := by decide
  have hflatten : [blankBehindKey].flatten = blankBehindKey := List.append_nil _
  have hanswer : (wsHandshake [blankBehindKey]).1 =
      some (handshakeResponse (acceptFor (lit "abc " ++ wsGuid.bytes))) := by
    rw [wsHandshake_fst, hflatten, hheard, Option.map_some, htext]
  have hhash : sha1 (lit "abc " ++ wsGuid.bytes) ≠ sha1 (lit "abc" ++ wsGuid.bytes) := by
    rw [← sha1Final_sha1Update, ← sha1Final_sha1Update]
    decide +kernel
  refine ⟨hclient, hanswer, fun h => ?_⟩
  rw [AnswersKey, hanswer, hflatten, hclient, Option.map_some, Option.some_inj,
    handshakeResponse_eq_iff] at h
  exact hhash h

end TelemetryPlatform.AcceptKey
