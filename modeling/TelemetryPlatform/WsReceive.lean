import Mathlib.Data.List.Basic
import TelemetryPlatform.ReceivedSegments
import TelemetryPlatform.StringBuilder
import TelemetryPlatform.WsFrames

/-!
# Receiving WebSocket frames

A frame is received as its two header bytes, an extended length where the
header announces one, a mask key where the header announces one, and the
payload. The length is checked after it was received and before anything is
allocated for the payload.
-/

namespace TelemetryPlatform.WsReceive

open CStrings ReceivedSegments StringBuilder WsFrames

/-- Largest accepted payload. -/
def wsMaxPayload : ℕ := 1024 * 1024

/-- Number of extended length bytes behind a 7-bit length. -/
def extendedBytes (len7 : ℕ) : ℕ := if len7 = 126 then 2 else if len7 = 127 then 8 else 0

/-- The declared payload length. Eight bytes fill the 64 bits of the source, so
no bit is shifted out. -/
def declaredLength (len7 : ℕ) (ext : Bytes) : ℕ :=
  if len7 = 126 then (ext.getD 0 0).toNat <<< 8 ||| (ext.getD 1 0).toNat
  else if len7 = 127 then ext.foldl (fun len b => len <<< 8 ||| b.toNat) 0
  else len7

/-- The 7-bit length of a second header byte. -/
def shortLength (h1 : UInt8) : ℕ := (h1 &&& 0x7F).toNat

/-- The mask bit of a second header byte. -/
def isMasked (h1 : UInt8) : Bool := h1 >>> 7 &&& 1 == 1

/-- Combine a payload with a repeated mask key. -/
def applyMask (mask payload : Bytes) : Bytes :=
  payload.mapIdx fun i b => b ^^^ mask.getD (i % 4) 0

/-- Receive one frame: its opcode and payload, or nothing for a return of -1. -/
def wsRecvFrame (segs : Segments UInt8) (heap : Heap) :
    Option (UInt8 × Bytes) × Segments UInt8 × Heap :=
  match recvAll 2 segs with
  | (none, segs) => (none, segs, heap)
  | (some h2, segs) =>
    let opcode := h2.getD 0 0 &&& 0x0F
    let masked := isMasked (h2.getD 1 0)
    let len7 := shortLength (h2.getD 1 0)
    match recvAll (extendedBytes len7) segs with
    | (none, segs) => (none, segs, heap)
    | (some ext, segs) =>
      let len := declaredLength len7 ext
      if wsMaxPayload < len then (none, segs, heap)
      else
        match if masked = true then recvAll 4 segs else (some [0, 0, 0, 0], segs) with
        | (none, segs) => (none, segs, heap)
        | (some mask, segs) =>
          let (granted, heap) := allocate heap
          if granted = false then (none, segs, heap)
          else if 0 < len then
            match recvAll len segs with
            | (none, segs) => (none, segs, heap)
            | (some payload, segs) =>
              (some (opcode, if masked = true then applyMask mask payload else payload), segs, heap)
          else (some (opcode, []), segs, heap)

/-- The results of a number of calls, one after the other. -/
def wsRecvFrames : ℕ → Segments UInt8 → List (Option (UInt8 × Bytes)) × Segments UInt8
  | 0, segs => ([], segs)
  | calls + 1, segs =>
    let (frame, segs, _) := wsRecvFrame segs []
    let (frames, segs) := wsRecvFrames calls segs
    (frame :: frames, segs)

/-- An unfragmented frame that a peer may send. -/
structure PeerFrame where
  /-- The opcode. -/
  opcode : UInt8
  /-- It has four bits. -/
  opcode_lt : opcode < 16
  /-- The mask key of a masked frame. -/
  maskKey : Option Bytes
  /-- It has four bytes. -/
  maskKey_length : ∀ key ∈ maskKey, key.length = 4
  /-- The payload before masking. -/
  payload : Bytes
  /-- It is small enough to be accepted. -/
  payload_le : payload.length ≤ wsMaxPayload

/-- A number in network byte order, with a number of bytes. -/
def bigEndian : ℕ → ℕ → Bytes
  | 0, _ => []
  | n + 1, len => bigEndian n (len / 256) ++ [UInt8.ofNat (len % 256)]

/-- The mask bit, the payload length of seven bits, and the extended payload
length in the smallest of the three forms of the protocol. -/
def lengthBytes (masked : Bool) (len : ℕ) : Bytes :=
  let maskBit := 128 * masked.toNat
  if len ≤ 125 then [UInt8.ofNat (maskBit + len)]
  else if len ≤ 65535 then UInt8.ofNat (maskBit + 126) :: bigEndian 2 len
  else UInt8.ofNat (maskBit + 127) :: bigEndian 8 len

/-- The masking of the protocol: byte i is combined with byte i modulo 4 of the key. -/
def maskOctets (key payload : Bytes) : Bytes :=
  (List.range payload.length).map fun i => payload.getD i 0 ^^^ key.getD (i % 4) 0

/-- The bytes of a frame: fin bit and opcode, lengths, mask key and payload. -/
def PeerFrame.encode (f : PeerFrame) : Bytes :=
  UInt8.ofNat (128 + f.opcode.toNat) :: lengthBytes f.maskKey.isSome f.payload.length ++
    match f.maskKey with
    | none => f.payload
    | some key => key ++ maskOctets key f.payload

/-- What a call returns for a frame. -/
def PeerFrame.content (f : PeerFrame) : UInt8 × Bytes := (f.opcode, f.payload)

/-- The source masks as the protocol says. -/
theorem applyMask_eq (mask payload : Bytes) : applyMask mask payload = maskOctets mask payload := by
  refine List.ext_getElem (by simp [applyMask, maskOctets]) fun i hi hi' => ?_
  have hlt : i < payload.length := by simpa [applyMask] using hi
  simp [applyMask, maskOctets, hlt]

/-- Combining twice with one key gives the payload back. -/
theorem applyMask_maskOctets (mask payload : Bytes) :
    applyMask mask (maskOctets mask payload) = payload := by
  rw [← applyMask_eq]
  refine List.ext_getElem (by simp [applyMask]) fun i hi hi' => ?_
  simp only [applyMask, List.getElem_mapIdx, UInt8.xor_assoc, UInt8.xor_self, UInt8.xor_zero]

/-- The fin bit does not disturb the opcode. -/
theorem opcode_of_header {opcode : UInt8} (h : opcode < 16) :
    UInt8.ofNat (128 + opcode.toNat) &&& 0x0F = opcode := by
  have hall : ∀ n < 16, UInt8.ofNat (128 + n) &&& 0x0F = UInt8.ofNat n := by decide
  have hnat : opcode.toNat < 16 := UInt8.lt_iff_toNat_lt.mp h
  simpa using hall opcode.toNat hnat

/-- The source sets the fin bit so. -/
theorem fin_or {opcode : UInt8} (h : opcode < 16) :
    0x80 ||| opcode = UInt8.ofNat (128 + opcode.toNat) := by
  have hall : ∀ n < 16, 0x80 ||| UInt8.ofNat n = UInt8.ofNat (128 + n) := by decide
  have hnat : opcode.toNat < 16 := UInt8.lt_iff_toNat_lt.mp h
  simpa using hall opcode.toNat hnat

/-- What a second header byte with the mask bit or without it says. -/
theorem header_bits (masked : Bool) {len7 : ℕ} (h : len7 < 128) :
    shortLength (UInt8.ofNat (128 * masked.toNat + len7)) = len7 ∧
      isMasked (UInt8.ofNat (128 * masked.toNat + len7)) = masked := by
  have hall : ∀ n < 128, ∀ m : Bool,
      shortLength (UInt8.ofNat (128 * m.toNat + n)) = n ∧
        isMasked (UInt8.ofNat (128 * m.toNat + n)) = m := by decide
  exact hall len7 h masked

/-- One byte shifted in from the right. -/
theorem shift_or (len : ℕ) (b : UInt8) : len <<< 8 ||| b.toNat = len * 256 + b.toNat := by
  rw [← Nat.shiftLeft_add_eq_or_of_lt b.toNat_lt, Nat.shiftLeft_eq]

/-- A number in network byte order has its number of bytes. -/
theorem length_bigEndian (n len : ℕ) : (bigEndian n len).length = n := by
  induction n generalizing len with
  | zero => rfl
  | succ n ih => rw [bigEndian, List.length_append, ih, List.length_singleton]

/-- Shifting the bytes in one after the other gives the number back. -/
theorem foldl_bigEndian (n : ℕ) {len : ℕ} (h : len < 256 ^ n) :
    (bigEndian n len).foldl (fun len b => len <<< 8 ||| b.toNat) 0 = len := by
  induction n generalizing len with
  | zero =>
    rw [Nat.pow_zero] at h
    rw [bigEndian, List.foldl_nil]
    omega
  | succ n ih =>
    rw [Nat.pow_succ] at h
    have hbyte : (UInt8.ofNat (len % 256)).toNat = len % 256 :=
      UInt8.toNat_ofNat_of_lt' (Nat.mod_lt _ (by decide))
    rw [bigEndian, List.foldl_append, ih (Nat.div_lt_of_lt_mul (by omega)), List.foldl_cons,
      List.foldl_nil, shift_or, hbyte]
    omega

/-- The length bytes of a header announce the length and the mask. -/
theorem lengthBytes_announce (masked : Bool) {len : ℕ} (hlen : len < 2 ^ 64) :
    ∃ h1 ext, lengthBytes masked len = h1 :: ext ∧ isMasked h1 = masked ∧
      ext.length = extendedBytes (shortLength h1) ∧ declaredLength (shortLength h1) ext = len := by
  unfold lengthBytes
  dsimp only
  split_ifs with hshort hmiddle
  · obtain ⟨hbits, hmask⟩ := header_bits masked (show len < 128 by omega)
    refine ⟨_, _, rfl, hmask, ?_, ?_⟩
    · rw [hbits, extendedBytes, if_neg (by omega), if_neg (by omega)]
      rfl
    · rw [hbits, declaredLength, if_neg (by omega), if_neg (by omega)]
  · obtain ⟨hbits, hmask⟩ := header_bits masked (show 126 < 128 by decide)
    have hfold := foldl_bigEndian 2 (show len < 256 ^ 2 by omega)
    refine ⟨_, _, rfl, hmask, ?_, ?_⟩
    · rw [hbits, length_bigEndian]
      rfl
    · rw [hbits, declaredLength, if_pos rfl]
      simpa [bigEndian] using hfold
  · obtain ⟨hbits, hmask⟩ := header_bits masked (show 127 < 128 by decide)
    refine ⟨_, _, rfl, hmask, ?_, ?_⟩
    · rw [hbits, length_bigEndian]
      rfl
    · rw [hbits, declaredLength, if_neg (by decide), if_pos rfl]
      exact foldl_bigEndian 8 hlen

/-- A byte of a length field that the source writes. -/
theorem shiftedByte (len shift : ℕ) :
    UInt8.ofNat (len >>> shift &&& 0xFF) = UInt8.ofNat (len / 2 ^ shift % 256) := by
  rw [Nat.shiftRight_eq_div_pow]
  exact congrArg UInt8.ofNat (Nat.and_two_pow_sub_one_eq_mod _ 8)

/-- The source writes the header of the protocol for a text frame. -/
theorem textHeader_eq (len : ℕ) : textHeader len = 0x81 :: lengthBytes false len := by
  have hlow := shiftedByte len 0
  rw [Nat.shiftRight_zero, Nat.pow_zero, Nat.div_one] at hlow
  have hrange : List.range 8 = [0, 1, 2, 3, 4, 5, 6, 7] := by decide
  unfold lengthBytes textHeader
  dsimp only
  split_ifs
  · simp
  · rw [shiftedByte, hlow]
    rfl
  · simp only [hrange, List.map_cons, List.map_nil, shiftedByte, bigEndian, Nat.div_div_eq_div_mul]
    norm_num
    rfl

/-- A frame that is complete on the stream is received. -/
theorem wsRecvFrame_complete {segs : Segments UInt8} {h0 h1 : UInt8} {ext mask payload tail : Bytes}
    (hstream : segs.flatten = [h0, h1] ++ (ext ++ (mask ++ (payload ++ tail))))
    (hext : ext.length = extendedBytes (shortLength h1))
    (hmask : mask.length = if isMasked h1 = true then 4 else 0)
    (hlen : declaredLength (shortLength h1) ext = payload.length)
    (hmax : payload.length ≤ wsMaxPayload) :
    ∃ left, wsRecvFrame segs [] =
        (some (h0 &&& 0x0F, if isMasked h1 = true then applyMask mask payload else payload), left, []) ∧
      left.flatten = tail := by
  obtain ⟨segs1, hrecv1, hleft1⟩ := recvAll_of_flatten (n := 2) hstream rfl
  obtain ⟨segs2, hrecv2, hleft2⟩ := recvAll_of_flatten hleft1 hext
  have hmask' : ∃ mask' segs3,
      (if isMasked h1 = true then recvAll 4 segs2 else (some [0, 0, 0, 0], segs2)) =
        (some mask', segs3) ∧ segs3.flatten = payload ++ tail ∧
      (isMasked h1 = true → mask' = mask) := by
    by_cases hm : isMasked h1 = true
    · rw [if_pos hm] at hmask ⊢
      obtain ⟨segs3, hrecv3, hleft3⟩ := recvAll_of_flatten hleft2 hmask
      exact ⟨mask, segs3, hrecv3, hleft3, fun _ => rfl⟩
    · rw [if_neg hm] at hmask ⊢
      rw [List.eq_nil_of_length_eq_zero hmask] at hleft2
      exact ⟨_, segs2, rfl, hleft2, fun h => absurd h hm⟩
  obtain ⟨mask', segs3, hrecv3, hleft3, hsame⟩ := hmask'
  obtain ⟨segs4, hrecv4, hleft4⟩ := recvAll_of_flatten hleft3 rfl
  unfold wsRecvFrame
  rw [hrecv1]
  simp only [List.getD_cons_zero, List.getD_cons_succ, hrecv2, hlen, if_neg (Nat.not_lt.mpr hmax),
    hrecv3, allocate, Bool.true_eq_false, if_false, hrecv4]
  have hpayload : (if isMasked h1 = true then applyMask mask' payload else payload) =
      if isMasked h1 = true then applyMask mask payload else payload := by
    split_ifs with hm
    · rw [hsame hm]
    · rfl
  by_cases hpos : 0 < payload.length
  · rw [if_pos hpos, hpayload]
    exact ⟨segs4, rfl, hleft4⟩
  · have hnil : payload = [] := List.eq_nil_of_length_eq_zero (by omega)
    subst hnil
    refine ⟨segs3, ?_, hleft3⟩
    rw [if_neg hpos]
    simp [applyMask]

/-- A frame that announces too much is refused behind its length, before
anything is allocated. -/
theorem wsRecvFrame_oversized {segs : Segments UInt8} {h0 h1 : UInt8} {ext tail : Bytes}
    (hstream : segs.flatten = [h0, h1] ++ (ext ++ tail))
    (hext : ext.length = extendedBytes (shortLength h1))
    (hmax : wsMaxPayload < declaredLength (shortLength h1) ext) (heap : Heap) :
    ∃ left, wsRecvFrame segs heap = (none, left, heap) ∧ left.flatten = tail := by
  obtain ⟨segs1, hrecv1, hleft1⟩ := recvAll_of_flatten (n := 2) hstream rfl
  obtain ⟨segs2, hrecv2, hleft2⟩ := recvAll_of_flatten hleft1 hext
  refine ⟨segs2, ?_, hleft2⟩
  unfold wsRecvFrame
  rw [hrecv1]
  simp only [List.getD_cons_zero, List.getD_cons_succ, hrecv2, if_pos hmax]

/-- A frame that is received was complete on the stream. -/
theorem wsRecvFrame_eq_some {segs left : Segments UInt8} {heap heap' : Heap} {frame : UInt8 × Bytes}
    (h : wsRecvFrame segs heap = (some frame, left, heap')) :
    ∃ h0 h1 ext mask payload, segs.flatten = [h0, h1] ++ (ext ++ (mask ++ (payload ++ left.flatten))) ∧
      ext.length = extendedBytes (shortLength h1) ∧
      mask.length = (if isMasked h1 = true then 4 else 0) ∧
      declaredLength (shortLength h1) ext = payload.length := by
  unfold wsRecvFrame at h
  split at h
  · cases h
  · rename_i h2 segs1 hrecv1
    obtain ⟨hstream1, hlen1⟩ := recvAll_eq_some hrecv1
    obtain ⟨h0, h1, rfl⟩ := List.length_eq_two.mp hlen1
    simp only [List.getD_cons_zero, List.getD_cons_succ] at h
    split at h
    · cases h
    · rename_i ext segs2 hrecv2
      obtain ⟨hstream2, hlen2⟩ := recvAll_eq_some hrecv2
      by_cases hmax : wsMaxPayload < declaredLength (shortLength h1) ext
      · rw [if_pos hmax] at h
        cases h
      rw [if_neg hmax] at h
      split at h
      · cases h
      · rename_i mask segs3 hrecv3
        have hmask : ∃ key, segs2.flatten = key ++ segs3.flatten ∧
            key.length = if isMasked h1 = true then 4 else 0 := by
          split_ifs at hrecv3 with hm
          · rw [if_pos hm]
            exact ⟨mask, recvAll_eq_some hrecv3⟩
          · cases hrecv3
            rw [if_neg hm]
            exact ⟨[], rfl, rfl⟩
        obtain ⟨key, hstream3, hlen3⟩ := hmask
        by_cases hgranted : (allocate heap).1 = false
        · rw [if_pos hgranted] at h
          cases h
        rw [if_neg hgranted] at h
        by_cases hpos : 0 < declaredLength (shortLength h1) ext
        · rw [if_pos hpos] at h
          split at h
          · cases h
          · rename_i payload segs4 hrecv4
            obtain ⟨hstream4, hlen4⟩ := recvAll_eq_some hrecv4
            cases h
            refine ⟨h0, h1, ext, key, payload, ?_, hlen2, hlen3, hlen4.symm⟩
            rw [hstream1, hstream2, hstream3, hstream4]
        · rw [if_neg hpos] at h
          cases h
          refine ⟨h0, h1, ext, key, [], ?_, hlen2, hlen3, by rw [List.length_nil]; omega⟩
          rw [hstream1, hstream2, hstream3]
          rfl

/-- Bytes of the header that a stream starts with: two and the extended length. -/
def headerSize (s : Bytes) : ℕ := 2 + extendedBytes (shortLength (s.getD 1 0))

/-- The payload length that a stream announces. -/
def announcedLength (s : Bytes) : ℕ :=
  declaredLength (shortLength (s.getD 1 0))
    ((s.drop 2).take (extendedBytes (shortLength (s.getD 1 0))))

/-- Bytes of the frame that a stream starts with. -/
def frameSize (s : Bytes) : ℕ :=
  headerSize s + (if isMasked (s.getD 1 0) = true then 4 else 0) + announcedLength s

/-- The header of a stream that starts with one. -/
theorem announcedLength_append (h0 : UInt8) {h1 : UInt8} {ext : Bytes} (tail : Bytes)
    (hext : ext.length = extendedBytes (shortLength h1)) :
    headerSize ([h0, h1] ++ (ext ++ tail)) = 2 + ext.length ∧
      announcedLength ([h0, h1] ++ (ext ++ tail)) = declaredLength (shortLength h1) ext := by
  have hbyte : ([h0, h1] ++ (ext ++ tail)).getD 1 0 = h1 := rfl
  have hdrop : ([h0, h1] ++ (ext ++ tail)).drop 2 = ext ++ tail := rfl
  rw [headerSize, announcedLength, hbyte, hdrop, ← hext, List.take_left]
  exact ⟨rfl, rfl⟩

/-- A stream that ends inside its first frame gives no frame. -/
theorem wsRecvFrame_truncated {segs : Segments UInt8} (heap : Heap)
    (hshort : segs.flatten.length < frameSize segs.flatten) :
    (wsRecvFrame segs heap).1 = none := by
  cases hcall : wsRecvFrame segs heap with
  | mk result rest =>
    cases result with
    | none => rfl
    | some frame =>
      obtain ⟨left, heap'⟩ := rest
      obtain ⟨h0, h1, ext, mask, payload, hstream, hext, hmask, hlen⟩ := wsRecvFrame_eq_some hcall
      obtain ⟨hheader, hannounced⟩ := announcedLength_append h0
        (mask ++ (payload ++ left.flatten)) hext
      have hbyte : segs.flatten.getD 1 0 = h1 := by
        rw [hstream]
        rfl
      rw [frameSize, hbyte, ← hmask, hstream, hheader, hannounced, hlen] at hshort
      simp only [List.length_append, List.length_cons, List.length_nil] at hshort
      omega

/-- An encoded frame is received as its content. -/
theorem wsRecvFrame_encode (f : PeerFrame) {segs : Segments UInt8} {tail : Bytes}
    (hstream : segs.flatten = f.encode ++ tail) :
    ∃ left, wsRecvFrame segs [] = (some f.content, left, []) ∧ left.flatten = tail := by
  have hmax : wsMaxPayload < 2 ^ 64 := by decide
  obtain ⟨h1, ext, hbytes, hmasked, hext, hlen⟩ := lengthBytes_announce f.maskKey.isSome
    (lt_of_le_of_lt f.payload_le hmax)
  rw [PeerFrame.encode, hbytes] at hstream
  have hopcode := opcode_of_header f.opcode_lt
  cases hkey : f.maskKey with
  | none =>
    rw [hkey] at hstream hmasked
    have hstream' : segs.flatten =
        [UInt8.ofNat (128 + f.opcode.toNat), h1] ++ (ext ++ ([] ++ (f.payload ++ tail))) := by
      simpa using hstream
    obtain ⟨left, hcall, hleft⟩ := wsRecvFrame_complete hstream' hext (by simp [hmasked]) hlen
      f.payload_le
    refine ⟨left, ?_, hleft⟩
    rw [hcall, hopcode, hmasked]
    rfl
  | some key =>
    rw [hkey] at hstream hmasked
    have hmasklen : (maskOctets key f.payload).length = f.payload.length := by simp [maskOctets]
    have hstream' : segs.flatten = [UInt8.ofNat (128 + f.opcode.toNat), h1] ++
        (ext ++ (key ++ (maskOctets key f.payload ++ tail))) := by
      simpa using hstream
    obtain ⟨left, hcall, hleft⟩ := wsRecvFrame_complete hstream' hext
      (by simp [hmasked, f.maskKey_length key hkey]) (hlen.trans hmasklen.symm)
      (hmasklen.le.trans f.payload_le)
    refine ⟨left, ?_, hleft⟩
    rw [hcall, hopcode, hmasked, Option.isSome_some, if_pos rfl, applyMask_maskOctets]
    rfl

/-- The frame that ws_send_text writes. -/
def textFrame (msg : Bytes) (hmsg : msg.length ≤ wsMaxPayload) : PeerFrame where
  opcode := 1
  opcode_lt := by decide
  maskKey := none
  maskKey_length := nofun
  payload := msg
  payload_le := hmsg

/-- A sent text is an encoded frame. -/
theorem wsSendText_flatten (msg : Bytes) (hmsg : msg.length ≤ wsMaxPayload) :
    (wsSendText msg).flatten = (textFrame msg hmsg).encode := by
  rw [wsSendText, List.flatten_cons, textHeader_eq]
  change _ = 0x81 :: lengthBytes false msg.length ++ msg
  cases msg with
  | nil => rfl
  | cons b rest => simp

/-- Encoded frames are received as their contents. -/
theorem wsRecvFrames_encode (frames : List PeerFrame) {segs : Segments UInt8} {tail : Bytes}
    (hstream : segs.flatten = frames.flatMap PeerFrame.encode ++ tail) :
    ∃ left, wsRecvFrames frames.length segs = (frames.map fun f => some f.content, left) ∧
      left.flatten = tail := by
  induction frames generalizing segs with
  | nil => exact ⟨segs, rfl, hstream⟩
  | cons f frames ih =>
    rw [List.flatMap_cons, List.append_assoc] at hstream
    obtain ⟨left1, hcall, hleft1⟩ := wsRecvFrame_encode f hstream
    obtain ⟨left, hcalls, hleft⟩ := ih hleft1
    refine ⟨left, ?_, hleft⟩
    rw [List.length_cons, wsRecvFrames, hcall]
    dsimp only
    rw [hcalls]
    rfl

/-- For every list of frames and every way their bytes arrive in segments,
successive calls return exactly their contents and consume exactly their
bytes, and so for a sent text. On every stream, a call that finds a larger
length announced fails behind the header without allocating, and a call whose
frame the stream does not complete fails. -/
theorem frames_round_trip :
    (∀ (frames : List PeerFrame) (segs : Segments UInt8) (tail : Bytes),
        segs.flatten = (frames.map PeerFrame.encode).flatten ++ tail →
          ∃ left, wsRecvFrames frames.length segs = (frames.map fun f => some f.content, left) ∧
            left.flatten = tail) ∧
      (∀ (msg : Bytes) (segs : Segments UInt8) (tail : Bytes), msg.length ≤ wsMaxPayload →
        segs.flatten = (wsSendText msg).flatten ++ tail →
          ∃ left, wsRecvFrame segs [] = (some (1, msg), left, []) ∧ left.flatten = tail) ∧
      (∀ (segs : Segments UInt8) (heap : Heap), headerSize segs.flatten ≤ segs.flatten.length →
        wsMaxPayload < announcedLength segs.flatten →
          ∃ left, wsRecvFrame segs heap = (none, left, heap) ∧
            left.flatten = segs.flatten.drop (headerSize segs.flatten)) ∧
      ∀ (segs : Segments UInt8) (heap : Heap), segs.flatten.length < frameSize segs.flatten →
        (wsRecvFrame segs heap).1 = none := by
  refine ⟨?_, ?_, ?_, fun segs heap => wsRecvFrame_truncated heap⟩
  · exact fun frames segs tail hstream => wsRecvFrames_encode frames hstream
  · intro msg segs tail hmsg hstream
    rw [wsSendText_flatten msg hmsg] at hstream
    exact wsRecvFrame_encode (textFrame msg hmsg) hstream
  · intro segs heap hheader hmax
    -- cut the stream at its header
    have hcut : ∃ h0 h1 ext tail, segs.flatten = [h0, h1] ++ (ext ++ tail) ∧
        ext.length = extendedBytes (shortLength h1) := by
      unfold headerSize at hheader
      match hs : segs.flatten with
      | [] =>
        rw [hs, List.length_nil] at hheader
        omega
      | [_] =>
        rw [hs, List.length_singleton] at hheader
        omega
      | h0 :: h1 :: rest =>
        rw [hs] at hheader
        have hlen : extendedBytes (shortLength h1) ≤ rest.length := by
          simp only [List.getD_cons_succ, List.getD_cons_zero, List.length_cons] at hheader
          omega
        exact ⟨h0, h1, rest.take _, rest.drop _, by rw [List.take_append_drop]; rfl,
          List.length_take_of_le hlen⟩
    obtain ⟨h0, h1, ext, tail, hstream, hext⟩ := hcut
    obtain ⟨hsize, hannounced⟩ := announcedLength_append h0 tail hext
    rw [hstream, hannounced] at hmax
    obtain ⟨left, hcall, hleft⟩ := wsRecvFrame_oversized hstream hext hmax heap
    refine ⟨left, hcall, ?_⟩
    rw [hleft, hstream, hsize, List.drop_append, List.drop_append]
    simp

/-- A masked ping with payload "hi". -/
def maskedPing : PeerFrame where
  opcode := 9
  opcode_lt := by decide
  maskKey := some [1, 2, 3, 4]
  maskKey_length := by simp
  payload := lit "hi"
  payload_le := by decide

/-- A ping in three pieces, a text, a frame that is too large and one that is cut off. -/
theorem frames_round_trip_maskedPing :
    (∃ left, wsRecvFrames 1 [[0x89], [0x82, 1, 2, 3], [4, 0x69, 0x6b]] =
        ([some (9, lit "hi")], left) ∧ left.flatten = []) ∧
      (∃ left, wsRecvFrame [[0x81], [2, 104, 105, 7]] [] = (some (1, lit "hi"), left, []) ∧
        left.flatten = [7]) ∧
      (∃ left, wsRecvFrame [[0x81, 127, 0, 0, 0, 0, 1, 0, 0, 0, 5]] [] = (none, left, []) ∧
        left.flatten = [5]) ∧
      (wsRecvFrame [[0x81, 5, 104]] []).1 = none := by
  obtain ⟨hframes, htext, hlarge, hshort⟩ := frames_round_trip
  refine ⟨hframes [maskedPing] _ [] (by decide), htext (lit "hi") _ [7] (by decide) (by decide),
    hlarge _ [] (by decide) (by decide), hshort _ [] (by decide)⟩

end TelemetryPlatform.WsReceive
