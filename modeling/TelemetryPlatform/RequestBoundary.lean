import TelemetryPlatform.AcceptKey
import TelemetryPlatform.WsReceive

/-!
# What is sent behind the handshake request

The request is received in segments, and what a segment brings behind the end of
the header stays in the request buffer. The frame loop goes on with the rest of
the connection, so it reads everything that a client has sent behind its header
exactly where the header ends with a segment, or fills the buffer.
-/

namespace TelemetryPlatform.RequestBoundary

open AcceptKey CStrings HttpHandshake ReceivedSegments WsFrames WsReceive

/-- A segment ends behind that many bytes. -/
def EndsSegment (n : ℕ) (segs : Segments UInt8) : Prop :=
  ∃ front back, segs = front ++ back ∧ front.flatten.length = n

/-- The handshake reads what the request takes from the connection. -/
theorem wsHandshake_snd (segs : Segments UInt8) :
    (wsHandshake segs).2 = (readHttpRequest httpMax [] segs).2 := by
  rw [wsHandshake]
  cases hread : readHttpRequest httpMax [] segs with
  | mk request left =>
    cases request with
    | none => rfl
    | some buf =>
      dsimp only
      split_ifs
      · rfl
      · split
        · rfl
        · split_ifs
          · rfl
          · split
            · rfl
            · split_ifs <;> rfl

/-- The last segment of a received request: before it the header was not
complete, and as much of it as fits is taken. -/
theorem readHttpRequest_last {cap : ℕ} {segs left : Segments UInt8} {buf request : Bytes}
    (hbuf : ¬ Found buf) (h : readHttpRequest cap buf segs = (some request, left)) :
    ∃ earlier seg rest, segs = earlier ++ seg :: rest ∧ ¬ Found (buf ++ earlier.flatten) ∧
      request = buf ++ earlier.flatten ++ seg.take (cap - (buf ++ earlier.flatten).length - 1) ∧
      left = seg.drop (cap - (buf ++ earlier.flatten).length - 1) :: rest := by
  induction segs generalizing buf with
  | nil => cases h
  | cons seg rest ih =>
    rw [readHttpRequest] at h
    dsimp only at h
    split_ifs at h with hspace hempty hfound hfull
    · obtain ⟨earlier, seg', rest', rfl, hnot, hrequest, hleft⟩ := ih hbuf h
      refine ⟨seg :: earlier, seg', rest', rfl, ?_⟩
      rw [List.flatten_cons, hempty, List.nil_append]
      exact ⟨hnot, hrequest, hleft⟩
    · cases h
      refine ⟨[], seg, rest, rfl, ?_⟩
      rw [List.flatten_nil, List.append_nil]
      exact ⟨hbuf, rfl, rfl⟩
    · cases h
    · have hwhole : seg.take (cap - buf.length - 1) = seg := by
        rw [List.length_append, List.length_take] at hfull
        exact List.take_of_length_le (by omega)
      rw [hwhole] at h hfound
      obtain ⟨earlier, seg', rest', rfl, hnot, hrequest, hleft⟩ :=
        ih (fun hinfix => hfound ((strstr_isSome_iff _ _).mpr hinfix)) h
      refine ⟨seg :: earlier, seg', rest', rfl, ?_⟩
      rw [List.flatten_cons, ← List.append_assoc]
      exact ⟨hnot, hrequest, hleft⟩
    · cases h

/-- A text that starts with a header without a zero byte holds the header. -/
theorem found_of_block {stream block text : Bytes} (hblock : headerBlock stream = some block)
    (hzero : 0 ∉ block) (htext : block <+: text) : Found text := by
  have hall : ∀ b ∈ block, decide (b ≠ 0) = true :=
    fun b hb => decide_eq_true fun h => hzero (h ▸ hb)
  have hfound : Found block := by
    rw [Found, bufferText_bytes, List.takeWhile_eq_self_iff.mpr hall]
    exact (headerBlock_eq_some hblock).2.isInfix
  exact hfound.mono htext

/-- For a header that fits and has no zero byte, the request starts with the
header, and no byte behind the header is taken exactly where the header ends
with a segment or fills the buffer. -/
theorem request_eq_block_iff {segs : Segments UInt8} {block : Bytes}
    (hblock : headerBlock segs.flatten = some block) (hlen : block.length ≤ 8191)
    (hzero : 0 ∉ block) :
    ∃ request left, readHttpRequest httpMax [] segs = (some request, left) ∧
      request ++ left.flatten = segs.flatten ∧ block <+: request ∧
      (request = block ↔ EndsSegment block.length segs ∨ block.length = 8191) := by
  obtain ⟨request, hrequest⟩ := Option.ne_none_iff_exists'.mp (request_of_header hblock hlen hzero)
  obtain ⟨block', hblock', hfront, -⟩ := header_of_request hrequest
  obtain rfl : block' = block := Option.some.inj (hblock'.symm.trans hblock)
  have hstarts : block' <+: request := by
    refine hfront.trans ?_
    rw [bufferText_bytes]
    exact List.takeWhile_prefix _
  have hcap := (readHttpRequest_some hrequest).2.1
  obtain ⟨left, hread⟩ : ∃ left, readHttpRequest httpMax [] segs = (some request, left) :=
    ⟨_, Prod.ext hrequest rfl⟩
  have hempty : ¬ Found [] := fun h => absurd (List.IsInfix.length_le h) (by decide)
  obtain ⟨earlier, seg, rest, hsegs, hnot, htaken, hleft⟩ := readHttpRequest_last hempty hread
  rw [List.nil_append] at hnot htaken hleft
  have hall : request ++ left.flatten = segs.flatten := by
    rw [htaken, hleft, hsegs, List.flatten_append, List.flatten_cons, List.flatten_cons,
      List.append_assoc, ← List.append_assoc (seg.take _), List.take_append_drop]
  refine ⟨request, left, hread, hall, hstarts, ?_⟩
  constructor
  · intro heq
    by_cases hfits : seg.length ≤ httpMax - earlier.flatten.length - 1
    · refine .inl ⟨earlier ++ [seg], rest, by rw [hsegs, List.append_assoc]; rfl, ?_⟩
      rw [List.take_of_length_le hfits] at htaken
      rw [← heq, htaken, List.flatten_append, List.flatten_singleton]
    · have hsize := congrArg List.length htaken
      rw [heq, List.length_append, List.length_take] at hsize
      change block'.length = earlier.flatten.length +
        min (8192 - earlier.flatten.length - 1) seg.length at hsize
      change ¬ seg.length ≤ 8192 - earlier.flatten.length - 1 at hfits
      exact .inr (by omega)
  · intro hends
    refine (hstarts.eq_of_length_le ?_).symm
    rcases hends with ⟨front, back, hsplit, hfrontlen⟩ | hfull
    · -- the segments before the last one do not hold the header
      have hshort : earlier.flatten.length < block'.length := by
        by_contra hge
        refine hnot (found_of_block hblock hzero ?_)
        refine List.prefix_of_prefix_length_le (headerBlock_eq_some hblock).1 ?_ (not_lt.mp hge)
        rw [hsegs, List.flatten_append]
        exact List.prefix_append _ _
      have htakes : request.length ≤ (earlier ++ [seg]).flatten.length := by
        rw [htaken, List.flatten_append, List.flatten_singleton, List.length_append,
          List.length_append, List.length_take]
        omega
      refine htakes.trans ?_
      rw [← hfrontlen]
      rw [hsplit] at hsegs
      rcases List.append_eq_append_iff.mp hsegs with ⟨more, hmore, -⟩ | ⟨more, hmore, hback⟩
      · rw [hmore, List.flatten_append, List.length_append] at hshort
        omega
      · cases more with
        | nil =>
          rw [hmore, List.append_nil] at hfrontlen
          omega
        | cons seg' more =>
          obtain ⟨rfl, -⟩ := List.cons.inj hback
          have hsize : front.flatten.length =
              (earlier ++ [seg]).flatten.length + more.flatten.length := by
            rw [hmore, List.append_cons, List.flatten_append, List.length_append]
          omega
    · change request.length < 8192 at hcap
      omega

/-- For every way in which a request and the frames that a client sends right
behind its header arrive in segments: the request takes the header and nothing
but a front of the frames, and the frame loop finds all of the frames exactly
where the header ends with a segment, or fills the buffer, or there are none.
It then receives them one after the other. -/
theorem early_frames_kept_iff {segs : Segments UInt8} {block : Bytes} {frames : List PeerFrame}
    (hstream : segs.flatten = block ++ frames.flatMap PeerFrame.encode)
    (hblock : headerBlock segs.flatten = some block) (hlen : block.length ≤ 8191)
    (hzero : 0 ∉ block) :
    (∃ taken, readHttpRequest httpMax [] segs = (some (block ++ taken), (wsHandshake segs).2) ∧
      taken ++ (wsHandshake segs).2.flatten = frames.flatMap PeerFrame.encode) ∧
    ((wsHandshake segs).2.flatten = frames.flatMap PeerFrame.encode ↔
      EndsSegment block.length segs ∨ block.length = 8191) ∧
    ((wsHandshake segs).2.flatten = frames.flatMap PeerFrame.encode →
      (wsRecvFrames frames.length (wsHandshake segs).2).1 =
        frames.map fun f => some f.content) := by
  obtain ⟨request, left, hread, hall, ⟨taken, rfl⟩, hiff⟩ := request_eq_block_iff hblock hlen hzero
  have hleft : (wsHandshake segs).2 = left := by rw [wsHandshake_snd, hread]
  rw [hstream, List.append_assoc] at hall
  have hrest := List.append_cancel_left hall
  rw [hleft]
  refine ⟨⟨taken, hread, hrest⟩, ?_, fun hkept => ?_⟩
  · rw [← hiff, List.append_right_eq_self, ← hrest]
    constructor
    · intro h
      have hsize := congrArg List.length h
      rw [List.length_append] at hsize
      exact List.eq_nil_of_length_eq_zero (by omega)
    · rintro rfl
      rfl
  · obtain ⟨left', hcalls, -⟩ := wsRecvFrames_encode frames
      (hkept.trans (List.append_nil _).symm)
    rw [hcalls]

/-- A request to be answered. -/
def plainRequest : Bytes := lit "GET / HTTP/1.1\r\nSec-WebSocket-Key: abc\r\n\r\n"

/-- A ping behind the header is kept in a segment of its own and lost in the
segment of the header. -/
theorem early_frames_kept_iff_ping :
    (wsHandshake [plainRequest, maskedPing.encode]).2.flatten =
        [maskedPing].flatMap PeerFrame.encode ∧
      (wsHandshake [plainRequest ++ maskedPing.encode]).2.flatten ≠
        [maskedPing].flatMap PeerFrame.encode := by
  have hlen : plainRequest.length ≤ 8191 := by decide
  have hzero : 0 ∉ plainRequest := by decide
  have hblock : headerBlock (plainRequest ++ [maskedPing].flatMap PeerFrame.encode) =
      some plainRequest := by decide +kernel
  have happart : [plainRequest, maskedPing.encode].flatten =
      plainRequest ++ [maskedPing].flatMap PeerFrame.encode := by decide
  have htogether : [plainRequest ++ maskedPing.encode].flatten =
      plainRequest ++ [maskedPing].flatMap PeerFrame.encode := by decide
  constructor
  · refine (early_frames_kept_iff happart (by rw [happart]; exact hblock) hlen hzero).2.1.mpr ?_
    exact .inl ⟨[plainRequest], [maskedPing.encode], rfl, by decide⟩
  · intro hkept
    have hiff := (early_frames_kept_iff htogether (by rw [htogether]; exact hblock) hlen hzero).2.1
    rcases hiff.mp hkept with ⟨front, back, hsplit, hends⟩ | hfull
    · rcases List.append_eq_singleton_iff.mp hsplit.symm with ⟨rfl, -⟩ | ⟨rfl, -⟩
      · exact absurd hends (by decide)
      · exact absurd hends (by decide)
    · exact absurd hfull (by decide)

end TelemetryPlatform.RequestBoundary
