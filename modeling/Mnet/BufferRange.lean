/-
  Mnet.BufferRange

  The array of `mnet_handle_client` stays in its range, and behaves as the list
  of the bytes received.

  `RequestBuffer.Sound` is what every pass keeps: while something is in use, a
  NUL stands right behind it.  Every string function stops there, whatever is
  left in the array from earlier requests; so offsets found in the array are
  offsets in the bytes received, and no difference wraps around.
-/

import Mnet.HeadLimit
import Mnet.RequestBuffer
import Mnet.SameHead

namespace Mnet

-- ============================================================================
-- Stores
-- ============================================================================

theorem length_storeAt {mem bytes : Bytes} {off : Nat} (h : off + bytes.length ≤ mem.length) :
    (storeAt mem off bytes).length = mem.length := by
  simp only [storeAt, List.length_append, List.length_take, List.length_drop]
  omega

theorem take_storeAt {mem : Bytes} {off : Nat} (bytes : Bytes) (h : off ≤ mem.length) :
    (storeAt mem off bytes).take (off + bytes.length) = mem.take off ++ bytes := by
  have hlen : (mem.take off ++ bytes).length = off + bytes.length := by
    rw [List.length_append, List.length_take, Nat.min_eq_left h]
  rw [storeAt, ← hlen, List.take_left']
  rfl

/-- What stands before the bytes stored is kept. -/
theorem take_storeAt_of_le {mem : Bytes} {off n : Nat} (bytes : Bytes) (hn : n ≤ off)
    (h : off ≤ mem.length) : (storeAt mem off bytes).take n = mem.take n := by
  have hlen : (mem.take off).length = off := List.length_take_of_le h
  rw [storeAt, List.append_assoc, List.take_append_of_le_length (by omega), List.take_take,
    Nat.min_eq_left hn]

theorem getElem?_storeAt_singleton {mem : Bytes} {off : Nat} (b : Byte) (h : off ≤ mem.length) :
    (storeAt mem off [b])[off]? = some b := by
  have hlen : (mem.take off).length = off := List.length_take_of_le h
  rw [storeAt, List.append_assoc, List.getElem?_append_right (by omega), hlen, Nat.sub_self]
  rfl

-- ============================================================================
-- The array between the passes
-- ============================================================================

namespace RequestBuffer

/-- What holds of the array whenever the loop looks at it. -/
structure Sound (buf : RequestBuffer) : Prop where
  size : buf.bytes.length = MNET_REQUEST_BUFFER_SIZE
  room : buf.used ≤ MNET_REQUEST_BUFFER_SIZE - 1
  terminated : 0 < buf.used → buf.bytes[buf.used]? = some 0

theorem Sound.used_lt {buf : RequestBuffer} (h : buf.Sound) : buf.used < buf.bytes.length := by
  have hsize : MNET_REQUEST_BUFFER_SIZE = 8192 := rfl
  have hroom := h.room
  rw [h.size]
  omega

theorem Sound.length_filled {buf : RequestBuffer} (h : buf.Sound) :
    buf.filled.length = buf.used := List.length_take_of_le (Nat.le_of_lt h.used_lt)

theorem Sound.filled_eq_nil_iff {buf : RequestBuffer} (h : buf.Sound) :
    buf.filled = [] ↔ buf.used = 0 := by
  rw [← List.length_eq_zero_iff, h.length_filled]

/-- The bytes received, a NUL, and whatever the array holds behind it. -/
theorem Sound.bytes_eq {buf : RequestBuffer} (h : buf.Sound) (hused : 0 < buf.used) :
    buf.bytes = buf.filled ++ 0 :: buf.bytes.drop (buf.used + 1) := by
  have hnul := h.terminated hused
  rw [List.getElem?_eq_getElem h.used_lt, Option.some.injEq] at hnul
  rw [filled, ← hnul, ← List.drop_eq_getElem_cons h.used_lt, List.take_append_drop]

theorem Sound.receive {buf : RequestBuffer} (h : buf.Sound) {got : Bytes}
    (hgot : buf.used + got.length ≤ MNET_REQUEST_BUFFER_SIZE - 1) :
    (buf.receive got).Sound ∧ (buf.receive got).filled = buf.filled ++ got := by
  have hsize : MNET_REQUEST_BUFFER_SIZE = 8192 := rfl
  have hlen := h.size
  have hle : buf.used ≤ buf.bytes.length := Nat.le_of_lt h.used_lt
  have hstored : (storeAt buf.bytes buf.used got).length = buf.bytes.length :=
    length_storeAt (by omega)
  have hnul : ([0] : Bytes).length = 1 := rfl
  refine ⟨{ size := ?_, room := hgot, terminated := fun _ => ?_ }, ?_⟩
  · show (storeAt (storeAt buf.bytes buf.used got) (buf.used + got.length) [0]).length = _
    rw [length_storeAt (by omega), hstored, hlen]
  · exact getElem?_storeAt_singleton 0 (by omega)
  · show (storeAt (storeAt buf.bytes buf.used got) (buf.used + got.length) [0]).take
      (buf.used + got.length) = buf.filled ++ got
    rw [take_storeAt_of_le _ (Nat.le_refl _) (by omega), take_storeAt got hle]
    rfl

end RequestBuffer

-- ============================================================================
-- The string functions stop at the NUL
-- ============================================================================

theorem cstr_append_nul (a b : Bytes) : cstr (a ++ 0 :: b) = cstr a := by
  have hnul : cstr (0 :: b) = [] := rfl
  have hsplit : cstr (a ++ 0 :: b) =
      if (cstr a).length = a.length then a ++ cstr (0 :: b) else cstr a := List.takeWhile_append
  rw [hsplit, hnul, List.append_nil]
  split
  · next hlen => exact ((cstr_isPrefix a).eq_of_length hlen).symm
  · rfl

section Sound

variable {buf : RequestBuffer}

theorem RequestBuffer.Sound.cstr_bytes (h : buf.Sound) (hused : 0 < buf.used) :
    cstr buf.bytes = cstr buf.filled := by
  rw [h.bytes_eq hused, cstr_append_nul]

theorem RequestBuffer.Sound.strstr_bytes (h : buf.Sound) (hused : 0 < buf.used) (needle : Bytes) :
    strstr buf.bytes needle = strstr buf.filled needle := by
  rw [strstr, strstr, h.cstr_bytes hused]

theorem RequestBuffer.Sound.hasBlankLine_bytes (h : buf.Sound) (hused : 0 < buf.used) :
    hasBlankLine buf.bytes = hasBlankLine buf.filled := by
  rw [hasBlankLine, hasBlankLine, h.strstr_bytes hused, h.strstr_bytes hused]

theorem RequestBuffer.Sound.endOfHeaders_bytes (h : buf.Sound) (hused : 0 < buf.used) :
    endOfHeaders buf.bytes = endOfHeaders buf.filled := by
  rw [endOfHeaders, endOfHeaders, h.strstr_bytes hused, h.strstr_bytes hused]

/-- The head ends inside the bytes received. -/
theorem RequestBuffer.Sound.headEnd_le (h : buf.Sound) {e n : Nat}
    (hend : endOfHeaders buf.filled = some (e, n)) : e + n ≤ buf.used := by
  have hle := (endOfHeaders_spec hend).1
  have hstr := (cstr_isPrefix buf.filled).length_le
  rw [h.length_filled] at hstr
  omega

/-- The array and the bytes received hold the same head. -/
theorem RequestBuffer.Sound.sameHead (h : buf.Sound) (hused : 0 < buf.used) {e n : Nat}
    (hend : endOfHeaders buf.filled = some (e, n)) : SameHead buf.bytes buf.filled e n where
  left := (h.endOfHeaders_bytes hused).trans hend
  right := hend
  head := by
    have hle := h.headEnd_le hend
    rw [RequestBuffer.filled, List.take_take, Nat.min_eq_left (by omega)]

theorem RequestBuffer.Sound.parseRawRequest_bytes (h : buf.Sound) (hused : 0 < buf.used) :
    parseRawRequest buf.bytes = parseRawRequest buf.filled := by
  cases hend : endOfHeaders buf.filled with
  | none =>
      have hend' : endOfHeaders buf.bytes = none := (h.endOfHeaders_bytes hused).trans hend
      simp only [parseRawRequest, hend, hend']
  | some sep =>
      have hsame : SameHead buf.bytes buf.filled sep.1 sep.2 := h.sameHead hused hend
      rw [parseRawRequest_eq hsame.left, parseRawRequest_eq hsame.right, hsame.head,
        h.cstr_bytes hused]

end Sound

-- ============================================================================
-- The lengths of one request
-- ============================================================================

/-- The length is in its range: where `parse_request` is called, a NUL stands
    behind the bytes received and the head ends among them; of a body less is
    copied than it is long, and of the rest at least one byte is asked for and
    no more than is missing; `path_only` has room for the NUL; and no more is
    moved to the front than is in use. -/
def BufferUse.InRange : BufferUse → Prop
  | .parse bytes used =>
      bytes.length = MNET_REQUEST_BUFFER_SIZE ∧ used ≤ MNET_REQUEST_BUFFER_SIZE - 1 ∧
        bytes[used]? = some 0 ∧ ∃ e n, endOfHeaders bytes = some (e, n) ∧ e + n ≤ used
  | .copyBody initialBodyLen contentLength => initialBodyLen < contentLength
  | .recvBody contentLength totalReceived asked got =>
      1 ≤ asked ∧ totalReceived + asked ≤ contentLength ∧ totalReceived + got ≤ contentLength
  | .storePath length => length ≤ 2047
  | .shift remaining used => remaining ≤ used

/-- The loop counts the bytes it has. -/
theorem recvBodyAt_eq {conn : Conn} {deadlineMs : Int} {contentLength : Nat} {fullBody : Bytes}
    (hle : fullBody.length ≤ contentLength) :
    (recvBodyAt conn deadlineMs contentLength fullBody.length fullBody).1 =
        recvBody conn deadlineMs contentLength fullBody ∧
      ∀ use ∈ (recvBodyAt conn deadlineMs contentLength fullBody.length fullBody).2,
        use.InRange := by
  fun_induction recvBody conn deadlineMs contentLength fullBody with
  | case1 conn fullBody hlt conn' hturn =>
      rw [recvBodyAt, if_pos hlt]
      simp only [subSize_eq hle, hturn, List.mem_singleton, forall_eq, true_and]
      exact ⟨by omega, by omega, hle⟩
  | case2 conn fullBody hlt b got conn' hturn ih =>
      have hlen := length_recvTurn_le conn deadlineMs (contentLength - fullBody.length)
      have hasked := (recvLength_le (contentLength - fullBody.length)).1
      rw [hturn] at hlen
      dsimp only at hlen
      have hnext : (fullBody ++ b :: got).length = fullBody.length + (b :: got).length :=
        List.length_append
      obtain ⟨heq, hrange⟩ := ih (by omega)
      rw [hnext] at heq hrange
      rw [recvBodyAt, if_pos hlt]
      simp only [subSize_eq hle, hturn, List.mem_cons, forall_eq_or_imp]
      exact ⟨heq, ⟨by omega, by omega, by omega⟩, hrange⟩
  | case3 conn fullBody hge =>
      rw [recvBodyAt, if_neg hge]
      exact ⟨rfl, by simp⟩

section Sound

variable {buf : RequestBuffer} {conn : Conn} {maxBodySize : Nat} {timeoutMs : Int}

theorem readFullBodyAt_eq (h : buf.Sound) (hused : 0 < buf.used) :
    (readFullBodyAt conn buf.bytes buf.used maxBodySize timeoutMs).1 =
        readFullBody conn buf.filled buf.filled.length maxBodySize timeoutMs ∧
      ∀ use ∈ (readFullBodyAt conn buf.bytes buf.used maxBodySize timeoutMs).2,
        use.InRange := by
  rw [readFullBodyAt.eq_def, readFullBody.eq_def, h.endOfHeaders_bytes hused, h.length_filled]
  cases hend : endOfHeaders buf.filled with
  | none => exact ⟨rfl, by simp⟩
  | some sep =>
      obtain ⟨headerEnd, sepLen⟩ := sep
      have hle := h.headEnd_le hend
      dsimp only
      rw [(h.sameHead hused hend).contentLength, subSize_eq hle]
      cases hlength : contentLength buf.filled headerEnd maxBodySize with
      | error code => exact ⟨rfl, by simp⟩
      | ok n =>
          cases n with
          | zero => exact ⟨rfl, by simp⟩
          | succ n =>
              dsimp only
              split
              · exact ⟨rfl, by simp⟩
              · split
                · exact ⟨rfl, by simp⟩
                · next hshort =>
                  have hinitial : (buf.bytes.drop (headerEnd + sepLen)).take
                      (buf.used - (headerEnd + sepLen)) =
                      (buf.filled.drop (headerEnd + sepLen)).take
                        (buf.used - (headerEnd + sepLen)) := by
                    rw [RequestBuffer.filled, List.drop_take, List.take_take, Nat.min_self]
                  have hlen : ((buf.filled.drop (headerEnd + sepLen)).take
                      (buf.used - (headerEnd + sepLen))).length =
                      buf.used - (headerEnd + sepLen) := by
                    rw [List.length_take, List.length_drop, h.length_filled, Nat.min_self]
                  obtain ⟨heq, hrange⟩ := @recvBodyAt_eq conn.tick (conn.nowMs + timeoutMs)
                    (n + 1) ((buf.filled.drop (headerEnd + sepLen)).take
                      (buf.used - (headerEnd + sepLen))) (by omega)
                  rw [hlen] at heq hrange
                  have hcopied : (BufferUse.copyBody (buf.used - (headerEnd + sepLen))
                      (n + 1)).InRange := by
                    show buf.used - (headerEnd + sepLen) < n + 1
                    omega
                  rw [hinitial, heq]
                  rcases hbody : recvBody conn.tick (conn.nowMs + timeoutMs) (n + 1)
                    ((buf.filled.drop (headerEnd + sepLen)).take
                      (buf.used - (headerEnd + sepLen))) with ⟨block, conn'⟩
                  cases block with
                  | none => exact ⟨rfl, List.forall_mem_cons.mpr ⟨hcopied, hrange⟩⟩
                  | some block => exact ⟨rfl, List.forall_mem_cons.mpr ⟨hcopied, hrange⟩⟩

theorem length_scanWord_le {width : Nat} {text word rest : Bytes}
    (h : scanWord width text = some (word, rest)) : word.length ≤ width := by
  simp only [scanWord] at h
  split at h
  · simp at h
  · obtain ⟨rfl, -⟩ := Prod.mk.inj (Option.some.inj h)
    exact List.length_take_le _ _

/-- `path` is an array of 2048 bytes, and `sscanf` fills at most 2047. -/
theorem length_path_le {buffer method path : Bytes}
    (h : parseRawRequest buffer = (true, method, path)) : path.length ≤ 2047 := by
  rw [parseRawRequest.eq_def] at h
  repeat' split at h
  all_goals simp only [Prod.mk.injEq, Bool.false_eq_true, false_and, true_and] at h
  next hscan =>
  rw [← h.2]
  exact length_scanWord_le hscan

theorem length_pathOnly_le (out : ParsedRequest) :
    (splitTarget out).pathOnly.length ≤ out.path.length := by
  rw [splitTarget, splitAtByte]
  cases hmark : strchr out.path 63 with
  | none => exact Nat.le_refl _
  | some mark => exact List.length_take_le' mark out.path

theorem parseRequestAt_eq (h : buf.Sound) (hused : 0 < buf.used) :
    (parseRequestAt conn buf.bytes buf.used maxBodySize timeoutMs).1 =
        parseRequest conn buf.filled buf.filled.length maxBodySize timeoutMs ∧
      ∀ use ∈ (parseRequestAt conn buf.bytes buf.used maxBodySize timeoutMs).2,
        use.InRange := by
  obtain ⟨hbody, hrange⟩ := @readFullBodyAt_eq buf conn maxBodySize timeoutMs h hused
  rw [parseRequestAt.eq_def, parseRequest.eq_def, h.parseRawRequest_bytes hused,
    h.endOfHeaders_bytes hused]
  rcases hraw : parseRawRequest buf.filled with ⟨ok, method, path⟩
  cases ok with
  | false => exact ⟨rfl, by simp⟩
  | true =>
      have hpath := length_path_le hraw
      obtain ⟨e, n, hend⟩ := endOfHeaders_of_parseRawRequest hraw
      cases hm : mnetParseMethod method with
      | none => simp only [hm, List.not_mem_nil, false_implies, implies_true, and_self]
      | some m =>
          rcases hread : readFullBodyAt conn buf.bytes buf.used maxBodySize timeoutMs with
            ⟨⟨r, conn'⟩, uses⟩
          rw [hread] at hbody hrange
          simp only [hm, hend, (h.sameHead hused hend).head, ← hbody]
          by_cases h1 : r.code = -1
          · simp only [if_pos h1, true_and]
            exact hrange
          by_cases h2 : r.code = -2
          · simp only [if_neg h1, if_pos h2, true_and]
            exact hrange
          by_cases h3 : r.code = -3
          · simp only [if_neg h1, if_neg h2, if_pos h3, true_and]
            exact hrange
          by_cases h4 : r.code = -4
          · simp only [if_neg h1, if_neg h2, if_neg h3, if_pos h4, true_and]
            exact hrange
          simp only [if_neg h1, if_neg h2, if_neg h3, if_neg h4]
          cases hheaders : parseHeaders (buf.filled.take e) with
          | none =>
              simp only [true_and]
              exact hrange
          | some headers =>
              refine ⟨rfl, List.forall_mem_append.mpr ⟨hrange, ?_⟩⟩
              rw [List.forall_mem_singleton, foldl_applyHeader]
              exact Nat.le_trans (length_pathOnly_le _) hpath

end Sound

-- ============================================================================
-- One pass
-- ============================================================================

/-- A buffer taken to be empty. -/
theorem RequestBuffer.Sound.emptied {buf : RequestBuffer} (h : buf.Sound) :
    RequestBuffer.Sound { buf with used := 0 } where
  size := h.size
  room := Nat.zero_le _
  terminated hpos := absurd hpos (Nat.lt_irrefl 0)

/-- The bytes behind an offset, moved to the front. -/
theorem RequestBuffer.Sound.shift {buf : RequestBuffer} (h : buf.Sound) {k : Nat}
    (hk : k < buf.used) :
    RequestBuffer.Sound ⟨storeAt (storeAt buf.bytes 0 (buf.filled.drop k)) (buf.used - k) [0],
        buf.used - k⟩ ∧
      (storeAt (storeAt buf.bytes 0 (buf.filled.drop k)) (buf.used - k) [0]).take
        (buf.used - k) = buf.filled.drop k := by
  have hsize : MNET_REQUEST_BUFFER_SIZE = 8192 := rfl
  have hroom := h.room
  have hlen := h.size
  have hnul : ([0] : Bytes).length = 1 := rfl
  have hdrop : (buf.filled.drop k).length = buf.used - k := by
    rw [List.length_drop, h.length_filled]
  have hmoved : (storeAt buf.bytes 0 (buf.filled.drop k)).length = buf.bytes.length :=
    length_storeAt (by omega)
  refine ⟨{ size := ?_, room := ?_, terminated := fun _ => ?_ }, ?_⟩
  · rw [length_storeAt (by omega), hmoved, hlen]
  · show buf.used - k ≤ MNET_REQUEST_BUFFER_SIZE - 1
    omega
  · exact getElem?_storeAt_singleton 0 (by omega)
  · rw [take_storeAt_of_le _ (Nat.le_refl _) (by omega)]
    have htake := @take_storeAt buf.bytes 0 (buf.filled.drop k) (Nat.zero_le _)
    rw [hdrop, Nat.zero_add, List.take_zero, List.nil_append] at htake
    exact htake

theorem nextBufferAt_eq {buf : RequestBuffer} (h : buf.Sound) (hused : 0 < buf.used) :
    (nextBufferAt buf).1.Sound ∧ (nextBufferAt buf).1.filled = nextBuffer buf.filled ∧
      ∀ use ∈ (nextBufferAt buf).2, use.InRange := by
  rw [nextBufferAt.eq_def, nextBuffer.eq_def, h.endOfHeaders_bytes hused, h.length_filled]
  cases hend : endOfHeaders buf.filled with
  | none => exact ⟨h.emptied, rfl, by simp⟩
  | some sep =>
      obtain ⟨headEnd, sepLen⟩ := sep
      dsimp only
      by_cases hlt : headEnd + sepLen < buf.used
      · have hdrop : buf.bytes.drop (headEnd + sepLen) =
            buf.filled.drop (headEnd + sepLen) ++ 0 :: buf.bytes.drop (buf.used + 1) := by
          conv_lhs => rw [h.bytes_eq hused]
          exact List.drop_append_of_le_length (by rw [h.length_filled]; omega)
        have hstr : strstr (buf.bytes.drop (headEnd + sepLen)) crlfcrlf =
            strstr (buf.filled.drop (headEnd + sepLen)) crlfcrlf := by
          rw [strstr, strstr, hdrop, cstr_append_nul]
        have hlen : (buf.filled.drop (headEnd + sepLen)).length =
            buf.used - (headEnd + sepLen) := by
          rw [List.length_drop, h.length_filled]
        have htake : (buf.bytes.drop (headEnd + sepLen)).take (buf.used - (headEnd + sepLen)) =
            buf.filled.drop (headEnd + sepLen) := by
          rw [hdrop, List.take_left' hlen]
        have hpos : buf.used - (headEnd + sepLen) > 0 := by omega
        rw [if_pos hlt, subSize_eq (Nat.le_of_lt hlt), hstr, htake]
        by_cases hmore : (strstr (buf.filled.drop (headEnd + sepLen)) crlfcrlf).isSome
        · rw [if_pos ⟨hpos, hmore⟩, if_pos ⟨hlt, hmore⟩]
          obtain ⟨hsound, hfilled⟩ := h.shift hlt
          refine ⟨hsound, hfilled, ?_⟩
          rw [List.forall_mem_singleton]
          exact Nat.sub_le _ _
        · rw [if_neg (fun hboth => hmore hboth.2), if_neg (fun hboth => hmore hboth.2)]
          exact ⟨h.emptied, rfl, by simp⟩
      · rw [if_neg hlt, if_neg (fun hboth => hlt hboth.1)]
        exact ⟨h.emptied, rfl, by simp⟩

/-- The list model does the same, and the lengths are in their ranges. -/
structure Refines (r : (Option RequestBuffer × Conn) × List BufferUse) (r' : Option Bytes × Conn) :
    Prop where
  result : r' = (r.1.1.map RequestBuffer.filled, r.1.2)
  sound : ∀ next, r.1.1 = some next → next.Sound
  inRange : ∀ use ∈ r.2, use.InRange

/-- `recv` stores no more than there is room for. -/
theorem recvTurn_fits {conn conn' : Conn} {deadlineMs : Int} {used : Nat} {got : Bytes}
    (hlt : used < MNET_REQUEST_BUFFER_SIZE - 1)
    (hturn : recvTurn conn deadlineMs (MNET_REQUEST_BUFFER_SIZE - 1 - used) = (got, conn')) :
    used + got.length ≤ MNET_REQUEST_BUFFER_SIZE - 1 := by
  have hlen := length_recvTurn_le conn deadlineMs (MNET_REQUEST_BUFFER_SIZE - 1 - used)
  have hasked := (recvLength_le (MNET_REQUEST_BUFFER_SIZE - 1 - used)).1
  rw [hturn] at hlen
  dsimp only at hlen
  omega

theorem Refines.ended (conn : Conn) : Refines ((none, conn), []) (none, conn) where
  result := rfl
  sound next hnext := by simp at hnext
  inRange use huse := by simp at huse

theorem readHeadAt_refines {conn : Conn} {deadlineMs : Int} {buf : RequestBuffer}
    (h : buf.Sound) :
    (readHeadAt conn deadlineMs buf).2.1.Sound ∧
      readHead conn deadlineMs buf.filled = ((readHeadAt conn deadlineMs buf).1,
        (readHeadAt conn deadlineMs buf).2.1.filled, (readHeadAt conn deadlineMs buf).2.2) := by
  fun_induction readHeadAt conn deadlineMs buf with
  | case1 conn buf hlt conn' hturn =>
      rw [subSize_eq (Nat.le_of_lt hlt)] at hturn
      refine ⟨h, ?_⟩
      rw [readHead, h.length_filled, if_pos hlt, hturn]
  | case2 conn buf hlt b got conn' hturn buf' hblank =>
      rw [subSize_eq (Nat.le_of_lt hlt)] at hturn
      obtain ⟨hsound, hfilled⟩ := h.receive (recvTurn_fits hlt hturn)
      have hstop : hasBlankLine (buf.filled ++ b :: got) = true := by
        rw [← hfilled, ← hsound.hasBlankLine_bytes (Nat.add_pos_right _ (Nat.succ_pos _))]
        exact hblank
      refine ⟨hsound, ?_⟩
      rw [readHead, h.length_filled, if_pos hlt, hturn]
      simp only [if_pos hstop]
      exact congrArg (fun filled => (true, filled, conn')) hfilled.symm
  | case3 conn buf hlt b got conn' hturn buf' hblank ih =>
      rw [subSize_eq (Nat.le_of_lt hlt)] at hturn
      obtain ⟨hsound, hfilled⟩ := h.receive (recvTurn_fits hlt hturn)
      have hmore : ¬ hasBlankLine (buf.filled ++ b :: got) = true := by
        rw [← hfilled, ← hsound.hasBlankLine_bytes (Nat.add_pos_right _ (Nat.succ_pos _))]
        exact hblank
      obtain ⟨hsound', hread⟩ := ih hsound
      refine ⟨hsound', ?_⟩
      rw [readHead, h.length_filled, if_pos hlt, hturn]
      simp only [if_neg hmore]
      rw [← hfilled]
      exact hread
  | case4 conn buf hge =>
      refine ⟨h, ?_⟩
      rw [readHead, h.length_filled, if_neg hge]

theorem readRequestAt_refines {app : MnetApp} {keepAlive : Bool} {buf : RequestBuffer}
    {conn : Conn} (h : buf.Sound) :
    (readRequestAt app keepAlive buf conn).2.1.Sound ∧
      readRequest app keepAlive buf.filled conn = ((readRequestAt app keepAlive buf conn).1,
        (readRequestAt app keepAlive buf conn).2.1.filled,
        (readRequestAt app keepAlive buf conn).2.2) := by
  rw [readRequestAt.eq_def, readRequest.eq_def]
  dsimp only
  by_cases hready : buf.used > 0 ∧ hasBlankLine buf.bytes = true
  · have hne : buf.filled ≠ [] := by
      rw [ne_eq, h.filled_eq_nil_iff]
      omega
    have hblank := hready.2
    rw [h.hasBlankLine_bytes hready.1] at hblank
    rw [if_pos hready, if_pos ⟨hne, hblank⟩]
    exact ⟨h, rfl⟩
  · have hnot : ¬ (buf.filled ≠ [] ∧ hasBlankLine buf.filled = true) := by
      rintro ⟨hne, hblank⟩
      rw [ne_eq, h.filled_eq_nil_iff] at hne
      have hused : buf.used > 0 := by omega
      rw [← h.hasBlankLine_bytes hused] at hblank
      exact hready ⟨hused, hblank⟩
    rw [if_neg hready, if_neg hnot]
    exact readHeadAt_refines h

/-- A pass that parses a request has a blank line among the bytes received. -/
theorem serveRequestAt_refines {app : MnetApp} {conn : Conn} {timeoutMs : Int}
    {buf : RequestBuffer} (h : buf.Sound) (hblank : hasBlankLine buf.filled = true) :
    Refines (serveRequestAt app conn timeoutMs buf)
      (serveRequest app conn timeoutMs buf.filled) := by
  have hne : buf.filled ≠ [] := by
    rintro hnil
    rw [hnil] at hblank
    exact absurd hblank (by decide)
  have hused : 0 < buf.used := by
    rw [ne_eq, h.filled_eq_nil_iff] at hne
    omega
  obtain ⟨hparse, hrange⟩ :=
    @parseRequestAt_eq buf conn app.bodyLimit timeoutMs h hused
  obtain ⟨hsound, hnext, hshift⟩ := nextBufferAt_eq h hused
  have hhere : (BufferUse.parse buf.bytes buf.used).InRange := by
    obtain ⟨e, n, hend, -⟩ := endOfHeaders_of_hasBlankLine hblank
    exact ⟨h.size, h.room, h.terminated hused, e, n, (h.endOfHeaders_bytes hused).trans hend,
      h.headEnd_le hend⟩
  rw [serveRequestAt.eq_def, serveRequest.eq_def, ← hparse, ← hnext]
  rcases hparse' : parseRequestAt conn buf.bytes buf.used app.bodyLimit timeoutMs with
    ⟨⟨code, parsed, conn'⟩, uses⟩
  rw [hparse'] at hrange
  have huses : ∀ use ∈ BufferUse.parse buf.bytes buf.used :: uses, use.InRange :=
    List.forall_mem_cons.mpr ⟨hhere, hrange⟩
  dsimp only
  by_cases hok : code ≠ .ok
  · rw [if_pos hok, if_pos hok]
    exact ⟨rfl, by simp, huses⟩
  · rw [if_neg hok, if_neg hok]
    rw [h.length_filled, hsound.length_filled]
    by_cases hkeep : parsed.keepAlive = true
    · rw [if_pos hkeep, if_pos hkeep]
      refine { result := rfl, sound := ?_, inRange := List.forall_mem_append.mpr ⟨huses, hshift⟩ }
      intro next hsome
      obtain rfl := Option.some.inj hsome
      exact hsound
    · rw [if_neg hkeep, if_neg hkeep]
      exact { result := rfl, sound := fun next hnone => by simp at hnone, inRange := huses }

theorem clientStepAt_refines {app : MnetApp} {keepAlive : Bool} {buf : RequestBuffer}
    {conn : Conn} (h : buf.Sound) :
    Refines (clientStepAt app keepAlive buf conn) (clientStep app keepAlive buf.filled conn) := by
  obtain ⟨hsound, hread⟩ := @readRequestAt_refines app keepAlive buf conn h
  have hblank := @readRequest_blankLine app keepAlive buf.filled conn
  rw [clientStepAt.eq_def, clientStep.eq_def, hread]
  rw [hread] at hblank
  rcases hstep : readRequestAt app keepAlive buf conn with ⟨ok, buf₁, conn₁⟩
  rw [hstep] at hsound hblank
  cases ok with
  | false =>
      dsimp only
      rw [hsound.length_filled]
      split
      · exact .ended _
      · exact .ended _
  | true => exact serveRequestAt_refines hsound (hblank rfl)

-- ============================================================================
-- The connection
-- ============================================================================

theorem handleLoopAt_refines {app : MnetApp} {keepAlive : Bool} {buf : RequestBuffer}
    {conn : Conn} (h : buf.Sound) :
    (handleLoopAt app keepAlive buf conn).1 = handleLoop app keepAlive buf.filled conn ∧
      ∀ use ∈ (handleLoopAt app keepAlive buf conn).2, use.InRange := by
  fun_induction handleLoopAt app keepAlive buf conn with
  | case1 keepAlive buf conn conn' uses hstep =>
      have hpass := @clientStepAt_refines app keepAlive buf conn h
      rw [hstep] at hpass
      have hlist : clientStep app keepAlive buf.filled conn = (none, conn') := hpass.result
      rw [handleLoop_none hlist]
      exact ⟨rfl, hpass.inRange⟩
  | case2 keepAlive buf conn next conn' uses hstep end' uses' hloop ih =>
      have hpass := @clientStepAt_refines app keepAlive buf conn h
      rw [hstep] at hpass
      have hlist : clientStep app keepAlive buf.filled conn = (some next.filled, conn') :=
        hpass.result
      obtain ⟨heq, hrange⟩ := ih (hpass.sound next rfl)
      rw [hloop] at heq hrange
      rw [handleLoop_some hlist]
      exact ⟨heq, List.forall_mem_append.mpr ⟨hpass.inRange, hrange⟩⟩

/-- The array before anything is received. -/
theorem RequestBuffer.Sound.fresh {stack : Bytes}
    (hstack : stack.length = MNET_REQUEST_BUFFER_SIZE) : RequestBuffer.Sound ⟨stack, 0⟩ where
  size := hstack
  room := Nat.zero_le _
  terminated hpos := absurd hpos (Nat.lt_irrefl 0)

/-- Whatever the stack holds, the array and the list of the bytes received lead
    to the same run. -/
theorem mnetHandleClientAt_eq (app : MnetApp) {stack : Bytes}
    (hstack : stack.length = MNET_REQUEST_BUFFER_SIZE) (conn : Conn) :
    (mnetHandleClientAt app stack conn).1 = mnetHandleClient app conn :=
  (handleLoopAt_refines (.fresh hstack)).1

/-- And every length it computes is in its range. -/
theorem mnetHandleClientAt_inRange (app : MnetApp) (stack : Bytes)
    (hstack : stack.length = MNET_REQUEST_BUFFER_SIZE) (conn : Conn) :
    ∀ use ∈ (mnetHandleClientAt app stack conn).2, use.InRange :=
  (handleLoopAt_refines (.fresh hstack)).2

/-- A stack full of line feeds, and a request that comes in two segments. -/
theorem mnetHandleClientAt_inRange_dirtyStack :
    (List.replicate 8192 LF).length = MNET_REQUEST_BUFFER_SIZE ∧
      ∀ use ∈ (mnetHandleClientAt {} (List.replicate 8192 LF) (.opened
        [.segment (ascii "POST /a?b HTTP/1.1" ++ CRLF ++ ascii "Content-Length: 3"),
          .segment (CRLF ++ CRLF ++ ascii "ab"), .segment (ascii "c")]
        (fun _ => 0) fun _ => {})).2, use.InRange :=
  ⟨List.length_replicate, mnetHandleClientAt_inRange _ _ List.length_replicate _⟩

end Mnet
