/-
  Mnet.DeliveryIndependence

  The first request of a connection under two ways of cutting its bytes into
  segments.

  The segments decide how many bytes behind the head are in the buffer when it
  is parsed.  What is read off the head does not depend on them; the separator
  does where a CRLFCRLF stands behind an LFLF, the request line does where the
  head has too few words, and the body does where it is so long that `mnet_recv`
  loses the upper half of its length.
-/

import Mnet.Deadlines
import Mnet.SameHead

namespace Mnet

-- ============================================================================
-- The outcome of the first request
-- ============================================================================

/-- What a handler and the caller of `parse_request` see of a request. -/
structure Outcome where
  code : ParseCode
  method : Bytes
  path : Bytes
  headers : List (Bytes × Bytes)
  cookies : List (Bytes × Bytes)
  keepAlive : Bool
  bodyLength : Nat
  body : Bytes
deriving DecidableEq, Repr

def Outcome.of (buffer : Bytes) (code : ParseCode) (req : ParsedRequest) : Outcome where
  code := code
  method := req.method
  path := req.path
  headers := req.extras.headers
  cookies := req.extras.cookies
  keepAlive := req.keepAlive
  bodyLength := req.bodyLength
  body := req.bodyBytes buffer

/-- The head-reading loop, and `parse_request` on what it leaves: no outcome
    when no head comes. -/
def firstRequest (app : MnetApp) (conn : Conn) : Option Outcome × Conn :=
  match readRequest app false [] conn with
  | (false, _, conn) => (none, conn)
  | (true, buffer, conn) =>
      match parseRequest conn buffer buffer.length app.bodyLimit (requestTimeout app false) with
      | (code, req, conn) => (some (.of buffer code req), conn)

/-- The connection brings `text`, all of it before any deadline. -/
structure Brings (app : MnetApp) (text : Bytes) (conn : Conn) : Prop where
  stream : conn.stream = text
  delivers : conn.Delivers text.length
  noTimeout : conn.NoExpiry (firstRequest app conn).2

/-- However `text` is cut into segments, its first request comes out the
    same. -/
def DeliveryIndependent (app : MnetApp) (text : Bytes) : Prop :=
  ∀ conn conn', Brings app text conn → Brings app text conn' →
    (firstRequest app conn).1 = (firstRequest app conn').1

/-- The bytes that can be in the buffer. -/
def window (text : Bytes) : Bytes := text.take bufferRoom

/-- The text starts with a request: its head ends inside the buffer, and the
    body it announces is there. -/
structure CompleteRequest (app : MnetApp) (text : Bytes) (e n : Nat) : Prop where
  head : endOfHeaders (window text) = some (e, n)
  body : ∀ len, contentLength (window text) e app.bodyLimit = .ok len →
    e + n + len ≤ text.length

/-- A body that is read is shorter than `2 ^ 32`, or so long that it lacks
    `2 ^ 32` bytes whatever is in the buffer. -/
def BodyLengthFixed (app : MnetApp) (text : Bytes) (e n : Nat) : Prop :=
  ∀ method path m len, parseRawRequest (window text) = (true, method, path) →
    mnetParseMethod method = some m → contentLength (window text) e app.bodyLimit = .ok len →
    len ≤ app.bodyLimit → len < 2 ^ 32 ∨ 2 ^ 32 + ((window text).length - (e + n)) ≤ len

-- ============================================================================
-- Two parses of one head
-- ============================================================================

/-- The body as far as it is observed. -/
def BodyResult.observed (r : BodyResult) (buffer : Bytes) : Int × Nat × Bytes :=
  (r.code, r.bodyLen, (r.body.mem buffer).take r.bodyLen)

/-- Same head, same body: same outcome. -/
theorem outcome_eq {p w : Bytes} {e n : Nat} (h : SameHead p w e n)
    (hraw : parseRawRequest p = parseRawRequest w) {c c' : Conn} {maxBodySize : Nat} {t : Int}
    (hbody : ∀ method path m, parseRawRequest w = (true, method, path) →
      mnetParseMethod method = some m →
      (readFullBody c p p.length maxBodySize t).1.observed p =
        (readFullBody c' w w.length maxBodySize t).1.observed w) :
    Outcome.of p (parseRequest c p p.length maxBodySize t).1
        (parseRequest c p p.length maxBodySize t).2.1 =
      Outcome.of w (parseRequest c' w w.length maxBodySize t).1
        (parseRequest c' w w.length maxBodySize t).2.1 := by
  rcases hw : parseRawRequest w with ⟨ok, method, path⟩
  rw [hw] at hraw
  cases ok with
  | false => simp only [parseRequest, hraw, hw]; rfl
  | true =>
      cases hm : mnetParseMethod method with
      | none => simp only [parseRequest, hraw, hw, hm]; rfl
      | some m =>
          have hobs := hbody method path m hw hm
          rcases hr : readFullBody c p p.length maxBodySize t with ⟨r, c₁⟩
          rcases hr' : readFullBody c' w w.length maxBodySize t with ⟨r', c₁'⟩
          rw [hr, hr'] at hobs
          simp only [BodyResult.observed, Prod.mk.injEq] at hobs
          obtain ⟨hcode, hlen, hmem⟩ := hobs
          rw [hlen] at hmem
          simp only [parseRequest, hraw, hw, hm, hr, hr', h.left, h.right, h.head, hcode]
          by_cases h1 : r'.code = -1
          · rw [if_pos h1, if_pos h1]
            rfl
          by_cases h2 : r'.code = -2
          · rw [if_neg h1, if_neg h1, if_pos h2, if_pos h2]
            rfl
          by_cases h3 : r'.code = -3
          · rw [if_neg h1, if_neg h1, if_neg h2, if_neg h2, if_pos h3, if_pos h3]
            rfl
          by_cases h4 : r'.code = -4
          · rw [if_neg h1, if_neg h1, if_neg h2, if_neg h2, if_neg h3, if_neg h3, if_pos h4,
              if_pos h4]
            rfl
          rw [if_neg h1, if_neg h1, if_neg h2, if_neg h2, if_neg h3, if_neg h3, if_neg h4,
            if_neg h4]
          cases parseHeaders (w.take e) with
          | none => simp [Outcome.of, ParsedRequest.bodyBytes, hlen, hmem]
          | some headers =>
              simp [Outcome.of, ParsedRequest.bodyBytes, foldl_applyHeader, hlen, hmem]

/-- What there is to observe of a body that begins at `start`, when `k` bytes of
    the text were in the buffer. -/
def bodySeen (maxBodySize : Nat) (text : Bytes) (start k : Nat) :
    Except Int Nat → Int × Nat × Bytes
  | .error code => (code, 0, [])
  | .ok len =>
      if maxBodySize < len ∨ 2 ^ 32 ≤ len - (k - start) then (-1, 0, [])
      else (0, len, (text.drop start).take len)

/-- What is observed of the body depends on the buffer only through the length
    that is missing in it. -/
theorem observed_readFullBody {conn : Conn} {buffer text : Bytes} {maxBodySize e n : Nat} {t : Int}
    (hend : endOfHeaders buffer = some (e, n)) (htext : buffer ++ conn.stream = text)
    (hdel : conn.Delivers conn.stream.length)
    (hexp : conn.NoExpiry (readFullBody conn buffer buffer.length maxBodySize t).2)
    {cl : Except Int Nat} (hcl : contentLength buffer e maxBodySize = cl)
    (hcomplete : ∀ len, cl = .ok len → e + n + len ≤ text.length) :
    (readFullBody conn buffer buffer.length maxBodySize t).1.observed buffer =
      bodySeen maxBodySize text (e + n) buffer.length cl := by
  have hle := (endOfHeaders_spec hend).1
  have hbuf := (cstr_isPrefix buffer).length_le
  have hdrop : text.drop (e + n) = buffer.drop (e + n) ++ conn.stream := by
    rw [← htext, List.drop_append_of_le_length (by omega)]
  cases cl with
  | error code =>
      simp only [readFullBody, hend, hcl]
      rfl
  | ok len =>
      by_cases hlong : maxBodySize < len ∨ 2 ^ 32 ≤ len - (buffer.length - (e + n))
      · have hfailed : (readFullBody conn buffer buffer.length maxBodySize t).1 = { code := -1 } := by
          obtain ⟨code, hbody, hreason⟩ | ⟨len', hcl', hmax, hways⟩ :=
            readFullBody_cases conn hend buffer.length maxBodySize t
          · obtain hcl' | ⟨rfl, -⟩ := hreason
            · rw [hcl] at hcl'
              exact absurd hcl' (by simp)
            · rw [hbody]
          · obtain rfl := Except.ok.inj (hcl.symm.trans hcl')
            have hmiss : 2 ^ 32 ≤ len - (buffer.length - (e + n)) :=
              hlong.resolve_left (Nat.not_lt.mpr hmax)
            obtain ⟨hfast, -⟩ | ⟨-, hbody⟩ := hways
            · omega
            · have hinit : ((buffer.drop (e + n)).take (buffer.length - (e + n))).length =
                  buffer.length - (e + n) := by
                rw [List.length_take, List.length_drop, Nat.min_self]
              have hnone : (recvBody conn.tick (conn.nowMs + t) len
                  ((buffer.drop (e + n)).take (buffer.length - (e + n)))).1 = none :=
                recvBody_none (by rw [hinit]; exact hmiss)
              rw [hbody, hnone]
              rfl
        simp only [hfailed, bodySeen]
        rw [if_pos hlong]
        rfl
      · rw [not_or, Nat.not_lt, Nat.not_le] at hlong
        have hstream : len - (buffer.length - (e + n)) ≤ conn.stream.length := by
          have h := hcomplete len rfl
          have hlen := congrArg List.length htext
          rw [List.length_append] at hlen
          omega
        obtain ⟨r, conn', hbody, hcode, hlen, -, hmem, -⟩ :=
          readFullBody_delivered hend hcl hlong.1 hlong.2 (hdel.mono hstream) hexp
        rw [hbody]
        simp only [BodyResult.observed, bodySeen, hcode, hlen, hmem, hdrop]
        rw [if_neg (by omega)]

-- ============================================================================
-- What the segments decide
-- ============================================================================

/-- The separator's own prefix. -/
theorem hasBlankLine_take {w : Bytes} {e n : Nat} (hend : endOfHeaders w = some (e, n)) :
    hasBlankLine (w.take (e + n)) = true ∧ cstr (w.take (e + n)) = w.take (e + n) := by
  have hle := (endOfHeaders_spec hend).1
  have hcstr : cstr (w.take (e + n)) = w.take (e + n) := by
    rw [← take_cstr hle]
    exact cstr_of_noNul fun h => noNul_cstr w (List.mem_of_mem_take h)
  have hlen : (w.take (e + n)).length = e + n := by
    have h := (cstr_isPrefix w).length_le
    rw [List.length_take]
    omega
  refine ⟨?_, hcstr⟩
  obtain ⟨rfl, hfind⟩ | ⟨rfl, -, hfind⟩ := endOfHeaders_cases hend
  · have h := strstr_isPrefix_of_le (List.take_prefix (e + 4) w) hfind
      (by rw [hcstr, hlen]; exact Nat.le_refl _)
    rw [hasBlankLine, h]
    rfl
  · have h := strstr_isPrefix_of_le (List.take_prefix (e + 2) w) hfind
      (by rw [hcstr, hlen]; exact Nat.le_refl _)
    rw [hasBlankLine, h]
    exact Bool.or_true _

/-- Where no CRLFCRLF stands behind an LFLF, the blank line is complete at the
    end of the separator. -/
theorem blankLineAt_of_chosen {text : Bytes} {e n : Nat}
    (hend : endOfHeaders (window text) = some (e, n))
    (hchosen : FirstBlankLineChosen (window text)) : BlankLineAt text (e + n) := by
  have hle := (endOfHeaders_spec hend).1
  have hlen := (cstr_isPrefix (window text)).length_le
  intro p hp
  constructor
  · intro hblank
    by_contra hlt
    have hpw : p <+: window text :=
      List.prefix_of_prefix_length_le hp (List.take_prefix _ _) (by omega)
    have h := (endOfHeaders_spec ((endOfHeaders_of_isPrefix hpw hblank hchosen).trans hend)).1
    have h' := (cstr_isPrefix p).length_le
    omega
  · intro hle'
    have hpre : (window text).take (e + n) <+: p := by
      refine List.prefix_of_prefix_length_le
        ((List.take_prefix _ _).trans (List.take_prefix _ _)) hp ?_
      exact Nat.le_trans (List.length_take_le _ _) hle'
    obtain ⟨more, rfl⟩ := hpre
    exact hasBlankLine_append (hasBlankLine_take hend).1 more

/-- The first request of a connection is parsed with a prefix of the text in
    the buffer, whose length the segments decide. -/
theorem Brings.readRequest {app : MnetApp} {text : Bytes} {conn : Conn} (h : Brings app text conn)
    {e n : Nat} (hend : endOfHeaders (window text) = some (e, n))
    (hchosen : FirstBlankLineChosen (window text)) :
    ∃ k conn', readRequest app false [] conn = (true, text.take k, conn') ∧
      e + n ≤ k ∧ k ≤ (window text).length ∧
      k = min (segmentEnd conn.arrivals (e + n - 1)) bufferRoom ∧
      text.take k ++ conn'.stream = text ∧ conn'.Delivers conn'.stream.length ∧
      conn'.NoExpiry (parseRequest conn' (text.take k) (text.take k).length app.bodyLimit
        (requestTimeout app false)).2.2 := by
  have hle := (endOfHeaders_spec hend).1
  have hlen := (cstr_isPrefix (window text)).length_le
  have hwindow : (window text).length = min bufferRoom text.length := List.length_take ..
  have hpos : 0 < n := by obtain ⟨rfl, -⟩ | ⟨rfl, -⟩ := endOfHeaders_cases hend <;> omega
  have hread : Mnet.readRequest app false [] conn =
      readHead (conn.beginPass []) (conn.nowMs + requestTimeout app false) [] := by
    simp [Mnet.readRequest]
  obtain ⟨got, hrecv, -⟩ := readRequest_received app false [] conn
  have hbegin : (conn.beginPass []).log = conn.log ++ [.waiting conn.nowMs] := rfl
  -- neither the head loop nor the body loop gave up
  have hnone : (conn.beginPass []).NoExpiry (Mnet.readRequest app false [] conn).2.2 ∧
      ∀ buffer conn', Mnet.readRequest app false [] conn = (true, buffer, conn') →
        conn'.NoExpiry (parseRequest conn' buffer buffer.length app.bodyLimit
          (requestTimeout app false)).2.2 := by
    have hall := h.noTimeout
    obtain ⟨es, hes, -⟩ := hrecv.log
    rcases heq : Mnet.readRequest app false [] conn with ⟨ok, buffer, conn'⟩
    rw [heq] at hrecv hes
    cases ok with
    | false =>
        have hfirst : (firstRequest app conn).2 = conn' := by simp only [firstRequest, heq]
        rw [hfirst] at hall
        exact ⟨((Conn.noExpiry_trans_iff hbegin hes).mp hall).2, by simp⟩
    | true =>
        obtain ⟨body, hbody⟩ := parseRequest_received conn' buffer buffer.length app.bodyLimit
          (requestTimeout app false)
        obtain ⟨fs, hfs, -⟩ := (hrecv.trans hbody).log
        have hfirst : (firstRequest app conn).2 = (parseRequest conn' buffer buffer.length
            app.bodyLimit (requestTimeout app false)).2.2 := by
          simp only [firstRequest, heq]
        rw [hfirst] at hall
        have hrest := ((Conn.noExpiry_trans_iff hbegin hfs).mp hall).2
        have hboth := (hrecv.noExpiry_trans_iff hbody).mp hrest
        refine ⟨hboth.1, fun buffer' conn'' heq' => ?_⟩
        obtain ⟨rfl, rfl⟩ : buffer = buffer' ∧ conn' = conn'' := by simpa using heq'
        exact hboth.2
  have hblank : BlankLineAt ([] ++ (conn.beginPass []).stream) (e + n) := by
    have hstream : (conn.beginPass []).stream = text := h.stream
    rw [hstream]
    exact blankLineAt_of_chosen hend hchosen
  have hdel : (conn.beginPass []).Delivers (e + n - ([] : Bytes).length) :=
    h.delivers.mono (by rw [List.length_nil]; omega)
  have hexp := hnone.1
  rw [hread] at hexp
  obtain ⟨got, conn', hgot, hrecv, hreach⟩ := readHead_delivered hblank
    (by rw [List.length_nil]; omega) (by omega) hdel hexp
  rw [List.nil_append] at hgot
  rw [List.length_nil, Nat.zero_add, Nat.zero_add, Nat.sub_zero] at hreach
  have hsplit : text = got ++ conn'.stream := by
    rw [← h.stream]
    exact hrecv.stream
  have htake : text.take got.length = got := by rw [hsplit, List.take_left]
  have hstart : e + n ≤ got.length := by
    have hdone : hasBlankLine got = true := by
      have h := @readHead_blankLine (conn.beginPass []) (conn.nowMs + requestTimeout app false) []
      rw [hgot] at h
      exact h rfl
    exact ((blankLineAt_of_chosen hend hchosen) got ⟨_, hsplit.symm⟩).mp hdone
  refine ⟨got.length, conn', ?_, hstart, ?_, hreach, ?_, ?_, ?_⟩
  · rw [htake, hread, hgot]
  · have htext := congrArg List.length hsplit
    rw [List.length_append] at htext
    omega
  · rw [htake, ← hsplit]
  · have hrest := hrecv.delivers _ h.delivers
    have htext := congrArg List.length hsplit
    rw [List.length_append] at htext
    rwa [htext, Nat.add_sub_cancel_left] at hrest
  · rw [htake]
    exact hnone.2 got conn' (by rw [hread, hgot])

theorem sameHead_take {text : Bytes} {e n k : Nat} (hend : endOfHeaders (window text) = some (e, n))
    (hchosen : FirstBlankLineChosen (window text)) (hk : e + n ≤ k)
    (hk' : k ≤ (window text).length) :
    text.take k <+: window text ∧ SameHead (text.take k) (window text) e n := by
  have hwindow : (window text).length = min bufferRoom text.length := List.length_take ..
  have hlen : (text.take k).length = k := by
    rw [List.length_take]
    omega
  have hpre : text.take k <+: window text := by
    refine List.prefix_of_prefix_length_le (List.take_prefix _ _) (List.take_prefix _ _) ?_
    rw [hlen]
    exact hk'
  have hblank : hasBlankLine (text.take k) = true :=
    (blankLineAt_of_chosen hend hchosen _ (List.take_prefix _ _)).mpr (by rw [hlen]; exact hk)
  refine ⟨hpre, ?_, hend, ?_⟩
  · rw [endOfHeaders_of_isPrefix hpre hblank hchosen, hend]
  · rw [window, List.take_take, List.take_take, Nat.min_eq_left (by omega),
      Nat.min_eq_left (by omega)]

/-- The first request, parsed from the `k` bytes the segments brought. -/
theorem Brings.firstRequest {app : MnetApp} {text : Bytes} {conn : Conn} (h : Brings app text conn)
    {e n : Nat} (hcomplete : CompleteRequest app text e n)
    (hchosen : FirstBlankLineChosen (window text)) :
    ∃ k conn', e + n ≤ k ∧ k ≤ (window text).length ∧
      k = min (segmentEnd conn.arrivals (e + n - 1)) bufferRoom ∧
      (firstRequest app conn).1 = some (.of (text.take k)
        (parseRequest conn' (text.take k) (text.take k).length app.bodyLimit
          (requestTimeout app false)).1
        (parseRequest conn' (text.take k) (text.take k).length app.bodyLimit
          (requestTimeout app false)).2.1) ∧
      ∀ method path m, parseRawRequest (text.take k) = (true, method, path) →
        mnetParseMethod method = some m →
        (readFullBody conn' (text.take k) (text.take k).length app.bodyLimit
            (requestTimeout app false)).1.observed (text.take k) =
          bodySeen app.bodyLimit text (e + n) k
            (contentLength (window text) e app.bodyLimit) := by
  obtain ⟨k, conn', hread, hk, hk', hreach, htext, hdel, hexp⟩ :=
    h.readRequest hcomplete.head hchosen
  obtain ⟨-, hsame⟩ := sameHead_take hcomplete.head hchosen hk hk'
  refine ⟨k, conn', hk, hk', hreach, by simp only [Mnet.firstRequest, hread], ?_⟩
  intro method path m hraw hm
  have hwindow : (window text).length = min bufferRoom text.length := List.length_take ..
  have hlen : (text.take k).length = k := by
    rw [List.length_take]
    omega
  rw [parseRequest_conn hraw hm] at hexp
  have hobs := observed_readFullBody hsame.left htext hdel hexp (hsame.contentLength _)
    hcomplete.body
  rw [hlen] at hobs ⊢
  exact hobs

/-- The connection that brings the first `k` bytes of the text for
    themselves. -/
def cutAt (text : Bytes) (k : Nat) : Conn :=
  .opened [.segment (text.take k), .segment (text.drop k)] fallingClock fun _ => {}

theorem firstRequest_noExpiry {app : MnetApp} {conn : Conn} (hprompt : Prompt app conn.clock)
    (hexp : .expired ∉ conn.log) : .expired ∉ (firstRequest app conn).2.log := by
  obtain ⟨hnone, hclock⟩ := readRequest_noExpiry hprompt hexp false []
  rcases heq : readRequest app false [] conn with ⟨ok, buffer, conn'⟩
  rw [heq] at hnone hclock
  cases ok with
  | false =>
      simp only [firstRequest, heq]
      exact hnone
  | true =>
      simp only [firstRequest, heq]
      exact (parseRequest_not_expired (hclock ▸ hprompt) hnone false buffer).1

theorem brings_cutAt (app : MnetApp) {text : Bytes} {k : Nat} (hk : 0 < k)
    (hk' : k ≤ text.length) : Brings app text (cutAt text k) where
  stream := by
    show text.take k ++ (text.drop k ++ []) = text
    rw [List.append_nil, List.take_append_drop]
  delivers := by
    show delivers [.segment (text.take k), .segment (text.drop k)] text.length = true
    have hne : text.take k ≠ [] := by
      rw [ne_eq, List.take_eq_nil_iff]
      rintro (h | h)
      · omega
      · rw [h, List.length_nil] at hk'
        omega
    rw [delivers_segment, delivers_segment, List.length_take, List.length_drop,
      Nat.min_eq_left hk', Nat.sub_self]
    refine .inr ⟨hne, ?_⟩
    by_cases hend : text.length - k = 0
    · exact .inl hend
    · refine .inr ⟨?_, delivers_zero _⟩
      rw [ne_eq, List.drop_eq_nil_iff]
      omega
  noTimeout := Conn.noExpiry_of_not_mem
    (firstRequest_noExpiry (prompt_fallingClock app) (by simp [cutAt, Conn.opened]))

theorem segmentEnd_cutAt {text : Bytes} {k i : Nat} (hi : i < k) (hk : k ≤ text.length) :
    segmentEnd (cutAt text k).arrivals i = k := by
  show segmentEnd [.segment (text.take k), .segment (text.drop k)] i = k
  rw [segmentEnd_segment, List.length_take, Nat.min_eq_left hk, if_pos hi]

/-- The same amount is missing under every cut, or none that matters. -/
theorem bodySeen_eq {maxBodySize start k k' most : Nat} {text : Bytes} {cl : Except Int Nat}
    (hk : k ≤ most) (hk' : k' ≤ most)
    (hlen : ∀ len, cl = .ok len → len ≤ maxBodySize →
      len < 2 ^ 32 ∨ 2 ^ 32 + (most - start) ≤ len) :
    bodySeen maxBodySize text start k cl = bodySeen maxBodySize text start k' cl := by
  cases cl with
  | error code => rfl
  | ok len =>
      simp only [bodySeen]
      by_cases hmax : maxBodySize < len
      · rw [if_pos (.inl hmax), if_pos (.inl hmax)]
      · rcases hlen len rfl (by omega) with h | h
        · rw [if_neg (by omega), if_neg (by omega)]
        · rw [if_pos (by omega), if_pos (by omega)]

theorem parseRequest_path (conn : Conn) (buffer : Bytes) (received maxBodySize : Nat) (t : Int) :
    ((parseRequest conn buffer received maxBodySize t).2.1.method,
      (parseRequest conn buffer received maxBodySize t).2.1.path) = (parseRawRequest buffer).2 := by
  rcases hraw : parseRawRequest buffer with ⟨ok, method, path⟩
  cases ok with
  | false => simp only [parseRequest, hraw]
  | true =>
      cases hm : mnetParseMethod method with
      | none => simp only [parseRequest, hraw, hm]
      | some m =>
          simp only [parseRequest, hraw, hm]
          repeat' split
          all_goals simp [foldl_applyHeader]

/-- Behind the head of a buffer that ends there are no words. -/
theorem words_separator {w : Bytes} {e n : Nat} (hend : endOfHeaders w = some (e, n))
    (hlen : w.length = e + n) : words ((cstr w).drop e) = [] := by
  have hle := (endOfHeaders_spec hend).1
  have hcstr : cstr w = w :=
    (cstr_isPrefix w).eq_of_length_le (by omega)
  obtain ⟨rfl, hfind⟩ | ⟨rfl, -, hfind⟩ := endOfHeaders_cases hend
  · have hocc : crlfcrlf <+: (cstr w).drop e := (Search.find_eq_some_iff.mp hfind).2.1
    have hsep := hocc.eq_of_length (by rw [hcstr, List.length_drop, hlen]; simp [crlfcrlf])
    rw [← hsep]
    exact Tokens.tokens_eq_nil_of_forall (by decide +kernel)
  · have hocc : lflf <+: (cstr w).drop e := (Search.find_eq_some_iff.mp hfind).2.1
    have hsep := hocc.eq_of_length (by rw [hcstr, List.length_drop, hlen]; simp [lflf])
    rw [← hsep]
    exact Tokens.tokens_eq_nil_of_forall (by decide +kernel)

/-- For every complete request: where no CRLFCRLF stands behind an LFLF, the
    request line is in the head and no cut lets a body of 4 GiB and more in, the
    outcome does not depend on the segments. -/
theorem deliveryIndependent_of_fixed {app : MnetApp} {text : Bytes} {e n : Nat}
    (hcomplete : CompleteRequest app text e n) (hchosen : FirstBlankLineChosen (window text))
    (hline : RequestLineFixed (window text) e) (hlength : BodyLengthFixed app text e n) :
    DeliveryIndependent app text := by
  intro conn conn' h h'
  obtain ⟨k, c, hk, hmost, -, hfirst, hbody⟩ := h.firstRequest hcomplete hchosen
  obtain ⟨k', c', hk', hmost', -, hfirst', hbody'⟩ := h'.firstRequest hcomplete hchosen
  obtain ⟨hpre, hsame⟩ := sameHead_take hcomplete.head hchosen hk hmost
  obtain ⟨hpre', hsame'⟩ := sameHead_take hcomplete.head hchosen hk' hmost'
  have hraw := hsame.parseRawRequest hpre hline
  have hraw' := hsame'.parseRawRequest hpre' hline
  have hboth : SameHead (text.take k) (text.take k') e n :=
    ⟨hsame.left, hsame'.left, hsame.head.trans hsame'.head.symm⟩
  rw [hfirst, hfirst', outcome_eq hboth (hraw.trans hraw'.symm)]
  intro method path m hline' hm
  rw [hbody method path m (by rw [hraw, ← hraw', hline']) hm, hbody' method path m hline' hm]
  exact bodySeen_eq hmost hmost'
    (hlength method path m · (hraw'.symm.trans hline') hm · ·)

/-- The outcome of a complete request does not depend on the segments exactly
    when the request line is in the head and no cut lets a body of 4 GiB and
    more in; where no CRLFCRLF stands behind an LFLF. -/
theorem deliveryIndependent_iff {app : MnetApp} {text : Bytes} {e n : Nat}
    (hcomplete : CompleteRequest app text e n)
    (hchosen : FirstBlankLineChosen (window text)) :
    DeliveryIndependent app text ↔
      RequestLineFixed (window text) e ∧ BodyLengthFixed app text e n := by
  constructor
  · intro hindep
    have hle := (endOfHeaders_spec hcomplete.head).1
    have hcstr := (cstr_isPrefix (window text)).length_le
    have hwindow : (window text).length = min bufferRoom text.length := List.length_take ..
    have hpos : 0 < n := by obtain ⟨rfl, -⟩ | ⟨rfl, -⟩ := endOfHeaders_cases hcomplete.head <;> omega
    -- the head alone in the buffer, against all it can hold
    have h := brings_cutAt app (k := e + n) (by omega) (by omega : e + n ≤ text.length)
    have h' := brings_cutAt app (k := (window text).length) (by omega)
      (by omega : (window text).length ≤ text.length)
    have heq := hindep _ _ h h'
    obtain ⟨k, c, hk, hmost, hreach, hfirst, hbody⟩ := h.firstRequest hcomplete hchosen
    obtain ⟨k', c', hk', hmost', hreach', hfirst', hbody'⟩ := h'.firstRequest hcomplete hchosen
    rw [segmentEnd_cutAt (by omega) (by omega), Nat.min_eq_left (by omega)] at hreach hreach'
    subst hreach hreach'
    have hw : text.take (window text).length = window text :=
      (List.prefix_iff_eq_take.mp (List.take_prefix _ _)).symm
    rw [hw] at hfirst' hbody'
    rw [hfirst, hfirst', Option.some.injEq] at heq
    obtain ⟨hpre, hsame⟩ := sameHead_take hcomplete.head hchosen hk hmost
    have hshort : words ((cstr (text.take (e + n))).drop e) = [] :=
      words_separator hsame.left (by rw [List.length_take]; omega)
    have hline : RequestLineFixed (window text) e := by
      by_contra hnot
      refine hsame.parseRawRequest_ne hshort hnot ?_
      rw [← parseRequest_path c _ (text.take (e + n)).length app.bodyLimit
          (requestTimeout app false),
        ← parseRequest_path c' _ (window text).length app.bodyLimit (requestTimeout app false)]
      exact Prod.ext (congrArg Outcome.method heq) (congrArg Outcome.path heq)
    refine ⟨hline, fun method path m len hraw hm hcl hmax => ?_⟩
    by_contra hnot
    have hraw' := (hsame.parseRawRequest hpre hline).trans hraw
    have hobs := hbody method path m hraw' hm
    have hobs' := hbody' method path m hraw hm
    rw [hcl, bodySeen, if_pos (by omega)] at hobs
    rw [hcl, bodySeen, if_neg (by omega)] at hobs'
    have hcode := congrArg Prod.fst hobs
    have hcode' := congrArg Prod.fst hobs'
    have htoo := (parseRequest_tooLarge hraw' hm _ _ _).mpr hcode
    have hsameCode := congrArg Outcome.code heq
    have htoo' := (parseRequest_tooLarge hraw hm _ _ _).mp (hsameCode.symm.trans htoo)
    rw [show (readFullBody c' (window text) (window text).length app.bodyLimit
      (requestTimeout app false)).1.code = 0 from hcode'] at htoo'
    exact absurd htoo' (by decide)
  · rintro ⟨hline, hlength⟩
    exact deliveryIndependent_of_fixed hcomplete hchosen hline hlength

/-- A request whose body is in the buffer or not. -/
def twoByteBody : Bytes := ascii "POST / HTTP/1.1\r\nContent-Length: 2\r\n\r\nhi"

theorem deliveryIndependent_twoByteBody :
    CompleteRequest {} twoByteBody 34 4 ∧ FirstBlankLineChosen (window twoByteBody) ∧
      DeliveryIndependent {} twoByteBody := by
  have hcl : contentLength (window twoByteBody) 34 ({} : MnetApp).bodyLimit = .ok 2 := by
    decide +kernel
  have hcomplete : CompleteRequest {} twoByteBody 34 4 := by
    refine ⟨by decide +kernel, fun len hlen => ?_⟩
    obtain rfl : 2 = len := Except.ok.inj (hcl.symm.trans hlen)
    decide +kernel
  have hchosen : FirstBlankLineChosen (window twoByteBody) := by decide +kernel
  refine ⟨hcomplete, hchosen, ?_⟩
  apply (deliveryIndependent_iff hcomplete hchosen).mpr
  refine ⟨by decide +kernel, fun method path m len hraw hm hlen hmax => ?_⟩
  obtain rfl : 2 = len := Except.ok.inj (hcl.symm.trans hlen)
  exact .inl (by decide)

/-- A request that ends in LFLF, with a body that looks like the end of a
    head. -/
def bodyLikeHead : Bytes :=
  ascii "POST / HTTP/1.1\nContent-Length: 6\n\nab\r\n\r\n"

/-- In one segment the CRLFCRLF of the body is taken for the end of the head,
    and there are no six bytes behind it; in two it is not there yet. -/
theorem not_deliveryIndependent :
    contentLength bodyLikeHead 33 MNET_MAX_BODY_SIZE = .ok 6 ∧
      endOfHeaders (bodyLikeHead.take 35) = some (33, 2) ∧ bodyLikeHead.length = 41 ∧
      ¬ DeliveryIndependent {} bodyLikeHead := by
  refine ⟨by decide +kernel, by decide +kernel, by decide +kernel, fun hindep => ?_⟩
  have hlen : bodyLikeHead.length = 41 := by decide +kernel
  have h := hindep _ _ (brings_cutAt {} (k := 35) (by omega) (by omega))
    (brings_cutAt {} (k := 41) (by omega) (by omega))
  have hcode := congrArg (Option.map Outcome.code) h
  revert hcode
  decide +kernel

end Mnet
